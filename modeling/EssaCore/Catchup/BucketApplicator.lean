import EssaCore.Catchup.ApplyBucketsWork
import EssaCore.Ledger.RootCommit

/-!
# Writing a bucket to the database in batches

`bucket/BucketApplicator.cpp` 40–68 over nested ledger transactions: each call of `advance` opens a
transaction over the root, writes entries without loading them, and commits. When a batch is full
the loop ends before the iterator moves on, so the last entry of a batch is written again by the
next call. `ApplyBucketsWork.lean` runs the same loop over maps.

- `advance`, `applyAll` — the code, for any sizes of the batches of the applicator and of the root;
- `Undeleting`, `wp_rootCommitEntries_total` — a commit that deletes nothing, or may delete what is
  not there, does not abort;
- `Writing` — the transaction while entries are written;
- `applyAll_writes` — every size of at least one ends, with the bucket on top of the database;
- `Counters`, `applied_once_iff` — when the entries are counted right.
-/

open List Option AList

namespace EssaCore.Buckets

open Ledger Lib Overlay

variable {env : LtxEnv}

/-! ## The code -/

namespace BucketApplicator

/-- One entry -/
def writeEntry : BucketEntry → LtxM env Unit
  | .LIVEENTRY liveEntry => createOrUpdateWithoutLoading 0 liveEntry
  | .DEADENTRY deadEntry => eraseWithoutLoading 0 deadEntry

/-- `BucketApplicator::advance`; `order` is how the commit iterates over the changes. -/
def advance (batchSize commitSize : ℕ) (order : IterationOrder) (iter : List BucketEntry) :
    LtxM env (List BucketEntry × ℕ) := do
  openChild 0 false
  let result ← advanceLoop batchSize writeEntry 0 iter
  commit commitSize 0 order
  pure result

/-- `advance` is called while the applicator is true, with a number of rounds. -/
def applyAll (batchSize commitSize : ℕ) (orders : ℕ → IterationOrder) :
    ℕ → List BucketEntry → LtxM env Unit
  | _, [] => pure ()
  | 0, _ :: _ => throw .outOfFuel
  | rounds + 1, e :: iter => do
    let (iter, _) ← advance batchSize commitSize (orders rounds) (e :: iter)
    applyAll batchSize commitSize orders rounds iter

end BucketApplicator

/-! ## Commits that do not abort -/

/-- Nothing is deleted, or what is deleted need not be there. -/
def Undeleting (cons : LedgerTxnConsistency) (bleca : BulkLedgerEntryChangeAccumulator) : Prop :=
  cons = .EXACT → ∀ type, bleca type .delete = []

variable {batchSize : ℕ}

section Commit

variable {s : Stack env} {cons : LedgerTxnConsistency} {threshold : ℕ}

variable {bleca : BulkLedgerEntryChangeAccumulator}

theorem wp_bulkApplyBuffer_total {b : LedgerEntryType × BulkKind} (h : Undeleting cons bleca) :
    wp (bulkApplyBuffer threshold cons b bleca) (fun bleca' _ => Undeleting cons bleca')
      (fun _ _ => False) s := by
  have hcleared : Undeleting cons (clearBuffer bleca b) := by
    intro hcons type
    unfold clearBuffer
    split
    · rfl
    · exact h hcons type
  obtain ⟨type, kind⟩ := b
  unfold bulkApplyBuffer
  rw [wp_ite]
  refine ⟨fun hlen => ?_, fun _ => h⟩
  cases kind with
  | upsert => exact hcleared
  | delete =>
    -- an exact commit has nothing to delete, so this buffer is not written
    have hcons : cons ≠ .EXACT := fun hcons => by
      rw [h hcons type] at hlen
      exact absurd hlen (Nat.not_lt_zero _)
    rw [wp_bind, bulkDelete, wp_bind, wp_get, wp_bind, wp_modify, wp_ite]
    exact ⟨fun hnot => absurd hnot.2 hcons, fun _ => hcleared⟩

theorem wp_bulkApplyBuffers_total (bs : List (LedgerEntryType × BulkKind))
    (h : Undeleting cons bleca) :
    wp (bulkApplyBuffers threshold cons bs bleca) (fun bleca' _ => Undeleting cons bleca')
      (fun _ _ => False) s := by
  induction bs generalizing s bleca with
  | nil => exact h
  | cons b bs ih =>
    rw [bulkApplyBuffers, wp_bind]
    exact (wp_bulkApplyBuffer_total h).imp fun _ _ h' => ih h'

theorem Undeleting.accumulate {c : EntryChange}
    (h : Undeleting cons bleca) (hc : cons = .EXACT → c.2.isSome) :
    Undeleting cons (accumulate bleca c) := by
  intro hcons type
  have hkind : EntryChange.kind c = .upsert := by
    obtain ⟨e, he⟩ := isSome_iff_exists.mp (hc hcons)
    rw [EntryChange.kind, he]
  rw [Ledger.accumulate, hkind, if_neg fun h => nomatch h.2]
  exact h hcons type

theorem wp_rootCommitEntries_total (iter : List EntryChange)
    (h : Undeleting cons bleca)
    (hiter : ∀ c ∈ iter, cons = .EXACT → c.2.isSome) :
    wp (rootCommitEntries batchSize cons iter bleca) (fun _ _ => True) (fun _ _ => False) s := by
  induction iter generalizing s bleca with
  | nil => trivial
  | cons c iter ih =>
    rw [rootCommitEntries]
    refine (wp_bulkApplyBuffers_total bulkOrder (h.accumulate (hiter c mem_cons_self))).bind
      fun _ _ h' => ?_
    exact ih h' fun c' hc' => hiter c' (mem_cons_of_mem c hc')

end Commit

/-! ## A batch -/

/-- A transaction over the root that has written some entries without loading them -/
structure Writing (root : LedgerTxnRootImpl env) (ltx : EntryMap) (t : LedgerTxnImpl)
    (s : Stack env) : Prop where
  txns : s.txns = [t]
  root : s.root = root
  entries : t.mEntry = ltx
  active : t.mActive = ∅
  unsealed : t.mIsSealed = false
  lastModified : t.mShouldUpdateLastModified = false
  upserts : t.mConsistency = .EXACT → ∀ key, ltx.lookup key ≠ some none

namespace BucketApplicator

variable {root : LedgerTxnRootImpl env} {ltx : EntryMap} {t : LedgerTxnImpl} {s : Stack env}

theorem wp_getOpenImpl_writing {Q : LedgerTxnImpl → Stack env → Prop}
    {E : LtxError → Stack env → Prop}
    (h : Writing root ltx t s) (hQ : Q t s) : wp (getOpenImpl 0) Q E s := by
  have himpl : s.txns[0]? = some t := by rw [h.txns]; rfl
  simp only [getOpenImpl, getImpl, throwIfSealed, wp_bind, wp_get, himpl, wp_pure,
    h.unsealed]
  exact hQ

theorem Writing.set (h : Writing root ltx t s) {t' : LedgerTxnImpl} {ltx' : EntryMap}
    (hentries : t'.mEntry = ltx') (hactive : t'.mActive = ∅)
    (hunsealed : t'.mIsSealed = false) (hlast : t'.mShouldUpdateLastModified = false)
    (hupserts : t'.mConsistency = .EXACT → ∀ key, ltx'.lookup key ≠ some none) :
    Writing root ltx' t' (s.setTxn 0 t') where
  txns := by rw [Stack.setTxn, h.txns]; rfl
  root := h.root
  entries := hentries
  active := hactive
  unsealed := hunsealed
  lastModified := hlast
  upserts := hupserts

theorem wp_writeEntry (h : Writing root ltx t s) (e : BucketEntry) :
    wp (writeEntry e) (fun _ s' => ∃ t', Writing root (applyEntry ltx e) t' s')
      (fun _ _ => False) s := by
  cases e with
  | LIVEENTRY e =>
    rw [writeEntry, createOrUpdateWithoutLoading, wp_bind]
    refine wp_getOpenImpl_writing h ?_
    rw [h.active, if_neg (notMem_empty _)]
    refine ⟨_, Writing.set h (by rw [h.entries]; rfl) rfl h.unsealed h.lastModified ?_⟩
    intro hcons key
    rw [applyEntry]
    by_cases hkey : key = LedgerEntryKey e
    · rw [hkey, lookup_insert]
      simp
    · rw [lookup_insert_ne hkey]
      exact h.upserts hcons key
  | DEADENTRY k =>
    rw [writeEntry, eraseWithoutLoading, wp_bind]
    refine wp_getOpenImpl_writing h ?_
    refine ⟨_, Writing.set h (by rw [h.entries]; rfl) ?_ h.unsealed h.lastModified (by simp)⟩
    rw [h.active]
    rfl

variable {iter : List BucketEntry}

/-- A batch writes entries from the front of the iterator; writing what is left over them is the
same as writing all. It gets further if a batch has room for one entry. -/
theorem wp_advanceLoop (hsorted : Sorted iter)
    (count : ℕ) (h : Writing root ltx t s) :
    wp (advanceLoop batchSize writeEntry count iter)
      (fun result s' => ∃ ltx' t', Writing root ltx' t' s' ∧ result.1 <:+ iter ∧
        (count < batchSize → iter ≠ [] → result.1.length < iter.length) ∧
        overlayEntries result.1 (ltx'.view root.mDatabase.lookup) =
          overlayEntries iter (ltx.view root.mDatabase.lookup))
      (fun _ _ => False) s := by
  induction iter generalizing count ltx t s with
  | nil => exact ⟨ltx, t, h, suffix_rfl, fun _ hne => absurd rfl hne, rfl⟩
  | cons e iter ih =>
    rw [advanceLoop, wp_bind]
    refine (wp_writeEntry h e).imp ?_
    rintro _ s₁ ⟨t₁, h₁⟩
    rw [wp_ite]
    refine ⟨fun hfull => ?_, fun _ => ?_⟩
    · refine ⟨_, t₁, h₁, suffix_rfl, fun hlt => by omega, ?_⟩
      rw [applyEntry_view]
      exact overlayEntries_cons_update e iter _
    · refine (ih hsorted.tail (count + 1) h₁).imp ?_
      rintro result s₂ ⟨ltx₂, t₂, h₂, hsuffix, -, hover⟩
      refine ⟨ltx₂, t₂, h₂, hsuffix.trans (suffix_cons e iter), fun _ _ => ?_, ?_⟩
      · exact Nat.lt_succ_of_le hsuffix.length_le
      · rw [hover, applyEntry_view, ← overlayEntries_cons hsorted]

theorem lookup_committedEntries (h : Writing root ltx t s) (key : LedgerKey) :
    (committedEntries t).lookup key = ltx.lookup key := by
  rw [committedEntries, h.unsealed, maybeUpdateLastModified, h.lastModified, h.entries]
  show (mapValues (fun e => e) ltx).lookup key = ltx.lookup key
  rw [lookup_mapValues]
  cases ltx.lookup key with
  | none => rfl
  | some v => cases v <;> rfl

/-- The commit of a batch returns, and leaves what was written. -/
theorem wp_commit_writing {commitSize : ℕ} {order : IterationOrder} (h : Writing root ltx t s) :
    wp (commit commitSize 0 order)
      (fun _ s' => s'.txns = [] ∧ s'.root.mDatabase.lookup = ltx.view root.mDatabase.lookup)
      (fun _ _ => False) s := by
  have himpl : s.txns[0]? = some t := by rw [h.txns]; rfl
  have htotal : wp (commit commitSize 0 order) (fun _ _ => True) (fun _ _ => False) s := by
    simp only [commit, getImpl, throwIfChild, wp_bind, wp_get, himpl, wp_pure]
    rw [if_neg (not_not_intro rfl), wp_pure, h.txns, if_neg (by simp), wp_bind, rootCommitChild]
    refine (wp_rootCommitEntries_total _ (fun _ _ => rfl) fun c hc hcons => ?_).bind
      fun _ _ _ => trivial
    -- what is written is in the map of the transaction
    have hmem : c ∈ (committedEntries t).entries := (order.perm _).mem_iff.mp hc
    have hlookup := mem_lookup_iff.mpr hmem
    rw [lookup_committedEntries h] at hlookup
    refine isSome_iff_ne_none.mpr fun hnone => h.upserts hcons c.1 ?_
    rw [← hnone]
    exact hlookup
  refine ((wp_commit_root commitSize order h.txns).and htotal).mono ?_ fun _ _ h' => h'.2
  rintro _ s' ⟨⟨changes, hdone⟩, -⟩
  refine ⟨hdone.txns, ?_⟩
  rw [hdone.lookup, h.root]
  funext key
  rw [view, view, lookup_committedEntries h]

theorem writing_new (root : LedgerTxnRootImpl env) :
    Writing root ∅ (newImpl root.mHeader false) ⟨[newImpl root.mHeader false], root⟩ where
  txns := rfl
  root := rfl
  entries := rfl
  active := rfl
  unsealed := rfl
  lastModified := rfl
  upserts _ _ := nofun

/-- One call of `advance` -/
theorem wp_advance {commitSize : ℕ} {order : IterationOrder}
    (hsorted : Sorted iter) (hs : s.txns = []) :
    wp (advance batchSize commitSize order iter)
      (fun result s' => s'.txns = [] ∧ result.1 <:+ iter ∧
        (0 < batchSize → iter ≠ [] → result.1.length < iter.length) ∧
        overlayEntries result.1 s'.root.mDatabase.lookup =
          overlayEntries iter s.root.mDatabase.lookup)
      (fun _ _ => False) s := by
  obtain ⟨txns, root⟩ := s
  obtain rfl : txns = [] := hs
  rw [advance, wp_bind, openChild, wp_bind, wp_get, wp_ite]
  refine ⟨fun _ => ?_, fun hne => absurd rfl hne⟩
  rw [rootAddChild, wp_bind, wp_bind, wp_get, if_neg (not_not_intro rfl), wp_pure, wp_modify]
  refine (wp_advanceLoop hsorted 0 (writing_new root)).bind ?_
  rintro result s₁ ⟨ltx, t, h, hsuffix, hshorter, hover⟩
  refine (wp_commit_writing h).bind ?_
  rintro _ s₂ ⟨htxns, hlookup⟩
  refine ⟨htxns, hsuffix, hshorter, ?_⟩
  rw [hlookup, hover]
  rfl

/-- Calling `advance` while there are entries left -/
theorem wp_applyAll (batchSize commitSize : ℕ) (hbatch : 1 ≤ batchSize)
    (orders : ℕ → IterationOrder) (hsorted : Sorted iter) {rounds : ℕ}
    (hrounds : iter.length ≤ rounds) (hs : s.txns = []) :
    wp (applyAll batchSize commitSize orders rounds iter) (fun _ s' => s'.txns = [] ∧
        s'.root.mDatabase.lookup = overlayEntries iter s.root.mDatabase.lookup)
      (fun _ _ => False) s := by
  induction rounds generalizing iter s with
  | zero =>
    obtain rfl := length_eq_zero_iff.mp (Nat.le_zero.mp hrounds)
    exact ⟨hs, rfl⟩
  | succ rounds ih =>
    cases iter with
    | nil => exact ⟨hs, rfl⟩
    | cons e iter =>
      rw [applyAll]
      refine (wp_advance hsorted hs).bind ?_
      rintro result s₁ ⟨hs₁, hsuffix, hshorter, hover⟩
      have hlt := hshorter hbatch (cons_ne_nil e iter)
      refine (ih (hsorted.sublist hsuffix.sublist) (by omega) hs₁).imp ?_
      rintro _ s₂ ⟨hs₂, hlookup⟩
      exact ⟨hs₂, hlookup.trans hover⟩

end BucketApplicator

/-- Whatever the sizes of the batches are and in whatever order changes are committed, a bucket is
written in finitely many calls of `advance`: its live entries are in the database, its dead keys are
not, and all other rows are as they were. -/
theorem applyAll_writes (env : LtxEnv) (batchSize commitSize : ℕ) (hbatch : 1 ≤ batchSize)
    (orders : ℕ → IterationOrder) (bucket : Bucket) (s : Stack env) (hs : s.txns = []) :
    ∃ rounds, ∀ n ≥ rounds, ∃ s',
      BucketApplicator.applyAll batchSize commitSize orders n bucket.entries s = .ok () s' ∧
      s'.txns = [] ∧
      ∀ key, s'.root.mDatabase.rows.lookup key =
        match bucket.find key with
        | some (.LIVEENTRY e) => some e
        | some (.DEADENTRY _) => none
        | none => s.root.mDatabase.rows.lookup key := by
  refine ⟨bucket.entries.length, fun n hn => ?_⟩
  have hwp := BucketApplicator.wp_applyAll batchSize commitSize hbatch orders bucket.sorted hn hs
  obtain ⟨_, s', hrun, hs', hlookup⟩ := hwp.returns
  refine ⟨s', hrun, hs', fun key => ?_⟩
  have hkey : s'.root.mDatabase.rows.lookup key =
      ((bucket.find key).map rowOf).getD (s.root.mDatabase.rows.lookup key) := congrFun hlookup key
  rw [hkey]
  cases bucket.find key with
  | none => rfl
  | some e => cases e <;> rfl

/-- Tables with the data entries of three accounts -/
def threeRows : Table :=
  ((AList.singleton (.data 2 "a") (dataEntry 2 5)).insert (.data 3 "a") (dataEntry 3 5)).insert
    (.data 7 "a") (dataEntry 7 5)

/-- A new entry, an entry over a row and the tombstone of a row -/
def threeEntries : Bucket :=
  ⟨[.LIVEENTRY (dataEntry 1 6), .LIVEENTRY (dataEntry 2 6), .DEADENTRY (.data 3 "a")], by decide⟩

/-- Three entries are written one at a time: one is new, one changes a row and one deletes a row; a
row that the bucket does not mention stays. -/
theorem applyAll_writes_three : ∃ rounds, ∀ n ≥ rounds, ∃ s',
    BucketApplicator.applyAll 1 1 (fun _ => ⟨AList.entries, fun _ => List.Perm.refl _⟩) n
      threeEntries.entries (Stack.initial smallHeader threeRows [] [] : Stack smallEnv) =
        .ok () s' ∧
    s'.root.mDatabase.rows.lookup (.data 1 "a") = some (dataEntry 1 6) ∧
    s'.root.mDatabase.rows.lookup (.data 2 "a") = some (dataEntry 2 6) ∧
    s'.root.mDatabase.rows.lookup (.data 3 "a") = none ∧
    s'.root.mDatabase.rows.lookup (.data 7 "a") = some (dataEntry 7 5) := by
  obtain ⟨rounds, hrounds⟩ := applyAll_writes smallEnv 1 1 le_rfl
    (fun _ => ⟨entries, fun _ => Perm.refl _⟩) threeEntries
    (Stack.initial smallHeader threeRows [] []) rfl
  refine ⟨rounds, fun n hn => ?_⟩
  obtain ⟨s', hrun, -, hlookup⟩ := hrounds n hn
  exact ⟨s', hrun, hlookup _, hlookup _, hlookup _, hlookup _⟩

/-- With the sizes that the code has, the database is the one of `ApplyBucketsWork.lean`. -/
theorem applyAll_refines (orders : ℕ → IterationOrder) (bucket : Bucket) {s s' : Stack env}
    (hs : s.txns = []) {n : ℕ} (hn : bucket.entries.length ≤ n)
    (hrun : BucketApplicator.applyAll LEDGER_ENTRY_BATCH_COMMIT_SIZE
      LEDGER_ENTRY_BATCH_COMMIT_SIZE orders n bucket.entries s = .ok () s') :
    s'.root.mDatabase.lookup = applyAll bucket.entries s.root.mDatabase.lookup := by
  rw [applyAll_eq bucket.sorted]
  have hwp := BucketApplicator.wp_applyAll LEDGER_ENTRY_BATCH_COMMIT_SIZE
    LEDGER_ENTRY_BATCH_COMMIT_SIZE (by decide) orders bucket.sorted hn hs
  exact (hwp.of_ok hrun).2

/-! ## The counters -/

namespace BucketApplicator

/-- `BucketApplicator::Counters` -/
structure Counters where
  mAccountUpsert : ℕ := 0
  mAccountDelete : ℕ := 0
  mTrustLineUpsert : ℕ := 0
  mTrustLineDelete : ℕ := 0
  mOfferUpsert : ℕ := 0
  mOfferDelete : ℕ := 0
  mDataUpsert : ℕ := 0
  mDataDelete : ℕ := 0

/-- `Counters::mark` -/
def Counters.mark (c : Counters) : BucketEntry → Counters
  | .LIVEENTRY ⟨_, .account _⟩ => { c with mAccountUpsert := c.mAccountUpsert + 1 }
  | .LIVEENTRY ⟨_, .trustLine _⟩ => { c with mTrustLineUpsert := c.mTrustLineUpsert + 1 }
  | .LIVEENTRY ⟨_, .offer _⟩ => { c with mOfferUpsert := c.mOfferUpsert + 1 }
  | .LIVEENTRY ⟨_, .data _⟩ => { c with mDataUpsert := c.mDataUpsert + 1 }
  | .DEADENTRY (.account _) => { c with mAccountDelete := c.mAccountDelete + 1 }
  | .DEADENTRY (.trustLine _ _) => { c with mTrustLineDelete := c.mTrustLineDelete + 1 }
  | .DEADENTRY (.offer _ _) => { c with mOfferDelete := c.mOfferDelete + 1 }
  | .DEADENTRY (.data _ _) => { c with mDataDelete := c.mDataDelete + 1 }

/-- `total` of `Counters::getRates` -/
def Counters.total (c : Counters) : ℕ :=
  c.mAccountUpsert + c.mAccountDelete + c.mTrustLineUpsert + c.mTrustLineDelete +
    c.mOfferUpsert + c.mOfferDelete + c.mDataUpsert + c.mDataDelete

/-- The entries that a call of `advance` marks and applies, and the iterator afterwards -/
def marked (batchSize : ℕ) (iter : List BucketEntry) : List BucketEntry × List BucketEntry :=
  let ((iter, _), marks) :=
    (advanceLoop batchSize (fun e => modify (· ++ [e])) 0 iter :
      StateM (List BucketEntry) _).run []
  (marks, iter)

/-- The entries of all calls while the applicator is true. A call returns how many it had. -/
def applied (batchSize : ℕ) : ℕ → List BucketEntry → Option (List BucketEntry)
  | _, [] => some []
  | 0, _ :: _ => none
  | rounds + 1, e :: iter =>
    let (marks, iter) := marked batchSize (e :: iter)
    (applied batchSize rounds iter).map (marks ++ ·)

theorem Counters.total_foldl (c : Counters) (l : List BucketEntry) :
    (l.foldl mark c).total = c.total + l.length := by
  induction l generalizing c with
  | nil => rfl
  | cons e l ih =>
    have hmark : (c.mark e).total = c.total + 1 := by
      rcases e with ⟨_, _ | _ | _ | _⟩ | _ | _ | _ | _ <;> simp only [mark, total] <;> omega
    rw [foldl_cons, ih, hmark, length_cons]
    omega

theorem run_modify_append (l acc : List BucketEntry) :
    (l.forM fun e => modify (· ++ [e]) : StateM (List BucketEntry) Unit).run acc =
      ((), acc ++ l) := by
  induction l generalizing acc with
  | nil => exact congrArg (Prod.mk ()) (append_nil acc).symm
  | cons e l ih => exact (ih (acc ++ [e])).trans (by simp)

theorem marked_eq (batchSize : ℕ) (iter : List BucketEntry) : marked batchSize iter =
    (iter.take (batchSize + 1), iter.drop batchSize) := by
  rw [marked, advanceLoop_eq (Nat.zero_le batchSize), StateT.run_bind, run_modify_append]
  rfl

/-- No entry is missed; with more than `batchSize` entries, one of them is applied twice. -/
theorem length_le_applied {rounds : ℕ} {iter l : List BucketEntry}
    (h : applied batchSize rounds iter = some l) :
    iter.length ≤ l.length ∧ (batchSize < iter.length → iter.length < l.length) := by
  induction rounds generalizing iter l with
  | zero => cases iter <;> simp_all [applied]
  | succ rounds ih =>
    cases iter with
    | nil => simp
    | cons e iter =>
      rw [applied, marked_eq] at h
      obtain ⟨rest, hrest, rfl⟩ := map_eq_some_iff.mp h
      have hle := (ih hrest).1
      rw [length_drop] at hle
      rw [length_append, length_take]
      omega

/-- **Applied once**: over the calls of `advance` each entry is applied and counted once exactly
if the first call gets to the end. -/
theorem applied_once_iff (batchSize : ℕ) (bucket : List BucketEntry) :
    (∃ rounds, applied batchSize rounds bucket = some bucket ∧
      (bucket.foldl Counters.mark {}).total = bucket.length) ↔ bucket.length ≤ batchSize := by
  constructor
  · rintro ⟨rounds, hrun, -⟩
    by_contra hlong
    exact absurd ((length_le_applied hrun).2 (not_le.mp hlong)) (lt_irrefl _)
  · intro hlen
    refine ⟨1, ?_, by rw [Counters.total_foldl]; exact Nat.zero_add _⟩
    cases bucket with
    | nil => rfl
    | cons e iter =>
      rw [applied, marked_eq]
      simp only [drop_eq_nil_of_le hlen, take_of_length_le (Nat.le_succ_of_le hlen)]
      simp [applied]

/-- Two entries in batches of one: the second call applies the last entry again. -/
theorem applied_twice : applied 1 2 [.DEADENTRY (.account 1), .DEADENTRY (.account 2)] =
    some [.DEADENTRY (.account 1), .DEADENTRY (.account 2), .DEADENTRY (.account 2)] := rfl

end BucketApplicator

end EssaCore.Buckets
