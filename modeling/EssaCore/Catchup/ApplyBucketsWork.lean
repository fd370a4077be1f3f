import EssaCore.Ledger.LedgerTxn
import EssaCore.Buckets.RestartMerges
import EssaCore.Buckets.LevelSizes

/-!
# Applying buckets

`catchup/ApplyBucketsWork.cpp`, `bucket/BucketApplicator.cpp`: a node that catches
up from an archive writes the archive's buckets to its database, from the oldest
to the youngest. It skips the oldest ones as long as they are the same as its own;
before it writes the first one that differs, it deletes the rows that were
modified on or after the oldest ledger of this bucket.

- `applyAll` — a bucket is written in batches (`BucketApplicator::advance`);
- `applyLevel`, `applyLevels`, `applyBuckets` — the work, level by level;
- `overlay` — what a list of buckets, the youngest first, makes of a database;
- `applyLevels_eq` — the work writes the buckets from the first difference on.
-/

open List

namespace EssaCore.Buckets

open Ledger Lib

variable {Hash : Type}

/-! ## The database -/

/-- The rows of the database. -/
abbrev Rows := LedgerKey → Option LedgerEntry

/-- `LedgerTxnRoot::deleteObjectsModifiedOnOrAfterLedger` -/
def deleteObjectsModifiedOnOrAfterLedger (ledger : ℕ) (db : Rows) : Rows :=
  fun k => (db k).filter fun e => e.lastModifiedLedgerSeq < ledger

/-! ## A bucket -/

/-- `createOrUpdateWithoutLoading` or `eraseWithoutLoading` -/
def applyEntry (ltx : EntryMap) : BucketEntry → EntryMap
  | .LIVEENTRY e => ltx.insert (LedgerEntryKey e) (some e)
  | .DEADENTRY k => ltx.insert k none

/-- The loop of `BucketApplicator::advance`, for any way to write an entry: the iterator
afterwards and the number of entries. It ends before the iterator moves on from the
last entry of a batch, which is therefore written again. -/
def advanceLoop {m : Type → Type} [Monad m] (batchSize : ℕ) (write : BucketEntry → m Unit) :
    ℕ → List BucketEntry → m (List BucketEntry × ℕ)
  | count, [] => pure ([], count)
  | count, e :: iter => do
    write e
    if count + 1 > batchSize then pure (e :: iter, count + 1)
    else advanceLoop batchSize write (count + 1) iter

/-- A call goes over one entry more than its size, and leaves the iterator at the last
of them. -/
theorem advanceLoop_eq {m : Type → Type} [Monad m] [LawfulMonad m] {batchSize count : ℕ}
    (hcount : count ≤ batchSize) (write : BucketEntry → m Unit) (iter : List BucketEntry) :
    advanceLoop batchSize write count iter =
      (iter.take (batchSize - count + 1)).forM write >>= fun _ =>
        pure (iter.drop (batchSize - count),
          count + (iter.take (batchSize - count + 1)).length) := by
  induction iter generalizing count with
  | nil => simp [advanceLoop]
  | cons e iter ih =>
    rw [advanceLoop]
    split
    · rw [show batchSize - count = 0 by omega]
      simp
    · obtain ⟨k, hk⟩ : ∃ k, batchSize - count = k + 1 := ⟨batchSize - (count + 1), by omega⟩
      rw [ih (by omega), hk, show batchSize - (count + 1) = k by omega]
      simp [Nat.add_assoc, Nat.add_comm 1]

/-- The loop over a map of changes -/
def advanceEntries (count : ℕ) (iter : List BucketEntry) (ltx : EntryMap) :
    (List BucketEntry × ℕ) × EntryMap :=
  (advanceLoop LEDGER_ENTRY_BATCH_COMMIT_SIZE (fun e => modify (applyEntry · e)) count iter :
    StateM EntryMap _).run ltx

/-- `BucketApplicator::advance`: the iterator and the database after a batch -/
def advance (iter : List BucketEntry) (db : Rows) : List BucketEntry × Rows :=
  let ((iter', _), ltx) := advanceEntries 0 iter ∅
  (iter', ltx.view db)

theorem advanceEntries_cons (count : ℕ) (e : BucketEntry) (iter : List BucketEntry)
    (ltx : EntryMap) : advanceEntries count (e :: iter) ltx =
      if count + 1 > LEDGER_ENTRY_BATCH_COMMIT_SIZE then
        ((e :: iter, count + 1), applyEntry ltx e)
      else advanceEntries (count + 1) iter (applyEntry ltx e) := by
  rw [advanceEntries, advanceLoop]
  split <;> rfl

theorem advanceEntries_suffix (count : ℕ) (iter : List BucketEntry) (ltx : EntryMap) :
    (advanceEntries count iter ltx).1.1 <:+ iter := by
  induction iter generalizing count ltx with
  | nil => exact suffix_rfl
  | cons e iter ih =>
    rw [advanceEntries_cons]
    split
    · exact suffix_rfl
    · exact (ih _ _).trans (suffix_cons e iter)

theorem length_advance_lt (e : BucketEntry) (iter : List BucketEntry) (db : Rows) :
    (advance (e :: iter) db).1.length < (e :: iter).length := by
  have hle := (advanceEntries_suffix 1 iter (applyEntry ∅ e)).length_le
  rw [advance, advanceEntries_cons]
  exact Nat.lt_succ_of_le hle

/-- `ApplyBucketsWork` runs `advance` until the iterator is at the end. -/
def applyAll (iter : List BucketEntry) (db : Rows) : Rows :=
  match iter with
  | [] => db
  | e :: iter => applyAll (advance (e :: iter) db).1 (advance (e :: iter) db).2
termination_by iter.length
decreasing_by exact length_advance_lt e iter db

/-! ## The work -/

variable [DecidableEq Hash] {env : BucketHasher Hash} (store : BucketStore env)

/-- `ApplyBucketsWork::getBucket` -/
def getBucket (hash : Hash) : Checked Bucket :=
  match store.getBucketByHash hash with
  | some b => pure b
  | none => .error "b"

/-- The loop of `ApplyBucketsWork::onReset`; a size is the number of entries. -/
def totalSize (has : HistoryArchiveState Hash) : ℕ → Checked ℕ
  | 0 => pure 0
  | i + 1 => do
    let mTotalSize ← totalSize has i
    let snap ← getBucket store (has.currentBuckets i).snap
    let curr ← getBucket store (has.currentBuckets i).curr
    pure (mTotalSize + snap.entries.length + curr.entries.length)

/-- `ApplyBucketsWork::advance`, for a whole bucket -/
def applyBucket (mTotalSize : ℕ) (b : Bucket) (db : Rows) : Checked Rows := do
  if b.entries.isEmpty then pure db
  else do
    assert (mTotalSize ≠ 0) "mTotalSize != 0"
    pure (applyAll b.entries db)

/-- A bucket that has an applicator is written. -/
def applyIf (mTotalSize : ℕ) (apply : Bool) (hash : Hash) (db : Rows) : Checked Rows :=
  if apply then do
    let b ← getBucket store hash
    applyBucket mTotalSize b db
  else pure db

/-- Rows are deleted at the first level with a difference. -/
def deleteIf (has : HistoryArchiveState Hash) (first applySnap : Bool) (i : ℕ)
    (db : Rows) : Checked Rows :=
  if first then do
    assert (has.currentLedger ≠ 0) "ledger != 0"
    let oldestLedger :=
      if applySnap then oldestLedgerInSnap has.currentLedger i
      else oldestLedgerInCurr has.currentLedger i
    pure (deleteObjectsModifiedOnOrAfterLedger oldestLedger db)
  else pure db

/-- `ApplyBucketsWork::onStart`, `onRun` and `onSuccess` for level `i`; the state is
`mApplying` and the database. -/
def applyLevel (bl : BucketList Hash) (has : HistoryArchiveState Hash) (mTotalSize i : ℕ)
    (st : Bool × Rows) : Checked (Bool × Rows) := do
  let (mApplying, db) := st
  let b := has.currentBuckets i
  let applySnap : Bool := b.snap ≠ env.getHash (bl.mLevels i).mSnap
  let applyCurr : Bool := b.curr ≠ env.getHash (bl.mLevels i).mCurr
  let db ← deleteIf has (!mApplying && (applySnap || applyCurr)) applySnap i db
  let mApplying := mApplying || applySnap
  let db ← applyIf store mTotalSize mApplying b.snap db
  let mApplying := mApplying || applyCurr
  let db ← applyIf store mTotalSize mApplying b.curr db
  pure (mApplying, db)

/-- The levels below `i`, from the oldest to the youngest. -/
def applyLevels (bl : BucketList Hash) (has : HistoryArchiveState Hash) (mTotalSize : ℕ) :
    ℕ → Bool × Rows → Checked (Bool × Rows)
  | 0, st => pure st
  | i + 1, st => do
    let st ← applyLevel store bl has mTotalSize i st
    applyLevels bl has mTotalSize i st

/-- `ApplyBucketsWork`, run to completion -/
def applyBuckets (bl : BucketList Hash) (has : HistoryArchiveState Hash) (db : Rows) :
    Checked (BucketList Hash × Rows) := do
  let mTotalSize ← totalSize store has kNumLevels
  let (_, db) ← applyLevels store bl has mTotalSize kNumLevels (false, db)
  let bl ← assumeState store has bl
  pure (bl, db)

/-! ## What a bucket makes of a database -/

/-- The row that an entry stands for. -/
def rowOf : BucketEntry → Option LedgerEntry
  | .LIVEENTRY e => some e
  | .DEADENTRY _ => none

/-- The database with the entries of a list on top. -/
def overlayEntries (iter : List BucketEntry) (db : Rows) : Rows :=
  fun k => ((Buckets.lookup iter k).map rowOf).getD (db k)

theorem applyEntry_view (ltx : EntryMap) (e : BucketEntry) (db : Rows) :
    (applyEntry ltx e).view db = Function.update (ltx.view db) e.key (rowOf e) := by
  cases e <;> exact Overlay.view_insert ..

variable {size i : ℕ} {iter : List BucketEntry}

/-- Writing the first entry, whose key does not come again. -/
theorem overlayEntries_cons {e : BucketEntry} (h : Sorted (e :: iter)) (db : Rows) :
    overlayEntries (e :: iter) db = overlayEntries iter (Function.update db e.key (rowOf e)) := by
  funext k
  unfold overlayEntries
  rw [lookup_cons]
  by_cases hk : e.key = k
  · subst hk
    simp [lookup_tail_eq_none h]
  · simp [hk, Function.update_of_ne (Ne.symm hk)]

/-- Writing the first entry twice. -/
theorem overlayEntries_cons_update (e : BucketEntry) (iter : List BucketEntry) (db : Rows) :
    overlayEntries (e :: iter) (Function.update db e.key (rowOf e)) =
      overlayEntries (e :: iter) db := by
  funext k
  unfold overlayEntries
  rw [lookup_cons]
  by_cases hk : e.key = k
  · simp [hk]
  · simp [Function.update_of_ne (Ne.symm hk)]

theorem overlayEntries_advance (count : ℕ) (h : Sorted iter) (ltx : EntryMap) (db : Rows) :
    overlayEntries (advanceEntries count iter ltx).1.1
        ((advanceEntries count iter ltx).2.view db) =
      overlayEntries iter (ltx.view db) := by
  induction iter generalizing count ltx with
  | nil => rfl
  | cons e iter ih =>
    rw [advanceEntries_cons]
    split
    · rw [applyEntry_view]
      exact overlayEntries_cons_update e iter _
    · rw [ih _ (Pairwise.of_cons h), applyEntry_view, ← overlayEntries_cons h]

/-- A bucket that is written in batches is written. -/
theorem applyAll_eq (h : Sorted iter) (db : Rows) : applyAll iter db = overlayEntries iter db := by
  induction iter, db using applyAll.induct with
  | case1 db =>
    rw [applyAll]
    rfl
  | case2 db e iter ih =>
    have hsuffix : (advance (e :: iter) db).1 <:+ e :: iter :=
      advanceEntries_suffix 0 (e :: iter) ∅
    rw [applyAll, ih (h.sublist hsuffix.sublist)]
    exact overlayEntries_advance 0 h ∅ db

/-- The database with buckets on top, the youngest first. -/
def overlay (bs : List Bucket) (db : Rows) : Rows :=
  fun k => ((bs.findSome? (·.find k)).map rowOf).getD (db k)

theorem overlay_append (bs bs' : List Bucket) (db : Rows) :
    overlay (bs ++ bs') db = overlay bs (overlay bs' db) := by
  funext k
  unfold overlay
  rw [List.findSome?_append]
  cases bs.findSome? (·.find k) <;> rfl

theorem overlay_singleton (b : Bucket) (db : Rows) :
    overlay [b] db = overlayEntries b.entries db := by
  funext k
  rw [overlay, List.findSome?_singleton]
  rfl

theorem applyBucket_eq {mTotalSize : ℕ} {b : Bucket}
    (h : b.entries ≠ [] → mTotalSize ≠ 0) (db : Rows) :
    applyBucket mTotalSize b db = .ok (overlay [b] db) := by
  rw [applyBucket, overlay_singleton]
  by_cases hb : b.entries = []
  · rw [hb]
    rfl
  · rw [if_neg (by simpa using hb), ← applyAll_eq b.sorted]
    exact assert_bind (h hb) _

/-! ## What the work does -/

variable {store} {has : HistoryArchiveState Hash} {bl : BucketList Hash}
  {v w : ℕ → LevelView}

/-- The buckets of the archive, and that they are there. -/
structure Remote (store : BucketStore env) (has : HistoryArchiveState Hash)
    (w : ℕ → LevelView) : Prop where
  views : has.Views env (Hashed env) w
  zero : (w 0).next = none
  present : store.Present has

omit [DecidableEq Hash] in
theorem Remote.getBucket (h : Remote store has w) (hi : i < kNumLevels) :
    getBucket store (has.currentBuckets i).curr = .ok (w i).curr ∧
      Buckets.getBucket store (has.currentBuckets i).snap = .ok (w i).snap := by
  obtain ⟨hcurr, hsnap, -⟩ := h.views i hi
  have hmem : ∀ x ∈ [(has.currentBuckets i).curr, (has.currentBuckets i).snap],
      (store.getBucketByHash x).isSome = true := by
    intro x hx
    refine h.present x (List.mem_flatMap.mpr ⟨i, List.mem_range.mpr hi, ?_⟩)
    simp only [List.mem_cons, List.not_mem_nil, or_false] at hx ⊢
    rcases hx with hx | hx
    · exact .inl hx
    · exact .inr (.inl hx)
  unfold Buckets.getBucket
  rw [hcurr, hsnap] at hmem ⊢
  rw [store.find_of_isSome (hmem _ (by simp)), store.find_of_isSome (hmem _ (by simp))]
  exact ⟨rfl, rfl⟩

/-- The total size is not zero if one of the buckets is not empty. -/
def Counted (w : ℕ → LevelView) (mTotalSize : ℕ) : Prop :=
  ∀ i < kNumLevels, ((w i).curr.entries ≠ [] → mTotalSize ≠ 0) ∧
    ((w i).snap.entries ≠ [] → mTotalSize ≠ 0)

omit [DecidableEq Hash] in
theorem Remote.totalSize (h : Remote store has w) :
    ∃ size, totalSize store has kNumLevels = .ok size ∧ Counted w size := by
  have hloop : ∀ n ≤ kNumLevels, ∃ size, Buckets.totalSize store has n = .ok size ∧
      ∀ i < n, (w i).curr.entries.length ≤ size ∧ (w i).snap.entries.length ≤ size := by
    intro n hn
    induction n with
    | zero => exact ⟨0, rfl, nofun⟩
    | succ n ih =>
      obtain ⟨size, hsize, hle⟩ := ih (by omega)
      obtain ⟨hcurr, hsnap⟩ := h.getBucket (show n < kNumLevels by omega)
      refine ⟨size + (w n).snap.entries.length + (w n).curr.entries.length, ?_, fun i hi => ?_⟩
      · rw [Buckets.totalSize, hsize, ok_bind, hsnap, ok_bind, hcurr, ok_bind]
        rfl
      · by_cases hin : i = n
        · subst hin
          omega
        · have hlei := hle i (by omega)
          omega
  obtain ⟨size, hsize, hle⟩ := hloop kNumLevels le_rfl
  refine ⟨size, hsize, fun i hi => ?_⟩
  obtain ⟨h1, h2⟩ := hle i hi
  exact ⟨fun hne => by have := List.length_pos_iff.mpr hne; omega,
    fun hne => by have := List.length_pos_iff.mpr hne; omega⟩

omit [DecidableEq Hash] in
theorem applyIf_eq {b : Bucket} {hash : Hash}
    (hb : getBucket store hash = .ok b) (hsize : b.entries ≠ [] → size ≠ 0) (apply : Bool)
    (db : Rows) :
    applyIf store size apply hash db = .ok (if apply then overlay [b] db else db) := by
  cases apply with
  | false => rfl
  | true =>
    rw [applyIf, if_pos rfl, hb, ok_bind, applyBucket_eq hsize]
    rfl

omit [DecidableEq Hash] in
theorem deleteIf_eq {first : Bool} (h : first = true → has.currentLedger ≠ 0)
    (applySnap : Bool) (i : ℕ) (db : Rows) :
    deleteIf has first applySnap i db = .ok (if first then
      deleteObjectsModifiedOnOrAfterLedger (if applySnap then oldestLedgerInSnap has.currentLedger i
          else oldestLedgerInCurr has.currentLedger i) db
      else db) := by
  cases first with
  | false => rfl
  | true => exact assert_bind (h rfl) _

omit [DecidableEq Hash] in
/-- Hashes differ if and only if the buckets do. -/
theorem Remote.hash_ne_iff (h : Remote store has w) (hv : Views env bl v) (hi : i < kNumLevels) :
    ((has.currentBuckets i).snap ≠ env.getHash (bl.mLevels i).mSnap ↔ (w i).snap ≠ (v i).snap) ∧
    ((has.currentBuckets i).curr ≠ env.getHash (bl.mLevels i).mCurr ↔ (w i).curr ≠ (v i).curr) := by
  obtain ⟨hcurr, hsnap, -⟩ := h.views i hi
  obtain ⟨hcurr', hsnap', -⟩ := hv.level i hi
  rw [hcurr, hsnap, hcurr', hsnap']
  exact ⟨env.getHash_injective.ne_iff, env.getHash_injective.ne_iff⟩

/-- A level: `ap` tells that a difference has been found before, `ds` and `dc` that
`snap` and `curr` differ. -/
theorem applyLevel_eq (h : Remote store has w) (hv : Views env bl v)
    (hsize : Counted w size) (hi : i < kNumLevels) (ap ds dc : Bool)
    (hds : ds = true ↔ (w i).snap ≠ (v i).snap) (hdc : dc = true ↔ (w i).curr ≠ (v i).curr)
    (hledger : (!ap && (ds || dc)) = true → has.currentLedger ≠ 0) (db : Rows) :
    applyLevel store bl has size i (ap, db) = .ok (ap || ds || dc,
      let db := if !ap && (ds || dc) then
          deleteObjectsModifiedOnOrAfterLedger (if ds then oldestLedgerInSnap has.currentLedger i
              else oldestLedgerInCurr has.currentLedger i) db
        else db
      let db := if ap || ds then overlay [(w i).snap] db else db
      if ap || ds || dc then overlay [(w i).curr] db else db) := by
  obtain ⟨hgetCurr, hgetSnap⟩ := h.getBucket hi
  obtain ⟨hsizeCurr, hsizeSnap⟩ := hsize i hi
  obtain ⟨hsnap, hcurr⟩ := h.hash_ne_iff hv hi
  have hs : decide ((has.currentBuckets i).snap ≠ env.getHash (bl.mLevels i).mSnap) = ds := by
    rw [Bool.eq_iff_iff, hds, decide_eq_true_eq, hsnap]
  have hc : decide ((has.currentBuckets i).curr ≠ env.getHash (bl.mLevels i).mCurr) = dc := by
    rw [Bool.eq_iff_iff, hdc, decide_eq_true_eq, hcurr]
  unfold applyLevel
  simp only [hs, hc]
  rw [deleteIf_eq hledger, ok_bind, applyIf_eq hgetSnap hsizeSnap, ok_bind,
    applyIf_eq hgetCurr hsizeCurr]
  rfl

/-! ## The first difference -/

/-- The levels below `i` of the local list `v` and of the archive `w` at ledger
`m`, compared from the oldest to the youngest: the ledger from which on rows are
deleted, and the buckets that are written, the youngest first. -/
inductive FirstDifference (m : ℕ) (v w : ℕ → LevelView) :
    ℕ → Option ℕ → List Bucket → Prop where
  | none : FirstDifference m v w 0 none []
  | same {i : ℕ} {o : Option ℕ} {young : List Bucket} (hsnap : (w i).snap = (v i).snap)
      (hcurr : (w i).curr = (v i).curr) (h : FirstDifference m v w i o young) :
      FirstDifference m v w (i + 1) o young
  | snap {i : ℕ} (hsnap : (w i).snap ≠ (v i).snap) :
      FirstDifference m v w (i + 1) (some (oldestLedgerInSnap m i)) (bucketsBelow w (i + 1))
  | curr {i : ℕ} (hsnap : (w i).snap = (v i).snap) (hcurr : (w i).curr ≠ (v i).curr) :
      FirstDifference m v w (i + 1) (some (oldestLedgerInCurr m i))
        (bucketsBelow w i ++ [(w i).curr])

/-- The ledger from which on the work deletes rows, if it finds a difference in the
levels below `i`. -/
def deletedFrom (env : BucketHasher Hash) (bl : BucketList Hash)
    (has : HistoryArchiveState Hash) : ℕ → Option ℕ
  | 0 => none
  | i + 1 =>
    if (has.currentBuckets i).snap ≠ env.getHash (bl.mLevels i).mSnap then
      some (oldestLedgerInSnap has.currentLedger i)
    else if (has.currentBuckets i).curr ≠ env.getHash (bl.mLevels i).mCurr then
      some (oldestLedgerInCurr has.currentLedger i)
    else deletedFrom env bl has i

/-- The database after the deletion. -/
def deleteFrom (o : Option ℕ) (db : Rows) : Rows :=
  match o with
  | none => db
  | some ledger => deleteObjectsModifiedOnOrAfterLedger ledger db

/-- Once a difference has been found, all buckets are written. -/
theorem applyLevels_applying (h : Remote store has w) (hv : Views env bl v) {n : ℕ}
    (hsize : Counted w size) (hn : n ≤ kNumLevels) (db : Rows) :
    applyLevels store bl has size n (true, db) = .ok (true, overlay (bucketsBelow w n) db) := by
  classical
  induction n generalizing db with
  | zero => rfl
  | succ i ih =>
    have hlevel := applyLevel_eq h hv hsize (show i < kNumLevels by omega) true _ _
      decide_eq_true_iff decide_eq_true_iff (by simp) db
    simp only [Bool.true_or,
      if_true] at hlevel
    rw [applyLevels, hlevel, ok_bind, ih (by omega), bucketsBelow_succ,
      overlay_append (bucketsBelow w i), ← overlay_append [(w i).curr]]
    rfl

/-- The levels below `n` while no difference has been found. -/
theorem applyLevels_eq (h : Remote store has w) (hv : Views env bl v) {n : ℕ}
    (hsize : Counted w size) (hn : n ≤ kNumLevels)
    (hledger : ∀ i < kNumLevels, (w i).snap ≠ (v i).snap ∨ (w i).curr ≠ (v i).curr →
      has.currentLedger ≠ 0) (db : Rows) :
    ∃ ap young, FirstDifference has.currentLedger v w n (deletedFrom env bl has n) young ∧
      applyLevels store bl has size n (false, db) =
        .ok (ap, overlay young (deleteFrom (deletedFrom env bl has n) db)) := by
  classical
  induction n with
  | zero => exact ⟨false, [], .none, rfl⟩
  | succ i ih =>
    have hi : i < kNumLevels := by omega
    obtain ⟨hsnap, hcurr⟩ := h.hash_ne_iff hv hi
    have hlevel := applyLevel_eq h hv hsize hi false _ _ decide_eq_true_iff
      decide_eq_true_iff (by simpa using hledger i hi) db
    rw [applyLevels, hlevel, ok_bind, deletedFrom]
    by_cases hds : (w i).snap ≠ (v i).snap
    · rw [if_pos (hsnap.mpr hds)]
      refine ⟨true, _, .snap hds, ?_⟩
      simp only [hds, Bool.false_or, Bool.true_or,
        decide_true, if_true, not_false_eq_true, ne_eq]
      rw [applyLevels_applying h hv hsize hi.le, bucketsBelow_succ,
        overlay_append (bucketsBelow w i), ← overlay_append [(w i).curr]]
      rfl
    · rw [if_neg (hsnap.not.mpr hds)]
      by_cases hdc : (w i).curr ≠ (v i).curr
      · rw [if_pos (hcurr.mpr hdc)]
        refine ⟨true, _, .curr (not_not.mp hds) hdc, ?_⟩
        simp only [hds, hdc, Bool.false_or, decide_true,
          decide_false, not_false_eq_true, ne_eq]
        rw [applyLevels_applying h hv hsize hi.le, overlay_append]
        rfl
      · rw [if_neg (hcurr.not.mpr hdc)]
        obtain ⟨ap, young, hfirst, heq⟩ := ih (by omega)
        refine ⟨ap, young, .same (not_not.mp hds) (not_not.mp hdc) hfirst, ?_⟩
        simpa only [hds, hdc, Bool.or_false, decide_false, Bool.and_false,
          Bool.false_eq_true, if_false] using heq

end EssaCore.Buckets
