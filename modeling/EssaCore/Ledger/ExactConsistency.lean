import EssaCore.Ledger.RootCommit

/-!
# Transactions whose tombstones cover something

A `LedgerTxn` whose consistency level is `EXACT` is one that nobody called
`eraseWithoutLoading` on, nor on a child that was committed into it. Its
tombstones then cover entries of its parent: what was created and erased again
leaves no trace, at any depth, because a commit looks at the grandparent.

- `RightChange`, `LedgerTxnImpl.Exact` — every recorded entry is filed under
  its own key, and every tombstone of an `EXACT` transaction covers an entry of
  the map below;
- `Stack.Exact` — this at every level;
- `wp_create_exact`, `wp_commitEntries_exact`, ... — one call keeps it;
- `wp_run_exact`, `wp_runOps_exact` — sequences of calls keep it.
-/

namespace EssaCore.Ledger

open EssaCore.Lib Overlay Stack

variable {env : LtxEnv} {level : Nat} {key : LedgerKey} {entry : LedgerEntry}
  {header : LedgerHeader} {update : Bool}

/-! ## Recorded changes -/

/-- An entry is recorded under its own key, and an `EXACT` transaction deletes
only what the map below has. -/
def RightChange (consistency : LedgerTxnConsistency) (below : LedgerMap)
    (key : LedgerKey) : Option LedgerEntry → Prop
  | some e => LedgerEntryKey e = key
  | none => consistency = .EXACT → (below key).isSome

/-- Every change that a transaction over `below` has recorded is right. -/
def LedgerTxnImpl.Exact (t : LedgerTxnImpl) (below : LedgerMap) : Prop :=
  t.mEntry.All (RightChange t.mConsistency below)

/-- Every entry of the map stands under its own key. -/
def Keyed (m : LedgerMap) : Prop :=
  ∀ key e, m key = some e → LedgerEntryKey e = key

/-- Every transaction of a list, innermost first, over its parents. -/
def ExactOver (rows : LedgerMap) : List LedgerTxnImpl → Prop
  | [] => Keyed rows
  | t :: ts =>
    t.Exact (Overlay.viewAll (ts.map (·.mEntry)) rows) ∧ ExactOver rows ts

/-- Every transaction of the stack over its parents. -/
def Stack.Exact (s : Stack env) : Prop :=
  ExactOver s.root.mDatabase.lookup s.txns

section RightChange

variable {t : LedgerTxnImpl} {below : LedgerMap} {key : LedgerKey}
  {v : Option LedgerEntry} {cons : LedgerTxnConsistency}

/-- Stamping keeps the key. -/
theorem RightChange.map (h : RightChange cons below key v)
    {f : LedgerEntry → LedgerEntry} (hf : ∀ e, (f e).data = e.data) :
    RightChange cons below key (v.map f) := by
  cases v with
  | none => exact h
  | some e =>
    show LedgerEntryKey (f e) = key
    unfold LedgerEntryKey
    rw [hf e]
    exact h

theorem maybeUpdateLastModified_all (h : t.Exact below) :
    (maybeUpdateLastModified t).All (RightChange t.mConsistency below) := by
  refine Overlay.All.mapValues h fun _ _ hv => hv.map fun e => ?_
  split <;> rfl

theorem committedEntries_all (h : t.Exact below) :
    (committedEntries t).All (RightChange t.mConsistency below) := by
  unfold committedEntries
  split
  · exact h
  · exact maybeUpdateLastModified_all h

/-- A change is shown at its key, and one of the two maps has the key. -/
theorem RightChange.mentioned (h : RightChange .EXACT below key v) :
    (below key).isSome ∨ v.isSome := by
  cases v with
  | none => exact .inl (h rfl)
  | some e => exact .inr rfl

theorem Keyed.view {o : EntryMap} (h : Keyed below)
    (ho : o.All (RightChange cons below)) : Keyed (o.view below) := by
  intro key e he
  unfold Overlay.view at he
  cases hl : o.lookup key with
  | none =>
    rw [hl] at he
    exact h key e he
  | some v =>
    rw [hl] at he
    obtain rfl : v = some e := he
    exact ho key (some e) hl

theorem ExactOver.keyed {rows : LedgerMap} {ts : List LedgerTxnImpl} (h : ExactOver rows ts) :
    Keyed (Overlay.viewAll (ts.map (·.mEntry)) rows) := by
  induction ts with
  | nil => exact h
  | cons t ts ih => exact (ih h.2).view h.1

theorem ExactOver.drop {rows : LedgerMap} {ts : List LedgerTxnImpl}
    (h : ExactOver rows ts) (n : Nat) : ExactOver rows (ts.drop n) := by
  induction n generalizing ts with
  | zero => exact h
  | succ n ih =>
    cases ts with
    | nil => exact h
    | cons t ts => exact ih h.2

end RightChange

/-! ## Calls keep the changes right -/

section Calls

variable {s : Stack env} {ms : MapStack} {t t' : LedgerTxnImpl}
  {ts : List LedgerTxnImpl}

theorem Stack.Exact.keyed (h : s.Exact) (level : Nat) : Keyed (s.view level) :=
  (h.drop level).keyed

theorem Stack.Exact.innermost (h : s.Exact) (hs : s.txns = t :: ts) : t.Exact s.below := by
  unfold Stack.Exact at h
  rw [hs] at h
  have hbelow : s.below = viewAll (ts.map (·.mEntry)) s.root.mDatabase.lookup := by
    simp [below, view, hs]
  rw [hbelow]
  exact h.1

theorem Stack.Exact.setInnermost (h : s.Exact) (hs : s.txns = t :: ts)
    (ht : t'.Exact s.below) : (s.setTxn 0 t').Exact := by
  unfold Stack.Exact at h ⊢
  have hset : (s.setTxn 0 t').txns = t' :: ts := by simp [setTxn, hs]
  have hbelow : s.below = viewAll (ts.map (·.mEntry)) s.root.mDatabase.lookup := by
    simp [below, view, hs]
  rw [hs] at h
  rw [hset]
  rw [hbelow] at ht
  exact ⟨ht, h.2⟩

/-- The other fields of a transaction do not matter. -/
theorem Stack.Exact.frame (h : s.Exact) {level : Nat}
    (ht : s.txns[level]? = some t) (he : t'.mEntry = t.mEntry)
    (hc : t'.mConsistency = t.mConsistency) : (s.setTxn level t').Exact := by
  have hset : ∀ (txns : List LedgerTxnImpl) (level : Nat),
      txns[level]? = some t → ExactOver s.root.mDatabase.lookup txns →
      ExactOver s.root.mDatabase.lookup (txns.set level t') ∧
        (txns.set level t').map (·.mEntry) = txns.map (·.mEntry) := by
    intro txns
    induction txns with
    | nil => intro level hl; cases hl
    | cons u us ih =>
      intro level hl hu
      cases level with
      | zero =>
        obtain rfl : u = t := by simpa using hl
        refine ⟨⟨?_, hu.2⟩, by simp [he]⟩
        unfold LedgerTxnImpl.Exact
        rw [he, hc]
        exact hu.1
      | succ level =>
        obtain ⟨hrest, hmap⟩ := ih level (by exact hl) hu.2
        refine ⟨⟨?_, hrest⟩, by simp [hmap]⟩
        rw [hmap]
        exact hu.1
  exact (hset s.txns level ht h).1

theorem Stack.Exact.write (h : s.Exact) (hs : s.txns = t :: ts)
    {key : LedgerKey} {v : Option LedgerEntry}
    (hv : RightChange t.mConsistency s.below key v)
    (he : t'.mEntry = t.mEntry.insert key v)
    (hc : t'.mConsistency = t.mConsistency) : (s.setTxn 0 t').Exact := by
  refine h.setInnermost hs ?_
  unfold LedgerTxnImpl.Exact
  rw [he, hc]
  exact Overlay.All.insert (h.innermost hs) hv

/-- No tombstone is left where the map below has no entry. -/
theorem LedgerTxnImpl.Exact.eraseOrTombstone {below : LedgerMap}
    (h : t.Exact below) (key : LedgerKey) :
    Overlay.All (RightChange t.mConsistency below) (if (below key).isNone then t.mEntry.erase key
        else t.mEntry.insert key none) := by
  split
  · exact Overlay.All.erase h key
  · rename_i hsome
    refine Overlay.All.insert h fun _ => ?_
    exact Option.isSome_iff_ne_none.mpr fun hnone => hsome (by rw [hnone]; rfl)

theorem wp_create_exact (hr : Refines s ms) (h : s.Exact) :
    wp (create level entry) (fun _ s' => s'.Exact) anyHalt s := by
  unfold create
  refine wp_getOpenImpl fun t ts h0 hs => ?_
  subst h0
  refine wp_getNewestVersion hr.coherent fun c _ => ?_
  rw [wp_ite]
  refine ⟨fun _ => trivial, fun _ => ?_⟩
  exact Stack.Exact.write (v := some entry) h hs rfl rfl rfl

theorem wp_createOrUpdateWithoutLoading_exact (h : s.Exact) :
    wp (createOrUpdateWithoutLoading level entry) (fun _ s' => s'.Exact) anyHalt s := by
  unfold createOrUpdateWithoutLoading
  refine wp_getOpenImpl fun t ts h0 hs => ?_
  subst h0
  rw [wp_ite]
  refine ⟨fun _ => trivial, fun _ => ?_⟩
  exact h.write (v := some entry) hs rfl rfl rfl

theorem wp_erase_exact (hr : Refines s ms) (h : s.Exact) :
    wp (erase level key) (fun _ s' => s'.Exact) anyHalt s := by
  unfold erase
  refine wp_getOpenImpl fun t ts h0 hs => ?_
  subst h0
  refine wp_getNewestVersion hr.coherent fun c hc => ?_
  rw [wp_ite]
  refine ⟨fun _ => trivial, fun _ => ?_⟩
  refine wp_getNewestVersion hc fun c' _ => ?_
  exact Stack.Exact.setInnermost h hs
    ((h.innermost hs).eraseOrTombstone key)

/-- A tombstone that nobody checked costs the transaction its level. -/
theorem wp_eraseWithoutLoading_exact (h : s.Exact) :
    wp (eraseWithoutLoading level key) (fun _ s' => s'.Exact) anyHalt s := by
  unfold eraseWithoutLoading
  refine wp_getOpenImpl fun t ts h0 hs => ?_
  subst h0
  refine h.setInnermost hs ?_
  have hloose : t.mEntry.All (RightChange .EXTRA_DELETES s.below) := by
    refine Overlay.All.mono (h.innermost hs) fun key v hv => ?_
    cases v with
    | none => exact fun hc => by cases hc
    | some e => exact hv
  exact hloose.insert fun hc => by cases hc

theorem wp_load_exact (hr : Refines s ms) (h : s.Exact) :
    wp (load level key) (fun _ s' => s'.Exact) anyHalt s := by
  unfold load
  refine wp_getOpenImpl fun t ts h0 hs => ?_
  subst h0
  rw [wp_ite]
  refine ⟨fun _ => trivial, fun _ => ?_⟩
  refine wp_getNewestVersion hr.coherent fun c _ => ?_
  split
  · exact h
  · rename_i current hcur
    rw [wp_bind, wp_modify]
    exact Stack.Exact.write (v := some current) h hs
      (h.keyed 0 key current hcur) rfl rfl

theorem wp_loadWithoutRecord_exact (hr : Refines s ms) (h : s.Exact) :
    wp (loadWithoutRecord level key) (fun _ s' => s'.Exact) anyHalt s := by
  unfold loadWithoutRecord
  refine wp_getOpenImpl fun t ts h0 hs => ?_
  subst h0
  rw [wp_ite]
  refine ⟨fun _ => trivial, fun _ => ?_⟩
  refine wp_getNewestVersion hr.coherent fun c _ => ?_
  split
  · exact h
  · rw [wp_bind, wp_modify]
    exact Stack.Exact.frame (s := s.withCache c) (t := t) h
      (by rw [withCache_txns, hs]; rfl) rfl rfl

theorem wp_assignCurrent_exact {key : LedgerKey}
    {entry : LedgerEntry} (hkey : LedgerEntryKey entry = key)
    (hr : Refines s ms) (h : s.Exact) :
    wp (assignCurrent level key entry) (fun _ s' => s'.Exact) anyHalt s := by
  unfold assignCurrent
  refine wp_getImpl fun t ht => ?_
  split
  · trivial
  · rename_i current hc
    obtain ⟨rfl, _, hs, -⟩ := hr.of_handleCurrent ht hc
    exact h.write (v := some entry) hs hkey rfl rfl

theorem wp_deactivate_exact (h : s.Exact) :
    wp (deactivate level key) (fun _ s' => s'.Exact) anyHalt s := by
  unfold deactivate
  refine wp_getImpl fun t ht => ?_
  rw [wp_ite]
  refine ⟨fun _ => ?_, fun _ => trivial⟩
  exact h.frame ht rfl rfl

theorem wp_deactivateHandle_exact (h : s.Exact) :
    wp (deactivateHandle level key) (fun _ s' => s'.Exact) anyHalt s := by
  unfold deactivateHandle
  refine wp_getImpl fun t ht => ?_
  split
  · exact wp_deactivate_exact h
  · split
    · trivial
    · exact wp_deactivate_exact h

theorem wp_eraseHandle_exact (hr : Refines s ms) (h : s.Exact) :
    wp (eraseHandle level key) (fun _ s' => s'.Exact) anyHalt s := by
  unfold eraseHandle
  refine wp_getImpl fun t _ => ?_
  split
  · trivial
  · exact wp_erase_exact hr h

theorem wp_loadHeader_exact (h : s.Exact) :
    wp (loadHeader level) (fun _ s' => s'.Exact) anyHalt s := by
  unfold loadHeader
  refine wp_getOpenImpl fun t ts h0 hs => ?_
  subst h0
  rw [wp_ite]
  refine ⟨fun _ => trivial, fun _ => ?_⟩
  rw [wp_bind, wp_modify]
  exact h.frame (t := t) (by rw [hs]; rfl) rfl rfl

theorem wp_assignHeader_exact (h : s.Exact) :
    wp (assignHeader level header) (fun _ s' => s'.Exact) anyHalt s := by
  unfold assignHeader
  refine wp_getImpl fun t ht => ?_
  rw [wp_ite]
  refine ⟨fun _ => ?_, fun _ => trivial⟩
  exact h.frame ht rfl rfl

theorem wp_deactivateHeader_exact (h : s.Exact) :
    wp (deactivateHeader level) (fun _ s' => s'.Exact) anyHalt s := by
  unfold deactivateHeader
  refine wp_getImpl fun t ht => ?_
  rw [wp_ite]
  refine ⟨fun _ => ?_, fun _ => trivial⟩
  exact h.frame ht rfl rfl

theorem wp_unsealHeader_exact (h : s.Exact) :
    wp (unsealHeader level header) (fun _ s' => s'.Exact) anyHalt s := by
  unfold unsealHeader
  refine wp_getImpl fun t ht => ?_
  rw [wp_ite, wp_ite]
  refine ⟨fun _ => trivial, fun _ => ⟨fun _ => trivial, fun _ => ?_⟩⟩
  exact h.frame ht rfl rfl

/-- A new transaction has recorded nothing. -/
theorem Stack.Exact.push (h : s.Exact) (header : LedgerHeader)
    (update : Bool) : (s.push (newImpl header update)).Exact :=
  ⟨all_empty, h⟩

theorem wp_openChild_exact (h : s.Exact) :
    wp (openChild level update) (fun _ s' => s'.Exact) anyHalt s := by
  unfold openChild
  rw [wp_bind, wp_get, wp_ite]
  constructor
  · intro _
    unfold rootAddChild
    rw [wp_bind, wp_bind, wp_get, wp_ite]
    refine ⟨fun _ => trivial, fun _ => ?_⟩
    rw [wp_pure]
    exact h.push _ _
  · intro _
    refine wp_getImpl fun parent _ => ?_
    unfold addChild
    rw [wp_bind]
    refine wp_getOpenImpl fun t ts h0 hs => ?_
    subst h0
    rw [wp_modify]
    have hframe : (s.setTxn 0 { t with mActive := ∅, mActiveHeader := false }).Exact :=
      h.frame (t := t) (by rw [hs]; rfl) rfl rfl
    exact hframe.push _ _

theorem wp_sealTxn_exact (h : s.Exact) :
    wp (sealTxn level) (fun _ s' => s'.Exact) anyHalt s := by
  unfold sealTxn
  refine wp_getImpl fun t ht => ?_
  rw [wp_ite]
  refine ⟨fun _ => h, fun _ => ?_⟩
  refine wp_throwIfChild fun h0 => ?_
  subst h0
  cases hs : s.txns with
  | nil => simp [hs] at ht
  | cons u us =>
    rw [hs] at ht
    obtain rfl : u = t := by simpa using ht
    exact h.setInnermost hs (maybeUpdateLastModified_all (h.innermost hs))

theorem Stack.Exact.pop (h : s.Exact) : s.pop.Exact := by
  have hdrop := h.drop 1
  rw [List.drop_one] at hdrop
  exact hdrop

theorem wp_rollback_exact (h : s.Exact) :
    wp (rollback level) (fun _ s' => s'.Exact) anyHalt s := by
  induction level with
  | zero =>
    unfold rollback
    refine wp_getImpl fun t _ => ?_
    exact h.pop
  | succ level ih =>
    unfold rollback
    refine wp_getImpl fun t _ => ?_
    refine ih.bind fun _ s' h' => ?_
    exact h'.pop

end Calls

/-! ## Commits keep the changes right -/

section Commits

variable {s s' : Stack env} {ms : MapStack} {t p : LedgerTxnImpl}
  {ts : List LedgerTxnImpl}

/-- How far a commit loop has come: the parent's changes are right. -/
structure ExactCommitting (s : Stack env) (t : LedgerTxnImpl)
    (ts : List LedgerTxnImpl) (s' : Stack env) : Prop where
  coherent : s'.Coherent
  database : s'.root.mDatabase = s.root.mDatabase
  parent : ∃ p, s'.txns = t :: p :: ts ∧ p.Exact (belowParent s ts)

theorem ExactCommitting.setParent {q : LedgerTxnImpl} (hc : s'.Coherent)
    (hd : s'.root.mDatabase = s.root.mDatabase)
    (htx : s'.txns = t :: p :: ts) (hq : q.Exact (belowParent s ts)) :
    ExactCommitting s t ts (s'.setTxn 1 q) := by
  refine ⟨hc, hd, q, ?_, hq⟩
  show s'.txns.set 1 q = _
  rw [htx]
  rfl

theorem wp_commitEntry_exact (h : ExactCommitting s t ts s') {c : EntryChange}
    (hkey : ∀ e, c.2 = some e → LedgerEntryKey e = c.1) :
    wp (commitEntry 1 c) (fun _ s'' => ExactCommitting s t ts s'') anyHalt s' := by
  obtain ⟨p, htx, hp⟩ := h.parent
  unfold commitEntry
  refine wp_getImpl fun q hq => ?_
  rw [htx] at hq
  obtain rfl : p = q := by simpa using hq
  split
  · rename_i e he
    exact .setParent h.coherent h.database htx (Overlay.All.insert hp (hkey e he))
  · refine wp_getNewestVersion h.coherent fun cache hcache => ?_
    have hbelow : s'.view 2 = belowParent s ts := by
      unfold Stack.view belowParent
      rw [htx, h.database]
      rfl
    rw [hbelow]
    have htx' : (s'.withCache cache).txns = t :: p :: ts := htx
    exact .setParent hcache h.database htx' (hp.eraseOrTombstone c.1)

theorem wp_commitEntries_exact (iter : List EntryChange)
    (hkeys : ∀ c ∈ iter, ∀ e, c.2 = some e → LedgerEntryKey e = c.1)
    (h : ExactCommitting s t ts s') :
    wp (commitEntries 1 iter) (fun _ s'' => ExactCommitting s t ts s'') anyHalt s' := by
  induction iter generalizing s' with
  | nil => exact h
  | cons c iter ih =>
    obtain ⟨hc, hiter⟩ := List.forall_mem_cons.mp hkeys
    unfold commitEntries
    exact (wp_commitEntry_exact h hc).bind fun _ _ h' => ih hiter h'

/-- An `EXACT` parent stays so only if the child is `EXACT` too. -/
theorem joinConsistencyLevels_eq_exact {c c' : LedgerTxnConsistency} :
    joinConsistencyLevels c c' = .EXACT ↔ c = .EXACT ∧ c' = .EXACT := by
  cases c <;> cases c' <;> decide

theorem wp_commitChild_exact (h : s.Exact) (hc : s.Coherent)
    (hs : s.txns = t :: p :: ts)
    {iter : List EntryChange} {cons : LedgerTxnConsistency}
    (hkeys : ∀ c ∈ iter, ∀ e, c.2 = some e → LedgerEntryKey e = c.1) :
    wp (commitChild 1 header iter cons) (fun _ s' => ExactCommitting s t ts s') anyHalt s := by
  have hp : p.Exact (belowParent s ts) := by
    unfold Stack.Exact at h
    rw [hs] at h
    exact h.2.1
  unfold commitChild
  refine wp_getImpl fun q hq => ?_
  rw [hs] at hq
  obtain rfl : p = q := by simpa using hq
  rw [wp_bind, wp_modify, wp_bind]
  have hjoin : LedgerTxnImpl.Exact
      { p with mConsistency := joinConsistencyLevels p.mConsistency cons }
      (belowParent s ts) := by
    refine Overlay.All.mono hp fun key v hv => ?_
    cases v with
    | none => exact fun hexact => hv (joinConsistencyLevels_eq_exact.mp hexact).1
    | some e => exact hv
  refine (wp_commitEntries_exact iter hkeys
    (.setParent hc rfl hs hjoin)).imp fun _ s' h' => ?_
  refine wp_getImpl fun q hq => ?_
  obtain ⟨p', htx, hp'⟩ := h'.parent
  rw [htx] at hq
  obtain rfl : p' = q := by simpa using hq
  exact .setParent h'.coherent h'.database htx hp'

theorem ExactCommitting.pop (h : s.Exact) (hs : s.txns = t :: p :: ts)
    (h' : ExactCommitting s t ts s') : s'.pop.Exact := by
  obtain ⟨q, htx, hq⟩ := h'.parent
  have hpop : s'.pop.txns = q :: ts := by simp [Stack.pop, htx]
  unfold Stack.Exact at h ⊢
  rw [hs] at h
  rw [hpop]
  show ExactOver s'.root.mDatabase.lookup (q :: ts)
  rw [h'.database]
  exact ⟨hq, h.2.2⟩

theorem wp_commit_exact (batchSize level : Nat) (o : IterationOrder)
    (hr : Refines s ms) (h : s.Exact) :
    wp (commit batchSize level o) (fun _ s' => s'.Exact) anyHalt s := by
  by_cases h0 : level = 0
  · subst h0
    match hs : s.txns with
    | [] =>
      unfold commit
      refine wp_getImpl fun t ht => ?_
      rw [hs] at ht
      cases ht
    | [t] =>
      refine (wp_commit_root batchSize o hs).imp ?_
      rintro - s' ⟨changes, h'⟩
      unfold Stack.Exact at h ⊢
      rw [hs] at h
      rw [h'.txns, h'.lookup]
      exact h.2.view (committedEntries_all h.1)
    | t :: p :: ts =>
      have ht := committedEntries_all (h.innermost hs)
      unfold commit
      refine wp_getImpl fun u hu => ?_
      rw [hs] at hu
      obtain rfl : t = u := by simpa using hu
      refine wp_throwIfChild fun _ => ?_
      rw [wp_bind, wp_get, if_pos (by simp [hs])]
      refine (wp_commitChild_exact h hr.coherent hs fun c hc e he => ?_).bind
        fun _ s' h' => ?_
      · have hright := ht.of_perm (o.perm _) c hc
        rw [he] at hright
        exact hright
      · exact h'.pop h hs
  · unfold commit
    refine wp_getImpl fun t _ => ?_
    exact wp_throwIfChild fun hl => absurd hl h0

end Commits

/-! ## Sequences of calls -/

section Runs

variable {s : Stack env} {ms : MapStack}

/-- An assignment through a handle does not change the entry's key. -/
def Op.KeepsKeys : Op → Prop
  | .assignCurrent _ key entry => LedgerEntryKey entry = key
  | _ => True

theorem wp_run_exact (batchSize : Nat) {op : Op} (hop : op.KeepsKeys)
    (hr : Refines s ms) (h : s.Exact) :
    wp (op.run batchSize) (fun _ s' => s'.Exact) anyHalt s := by
  cases op with
  | create level entry => exact wp_create_exact hr h
  | createOrUpdateWithoutLoading level entry =>
    exact wp_createOrUpdateWithoutLoading_exact h
  | erase level key => exact wp_erase_exact hr h
  | eraseWithoutLoading level key =>
    exact wp_eraseWithoutLoading_exact h
  | load level key =>
    unfold Op.run
    rw [wp_bind]
    exact wp_load_exact hr h
  | loadWithoutRecord level key =>
    unfold Op.run
    rw [wp_bind]
    exact wp_loadWithoutRecord_exact hr h
  | getNewestVersion level key =>
    unfold Op.run
    exact wp_getNewestVersion hr.coherent fun _ _ => h
  | assignCurrent level key entry =>
    exact wp_assignCurrent_exact hop hr h
  | deactivateHandle level key => exact wp_deactivateHandle_exact h
  | eraseHandle level key => exact wp_eraseHandle_exact hr h
  | loadHeader level =>
    unfold Op.run
    rw [wp_bind]
    exact wp_loadHeader_exact h
  | assignHeader level header => exact wp_assignHeader_exact h
  | deactivateHeader level => exact wp_deactivateHeader_exact h
  | openChild level update => exact wp_openChild_exact h
  | sealTxn level => exact wp_sealTxn_exact h
  | unsealHeader level header => exact wp_unsealHeader_exact h
  | commit level order => exact wp_commit_exact batchSize level order hr h
  | rollback level => exact wp_rollback_exact h

theorem wp_runOps_exact (batchSize : Nat) {ops : List Op}
    (hops : ∀ op ∈ ops, op.KeepsKeys) (hr : Refines s ms) (h : s.Exact) :
    wp (runOps batchSize ops) (fun _ s' => s'.Coherent ∧ s'.Exact) anyHalt s := by
  induction ops generalizing s ms with
  | nil => exact ⟨hr.coherent, h⟩
  | cons op ops ih =>
    obtain ⟨hop, hrest⟩ := List.forall_mem_cons.mp hops
    unfold runOps
    rw [wp_bind]
    exact ((wp_run batchSize op hr).and (wp_run_exact batchSize hop hr h)).mono
      (fun _ _ h' => ih hrest h'.1 h'.2) fun _ _ h' => h'.1

end Runs

end EssaCore.Ledger
