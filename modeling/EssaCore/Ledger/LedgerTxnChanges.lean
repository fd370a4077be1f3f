import EssaCore.Ledger.ExactConsistency

/-!
# What a ledger transaction says it changed

`getChanges`, `getDelta`, `getLiveEntries` and `getDeadEntries` of
`ledger/LedgerTxn.cpp` each list the entries that a transaction has recorded,
and seal it. They trust what is recorded; `Stack.Exact` says that they may.

- `ChangesDescribe`, `DeltaDescribes`, `EntriesDescribe` — a list is the edit
  from one map to another;
- `wp_sealing` — what the four functions read, and that they seal;
- `wp_changesOf`, `wp_deltaOf` — the loops over the recorded entries;
- `changes_describe_ledgerTxn` — after any sequence of calls, the lists are the
  edit from the parent's map to the transaction's.
-/

open List AList

namespace EssaCore.Ledger

open EssaCore.Lib Overlay Stack

variable {env : LtxEnv}

/-! ## The functions -/

/-- `LedgerEntryChange` -/
inductive LedgerEntryChange where
  | LEDGER_ENTRY_CREATED (created : LedgerEntry)
  | LEDGER_ENTRY_UPDATED (updated : LedgerEntry)
  | LEDGER_ENTRY_REMOVED (removed : LedgerKey)
  | LEDGER_ENTRY_STATE (state : LedgerEntry)
  deriving DecidableEq

/-- `LedgerTxnDelta::EntryDelta` -/
structure EntryDelta where
  current : Option LedgerEntry
  previous : Option LedgerEntry

/-- `LedgerTxnDelta::HeaderDelta` -/
structure HeaderDelta where
  current : LedgerHeader
  previous : LedgerHeader

/-- `LedgerTxnDelta` -/
structure LedgerTxnDelta where
  entry : AList (fun _ : LedgerKey => EntryDelta)
  header : HeaderDelta

/-- `throwIfNotExactConsistency` -/
def throwIfNotExactConsistency (t : LedgerTxnImpl) : LtxM env Unit :=
  if t.mConsistency ≠ .EXACT then
    throw (.runtimeError "LedgerTxn consistency level is not exact")
  else pure ()

/-- The transaction after `maybeUpdateLastModifiedThenInvokeThenSeal`. -/
def LedgerTxnImpl.sealed (t : LedgerTxnImpl) : LedgerTxnImpl :=
  { t with
    mEntry := maybeUpdateLastModified t
    mActive := ∅
    mActiveHeader := false
    mIsSealed := true }

/-- `maybeUpdateLastModifiedThenInvokeThenSeal` (1189–1217) -/
def maybeUpdateLastModifiedThenInvokeThenSeal {α : Type} (level : Nat)
    (f : EntryMap → LtxM env α) : LtxM env α := do
  let t ← getImpl level
  if t.mIsSealed then f t.mEntry else do
  throwIfChild level
  let res ← f (maybeUpdateLastModified t)
  modify (Stack.setTxn level t.sealed)
  pure res

/-- The body of the loop of `getChanges` (588–611). -/
def changeOf (previous : Option LedgerEntry) (c : EntryChange) :
    LtxM env (List LedgerEntryChange) :=
  match previous, c.2 with
  | some previous, some entry =>
    pure [.LEDGER_ENTRY_STATE previous, .LEDGER_ENTRY_UPDATED entry]
  | some previous, none =>
    pure [.LEDGER_ENTRY_STATE previous, .LEDGER_ENTRY_REMOVED c.1]
  | none, some entry => pure [.LEDGER_ENTRY_CREATED entry]
  | none, none => throw (.abort "Assertion failed: entry")

/-- The loop of `getChanges` (583–612). -/
def changesOf (level : Nat) :
    List EntryChange → LtxM env (List LedgerEntryChange)
  | [] => pure []
  | c :: iter => do
    let previous ← getNewestVersion (level + 1) c.1
    let changes ← changeOf previous c
    let rest ← changesOf level iter
    pure (changes ++ rest)

/-- `getChanges` (575–614) -/
def getChanges (level : Nat) (o : IterationOrder) :
    LtxM env (List LedgerEntryChange) := do
  throwIfNotExactConsistency (← getImpl level)
  maybeUpdateLastModifiedThenInvokeThenSeal level fun entries =>
    changesOf level (o.order entries)

/-- `getDeadEntries` (622–639) -/
def getDeadEntries (level : Nat) (o : IterationOrder) :
    LtxM env (List LedgerKey) := do
  throwIfNotExactConsistency (← getImpl level)
  maybeUpdateLastModifiedThenInvokeThenSeal level fun entries =>
    pure ((o.order entries).filterMap fun c =>
      if c.2.isNone then some c.1 else none)

/-- `getLiveEntries` (848–863) -/
def getLiveEntries (level : Nat) (o : IterationOrder) :
    LtxM env (List LedgerEntry) :=
  maybeUpdateLastModifiedThenInvokeThenSeal level fun entries =>
    pure ((o.order entries).filterMap Sigma.snd)

/-- `mParent.getHeader()` -/
def parentHeader (level : Nat) : LtxM env LedgerHeader := do
  let s ← get
  match s.txns[level + 1]? with
  | some parent => pure parent.mHeader
  | none => pure s.root.mHeader

/-- The loop of `getDelta` (654–663). -/
def deltaOf (level : Nat) :
    List EntryChange → AList (fun _ : LedgerKey => EntryDelta) →
      LtxM env (AList (fun _ : LedgerKey => EntryDelta))
  | [], entry => pure entry
  | c :: iter, entry => do
    let previous ← getNewestVersion (level + 1) c.1
    deltaOf level iter (entry.insert c.1 { current := c.2, previous := previous })

/-- `getDelta` (647–667) -/
def getDelta (level : Nat) (o : IterationOrder) : LtxM env LedgerTxnDelta := do
  let t ← getImpl level
  throwIfNotExactConsistency t
  maybeUpdateLastModifiedThenInvokeThenSeal level fun entries => do
    let entry ← deltaOf level (o.order entries) ∅
    let previous ← parentHeader level
    pure { entry := entry, header := { current := t.mHeader, previous := previous } }

/-! ## Edits of a map -/

/-- What a change does to a map. -/
def LedgerEntryChange.apply (m : LedgerMap) : LedgerEntryChange → LedgerMap
  | .LEDGER_ENTRY_CREATED e | .LEDGER_ENTRY_UPDATED e =>
    Function.update m (LedgerEntryKey e) (some e)
  | .LEDGER_ENTRY_REMOVED key => Function.update m key none
  | .LEDGER_ENTRY_STATE _ => m

/-- What a change says about the map before and the map after. -/
def LedgerEntryChange.Holds (m m' : LedgerMap) : LedgerEntryChange → Prop
  | .LEDGER_ENTRY_CREATED e =>
    m (LedgerEntryKey e) = none ∧ m' (LedgerEntryKey e) = some e
  | .LEDGER_ENTRY_UPDATED e =>
    (m (LedgerEntryKey e)).isSome ∧ m' (LedgerEntryKey e) = some e
  | .LEDGER_ENTRY_REMOVED key => (m key).isSome ∧ m' key = none
  | .LEDGER_ENTRY_STATE e => m (LedgerEntryKey e) = some e

/-- The changes are the edit from `m` to `m'`. -/
structure ChangesDescribe (m m' : LedgerMap)
    (changes : List LedgerEntryChange) : Prop where
  applied : changes.foldl LedgerEntryChange.apply m = m'
  holds : ∀ c ∈ changes, c.Holds m m'

/-- What a delta makes of a map. -/
def LedgerTxnDelta.apply (delta : LedgerTxnDelta) (m : LedgerMap) : LedgerMap :=
  fun key =>
    match delta.entry.lookup key with
    | some d => d.current
    | none => m key

/-- The delta is the edit from `m` to `m'`. -/
structure DeltaDescribes (m m' : LedgerMap) (delta : LedgerTxnDelta) :
    Prop where
  applied : delta.apply m = m'
  previous : ∀ key d, delta.entry.lookup key = some d → d.previous = m key
  mentioned : ∀ key ∈ delta.entry, (m key).isSome ∨ (m' key).isSome

/-- Write the live entries and delete the dead keys. -/
def applyEntries (m : LedgerMap) (live : List LedgerEntry)
    (dead : List LedgerKey) : LedgerMap :=
  dead.foldl (fun m key => Function.update m key none)
    (live.foldl (fun m e => Function.update m (LedgerEntryKey e) (some e)) m)

/-- Live entries and dead keys are the edit from `m` to `m'`. -/
structure EntriesDescribe (m m' : LedgerMap) (live : List LedgerEntry)
    (dead : List LedgerKey) : Prop where
  applied : applyEntries m live dead = m'
  live : ∀ e ∈ live, m' (LedgerEntryKey e) = some e
  dead : ∀ key ∈ dead, (m key).isSome ∧ m' key = none

/-! ## Reading and sealing -/

section Sealing

variable {α : Type} {s s' : Stack env} {t : LedgerTxnImpl} {level : Nat}
  {E : LtxError → Stack env → Prop}

/-- The transaction at the level is sealed; otherwise only the cache may have
changed. -/
structure Sealed (level : Nat) (t : LedgerTxnImpl) (s s' : Stack env) :
    Prop where
  coherent : s'.Coherent
  database : s'.root.mDatabase = s.root.mDatabase
  txns : s'.txns = s.txns.set level (if t.mIsSealed then t else t.sealed)

/-- What a read of the entries under the transaction may do to the stack. -/
def OnlyCache (s s' : Stack env) : Prop :=
  s'.Coherent ∧ ∃ c, s' = s.withCache c

/-- A transaction with a child is not read. -/
def hasChild (level : Nat) : LtxError → Stack env → Prop :=
  fun e _ => level ≠ 0 ∧ e = .runtimeError "LedgerTxn has child"

theorem wp_getImpl_some {Q : α → Stack env → Prop} {f : LedgerTxnImpl → LtxM env α}
    (ht : s.txns[level]? = some t) (hQ : wp (f t) Q E s) : wp (getImpl level >>= f) Q E s := by
  unfold getImpl
  rw [wp_bind, wp_bind, wp_get, ht]
  exact hQ

/-- A function that reads sees the entries as they are committed. -/
theorem wp_sealing {f : EntryMap → LtxM env α} {P : α → Prop} (ht : s.txns[level]? = some t)
    (hf : wp (f (committedEntries t)) (fun a s' => P a ∧ OnlyCache s s') (hasChild level) s) :
    wp (maybeUpdateLastModifiedThenInvokeThenSeal level f)
      (fun a s' => P a ∧ Sealed level t s s') (hasChild level) s := by
  unfold maybeUpdateLastModifiedThenInvokeThenSeal
  refine wp_getImpl_some ht ?_
  unfold committedEntries at hf
  rw [wp_ite]
  constructor
  · intro hsealed
    rw [if_pos hsealed] at hf
    refine hf.imp fun a s' h' => ⟨h'.1, ?_⟩
    obtain ⟨hc, c, rfl⟩ := h'.2
    refine ⟨hc, rfl, ?_⟩
    rw [if_pos hsealed, withCache_txns]
    obtain ⟨_, hget⟩ := List.getElem?_eq_some_iff.mp ht
    rw [← hget, set_getElem_self]
  · intro hsealed
    rw [if_neg hsealed] at hf
    rw [wp_bind]
    unfold throwIfChild
    rw [wp_ite]
    refine ⟨fun hne => ⟨hne, rfl⟩, fun _ => ?_⟩
    rw [wp_pure, wp_bind]
    refine hf.imp fun a s' h' => ?_
    rw [wp_bind, wp_modify]
    refine ⟨h'.1, ?_⟩
    obtain ⟨hc, c, rfl⟩ := h'.2
    refine ⟨hc, rfl, ?_⟩
    rw [if_neg hsealed]
    rfl

theorem wp_throwIfNotExactConsistency {Q : α → Stack env → Prop} {f : Unit → LtxM env α}
    (h : t.mConsistency = .EXACT) (hQ : wp (f ()) Q E s) :
    wp (throwIfNotExactConsistency t >>= f) Q E s := by
  unfold throwIfNotExactConsistency
  rw [wp_bind, wp_ite]
  exact ⟨fun hne => absurd h hne, fun _ => hQ⟩

variable (ht : s.txns[level]? = some t)

include ht

/-- Sealing shows the entries that are committed. -/
theorem Sealed.view (h : Sealed level t s s') :
    s'.view level = (committedEntries t).view (s.view (level + 1)) := by
  obtain ⟨hlt, -⟩ := List.getElem?_eq_some_iff.mp ht
  have hdrop : s'.txns.drop level =
      (if t.mIsSealed then t else t.sealed) :: s.txns.drop (level + 1) := by
    rw [h.txns, drop_eq_getElem_cons (by simpa using hlt),
      getElem_set_self, drop_set_of_lt (Nat.lt_succ_self level)]
  have hentries : (if t.mIsSealed then t else t.sealed).mEntry = committedEntries t := by
    unfold committedEntries
    split <;> rfl
  unfold Stack.view
  rw [hdrop, h.database, map_cons, viewAll_cons, hentries]

theorem view_of_getElem? : s.view level = t.mEntry.view (s.view (level + 1)) := by
  obtain ⟨hlt, hget⟩ := List.getElem?_eq_some_iff.mp ht
  unfold Stack.view
  rw [drop_eq_getElem_cons hlt, hget, map_cons, viewAll_cons]

/-- Sealing only stamps. -/
theorem Sealed.sameData (h : Sealed level t s s') :
    SameData (s'.view level) (s.view level) := by
  rw [h.view ht, view_of_getElem? ht]
  exact sameData_committedEntries t _

/-- The transaction at the level, and what it has below it, is exact. -/
theorem Stack.Exact.at_level (h : s.Exact) :
    t.Exact (s.view (level + 1)) := by
  obtain ⟨hlt, hget⟩ := List.getElem?_eq_some_iff.mp ht
  have hdrop := h.drop level
  rw [drop_eq_getElem_cons hlt, hget] at hdrop
  exact hdrop.1

end Sealing

/-! ## The lists -/

section Lists

variable {s : Stack env} {level : Nat} {m acc : LedgerMap}
  {iter : List EntryChange}

/-- What `getChanges` lists for one entry over the map `m`. -/
def describe (m : LedgerMap) (c : EntryChange) : List LedgerEntryChange :=
  match m c.1, c.2 with
  | some previous, some entry =>
    [.LEDGER_ENTRY_STATE previous, .LEDGER_ENTRY_UPDATED entry]
  | some previous, none =>
    [.LEDGER_ENTRY_STATE previous, .LEDGER_ENTRY_REMOVED c.1]
  | none, some entry => [.LEDGER_ENTRY_CREATED entry]
  | none, none => []

variable {c : EntryChange}

/-- The three ways in which a right change shows. -/
theorem describe_cases (h : RightChange .EXACT m c.1 c.2) :
    (∃ previous e, m c.1 = some previous ∧ c.2 = some e ∧ LedgerEntryKey e = c.1 ∧ describe m c =
          [.LEDGER_ENTRY_STATE previous, .LEDGER_ENTRY_UPDATED e]) ∨
      (∃ previous, m c.1 = some previous ∧ c.2 = none ∧ describe m c =
        [.LEDGER_ENTRY_STATE previous, .LEDGER_ENTRY_REMOVED c.1]) ∨
      ∃ e, m c.1 = none ∧ c.2 = some e ∧ LedgerEntryKey e = c.1 ∧
        describe m c = [.LEDGER_ENTRY_CREATED e] := by
  unfold describe
  cases hprev : m c.1 with
  | some previous =>
    cases hcur : c.2 with
    | some e =>
      rw [hcur] at h
      exact .inl ⟨previous, e, rfl, rfl, h, rfl⟩
    | none => exact .inr (.inl ⟨previous, rfl, rfl, rfl⟩)
  | none =>
    cases hcur : c.2 with
    | some e =>
      rw [hcur] at h
      exact .inr (.inr ⟨e, rfl, rfl, h, rfl⟩)
    | none =>
      rw [hcur] at h
      have hsome := h rfl
      rw [hprev] at hsome
      cases hsome

/-- The assertion does not fail on a right change. -/
theorem changeOf_eq (h : RightChange .EXACT m c.1 c.2) :
    (changeOf (m c.1) c : LtxM env (List LedgerEntryChange)) =
      pure (describe m c) := by
  rcases describe_cases h with
    ⟨_, e, hprev, hcur, -, hd⟩ | ⟨_, hprev, hcur, hd⟩ | ⟨e, hprev, hcur, -, hd⟩
  all_goals
    unfold changeOf
    rw [hd, hprev, hcur]

theorem OnlyCache.trans {s₁ s₂ s₃ : Stack env} (h : OnlyCache s₁ s₂)
    (h' : OnlyCache s₂ s₃) : OnlyCache s₁ s₃ := by
  obtain ⟨-, c, rfl⟩ := h
  obtain ⟨hc, c', rfl⟩ := h'
  exact ⟨hc, c', rfl⟩

theorem wp_changesOf {E : LtxError → Stack env → Prop} (hc : s.Coherent)
    (hiter : ∀ c ∈ iter, RightChange .EXACT (s.view (level + 1)) c.1 c.2) :
    wp (changesOf level iter)
      (fun changes s' => changes = iter.flatMap (describe (s.view (level + 1))) ∧
        OnlyCache s s') E s := by
  induction iter generalizing s with
  | nil => exact ⟨rfl, hc, s.root.mEntryCache, rfl⟩
  | cons c iter ih =>
    obtain ⟨hright, hrest⟩ := forall_mem_cons.mp hiter
    unfold changesOf
    refine wp_getNewestVersion hc fun cache hcache => ?_
    rw [changeOf_eq hright, wp_bind, wp_pure, wp_bind]
    refine (ih hcache hrest).imp fun rest s' h' => ?_
    obtain ⟨rfl, hcache'⟩ := h'
    exact ⟨rfl, OnlyCache.trans ⟨hcache, cache, rfl⟩ hcache'⟩

/-- Applying what is listed for the entries is replaying them. -/
theorem foldl_apply_describe (hiter : ∀ c ∈ iter, RightChange .EXACT m c.1 c.2) (acc : LedgerMap) :
    (iter.flatMap (describe m)).foldl LedgerEntryChange.apply acc = Overlay.replay acc iter := by
  induction iter generalizing acc with
  | nil => rfl
  | cons c iter ih =>
    obtain ⟨hright, hrest⟩ := forall_mem_cons.mp hiter
    have hone : (describe m c).foldl LedgerEntryChange.apply acc = Function.update acc c.1 c.2 := by
      rcases describe_cases hright with
        ⟨_, e, -, hcur, hkey, hd⟩ | ⟨_, -, hcur, hd⟩ | ⟨e, -, hcur, hkey, hd⟩
      all_goals rw [hd, hcur]
      · rw [← hkey]
        rfl
      · rfl
      · rw [← hkey]
        rfl
    rw [flatMap_cons, foldl_append, ih hrest, hone]
    rfl

/-- The entries of a transaction over `m`, in the order of the iteration. -/
structure Iterates (m : LedgerMap) (o : EntryMap) (iter : List EntryChange) :
    Prop where
  keyed : Keyed m
  right : o.All (RightChange .EXACT m)
  perm : iter.Perm o.entries

variable {o : EntryMap}

theorem Iterates.rightChange (h : Iterates m o iter) :
    ∀ c ∈ iter, RightChange .EXACT m c.1 c.2 := h.right.of_perm h.perm

/-- A listed entry is what the transaction's map has at its key. -/
theorem Iterates.view (h : Iterates m o iter)
    (hc : c ∈ iter) : o.view m c.1 = c.2 := by
  unfold Overlay.view
  rw [mem_lookup_iff.mpr (h.perm.mem_iff.mp hc)]
  rfl

theorem Iterates.changesDescribe (h : Iterates m o iter) :
    ChangesDescribe m (o.view m) (iter.flatMap (describe m)) := by
  constructor
  · rw [foldl_apply_describe h.rightChange, replay_eq_view h.perm]
  · intro d hd
    obtain ⟨c, hc, hd⟩ := mem_flatMap.mp hd
    have hview := h.view hc
    rcases describe_cases (h.rightChange c hc) with
      ⟨previous, e, hprev, hcur, hkey, heq⟩ | ⟨previous, hprev, hcur, heq⟩ |
        ⟨e, hprev, hcur, hkey, heq⟩
    · rw [heq] at hd
      rcases mem_pair.mp hd with rfl | rfl
      · show m (LedgerEntryKey previous) = _
        rw [h.keyed c.1 previous hprev]
        exact hprev
      · show (m (LedgerEntryKey e)).isSome ∧ _
        rw [hkey, hprev, hview]
        exact ⟨rfl, hcur⟩
    · rw [heq] at hd
      rcases mem_pair.mp hd with rfl | rfl
      · show m (LedgerEntryKey previous) = _
        rw [h.keyed c.1 previous hprev]
        exact hprev
      · show (m c.1).isSome ∧ _
        rw [hprev, hview]
        exact ⟨rfl, hcur⟩
    · rw [heq] at hd
      obtain rfl := mem_singleton.mp hd
      show m (LedgerEntryKey e) = none ∧ _
      rw [hkey, hview]
      exact ⟨hprev, hcur⟩

/-- The element of a delta for one entry over the map `m`. -/
def deltaAt (m : LedgerMap) (c : EntryChange) : Σ _ : LedgerKey, Option EntryDelta :=
  ⟨c.1, some { current := c.2, previous := m c.1 }⟩

theorem wp_deltaOf {E : LtxError → Stack env → Prop} (hc : s.Coherent)
    (entry : AList (fun _ : LedgerKey => EntryDelta)) :
    wp (deltaOf level iter entry) (fun entry' s' =>
        entry' = (iter.map (deltaAt (s.view (level + 1)))).foldl Overlay.change entry ∧
          OnlyCache s s') E s := by
  induction iter generalizing s entry with
  | nil => exact ⟨rfl, hc, s.root.mEntryCache, rfl⟩
  | cons c iter ih =>
    unfold deltaOf
    refine wp_getNewestVersion hc fun cache hcache => ?_
    refine (ih hcache _).imp fun entry' s' h' => ?_
    obtain ⟨rfl, hcache'⟩ := h'
    exact ⟨rfl, OnlyCache.trans ⟨hcache, cache, rfl⟩ hcache'⟩

/-- A delta has one element for each entry. -/
theorem Iterates.lookup_delta (h : Iterates m o iter) (key : LedgerKey) :
    ((iter.map (deltaAt m)).foldl Overlay.change ∅).lookup key =
      (o.lookup key).map fun v => { current := v, previous := m key } := by
  have hkeys : (iter.map (deltaAt m)).keys = iter.keys := by
    simp only [List.keys, map_map]
    rfl
  have hiter : iter.NodupKeys := (perm_nodupKeys h.perm).mpr o.nodupKeys
  have hnodup : (iter.map (deltaAt m)).NodupKeys := by
    unfold List.NodupKeys
    rw [hkeys]
    exact hiter
  have hfold := congrFun (lookup_foldl_change ∅ (iter.map (deltaAt m))) key
  rw [hfold, replay_apply hnodup]
  show _ = (o.entries.dlookup key).map _
  rw [← perm_dlookup key hiter h.perm]
  cases hl : iter.dlookup key with
  | none =>
    have hnot : key ∉ (iter.map (deltaAt m)).keys := by
      rw [hkeys]
      exact dlookup_eq_none.mp hl
    rw [dlookup_eq_none.mpr hnot]
    rfl
  | some v =>
    have hmem : ⟨key, v⟩ ∈ iter :=
      of_mem_dlookup (Option.mem_def.mpr hl)
    rw [mem_dlookup hnodup (mem_map_of_mem hmem)]
    rfl

theorem Iterates.deltaDescribes (h : Iterates m o iter) (header : HeaderDelta) :
    DeltaDescribes m (o.view m)
      { entry := (iter.map (deltaAt m)).foldl Overlay.change ∅, header := header } := by
  refine ⟨?_, fun key d hd => ?_, fun key hkey => ?_⟩
  · funext key
    unfold LedgerTxnDelta.apply Overlay.view
    simp only [h.lookup_delta key]
    cases o.lookup key <;> rfl
  · rw [h.lookup_delta key] at hd
    obtain ⟨v, -, rfl⟩ := Option.map_eq_some_iff.mp hd
    rfl
  · rw [← lookup_isSome, h.lookup_delta key, Option.isSome_map] at hkey
    obtain ⟨v, hv⟩ := Option.isSome_iff_exists.mp hkey
    have hright := (h.right key v hv).mentioned
    have hview : o.view m key = v := by
      unfold Overlay.view
      rw [hv]
      rfl
    rwa [hview]

/-- Writing the live entries replays the writes. -/
theorem foldl_live (hiter : ∀ c ∈ iter, RightChange .EXACT m c.1 c.2) (acc : LedgerMap) :
    (iter.filterMap Sigma.snd).foldl
        (fun m e => Function.update m (LedgerEntryKey e) (some e)) acc =
      Overlay.replay acc (iter.filter fun c => c.2.isSome) := by
  induction iter generalizing acc with
  | nil => rfl
  | cons c iter ih =>
    obtain ⟨hright, hrest⟩ := forall_mem_cons.mp hiter
    obtain ⟨key, v⟩ := c
    cases v with
    | none => exact ih hrest acc
    | some e =>
      have hkey : LedgerEntryKey e = key := hright
      subst hkey
      exact ih hrest _

/-- Deleting the dead keys replays the deletions. -/
theorem foldl_dead (iter : List EntryChange) (acc : LedgerMap) :
    (iter.filterMap fun c => if c.2.isNone then some c.1 else none).foldl
        (fun m key => Function.update m key none) acc =
      Overlay.replay acc (iter.filter fun c => !c.2.isSome) := by
  induction iter generalizing acc with
  | nil => rfl
  | cons c iter ih =>
    obtain ⟨key, v⟩ := c
    cases v with
    | none => exact ih _
    | some e => exact ih acc

/-- Live entries and dead keys of two iterations over the same entries. -/
theorem Iterates.entriesDescribe {iter' : List EntryChange}
    (h : Iterates m o iter) (h' : Iterates m o iter') :
    EntriesDescribe m (o.view m) (iter.filterMap Sigma.snd)
      (iter'.filterMap fun c => if c.2.isNone then some c.1 else none) := by
  refine ⟨?_, fun e he => ?_, fun key hkey => ?_⟩
  · have hperm : (iter.filter (fun c => c.2.isSome) ++
        iter'.filter fun c => !c.2.isSome).Perm o.entries := by
      have hsame : iter'.Perm iter := h'.perm.trans h.perm.symm
      refine ((hsame.filter _).append_left _).trans ?_
      exact (filter_append_perm _ iter).trans h.perm
    unfold applyEntries
    rw [foldl_live h.rightChange, foldl_dead, ← replay_eq_view hperm m]
    exact (foldl_append ..).symm
  · obtain ⟨c, hc, hcur⟩ := mem_filterMap.mp he
    have hright := h.rightChange c hc
    rw [hcur] at hright
    rw [hright, h.view hc, hcur]
  · obtain ⟨c, hc, hcur⟩ := mem_filterMap.mp hkey
    split at hcur
    · rename_i hnone
      cases hcur
      have hright := h'.rightChange c hc
      have hdead : c.2 = none := Option.isNone_iff_eq_none.mp hnone
      rw [hdead] at hright
      exact ⟨hright rfl, (h'.view hc).trans hdead⟩
    · cases hcur

end Lists

/-! ## Whole histories -/

section Histories

variable {s s' : Stack env} {t : LedgerTxnImpl} {level : Nat}

theorem Stack.Exact.iterates (h : s.Exact) (ht : s.txns[level]? = some t)
    (hexact : t.mConsistency = .EXACT) (o : IterationOrder) :
    Iterates (s.view (level + 1)) (committedEntries t) (o.order (committedEntries t)) := by
  have hall := committedEntries_all (h.at_level ht)
  rw [hexact] at hall
  exact ⟨h.keyed (level + 1), hall, o.perm _⟩

theorem wp_getChanges (hc : s.Coherent) (h : s.Exact)
    (ht : s.txns[level]? = some t) (hexact : t.mConsistency = .EXACT)
    (o : IterationOrder) :
    wp (getChanges level o) (fun changes s' => ChangesDescribe (s.view (level + 1))
        ((committedEntries t).view (s.view (level + 1))) changes ∧
          Sealed level t s s') (hasChild level) s := by
  have hiter := h.iterates ht hexact o
  unfold getChanges
  refine wp_getImpl_some ht ?_
  refine wp_throwIfNotExactConsistency hexact ?_
  refine wp_sealing ht ((wp_changesOf hc hiter.rightChange).mono ?_ fun _ _ h' => h')
  rintro changes s' ⟨rfl, hcache⟩
  exact ⟨hiter.changesDescribe, hcache⟩

theorem wp_getDelta (hc : s.Coherent) (h : s.Exact)
    (ht : s.txns[level]? = some t) (hexact : t.mConsistency = .EXACT)
    (o : IterationOrder) :
    wp (getDelta level o) (fun delta s' => DeltaDescribes (s.view (level + 1))
        ((committedEntries t).view (s.view (level + 1))) delta ∧
          Sealed level t s s') (hasChild level) s := by
  have hiter := h.iterates ht hexact o
  unfold getDelta
  refine wp_getImpl_some ht ?_
  refine wp_throwIfNotExactConsistency hexact ?_
  refine wp_sealing ht ?_
  refine (wp_deltaOf hc ∅).bind ?_
  rintro entry s' ⟨rfl, hcache⟩
  unfold parentHeader
  rw [wp_bind, wp_bind, wp_get]
  split <;> exact ⟨hiter.deltaDescribes _, hcache⟩

theorem wlp_deltaOf {iter : List EntryChange} {entry : AList (fun _ : LedgerKey => EntryDelta)} :
    wlp (deltaOf level iter entry) (fun entry' _ => ∀ key d, entry'.lookup key = some d →
      entry.lookup key = some d ∨ ⟨key, d.current⟩ ∈ iter) s := by
  induction iter generalizing s entry with
  | nil => exact fun _ _ h' => .inl h'
  | cons c iter ih =>
    unfold deltaOf
    rw [wlp, wp_bind]
    refine wlp_iff.mpr fun previous s' _ => ih.imp fun entry' _ h' key d hd => ?_
    rcases h' key d hd with hbefore | hmem
    · by_cases hkey : key = c.1
      · subst hkey
        rw [lookup_insert] at hbefore
        cases hbefore
        exact .inr mem_cons_self
      · rw [lookup_insert_ne hkey] at hbefore
        exact .inl hbefore
    · exact .inr (mem_cons_of_mem _ hmem)

/-- The entries of a delta are the recorded ones, with the ledger they were
modified in. -/
theorem wlp_getDelta (ht : s.txns[level]? = some t) (hopen : t.mIsSealed = false)
    (o : IterationOrder) :
    wlp (getDelta level o) (fun delta _ => delta.header.current = t.mHeader ∧
      ∀ key d, delta.entry.lookup key = some d →
        (maybeUpdateLastModified t).lookup key = some d.current) s := by
  unfold getDelta
  rw [wlp]
  refine wp_getImpl_some ht ?_
  rw [wp_bind]
  refine wlp_iff.mpr fun _ s' hthrow => ?_
  obtain rfl : s = s' := by
    unfold throwIfNotExactConsistency at hthrow
    split at hthrow
    · cases hthrow
    · cases hthrow
      rfl
  unfold maybeUpdateLastModifiedThenInvokeThenSeal
  refine wp_getImpl_some ht ?_
  rw [if_neg (Bool.eq_false_iff.mp hopen), wp_bind]
  refine wlp_iff.mpr fun _ s' _ => ?_
  rw [wp_bind]
  refine wlp_deltaOf.bind fun entry s' hentry => ?_
  rw [wp_bind]
  refine wlp_iff.mpr fun previous s' _ => ?_
  rw [wp_pure, wp_bind, wp_modify]
  refine ⟨rfl, fun key d hd => ?_⟩
  rcases hentry key d hd with hnone | hmem
  · cases hnone
  · exact mem_lookup_iff.mpr ((o.perm _).mem_iff.mp hmem)

theorem wp_getLiveEntries (hc : s.Coherent) (ht : s.txns[level]? = some t) (o : IterationOrder) :
    wp (getLiveEntries level o) (fun live s' =>
        live = (o.order (committedEntries t)).filterMap Sigma.snd ∧
          Sealed level t s s') (hasChild level) s := by
  refine wp_sealing ht ?_
  exact ⟨rfl, hc, s.root.mEntryCache, rfl⟩

theorem wp_getDeadEntries (hc : s.Coherent) (ht : s.txns[level]? = some t)
    (hexact : t.mConsistency = .EXACT) (o : IterationOrder) :
    wp (getDeadEntries level o) (fun dead s' =>
        dead = ((o.order (committedEntries t)).filterMap fun c =>
          if c.2.isNone then some c.1 else none) ∧ Sealed level t s s') (hasChild level) s := by
  unfold getDeadEntries
  refine wp_getImpl_some ht ?_
  refine wp_throwIfNotExactConsistency hexact ?_
  refine wp_sealing ht ?_
  exact ⟨rfl, hc, s.root.mEntryCache, rfl⟩

/-- A second call finds the transaction sealed, with the same entries. -/
theorem Sealed.again (h : Sealed level t s s') (ht : s.txns[level]? = some t) :
    ∃ t', s'.txns[level]? = some t' ∧ t'.mIsSealed ∧ t'.mConsistency = t.mConsistency ∧
      committedEntries t' = committedEntries t := by
  obtain ⟨hlt, -⟩ := List.getElem?_eq_some_iff.mp ht
  refine ⟨if t.mIsSealed then t else t.sealed, ?_, ?_⟩
  · rw [h.txns, List.getElem?_set_self hlt]
  · unfold committedEntries
    by_cases hsealed : t.mIsSealed
    · simp [hsealed]
    · simp [hsealed, LedgerTxnImpl.sealed]

theorem Sealed.trans {s'' : Stack env} {t' : LedgerTxnImpl}
    (h : Sealed level t s s') (h' : Sealed level t' s' s'')
    (ht' : s'.txns[level]? = some t') (hsealed : t'.mIsSealed) :
    Sealed level t s s'' := by
  refine ⟨h'.coherent, h'.database.trans h.database, ?_⟩
  rw [h'.txns, if_pos hsealed, ← h.txns]
  obtain ⟨_, hget⟩ := List.getElem?_eq_some_iff.mp ht'
  rw [← hget, set_getElem_self]

/-- Whatever was called before, an `EXACT` transaction lists the edit from its
parent's map to its own, and no assertion fails. Only a transaction with a
child refuses to. -/
theorem changes_describe_ledgerTxn (env : LtxEnv) (batchSize : Nat)
    (header : LedgerHeader) (rows : Table) (ec : env.entryCache.Store)
    (bc : env.bestOffersCache.Store)
    (hrows : Keyed fun key => rows.lookup key) (ops : List Op)
    (hops : ∀ op ∈ ops, op.KeepsKeys) (s : Stack env)
    (hrun : runOps batchSize ops (Stack.initial header rows ec bc) = .ok () s)
    (level : Nat) (t : LedgerTxnImpl) (ht : s.txns[level]? = some t)
    (hexact : t.mConsistency = .EXACT) (o o' : IterationOrder) :
    wp (getChanges level o) (fun changes s' =>
        ChangesDescribe (s.view (level + 1)) (s'.view level) changes ∧
          SameData (s'.view level) (s.view level)) (hasChild level) s ∧
    wp (getDelta level o) (fun delta s' =>
        DeltaDescribes (s.view (level + 1)) (s'.view level) delta ∧
          SameData (s'.view level) (s.view level)) (hasChild level) s ∧
    wp (do
        let live ← getLiveEntries level o
        let dead ← getDeadEntries level o'
        pure (live, dead))
      (fun entries s' =>
        EntriesDescribe (s.view (level + 1)) (s'.view level) entries.1 entries.2 ∧
          SameData (s'.view level) (s.view level)) (hasChild level) s := by
  obtain ⟨hc, h⟩ := (wp_runOps_exact batchSize hops
    (refines_initial header rows ec bc) hrows).of_ok hrun
  refine ⟨?_, ?_, ?_⟩
  · refine (wp_getChanges hc h ht hexact o).imp ?_
    rintro changes s' ⟨hdesc, hsealed⟩
    rw [← hsealed.view ht] at hdesc
    exact ⟨hdesc, hsealed.sameData ht⟩
  · refine (wp_getDelta hc h ht hexact o).imp ?_
    rintro delta s' ⟨hdesc, hsealed⟩
    rw [← hsealed.view ht] at hdesc
    exact ⟨hdesc, hsealed.sameData ht⟩
  · rw [wp_bind]
    refine (wp_getLiveEntries hc ht o).imp ?_
    rintro live s₁ ⟨rfl, hsealed₁⟩
    obtain ⟨_, ht₁, hs₁, hcons₁, hentries⟩ := hsealed₁.again ht
    rw [wp_bind]
    refine (wp_getDeadEntries hsealed₁.coherent ht₁ (hcons₁.trans hexact)
      o').imp ?_
    rintro dead s₂ ⟨rfl, hsealed₂⟩
    have hsealed := hsealed₁.trans hsealed₂ ht₁ hs₁
    have hdesc := (h.iterates ht hexact o).entriesDescribe (h.iterates ht hexact o')
    rw [← hsealed.view ht] at hdesc
    rw [hentries]
    exact ⟨hdesc, hsealed.sameData ht⟩

/-- The transaction of `smallOps`, into which a child that created an entry
was committed. -/
theorem changes_describe_ledgerTxn_small : ∃ (s : Stack smallEnv) (t : LedgerTxnImpl),
      runOps 0 smallOps (Stack.initial smallHeader ∅ [] []) = .ok () s ∧
      s.txns[0]? = some t ∧ t.mConsistency = .EXACT ∧
      wp (getChanges 0 ⟨AList.entries, fun _ => List.Perm.refl _⟩)
        (fun changes s' => ChangesDescribe (s.view 1) (s'.view 0) changes ∧
          SameData (s'.view 0) (s.view 0)) (hasChild 0) s := by
  have hops : ∀ op ∈ smallOps, op.KeepsKeys := by
    intro op hop
    simp only [smallOps, mem_cons, not_mem_nil, or_false] at hop
    rcases hop with rfl | rfl | rfl | rfl | rfl | rfl | rfl | rfl
    all_goals first | exact trivial | rfl
  obtain ⟨s, hrun, t, ht, hexact⟩ : ∃ s : Stack smallEnv,
      runOps 0 smallOps (initial smallHeader ∅ [] []) = .ok () s ∧
      ∃ t, s.txns[0]? = some t ∧ t.mConsistency = .EXACT :=
    ⟨_, rfl, _, rfl, rfl⟩
  exact ⟨s, t, hrun, ht, hexact, (changes_describe_ledgerTxn smallEnv 0 smallHeader ∅ [] []
      (fun _ _ h => by cases h) smallOps hops s hrun 0 t ht hexact _
      ⟨entries, fun _ => Perm.refl _⟩).1⟩

end Histories

end EssaCore.Ledger
