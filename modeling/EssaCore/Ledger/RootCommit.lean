import EssaCore.Ledger.LedgerTxnRefinement

/-!
# Committing into the root

The outermost commit sends every change to the database through eight buffers
that are flushed when they exceed a threshold (`LedgerTxnRoot::Impl::commitChild`
and `bulkApply`). Whatever the threshold, each change reaches the tables exactly
once, and the caches are cleared.

- `pending` — the changes that wait in the buffers;
- `wp_bulkApplyBuffers` — flushing moves changes from the buffers to the tables;
- `wp_rootCommitEntries` — the loop applies a permutation of the changes;
- `Refines.rootCommit` — so the tables hold the committed map;
- `wp_run`, `wp_runOps` — all calls together;
- `nested_ledgerTxn_refines_maps` — the refinement of whole histories.
-/

open List AList

namespace EssaCore.Ledger

open EssaCore.Lib Overlay Stack

variable {env : LtxEnv}

/-! ## Buffers -/

/-- The changes that wait in the buffers. -/
def pending (bleca : BulkLedgerEntryChangeAccumulator) : List EntryChange :=
  bulkOrder.flatMap fun b => bleca b.1 b.2

theorem mem_bulkOrder (b : LedgerEntryType × BulkKind) : b ∈ bulkOrder := by
  obtain ⟨type, kind⟩ := b
  cases type <;> cases kind <;> decide

theorem nodup_bulkOrder : bulkOrder.Nodup := by decide

/-- One buffer and the rest make up what is pending. -/
theorem pending_perm (bleca : BulkLedgerEntryChangeAccumulator) (b : LedgerEntryType × BulkKind) :
    (pending bleca).Perm (bleca b.1 b.2 ++ (bulkOrder.erase b).flatMap fun b => bleca b.1 b.2) := by
  have h := (perm_cons_erase (mem_bulkOrder b)).flatMap_right fun b => bleca b.1 b.2
  rwa [flatMap_cons] at h

/-- A change of one buffer leaves the rest of what is pending. -/
theorem rest_congr {bleca bleca' : BulkLedgerEntryChangeAccumulator}
    {b : LedgerEntryType × BulkKind}
    (h : ∀ b', b' ≠ b → bleca' b'.1 b'.2 = bleca b'.1 b'.2) :
    ((bulkOrder.erase b).flatMap fun b => bleca' b.1 b.2) =
      (bulkOrder.erase b).flatMap fun b => bleca b.1 b.2 := by
  have hmap : (bulkOrder.erase b).map (fun b => bleca' b.1 b.2) =
      (bulkOrder.erase b).map fun b => bleca b.1 b.2 :=
    map_congr_left fun b' hb' =>
      h b' ((Nodup.mem_erase_iff nodup_bulkOrder).mp hb').1
  rw [flatMap_def, flatMap_def, hmap]

theorem pending_accumulate (bleca : BulkLedgerEntryChangeAccumulator) (c : EntryChange) :
    (pending (accumulate bleca c)).Perm (c :: pending bleca) := by
  have hrest : ∀ b', b' ≠ (c.1.type, EntryChange.kind c) →
      accumulate bleca c b'.1 b'.2 = bleca b'.1 b'.2 := by
    intro b' hb'
    refine if_neg fun hb => hb' ?_
    exact Prod.ext hb.1 hb.2
  have hnew : accumulate bleca c c.1.type (EntryChange.kind c) =
      bleca c.1.type (EntryChange.kind c) ++ [c] := if_pos ⟨rfl, rfl⟩
  have hold := pending_perm bleca (c.1.type, EntryChange.kind c)
  have h := pending_perm (accumulate bleca c) (c.1.type, EntryChange.kind c)
  rw [rest_congr hrest, hnew, append_assoc] at h
  exact h.trans (perm_middle.trans (hold.symm.cons c))

theorem pending_clearBuffer (bleca : BulkLedgerEntryChangeAccumulator)
    (b : LedgerEntryType × BulkKind) :
    (bleca b.1 b.2 ++ pending (clearBuffer bleca b)).Perm (pending bleca) := by
  have hrest : ∀ b', b' ≠ b → clearBuffer bleca b b'.1 b'.2 = bleca b'.1 b'.2 :=
    fun b' hb' => if_neg hb'
  have hnew : clearBuffer bleca b b.1 b.2 = [] := if_pos rfl
  have h := pending_perm (clearBuffer bleca b) b
  rw [rest_congr hrest, hnew] at h
  exact (h.append_left _).trans (pending_perm bleca b).symm

/-! ## Flushing -/

theorem Database.run_run (d : Database) (l l' : List EntryChange) :
    (d.run l).run l' = d.run (l ++ l') := by
  simp [Database.run]

@[simp] theorem Database.run_nil (d : Database) : d.run [] = d := by
  simp [Database.run]

/-- The tables after a list of statements. -/
theorem Database.lookup_run (d : Database) (l : List EntryChange) :
    (d.run l).lookup = Overlay.replay d.lookup l :=
  lookup_foldl_change d.rows l

/-- The state after a list of statements. -/
def Stack.runSql (s : Stack env) (l : List EntryChange) : Stack env :=
  s.withDatabase (s.root.mDatabase.run l)

@[simp] theorem Stack.runSql_nil (s : Stack env) : s.runSql [] = s := by
  simp [runSql, withDatabase]

theorem Stack.runSql_runSql (s : Stack env) (l l' : List EntryChange) :
    (s.runSql l).runSql l' = s.runSql (l ++ l') := by
  simp [runSql, withDatabase, Database.run_run]

section Flush

variable {s : Stack env} {threshold : Nat} {cons : LedgerTxnConsistency}

theorem wp_bulkDelete {Q : Unit → Stack env → Prop} (l : List EntryChange)
    (hQ : Q () (s.runSql l)) : wp (bulkDelete l cons) Q anyHalt s := by
  unfold bulkDelete
  rw [wp_bind, wp_get, wp_bind, wp_modify, wp_ite]
  exact ⟨fun _ => trivial, fun _ => hQ⟩

/-- A buffer is either left alone, or written and cleared; with threshold 0
nothing stays in it. -/
theorem wp_bulkApplyBuffer (b : LedgerEntryType × BulkKind)
    (bleca : BulkLedgerEntryChangeAccumulator) :
    wp (bulkApplyBuffer threshold cons b bleca) (fun bleca' s' => ∃ l, s' = s.runSql l ∧
        (l ++ pending bleca').Perm (pending bleca) ∧
        (threshold = 0 → ∀ b', b' = b ∨ bleca b'.1 b'.2 = [] → bleca' b'.1 b'.2 = []))
      anyHalt s := by
  unfold bulkApplyBuffer
  rw [wp_ite]
  constructor
  · intro _
    have hcleared : ∀ b', b' = b ∨ bleca b'.1 b'.2 = [] → clearBuffer bleca b b'.1 b'.2 = [] := by
      rintro b' (rfl | hb')
      · exact if_pos rfl
      · unfold clearBuffer
        split
        · rfl
        · exact hb'
    have hdone : wp (pure (clearBuffer bleca b))
        (fun bleca' s' => ∃ l, s' = s.runSql l ∧ (l ++ pending bleca').Perm (pending bleca) ∧
          (threshold = 0 → ∀ b', b' = b ∨ bleca b'.1 b'.2 = [] → bleca' b'.1 b'.2 = []))
        anyHalt (s.runSql (bleca b.1 b.2)) :=
      ⟨_, rfl, pending_clearBuffer bleca b, fun _ => hcleared⟩
    split
    · exact hdone
    · rw [wp_bind]
      exact wp_bulkDelete _ hdone
  · intro hle
    refine ⟨[], s.runSql_nil.symm, Perm.refl _, ?_⟩
    rintro rfl b' (rfl | hb')
    · exact eq_nil_of_length_eq_zero (by omega)
    · exact hb'

theorem wp_bulkApplyBuffers (bs : List (LedgerEntryType × BulkKind))
    (bleca : BulkLedgerEntryChangeAccumulator) :
    wp (bulkApplyBuffers threshold cons bs bleca) (fun bleca' s' => ∃ l, s' = s.runSql l ∧
        (l ++ pending bleca').Perm (pending bleca) ∧
        (threshold = 0 → ∀ b', b' ∈ bs ∨ bleca b'.1 b'.2 = [] → bleca' b'.1 b'.2 = []))
      anyHalt s := by
  induction bs generalizing s bleca with
  | nil =>
    refine ⟨[], s.runSql_nil.symm, Perm.refl _, ?_⟩
    rintro - b' (hb' | hb')
    · cases hb'
    · exact hb'
  | cons b bs ih =>
    unfold bulkApplyBuffers
    refine (wp_bulkApplyBuffer b bleca).bind ?_
    rintro bleca₁ s₁ ⟨l₁, rfl, hperm₁, hempty₁⟩
    refine (ih bleca₁).imp ?_
    rintro bleca₂ s₂ ⟨l₂, rfl, hperm₂, hempty₂⟩
    refine ⟨l₁ ++ l₂, s.runSql_runSql l₁ l₂, ?_, ?_⟩
    · rw [append_assoc]
      exact (hperm₂.append_left l₁).trans hperm₁
    · rintro h0 b' hb'
      refine hempty₂ h0 b' ?_
      rcases hb' with hb' | hb'
      · rcases mem_cons.mp hb' with rfl | hb'
        · exact .inr (hempty₁ h0 _ (.inl rfl))
        · exact .inl hb'
      · exact .inr (hempty₁ h0 b' (.inr hb'))

/-- The loop sends every change to the tables once, in some order. -/
theorem wp_rootCommitEntries (batchSize : Nat) (iter : List EntryChange)
    (bleca : BulkLedgerEntryChangeAccumulator)
    (hlast : iter = [] → pending bleca = []) :
    wp (rootCommitEntries batchSize cons iter bleca)
      (fun _ s' => ∃ l, s' = s.runSql l ∧ l.Perm (pending bleca ++ iter))
      anyHalt s := by
  induction iter generalizing s bleca with
  | nil =>
    refine ⟨[], s.runSql_nil.symm, ?_⟩
    rw [hlast rfl]
    exact Perm.refl _
  | cons c iter ih =>
    unfold rootCommitEntries
    refine (wp_bulkApplyBuffers bulkOrder (accumulate bleca c)).bind ?_
    rintro bleca₁ s₁ ⟨l₁, rfl, hperm₁, hempty₁⟩
    have hlast₁ : iter = [] → pending bleca₁ = [] := by
      intro hiter
      have h0 : (if iter ≠ [] then batchSize else 0) = 0 :=
        if_neg (not_not_intro hiter)
      refine flatMap_eq_nil_iff.mpr fun b _ => ?_
      exact hempty₁ h0 b (.inl (mem_bulkOrder b))
    refine (ih bleca₁ hlast₁).imp ?_
    rintro - s₂ ⟨l₂, rfl, hperm₂⟩
    refine ⟨l₁ ++ l₂, s.runSql_runSql l₁ l₂, ?_⟩
    calc (l₁ ++ l₂).Perm (l₁ ++ (pending bleca₁ ++ iter)) :=
          hperm₂.append_left l₁
      _ = (l₁ ++ pending bleca₁) ++ iter := (append_assoc _ _ _).symm
      List.Perm _ (pending (accumulate bleca c) ++ iter) :=
          hperm₁.append_right iter
      List.Perm _ (c :: pending bleca ++ iter) :=
          (pending_accumulate bleca c).append_right iter
      List.Perm _ (pending bleca ++ c :: iter) := perm_middle.symm

end Flush

/-! ## The outermost commit -/

section Commit

variable {s : Stack env} {ms : MapStack} {t : LedgerTxnImpl}

/-- What the outermost commit leaves behind: no transaction, a cache that
answers as the tables do, and the changes of `t` applied to the tables. -/
structure RootCommitted (s : Stack env) (t : LedgerTxnImpl) (s' : Stack env)
    (changes : List EntryChange) : Prop where
  txns : s'.txns = []
  coherent : s'.Coherent
  database : s'.root.mDatabase = s.root.mDatabase.run changes
  perm : changes.Perm (committedEntries t).entries

theorem wp_commit_root (batchSize : Nat) (o : IterationOrder) (hs : s.txns = [t]) :
    wp (commit batchSize 0 o) (fun _ s' => ∃ changes, RootCommitted s t s' changes) anyHalt s := by
  unfold commit
  refine wp_getImpl fun u hu => ?_
  rw [hs] at hu
  obtain rfl : t = u := by simpa using hu
  refine wp_throwIfChild fun _ => ?_
  rw [wp_bind, wp_get, if_neg (by simp [hs]), wp_bind]
  unfold rootCommitChild
  refine (wp_rootCommitEntries batchSize _ _ fun _ => rfl).bind ?_
  rintro - s' ⟨l, rfl, hperm⟩
  rw [wp_modify]
  refine ⟨l, ?_, ?_, rfl, ?_⟩
  · show s.txns.tail = []
    rw [hs]
    rfl
  · exact ⟨env.entryCache.all_clear _, env.bestOffersCache.all_clear _⟩
  · exact hperm.trans (o.perm _)

variable {s' : Stack env}

/-- The tables then hold the committed map. -/
theorem RootCommitted.lookup {changes : List EntryChange}
    (h : RootCommitted s t s' changes) :
    s'.root.mDatabase.lookup = (committedEntries t).view s.root.mDatabase.lookup := by
  rw [h.database, Database.lookup_run, replay_eq_view h.perm]

theorem Refines.rootCommit (h : Refines s ms) (hs : s.txns = [t])
    {changes : List EntryChange}
    (h' : RootCommitted s t s' changes) :
    Refines s' (ms.current :: ms.drop 2) := by
  have hcur := h.current
  have hmaps := h.maps
  rw [hs] at hmaps
  refine ⟨h'.coherent, ?_, ?_⟩
  · rw [h'.txns]
    cases hmaps with
    | cons _ hmaps =>
      cases hmaps with
      | cons _ hnil =>
        cases hnil
        refine .cons ?_ .nil
        rw [h'.lookup]
        have hbelow : s.below = s.root.mDatabase.lookup := by
          simp [Stack.below, Stack.view, hs]
        rw [Stack.view_zero hs, hbelow] at hcur
        exact (sameData_committedEntries t _).trans hcur
  · rw [h'.txns]
    intro u hu
    cases hu

theorem wp_commit (batchSize level : Nat) (o : IterationOrder) (h : Refines s ms) :
    wp (commit batchSize level o) (fun _ s' => Refines s' (ms.current :: ms.drop 2)) anyHalt s := by
  by_cases h0 : level = 0
  · subst h0
    match hs : s.txns with
    | [] =>
      unfold commit
      refine wp_getImpl fun t ht => ?_
      rw [hs] at ht
      cases ht
    | [t] =>
      refine (wp_commit_root batchSize o hs).imp ?_
      rintro - s' ⟨changes, h'⟩
      exact h.rootCommit hs h'
    | t :: p :: ts =>
      unfold commit
      refine wp_getImpl fun u hu => ?_
      rw [hs] at hu
      obtain rfl : t = u := by simpa using hu
      refine wp_throwIfChild fun _ => ?_
      rw [wp_bind, wp_get, if_pos (by simp [hs])]
      refine (wp_commitChild hs h.coherent _ _).bind ?_
      intro _ s' h'
      exact h.afterCommit hs (o.perm _) h'
  · unfold commit
    refine wp_getImpl fun t _ => ?_
    exact wp_throwIfChild fun hl => absurd hl h0

/-- Only the innermost transaction can be committed. -/
theorem commit_innermost {batchSize level : Nat} {o : IterationOrder}
    (hcommit : commit batchSize level o s = .ok () s') :
    level = 0 ∧ ∃ t ts, s.txns = t :: ts := by
  have h : wp (commit batchSize level o)
      (fun _ _ => level = 0 ∧ ∃ t ts, s.txns = t :: ts) anyHalt s := by
    unfold commit
    refine wp_getImpl fun t ht => ?_
    refine wp_throwIfChild fun h0 => ?_
    subst h0
    have hs : ∃ t ts, s.txns = t :: ts := by
      cases hs : s.txns with
      | nil => simp [hs] at ht
      | cons t ts => exact ⟨t, ts, rfl⟩
    unfold wp
    split
    · exact ⟨rfl, hs⟩
    · trivial
  exact h.of_ok hcommit

theorem Refines.length (h : Refines s ms) : ms.length = s.txns.length + 1 := by
  have hlen : ∀ (rows : LedgerMap) (ts : List LedgerTxnImpl),
      (mapsOf rows ts).length = ts.length + 1 := by
    intro rows ts
    induction ts with
    | nil => rfl
    | cons t ts ih => simp [mapsOf, ih]
  rw [← h.maps.length_eq, hlen]

/-- A commit that leaves no transaction was one of a single transaction into
the root. -/
theorem Refines.commit_to_root (h : Refines s ms) {batchSize level : Nat}
    {o : IterationOrder}
    (hcommit : commit batchSize level o s = .ok () s')
    (hroot : s'.txns = []) :
    ∃ t changes, s.txns = [t] ∧ RootCommitted s t s' changes := by
  obtain ⟨rfl, t, ts, hs⟩ := commit_innermost hcommit
  have hlen := h.length
  have hlen' := ((wp_commit batchSize 0 o h).of_ok hcommit).length
  rw [hroot, length_cons, length_drop, length_nil] at hlen'
  rw [hs, length_cons] at hlen
  obtain rfl : ts = [] := eq_nil_of_length_eq_zero (by omega)
  obtain ⟨changes, h'⟩ := (wp_commit_root batchSize o hs).of_ok hcommit
  exact ⟨t, changes, hs, h'⟩

theorem mem_committedEntries (t : LedgerTxnImpl) (key : LedgerKey) :
    key ∈ committedEntries t ↔ key ∈ t.mEntry := by
  unfold committedEntries maybeUpdateLastModified
  split
  · exact Iff.rfl
  · rw [← lookup_isSome, ← lookup_isSome, lookup_mapValues, Option.isSome_map]

end Commit

/-! ## Histories -/

section Histories

variable {s : Stack env} {ms : MapStack}

/-- Every call that returns edits the maps as specified. -/
theorem wp_run (batchSize : Nat) (op : Op) (h : Refines s ms) :
    wp (op.run batchSize) (fun _ s' => Refines s' (op.edit ms)) anyHalt s := by
  cases op with
  | create level entry => exact wp_create h
  | createOrUpdateWithoutLoading level entry =>
    exact wp_createOrUpdateWithoutLoading h
  | erase level key => exact wp_erase h
  | eraseWithoutLoading level key => exact wp_eraseWithoutLoading h
  | load level key =>
    unfold Op.run
    rw [wp_bind]
    exact wp_load h
  | loadWithoutRecord level key =>
    unfold Op.run
    rw [wp_bind]
    exact wp_loadWithoutRecord h
  | getNewestVersion level key =>
    unfold Op.run
    exact wp_getNewestVersion h.coherent fun _ hc => h.withCache hc
  | assignCurrent level key entry => exact wp_assignCurrent h
  | deactivateHandle level key => exact wp_deactivateHandle h
  | eraseHandle level key => exact wp_eraseHandle h
  | loadHeader level =>
    unfold Op.run
    rw [wp_bind]
    exact wp_loadHeader h
  | assignHeader level header => exact wp_assignHeader h
  | deactivateHeader level => exact wp_deactivateHeader h
  | openChild level update => exact wp_openChild h
  | sealTxn level => exact wp_sealTxn h
  | unsealHeader level header => exact wp_unsealHeader h
  | commit level order => exact wp_commit batchSize level order h
  | rollback level =>
    exact (wp_rollback h).imp fun _ _ h' => h'.1

theorem wp_runOps (batchSize : Nat) (ops : List Op) (h : Refines s ms) :
    wp (runOps batchSize ops) (fun _ s' => Refines s' (editAll ops ms)) anyHalt s := by
  induction ops generalizing s ms with
  | nil => exact h
  | cons op ops ih =>
    unfold runOps
    exact (wp_run batchSize op h).bind fun _ _ h' => ih h'

theorem refines_initial (header : LedgerHeader) (rows : Table)
    (ec : env.entryCache.Store) (bc : env.bestOffersCache.Store) :
    Refines (Stack.initial header rows ec bc : Stack env) [fun key => rows.lookup key] :=
  ⟨⟨env.entryCache.all_clear ec, env.bestOffersCache.all_clear bc⟩,
    .cons SameData.rfl .nil, fun _ ht => by cases ht⟩

/-- Reading at the innermost transaction always returns, and returns what the
innermost map holds. -/
theorem Refines.reads (h : Refines s ms) (key : LedgerKey) :
    ∃ e s', getNewestVersion 0 key s = .ok e s' ∧ e = s.view 0 key ∧
      e.map LedgerEntry.data = (ms.current key).map LedgerEntry.data := by
  have hread : wp (getNewestVersion 0 key >>= pure) (fun e _ => e = s.view 0 key)
      (fun _ _ => False) s := wp_getNewestVersion h.coherent fun _ _ => rfl
  rw [bind_pure] at hread
  obtain ⟨e, s', hrun, rfl⟩ := hread.returns
  exact ⟨_, s', hrun, rfl, h.current key⟩

/-- A list in which no key occurs twice mentions a key once if at all. -/
theorem countP_key {l : List EntryChange} {m : EntryMap} (hl : l.Perm m.entries) (key : LedgerKey) :
    l.countP (fun c => c.1 = key) = if key ∈ m then 1 else 0 := by
  have hcount : l.countP (fun c => c.1 = key) = m.keys.count key := by
    rw [hl.countP_eq, List.count, AList.keys, List.keys, countP_map]
    rfl
  rw [hcount, (keys_nodup m).count]
  exact if_congr mem_keys.symm rfl rfl

/-- Any sequence of calls that returns leaves a stack whose innermost
transaction reads as the innermost map, and an outermost commit then writes
that map to the tables, each changed key in one statement. -/
theorem nested_ledgerTxn_refines_maps (env : LtxEnv) (batchSize : Nat)
    (header : LedgerHeader) (rows : Table) (ec : env.entryCache.Store)
    (bc : env.bestOffersCache.Store) (ops : List Op) (s : Stack env)
    (hrun : runOps batchSize ops (Stack.initial header rows ec bc) = .ok () s) :
    (∀ key, ∃ e s', getNewestVersion 0 key s = .ok e s' ∧ e.map LedgerEntry.data =
        ((editAll ops [fun key => rows.lookup key]).current key).map LedgerEntry.data) ∧
    (∀ level o s', commit batchSize level o s = .ok () s' → s'.txns = [] →
      (∀ key, ∃ e s'', getNewestVersion 0 key s' = .ok e s'' ∧
        e = s'.root.mDatabase.rows.lookup key ∧
        e.map LedgerEntry.data = ((editAll ops [fun key => rows.lookup key]).current key).map
            LedgerEntry.data) ∧
      ∃ t changes, s.txns = [t] ∧ s'.root.mDatabase.applied = s.root.mDatabase.applied ++ changes ∧
        ∀ key, changes.countP (fun c => c.1 = key) = (if key ∈ t.mEntry then 1 else 0) ∧
          (key ∉ t.mEntry → s'.root.mDatabase.rows.lookup key =
            s.root.mDatabase.rows.lookup key)) := by
  have h := (wp_runOps batchSize ops (refines_initial header rows ec bc)).of_ok hrun
  refine ⟨fun key => ?_, fun level o s' hcommit hroot => ⟨fun key => ?_, ?_⟩⟩
  · obtain ⟨e, s', hread, -, hdata⟩ := h.reads key
    exact ⟨e, s', hread, hdata⟩
  · have h' := (wp_commit batchSize level o h).of_ok hcommit
    obtain ⟨e, s'', hread, hview, hdata⟩ := h'.reads key
    refine ⟨e, s'', hread, ?_, hdata⟩
    rw [hview, Stack.view, hroot]
    rfl
  · obtain ⟨t, changes, hs, hdone⟩ := h.commit_to_root hcommit hroot
    have hkeys : ∀ key, key ∈ committedEntries t ↔ key ∈ t.mEntry :=
      mem_committedEntries t
    refine ⟨t, changes, hs, ?_, fun key => ⟨?_, fun hnot => ?_⟩⟩
    · rw [hdone.database]
      rfl
    · rw [countP_key hdone.perm key]
      exact if_congr (hkeys key) rfl rfl
    · have hlookup := congrFun hdone.lookup key
      unfold Overlay.view at hlookup
      have hnone : (committedEntries t).lookup key = none :=
        lookup_eq_none.mpr fun hin => hnot ((hkeys key).mp hin)
      rw [hnone] at hlookup
      exact hlookup

/-- A root over empty tables with least-recently-used caches. -/
def smallEnv : LtxEnv where
  entryCache := CacheModel.lru LedgerKey (Option LedgerEntry) 2
  bestOffersCache := CacheModel.lru (Asset × Asset) BestOffersCacheEntry 1
  isBetterOffer a b := a.lastModifiedLedgerSeq < b.lastModifiedLedgerSeq

/-- A data entry, and a sequence that creates it in a child, changes it in a
grandchild, rolls one change back and commits the rest. -/
def smallEntry (v : UInt8) : LedgerEntry where
  lastModifiedLedgerSeq := 1
  data := .data { accountID := 1, dataName := "n", dataValue := [v] }

def smallOps : List Op :=
  [.openChild 0 true, .openChild 0 false, .create 0 (smallEntry 1),
    .assignCurrent 0 (LedgerEntryKey (smallEntry 1)) (smallEntry 2),
    .commit 0 .recorded,
    .openChild 0 true, .erase 0 (LedgerEntryKey (smallEntry 1)), .rollback 0]

def smallHeader : LedgerHeader where
  ledgerVersion := 10
  closeTime := 0
  ledgerSeq := 7
  totalCoins := 0
  feePool := 0
  inflationSeq := 0
  idPool := 0
  baseFee := 100
  baseReserve := 1

theorem nested_ledgerTxn_refines_maps_small : ∃ s : Stack smallEnv,
      runOps 0 smallOps (Stack.initial smallHeader ∅ [] []) = .ok () s ∧
      ∀ key, ∃ e s', getNewestVersion 0 key s = .ok e s' ∧ e.map LedgerEntry.data =
          ((editAll smallOps [fun key => (∅ : Table).lookup key]).current
            key).map LedgerEntry.data := by
  obtain ⟨s, hrun⟩ : ∃ s : Stack smallEnv,
      runOps 0 smallOps (initial smallHeader ∅ [] []) = .ok () s := ⟨_, rfl⟩
  exact ⟨s, hrun, (nested_ledgerTxn_refines_maps smallEnv 0 smallHeader ∅ [] [] smallOps s hrun).1⟩

end Histories

end EssaCore.Ledger
