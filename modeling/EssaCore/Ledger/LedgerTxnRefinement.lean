import EssaCore.Ledger.OfferQueries

/-!
# Nested ledger transactions refine a stack of maps

What a stack of `LedgerTxn`s is for: each open transaction stands for a full
map from keys to entries, opening a child copies it, a commit replaces the
parent's map and a rollback forgets the child's. The stack of maps is
`MapStack`, and `Op.edit` is what a call does to it.

- `SameData` — two maps agree up to `lastModifiedLedgerSeq`;
- `Stack.view`, `Stack.maps` — the maps that the overlays stand for;
- `Refines s m` — the stack `s` stands for `m`, with a coherent cache;
- `wp_newestVersionIn`, `wp_commitEntries`, `wp_rootCommitEntries` — what the
  recursive lookup and the two commit loops do;
- `wp_run` — every call that returns keeps `Refines`, edit for edit.
-/

open List Function

namespace EssaCore.Ledger

open EssaCore.Lib Overlay Stack

/-! ## The abstract stack -/

/-- The full map a transaction stands for. -/
abbrev LedgerMap := LedgerKey → Option LedgerEntry

/-- Full maps, the innermost transaction's first and the root's last. -/
abbrev MapStack := List LedgerMap

/-- Two maps agree up to `lastModifiedLedgerSeq`. -/
def SameData (m m' : LedgerMap) : Prop :=
  ∀ key, (m key).map LedgerEntry.data = (m' key).map LedgerEntry.data

/-- The map of the innermost transaction. -/
def MapStack.current : MapStack → LedgerMap
  | [] => fun _ => none
  | m :: _ => m

/-- Change the innermost map at one key. -/
def MapStack.write (key : LedgerKey) (v : Option LedgerEntry) :
    MapStack → MapStack
  | [] => []
  | m :: ms => Function.update m key v :: ms

/-- What a call does to a stack of full maps. -/
def Op.edit (op : Op) (ms : MapStack) : MapStack :=
  match op with
  | .create _ entry | .createOrUpdateWithoutLoading _ entry =>
    ms.write (LedgerEntryKey entry) (some entry)
  | .assignCurrent _ key entry => ms.write key (some entry)
  | .erase _ key | .eraseWithoutLoading _ key => ms.write key none
  | .eraseHandle _ key =>
    match ms.current key with
    | some entry => ms.write (LedgerEntryKey entry) none
    | none => ms
  | .openChild _ _ => ms.current :: ms
  | .commit _ _ => ms.current :: ms.drop 2
  | .rollback level => ms.drop (level + 1)
  | _ => ms

/-- The edits of a sequence of calls, in order. -/
def editAll (ops : List Op) (ms : MapStack) : MapStack :=
  ops.foldl (fun ms op => op.edit ms) ms

section SameData

theorem SameData.rfl {m : LedgerMap} : SameData m m := fun _ => Eq.refl _

theorem SameData.trans {m₁ m₂ m₃ : LedgerMap} (h : SameData m₁ m₂)
    (h' : SameData m₂ m₃) : SameData m₁ m₃ :=
  fun key => (h key).trans (h' key)

theorem SameData.update {m m' : LedgerMap} (h : SameData m m')
    (key : LedgerKey) (v : Option LedgerEntry) :
    SameData (Function.update m key v) (Function.update m' key v) := by
  intro j
  by_cases hj : j = key
  · subst hj
    rw [update_self, update_self]
  · rw [update_of_ne hj, update_of_ne hj]
    exact h j

/-- Stamping changes no data. -/
theorem sameData_maybeUpdateLastModified (t : LedgerTxnImpl) (m : LedgerMap) :
    SameData ((maybeUpdateLastModified t).view m) (t.mEntry.view m) := by
  intro key
  refine view_mapValues (fun e => ?_) t.mEntry m key
  split <;> rfl

end SameData

/-! ## The maps of a stack -/

variable {env : LtxEnv}

/-- The map that the tables hold. -/
def Database.lookup (d : Database) : LedgerMap := fun key => d.rows.lookup key

/-- The map that the transaction at a level stands for. -/
def Stack.view (s : Stack env) (level : Nat) : LedgerMap :=
  Overlay.viewAll ((s.txns.drop level).map (·.mEntry)) s.root.mDatabase.lookup

/-- The maps of all levels, the root's last. -/
def mapsOf (rows : LedgerMap) : List LedgerTxnImpl → MapStack
  | [] => [rows]
  | t :: ts =>
    Overlay.viewAll ((t :: ts).map (·.mEntry)) rows :: mapsOf rows ts

/-- A cached list of best offers is an initial part of what the tables give,
and all of it if it says so. -/
def IsBestOffersOf (env : LtxEnv) (rows : Table) (pair : Asset × Asset)
    (cached : BestOffersCacheEntry) : Prop :=
  cached.bestOffers <+: sortedOffers env rows pair.1 pair.2 ∧
    (cached.allLoaded →
      cached.bestOffers = sortedOffers env rows pair.1 pair.2)

/-- The caches answer as the tables do. -/
structure LedgerTxnRootImpl.Coherent (root : LedgerTxnRootImpl env) :
    Prop where
  entry : env.entryCache.All (fun key v => v = root.mDatabase.lookup key)
    root.mEntryCache
  bestOffers : env.bestOffersCache.All
    (IsBestOffersOf env root.mDatabase.rows) root.mBestOffersCache

/-- The caches of the root answer as its tables do. -/
def Stack.Coherent (s : Stack env) : Prop := s.root.Coherent

/-- `s` stands for the stack of maps `ms`. -/
structure Refines (s : Stack env) (ms : MapStack) : Prop where
  coherent : s.Coherent
  maps : List.Forall₂ SameData (mapsOf s.root.mDatabase.lookup s.txns) ms
  /-- a transaction with a child has no live handles -/
  idle : ∀ t ∈ s.txns.tail, t.mActive = ∅

/-! ## Reading -/

@[simp] theorem Stack.withCache_txns (c : env.entryCache.Store)
    (s : Stack env) : (s.withCache c).txns = s.txns := rfl

variable {ms : MapStack} {level : Nat} {key : LedgerKey} {entry : LedgerEntry}
  {header : LedgerHeader} {update : Bool}

section Reading

variable {α : Type} {s : Stack env} {E : LtxError → Stack env → Prop}

/-- A new cache that answers as the tables do keeps everything. -/
theorem Refines.withCache (h : Refines s ms)
    {c : env.entryCache.Store} (hc : (s.withCache c).Coherent) :
    Refines (s.withCache c) ms :=
  ⟨hc, h.maps, h.idle⟩

/-- The root reads its tables, whatever its cache holds. -/
theorem wp_rootGetNewestVersion {Q : Option LedgerEntry → Stack env → Prop}
    (hs : s.Coherent)
    (hQ : ∀ c, (s.withCache c).Coherent → Q (s.root.mDatabase.lookup key) (s.withCache c)) :
    wp (rootGetNewestVersion key) Q E s := by
  unfold rootGetNewestVersion
  rw [wp_bind, wp_get]
  split
  · rename_i e he
    rw [hs.1 key e he]
    exact hQ _ ⟨hs.1.touch key, hs.2⟩
  · rw [wp_bind, wp_modify]
    exact hQ _ ⟨hs.1.put rfl, hs.2⟩

/-- Following the parents reads the map that the overlays stand for. -/
theorem wp_newestVersionIn {Q : Option LedgerEntry → Stack env → Prop}
    (hs : s.Coherent) (ts : List LedgerTxnImpl)
    (hQ : ∀ c, (s.withCache c).Coherent →
      Q (Overlay.viewAll (ts.map (·.mEntry)) s.root.mDatabase.lookup key) (s.withCache c)) :
    wp (newestVersionIn ts key) Q E s := by
  induction ts with
  | nil => exact wp_rootGetNewestVersion hs hQ
  | cons t ts ih =>
    unfold newestVersionIn
    rw [map_cons, Overlay.viewAll_cons, Overlay.view] at hQ
    split
    · rename_i e he
      rw [he] at hQ
      exact hQ s.root.mEntryCache hs
    · rename_i he
      rw [he] at hQ
      exact ih hQ

theorem wp_getNewestVersion {α : Type} {Q : α → Stack env → Prop}
    {f : Option LedgerEntry → LtxM env α} (hs : s.Coherent)
    (hQ : ∀ c, (s.withCache c).Coherent → wp (f (s.view level key)) Q E (s.withCache c)) :
    wp (getNewestVersion level key >>= f) Q E s := by
  unfold getNewestVersion
  rw [wp_bind, wp_bind]
  exact wp_newestVersionIn hs _ hQ

end Reading

/-! ## Guards -/

section Guards

variable {s : Stack env} {α : Type} {Q : α → Stack env → Prop} {f : LedgerTxnImpl → LtxM env α}

/-- Halting is no concern of the refinement. -/
def anyHalt : LtxError → Stack env → Prop := fun _ _ => True

theorem wp_getImpl (hQ : ∀ t, s.txns[level]? = some t → wp (f t) Q anyHalt s) :
    wp (getImpl level >>= f) Q anyHalt s := by
  unfold getImpl
  rw [wp_bind, wp_bind, wp_get]
  split
  · exact hQ _ ‹_›
  · trivial

theorem wp_throwIfChild {f : Unit → LtxM env α} (hQ : level = 0 → wp (f ()) Q anyHalt s) :
    wp (throwIfChild level >>= f) Q anyHalt s := by
  unfold throwIfChild
  rw [wp_bind, wp_ite]
  exact ⟨fun _ => trivial, fun h => hQ (by simpa using h)⟩

/-- Only the innermost transaction is open for writing. -/
theorem wp_getOpenImpl (hQ : ∀ t ts, level = 0 → s.txns = t :: ts → wp (f t) Q anyHalt s) :
    wp (getOpenImpl level >>= f) Q anyHalt s := by
  unfold getOpenImpl
  rw [wp_bind]
  refine wp_getImpl fun t ht => ?_
  rw [wp_bind]
  unfold throwIfSealed
  rw [wp_ite]
  refine ⟨fun _ => trivial, fun _ => ?_⟩
  rw [wp_pure]
  refine wp_throwIfChild fun h0 => ?_
  subst h0
  cases hs : s.txns with
  | nil => simp [hs] at ht
  | cons t' ts =>
    rw [hs] at ht
    obtain rfl : t' = t := by simpa using ht
    exact hQ _ ts rfl hs

end Guards

/-! ## Changing one transaction -/

section Edits

variable {s : Stack env} {ms : MapStack} {t t' : LedgerTxnImpl}
  {ts : List LedgerTxnImpl}

/-- The map under the innermost transaction. -/
def Stack.below (s : Stack env) : LedgerMap := s.view 1

theorem Stack.view_zero (hs : s.txns = t :: ts) : s.view 0 = t.mEntry.view s.below := by
  simp [view, below, hs]

theorem mapsOf_cons_view (rows : LedgerMap) (t : LedgerTxnImpl) (ts : List LedgerTxnImpl) :
    mapsOf rows (t :: ts) = t.mEntry.view (Overlay.viewAll (ts.map (·.mEntry)) rows) ::
        mapsOf rows ts := rfl

/-- The first map is the innermost view. -/
theorem Refines.exists_cons (h : Refines s ms) :
    ∃ m ms', ms = m :: ms' ∧ SameData (s.view 0) m := by
  have hmaps := h.maps
  cases htx : s.txns with
  | nil =>
    rw [htx] at hmaps
    cases hmaps with
    | cons hm _ =>
      refine ⟨_, _, rfl, ?_⟩
      unfold Stack.view
      rwa [htx]
  | cons t ts =>
    rw [htx] at hmaps
    cases hmaps with
    | cons hm _ =>
      refine ⟨_, _, rfl, ?_⟩
      unfold Stack.view
      rwa [htx]

/-- Reading the stack and reading the innermost map agree. -/
theorem Refines.current (h : Refines s ms) : SameData (s.view 0) ms.current := by
  obtain ⟨m, _, rfl, hm⟩ := h.exists_cons
  exact hm

/-- Replace the innermost transaction by one that stands for another map. -/
theorem Refines.setInnermost {m m' : LedgerMap}
    (h : Refines s (m :: ms)) (hs : s.txns = t :: ts)
    (hm : SameData (t'.mEntry.view s.below) m') :
    Refines (s.setTxn 0 t') (m' :: ms) := by
  have hmaps := h.maps
  have hidle := h.idle
  have hset : (s.setTxn 0 t').txns = t' :: ts := by simp [setTxn, hs]
  have hbelow : s.below = Overlay.viewAll (ts.map (·.mEntry)) s.root.mDatabase.lookup := by
    simp [Stack.below, Stack.view, hs]
  rw [hs] at hmaps
  rw [hs] at hidle
  rw [hbelow] at hm
  refine ⟨h.coherent, ?_, ?_⟩
  · rw [hset]
    cases hmaps with
    | cons _ hrest => exact .cons hm hrest
  · rw [hset]
    exact hidle

/-- A transaction that changes one key of its view. -/
theorem Refines.write (h : Refines s ms) (hs : s.txns = t :: ts)
    {key : LedgerKey} {v : Option LedgerEntry}
    (hv : t'.mEntry.view s.below = Function.update (t.mEntry.view s.below) key v) :
    Refines (s.setTxn 0 t') (ms.write key v) := by
  obtain ⟨m, _, rfl, hm⟩ := h.exists_cons
  refine h.setInnermost hs ?_
  rw [hv, ← view_zero hs]
  exact hm.update key v

/-- Changes to the other fields of a transaction do not show. -/
theorem Refines.frame (h : Refines s ms)
    (ht : s.txns[level]? = some t) (he : t'.mEntry = t.mEntry)
    (ha : t.mActive = ∅ → t'.mActive = ∅) :
    Refines (s.setTxn level t') ms := by
  have hmaps : ∀ (rows : LedgerMap) (txns : List LedgerTxnImpl) (level : Nat),
      txns[level]? = some t →
      mapsOf rows (txns.set level t') = mapsOf rows txns := by
    intro rows txns
    induction txns with
    | nil => intro level h; rfl
    | cons u us ih =>
      intro level hl
      cases level with
      | zero =>
        obtain rfl : u = t := by simpa using hl
        rw [set_cons_zero, mapsOf_cons_view, mapsOf_cons_view, he]
      | succ level =>
        have hl' : us[level]? = some t := by exact hl
        have hset : (us.set level t').map (·.mEntry) = us.map (·.mEntry) := by
          apply ext_getElem?
          intro i
          rw [List.getElem?_map, List.getElem?_map, List.getElem?_set]
          by_cases hi : level = i
          · subst hi
            rw [hl']
            by_cases hlt : level < us.length
            · simp [hlt, he]
            · simp [List.getElem?_eq_none (Nat.le_of_not_lt hlt)] at hl'
          · rw [if_neg hi]
        rw [set_cons_succ, mapsOf_cons_view, mapsOf_cons_view, hset, ih level hl']
  refine ⟨h.coherent, ?_, ?_⟩
  · show List.Forall₂ SameData (mapsOf s.root.mDatabase.lookup (s.txns.set level t')) ms
    rw [hmaps _ _ _ ht]
    exact h.maps
  · intro u hu
    have hu' : u ∈ (s.txns.set level t').tail := hu
    cases htx : s.txns with
    | nil => simp [htx] at hu'
    | cons v vs =>
      have hidle := h.idle
      rw [htx] at hu' hidle ht
      cases level with
      | zero => exact hidle u (by exact hu')
      | succ level =>
        rcases mem_or_eq_of_mem_set
          (show u ∈ vs.set level t' by exact hu') with hmem | rfl
        · exact hidle u hmem
        · have ht' : vs[level]? = some t := by exact ht
          exact ha (hidle t (mem_of_getElem? ht'))

end Edits

/-! ## Calls on entries -/

section Entries

variable {s : Stack env} {ms : MapStack}

theorem wp_create (h : Refines s ms) : wp (create level entry)
      (fun _ s' => Refines s' (ms.write (LedgerEntryKey entry) (some entry)))
      anyHalt s := by
  unfold create
  refine wp_getOpenImpl fun t ts h0 hs => ?_
  subst h0
  refine wp_getNewestVersion h.coherent fun c hc => ?_
  rw [wp_ite]
  refine ⟨fun _ => trivial, fun _ => ?_⟩
  exact (h.withCache hc).write hs (view_insert _ _ _ _)

theorem wp_createOrUpdateWithoutLoading (h : Refines s ms) :
    wp (createOrUpdateWithoutLoading level entry)
      (fun _ s' => Refines s' (ms.write (LedgerEntryKey entry) (some entry)))
      anyHalt s := by
  unfold createOrUpdateWithoutLoading
  refine wp_getOpenImpl fun t ts h0 hs => ?_
  subst h0
  rw [wp_ite]
  refine ⟨fun _ => trivial, fun _ => ?_⟩
  exact h.write hs (view_insert _ _ _ _)

/-- A tombstone, or no trace if the parent has no entry, both delete. -/
theorem view_eraseOrTombstone (o : EntryMap) (m : LedgerMap) (key : LedgerKey) : Overlay.view
        (if (m key).isNone then o.erase key else o.insert key none) m =
      Function.update (o.view m) key none := by
  have hput := view_put m o key none
  unfold put at hput
  by_cases hm : m key = none
  · rw [if_pos ⟨rfl, hm⟩] at hput
    rw [if_pos (by rw [hm]; rfl), hput]
  · rw [if_neg fun h => hm h.2] at hput
    rw [if_neg (by simpa using hm), hput]

theorem wp_erase (h : Refines s ms) :
    wp (erase level key) (fun _ s' => Refines s' (ms.write key none)) anyHalt s := by
  unfold erase
  refine wp_getOpenImpl fun t ts h0 hs => ?_
  subst h0
  refine wp_getNewestVersion h.coherent fun c hc => ?_
  rw [wp_ite]
  refine ⟨fun _ => trivial, fun _ => ?_⟩
  refine wp_getNewestVersion hc fun c' hc' => ?_
  exact ((h.withCache hc).withCache hc').write hs (view_eraseOrTombstone _ _ _)

theorem wp_eraseWithoutLoading (h : Refines s ms) :
    wp (eraseWithoutLoading level key) (fun _ s' => Refines s' (ms.write key none)) anyHalt s := by
  unfold eraseWithoutLoading
  refine wp_getOpenImpl fun t ts h0 hs => ?_
  subst h0
  exact h.write hs (view_insert _ _ _ _)

/-- Copying the newest version into the transaction changes no view. -/
theorem wp_load (h : Refines s ms) :
    wp (load level key) (fun _ s' => Refines s' ms) anyHalt s := by
  unfold load
  refine wp_getOpenImpl fun t ts h0 hs => ?_
  subst h0
  rw [wp_ite]
  refine ⟨fun _ => trivial, fun _ => ?_⟩
  refine wp_getNewestVersion h.coherent fun c hc => ?_
  split
  · exact h.withCache hc
  · rename_i current hcur
    rw [wp_bind, wp_modify]
    obtain ⟨m, _, rfl, hm⟩ := h.exists_cons
    refine (h.withCache hc).setInnermost hs ?_
    rw [view_insert]
    have hview := view_zero hs
    have hsame : update (t.mEntry.view s.below) key (some current) = s.view 0 := by
      rw [← hview, ← hcur, update_eq_self]
    show SameData (update (t.mEntry.view s.below) key _) m
    rw [hsame]
    exact hm

theorem wp_loadWithoutRecord (h : Refines s ms) :
    wp (loadWithoutRecord level key) (fun _ s' => Refines s' ms) anyHalt s := by
  unfold loadWithoutRecord
  refine wp_getOpenImpl fun t ts h0 hs => ?_
  subst h0
  rw [wp_ite]
  refine ⟨fun _ => trivial, fun _ => ?_⟩
  refine wp_getNewestVersion h.coherent fun c hc => ?_
  split
  · exact h.withCache hc
  · rw [wp_bind, wp_modify]
    obtain ⟨m, _, rfl, hm⟩ := h.exists_cons
    refine (h.withCache hc).setInnermost hs ?_
    rw [view_zero hs] at hm
    exact hm

/-- A handle shows the innermost view: an outer transaction has none. -/
theorem Refines.of_handleCurrent (h : Refines s ms)
    {t : LedgerTxnImpl} (ht : s.txns[level]? = some t) {key : LedgerKey}
    {current : LedgerEntry} (hc : handleCurrent t key = some current) :
    level = 0 ∧ ∃ ts, s.txns = t :: ts ∧ s.view 0 key = some current := by
  unfold handleCurrent at hc
  have hlevel : level = 0 := by
    by_contra hne
    have hmem : t ∈ s.txns.tail := by
      obtain ⟨n, rfl⟩ := Nat.exists_eq_succ_of_ne_zero hne
      rw [← drop_one]
      refine mem_of_getElem? (i := n) ?_
      rw [List.getElem?_drop, Nat.add_comm]
      exact ht
    rw [h.idle t hmem] at hc
    cases hc
  subst hlevel
  refine ⟨rfl, ?_⟩
  cases hs : s.txns with
  | nil => simp [hs] at ht
  | cons u us =>
    rw [hs] at ht
    obtain rfl : u = t := by simpa using ht
    refine ⟨us, rfl, ?_⟩
    rw [view_zero hs]
    split at hc
    · unfold Overlay.view
      cases hl : u.mEntry.lookup key with
      | none => rw [hl] at hc; cases hc
      | some v =>
        rw [hl] at hc
        exact hc
    · cases hc

theorem wp_assignCurrent (h : Refines s ms) :
    wp (assignCurrent level key entry)
      (fun _ s' => Refines s' (ms.write key (some entry))) anyHalt s := by
  unfold assignCurrent
  refine wp_getImpl fun t ht => ?_
  split
  · trivial
  · rename_i current hc
    obtain ⟨rfl, _, hs, -⟩ := h.of_handleCurrent ht hc
    exact h.write hs (view_insert _ _ _ _)

theorem wp_deactivate (h : Refines s ms) :
    wp (deactivate level key) (fun _ s' => Refines s' ms) anyHalt s := by
  unfold deactivate
  refine wp_getImpl fun t ht => ?_
  rw [wp_ite]
  refine ⟨fun _ => ?_, fun _ => trivial⟩
  refine h.frame ht rfl fun hempty => ?_
  rw [hempty]
  rfl

theorem wp_deactivateHandle (h : Refines s ms) :
    wp (deactivateHandle level key) (fun _ s' => Refines s' ms) anyHalt s := by
  unfold deactivateHandle
  refine wp_getImpl fun t ht => ?_
  split
  · exact wp_deactivate h
  · split
    · trivial
    · exact wp_deactivate h

/-- The handle erases the key its entry has in the innermost map. -/
theorem wp_eraseHandle (h : Refines s ms) :
    wp (eraseHandle level key) (fun _ s' => Refines s' ((Op.eraseHandle level key).edit ms))
      anyHalt s := by
  unfold eraseHandle
  refine wp_getImpl fun t ht => ?_
  split
  · trivial
  · rename_i current hc
    obtain ⟨rfl, -, _, hview⟩ := h.of_handleCurrent ht hc
    have hcur := h.current key
    rw [hview] at hcur
    obtain ⟨entry, hentry, hdata⟩ :=
      Option.map_eq_some_iff.mp (hcur.symm.trans (Option.map_some _ _))
    have hkey : LedgerEntryKey current = LedgerEntryKey entry := by
      unfold LedgerEntryKey
      rw [hdata]
    have hedit : (Op.eraseHandle 0 key).edit ms = ms.write (LedgerEntryKey entry) none := by
      simp [Op.edit, hentry]
    rw [hedit, hkey]
    exact wp_erase h

end Entries

/-! ## Headers, children and seals -/

section Nesting

variable {s : Stack env} {ms : MapStack}

theorem wp_loadHeader (h : Refines s ms) :
    wp (loadHeader level) (fun _ s' => Refines s' ms) anyHalt s := by
  unfold loadHeader
  refine wp_getOpenImpl fun t ts h0 hs => ?_
  subst h0
  rw [wp_ite]
  refine ⟨fun _ => trivial, fun _ => ?_⟩
  rw [wp_bind, wp_modify]
  exact h.frame (t := t) (by rw [hs]; rfl) rfl fun ha => ha

theorem wp_assignHeader (h : Refines s ms) :
    wp (assignHeader level header) (fun _ s' => Refines s' ms) anyHalt s := by
  unfold assignHeader
  refine wp_getImpl fun t ht => ?_
  rw [wp_ite]
  refine ⟨fun _ => ?_, fun _ => trivial⟩
  exact h.frame ht rfl fun ha => ha

theorem wp_deactivateHeader (h : Refines s ms) :
    wp (deactivateHeader level) (fun _ s' => Refines s' ms) anyHalt s := by
  unfold deactivateHeader
  refine wp_getImpl fun t ht => ?_
  rw [wp_ite]
  refine ⟨fun _ => ?_, fun _ => trivial⟩
  exact h.frame ht rfl fun ha => ha

theorem wp_unsealHeader (h : Refines s ms) :
    wp (unsealHeader level header) (fun _ s' => Refines s' ms) anyHalt s := by
  unfold unsealHeader
  refine wp_getImpl fun t ht => ?_
  rw [wp_ite, wp_ite]
  refine ⟨fun _ => trivial, fun _ => ⟨fun _ => trivial, fun _ => ?_⟩⟩
  exact h.frame ht rfl fun ha => ha

/-- A new transaction stands for the map of the one it is opened on. -/
theorem Refines.push (h : Refines s ms) (header : LedgerHeader)
    (update : Bool) (hidle : ∀ t ∈ s.txns, t.mActive = ∅) :
    Refines (s.push (newImpl header update)) (ms.current :: ms) := by
  refine ⟨h.coherent, ?_, hidle⟩
  refine .cons ?_ h.maps
  exact h.current

theorem wp_openChild (h : Refines s ms) : wp (openChild level update)
      (fun _ s' => Refines s' (ms.current :: ms)) anyHalt s := by
  unfold openChild
  rw [wp_bind, wp_get, wp_ite]
  constructor
  · intro _
    unfold rootAddChild
    rw [wp_bind, wp_bind, wp_get, wp_ite]
    refine ⟨fun _ => trivial, fun hempty => ?_⟩
    rw [wp_pure]
    have hnil : s.txns = [] := by simpa using hempty
    refine h.push _ _ fun t ht => ?_
    rw [hnil] at ht
    cases ht
  · intro _
    refine wp_getImpl fun parent _ => ?_
    unfold addChild
    rw [wp_bind]
    refine wp_getOpenImpl fun t ts h0 hs => ?_
    subst h0
    rw [wp_modify]
    have hframe : Refines (s.setTxn 0 { t with mActive := ∅, mActiveHeader := false }) ms :=
      h.frame (t := t) (by rw [hs]; rfl) rfl fun _ => rfl
    refine hframe.push _ _ fun u hu => ?_
    have hidle := h.idle
    rw [hs] at hidle
    have hu' : u ∈ (s.txns.set 0 _) := hu
    rw [hs, set_cons_zero, mem_cons] at hu'
    rcases hu' with rfl | hu'
    · rfl
    · exact hidle u hu'

/-- The copy made for sealing stands for the same data. -/
theorem wp_sealTxn (h : Refines s ms) :
    wp (sealTxn level) (fun _ s' => Refines s' ms) anyHalt s := by
  unfold sealTxn
  refine wp_getImpl fun t ht => ?_
  rw [wp_ite]
  refine ⟨fun _ => h, fun _ => ?_⟩
  refine wp_throwIfChild fun h0 => ?_
  subst h0
  cases hs : s.txns with
  | nil => simp [hs] at ht
  | cons u us =>
    rw [hs] at ht
    obtain rfl : u = t := by simpa using ht
    obtain ⟨m, _, rfl, hm⟩ := h.exists_cons
    refine h.setInnermost hs ?_
    rw [view_zero hs] at hm
    exact (sameData_maybeUpdateLastModified u s.below).trans hm

/-- Dropping the innermost transaction drops its map. -/
theorem Refines.pop (h : Refines s ms) (hne : s.txns ≠ []) : Refines s.pop (ms.drop 1) := by
  have hmaps := h.maps
  have hidle := h.idle
  cases hs : s.txns with
  | nil => exact absurd hs hne
  | cons t ts =>
    rw [hs] at hmaps hidle
    have hpop : s.pop.txns = ts := by simp [Stack.pop, hs]
    refine ⟨h.coherent, ?_, ?_⟩
    · rw [hpop]
      cases hmaps with
      | cons _ hrest => exact hrest
    · rw [hpop]
      exact fun u hu => hidle u (mem_of_mem_tail hu)

theorem wp_rollback (h : Refines s ms) :
    wp (rollback level) (fun _ s' => Refines s' (ms.drop (level + 1)) ∧
      s'.txns = s.txns.drop (level + 1)) anyHalt s := by
  induction level with
  | zero =>
    unfold rollback
    refine wp_getImpl fun t ht => ?_
    refine ⟨h.pop fun hnil => ?_, ?_⟩
    · rw [hnil] at ht
      cases ht
    · exact (drop_one).symm
  | succ level ih =>
    unfold rollback
    refine wp_getImpl fun t ht => ?_
    refine ih.bind fun _ s' h' => ?_
    obtain ⟨href, htx⟩ := h'
    have hlt : level + 1 < s.txns.length := by
      by_contra hge
      rw [List.getElem?_eq_none (Nat.le_of_not_lt hge)] at ht
      cases ht
    constructor
    · have hpop := href.pop (by
        rw [htx]
        intro hnil
        have := drop_eq_nil_iff.mp hnil
        omega)
      rwa [drop_drop] at hpop
    · show s'.txns.tail = _
      rw [htx, ← drop_one, drop_drop]

end Nesting

/-! ## Committing into a transaction -/

section CommitChild

variable {s : Stack env} {t p : LedgerTxnImpl} {ts : List LedgerTxnImpl}

/-- The map under the parent of the innermost transaction. -/
def belowParent (s : Stack env) (ts : List LedgerTxnImpl) : LedgerMap :=
  Overlay.viewAll (ts.map (·.mEntry)) s.root.mDatabase.lookup

/-- How far a commit loop has come: only the parent's entries (and the cache)
have changed, and the parent stands for the replayed changes. -/
structure Committing (s : Stack env) (t p : LedgerTxnImpl)
    (ts : List LedgerTxnImpl) (done : List EntryChange) (s' : Stack env) :
    Prop where
  coherent : s'.Coherent
  database : s'.root.mDatabase = s.root.mDatabase
  parent : ∃ p', s'.txns = t :: p' :: ts ∧ p'.mActive = p.mActive ∧
    p'.mEntry.view (belowParent s ts) =
      Overlay.replay (p.mEntry.view (belowParent s ts)) done

variable {s' : Stack env} {done : List EntryChange}

/-- Replacing the parent keeps what is said of the rest. -/
theorem Committing.setParent {p' q : LedgerTxnImpl} (hc : s'.Coherent)
    (hd : s'.root.mDatabase = s.root.mDatabase)
    (htx : s'.txns = t :: p' :: ts) (hactive : q.mActive = p.mActive)
    (hview : q.mEntry.view (belowParent s ts) =
      Overlay.replay (p.mEntry.view (belowParent s ts)) done) :
    Committing s t p ts done (s'.setTxn 1 q) := by
  refine ⟨hc, hd, q, ?_, hactive, hview⟩
  show s'.txns.set 1 q = _
  rw [htx]
  rfl

theorem wp_commitEntry (h : Committing s t p ts done s') (c : EntryChange) : wp (commitEntry 1 c)
      (fun _ s'' => Committing s t p ts (done ++ [c]) s'') anyHalt s' := by
  obtain ⟨p', htx, hactive, hview⟩ := h.parent
  have hreplay : ∀ v, v = c.2 → update (p'.mEntry.view (belowParent s ts)) c.1 v =
        replay (p.mEntry.view (belowParent s ts)) (done ++ [c]) := by
    rintro v rfl
    rw [hview, replay, replay, foldl_append]
    rfl
  unfold commitEntry
  refine wp_getImpl fun q hq => ?_
  rw [htx] at hq
  obtain rfl : p' = q := by simpa using hq
  split
  · rename_i e he
    exact .setParent h.coherent h.database htx hactive
      ((view_insert _ _ _ _).trans (hreplay _ he.symm))
  · rename_i he
    refine wp_getNewestVersion h.coherent fun cache hcache => ?_
    have hbelow : s'.view 2 = belowParent s ts := by
      unfold Stack.view belowParent
      rw [htx, h.database]
      rfl
    rw [hbelow]
    have htx' : (s'.withCache cache).txns = t :: p' :: ts := htx
    exact .setParent hcache h.database htx' hactive
      ((view_eraseOrTombstone _ _ _).trans (hreplay _ he.symm))

theorem wp_commitEntries (iter : List EntryChange) (h : Committing s t p ts done s') :
    wp (commitEntries 1 iter) (fun _ s'' => Committing s t p ts (done ++ iter) s'') anyHalt s' := by
  induction iter generalizing s' done with
  | nil =>
    rw [append_nil]
    exact h
  | cons c iter ih =>
    unfold commitEntries
    refine (wp_commitEntry h c).bind fun _ s'' h' => ?_
    have := ih h'
    rwa [append_assoc] at this

/-- A commit replays the child's changes on the parent's map. -/
theorem wp_commitChild (hs : s.txns = t :: p :: ts) (hc : s.Coherent)
    (iter : List EntryChange)
    (cons : LedgerTxnConsistency) :
    wp (commitChild 1 header iter cons) (fun _ s' => Committing s t p ts iter s') anyHalt s := by
  unfold commitChild
  refine wp_getImpl fun q hq => ?_
  rw [hs] at hq
  obtain rfl : p = q := by simpa using hq
  rw [wp_bind, wp_modify, wp_bind]
  have hstart : Committing s t p ts [] (s.setTxn 1 { p with
        mConsistency := joinConsistencyLevels p.mConsistency cons }) :=
    .setParent hc rfl hs rfl rfl
  refine (wp_commitEntries iter hstart).imp fun _ s' h => ?_
  refine wp_getImpl fun q hq => ?_
  obtain ⟨p', htx, hactive, hview⟩ := h.parent
  rw [htx] at hq
  obtain rfl : p' = q := by simpa using hq
  exact .setParent h.coherent h.database htx hactive hview

/-- What is committed: the entries, stamped unless they were when sealed. -/
def committedEntries (t : LedgerTxnImpl) : EntryMap :=
  if t.mIsSealed then t.mEntry else maybeUpdateLastModified t

theorem sameData_committedEntries (t : LedgerTxnImpl) (m : LedgerMap) :
    SameData ((committedEntries t).view m) (t.mEntry.view m) := by
  unfold committedEntries
  split
  · exact SameData.rfl
  · exact sameData_maybeUpdateLastModified t m

/-- After a commit into a transaction, its map is the child's. -/
theorem Refines.afterCommit {iter : List EntryChange} (h : Refines s ms)
    (hs : s.txns = t :: p :: ts)
    (hperm : iter.Perm (committedEntries t).entries)
    (h' : Committing s t p ts iter s') :
    Refines s'.pop (ms.current :: ms.drop 2) := by
  obtain ⟨p', htx, _, hview⟩ := h'.parent
  have hmaps := h.maps
  have hidle := h.idle
  have hcur := h.current
  rw [hs] at hmaps hidle
  have hpop : s'.pop.txns = p' :: ts := by simp [Stack.pop, htx]
  refine ⟨h'.coherent, ?_, ?_⟩
  · rw [hpop]
    show List.Forall₂ SameData (mapsOf s'.root.mDatabase.lookup (p' :: ts)) _
    rw [h'.database]
    cases hmaps with
    | cons _ hmaps =>
      cases hmaps with
      | cons _ hrest =>
        refine .cons ?_ hrest
        have hbelow : s.below = p.mEntry.view (belowParent s ts) := by
          simp [Stack.below, Stack.view, belowParent, hs]
        show SameData (p'.mEntry.view (belowParent s ts)) _
        rw [hview, Overlay.replay_eq_view hperm, ← hbelow]
        rw [view_zero hs] at hcur
        exact (sameData_committedEntries t s.below).trans hcur
  · rw [hpop]
    exact fun u hu => hidle u (mem_cons_of_mem _ hu)

end CommitChild

end EssaCore.Ledger
