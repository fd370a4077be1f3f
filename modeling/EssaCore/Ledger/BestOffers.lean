import EssaCore.Ledger.RootCommit
import EssaCore.Lib.Best

/-!
# Offer queries see the flattened ledger

The queries of `OfferQueries` against the map that a stack of transactions
stands for.

- `searchBestOffer_spec` — the batches of the root's cache add up to a search of
  the whole sorted table, and the loop ends;
- `wp_scanBestOffer`, `wp_bestOfferIn` — hiding the keys that inner transactions
  have seen is what an overlay does;
- `lookup_overlayWith` — the offers of a transaction over its parent's;
- `Call.edit`, `wp_call_run` — histories with queries in them;
- `offer_queries_see_view` — the answers of all three queries.
-/

open List Function AList

namespace EssaCore.Ledger

open EssaCore.Lib Overlay

variable {env : LtxEnv} {e : LedgerEntry} {iter : List EntryChange}

/-! ## Keys -/

/-- Every entry is stored under its own key. -/
def WellKeyed (m : LedgerMap) : Prop :=
  ∀ key e, m key = some e → LedgerEntryKey e = key

/-- Whether a map is well keyed is a matter of its data. -/
theorem WellKeyed.of_sameData {m m' : LedgerMap} (h : WellKeyed m')
    (hm : SameData m m') : WellKeyed m := by
  intro key e he
  have hdata := hm key
  rw [he] at hdata
  obtain ⟨e', he', hee⟩ :=
    Option.map_eq_some_iff.mp (hdata.symm.trans (Option.map_some _ _))
  have hkey := h key e' he'
  unfold LedgerEntryKey at hkey ⊢
  rw [← hee, hkey]

theorem type_of_isOfferOf {buying selling : Asset}
    (h : isOfferOf buying selling e) : (LedgerEntryKey e).type = .OFFER := by
  unfold isOfferOf at h
  unfold LedgerEntryKey
  split at h
  · rename_i o ho
    rw [ho]
    rfl
  · cases h

theorem type_of_isOfferBy {account : AccountID} {asset : Asset} (h : isOfferBy account asset e) :
    (LedgerEntryKey e).type = .OFFER := by
  unfold isOfferBy at h
  unfold LedgerEntryKey
  split at h
  · rename_i o ho
    rw [ho]
    rfl
  · cases h

/-- An entry whose key is an offer's is an offer. -/
theorem exists_offer_of_type (h : (LedgerEntryKey e).type = .OFFER) : ∃ o, e.data = .offer o := by
  unfold LedgerEntryKey at h
  cases hd : e.data with
  | offer o => exact ⟨o, rfl⟩
  | account a => rw [hd] at h; cases h
  | trustLine t => rw [hd] at h; cases h
  | data d => rw [hd] at h; cases h

/-! ## The tables -/

section Tables

variable {rows : Table}

/-- The table `offers` holds the offers of the map, each under its key. -/
theorem mem_offers (hk : WellKeyed fun key => rows.lookup key) :
    e ∈ rows.offers ↔ rows.lookup (LedgerEntryKey e) = some e ∧
      (LedgerEntryKey e).type = .OFFER := by
  unfold Table.offers
  rw [mem_map]
  constructor
  · rintro ⟨⟨key, e'⟩, hmem, rfl⟩
    obtain ⟨hin, htype⟩ := mem_filter.mp hmem
    have hlookup := mem_lookup_iff.mpr hin
    obtain rfl := hk key e' hlookup
    exact ⟨hlookup, by simpa using htype⟩
  · rintro ⟨hlookup, htype⟩
    refine ⟨⟨LedgerEntryKey e, e⟩, mem_filter.mpr ⟨?_, ?_⟩, rfl⟩
    · exact mem_lookup_iff.mp hlookup
    · simpa using htype

theorem mem_sortedOffers (hk : WellKeyed fun key => rows.lookup key)
    {buying selling : Asset} :
    e ∈ sortedOffers env rows buying selling ↔ rows.lookup (LedgerEntryKey e) = some e ∧
        isOfferOf buying selling e := by
  unfold sortedOffers
  rw [mem_mergeSort, mem_filter, mem_offers hk]
  constructor
  · rintro ⟨⟨hlookup, -⟩, hoffer⟩
    exact ⟨hlookup, hoffer⟩
  · rintro ⟨hlookup, hoffer⟩
    exact ⟨⟨hlookup, type_of_isOfferOf hoffer⟩, hoffer⟩

/-- A table has no more offers of a pair than rows. -/
theorem length_sortedOffers_le (env : LtxEnv) (rows : Table) (buying selling : Asset) :
    (sortedOffers env rows buying selling).length ≤ rows.entries.length := by
  unfold sortedOffers Table.offers
  rw [length_mergeSort]
  refine (length_filter_le _ _).trans ?_
  rw [length_map]
  exact length_filter_le _ _

end Tables

/-! ## The root's search -/

variable {cached : BestOffersCacheEntry}

section Search

variable {rows : Table} {buying selling : Asset} {exclude : List LedgerKey}

/-- The rounds of the loop that are left. -/
def roundsLeft (env : LtxEnv) (rows : Table) (buying selling : Asset)
    (cached : BestOffersCacheEntry) : Nat :=
  if cached.allLoaded then 1
  else (sortedOffers env rows buying selling).length -
    cached.bestOffers.length + 2

/-- One round: the list stays an initial part, a hit in the new batch is the
first hit of the whole list, and fewer rounds are left. -/
theorem loadBestOffers_round (h : IsBestOffersOf env rows (buying, selling) cached)
    (hall : cached.allLoaded = false)
    (hmiss : findIncludedOffer cached.bestOffers exclude = none) :
    let new := loadBestOffers env rows buying selling BATCH_SIZE cached.bestOffers.length
    let cached' : BestOffersCacheEntry :=
      { bestOffers := cached.bestOffers ++ new
        allLoaded := new.length < BATCH_SIZE }
    IsBestOffersOf env rows (buying, selling) cached' ∧ roundsLeft env rows buying selling cached' <
        roundsLeft env rows buying selling cached ∧
      (∀ e, findIncludedOffer new exclude = some e →
        findIncludedOffer (sortedOffers env rows buying selling) exclude = some e) ∧
      (findIncludedOffer new exclude = none →
        findIncludedOffer cached'.bestOffers exclude = none) := by
  intro new cached'
  obtain ⟨⟨rest, hrest⟩, -⟩ := h
  have hdrop : (sortedOffers env rows buying selling).drop cached.bestOffers.length = rest := by
    rw [← hrest, drop_left]
  have hnew : new = rest.take BATCH_SIZE := by
    show List.take _ (List.drop _ _) = _
    rw [hdrop]
  have hsplit : sortedOffers env rows buying selling =
      cached.bestOffers ++ new ++ rest.drop BATCH_SIZE := by
    rw [hnew, append_assoc, take_append_drop, hrest]
  have hlen : (sortedOffers env rows buying selling).length =
      cached.bestOffers.length + rest.length := by
    rw [← hrest, length_append]
  refine ⟨⟨⟨_, hsplit.symm⟩, ?_⟩, ?_, ?_, ?_⟩
  · intro hshort
    have hshort : new.length < BATCH_SIZE := by simpa [cached'] using hshort
    rw [hnew, length_take] at hshort
    have hall' : new = rest := by
      rw [hnew]
      exact take_of_length_le (by omega)
    show cached.bestOffers ++ new = _
    rw [hall', hrest]
  · unfold roundsLeft
    rw [hall]
    by_cases hshort : new.length < BATCH_SIZE
    · simp only [cached', hshort, decide_true, if_true, Bool.false_eq_true, if_false]
      omega
    · simp only [cached', hshort, decide_false, Bool.false_eq_true, if_false, length_append]
      rw [hnew, length_take] at hshort ⊢
      unfold BATCH_SIZE at hshort ⊢
      omega
  · intro e he
    unfold findIncludedOffer at he hmiss ⊢
    rw [hsplit, List.find?_append, List.find?_append, hmiss, he]
    rfl
  · intro hnone
    unfold findIncludedOffer at hnone hmiss ⊢
    rw [List.find?_append, hmiss, hnone]
    rfl

theorem loadUntilIncluded_spec (fuel : Nat) (cached : BestOffersCacheEntry)
    (h : IsBestOffersOf env rows (buying, selling) cached)
    (hmiss : findIncludedOffer cached.bestOffers exclude = none)
    (hfuel : roundsLeft env rows buying selling cached ≤ fuel) :
    ∃ cached', loadUntilIncluded env rows buying selling exclude fuel cached =
        some (findIncludedOffer (sortedOffers env rows buying selling) exclude, cached') ∧
      IsBestOffersOf env rows (buying, selling) cached' := by
  induction fuel generalizing cached with
  | zero =>
    unfold roundsLeft at hfuel
    split at hfuel <;> omega
  | succ fuel ih =>
    unfold loadUntilIncluded
    by_cases hall : cached.allLoaded
    · rw [if_pos hall]
      refine ⟨cached, ?_, h⟩
      rw [← h.2 hall, hmiss]
    · rw [if_neg hall]
      obtain ⟨h', _, hhit, hnone⟩ :=
        loadBestOffers_round h (by simpa using hall) hmiss
      dsimp only
      cases hfind : findIncludedOffer (loadBestOffers env rows buying selling
          BATCH_SIZE cached.bestOffers.length) exclude with
      | some e => exact ⟨_, by rw [hhit e hfind], h'⟩
      | none => exact ih _ h' (hnone hfind) (by omega)

/-- The search of the root finds the first offer of the sorted table that is
not excluded, whatever part of the table was cached. -/
theorem searchBestOffer_spec (h : IsBestOffersOf env rows (buying, selling) cached) :
    ∃ cached', searchBestOffer env rows buying selling exclude cached =
        some (findIncludedOffer (sortedOffers env rows buying selling) exclude, cached') ∧
      IsBestOffersOf env rows (buying, selling) cached' := by
  unfold searchBestOffer
  cases hfind : findIncludedOffer cached.bestOffers exclude with
  | some e =>
    refine ⟨cached, ?_, h⟩
    obtain ⟨⟨_, hrest⟩, -⟩ := h
    unfold findIncludedOffer at hfind ⊢
    rw [← hrest, List.find?_append, hfind]
    rfl
  | none =>
    refine loadUntilIncluded_spec _ cached h hfind ?_
    have hle := length_sortedOffers_le env rows buying selling
    unfold roundsLeft
    split <;> omega

end Search

/-! ## The root's answer -/

/-- The offers for a pair that are live in a map and not excluded. -/
def Live (m : LedgerMap) (exclude : List LedgerKey) (buying selling : Asset)
    (e : LedgerEntry) : Prop :=
  m (LedgerEntryKey e) = some e ∧ LedgerEntryKey e ∉ exclude ∧
    isOfferOf buying selling e

/-- `isBetterOffer` is a strict total order on the offers of each pair. -/
def OfferOrder (env : LtxEnv) : Prop :=
  ∀ buying selling, StrictOrderOn env.isBetterOffer
    fun e => isOfferOf buying selling e

variable {ms : MapStack}

section Root

variable {s : Stack env} {buying selling : Asset} {exclude : List LedgerKey}
  {E : LtxError → Stack env → Prop}

/-- What a query may change: the caches, which go on answering as the tables
do. -/
structure SameTables (s s' : Stack env) : Prop where
  txns : s'.txns = s.txns
  database : s'.root.mDatabase = s.root.mDatabase
  coherent : s'.Coherent

theorem Refines.sameTables {s' : Stack env}
    (h : Refines s ms) (h' : SameTables s s') : Refines s' ms := by
  refine ⟨h'.coherent, ?_, ?_⟩
  · rw [h'.database, h'.txns]
    exact h.maps
  · rw [h'.txns]
    exact h.idle

/-- A fresh list of best offers is an initial part of any table's. -/
theorem isBestOffersOf_nil (rows : Table) (pair : Asset × Asset) :
    IsBestOffersOf env rows pair { bestOffers := [], allLoaded := false } :=
  ⟨ nil_prefix, fun h => by cases h⟩

theorem getFromBestOffersCache_spec {rows : Table} {c : env.bestOffersCache.Store}
    (hc : env.bestOffersCache.All (IsBestOffersOf env rows) c)
    (pair : Asset × Asset) {kept : Bool}
    {c' : env.bestOffersCache.Store}
    (h : getFromBestOffersCache c pair = (cached, kept, c')) :
    IsBestOffersOf env rows pair cached ∧ env.bestOffersCache.All (IsBestOffersOf env rows) c' := by
  unfold getFromBestOffersCache at h
  dsimp only at h
  have hput : env.bestOffersCache.All (IsBestOffersOf env rows)
      (if (env.bestOffersCache.find? c pair).isSome then c
        else env.bestOffersCache.put c pair { bestOffers := [], allLoaded := false }) := by
    split
    · exact hc
    · exact hc.put (isBestOffersOf_nil rows pair)
  split at h
  · rename_i v hv
    cases h
    exact ⟨hput pair _ hv, hput.touch pair⟩
  · cases h
    exact ⟨isBestOffersOf_nil rows pair, hput⟩

/-- The root answers with the best of its live offers that are not
excluded. -/
theorem wp_rootGetBestOffer (ho : OfferOrder env) (hs : s.Coherent)
    (hk : WellKeyed s.root.mDatabase.lookup) :
    wp (rootGetBestOffer buying selling exclude)
      (fun r s' => SameTables s s' ∧ IsBest env.isBetterOffer
        (Live s.root.mDatabase.lookup exclude buying selling) r) E s := by
  unfold rootGetBestOffer
  rw [wp_bind, wp_get]
  rcases hget : getFromBestOffersCache s.root.mBestOffersCache
    (buying, selling) with ⟨_, kept, c⟩
  obtain ⟨hcached, hc⟩ := getFromBestOffersCache_spec hs.2 _ hget
  obtain ⟨cached', hsearch, hcached'⟩ :=
    searchBestOffer_spec hcached
  dsimp only
  rw [hsearch]
  have hbest : IsBest env.isBetterOffer (Live s.root.mDatabase.lookup exclude buying selling)
      (findIncludedOffer (sortedOffers env s.root.mDatabase.rows buying selling) exclude) := by
    have hmem : ∀ e ∈ sortedOffers env s.root.mDatabase.rows buying selling,
        isOfferOf buying selling e := fun e he => ((mem_sortedOffers hk).mp he).2
    have hsorted := pairwise_mergeSort_of (ho buying selling)
      (l := s.root.mDatabase.rows.offers.filter (isOfferOf buying selling))
      fun e he => (mem_filter.mp he).2
    refine (isBest_find? (ho buying selling) hmem hsorted _).congr fun e => ?_
    rw [mem_sortedOffers hk]
    constructor
    · rintro ⟨hlookup, hnot, hoffer⟩
      exact ⟨⟨hlookup, hoffer⟩, by simpa using hnot⟩
    · rintro ⟨⟨hlookup, hoffer⟩, hnot⟩
      exact ⟨hlookup, by simpa using hnot, hoffer⟩
  have hstore : env.bestOffersCache.All (IsBestOffersOf env s.root.mDatabase.rows)
      (if kept then env.bestOffersCache.put c (buying, selling) cached'
        else c) := by
    split
    · exact hc.put hcached'
    · exact hc
  cases hr : findIncludedOffer (sortedOffers env s.root.mDatabase.rows buying selling) exclude with
  | none =>
    rw [hr] at hbest
    exact ⟨⟨rfl, rfl, hs.1, hstore⟩, hbest⟩
  | some e =>
    rw [hr] at hbest
    rw [wp_bind, wp_modify]
    exact ⟨⟨rfl, rfl, hs.1.put hbest.1.1.symm, hstore⟩, hbest⟩

end Root

/-! ## The scan of a transaction -/

variable {key : LedgerKey}

section Scan

variable {s : Stack env} {buying selling : Asset}
  {E : LtxError → Stack env → Prop}

/-- The offers for a pair that a list of changes writes. -/
def WrittenOffer (iter : List EntryChange) (exclude : List LedgerKey)
    (buying selling : Asset) (e : LedgerEntry) : Prop :=
  ⟨LedgerEntryKey e, some e⟩ ∈ iter ∧ LedgerEntryKey e ∉ exclude ∧
    isOfferOf buying selling e

/-- Every entry a list of changes writes is written under its own key. -/
def KeyedChanges (iter : List EntryChange) : Prop :=
  ∀ key e, (⟨key, some e⟩ : EntryChange) ∈ iter → LedgerEntryKey e = key

theorem written_inj {key' : LedgerKey} {e' : LedgerEntry}
    (h : (⟨key, some e⟩ : EntryChange) = ⟨key', some e'⟩) : e = e' :=
  Option.some.inj (congrArg (fun c : EntryChange => c.2) h)

/-- The rest of a scan, seen with or without the key just excluded. -/
theorem writtenOffer_exclude {c : EntryChange}
    (hc : c.1 ∉ iter.keys) (exclude : List LedgerKey) (e : LedgerEntry) :
    WrittenOffer iter (c.1 :: exclude) buying selling e ↔
      WrittenOffer iter exclude buying selling e := by
  constructor
  · rintro ⟨hmem, hnot, hoffer⟩
    exact ⟨hmem, fun h => hnot (mem_cons_of_mem _ h), hoffer⟩
  · rintro ⟨hmem, hnot, hoffer⟩
    refine ⟨hmem, fun h => ?_, hoffer⟩
    rcases mem_cons.mp h with heq | h
    · exact hc (heq ▸ mem_keys_of_mem hmem)
    · exact hnot h

/-- A change that contributes no offer can be left out of a scan. -/
theorem writtenOffer_cons_of_not {c : EntryChange}
    {exclude : List LedgerKey}
    (hc : ∀ e, c = ⟨LedgerEntryKey e, some e⟩ → LedgerEntryKey e ∉ exclude →
      isOfferOf buying selling e = false) (e : LedgerEntry) :
    WrittenOffer (c :: iter) exclude buying selling e ↔
      WrittenOffer iter exclude buying selling e := by
  constructor
  · rintro ⟨hmem, hnot, hoffer⟩
    rcases mem_cons.mp hmem with heq | hmem
    · rw [hc e heq.symm hnot] at hoffer
      cases hoffer
    · exact ⟨hmem, hnot, hoffer⟩
  · rintro ⟨hmem, hnot, hoffer⟩
    exact ⟨mem_cons_of_mem _ hmem, hnot, hoffer⟩

/-- The keys of the inner transactions and of the offers that are scanned -/
def Excluded (iter : List EntryChange) (exclude : List LedgerKey) (key : LedgerKey) : Prop :=
  key ∈ exclude ∨ key.type = .OFFER ∧ key ∈ iter.keys

/-- A scan has found the best of the offers of `P` and those that the changes write, and the keys
to exclude from then on. -/
def Scanned (env : LtxEnv) (buying selling : Asset) (P : LedgerEntry → Prop)
    (iter : List EntryChange) (exclude : List LedgerKey)
    (r : Option LedgerEntry × List LedgerKey) : Prop :=
  IsBest env.isBetterOffer (fun e => P e ∨ WrittenOffer iter exclude buying selling e) r.1 ∧
    ∀ key, key ∈ r.2 ↔ Excluded iter exclude key

variable {c : EntryChange} {exclude : List LedgerKey} {P : LedgerEntry → Prop}
  {r : Option LedgerEntry × List LedgerKey}

/-- A key that is excluded anyway, or not one of an offer -/
theorem excluded_skip (h : c.1.type = .OFFER → c.1 ∈ exclude) :
    Excluded iter exclude key ↔ Excluded (c :: iter) exclude key := by
  simp only [Excluded, keys_cons, mem_cons]
  grind

theorem excluded_hide (h : c.1.type = .OFFER) :
    Excluded iter (c.1 :: exclude) key ↔ Excluded (c :: iter) exclude key := by
  simp only [Excluded, keys_cons, mem_cons]
  grind

/-- The scan goes past a change that is not an offer, or whose key an inner transaction has. -/
theorem Scanned.skip (h : c.1.type = .OFFER → c.1 ∈ exclude)
    (hr : Scanned env buying selling P iter exclude r) :
    Scanned env buying selling P (c :: iter) exclude r := by
  refine ⟨hr.1.congr fun e => or_congr_right ?_, fun key => (hr.2 key).trans (excluded_skip h)⟩
  refine writtenOffer_cons_of_not (fun e' he' hnot => ?_) e
  by_contra hoffer
  rw [he'] at h
  exact hnot (h (type_of_isOfferOf (by simpa using hoffer)))

/-- A change that is no offer of the pair only hides its key. -/
theorem Scanned.hide (htype : c.1.type = .OFFER) (hc : c.1 ∉ iter.keys)
    (hnone : ∀ e, c = ⟨LedgerEntryKey e, some e⟩ → isOfferOf buying selling e = false)
    (hr : Scanned env buying selling P iter (c.1 :: exclude) r) :
    Scanned env buying selling P (c :: iter) exclude r := by
  refine ⟨hr.1.congr fun e => or_congr_right ?_,
    fun key => (hr.2 key).trans (excluded_hide htype)⟩
  exact (writtenOffer_cons_of_not (fun e' he' _ => hnone e' he') e).trans
    (writtenOffer_exclude hc exclude e).symm

/-- An offer of the pair is compared with the best one so far. -/
theorem Scanned.take (htype : (LedgerEntryKey e).type = .OFFER)
    (hc : LedgerEntryKey e ∉ iter.keys) (hnin : LedgerEntryKey e ∉ exclude)
    (hpair : isOfferOf buying selling e)
    (hr : Scanned env buying selling (fun e' => P e' ∨ e' = e) iter
      (LedgerEntryKey e :: exclude) r) :
    Scanned env buying selling P (⟨LedgerEntryKey e, some e⟩ :: iter) exclude r := by
  refine ⟨hr.1.congr fun e' => ?_, fun key => (hr.2 key).trans
    (@excluded_hide iter key ⟨LedgerEntryKey e, some e⟩ exclude htype)⟩
  rw [@writtenOffer_exclude iter buying selling ⟨LedgerEntryKey e, some e⟩ hc exclude]
  constructor
  · rintro (he' | ⟨hmem, hnot, hoff⟩)
    · exact .inl (.inl he')
    · rcases mem_cons.mp hmem with heq | hmem
      · exact .inl (.inr (written_inj heq))
      · exact .inr ⟨hmem, hnot, hoff⟩
  · rintro ((he' | rfl) | ⟨hmem, hnot, hoff⟩)
    · exact .inl he'
    · exact .inr ⟨mem_cons_self, hnin, hpair⟩
    · exact .inr ⟨mem_cons_of_mem _ hmem, hnot, hoff⟩

/-- The scan of a transaction's changes: the best offer among them, and their
keys excluded from then on. -/
theorem wp_scanBestOffer (ho : OfferOrder env) (iter : List EntryChange)
    (hnodup : iter.NodupKeys) (hkeyed : KeyedChanges iter)
    (P : LedgerEntry → Prop) (hP : ∀ e, P e → isOfferOf buying selling e)
    (best : Option LedgerEntry) (hbest : IsBest env.isBetterOffer P best)
    (exclude : List LedgerKey) :
    wp (scanBestOffer buying selling iter best exclude) (fun r s' => s' = s ∧
      Scanned env buying selling P iter exclude r) E s := by
  -- the scan goes through the changes, and `P` gathers the offers it has compared
  induction iter generalizing P best exclude with
  | nil =>
    refine ⟨rfl, hbest.congr fun e => ⟨?_, .inl⟩, fun key => by simp [Excluded]⟩
    rintro (he | ⟨hmem, -⟩)
    · exact he
    · cases hmem
  | cons c iter ih =>
    obtain ⟨hc, hnodup⟩ := nodupKeys_cons.mp hnodup
    have ih := ih hnodup fun key e he => hkeyed key e (mem_cons_of_mem _ he)
    unfold scanBestOffer
    rw [wp_ite]
    refine ⟨fun htype => ?_, fun htype => ?_⟩
    · -- not an offer
      refine (ih P hP best hbest exclude).imp fun r s' hr => ⟨hr.1, hr.2.skip ?_⟩
      exact fun h => absurd h htype
    have htype : c.1.type = .OFFER := by simpa using htype
    rw [wp_ite]
    refine ⟨fun hin => ?_, fun hnin => ?_⟩
    · -- an inner transaction has the key
      exact (ih P hP best hbest exclude).imp fun r s' hr => ⟨hr.1, hr.2.skip fun _ => hin⟩
    have hhide (hnone : ∀ e, c = ⟨LedgerEntryKey e, some e⟩ →
        isOfferOf buying selling e = false) :=
      (ih P hP best hbest (c.1 :: exclude)).imp fun r s' hr =>
        (⟨hr.1, hr.2.hide htype hc hnone⟩ : s' = s ∧ Scanned ..)
    obtain ⟨key, v⟩ := c
    cases v with
    | none => exact hhide fun e he => by cases he
    | some e =>
      obtain rfl := hkeyed key e mem_cons_self
      obtain ⟨o, hdata⟩ := exists_offer_of_type htype
      have hoffer : isOfferOf buying selling e =
          decide (o.buying = buying ∧ o.selling = selling) := by
        unfold isOfferOf
        rw [hdata]
      dsimp only
      rw [hdata, wp_ite]
      refine ⟨fun hpair => hhide ?_, fun hpair => ?_⟩
      · intro e' he'
        obtain rfl := written_inj he'
        rw [hoffer]
        simpa using hpair
      have hpair : isOfferOf buying selling e := by
        rw [hoffer]
        simpa using hpair
      have hnew := IsBest.scan (ho buying selling) hP hbest hpair
      have hQ : ∀ e', P e' ∨ e' = e → isOfferOf buying selling e' := by
        rintro e' (he' | rfl)
        · exact hP e' he'
        · exact hpair
      have htake (best' : Option LedgerEntry) (hbest' : IsBest env.isBetterOffer _ best') :=
        (ih _ hQ best' hbest' (LedgerEntryKey e :: exclude)).imp fun r s' hr =>
          (⟨hr.1, hr.2.take htype hc hnin hpair⟩ : s' = s ∧ Scanned ..)
      rw [wp_ite]
      refine ⟨fun hb => ?_, fun hb => ?_⟩
      · rw [if_pos hb] at hnew
        exact htake _ hnew
      · rw [if_neg hb] at hnew
        exact htake _ hnew

end Scan

/-! ## The best offer of a stack -/

variable {t : LedgerTxnImpl}

section Stack

variable {s : Stack env} {buying selling : Asset}
  {E : LtxError → Stack env → Prop}

theorem betterOffer_eq_better (env : LtxEnv) (r r' : Option LedgerEntry) :
    betterOffer env r r' = better env.isBetterOffer r r' := by
  cases r <;> cases r' <;> rfl

/-- Every level of the stack is well keyed, the tables included. -/
def Stack.WellKeyed (s : Stack env) (ts : List LedgerTxnImpl) : Prop :=
  Ledger.WellKeyed s.root.mDatabase.lookup ∧
    ∀ t ∈ ts, ∀ key e, t.mEntry.lookup key = some (some e) →
      LedgerEntryKey e = key

theorem keyedChanges_of_perm
    (h : ∀ key e, t.mEntry.lookup key = some (some e) → LedgerEntryKey e = key)
    (hperm : iter.Perm t.mEntry.entries) : KeyedChanges iter := by
  intro key e he
  exact h key e (mem_lookup_iff.mpr (hperm.mem_iff.mp he))

/-- An overlay shows its own offers, and its parent's where it has not
touched them. -/
theorem live_view_iff {below : LedgerMap} (hperm : iter.Perm t.mEntry.entries)
    {exclude exclude' : List LedgerKey}
    (hex : ∀ key, key ∈ exclude' ↔ key ∈ exclude ∨ (key.type = .OFFER ∧ key ∈ iter.keys))
    (e : LedgerEntry) :
    Live (t.mEntry.view below) exclude buying selling e ↔
      WrittenOffer iter exclude buying selling e ∨ Live below exclude' buying selling e := by
  have hmem : ⟨LedgerEntryKey e, some e⟩ ∈ iter ↔
      t.mEntry.lookup (LedgerEntryKey e) = some (some e) := by
    rw [hperm.mem_iff]
    exact mem_lookup_iff.symm
  have hkeys : LedgerEntryKey e ∈ iter.keys ↔ t.mEntry.lookup (LedgerEntryKey e) ≠ none := by
    rw [ne_eq, AList.lookup_eq_none, not_not, AList.mem_keys]
    exact (hperm.map Sigma.fst).mem_iff
  unfold Live WrittenOffer view
  rw [hmem, hex]
  cases hl : t.mEntry.lookup (LedgerEntryKey e) with
  | none =>
    rw [hl] at hkeys
    have hout : LedgerEntryKey e ∉ iter.keys := fun h => hkeys.mp h rfl
    constructor
    · rintro ⟨hbelow, hnot, hoffer⟩
      refine .inr ⟨hbelow, ?_, hoffer⟩
      rintro (h | ⟨-, h⟩)
      · exact hnot h
      · exact hout h
    · rintro (⟨h, -⟩ | ⟨hbelow, hnot, hoffer⟩)
      · cases h
      · exact ⟨hbelow, fun h => hnot (.inl h), hoffer⟩
  | some v =>
    rw [hl] at hkeys
    have hin : LedgerEntryKey e ∈ iter.keys := hkeys.mpr (by simp)
    constructor
    · rintro ⟨hv, hnot, hoffer⟩
      exact .inl ⟨congrArg some hv, hnot, hoffer⟩
    · rintro (⟨hv, hnot, hoffer⟩ | ⟨-, hnot, hoffer⟩)
      · exact ⟨Option.some.inj hv, hnot, hoffer⟩
      · exact absurd (.inr ⟨type_of_isOfferOf hoffer, hin⟩) hnot

/-- Following the parents finds the best live offer of the view. -/
theorem wp_bestOfferIn (ho : OfferOrder env) (hs : s.Coherent)
    (o : IterationOrder) (ts : List LedgerTxnImpl)
    (hk : s.WellKeyed ts) (exclude : List LedgerKey) :
    wp (bestOfferIn o buying selling ts exclude)
      (fun r s' => SameTables s s' ∧ IsBest env.isBetterOffer
        (Live (Overlay.viewAll (ts.map (·.mEntry)) s.root.mDatabase.lookup)
          exclude buying selling) r) E s := by
  induction ts generalizing exclude with
  | nil => exact wp_rootGetBestOffer ho hs hk.1
  | cons t ts ih =>
    have hperm := o.perm t.mEntry
    have hnodup : (o.order t.mEntry).NodupKeys :=
      (perm_nodupKeys hperm).mpr t.mEntry.nodupKeys
    have hkeyed :=
      keyedChanges_of_perm (hk.2 t mem_cons_self) hperm
    have ih := ih ⟨hk.1, fun u hu => hk.2 u (mem_cons_of_mem t hu)⟩
    unfold bestOfferIn
    refine (wp_scanBestOffer ho _ hnodup hkeyed (fun _ => False)
      (fun _ h => h.elim) none (fun _ h => h) exclude).bind ?_
    rintro ⟨_, exclude'⟩ s' ⟨rfl, hbest, hex⟩
    refine (ih exclude').bind ?_
    rintro r s'' ⟨hsame, hr⟩
    rw [betterOffer_eq_better]
    refine ⟨hsame, ?_⟩
    have hbest := hbest.congr fun e =>
      (false_or (WrittenOffer (o.order t.mEntry) exclude buying selling e)).to_iff.symm
    have hunion := IsBest.union (ho buying selling) (fun e he => he.2.2)
      (fun e he => he.2.2) hbest hr
    exact hunion.congr fun e => live_view_iff hperm hex e

end Stack

/-! ## All offers, and those of an account -/

section AllOffers

variable {s : Stack env} {E : LtxError → Stack env → Prop}

/-- The offers of a map that satisfy `p`. -/
def offersOf (m : LedgerMap) (p : LedgerEntry → Bool) : LedgerMap :=
  fun key => if key.type = .OFFER then (m key).filter p else none

theorem offersOf_eq_some {m : LedgerMap} {p : LedgerEntry → Bool} :
    offersOf m p key = some e ↔ m key = some e ∧ key.type = .OFFER ∧ p e := by
  unfold offersOf
  split
  · rename_i htype
    rw [Option.filter_eq_some_iff]
    exact ⟨fun h => ⟨h.1, htype, h.2⟩, fun h => ⟨h.1, h.2.2⟩⟩
  · rename_i htype
    constructor
    · intro h
      cases h
    · exact fun h => absurd h.2.1 htype

/-- Indexing keeps the first entry of each key. -/
theorem lookup_indexOffers (l : List LedgerEntry) (key : LedgerKey) :
    (indexOffers l).lookup key = l.find? fun e => LedgerEntryKey e = key := by
  have hfold : ∀ (l : List LedgerEntry) (m : Table),
      (l.foldl (fun m e => if LedgerEntryKey e ∈ m then m
        else m.insert (LedgerEntryKey e) e) m).lookup key =
      (m.lookup key).or (l.find? fun e => LedgerEntryKey e = key) := by
    intro l
    induction l with
    | nil => simp
    | cons e l ih =>
      intro m
      rw [foldl_cons, ih]
      by_cases hkey : LedgerEntryKey e = key
      · subst hkey
        rw [List.find?_cons_of_pos (by simp)]
        by_cases hin : LedgerEntryKey e ∈ m
        · obtain ⟨v, hv⟩ := Option.isSome_iff_exists.mp (lookup_isSome.mpr hin)
          rw [if_pos hin, hv]
          rfl
        · rw [if_neg hin, lookup_insert, lookup_eq_none.mpr hin]
          rfl
      · rw [List.find?_cons_of_neg (by simpa using hkey)]
        split
        · rfl
        · rw [lookup_insert_ne (Ne.symm hkey)]
  have h := hfold l ∅
  rwa [lookup_empty] at h

/-- The root's index of its offers that satisfy `p`. -/
theorem lookup_indexOffers_filter {rows : Table}
    (hk : WellKeyed fun key => rows.lookup key) (p : LedgerEntry → Bool)
    (key : LedgerKey) :
    (indexOffers (rows.offers.filter p)).lookup key =
      offersOf (fun key => rows.lookup key) p key := by
  have hmem : ∀ e, e ∈ rows.offers.filter p ∧ LedgerEntryKey e = key ↔
      offersOf (fun key => rows.lookup key) p key = some e := by
    intro e
    unfold offersOf
    rw [mem_filter, mem_offers hk]
    constructor
    · rintro ⟨⟨⟨hlookup, htype⟩, hp⟩, rfl⟩
      rw [if_pos htype]
      show (rows.lookup _).filter p = some e
      rw [hlookup]
      exact Option.filter_some_pos hp
    · intro h
      split at h
      · rename_i htype
        obtain ⟨hlookup, hp⟩ := Option.filter_eq_some_iff.mp h
        obtain rfl := hk key e hlookup
        exact ⟨⟨⟨hlookup, htype⟩, hp⟩, rfl⟩
      · cases h
  rw [lookup_indexOffers]
  cases hfind : (rows.offers.filter p).find? fun e => LedgerEntryKey e = key with
  | some e =>
    refine ((hmem e).mp ⟨mem_of_find?_eq_some hfind, ?_⟩).symm
    simpa using List.find?_some hfind
  | none =>
    cases hoff : offersOf (fun key => rows.lookup key) p key with
    | none => rfl
    | some e =>
      obtain ⟨hin, hkey⟩ := (hmem e).mpr hoff
      have := List.find?_eq_none.mp hfind e hin
      simp [hkey] at this

/-- The changes of a transaction over its parent's offers, entries that do not
satisfy `p` counting as deleted. -/
def overlayWith (p : LedgerEntry → Bool) (iter : List EntryChange)
    (offers : Table) : Table :=
  iter.foldl (fun offers c => if c.1.type ≠ .OFFER then offers
    else Overlay.change offers ⟨c.1, c.2.filter p⟩) offers

theorem lookup_overlayWith (p : LedgerEntry → Bool) (hnodup : iter.NodupKeys) (offers : Table)
    (key : LedgerKey) :
    (overlayWith p iter offers).lookup key =
      if key.type = .OFFER then
        ((iter.dlookup key).map (Option.filter p)).getD (offers.lookup key)
      else offers.lookup key := by
  induction iter generalizing offers with
  | nil =>
    split <;> rfl
  | cons c iter ih =>
    obtain ⟨j, v⟩ := c
    obtain ⟨hc, hrest⟩ := nodupKeys_cons.mp hnodup
    show (overlayWith p iter (if j.type ≠ .OFFER then offers
      else change offers ⟨j, v.filter p⟩)).lookup key = _
    rw [ih hrest]
    have hchange : ∀ k, (change offers ⟨j, v.filter p⟩).lookup k =
        update (fun k => offers.lookup k) j (v.filter p) k :=
      fun k => congrFun (lookup_change offers _) k
    by_cases hkey : key = j
    · subst hkey
      rw [dlookup_eq_none.mpr hc, dlookup_cons_eq]
      by_cases htype : key.type = .OFFER
      · rw [if_pos htype, if_pos htype, if_neg (not_not_intro htype), hchange, update_self]
        rfl
      · rw [if_neg htype, if_neg htype, if_pos htype]
    · rw [dlookup_cons_ne _ _ (by exact hkey)]
      have hsame : (if j.type ≠ .OFFER then offers
          else change offers ⟨j, v.filter p⟩).lookup key =
          offers.lookup key := by
        split
        · rfl
        · rw [hchange, update_of_ne hkey]
      rw [hsame]

/-- Overlaying a transaction on the offers of its parent gives the offers of
its view. -/
theorem lookup_overlayWith_view (p : LedgerEntry → Bool)
    (hperm : iter.Perm t.mEntry.entries) {offers : Table} {below : LedgerMap}
    (hoffers : ∀ key, offers.lookup key = offersOf below p key)
    (key : LedgerKey) :
    (overlayWith p iter offers).lookup key = offersOf (t.mEntry.view below) p key := by
  have hnodup : iter.NodupKeys :=
    (perm_nodupKeys hperm).mpr t.mEntry.nodupKeys
  have hlookup : iter.dlookup key = t.mEntry.lookup key :=
    perm_dlookup key hnodup hperm
  rw [lookup_overlayWith p hnodup, hlookup, hoffers]
  unfold offersOf view
  by_cases htype : key.type = .OFFER
  · rw [if_pos htype, if_pos htype, if_pos htype]
    cases t.mEntry.lookup key <;> rfl
  · rw [if_neg htype, if_neg htype, if_neg htype]

theorem wp_allOffersIn (o : IterationOrder) (ts : List LedgerTxnImpl)
    (hk : WellKeyed s.root.mDatabase.lookup) :
    wp (allOffersIn o ts) (fun offers s' => s' = s ∧ ∀ key, offers.lookup key = offersOf
        (Overlay.viewAll (ts.map (·.mEntry)) s.root.mDatabase.lookup)
        (fun _ => true) key) E s := by
  induction ts with
  | nil =>
    unfold allOffersIn
    rw [wp_bind, wp_get]
    refine ⟨rfl, fun key => ?_⟩
    have h := lookup_indexOffers_filter hk (fun _ => true) key
    rwa [filter_true] at h
  | cons t ts ih =>
    unfold allOffersIn
    refine ih.bind ?_
    rintro offers s' ⟨rfl, hoffers⟩
    refine ⟨rfl, fun key => ?_⟩
    have hfold : (o.order t.mEntry).foldl overlayOffer offers =
        overlayWith (fun _ => true) (o.order t.mEntry) offers := by
      have htrue : ∀ v : Option LedgerEntry, v.filter (fun _ => true) = v := by
        intro v
        cases v <;> rfl
      congr 1
      funext offers c
      rw [htrue]
      rfl
    rw [hfold]
    exact lookup_overlayWith_view _ (o.perm t.mEntry) hoffers key

theorem wp_overlayOffersBy (account : AccountID) (asset : Asset)
    (iter : List EntryChange) (hkeyed : KeyedChanges iter) (offers : Table) :
    wp (overlayOffersBy account asset iter offers) (fun r s' => s' = s ∧
        r = overlayWith (isOfferBy account asset) iter offers) E s := by
  induction iter generalizing offers with
  | nil => exact ⟨rfl, rfl⟩
  | cons c iter ih =>
    have ih := ih fun key e he => hkeyed key e (mem_cons_of_mem _ he)
    obtain ⟨key, v⟩ := c
    unfold overlayOffersBy overlayWith
    rw [foldl_cons]
    by_cases htype : key.type = .OFFER
    · rw [if_neg (not_not_intro htype), if_neg (not_not_intro htype)]
      cases v with
      | none => exact ih _
      | some e =>
        obtain rfl := hkeyed key e mem_cons_self
        obtain ⟨oe, hdata⟩ := exists_offer_of_type htype
        have hoffer : isOfferBy account asset e = decide (oe.sellerID = account
            ∧ (oe.selling = asset ∨ oe.buying = asset)) := by
          unfold isOfferBy
          rw [hdata]
        dsimp only
        rw [hdata]
        rw [wp_ite]
        refine ⟨fun hmatch => ?_, fun hmatch => ?_⟩
        · have hp : isOfferBy account asset e := by
            rw [hoffer]
            simpa using hmatch
          rw [Option.filter_some_pos hp]
          exact ih _
        · have hp : isOfferBy account asset e = false := by
            rw [hoffer]
            simpa using hmatch
          rw [Option.filter_some_neg hp]
          exact ih _
    · rw [if_pos htype, if_pos htype]
      exact ih offers

theorem wp_offersByAccountAndAssetIn (o : IterationOrder)
    (account : AccountID) {asset : Asset} (hasset : asset ≠ .native)
    (ts : List LedgerTxnImpl) (hk : s.WellKeyed ts) :
    wp (offersByAccountAndAssetIn o account asset ts)
      (fun offers s' => s' = s ∧ ∀ key, offers.lookup key = offersOf
        (Overlay.viewAll (ts.map (·.mEntry)) s.root.mDatabase.lookup)
        (isOfferBy account asset) key) E s := by
  induction ts with
  | nil =>
    unfold offersByAccountAndAssetIn rootGetOffersByAccountAndAsset
    rw [wp_bind, wp_get, wp_ite]
    refine ⟨fun h => absurd h hasset, fun _ => ?_⟩
    exact ⟨rfl, lookup_indexOffers_filter hk.1 _⟩
  | cons t ts ih =>
    have hkeyed := keyedChanges_of_perm (hk.2 t mem_cons_self) (o.perm t.mEntry)
    unfold offersByAccountAndAssetIn
    refine (ih ⟨hk.1, fun u hu => hk.2 u (mem_cons_of_mem t hu)⟩).bind ?_
    rintro offers s' ⟨rfl, hoffers⟩
    refine (wp_overlayOffersBy account asset _ hkeyed offers).imp ?_
    rintro r s'' ⟨rfl, rfl⟩
    exact ⟨rfl, lookup_overlayWith_view _ (o.perm t.mEntry) hoffers⟩

end AllOffers

/-! ## Histories with queries -/

/-- What a call does to a stack of full maps; queries do nothing. -/
def Call.edit (call : Call) (ms : MapStack) : MapStack :=
  match call with
  | .op o => o.edit ms
  | _ => ms

/-- An update writes an entry of the key it was loaded under. -/
def Call.KeepsKey : Call → Prop
  | .op (.assignCurrent _ key entry) => LedgerEntryKey entry = key
  | _ => True

section Histories

variable {s : Stack env} {ms : MapStack}

/-- Every map of the stack is well keyed. -/
def MapStack.WellKeyed (ms : MapStack) : Prop := ∀ m ∈ ms, Ledger.WellKeyed m

theorem MapStack.WellKeyed.write (h : ms.WellKeyed)
    {v : Option LedgerEntry}
    (hv : ∀ e, v = some e → LedgerEntryKey e = key) :
    (ms.write key v).WellKeyed := by
  cases ms with
  | nil => exact h
  | cons m ms =>
    intro m' hm'
    rcases mem_cons.mp hm' with rfl | hm'
    · intro j e he
      by_cases hj : j = key
      · subst hj
        rw [update_self] at he
        exact hv e he
      · rw [update_of_ne hj] at he
        exact h m mem_cons_self j e he
    · exact h m' (mem_cons_of_mem _ hm')

theorem MapStack.WellKeyed.current (h : ms.WellKeyed) :
    Ledger.WellKeyed ms.current := by
  cases ms with
  | nil => intro key e he; cases he
  | cons m ms => exact h m mem_cons_self

theorem MapStack.WellKeyed.edit (h : ms.WellKeyed)
    {call : Call} (hcall : call.KeepsKey) : (call.edit ms).WellKeyed := by
  have hdrop : ∀ n, MapStack.WellKeyed (ms.drop n) :=
    fun n m hm => h m (mem_of_mem_drop hm)
  have hcons : ∀ n, MapStack.WellKeyed (ms.current :: ms.drop n) := by
    intro n m hm
    rcases mem_cons.mp hm with rfl | hm
    · exact h.current
    · exact hdrop n m hm
  have hput : ∀ entry, MapStack.WellKeyed (ms.write (LedgerEntryKey entry) (some entry)) :=
    fun entry => h.write fun e he => by rw [Option.some.inj he]
  have hdel : ∀ key, MapStack.WellKeyed (ms.write key none) :=
    fun key => h.write fun e he => by cases he
  cases call with
  | op o =>
    cases o with
    | create level entry => exact hput entry
    | createOrUpdateWithoutLoading level entry => exact hput entry
    | assignCurrent level key entry =>
      have hkey : LedgerEntryKey entry = key := hcall
      subst hkey
      exact hput entry
    | erase level key => exact hdel key
    | eraseWithoutLoading level key => exact hdel key
    | eraseHandle level key =>
      unfold Call.edit Op.edit
      dsimp only
      split
      · exact hdel _
      · exact h
    | openChild level update => exact hcons 0
    | commit level order => exact hcons 2
    | rollback level => exact hdrop (level + 1)
    | load | loadWithoutRecord | getNewestVersion | deactivateHandle
    | loadHeader | assignHeader | deactivateHeader | sealTxn
    | unsealHeader => exact h
  | getBestOffer | getAllOffers | getOffersByAccountAndAsset => exact h

/-- The overlays of a stack that stands for well keyed maps are well keyed. -/
theorem Refines.wellKeyed (h : Refines s ms) (hms : ms.WellKeyed) : s.WellKeyed s.txns := by
  have hall : ∀ (ts : List LedgerTxnImpl) (ms : MapStack),
      List.Forall₂ SameData (mapsOf s.root.mDatabase.lookup ts) ms →
      ms.WellKeyed → s.WellKeyed ts := by
    intro ts
    induction ts with
    | nil =>
      intro ms hmaps hms
      cases hmaps with
      | cons hm _ =>
        refine ⟨(hms _ mem_cons_self).of_sameData hm, ?_⟩
        intro t ht
        cases ht
    | cons t ts ih =>
      intro ms hmaps hms
      cases hmaps with
      | cons hm hrest =>
        have hview := (hms _ mem_cons_self).of_sameData hm
        have ih := ih _ hrest fun m hm => hms m (mem_cons_of_mem _ hm)
        refine ⟨ih.1, fun u hu => ?_⟩
        rcases mem_cons.mp hu with rfl | hu
        · intro key e he
          refine hview key e ?_
          rw [map_cons, viewAll_cons, view, he]
          rfl
        · exact ih.2 u hu
  exact hall s.txns ms h.maps hms

theorem Stack.WellKeyed.drop (h : s.WellKeyed s.txns) (level : Nat) :
    s.WellKeyed (s.txns.drop level) :=
  ⟨h.1, fun t ht => h.2 t (mem_of_mem_drop ht)⟩

/-- Well keyed overlays stand for a well keyed map. -/
theorem Stack.WellKeyed.viewAll {ts : List LedgerTxnImpl} (h : s.WellKeyed ts) : Ledger.WellKeyed
      (Overlay.viewAll (ts.map (·.mEntry)) s.root.mDatabase.lookup) := by
  induction ts with
  | nil => exact h.1
  | cons t ts ih =>
    have ih := ih ⟨h.1, fun u hu => h.2 u (mem_cons_of_mem t hu)⟩
    intro key e he
    rw [map_cons, Overlay.viewAll_cons, Overlay.view] at he
    cases hl : t.mEntry.lookup key with
    | none =>
      rw [hl] at he
      exact ih key e he
    | some v =>
      rw [hl] at he
      refine h.2 t mem_cons_self key e ?_
      rw [hl]
      exact congrArg some he

/-- A query that returns keeps what the stack stands for. -/
theorem wp_call_run (ho : OfferOrder env) (batchSize : Nat) (call : Call)
    (h : Refines s ms) (hms : ms.WellKeyed) :
    wp (call.run batchSize) (fun _ s' => Refines s' (call.edit ms)) anyHalt s := by
  have hk := h.wellKeyed hms
  cases call with
  | op o => exact wp_run batchSize o h
  | getBestOffer order level buying selling =>
    unfold Call.run getBestOffer
    exact (wp_bestOfferIn ho h.coherent order _ (hk.drop level) []).bind
      fun _ _ h' => h.sameTables h'.1
  | getAllOffers order level =>
    unfold Call.run getAllOffers
    refine (wp_allOffersIn order _ hk.1).bind ?_
    rintro offers s' ⟨rfl, -⟩
    exact h
  | getOffersByAccountAndAsset order level account asset =>
    unfold Call.run getOffersByAccountAndAsset
    rw [wp_bind]
    by_cases hasset : asset = .native
    · -- the root refuses the native asset before anything is changed
      have hhalt : ∀ ts : List LedgerTxnImpl, wp (offersByAccountAndAssetIn order account asset ts)
            (fun _ _ => False) anyHalt s := by
        intro ts
        induction ts with
        | nil =>
          unfold offersByAccountAndAssetIn rootGetOffersByAccountAndAsset
          rw [wp_bind, wp_get, if_pos hasset]
          trivial
        | cons t ts ih =>
          unfold offersByAccountAndAssetIn
          exact ih.bind fun _ _ h' => h'.elim
      exact (hhalt _).imp fun _ _ h' => h'.elim
    · refine (wp_offersByAccountAndAssetIn order account hasset _
        (hk.drop level)).imp ?_
      rintro offers s' ⟨rfl, -⟩
      exact h

theorem wp_runCalls (ho : OfferOrder env) (batchSize : Nat)
    (calls : List Call) (hcalls : ∀ call ∈ calls, call.KeepsKey)
    (h : Refines s ms) (hms : ms.WellKeyed) :
    wp (runCalls batchSize calls)
      (fun _ s' => ∃ ms', Refines s' ms' ∧ ms'.WellKeyed) anyHalt s := by
  induction calls generalizing s ms with
  | nil => exact ⟨ms, h, hms⟩
  | cons call calls ih =>
    unfold runCalls
    refine (wp_call_run ho batchSize call h hms).bind ?_
    intro _ s' h'
    exact ih (fun c hc => hcalls c (mem_cons_of_mem _ hc)) h'
      (hms.edit (hcalls call mem_cons_self))

/-- After any history of calls, all three queries at every level return the
answer for the map that the level stands for. -/
theorem offer_queries_see_view (env : LtxEnv) (ho : OfferOrder env)
    (batchSize : Nat) (header : LedgerHeader) (rows : Table)
    (hrows : WellKeyed fun key => rows.lookup key) (ec : env.entryCache.Store)
    (bc : env.bestOffersCache.Store) (calls : List Call)
    (hcalls : ∀ call ∈ calls, call.KeepsKey) (s : Stack env)
    (hrun : runCalls batchSize calls (Stack.initial header rows ec bc) =
      .ok () s) (o : IterationOrder) (level : Nat) :
    (∀ buying selling, ∃ r s', getBestOffer o level buying selling s = .ok r s' ∧
      IsBest env.isBetterOffer (fun e => (∃ key, s.view level key = some e) ∧
          isOfferOf buying selling e) r) ∧
    (∃ offers s', getAllOffers o level s = .ok offers s' ∧ ∀ key e, offers.lookup key = some e ↔
        s.view level key = some e ∧ key.type = .OFFER) ∧
    (∀ account asset, asset ≠ .native → ∃ offers s',
      getOffersByAccountAndAsset o level account asset s = .ok offers s' ∧
      ∀ key e, offers.lookup key = some e ↔
        s.view level key = some e ∧ isOfferBy account asset e) := by
  have hstart : MapStack.WellKeyed [fun key => rows.lookup key] := by
    intro m hm
    rw [mem_singleton.mp hm]
    exact hrows
  obtain ⟨_, h, hms⟩ := (wp_runCalls ho batchSize calls hcalls
    (refines_initial header rows ec bc) hstart).of_ok hrun
  have hk := (h.wellKeyed hms).drop level
  have hview := hk.viewAll
  refine ⟨fun buying selling => ?_, ?_, fun account asset hasset => ?_⟩
  · have hq : wp (getBestOffer o level buying selling) (fun r _ => IsBest env.isBetterOffer
          (Live (s.view level) [] buying selling) r) (fun _ _ => False) s := by
      rw [getBestOffer, wp_bind]
      exact (wp_bestOfferIn ho h.coherent o _ hk []).imp fun _ _ h' => h'.2
    obtain ⟨r, s', hr, hbest⟩ := hq.returns
    refine ⟨r, s', hr, hbest.congr fun e => ⟨?_, ?_⟩⟩
    · rintro ⟨⟨key, hkey⟩, hoffer⟩
      obtain rfl := hview key e hkey
      exact ⟨hkey, not_mem_nil, hoffer⟩
    · rintro ⟨hkey, -, hoffer⟩
      exact ⟨⟨_, hkey⟩, hoffer⟩
  · have hq : wp (getAllOffers o level) (fun offers _ => ∀ key, offers.lookup key =
          offersOf (s.view level) (fun _ => true) key) (fun _ _ => False)
        s := by
      rw [getAllOffers, wp_bind]
      exact (wp_allOffersIn o _ hk.1).imp fun _ _ h' => h'.2
    obtain ⟨offers, s', hr, hoffers⟩ := hq.returns
    refine ⟨offers, s', hr, fun key e => ?_⟩
    rw [hoffers, offersOf_eq_some]
    simp
  · have hq : wp (getOffersByAccountAndAsset o level account asset)
        (fun offers _ => ∀ key, offers.lookup key =
          offersOf (s.view level) (isOfferBy account asset) key)
        (fun _ _ => False) s := by
      rw [getOffersByAccountAndAsset, wp_bind]
      exact (wp_offersByAccountAndAssetIn o account hasset _ hk).imp fun _ _ h' => h'.2
    obtain ⟨offers, s', hr, hoffers⟩ := hq.returns
    refine ⟨offers, s', hr, fun key e => ?_⟩
    rw [hoffers, offersOf_eq_some]
    constructor
    · rintro ⟨hkey, -, hp⟩
      exact ⟨hkey, hp⟩
    · rintro ⟨hkey, hp⟩
      obtain rfl := hview key e hkey
      exact ⟨hkey, type_of_isOfferBy hp, hp⟩

/-- `smallEnv` with a strict total order on all entries. -/
noncomputable def orderedEnv : LtxEnv :=
  { smallEnv with
    isBetterOffer := fun a b => @decide (WellOrderingRel a b)
      (Classical.propDecidable _) }

theorem offerOrder_orderedEnv : OfferOrder orderedEnv := by
  intro buying selling
  refine ⟨fun a _ => ?_, fun a b c _ _ _ hab hbc => ?_, fun a b _ _ => ?_⟩
  · have hirr : ¬ WellOrderingRel a a := irrefl a
    simp [orderedEnv, hirr]
  · simp only [orderedEnv, decide_eq_true_eq] at hab hbc ⊢
    exact IsTrans.trans _ _ _ hab hbc
  · simp only [orderedEnv, decide_eq_true_eq]
    rcases trichotomous_of WellOrderingRel a b with h | h | h
    · exact .inr (.inl h)
    · exact .inl h
    · exact .inr (.inr h)

/-- An offer that sells the native asset. -/
def smallOffer : LedgerEntry where
  lastModifiedLedgerSeq := 1
  data := .offer
    { sellerID := 1, offerID := 7, selling := .native,
      buying := .alphaNum4 #v[85, 83, 68, 0] 2, amount := 10,
      price := { n := 1, d := 2 }, flags := 0 }

/-- Create the offer, ask for all offers, and open a child. -/
def smallCalls : List Call :=
  [.op (.openChild 0 true), .op (.create 0 smallOffer),
    .getAllOffers .recorded 0, .op (.openChild 0 true)]

theorem offer_queries_see_view_small : ∃ s : Stack orderedEnv,
      runCalls 0 smallCalls (Stack.initial smallHeader ∅ [] []) = .ok () s ∧
      ∃ offers s', getAllOffers ⟨AList.entries, fun _ => List.Perm.refl _⟩ 0 s = .ok offers s' ∧
        ∀ key e, offers.lookup key = some e ↔ s.view 0 key = some e ∧ key.type = .OFFER := by
  refine ⟨_, rfl, ?_⟩
  refine (offer_queries_see_view orderedEnv offerOrder_orderedEnv 0
    smallHeader ∅ ?_ [] [] smallCalls ?_ _ rfl _ 0).2.1
  · intro key e he
    cases he
  · intro call hcall
    simp only [smallCalls, mem_cons, not_mem_nil, or_false] at hcall
    rcases hcall with rfl | rfl | rfl | rfl <;> trivial

/-- Asked for the native asset, the query aborts although a live offer of the
account sells it. -/
theorem getOffersByAccountAndAsset_native_aborts : ∃ s : Stack orderedEnv,
      runCalls 0 smallCalls (Stack.initial smallHeader ∅ [] []) = .ok () s ∧
      (s.view 0 (LedgerEntryKey smallOffer) = some smallOffer ∧ isOfferBy 1 .native smallOffer) ∧
      ∃ s', getOffersByAccountAndAsset ⟨AList.entries, fun _ => List.Perm.refl _⟩ 0 1 .native s =
        .error (.abort ("fatal error when getting offers by account and " ++
          "asset from LedgerTxnRoot: Invalid asset type")) s' :=
  ⟨_, rfl, ⟨rfl, rfl⟩, _, rfl⟩

end Histories

end EssaCore.Ledger
