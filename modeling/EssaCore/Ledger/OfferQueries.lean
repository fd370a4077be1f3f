import EssaCore.Ledger.LedgerTxn

/-!
# Offer queries

The queries of `ledger/LedgerTxn.cpp` that range over all offers:

- `loadBestOffers`, `searchBestOffer`, `rootGetBestOffer` — the root keeps, for
  each pair of assets, a list of its best offers that it extends in batches;
- `bestOfferIn` — each transaction scans its own changes, hides the keys it has
  seen from its parents, and keeps the better of two answers;
- `allOffersIn`, `offersByAccountAndAssetIn` — each transaction overlays its own
  changes on its parent's answer;
- `Call`, `runCalls` — histories in which queries are mixed with other calls.
-/

namespace EssaCore.Ledger

open EssaCore.Lib

variable {env : LtxEnv}

/-! ## Offers in the tables -/

/-- `e` is an offer of a pair of assets. -/
def isOfferOf (buying selling : Asset) (e : LedgerEntry) : Bool :=
  match e.data with
  | .offer o => o.buying = buying ∧ o.selling = selling
  | _ => false

/-- `e` is an offer of an account with an asset on either side. -/
def isOfferBy (account : AccountID) (asset : Asset) (e : LedgerEntry) : Bool :=
  match e.data with
  | .offer o => o.sellerID = account ∧ (o.selling = asset ∨ o.buying = asset)
  | _ => false

/-- The rows of the table `offers`. -/
def Table.offers (rows : Table) : List LedgerEntry :=
  (rows.entries.filter fun p => p.1.type = .OFFER).map (·.2)

/-- The offers of a pair in the order of the query of `loadBestOffers`. -/
def sortedOffers (env : LtxEnv) (rows : Table) (buying selling : Asset) :
    List LedgerEntry :=
  (rows.offers.filter (isOfferOf buying selling)).mergeSort
    fun a b => !env.isBetterOffer b a

/-- `loadBestOffers` (`LedgerTxnOfferSQL.cpp` 67–99), with its `LIMIT` and
`OFFSET`. -/
def loadBestOffers (env : LtxEnv) (rows : Table) (buying selling : Asset)
    (numOffers offset : Nat) : List LedgerEntry :=
  ((sortedOffers env rows buying selling).drop offset).take numOffers

/-! ## The best offer of the root -/

/-- `findIncludedOffer` (1602–1616) -/
def findIncludedOffer (offers : List LedgerEntry) (exclude : List LedgerKey) :
    Option LedgerEntry :=
  offers.find? fun e => LedgerEntryKey e ∉ exclude

/-- `BATCH_SIZE` of `LedgerTxnRoot::Impl::getBestOffer` -/
def BATCH_SIZE : Nat := 5

/-- The loop of `LedgerTxnRoot::Impl::getBestOffer` (1633–1660), from a state
in which nothing was found among the loaded offers. -/
def loadUntilIncluded (env : LtxEnv) (rows : Table) (buying selling : Asset)
    (exclude : List LedgerKey) : Nat → BestOffersCacheEntry →
      Option (Option LedgerEntry × BestOffersCacheEntry)
  | 0, _ => none
  | fuel + 1, cached =>
    if cached.allLoaded then some (none, cached) else
    let new := loadBestOffers env rows buying selling BATCH_SIZE
      cached.bestOffers.length
    let cached : BestOffersCacheEntry :=
      { bestOffers := cached.bestOffers ++ new
        allLoaded := new.length < BATCH_SIZE }
    match findIncludedOffer new exclude with
    | some e => some (some e, cached)
    | none => loadUntilIncluded env rows buying selling exclude fuel cached

/-- The answer of `LedgerTxnRoot::Impl::getBestOffer` and what becomes of the
cached list. Each round but the last loads `BATCH_SIZE` more rows. -/
def searchBestOffer (env : LtxEnv) (rows : Table) (buying selling : Asset)
    (exclude : List LedgerKey) (cached : BestOffersCacheEntry) :
    Option (Option LedgerEntry × BestOffersCacheEntry) :=
  match findIncludedOffer cached.bestOffers exclude with
  | some e => some (some e, cached)
  | none =>
    loadUntilIncluded env rows buying selling exclude
      (rows.entries.length + 2) cached

/-- `getFromBestOffersCache` (1858–1880): the cached list, made if there is
none, and the cache, if it did keep the list. -/
def getFromBestOffersCache (c : env.bestOffersCache.Store)
    (pair : Asset × Asset) :
    BestOffersCacheEntry × Bool × env.bestOffersCache.Store :=
  let defaultValue : BestOffersCacheEntry :=
    { bestOffers := [], allLoaded := false }
  let c :=
    if (env.bestOffersCache.find? c pair).isSome then c
    else env.bestOffersCache.put c pair defaultValue
  match env.bestOffersCache.find? c pair with
  | some cached => (cached, true, env.bestOffersCache.touch c pair)
  | none => (defaultValue, false, c)

/-- `LedgerTxnRoot::Impl::getBestOffer` (1618–1666). The cached list is
changed in place, and the best offer is put in the entry cache. -/
def rootGetBestOffer (buying selling : Asset) (exclude : List LedgerKey) :
    LtxM env (Option LedgerEntry) := do
  let s ← get
  let (cached, kept, c) :=
    getFromBestOffersCache s.root.mBestOffersCache (buying, selling)
  match searchBestOffer env s.root.mDatabase.rows buying selling exclude
      cached with
  | none => throw .outOfFuel
  | some (res, cached) => do
    modify (Stack.withBestOffersCache
      (if kept then env.bestOffersCache.put c (buying, selling) cached else c))
    match res with
    | none => pure none
    | some e => do
      modify (Stack.withCache
        (env.entryCache.put s.root.mEntryCache (LedgerEntryKey e) (some e)))
      pure (some e)

/-! ## The best offer of a transaction -/

/-- The loop of `LedgerTxn::Impl::getBestOffer` (518–544): the best offer of
this transaction among keys no inner transaction has, and all keys seen. -/
def scanBestOffer (buying selling : Asset) :
    List EntryChange → Option LedgerEntry → List LedgerKey →
      LtxM env (Option LedgerEntry × List LedgerKey)
  | [], best, exclude => pure (best, exclude)
  | c :: iter, best, exclude =>
    if c.1.type ≠ .OFFER then scanBestOffer buying selling iter best exclude
    else if c.1 ∈ exclude then scanBestOffer buying selling iter best exclude
    else
      match c.2 with
      | none => scanBestOffer buying selling iter best (c.1 :: exclude)
      | some e =>
        match e.data with
        | .offer o =>
          if ¬ (o.buying = buying ∧ o.selling = selling) then
            scanBestOffer buying selling iter best (c.1 :: exclude)
          else if best.all fun b => env.isBetterOffer e b then
            scanBestOffer buying selling iter (some e) (c.1 :: exclude)
          else scanBestOffer buying selling iter best (c.1 :: exclude)
        | _ => throw (.runtimeError "xdr_wrong_union")

/-- The end of `LedgerTxn::Impl::getBestOffer` (546–562) -/
def betterOffer (env : LtxEnv) :
    Option LedgerEntry → Option LedgerEntry → Option LedgerEntry
  | some bestOffer, some parentBestOffer =>
    if env.isBetterOffer bestOffer parentBestOffer then some bestOffer
    else some parentBestOffer
  | some bestOffer, none => some bestOffer
  | none, parentBestOffer => parentBestOffer

/-- `LedgerTxn::Impl::getBestOffer` (503–562), following the parents. -/
def bestOfferIn (o : IterationOrder) (buying selling : Asset) :
    List LedgerTxnImpl → List LedgerKey → LtxM env (Option LedgerEntry)
  | [], exclude => rootGetBestOffer buying selling exclude
  | t :: parents, exclude => do
    let (bestOffer, exclude) ←
      scanBestOffer buying selling (o.order t.mEntry) none exclude
    let parentBestOffer ← bestOfferIn o buying selling parents exclude
    pure (betterOffer env bestOffer parentBestOffer)

/-- `getBestOffer` of the transaction at a level, or of the root. -/
def getBestOffer (o : IterationOrder) (level : Nat) (buying selling : Asset) :
    LtxM env (Option LedgerEntry) := do
  let s ← get
  bestOfferIn o buying selling (s.txns.drop level) []

/-! ## All offers, and those of an account -/

/-- Index offers by their keys (1594–1599); `emplace` keeps the first. -/
def indexOffers (offers : List LedgerEntry) : Table :=
  offers.foldl
    (fun m e => if LedgerEntryKey e ∈ m then m else m.insert (LedgerEntryKey e) e)
    ∅

/-- The body of the loop of `LedgerTxn::Impl::getAllOffers` (481–496) -/
def overlayOffer (offers : Table) (c : EntryChange) : Table :=
  if c.1.type ≠ .OFFER then offers else Overlay.change offers c

/-- `getAllOffers` (477–498, 1571–1600), following the parents. -/
def allOffersIn (o : IterationOrder) : List LedgerTxnImpl → LtxM env Table
  | [] => do
    let s ← get
    pure (indexOffers s.root.mDatabase.rows.offers)
  | t :: parents => do
    let offers ← allOffersIn o parents
    pure ((o.order t.mEntry).foldl overlayOffer offers)

/-- `getAllOffers` of the transaction at a level, or of the root. -/
def getAllOffers (o : IterationOrder) (level : Nat) : LtxM env Table := do
  let s ← get
  allOffersIn o (s.txns.drop level)

/-- `LedgerTxnRoot::Impl::getOffersByAccountAndAsset` (1675–1701) over
`loadOffersByAccountAndAsset`, which refuses the native asset. -/
def rootGetOffersByAccountAndAsset (account : AccountID) (asset : Asset) :
    LtxM env Table := do
  let s ← get
  if asset = .native then
    throw (.abort ("fatal error when getting offers by account and " ++
      "asset from LedgerTxnRoot: Invalid asset type"))
  else
    pure (indexOffers
      (s.root.mDatabase.rows.offers.filter (isOfferBy account asset)))

/-- The loop of `LedgerTxn::Impl::getOffersByAccountAndAsset` (895–919). An
offer that no longer matches hides the parent's. -/
def overlayOffersBy (account : AccountID) (asset : Asset) :
    List EntryChange → Table → LtxM env Table
  | [], offers => pure offers
  | c :: iter, offers =>
    if c.1.type ≠ .OFFER then overlayOffersBy account asset iter offers
    else
      match c.2 with
      | none => overlayOffersBy account asset iter (offers.erase c.1)
      | some e =>
        match e.data with
        | .offer oe =>
          if oe.sellerID = account ∧ (oe.selling = asset ∨ oe.buying = asset)
          then overlayOffersBy account asset iter (offers.insert c.1 e)
          else overlayOffersBy account asset iter (offers.erase c.1)
        | _ => throw (.runtimeError "xdr_wrong_union")

/-- `getOffersByAccountAndAsset` (890–921), following the parents. -/
def offersByAccountAndAssetIn (o : IterationOrder) (account : AccountID)
    (asset : Asset) : List LedgerTxnImpl → LtxM env Table
  | [] => rootGetOffersByAccountAndAsset account asset
  | t :: parents => do
    let offers ← offersByAccountAndAssetIn o account asset parents
    overlayOffersBy account asset (o.order t.mEntry) offers

/-- `getOffersByAccountAndAsset` of the transaction at a level, or of the
root. -/
def getOffersByAccountAndAsset (o : IterationOrder) (level : Nat)
    (account : AccountID) (asset : Asset) : LtxM env Table := do
  let s ← get
  offersByAccountAndAssetIn o account asset (s.txns.drop level)

/-! ## Histories -/

/-- A call of a history: an edit or a read of single entries, or a query. -/
inductive Call where
  | op (call : Op)
  | getBestOffer (order : IterationOrder) (level : Nat)
      (buying selling : Asset)
  | getAllOffers (order : IterationOrder) (level : Nat)
  | getOffersByAccountAndAsset (order : IterationOrder) (level : Nat)
      (account : AccountID) (asset : Asset)

/-- Run one call, dropping what it returns. -/
def Call.run (batchSize : Nat) : Call → LtxM env Unit
  | .op call => call.run batchSize
  | .getBestOffer order level buying selling => do
    let _ ← Ledger.getBestOffer order level buying selling
  | .getAllOffers order level => do let _ ← Ledger.getAllOffers order level
  | .getOffersByAccountAndAsset order level account asset => do
    let _ ← Ledger.getOffersByAccountAndAsset order level account asset

/-- Run the calls in order, up to the first that throws. -/
def runCalls (batchSize : Nat) : List Call → LtxM env Unit
  | [] => pure ()
  | call :: calls => do
    call.run batchSize
    runCalls batchSize calls

end EssaCore.Ledger
