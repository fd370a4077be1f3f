import EssaCore.Ledger.Entries
import EssaCore.Lib.Cache
import EssaCore.Lib.Overlay
import EssaCore.Lib.StateMachine

/-!
# Nested ledger transactions

`ledger/LedgerTxn.cpp`, `ledger/LedgerTxnImpl.h` and the handles of
`ledger/LedgerTxnEntry.cpp`: a stack of `LedgerTxn`s over a `LedgerTxnRoot`
that owns the database.

- `LedgerTxnImpl` — `LedgerTxn::Impl`; `LedgerTxnRootImpl` —
  `LedgerTxnRoot::Impl` with its database and its entry cache;
- `Stack` — the open transactions, innermost first, and the root. A
  transaction is addressed by its `level`: the innermost has level 0, and a
  transaction has a child exactly when its level is positive. The parent of
  level `n` is level `n + 1`, the root after the last one;
- one definition for each member function, throwing what the source throws;
- `Op`, `Op.run`, `runOps` — sequences of calls.

The caches of the root are any `CacheModel` (the source takes them from a
library that is not part of the repository), and the order in which an
`unordered_map` is iterated is chosen anew at each call (`IterationOrder`).
-/

namespace EssaCore.Ledger

open EssaCore.Lib

/-! ## State -/

/-- `LedgerTxn::Impl::EntryMap`: a null pointer is a deleted entry. -/
abbrev EntryMap := Overlay LedgerKey LedgerEntry

/-- What an `EntryIterator` shows of one element: `key()` and, when
`entryExists()`, `entry()`. -/
abbrev EntryChange := Σ _ : LedgerKey, Option LedgerEntry

/-- `LedgerTxnConsistency` -/
inductive LedgerTxnConsistency where
  | EXACT
  | EXTRA_DELETES
  deriving DecidableEq, Repr

/-- `joinConsistencyLevels` (233–245) -/
def joinConsistencyLevels :
    LedgerTxnConsistency → LedgerTxnConsistency → LedgerTxnConsistency
  | .EXACT, c2 => c2
  | .EXTRA_DELETES, _ => .EXTRA_DELETES

/-- What a key is active for: a `LedgerTxnEntry` writes through to the entry
map, a `ConstLedgerTxnEntry` owns a copy. -/
inductive Handle where
  | entry
  | constEntry (current : LedgerEntry)
  deriving DecidableEq, Repr

/-- `LedgerTxn::Impl` -/
structure LedgerTxnImpl where
  mHeader : LedgerHeader
  mEntry : EntryMap
  mActive : AList (fun _ : LedgerKey => Handle)
  mActiveHeader : Bool
  mShouldUpdateLastModified : Bool
  mIsSealed : Bool
  mConsistency : LedgerTxnConsistency

/-- The rows of the SQL tables. -/
abbrev Table := AList (fun _ : LedgerKey => LedgerEntry)

/-- The SQL tables, with the changes applied to them so far (newest last). -/
structure Database where
  rows : Table
  applied : List EntryChange

/-- `BestOffersCacheEntry` -/
structure BestOffersCacheEntry where
  bestOffers : List LedgerEntry
  allLoaded : Bool

/-- The order in which the elements of an `unordered_map` are visited. -/
structure IterationOrder where
  order : EntryMap → List EntryChange
  perm : ∀ m, (order m).Perm m.entries

/-- The elements in the order in which they are recorded -/
def IterationOrder.recorded : IterationOrder := ⟨AList.entries, fun _ => .refl _⟩

/-- What the transactions take from outside: the two caches of the root (a
cached `none` says that a key has no entry) and the order on offers, which is
computed with floating-point prices. -/
structure LtxEnv where
  entryCache : CacheModel LedgerKey (Option LedgerEntry)
  bestOffersCache : CacheModel (Asset × Asset) BestOffersCacheEntry
  isBetterOffer : LedgerEntry → LedgerEntry → Bool

/-- `LedgerTxnRoot::Impl` -/
structure LedgerTxnRootImpl (env : LtxEnv) where
  mHeader : LedgerHeader
  mDatabase : Database
  mEntryCache : env.entryCache.Store
  mBestOffersCache : env.bestOffersCache.Store

/-- The open transactions, innermost first, over the root. -/
structure Stack (env : LtxEnv) where
  txns : List LedgerTxnImpl
  root : LedgerTxnRootImpl env

/-- How a call can end other than by returning. -/
inductive LtxError where
  /-- `std::runtime_error` -/
  | runtimeError (what : String)
  /-- `printErrorAndAbort` -/
  | abort (message : String)
  /-- a loop of the model was cut off; no call ends so -/
  | outOfFuel
  deriving DecidableEq, Repr

/-- Calls on a stack of transactions. -/
abbrev LtxM (env : LtxEnv) := EStateM LtxError (Stack env)

variable {env : LtxEnv}

/-- Replace the transaction at a level. -/
def Stack.setTxn (level : Nat) (t : LedgerTxnImpl) (s : Stack env) : Stack env :=
  { s with txns := s.txns.set level t }

/-- Replace the root's entry cache. -/
def Stack.withCache (c : env.entryCache.Store) (s : Stack env) : Stack env :=
  { s with root := { s.root with mEntryCache := c } }

/-- Replace the root's cache of best offers. -/
def Stack.withBestOffersCache (c : env.bestOffersCache.Store)
    (s : Stack env) : Stack env :=
  { s with root := { s.root with mBestOffersCache := c } }

/-- Replace the root's database. -/
def Stack.withDatabase (d : Database) (s : Stack env) : Stack env :=
  { s with root := { s.root with mDatabase := d } }

/-! ## Guards -/

/-- `getImpl`: a transaction that was committed or rolled back is gone. -/
def getImpl (level : Nat) : LtxM env LedgerTxnImpl := do
  let s ← get
  match s.txns[level]? with
  | some t => pure t
  | none => throw (.runtimeError "LedgerTxnEntry was handled")

/-- `throwIfSealed` -/
def throwIfSealed (t : LedgerTxnImpl) : LtxM env Unit :=
  if t.mIsSealed then throw (.runtimeError "LedgerTxn is sealed") else pure ()

/-- `throwIfChild` -/
def throwIfChild (level : Nat) : LtxM env Unit :=
  if level ≠ 0 then throw (.runtimeError "LedgerTxn has child") else pure ()

/-- The transaction at a level, checked to be neither sealed nor a parent. -/
def getOpenImpl (level : Nat) : LtxM env LedgerTxnImpl := do
  let t ← getImpl level
  throwIfSealed t
  throwIfChild level
  pure t

/-! ## Reading -/

/-- `LedgerTxnRoot::Impl::getNewestVersion` (1748–1792): through the cache. -/
def rootGetNewestVersion (key : LedgerKey) : LtxM env (Option LedgerEntry) := do
  let s ← get
  match env.entryCache.find? s.root.mEntryCache key with
  | some e => do
    modify (Stack.withCache (env.entryCache.touch s.root.mEntryCache key))
    pure e
  | none => do
    let e := s.root.mDatabase.rows.lookup key
    modify (Stack.withCache (env.entryCache.put s.root.mEntryCache key e))
    pure e

/-- `LedgerTxn::Impl::getNewestVersion` (872–881), following the parents. -/
def newestVersionIn :
    List LedgerTxnImpl → LedgerKey → LtxM env (Option LedgerEntry)
  | [], key => rootGetNewestVersion key
  | t :: parents, key =>
    match t.mEntry.lookup key with
    | some e => pure e
    | none => newestVersionIn parents key

/-- `getNewestVersion` of the transaction at a level, or of the root. -/
def getNewestVersion (level : Nat) (key : LedgerKey) :
    LtxM env (Option LedgerEntry) := do
  let s ← get
  newestVersionIn (s.txns.drop level) key

/-! ## Entries -/

/-- `std::map::emplace`: an existing element stays. -/
def emplace (m : AList (fun _ : LedgerKey => Handle)) (key : LedgerKey)
    (h : Handle) : AList (fun _ : LedgerKey => Handle) :=
  if key ∈ m then m else m.insert key h

/-- `create` (292–316) -/
def create (level : Nat) (entry : LedgerEntry) : LtxM env Unit := do
  let t ← getOpenImpl level
  let key := LedgerEntryKey entry
  let newest ← getNewestVersion level key
  if newest.isSome then throw (.runtimeError "Key already exists") else
  modify (Stack.setTxn level
    { t with
      mActive := emplace t.mActive key .entry
      mEntry := t.mEntry.insert key (some entry) })

/-- `createOrUpdateWithoutLoading` (324–342) -/
def createOrUpdateWithoutLoading (level : Nat) (entry : LedgerEntry) :
    LtxM env Unit := do
  let t ← getOpenImpl level
  let key := LedgerEntryKey entry
  if key ∈ t.mActive then throw (.runtimeError "Key is already active") else
  modify (Stack.setTxn level
    { t with mEntry := t.mEntry.insert key (some entry) })

/-- `deactivate` (350–359) -/
def deactivate (level : Nat) (key : LedgerKey) : LtxM env Unit := do
  let t ← getImpl level
  if key ∈ t.mActive then
    modify (Stack.setTxn level { t with mActive := t.mActive.erase key })
  else throw (.runtimeError "Key is not active")

/-- `erase` (382–427) -/
def erase (level : Nat) (key : LedgerKey) : LtxM env Unit := do
  let t ← getOpenImpl level
  let newest ← getNewestVersion level key
  if newest.isNone then throw (.runtimeError "Key does not exist") else do
  let inParent ← getNewestVersion (level + 1) key
  -- an entry created in this transaction leaves no trace
  let mEntry :=
    if inParent.isNone then t.mEntry.erase key else t.mEntry.insert key none
  modify (Stack.setTxn level
    { t with mEntry := mEntry, mActive := t.mActive.erase key })

/-- `eraseWithoutLoading` (435–467) -/
def eraseWithoutLoading (level : Nat) (key : LedgerKey) : LtxM env Unit := do
  let t ← getOpenImpl level
  modify (Stack.setTxn level
    { t with
      mEntry := t.mEntry.insert key none
      mActive := t.mActive.erase key
      mConsistency := .EXTRA_DELETES })

/-- `load` (928–957): the handle's `current()`, if there is an entry. -/
def load (level : Nat) (key : LedgerKey) : LtxM env (Option LedgerEntry) := do
  let t ← getOpenImpl level
  if key ∈ t.mActive then throw (.runtimeError "Key is active") else do
  let newest ← getNewestVersion level key
  match newest with
  | none => pure none
  | some current => do
    modify (Stack.setTxn level
      { t with
        mActive := emplace t.mActive key .entry
        mEntry := t.mEntry.insert key (some current) })
    pure (some current)

/-- `loadWithoutRecord` (1082–1105) -/
def loadWithoutRecord (level : Nat) (key : LedgerKey) :
    LtxM env (Option LedgerEntry) := do
  let t ← getOpenImpl level
  if key ∈ t.mActive then throw (.runtimeError "Key is active") else do
  let newest ← getNewestVersion level key
  match newest with
  | none => pure none
  | some current => do
    modify (Stack.setTxn level
      { t with mActive := emplace t.mActive key (.constEntry current) })
    pure (some current)

/-! ## Handles

A handle is named by the key it was registered under. It is live as long as
its transaction keeps it in `mActive`. -/

/-- `LedgerTxnEntry::Impl::current`: the entry in the transaction's map that
the handle writes to. -/
def handleCurrent (t : LedgerTxnImpl) (key : LedgerKey) : Option LedgerEntry :=
  match t.mActive.lookup key with
  | some .entry => (t.mEntry.lookup key).join
  | _ => none

/-- `ltxe.current() = entry` -/
def assignCurrent (level : Nat) (key : LedgerKey) (entry : LedgerEntry) :
    LtxM env Unit := do
  let t ← getImpl level
  match handleCurrent t key with
  | none => throw (.runtimeError "LedgerTxnEntry not active")
  | some _ =>
    modify (Stack.setTxn level
      { t with mEntry := t.mEntry.insert key (some entry) })

/-- `LedgerTxnEntry::deactivate`, `ConstLedgerTxnEntry::deactivate`: under the
key that the handle's entry has now. -/
def deactivateHandle (level : Nat) (key : LedgerKey) : LtxM env Unit := do
  let t ← getImpl level
  match t.mActive.lookup key with
  | some (.constEntry current) => deactivate level (LedgerEntryKey current)
  | _ =>
    match handleCurrent t key with
    | none => throw (.runtimeError "LedgerTxnEntry not active")
    | some current => deactivate level (LedgerEntryKey current)

/-- `LedgerTxnEntry::erase` -/
def eraseHandle (level : Nat) (key : LedgerKey) : LtxM env Unit := do
  let t ← getImpl level
  match handleCurrent t key with
  | none => throw (.runtimeError "LedgerTxnEntry not active")
  | some current => erase level (LedgerEntryKey current)

/-! ## The header -/

/-- `loadHeader` (1019–1036) -/
def loadHeader (level : Nat) : LtxM env LedgerHeader := do
  let t ← getOpenImpl level
  if t.mActiveHeader then
    throw (.runtimeError "LedgerTxnHeader is active")
  else do
  modify (Stack.setTxn level { t with mActiveHeader := true })
  pure t.mHeader

/-- `header.current() = h` -/
def assignHeader (level : Nat) (h : LedgerHeader) : LtxM env Unit := do
  let t ← getImpl level
  if t.mActiveHeader then
    modify (Stack.setTxn level { t with mHeader := h })
  else throw (.runtimeError "LedgerTxnHeader not active")

/-- `deactivateHeader` (367–375) -/
def deactivateHeader (level : Nat) : LtxM env Unit := do
  let t ← getImpl level
  if t.mActiveHeader then
    modify (Stack.setTxn level { t with mActiveHeader := false })
  else throw (.runtimeError "LedgerTxnHeader is not active")

/-! ## Opening a child -/

/-- The constructor of `LedgerTxn::Impl` (132–142) under a parent's header. -/
def newImpl (header : LedgerHeader) (shouldUpdateLastModified : Bool) :
    LedgerTxnImpl where
  mHeader := header
  mEntry := ∅
  mActive := ∅
  mActiveHeader := false
  mShouldUpdateLastModified := shouldUpdateLastModified
  mIsSealed := false
  mConsistency := .EXACT

/-- A new innermost transaction. -/
def Stack.push (t : LedgerTxnImpl) (s : Stack env) : Stack env :=
  { s with txns := t :: s.txns }

/-- The innermost transaction is gone (`mImpl.reset()`). -/
def Stack.pop (s : Stack env) : Stack env := { s with txns := s.txns.tail }

/-- `LedgerTxn::Impl::addChild` (166–179) -/
def addChild (level : Nat) : LtxM env Unit := do
  let t ← getOpenImpl level
  modify (Stack.setTxn level { t with mActive := ∅, mActiveHeader := false })

/-- `LedgerTxnRoot::Impl::addChild` (1296–1305) -/
def rootAddChild : LtxM env Unit := do
  let s ← get
  if s.txns ≠ [] then
    throw (.runtimeError "LedgerTxnRoot already has child")
  else pure ()

/-- `LedgerTxn ltx(parent, shouldUpdateLastModified)`; the level after the
outermost transaction is the root's. -/
def openChild (level : Nat) (shouldUpdateLastModified : Bool) :
    LtxM env Unit := do
  let s ← get
  if level = s.txns.length then do
    rootAddChild
    modify (Stack.push (newImpl s.root.mHeader shouldUpdateLastModified))
  else do
    let parent ← getImpl level
    addChild level
    modify (Stack.push (newImpl parent.mHeader shouldUpdateLastModified))

/-! ## Sealing -/

/-- The copy made by `maybeUpdateLastModified` (1163–1187). -/
def maybeUpdateLastModified (t : LedgerTxnImpl) : EntryMap :=
  t.mEntry.mapValues fun e =>
    if t.mShouldUpdateLastModified then
      { e with lastModifiedLedgerSeq := t.mHeader.ledgerSeq }
    else e

/-- `maybeUpdateLastModifiedThenInvokeThenSeal` (1189–1217), invoked to read
(`getChanges`, `getDelta`, `getDeadEntries`, `getLiveEntries`). -/
def sealTxn (level : Nat) : LtxM env Unit := do
  let t ← getImpl level
  if t.mIsSealed then pure () else do
  throwIfChild level
  modify (Stack.setTxn level
    { t with
      mEntry := maybeUpdateLastModified t
      mActive := ∅
      mActiveHeader := false
      mIsSealed := true })

/-- `unsealHeader` (1147–1161), with `f` assigning the header. -/
def unsealHeader (level : Nat) (h : LedgerHeader) : LtxM env Unit := do
  let t ← getImpl level
  if ¬ t.mIsSealed then throw (.runtimeError "LedgerTxn is not sealed")
  else if t.mActiveHeader then
    throw (.runtimeError "LedgerTxnHeader is active")
  else modify (Stack.setTxn level { t with mHeader := h })

/-! ## Committing into a transaction -/

/-- One round of the loop of `LedgerTxn::Impl::commitChild` (258–274), in the
transaction at `level`. -/
def commitEntry (level : Nat) (c : EntryChange) : LtxM env Unit := do
  let t ← getImpl level
  match c.2 with
  | some e =>
    modify (Stack.setTxn level { t with mEntry := t.mEntry.insert c.1 (some e) })
  | none => do
    let inParent ← getNewestVersion (level + 1) c.1
    let mEntry :=
      if inParent.isNone then t.mEntry.erase c.1 else t.mEntry.insert c.1 none
    modify (Stack.setTxn level { t with mEntry := mEntry })

/-- The loop of `LedgerTxn::Impl::commitChild`. -/
def commitEntries (level : Nat) : List EntryChange → LtxM env Unit
  | [] => pure ()
  | c :: iter => do
    commitEntry level c
    commitEntries level iter

/-- `LedgerTxn::Impl::commitChild` (247–283) of the transaction at `level`. -/
def commitChild (level : Nat) (childHeader : LedgerHeader)
    (iter : List EntryChange) (cons : LedgerTxnConsistency) : LtxM env Unit := do
  let t ← getImpl level
  modify (Stack.setTxn level
    { t with mConsistency := joinConsistencyLevels t.mConsistency cons })
  commitEntries level iter
  let t ← getImpl level
  modify (Stack.setTxn level { t with mHeader := childHeader })

/-! ## Committing into the root -/

/-- Which SQL statement a buffer is for. -/
inductive BulkKind where
  | upsert
  | delete
  deriving DecidableEq, Repr

/-- `BulkLedgerEntryChangeAccumulator`: one buffer for each type of entry and
kind of statement. -/
abbrev BulkLedgerEntryChangeAccumulator :=
  LedgerEntryType → BulkKind → List EntryChange

/-- The kind of statement a change needs (`accum`, 1322–1330). -/
def EntryChange.kind (c : EntryChange) : BulkKind :=
  match c.2 with
  | some _ => .upsert
  | none => .delete

/-- `accumulate` (1332–1354) -/
def accumulate (bleca : BulkLedgerEntryChangeAccumulator) (c : EntryChange) :
    BulkLedgerEntryChangeAccumulator :=
  fun type kind =>
    if type = c.1.type ∧ kind = EntryChange.kind c then bleca type kind ++ [c]
    else bleca type kind

/-- Run a batch of statements on the tables. -/
def Database.run (d : Database) (l : List EntryChange) : Database where
  rows := l.foldl Overlay.change d.rows
  applied := d.applied ++ l

/-- `bulkUpsertAccounts` and its three siblings. -/
def bulkUpsert (entries : List EntryChange) : LtxM env Unit :=
  modify fun s => s.withDatabase (s.root.mDatabase.run entries)

/-- `bulkDeleteAccounts` and its three siblings: the number of deleted rows is
checked. -/
def bulkDelete (entries : List EntryChange) (cons : LedgerTxnConsistency) :
    LtxM env Unit := do
  let s ← get
  let deleted := entries.countP fun c => c.1 ∈ s.root.mDatabase.rows
  modify (Stack.withDatabase (s.root.mDatabase.run entries))
  if deleted ≠ entries.length ∧ cons = .EXACT then
    throw (.abort
      "fatal error during commit to LedgerTxnRoot: Could not update data in SQL")
  else pure ()

/-- The order in which `bulkApply` looks at the buffers (1356–1409). -/
def bulkOrder : List (LedgerEntryType × BulkKind) :=
  [(.ACCOUNT, .upsert), (.ACCOUNT, .delete), (.TRUSTLINE, .upsert),
    (.TRUSTLINE, .delete), (.OFFER, .upsert), (.OFFER, .delete),
    (.DATA, .upsert), (.DATA, .delete)]

/-- Empty one buffer. -/
def clearBuffer (bleca : BulkLedgerEntryChangeAccumulator)
    (b : LedgerEntryType × BulkKind) : BulkLedgerEntryChangeAccumulator :=
  fun type kind => if (type, kind) = b then [] else bleca type kind

/-- One paragraph of `bulkApply`: a buffer above the threshold is written and
cleared. -/
def bulkApplyBuffer (bufferThreshold : Nat) (cons : LedgerTxnConsistency)
    (b : LedgerEntryType × BulkKind)
    (bleca : BulkLedgerEntryChangeAccumulator) :
    LtxM env BulkLedgerEntryChangeAccumulator :=
  let entries := bleca b.1 b.2
  if entries.length > bufferThreshold then do
    match b.2 with
    | .upsert => bulkUpsert entries
    | .delete => bulkDelete entries cons
    pure (clearBuffer bleca b)
  else pure bleca

/-- The paragraphs of `bulkApply` for the given buffers. -/
def bulkApplyBuffers (bufferThreshold : Nat) (cons : LedgerTxnConsistency) :
    List (LedgerEntryType × BulkKind) → BulkLedgerEntryChangeAccumulator →
      LtxM env BulkLedgerEntryChangeAccumulator
  | [], bleca => pure bleca
  | b :: bs, bleca => do
    let bleca ← bulkApplyBuffer bufferThreshold cons b bleca
    bulkApplyBuffers bufferThreshold cons bs bleca

/-- `bulkApply` (1356–1409) -/
def bulkApply (bleca : BulkLedgerEntryChangeAccumulator)
    (bufferThreshold : Nat) (cons : LedgerTxnConsistency) :
    LtxM env BulkLedgerEntryChangeAccumulator :=
  bulkApplyBuffers bufferThreshold cons bulkOrder bleca

/-- `LEDGER_ENTRY_BATCH_COMMIT_SIZE` -/
def LEDGER_ENTRY_BATCH_COMMIT_SIZE : Nat := 0xfff

/-- The loop of `LedgerTxnRoot::Impl::commitChild` (1419–1428). The last
element flushes every buffer. -/
def rootCommitEntries (batchSize : Nat) (cons : LedgerTxnConsistency) :
    List EntryChange → BulkLedgerEntryChangeAccumulator → LtxM env Unit
  | [], _ => pure ()
  | c :: iter, bleca => do
    let bufferThreshold := if iter ≠ [] then batchSize else 0
    let bleca ← bulkApply (accumulate bleca c) bufferThreshold cons
    rootCommitEntries batchSize cons iter bleca

/-- `LedgerTxnRoot::Impl::commitChild` (1411–1452) -/
def rootCommitChild (batchSize : Nat) (childHeader : LedgerHeader)
    (iter : List EntryChange) (cons : LedgerTxnConsistency) : LtxM env Unit := do
  rootCommitEntries batchSize cons iter (fun _ _ => [])
  modify fun s =>
    { s with
      root :=
        { s.root with
          mBestOffersCache :=
            env.bestOffersCache.clear s.root.mBestOffersCache
          mEntryCache := env.entryCache.clear s.root.mEntryCache
          mHeader := childHeader } }

/-! ## Commit and rollback -/

/-- `commit` (216–225) and `LedgerTxn::commit`, which then drops the
transaction. -/
def commit (batchSize level : Nat) (o : IterationOrder) : LtxM env Unit := do
  let t ← getImpl level
  let entries := if t.mIsSealed then t.mEntry else maybeUpdateLastModified t
  -- a sealed transaction has no child either
  throwIfChild level
  let s ← get
  if level + 1 < s.txns.length then
    commitChild (level + 1) t.mHeader (o.order entries) t.mConsistency
  else rootCommitChild batchSize t.mHeader (o.order entries) t.mConsistency
  modify Stack.pop

/-- `rollback` (1117–1129): the children first. -/
def rollback : Nat → LtxM env Unit
  | 0 => do
    let _ ← getImpl 0
    modify Stack.pop
  | level + 1 => do
    let _ ← getImpl (level + 1)
    rollback level
    modify Stack.pop

/-! ## Sequences of calls -/

/-- A call on the transaction at a level. -/
inductive Op where
  | create (level : Nat) (entry : LedgerEntry)
  | createOrUpdateWithoutLoading (level : Nat) (entry : LedgerEntry)
  | erase (level : Nat) (key : LedgerKey)
  | eraseWithoutLoading (level : Nat) (key : LedgerKey)
  | load (level : Nat) (key : LedgerKey)
  | loadWithoutRecord (level : Nat) (key : LedgerKey)
  | getNewestVersion (level : Nat) (key : LedgerKey)
  | assignCurrent (level : Nat) (key : LedgerKey) (entry : LedgerEntry)
  | deactivateHandle (level : Nat) (key : LedgerKey)
  | eraseHandle (level : Nat) (key : LedgerKey)
  | loadHeader (level : Nat)
  | assignHeader (level : Nat) (header : LedgerHeader)
  | deactivateHeader (level : Nat)
  | openChild (level : Nat) (shouldUpdateLastModified : Bool)
  | sealTxn (level : Nat)
  | unsealHeader (level : Nat) (header : LedgerHeader)
  | commit (level : Nat) (order : IterationOrder)
  | rollback (level : Nat)

/-- Run one call, dropping what it returns. -/
def Op.run (batchSize : Nat) : Op → LtxM env Unit
  | .create level entry => Ledger.create level entry
  | .createOrUpdateWithoutLoading level entry =>
    Ledger.createOrUpdateWithoutLoading level entry
  | .erase level key => Ledger.erase level key
  | .eraseWithoutLoading level key => Ledger.eraseWithoutLoading level key
  | .load level key => do let _ ← Ledger.load level key
  | .loadWithoutRecord level key => do
    let _ ← Ledger.loadWithoutRecord level key
  | .getNewestVersion level key => do let _ ← Ledger.getNewestVersion level key
  | .assignCurrent level key entry => Ledger.assignCurrent level key entry
  | .deactivateHandle level key => Ledger.deactivateHandle level key
  | .eraseHandle level key => Ledger.eraseHandle level key
  | .loadHeader level => do let _ ← Ledger.loadHeader level
  | .assignHeader level h => Ledger.assignHeader level h
  | .deactivateHeader level => Ledger.deactivateHeader level
  | .openChild level update => Ledger.openChild level update
  | .sealTxn level => Ledger.sealTxn level
  | .unsealHeader level h => Ledger.unsealHeader level h
  | .commit level order => Ledger.commit batchSize level order
  | .rollback level => Ledger.rollback level

/-- Run the calls in order, up to the first that throws. -/
def runOps (batchSize : Nat) : List Op → LtxM env Unit
  | [] => pure ()
  | op :: ops => do
    op.run batchSize
    runOps batchSize ops

/-- A root over the given tables, with no transaction open and nothing
cached. -/
def Stack.initial (header : LedgerHeader) (rows : Table)
    (entryCache : env.entryCache.Store)
    (bestOffersCache : env.bestOffersCache.Store) : Stack env where
  txns := []
  root := { mHeader := header
            mDatabase := { rows := rows, applied := [] }
            mEntryCache := env.entryCache.clear entryCache
            mBestOffersCache := env.bestOffersCache.clear bestOffersCache }

end EssaCore.Ledger
