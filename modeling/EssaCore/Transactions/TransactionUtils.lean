import EssaCore.Transactions.OfferExchange

/-!
# Reading and changing accounts, trust lines and offers

`transactions/TransactionUtils.cpp`, `ledger/TrustLineWrapper.cpp` and the limits of
`transactions/OfferExchange.cpp` 20–110: balances move and liabilities are taken up
and released, within what reserve, limit and liabilities leave.

- `AccountEntry.addBalance`, `TrustLineEntry.addBalance`, ... — on one entry;
- `loadAccount`, `loadTrustLine`, `create`, ... — on the ledger;
- `addBalanceTo` and its like — on what an account holds of an asset, which is its own
  entry, a trust line or, for its issuer, nothing;
- `acquireLiabilities`, `releaseLiabilities` — for an offer;
- `canSellAtMost`, `canBuyAtMost` — the limits of an account.

Liabilities exist since protocol 10, and only what is called since then is here.
-/

namespace EssaCore.Transactions

open Ledger

/-! ## Numbers and assets -/

/-- The value of an `int64` sum -/
@[irreducible] def int64 (x : Int) : Int := Int.bmod x (2 ^ 64)

/-- `addBalance(balance, delta, maxBalance)` (`util/types.cpp`); `none` is `false`. -/
def addBalance (balance delta : Int) (maxBalance : Int) : Except TxError (Option Int) := do
  assert (0 ≤ balance)
  assert (0 ≤ maxBalance)
  if delta = 0 then pure (some balance)
  else if delta < -balance then pure none
  else if maxBalance - balance < delta then pure none
  else pure (some (balance + delta))

/-- `isalnum` in the classic locale -/
def isAlnum (b : UInt8) : Bool :=
  (48 ≤ b && b ≤ 57) || (65 ≤ b && b ≤ 90) || (97 ≤ b && b ≤ 122)

/-- The loop of `isAssetValid` over an asset code: its number of characters, if zeros are only
trailing and everything else is alphanumeric -/
def assetCodeLength : List UInt8 → (zeros : Bool) → (charcount : Nat) → Option Nat
  | [], _, charcount => some charcount
  | b :: code, zeros, charcount =>
    if b = 0 then assetCodeLength code true charcount
    else if zeros then none
    else if b > 0x7F ∨ isAlnum b = false then none
    else assetCodeLength code zeros (charcount + 1)

/-- `isAssetValid` (`util/types.cpp` 96–157) -/
def isAssetValid : Asset → Bool
  | .native => true
  | .alphaNum4 code _ => (assetCodeLength code.toList false 0).any (0 < ·)
  | .alphaNum12 code _ => (assetCodeLength code.toList false 0).any (4 < ·)

/-- `isString32Valid` (`util/types.cpp` 82–94) -/
def isString32Valid (str : String) : Bool :=
  str.toList.all fun c => decide (32 ≤ c.toNat) && decide (c.toNat < 127)

/-- How an amount of an entry is changed: nothing happens for a zero `delta` or when the change
is blocked, and otherwise the new amount has to be in range and accepted. -/
def addAmount {α : Type} (entry : α) (delta : Int) (blocked : Bool) (amount maxAmount : Int)
    (accept : Int → Option α) : Except TxError (Option α) :=
  if delta = 0 then pure (some entry)
  else if blocked then pure none
  else do
    let newAmount ← addBalance amount delta maxAmount
    pure (newAmount.bind accept)

/-- `getIssuer`; it is not called for the native asset. -/
def getIssuer : Asset → AccountID
  | .native => 0
  | .alphaNum4 _ issuer => issuer
  | .alphaNum12 _ issuer => issuer

/-- `getMinBalance` (493–501) -/
def getMinBalance (header : LedgerHeader) (ownerCount : Nat) : Int :=
  if header.ledgerVersion ≤ 8 then (((2 + ownerCount) * header.baseReserve) % 2 ^ 32 : Nat)
  else ((2 + ownerCount) % 2 ^ 32 : Nat) * header.baseReserve

/-- `getStartingSequenceNumber`, as the `int64` it is assigned to -/
def getStartingSequenceNumber (header : LedgerHeader) : SequenceNumber :=
  Int.bmod (header.ledgerSeq * 2 ^ 32) (2 ^ 64)

/-- `AUTHORIZED_FLAG` of a trust line -/
def AUTHORIZED_FLAG : Nat := 1

/-- The flags of an account -/
def AUTH_REQUIRED_FLAG : Nat := 1

def AUTH_REVOCABLE_FLAG : Nat := 2

def AUTH_IMMUTABLE_FLAG : Nat := 4

/-- `PASSIVE_FLAG` of an offer -/
def PASSIVE_FLAG : Nat := 1

/-! ## Accounts -/

end EssaCore.Transactions

namespace EssaCore.Ledger.AccountEntry

open Transactions

/-- `getBuyingLiabilities` -/
def getBuyingLiabilities (acc : AccountEntry) : Int := (acc.ext.map (·.buying)).getD 0

/-- `getSellingLiabilities` -/
def getSellingLiabilities (acc : AccountEntry) : Int := (acc.ext.map (·.selling)).getD 0

/-- Store buying liabilities. -/
def setBuying (acc : AccountEntry) (buying : Int) : AccountEntry :=
  { acc with ext := some ⟨buying, acc.getSellingLiabilities⟩ }

/-- Store selling liabilities. -/
def setSelling (acc : AccountEntry) (selling : Int) : AccountEntry :=
  { acc with ext := some ⟨acc.getBuyingLiabilities, selling⟩ }

/-- `getAvailableBalance` (403–434) -/
def getAvailableBalance (header : LedgerHeader) (acc : AccountEntry) : Int :=
  if header.ledgerVersion ≥ 10 then
    acc.balance - getMinBalance header acc.numSubEntries - acc.getSellingLiabilities
  else acc.balance - getMinBalance header acc.numSubEntries

/-- `getMaxAmountReceive` (467–478) -/
def getMaxAmountReceive (header : LedgerHeader) (acc : AccountEntry) : Int :=
  if header.ledgerVersion ≥ 10 then INT64_MAX - (acc.balance + acc.getBuyingLiabilities)
  else INT64_MAX

/-- The checks of `addBalance` since protocol 10 -/
def balanceAllowed (header : LedgerHeader) (acc : AccountEntry) (delta newBalance : Int) :
    Bool :=
  decide (header.ledgerVersion < 10) ||
    !(decide (delta < 0 ∧
        newBalance - getMinBalance header acc.numSubEntries < acc.getSellingLiabilities) ||
      decide (newBalance > INT64_MAX - acc.getBuyingLiabilities))

/-- `addBalance` (171–202) -/
def addBalance (header : LedgerHeader) (acc : AccountEntry) (delta : Int) :
    Except TxError (Option AccountEntry) :=
  addAmount acc delta false acc.balance INT64_MAX fun newBalance =>
    if acc.balanceAllowed header delta newBalance then some { acc with balance := newBalance }
    else none

/-- `addBuyingLiabilities` (239–265) -/
def addBuyingLiabilities (acc : AccountEntry) (delta : Int) :
    Except TxError (Option AccountEntry) :=
  addAmount acc delta false acc.getBuyingLiabilities (INT64_MAX - acc.balance) fun buyingLiab =>
    some (acc.setBuying buyingLiab)

/-- `addSellingLiabilities` (326–356) -/
def addSellingLiabilities (header : LedgerHeader) (acc : AccountEntry) (delta : Int) :
    Except TxError (Option AccountEntry) :=
  let maxLiabilities := acc.balance - getMinBalance header acc.numSubEntries
  addAmount acc delta (maxLiabilities < 0) acc.getSellingLiabilities maxLiabilities
    fun sellingLiab => some (acc.setSelling sellingLiab)

/-- The value of `newEntriesCount` in `addNumEntries`: an unsigned sum that is read as an
`int` -/
def newEntriesCount (acc : AccountEntry) (count : Int) : Int :=
  Int.bmod (acc.numSubEntries + count) (2 ^ 32)

/-- `addNumEntries` (297–322) -/
def addNumEntries (header : LedgerHeader) (acc : AccountEntry) (count : Int) :
    Except TxError (Option AccountEntry) :=
  if acc.newEntriesCount count < 0 then throw (.runtimeError "invalid account state")
  else if count > 0 ∧ acc.balance < int64 (getMinBalance header (acc.newEntriesCount count).toNat +
      (if header.ledgerVersion ≥ 10 then acc.getSellingLiabilities else 0)) then pure none
  else pure (some { acc with numSubEntries := (acc.newEntriesCount count).toNat })

/-- `isAuthRequired` -/
def isAuthRequired (acc : AccountEntry) : Bool := acc.flags &&& AUTH_REQUIRED_FLAG ≠ 0

/-- `isImmutableAuth` -/
def isImmutableAuth (acc : AccountEntry) : Bool := acc.flags &&& AUTH_IMMUTABLE_FLAG ≠ 0

end EssaCore.Ledger.AccountEntry

/-! ## Trust lines -/

namespace EssaCore.Ledger.TrustLineEntry

open Transactions

/-- `isAuthorized` -/
def isAuthorized (tl : TrustLineEntry) : Bool := tl.flags &&& AUTHORIZED_FLAG ≠ 0

/-- `setAuthorized` -/
def setAuthorized (tl : TrustLineEntry) (authorized : Bool) : TrustLineEntry :=
  { tl with flags := if authorized then tl.flags ||| AUTHORIZED_FLAG
      else tl.flags &&& (2 ^ 32 - 1 - AUTHORIZED_FLAG) }

/-- `getBuyingLiabilities` -/
def getBuyingLiabilities (tl : TrustLineEntry) : Int := (tl.ext.map (·.buying)).getD 0

/-- `getSellingLiabilities` -/
def getSellingLiabilities (tl : TrustLineEntry) : Int := (tl.ext.map (·.selling)).getD 0

/-- Store buying liabilities. -/
def setBuying (tl : TrustLineEntry) (buying : Int) : TrustLineEntry :=
  { tl with ext := some ⟨buying, tl.getSellingLiabilities⟩ }

/-- Store selling liabilities. -/
def setSelling (tl : TrustLineEntry) (selling : Int) : TrustLineEntry :=
  { tl with ext := some ⟨tl.getBuyingLiabilities, selling⟩ }

/-- `getAvailableBalance` -/
def getAvailableBalance (tl : TrustLineEntry) : Int := tl.balance - tl.getSellingLiabilities

/-- `getMaxAmountReceive` (479–491) -/
def getMaxAmountReceive (tl : TrustLineEntry) : Int :=
  if tl.isAuthorized then tl.limit - tl.balance - tl.getBuyingLiabilities else 0

/-- `getMinimumLimit` -/
def getMinimumLimit (tl : TrustLineEntry) : Int := tl.balance + tl.getBuyingLiabilities

/-- `addBalance` (203–234) -/
def addBalance (tl : TrustLineEntry) (delta : Int) : Except TxError (Option TrustLineEntry) :=
  addAmount tl delta (!tl.isAuthorized) tl.balance tl.limit fun newBalance =>
    if newBalance < tl.getSellingLiabilities ∨ newBalance > tl.limit - tl.getBuyingLiabilities then
      none
    else some { tl with balance := newBalance }

/-- `addBuyingLiabilities` (266–290) -/
def addBuyingLiabilities (tl : TrustLineEntry) (delta : Int) :
    Except TxError (Option TrustLineEntry) :=
  addAmount tl delta (!tl.isAuthorized) tl.getBuyingLiabilities (tl.limit - tl.balance)
    fun buyingLiab => some (tl.setBuying buyingLiab)

/-- `addSellingLiabilities` (357–379) -/
def addSellingLiabilities (tl : TrustLineEntry) (delta : Int) :
    Except TxError (Option TrustLineEntry) :=
  addAmount tl delta (!tl.isAuthorized) tl.getSellingLiabilities tl.balance fun sellingLiab =>
    some (tl.setSelling sellingLiab)

end EssaCore.Ledger.TrustLineEntry

/-! ## The ledger -/

namespace EssaCore.Transactions

open Ledger

/-- Set a result code and return `false` when a condition holds. -/
def failIf (cond : Prop) [Decidable cond] (code : InnerResultCode) : TxM Unit :=
  if cond then throw (.failed code) else pure ()

/-- Throw a `std::runtime_error` when a condition holds. -/
def throwIf (cond : Prop) [Decidable cond] (what : String) : TxM Unit :=
  if cond then throw (.runtimeError what) else pure ()

/-- `loadHeader` -/
def loadHeader : TxM LedgerHeader := do
  let s ← get
  pure s.header

/-- Write the header. -/
def storeHeader (header : LedgerHeader) : TxM Unit := modify (LedgerState.setHeader header)

/-- Write an entry through its handle. -/
def store (d : LedgerEntryData) : TxM Unit := modify (LedgerState.put d)

/-- `LedgerTxnEntry::erase` -/
def eraseEntry (k : LedgerKey) : TxM Unit := modify (LedgerState.erase k)

/-- `LedgerTxn::create` -/
def create (d : LedgerEntryData) : TxM Unit := do
  let s ← get
  throwIf (s.lookup d.key ≠ none) "Key already exists"
  store d

/-- `loadAccount` -/
def loadAccount (id : AccountID) : TxM (Option AccountEntry) := do
  let s ← get
  pure (s.account id)

/-- `loadOffer` -/
def loadOffer (sellerID : AccountID) (offerID : Nat) : TxM (Option OfferEntry) := do
  let s ← get
  pure (s.offer sellerID offerID)

/-- `loadData` -/
def loadData (id : AccountID) (dataName : String) : TxM (Option DataEntry) := do
  let s ← get
  pure (s.data id dataName)

/-- The entry that is there, or the use of a null one -/
def current {α : Type} : Option α → TxM α
  | some a => pure a
  | none => throw .assertion

/-- The entry that is there, or a result code -/
def orFail {α : Type} (code : InnerResultCode) : Option α → TxM α
  | some a => pure a
  | none => throw (.failed code)

/-- The entry that is there, or an exception -/
def orThrow {α : Type} (what : String) : Option α → TxM α
  | some a => pure a
  | none => throw (.runtimeError what)

/-- What an account holds a trust line for: its issuer needs none. -/
inductive TrustLineWrapper where
  | issuer
  | nonIssuer (tl : TrustLineEntry)

namespace TrustLineWrapper

def getBalance : TrustLineWrapper → Int
  | issuer => INT64_MAX
  | nonIssuer tl => tl.balance

def isAuthorized : TrustLineWrapper → Bool
  | issuer => true
  | nonIssuer tl => tl.isAuthorized

def getAvailableBalance : TrustLineWrapper → Int
  | issuer => INT64_MAX
  | nonIssuer tl => tl.getAvailableBalance

def getMaxAmountReceive : TrustLineWrapper → Int
  | issuer => INT64_MAX
  | nonIssuer tl => tl.getMaxAmountReceive

end TrustLineWrapper

/-- The trust line of an account for an asset that is not native -/
def trustLineOf (s : LedgerState) (id : AccountID) (asset : Asset) : Option TrustLineWrapper :=
  if getIssuer asset = id then some .issuer else (s.trustLine id asset).map .nonIssuer

/-- `loadTrustLine` -/
def loadTrustLine (id : AccountID) (asset : Asset) : TxM (Option TrustLineWrapper) := do
  throwIf (asset = .native) "trustline for native asset"
  let s ← get
  pure (trustLineOf s id asset)

/-- The trust line of an account for an asset, unless that is native -/
def trustLineIfNotNative (s : LedgerState) (id : AccountID) (asset : Asset) :
    Option TrustLineWrapper :=
  if asset = .native then none else trustLineOf s id asset

/-! ### Changes of one entry -/

/-- Write the account that a call has computed, if it did not return `false`. -/
def storeAccount (acc : Option AccountEntry) : TxM Bool :=
  match acc with
  | some acc => do
    store (.account acc)
    pure true
  | none => pure false

/-- Write the trust line that a call has computed, if it did not return `false`. -/
def storeTrustLine (tl : Option TrustLineEntry) : TxM Bool :=
  match tl with
  | some tl => do
    store (.trustLine tl)
    pure true
  | none => pure false

/-- Call a function of `TrustLineWrapper` that changes the trust line. -/
def TrustLineWrapper.change (f : TrustLineEntry → Except TxError (Option TrustLineEntry)) :
    TrustLineWrapper → TxM Bool
  | issuer => pure true
  | nonIssuer tl => do
    let tl' ← lift (f tl)
    storeTrustLine tl'

/-- `addNumEntries` -/
def addNumEntries (id : AccountID) (count : Int) : TxM Bool := do
  let header ← loadHeader
  let account ← loadAccount id
  let acc ← current account
  let acc' ← lift (acc.addNumEntries header count)
  storeAccount acc'

/-- `addBalance` on an account -/
def addAccountBalance (id : AccountID) (delta : Int) : TxM Bool := do
  let header ← loadHeader
  let account ← loadAccount id
  let acc ← current account
  let acc' ← lift (acc.addBalance header delta)
  storeAccount acc'

/-- `TrustLineWrapper::addBalance` on the trust line of an account; the wrapper has to be
active. -/
def addTrustLineBalance (id : AccountID) (asset : Asset) (delta : Int) : TxM Bool := do
  let line ← loadTrustLine id asset
  let line ← orThrow "TrustLineWrapper not active" line
  line.change (·.addBalance delta)

/-- `addBalance` on what an account holds of an asset -/
def addBalanceTo (id : AccountID) (asset : Asset) (delta : Int) : TxM Bool :=
  if asset = .native then addAccountBalance id delta else addTrustLineBalance id asset delta

/-! ### Liabilities -/

/-- The amounts of an offer that a buyer without limits would take -/
def offerExchange (o : OfferEntry) : Except TxError ExchangeResultV10 :=
  exchangeV10WithoutPriceErrorThresholds o.price o.amount INT64_MAX INT64_MAX INT64_MAX false

/-- `getOfferBuyingLiabilities` (526–539) -/
def getOfferBuyingLiabilities (o : OfferEntry) : Except TxError Int := do
  let res ← offerExchange o
  pure res.numSheepSend

/-- `getOfferSellingLiabilities` (548–561) -/
def getOfferSellingLiabilities (o : OfferEntry) : Except TxError Int := do
  let res ← offerExchange o
  pure res.numWheatReceived

/-- `addBuyingLiabilities` on what an account holds of an asset, as
`acquireOrReleaseLiabilities` calls it -/
def addBuyingLiabilitiesTo (id : AccountID) (asset : Asset) (delta : Int) : TxM Bool :=
  if asset = .native then do
    let account ← loadAccount id
    let acc ← orThrow "account does not exist" account
    let acc' ← lift (acc.addBuyingLiabilities delta)
    storeAccount acc'
  else do
    let line ← loadTrustLine id asset
    let line ← orThrow "trustline does not exist" line
    line.change (·.addBuyingLiabilities delta)

/-- `addSellingLiabilities`, likewise -/
def addSellingLiabilitiesTo (id : AccountID) (asset : Asset) (delta : Int) : TxM Bool :=
  if asset = .native then do
    let header ← loadHeader
    let account ← loadAccount id
    let acc ← orThrow "account does not exist" account
    let acc' ← lift (acc.addSellingLiabilities header delta)
    storeAccount acc'
  else do
    let line ← loadTrustLine id asset
    let line ← orThrow "trustline does not exist" line
    line.change (·.addSellingLiabilities delta)

/-- `acquireOrReleaseLiabilities` (90–161) -/
def acquireOrReleaseLiabilities (offer : OfferEntry) (isAcquire : Bool) : TxM Unit := do
  throwIf (offer.buying = offer.selling) "buying and selling same asset"
  let buyingLiabilities ← lift (getOfferBuyingLiabilities offer)
  let ok ← addBuyingLiabilitiesTo offer.sellerID offer.buying
    (if isAcquire then buyingLiabilities else -buyingLiabilities)
  throwIf (ok = false) "could not add buying liabilities"
  let sellingLiabilities ← lift (getOfferSellingLiabilities offer)
  let ok ← addSellingLiabilitiesTo offer.sellerID offer.selling
    (if isAcquire then sellingLiabilities else -sellingLiabilities)
  throwIf (ok = false) "could not add selling liabilities"

/-- `acquireLiabilities` -/
def acquireLiabilities (offer : OfferEntry) : TxM Unit := acquireOrReleaseLiabilities offer true

/-- `releaseLiabilities` -/
def releaseLiabilities (offer : OfferEntry) : TxM Unit := acquireOrReleaseLiabilities offer false

/-! ### Limits -/

/-- `canSellAtMost` (`OfferExchange.cpp` 43–59) -/
def canSellAtMost (header : LedgerHeader) (account : AccountEntry) (asset : Asset)
    (trustLine : Option TrustLineWrapper) : Int :=
  if asset = .native then max (account.getAvailableBalance header) 0
  else match trustLine with
    | some line => if line.isAuthorized then max line.getAvailableBalance 0 else 0
    | none => 0

/-- `canBuyAtMost` (`OfferExchange.cpp` 79–93) -/
def canBuyAtMost (header : LedgerHeader) (account : AccountEntry) (asset : Asset)
    (trustLine : Option TrustLineWrapper) : Int :=
  if asset = .native then max (account.getMaxAmountReceive header) 0
  else match trustLine with
    | some line => max line.getMaxAmountReceive 0
    | none => 0

/-- `generateID` -/
def generateID : TxM Nat := do
  let header ← loadHeader
  let idPool := (header.idPool + 1) % 2 ^ 64
  storeHeader { header with idPool := idPool }
  pure idPool

end EssaCore.Transactions
