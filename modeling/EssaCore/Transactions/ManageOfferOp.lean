import EssaCore.Transactions.ConvertWithOffers

/-!
# Offers

`transactions/ManageOfferOpFrame.cpp` and `transactions/CreatePassiveOfferOpFrame.cpp`, with
the branches of protocol 10: an offer that is changed is taken out of the book first; the new
one takes the offers it crosses, and what is left of it goes into the book.
-/

namespace EssaCore.Transactions

open Ledger

/-- `ManageOfferOp` -/
structure ManageOfferOp where
  selling : Asset
  buying : Asset
  amount : Int
  price : Price
  offerID : Nat
  deriving DecidableEq, Repr

/-- `operator>=` on prices (`util/types.cpp` 266–274) -/
def Price.ge (a b : Price) : Bool := a.n * b.d ≥ a.d * b.n

/-- `operator>` on prices (`util/types.cpp` 276–284) -/
def Price.gt (a b : Price) : Bool := a.n * b.d > a.d * b.n

/-- What a successful operation did with the offer -/
inductive ManageOfferEffect where
  | MANAGE_OFFER_CREATED (offer : OfferEntry)
  | MANAGE_OFFER_UPDATED (offer : OfferEntry)
  | MANAGE_OFFER_DELETED

/-- `ManageOfferSuccessResult` -/
structure ManageOfferSuccessResult where
  offersClaimed : List ClaimOfferAtom
  offer : ManageOfferEffect

namespace ManageOfferOp

/-- `doCheckValid` (389–424) -/
def doCheckValid (op : ManageOfferOp) : Except InnerResultCode Unit :=
  if isAssetValid op.selling = false ∨ isAssetValid op.buying = false then
    throw .MANAGE_OFFER_MALFORMED
  else if op.selling = op.buying then throw .MANAGE_OFFER_MALFORMED
  else if op.amount < 0 ∨ op.price.d ≤ 0 ∨ op.price.n ≤ 0 then throw .MANAGE_OFFER_MALFORMED
  else if op.offerID = 0 ∧ op.amount = 0 then throw .MANAGE_OFFER_NOT_FOUND
  else pure ()

/-- The source has what it sells, and may sell it (51–77). -/
def checkSelling (op : ManageOfferOp) (sourceID : AccountID) : TxM Unit :=
  if op.selling = .native then pure ()
  else do
    let sheepLineA ← loadTrustLine sourceID op.selling
    let issuer ← loadAccount (getIssuer op.selling)
    failIf (issuer = none) .MANAGE_OFFER_SELL_NO_ISSUER
    let sheepLineA ← orFail .MANAGE_OFFER_SELL_NO_TRUST sheepLineA
    failIf (sheepLineA.getBalance = 0) .MANAGE_OFFER_UNDERFUNDED
    failIf (sheepLineA.isAuthorized = false) .MANAGE_OFFER_SELL_NOT_AUTHORIZED

/-- The source can hold what it buys (79–99). -/
def checkBuying (op : ManageOfferOp) (sourceID : AccountID) : TxM Unit :=
  if op.buying = .native then pure ()
  else do
    let wheatLineA ← loadTrustLine sourceID op.buying
    let issuer ← loadAccount (getIssuer op.buying)
    failIf (issuer = none) .MANAGE_OFFER_BUY_NO_ISSUER
    let wheatLineA ← orFail .MANAGE_OFFER_BUY_NO_TRUST wheatLineA
    failIf (wheatLineA.isAuthorized = false) .MANAGE_OFFER_BUY_NOT_AUTHORIZED

/-- `checkOfferValid` (37–101) -/
def checkOfferValid (op : ManageOfferOp) (sourceID : AccountID) : TxM Unit :=
  if op.amount = 0 then pure ()
  else do
    op.checkSelling sourceID
    op.checkBuying sourceID

/-- `buildOffer` (426–438) -/
def buildOffer (account : AccountID) (op : ManageOfferOp) (flags : Nat) : OfferEntry where
  sellerID := account
  offerID := op.offerID
  selling := op.selling
  buying := op.buying
  amount := op.amount
  price := op.price
  flags := flags

/-- Take the offer that is modified out of the book, and build the new one (198–240). -/
def prepareOffer (op : ManageOfferOp) (sourceID : AccountID) (passive : Bool) :
    TxM OfferEntry :=
  if op.offerID = 0 then pure (buildOffer sourceID op (if passive then PASSIVE_FLAG else 0))
  else do
    let sellSheepOffer ← loadOffer sourceID op.offerID
    let sellSheepOffer ← orFail .MANAGE_OFFER_NOT_FOUND sellSheepOffer
    releaseLiabilities sellSheepOffer
    eraseEntry (.offer sourceID op.offerID)
    pure (buildOffer sourceID op sellSheepOffer.flags)

/-- The account that the limits are computed for: one that already has the entry of a new
offer (121–136) -/
def accountForLimits (header : LedgerHeader) (account : AccountEntry) (creatingNewOffer : Bool) :
    Except TxError AccountEntry :=
  if creatingNewOffer then do
    let account' ← account.addNumEntries header 1
    match account' with
    | some account' => pure account'
    | none => throw (.failed .MANAGE_OFFER_LOW_RESERVE)
  else pure account

/-- What is available of an asset that is received or sold: from the account, or from a trust
line that has to be there -/
def availableOf (asset : Asset) (line : Option TrustLineWrapper) (ofAccount : Int)
    (ofLine : TrustLineWrapper → Int) : Except TxError Int :=
  if asset = .native then pure ofAccount
  else match line with
    | some line => pure (ofLine line)
    | none => throw (.runtimeError "TrustLineWrapper not active")

/-- `computeOfferExchangeParameters` (102–178): how much sheep can be sent and how much wheat
received. -/
def computeOfferExchangeParameters (s : LedgerState) (offer : OfferEntry)
    (creatingNewOffer : Bool) : Except TxError (Int × Int) :=
  match s.account offer.sellerID with
  | none => throw .assertion
  | some account => do
    let account ← accountForLimits s.header account creatingNewOffer
    let sheepLineA := trustLineIfNotNative s offer.sellerID offer.selling
    let wheatLineA := trustLineIfNotNative s offer.sellerID offer.buying
    let availableLimit ← availableOf offer.buying wheatLineA
      (account.getMaxAmountReceive s.header) (·.getMaxAmountReceive)
    let buyingLiabilities ← getOfferBuyingLiabilities offer
    if availableLimit < buyingLiabilities then throw (.failed .MANAGE_OFFER_LINE_FULL)
    else do
      let availableBalance ← availableOf offer.selling sheepLineA
        (account.getAvailableBalance s.header) (·.getAvailableBalance)
      let sellingLiabilities ← getOfferSellingLiabilities offer
      if availableBalance < sellingLiabilities then throw (.failed .MANAGE_OFFER_UNDERFUNDED)
      else pure (min offer.amount (canSellAtMost s.header account offer.selling sheepLineA),
        canBuyAtMost s.header account offer.buying wheatLineA)

/-- The filter for offers (268–286): `o` is too expensive, or one of the source. -/
def offerFilter (newOffer : OfferEntry) (passive : Bool) (o : OfferEntry) :
    Except TxError OfferFilterResult := do
  let maxWheatPrice : Price := ⟨newOffer.price.d, newOffer.price.n⟩
  assert (o.offerID ≠ newOffer.offerID)
  if (passive ∧ Price.ge o.price maxWheatPrice) ∨ Price.gt o.price maxWheatPrice then
    pure (.eStop none)
  else if o.sellerID = newOffer.sellerID then pure (.eStop (some .MANAGE_OFFER_CROSS_SELF))
  else pure .eKeep

/-- `sheepStays` after a conversion (289–309) -/
def checkConverted : ConvertResult → TxM Bool
  | .eOK => pure false
  | .ePartial => pure true
  | .eFilterStop none => pure true
  | .eFilterStop (some code) => throw (.failed code)

/-- Settle what was traded with the source (317–357). -/
def settleSource (newOffer : OfferEntry) (c : Converted) : TxM Unit :=
  if c.wheatReceived > 0 then do
    let ok ← addBalanceTo newOffer.sellerID newOffer.buying c.wheatReceived
    throwIf (ok = false) "offer claimed over limit"
    let ok ← addBalanceTo newOffer.sellerID newOffer.selling (-c.sheepSend)
    throwIf (ok = false) "offer sold more than balance"
  else pure ()

/-- The amount of the new offer that stays (359–383) -/
def amountLeft (newOffer : OfferEntry) (sheepStays : Bool) : TxM Int :=
  if sheepStays then adjustOfferEntry newOffer else pure 0

/-- Take the offers that the new one crosses, and return what is left of it and which offers
were taken (244–384). -/
def crossOffers (env : TxEnv) (newOffer : OfferEntry) (creatingNewOffer : Bool) :
    TxM (Int × List ClaimOfferAtom) := do
  let s ← get
  let passive := newOffer.flags &&& PASSIVE_FLAG ≠ 0
  let limits ← lift (computeOfferExchangeParameters s newOffer creatingNewOffer)
  failIf (limits.2 = 0) .MANAGE_OFFER_LINE_FULL
  let c ← convertWithOffers env newOffer.selling limits.1 newOffer.buying limits.2 false
    (offerFilter newOffer passive)
  lift (assert (0 ≤ c.sheepSend))
  let sheepStays ← checkConverted c.result
  settleSource newOffer c
  let amount ← amountLeft { newOffer with amount := limits.1 - c.sheepSend } sheepStays
  pure (amount, c.offerTrail)

/-- Put a new offer into the book (388–408, 412–415). -/
def createNewOffer (newOffer : OfferEntry) : TxM ManageOfferEffect := do
  let ok ← addNumEntries newOffer.sellerID 1
  failIf (ok = false) .MANAGE_OFFER_LOW_RESERVE
  let offerID ← generateID
  let newOffer := { newOffer with offerID := offerID }
  create (.offer newOffer)
  acquireLiabilities newOffer
  pure (.MANAGE_OFFER_CREATED newOffer)

/-- Put a modified offer back into the book. -/
def updateOffer (newOffer : OfferEntry) : TxM ManageOfferEffect := do
  create (.offer newOffer)
  acquireLiabilities newOffer
  pure (.MANAGE_OFFER_UPDATED newOffer)

/-- Leave what is left of the new offer in the book (386–432). -/
def leaveOffer (newOffer : OfferEntry) (creatingNewOffer : Bool) : TxM ManageOfferEffect :=
  if newOffer.amount > 0 then
    if creatingNewOffer then createNewOffer newOffer else updateOffer newOffer
  else if creatingNewOffer then pure .MANAGE_OFFER_DELETED
  else do
    let _ ← addNumEntries newOffer.sellerID (-1)
    pure .MANAGE_OFFER_DELETED

/-- `doApply` (184–387) -/
def doApply (env : TxEnv) (op : ManageOfferOp) (sourceID : AccountID) (passive : Bool) :
    TxM ManageOfferSuccessResult := nested do
  op.checkOfferValid sourceID
  let newOffer ← op.prepareOffer sourceID passive
  let creatingNewOffer : Bool := op.offerID = 0
  let crossed ← if op.amount > 0 then crossOffers env newOffer creatingNewOffer
    else pure (newOffer.amount, [])
  let offer ← leaveOffer { newOffer with amount := crossed.1 } creatingNewOffer
  pure ⟨crossed.2, offer⟩

end ManageOfferOp

/-- `CreatePassiveOfferOp` -/
structure CreatePassiveOfferOp where
  selling : Asset
  buying : Asset
  amount : Int
  price : Price
  deriving DecidableEq, Repr

/-- `ManageOfferOpHolder`: the operation that creates the offer -/
def CreatePassiveOfferOp.manageOffer (op : CreatePassiveOfferOp) : ManageOfferOp where
  selling := op.selling
  buying := op.buying
  amount := op.amount
  price := op.price
  offerID := 0

end EssaCore.Transactions
