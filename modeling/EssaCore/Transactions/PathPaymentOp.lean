import EssaCore.Transactions.ConvertWithOffers

/-!
# Payments

`transactions/PathPaymentOpFrame.cpp` and `transactions/PaymentOpFrame.cpp`: the destination
is credited, the path is walked back to the asset that is sent, and the source is debited
what the first exchange of the path takes. A payment is a path payment without a path.

The result of a path payment keeps the offers that were taken; `noIssuer` is left out.
-/

namespace EssaCore.Transactions

open Ledger

/-- `PathPaymentOp` -/
structure PathPaymentOp where
  sendAsset : Asset
  sendMax : Int
  destination : AccountID
  destAsset : Asset
  destAmount : Int
  path : List Asset
  deriving DecidableEq, Repr

namespace PathPaymentOp

/-- `doCheckValid` (239–262) -/
def doCheckValid (op : PathPaymentOp) : Except InnerResultCode Unit :=
  if op.destAmount ≤ 0 ∨ op.sendMax ≤ 0 then throw .PATH_PAYMENT_MALFORMED
  else if isAssetValid op.sendAsset = false ∨ isAssetValid op.destAsset = false then
    throw .PATH_PAYMENT_MALFORMED
  else if op.path.all isAssetValid = false then throw .PATH_PAYMENT_MALFORMED
  else pure ()

/-- The payment sends credits back to their issuer. -/
def bypassIssuerCheck (op : PathPaymentOp) : Bool :=
  op.destAsset ≠ .native ∧ (op.sendAsset :: op.path).length = 1 ∧ op.sendAsset = op.destAsset ∧
    getIssuer op.destAsset = op.destination

/-- Update the last balance in the chain (66–113). -/
def creditDestination (op : PathPaymentOp) : TxM Unit := do
  let destination ← loadAccount op.destination
  failIf (op.bypassIssuerCheck = false ∧ destination = none) .PATH_PAYMENT_NO_DESTINATION
  if op.destAsset = .native then do
    let ok ← addAccountBalance op.destination op.destAmount
    failIf (ok = false) .PATH_PAYMENT_MALFORMED
  else do
    let issuer ← loadAccount (getIssuer op.destAsset)
    failIf (op.bypassIssuerCheck = false ∧ issuer = none) .PATH_PAYMENT_NO_ISSUER
    let destLine ← loadTrustLine op.destination op.destAsset
    let destLine ← orFail .PATH_PAYMENT_NO_TRUST destLine
    failIf (destLine.isAuthorized = false) .PATH_PAYMENT_NOT_AUTHORIZED
    let ok ← addTrustLineBalance op.destination op.destAsset op.destAmount
    failIf (ok = false) .PATH_PAYMENT_LINE_FULL

/-- The filter for offers: the source does not take its own (141–150). -/
def offerFilter (sourceID : AccountID) (offer : OfferEntry) :
    Except TxError OfferFilterResult :=
  if offer.sellerID = sourceID then pure (.eStop (some .PATH_PAYMENT_OFFER_CROSS_SELF))
  else pure .eKeep

/-- A conversion has to deliver what is needed (155–168). -/
def checkConverted (curBReceived : Int) (c : Converted) : TxM Unit :=
  match c.result with
  | .eFilterStop code => throw (.failed (code.getD .PATH_PAYMENT_OFFER_CROSS_SELF))
  | .eOK => failIf (curBReceived ≠ c.wheatReceived) .PATH_PAYMENT_TOO_FEW_OFFERS
  | .ePartial => throw (.failed .PATH_PAYMENT_TOO_FEW_OFFERS)

/-- What walking the path has come to: the asset and the amount that are needed next, and the
offers that got taken on the way, in the order of the path -/
structure Walked where
  curB : Asset
  curBReceived : Int
  offers : List ClaimOfferAtom

/-- Walk the path backwards (119–180); the list holds the assets that are still to come. -/
def walkPath (env : TxEnv) (sourceID : AccountID) : List Asset → Walked → TxM Walked
  | [], w => pure w
  | curA :: path, w =>
    if curA = w.curB then walkPath env sourceID path w
    else do
      let issuer ← loadAccount (getIssuer curA)
      failIf (curA ≠ .native ∧ issuer = none) .PATH_PAYMENT_NO_ISSUER
      let c ← convertWithOffers env curA INT64_MAX w.curB w.curBReceived true
        (offerFilter sourceID)
      lift (assert (0 ≤ c.sheepSend))
      checkConverted w.curBReceived c
      lift (assert (w.curBReceived = c.wheatReceived))
      walkPath env sourceID path ⟨curA, c.sheepSend, c.offerTrail ++ w.offers⟩

/-- Update the balance of the first account in the chain (184–235). -/
def debitSource (op : PathPaymentOp) (sourceID : AccountID) (w : Walked) : TxM Unit := do
  failIf (w.curBReceived > op.sendMax) .PATH_PAYMENT_OVER_SENDMAX
  if w.curB = .native then do
    let header ← loadHeader
    let sourceAccount ← loadAccount sourceID
    let sourceAccount ← orFail .PATH_PAYMENT_MALFORMED sourceAccount
    failIf (w.curBReceived > sourceAccount.getAvailableBalance header) .PATH_PAYMENT_UNDERFUNDED
    let ok ← addAccountBalance sourceID (-w.curBReceived)
    lift (assert (ok = true))
  else do
    let issuer ← loadAccount (getIssuer w.curB)
    failIf (op.bypassIssuerCheck = false ∧ issuer = none) .PATH_PAYMENT_NO_ISSUER
    let sourceLine ← loadTrustLine sourceID w.curB
    let sourceLine ← orFail .PATH_PAYMENT_SRC_NO_TRUST sourceLine
    failIf (sourceLine.isAuthorized = false) .PATH_PAYMENT_SRC_NOT_AUTHORIZED
    let ok ← addTrustLineBalance sourceID w.curB (-w.curBReceived)
    failIf (ok = false) .PATH_PAYMENT_UNDERFUNDED

/-- `doApply` (33–236) -/
def doApply (env : TxEnv) (op : PathPaymentOp) (sourceID : AccountID) : TxM Walked := do
  op.creditDestination
  let w ← walkPath env sourceID (op.sendAsset :: op.path).reverse ⟨op.destAsset, op.destAmount, []⟩
  op.debitSource sourceID w
  pure w

end PathPaymentOp

/-- `PaymentOp` -/
structure PaymentOp where
  destination : AccountID
  asset : Asset
  amount : Int
  deriving DecidableEq, Repr

namespace PaymentOp

/-- `doCheckValid` (112–125) -/
def doCheckValid (op : PaymentOp) : Except InnerResultCode Unit :=
  if op.amount ≤ 0 then throw .PAYMENT_MALFORMED
  else if isAssetValid op.asset = false then throw .PAYMENT_MALFORMED
  else pure ()

/-- The path payment that a payment stands for (48–60) -/
def pathPayment (op : PaymentOp) : PathPaymentOp where
  sendAsset := op.asset
  sendMax := op.amount
  destination := op.destination
  destAsset := op.asset
  destAmount := op.amount
  path := []

/-- The result code for one of the path payment (76–103) -/
def resultCode : InnerResultCode → TxError
  | .PATH_PAYMENT_UNDERFUNDED => .failed .PAYMENT_UNDERFUNDED
  | .PATH_PAYMENT_SRC_NOT_AUTHORIZED => .failed .PAYMENT_SRC_NOT_AUTHORIZED
  | .PATH_PAYMENT_SRC_NO_TRUST => .failed .PAYMENT_SRC_NO_TRUST
  | .PATH_PAYMENT_NO_DESTINATION => .failed .PAYMENT_NO_DESTINATION
  | .PATH_PAYMENT_NO_TRUST => .failed .PAYMENT_NO_TRUST
  | .PATH_PAYMENT_NOT_AUTHORIZED => .failed .PAYMENT_NOT_AUTHORIZED
  | .PATH_PAYMENT_LINE_FULL => .failed .PAYMENT_LINE_FULL
  | .PATH_PAYMENT_NO_ISSUER => .failed .PAYMENT_NO_ISSUER
  | _ => .runtimeError "Unexpected error code from pathPayment"

/-- Translate the result code of a call that fails. -/
def mapResultCode {α : Type} (f : InnerResultCode → TxError) (x : TxM α) : TxM α := fun s =>
  match x s with
  | .ok a s' => .ok a s'
  | .error (.failed code) s' => .error (f code) s'
  | .error e s' => .error e s'

/-- A check that fails is a call that fails. -/
def checked : Except InnerResultCode Unit → TxM Unit
  | .ok () => pure ()
  | .error code => throw (.failed code)

/-- `doApply` (29–110) -/
def doApply (env : TxEnv) (op : PaymentOp) (sourceID : AccountID) : TxM Unit :=
  if op.destination = sourceID ∧ op.asset = .native then pure ()
  else mapResultCode resultCode do
    checked op.pathPayment.doCheckValid
    let _ ← op.pathPayment.doApply env sourceID

end PaymentOp

end EssaCore.Transactions
