import EssaCore.Transactions.TransactionUtils

/-!
# Operations on trust lines

`transactions/ChangeTrustOpFrame.cpp` and `transactions/AllowTrustOpFrame.cpp`, with the
branches of protocol 10.
-/

namespace EssaCore.Transactions

open Ledger

/-- `ChangeTrustOp` -/
structure ChangeTrustOp where
  line : Asset
  limit : Int
  deriving DecidableEq, Repr

namespace ChangeTrustOp

/-- `doCheckValid` (129–151) -/
def doCheckValid (op : ChangeTrustOp) : Except InnerResultCode Unit :=
  if op.limit < 0 then throw .CHANGE_TRUST_MALFORMED
  else if isAssetValid op.line = false then throw .CHANGE_TRUST_MALFORMED
  else if op.line = .native then throw .CHANGE_TRUST_MALFORMED
  else pure ()

/-- Modify an old trust line (64–93). -/
def modifyLine (op : ChangeTrustOp) (sourceID : AccountID) (tl : TrustLineEntry) : TxM Unit := do
  failIf (op.limit < tl.getMinimumLimit) .CHANGE_TRUST_INVALID_LIMIT
  if op.limit = 0 then do
    eraseEntry (.trustLine sourceID op.line)
    let _ ← addNumEntries sourceID (-1)
    pure ()
  else do
    let issuer ← loadAccount (getIssuer op.line)
    failIf (issuer = none) .CHANGE_TRUST_NO_ISSUER
    store (.trustLine { tl with limit := op.limit })

/-- The new trust line (114–122) -/
def newLine (op : ChangeTrustOp) (sourceID : AccountID) (issuer : AccountEntry) :
    TrustLineEntry where
  accountID := sourceID
  asset := op.line
  balance := 0
  limit := op.limit
  flags := if issuer.isAuthRequired then 0 else AUTHORIZED_FLAG
  ext := none

/-- Create a trust line (94–126). -/
def createLine (op : ChangeTrustOp) (sourceID : AccountID) : TxM Unit := do
  failIf (op.limit = 0) .CHANGE_TRUST_INVALID_LIMIT
  let issuer ← loadAccount (getIssuer op.line)
  let issuer ← orFail .CHANGE_TRUST_NO_ISSUER issuer
  let ok ← addNumEntries sourceID 1
  failIf (ok = false) .CHANGE_TRUST_LOW_RESERVE
  create (.trustLine (op.newLine sourceID issuer))

/-- `doApply` (24–127) -/
def doApply (op : ChangeTrustOp) (sourceID : AccountID) : TxM Unit := do
  failIf (getIssuer op.line = sourceID) .CHANGE_TRUST_SELF_NOT_ALLOWED
  let s ← get
  match s.trustLine sourceID op.line with
  | some tl => op.modifyLine sourceID tl
  | none => op.createLine sourceID

end ChangeTrustOp

/-- The asset code of `AllowTrustOp`; its issuer is the source. -/
inductive AllowTrustAsset where
  | assetCode4 (code : Vector UInt8 4)
  | assetCode12 (code : Vector UInt8 12)
  deriving DecidableEq, Repr

/-- `AllowTrustOp` -/
structure AllowTrustOp where
  trustor : AccountID
  asset : AllowTrustAsset
  authorize : Bool
  deriving DecidableEq, Repr

namespace AllowTrustOp

/-- The asset of the operation (69–79) -/
def ci (op : AllowTrustOp) (sourceID : AccountID) : Asset :=
  match op.asset with
  | .assetCode4 code => .alphaNum4 code sourceID
  | .assetCode12 code => .alphaNum12 code sourceID

/-- `doCheckValid` (131–158) -/
def doCheckValid (op : AllowTrustOp) (sourceID : AccountID) : Except InnerResultCode Unit :=
  if isAssetValid (op.ci sourceID) = false then throw .ALLOW_TRUST_MALFORMED else pure ()

/-- `loadOffersByAccountAndAsset` -/
def offersByAccountAndAsset (s : LedgerState) (accountID : AccountID) (asset : Asset) :
    List OfferEntry :=
  s.offers.filter fun o => o.sellerID = accountID ∧ (o.buying = asset ∨ o.selling = asset)

/-- Delete an offer of the trustor (106–122). -/
def deleteOffer (trustor : AccountID) (ci : Asset) (offer : OfferEntry) : TxM Unit := do
  throwIf (offer.sellerID ≠ trustor) "Offer not owned by expected account"
  throwIf (¬ (offer.buying = ci ∨ offer.selling = ci)) "Offer not buying or selling expected asset"
  releaseLiabilities offer
  let _ ← addNumEntries trustor (-1)
  eraseEntry (.offer offer.sellerID offer.offerID)

/-- Delete the offers of the trustor one after the other. -/
def deleteOffers (trustor : AccountID) (ci : Asset) : List OfferEntry → TxM Unit
  | [] => pure ()
  | offer :: offers => do
    deleteOffer trustor ci offer
    deleteOffers trustor ci offers

/-- The source may authorize, and revoke (44–63). -/
def checkSource (op : AllowTrustOp) (sourceID : AccountID) : TxM Unit := do
  let sourceAccount ← loadAccount sourceID
  let sourceAccount ← current sourceAccount
  failIf (sourceAccount.flags &&& AUTH_REQUIRED_FLAG = 0) .ALLOW_TRUST_TRUST_NOT_REQUIRED
  failIf (sourceAccount.flags &&& AUTH_REVOCABLE_FLAG = 0 ∧ op.authorize = false)
    .ALLOW_TRUST_CANT_REVOKE

/-- Delete all offers of the trustor when the authorization is revoked (97–123). -/
def revokeOffers (op : AllowTrustOp) (ci : Asset) (trust : TrustLineEntry) : TxM Unit := do
  let s ← get
  if trust.isAuthorized = true ∧ op.authorize = false then
    deleteOffers op.trustor ci (offersByAccountAndAsset s op.trustor ci)
  else pure ()

/-- `doApply` (30–129) -/
def doApply (op : AllowTrustOp) (sourceID : AccountID) : TxM Unit := do
  failIf (op.trustor = sourceID) .ALLOW_TRUST_SELF_NOT_ALLOWED
  op.checkSource sourceID
  let ci := op.ci sourceID
  let s ← get
  let trust ← orFail .ALLOW_TRUST_NO_TRUST_LINE (s.trustLine op.trustor ci)
  op.revokeOffers ci trust
  let s ← get
  let trustLineEntry ← current (s.trustLine op.trustor ci)
  store (.trustLine (trustLineEntry.setAuthorized op.authorize))

end AllowTrustOp

end EssaCore.Transactions
