import EssaCore.Transactions.TransactionUtils

/-!
# Converting with offers

`transactions/OfferExchange.cpp` 600–613 and 913–1121: a buyer of wheat takes the best
offers one after the other, until the demand is met, an offer stays in the book, or the
filter stops.

- `TxEnv` — what transactions take from outside;
- `loadBestOffer` — the best offer for a pair of assets;
- `crossOfferV10` — take one offer, or a part of it;
- `convertWithOffers` — the loop.

What the source passes by reference is returned.
-/

namespace EssaCore.Transactions

open Ledger

/-- What transactions take from outside: the order on offers, which is computed with
floating-point prices, and the votes for inflation. -/
structure TxEnv where
  isBetterOffer : OfferEntry → OfferEntry → Bool
  queryInflationWinners : LedgerState → Nat → Int → List InflationWinner

/-- The better one of two offers -/
def betterOf (env : TxEnv) : Option OfferEntry → OfferEntry → Option OfferEntry
  | none, o => some o
  | some best, o => if env.isBetterOffer o best then some o else some best

/-- The offers that buy and sell given assets -/
def offersFor (s : LedgerState) (buying selling : Asset) : List OfferEntry :=
  s.offers.filter fun o => o.buying = buying && o.selling = selling

/-- The best offer that buys and sells given assets -/
def bestOffer (env : TxEnv) (s : LedgerState) (buying selling : Asset) : Option OfferEntry :=
  (offersFor s buying selling).foldl (betterOf env) none

/-- `LedgerTxn::loadBestOffer` -/
def loadBestOffer (env : TxEnv) (buying selling : Asset) : TxM (Option OfferEntry) := do
  let s ← get
  pure (bestOffer env s buying selling)

/-- What the seller of an offer can sell and buy at most, with the account and the lines as
they are in a state -/
def sellerLimits (s : LedgerState) (offer : OfferEntry) : Except TxError (Int × Int) :=
  match s.account offer.sellerID with
  | none => throw .assertion
  | some account => pure
      (canSellAtMost s.header account offer.selling
        (trustLineIfNotNative s offer.sellerID offer.selling),
      canBuyAtMost s.header account offer.buying
        (trustLineIfNotNative s offer.sellerID offer.buying))

/-- `adjustOffer(header, offer, account, wheat, wheatLine, sheep, sheepLine)` (600–613) -/
def adjustOfferEntry (offer : OfferEntry) : TxM Int := do
  let s ← get
  let limits ← lift (sellerLimits s offer)
  lift (adjustOffer offer.price (min offer.amount limits.1) limits.2)

/-- `ClaimOfferAtom`: what was bought from an offer, and what it was paid -/
structure ClaimOfferAtom where
  sellerID : AccountID
  offerID : Nat
  assetSold : Asset
  amountSold : Int
  assetBought : Asset
  amountBought : Int
  deriving DecidableEq, Repr

/-- What crossing one offer returns: the exchange, the entry for `offerTrail`, and whether the
result is `eOfferTaken`. -/
structure CrossOfferResult where
  numWheatReceived : Int
  numSheepSend : Int
  wheatStays : Bool
  claim : ClaimOfferAtom
  taken : Bool

/-- What is exchanged with an offer whose liabilities have been released (951–965) -/
def exchangeWithOffer (offer : OfferEntry) (maxWheatReceived maxSheepSend : Int)
    (isPathPayment : Bool) : TxM ExchangeResultV10 := do
  let s ← get
  let limits ← lift (sellerLimits s offer)
  lift (exchangeV10 offer.price (min offer.amount limits.1) maxWheatReceived maxSheepSend
    limits.2 isPathPayment)

/-- Add to what an account holds of an asset, if there is something to add. -/
def settle (id : AccountID) (asset : Asset) (delta : Int) (what : String) : TxM Unit :=
  if delta = 0 then pure ()
  else do
    let ok ← addBalanceTo id asset delta
    throwIf (ok = false) what

/-- The amount that stays in the book (998–1007) -/
def remainingAmount (offer : OfferEntry) (exchangeResult : ExchangeResultV10) : TxM Int :=
  if exchangeResult.wheatStays then
    adjustOfferEntry { offer with amount := offer.amount - exchangeResult.numWheatReceived }
  else pure 0

/-- Put back what stays in the book, or erase the offer (1009–1027). -/
def finishOffer (offer : OfferEntry) : TxM Unit :=
  if offer.amount = 0 then do
    eraseEntry (.offer offer.sellerID offer.offerID)
    let _ ← addNumEntries offer.sellerID (-1)
    pure ()
  else do
    store (.offer offer)
    acquireLiabilities offer

/-- `crossOfferV10` (913–1040) -/
def crossOfferV10 (offer : OfferEntry) (maxWheatReceived maxSheepSend : Int)
    (isPathPayment : Bool) : TxM CrossOfferResult := do
  lift (assert (0 < maxWheatReceived))
  lift (assert (0 < maxSheepSend))
  let account ← loadAccount offer.sellerID
  let _ ← orThrow "invalid database state: offer must have matching account" account
  releaseLiabilities offer
  let amount ← adjustOfferEntry offer
  let offer := { offer with amount := amount }
  let exchangeResult ← exchangeWithOffer offer maxWheatReceived maxSheepSend isPathPayment
  settle offer.sellerID offer.buying exchangeResult.numSheepSend "overflowed sheep balance"
  settle offer.sellerID offer.selling (-exchangeResult.numWheatReceived)
    "overflowed wheat balance"
  let amount ← remainingAmount offer exchangeResult
  finishOffer { offer with amount := amount }
  pure
    { numWheatReceived := exchangeResult.numWheatReceived
      numSheepSend := exchangeResult.numSheepSend
      wheatStays := exchangeResult.wheatStays
      claim := ⟨offer.sellerID, offer.offerID, offer.selling, exchangeResult.numWheatReceived,
        offer.buying, exchangeResult.numSheepSend⟩
      taken := amount = 0 }

/-- `OfferFilterResult`, with the result code that the filter sets -/
inductive OfferFilterResult where
  | eKeep
  | eStop (code : Option InnerResultCode)

/-- `ConvertResult`, with the result code that the filter sets -/
inductive ConvertResult where
  | eOK
  | ePartial
  | eFilterStop (code : Option InnerResultCode)
  deriving DecidableEq

/-- What `convertWithOffers` returns -/
structure Converted where
  result : ConvertResult
  sheepSend : Int
  wheatReceived : Int
  offerTrail : List ClaimOfferAtom

/-- The loop of `convertWithOffers`; more is needed when it is entered. `none` is a loop that
was cut off after a number of rounds. -/
def convertLoop (env : TxEnv) (sheep wheat : Asset) (isPathPayment : Bool)
    (filter : OfferEntry → Except TxError OfferFilterResult) :
    Nat → (maxSheepSend maxWheatReceive sheepSend wheatReceived : Int) →
      (offerTrail : List ClaimOfferAtom) → TxM (Option Converted)
  | 0, _, _, _, _, _ => pure none
  | fuel + 1, maxSheepSend, maxWheatReceive, sheepSend, wheatReceived, offerTrail => do
    let wheatOffer ← loadBestOffer env sheep wheat
    match wheatOffer with
    | none => pure (some ⟨.ePartial, sheepSend, wheatReceived, offerTrail⟩)
    | some offer => do
      let filtered ← lift (filter offer)
      match filtered with
      | .eStop code => pure (some ⟨.eFilterStop code, sheepSend, wheatReceived, offerTrail⟩)
      | .eKeep => do
        let r ← nested (crossOfferV10 offer maxWheatReceive maxSheepSend isPathPayment)
        lift (assert (0 ≤ r.numSheepSend ∧ r.numSheepSend ≤ maxSheepSend))
        lift (assert (0 ≤ r.numWheatReceived ∧ r.numWheatReceived ≤ maxWheatReceive))
        let sheepSend := sheepSend + r.numSheepSend
        let maxSheepSend := maxSheepSend - r.numSheepSend
        let wheatReceived := wheatReceived + r.numWheatReceived
        let maxWheatReceive := maxWheatReceive - r.numWheatReceived
        let offerTrail := offerTrail ++ [r.claim]
        if r.wheatStays ∨ ¬ (maxWheatReceive > 0 ∧ maxSheepSend > 0) then
          pure (some ⟨.eOK, sheepSend, wheatReceived, offerTrail⟩)
        else if r.taken = false then
          pure (some ⟨.ePartial, sheepSend, wheatReceived, offerTrail⟩)
        else
          convertLoop env sheep wheat isPathPayment filter fuel maxSheepSend
            maxWheatReceive sheepSend wheatReceived offerTrail

/-- `convertWithOffers` (1042–1120). A round that is not the last one erases an offer, so there
are enough rounds. -/
def convertWithOffers (env : TxEnv) (sheep : Asset) (maxSheepSend : Int) (wheat : Asset)
    (maxWheatReceive : Int) (isPathPayment : Bool)
    (filter : OfferEntry → Except TxError OfferFilterResult) : TxM Converted := do
  let s ← get
  if maxWheatReceive > 0 ∧ maxSheepSend > 0 then do
    let converted ← convertLoop env sheep wheat isPathPayment filter (s.offers.length + 1)
      maxSheepSend maxWheatReceive 0 0 []
    match converted with
    | some c => pure c
    | none => throw .outOfFuel
  else pure ⟨.eOK, 0, 0, []⟩

end EssaCore.Transactions
