import EssaCore.Transactions.Operation
import EssaCore.Transactions.LedgerChanges

/-!
# Exceptions

Calls that do not count sub-entries throw no exception about them. All of this is read off the
code, one former after the other: the rules are in the simp set.

- `Harmless` — any exception but that of `addNumEntries`;
- `FailsIn Harmless`, `HaltsIn Harmless` — calls that throw no other one.
-/

namespace EssaCore.Transactions

open Ledger Lib AccountEntry

/-- Any exception but the one of `addNumEntries` -/
def Harmless (e : TxError) : Prop := e ≠ .runtimeError "invalid account state"

@[simp] theorem harmless_failed (code : InnerResultCode) : Harmless (.failed code) := nofun

@[simp] theorem harmless_assertion : Harmless .assertion := nofun

@[simp] theorem harmless_outOfFuel : Harmless .outOfFuel := nofun

@[simp] theorem harmless_runtimeError {what : String} :
    Harmless (.runtimeError what) ↔ what ≠ "invalid account state" := by
  simp [Harmless]

/-! ## Numbers -/

section Numbers

variable {price : Price} {isPathPayment : Bool}

@[simp] theorem assert_harmless {cond : Prop} [Decidable cond] :
    FailsIn Harmless (assert cond) := by
  simp [assert, failsIn_ite]

@[simp] theorem addAmount_harmless {α : Type} {entry : α} {delta : Int} {blocked : Bool}
    {amount maxAmount : Int} {accept : Int → Option α} :
    FailsIn Harmless (addAmount entry delta blocked amount maxAmount accept) := by
  simp only [addAmount, addBalance, failsIn_ite, failsIn_bind, failsIn_pure, assert_harmless,
    implies_true, and_true]

@[simp] theorem checkQuotient_harmless {x : Int} : FailsIn Harmless (checkQuotient x) := by
  simp [checkQuotient, failsIn_ite]

@[simp] theorem bigDivide_harmless {A B C : Int} {rounding : Rounding} :
    FailsIn Harmless (bigDivide A B C rounding) := by
  simp [bigDivide, failsIn_bind]

@[simp] theorem bigDivide128_harmless {a B : Int} {rounding : Rounding} :
    FailsIn Harmless (bigDivide128 a B rounding) := by
  simp [bigDivide128, failsIn_bind, failsIn_ite]

@[simp] theorem bigMultiply_harmless {a b : Int} : FailsIn Harmless (bigMultiply a b) := by
  simp only [bigMultiply, failsIn_bind, assert_harmless, failsIn_pure, implies_true, and_true]

@[simp] theorem exchangeAmounts_harmless {wheatValue sheepValue : Int} :
    FailsIn Harmless (exchangeAmounts price wheatValue sheepValue isPathPayment) := by
  simp only [exchangeAmounts, failsIn_ite, failsIn_bind, failsIn_pure, bigDivide128_harmless,
    bigDivide_harmless, implies_true, and_true]

variable {maxWheatSend : Int}

@[simp] theorem exchange_harmless {maxWheatReceive maxSheepSend
    maxSheepReceive : Int} : FailsIn Harmless (exchangeV10WithoutPriceErrorThresholds price
      maxWheatSend maxWheatReceive maxSheepSend maxSheepReceive isPathPayment) := by
  simp only [exchangeV10WithoutPriceErrorThresholds, calculateOfferValue, failsIn_ite, failsIn_bind,
    exchangeAmounts_harmless]
  simp

@[simp] theorem checkPriceErrorBound_harmless {wheatReceive sheepSend : Int}
    {canFavorWheat : Bool} :
    FailsIn Harmless (checkPriceErrorBound price wheatReceive sheepSend canFavorWheat) := by
  simp only [checkPriceErrorBound, failsIn_bind, failsIn_pure, bigMultiply_harmless, implies_true,
    and_true]

@[simp] theorem exchangeV10_harmless {maxWheatReceive maxSheepSend
    maxSheepReceive : Int} : FailsIn Harmless (exchangeV10 price maxWheatSend maxWheatReceive
      maxSheepSend maxSheepReceive isPathPayment) := by
  simp only [exchangeV10, applyPriceErrorThresholds, applyThresholds, failsIn_ite, failsIn_bind,
    checkPriceErrorBound_harmless]
  simp

@[simp] theorem adjustOffer_harmless {maxSheepReceive : Int} :
    FailsIn Harmless (adjustOffer price maxWheatSend maxSheepReceive) := by
  simp only [adjustOffer, failsIn_bind, failsIn_pure, exchangeV10_harmless, implies_true, and_true]

end Numbers

/-! ## Calls -/

section Calls

variable {id : AccountID} {asset : Asset} {delta : Int} {o : OfferEntry}

theorem wp_lift_harmless {α : Type} {x : Except TxError α} {Q : α → LedgerState → Prop}
    {s : LedgerState} : wp (lift x) Q (fun e _ => Harmless e) s ↔
      (∀ a, x = .ok a → Q a s) ∧ FailsIn Harmless x := wp_lift

theorem storeAccount_harmless {acc : Option AccountEntry} :
    HaltsIn Harmless (storeAccount acc) := by
  intro s
  cases acc <;> trivial

theorem storeTrustLine_harmless {tl : Option TrustLineEntry} :
    HaltsIn Harmless (storeTrustLine tl) := by
  intro s
  cases tl <;> trivial

theorem addAccountBalance_harmless : HaltsIn Harmless (addAccountBalance id delta) := by
  intro s
  simp only [addAccountBalance, AccountEntry.addBalance, wp_bind, wp_loadHeader, wp_loadAccount,
    wp_current, wp_lift_harmless, addAmount_harmless, storeAccount_harmless.wp_iff,
    harmless_assertion, implies_true, and_true]

theorem change_harmless {line : TrustLineWrapper}
    {f : TrustLineEntry → Except TxError (Option TrustLineEntry)}
    (h : ∀ tl, FailsIn Harmless (f tl)) : HaltsIn Harmless (line.change f) := by
  intro s
  cases line with
  | issuer => trivial
  | nonIssuer tl =>
    simp only [TrustLineWrapper.change, wp_bind, wp_lift_harmless, storeTrustLine_harmless.wp_iff,
      h, implies_true, and_true]

theorem loadTrustLine_harmless : HaltsIn Harmless (loadTrustLine id asset) := by
  intro s
  simp

theorem addTrustLineBalance_harmless : HaltsIn Harmless (addTrustLineBalance id asset delta) := by
  intro s
  have hchange (line : TrustLineWrapper) : HaltsIn Harmless (line.change (·.addBalance delta)) :=
    change_harmless fun _ => addAmount_harmless
  simp only [addTrustLineBalance, wp_bind, (hchange _).wp_iff]
  simp

theorem addBalanceTo_harmless : HaltsIn Harmless (addBalanceTo id asset delta) :=
  HaltsIn.ite (fun _ => addAccountBalance_harmless) fun _ => addTrustLineBalance_harmless

theorem addBuyingLiabilitiesTo_harmless :
    HaltsIn Harmless (addBuyingLiabilitiesTo id asset delta) := by
  have hchange (line : TrustLineWrapper) :
      HaltsIn Harmless (line.change (·.addBuyingLiabilities delta)) :=
    change_harmless fun _ => addAmount_harmless
  refine HaltsIn.ite (fun _ s => ?_) fun _ s => ?_
  · simp only [addBuyingLiabilities, wp_bind, wp_lift_harmless,
    storeAccount_harmless.wp_iff]
    simp
  · simp only [wp_bind, (hchange _).wp_iff]
    simp

theorem addSellingLiabilitiesTo_harmless :
    HaltsIn Harmless (addSellingLiabilitiesTo id asset delta) := by
  have hchange (line : TrustLineWrapper) :
      HaltsIn Harmless (line.change (·.addSellingLiabilities delta)) :=
    change_harmless fun _ => addAmount_harmless
  refine HaltsIn.ite (fun _ s => ?_) fun _ s => ?_
  · simp only [addSellingLiabilities, wp_bind, wp_lift_harmless,
    storeAccount_harmless.wp_iff]
    simp
  · simp only [wp_bind, (hchange _).wp_iff]
    simp

theorem acquireOrReleaseLiabilities_harmless {isAcquire : Bool} :
    HaltsIn Harmless (acquireOrReleaseLiabilities o isAcquire) := by
  intro s
  have hexchange : FailsIn Harmless (offerExchange o) := exchange_harmless
  simp only [acquireOrReleaseLiabilities, getOfferBuyingLiabilities, getOfferSellingLiabilities,
    wp_bind, wp_lift_harmless, failsIn_bind, hexchange,
    addBuyingLiabilitiesTo_harmless.wp_iff, addSellingLiabilitiesTo_harmless.wp_iff]
  simp

theorem adjustOfferEntry_harmless : HaltsIn Harmless (adjustOfferEntry o) := by
  intro s
  have hlimits : FailsIn Harmless (sellerLimits s o) := by
    unfold sellerLimits
    split <;> simp
  simp only [adjustOfferEntry, wp_bind, wp_get, wp_lift_harmless, hlimits, adjustOffer_harmless,
    implies_true, and_true]

theorem exchangeWithOffer_harmless {maxWheatReceived maxSheepSend : Int} {isPathPayment : Bool} :
    HaltsIn Harmless (exchangeWithOffer o maxWheatReceived maxSheepSend isPathPayment) := by
  intro s
  have hlimits : FailsIn Harmless (sellerLimits s o) := by
    unfold sellerLimits
    split <;> simp
  simp only [exchangeWithOffer, wp_bind, wp_get, wp_lift_harmless, hlimits, exchangeV10_harmless,
    implies_true, and_true]

theorem settle_harmless {what : String} (hwhat : what ≠ "invalid account state") :
    HaltsIn Harmless (settle id asset delta what) := by
  refine HaltsIn.ite (fun _ => .pure ()) fun _ s => ?_
  simp only [wp_bind, addBalanceTo_harmless.wp_iff, wp_throwIf]
  simp [hwhat]

theorem remainingAmount_harmless {ex : ExchangeResultV10} :
    HaltsIn Harmless (remainingAmount o ex) :=
  HaltsIn.ite (fun _ => adjustOfferEntry_harmless) fun _ => .pure 0

end Calls

end EssaCore.Transactions
