import EssaCore.Lib.Except
import EssaCore.Transactions.OfferExchange

/-!
# Rounding in an exchange

Wheat and sheep are exchanged at a *value*: the smaller one of what both sides can do,
counted in units of `1 / d` sheep or `1 / n` wheat. The amounts are the value divided by
`n` and by `d`, one of them rounded first and the other one computed from it, in favour of
the side that stays in the book.

- `Within` — amounts that do not exceed a value;
- `sheepStaysAmounts`, `wheatStaysAmounts` — the two ways to round;
- `exchange_eq` — the code computes these amounts, and nothing overflows;
- `offerAmounts` — the amounts of an offer and a buyer without limits;
- `offerAmounts_idem` — an offer that has been cut back to them keeps them;
- `adjustOffer_eq` — `adjustOffer` in closed form.
-/

namespace EssaCore.Transactions

open Ledger Lib

/-! ## Quotients -/

/-- A quotient that is rounded -/
def divide (a b : Int) : Rounding → Int
  | .ROUND_DOWN => a / b
  | .ROUND_UP => (a + b - 1) / b

variable {b : Int}

theorem le_divide_up_mul (a : Int) (hb : 0 < b) : a ≤ divide a b .ROUND_UP * b := by
  have := Int.lt_ediv_add_one_mul_self (a + b - 1) hb
  rw [Int.add_mul] at this
  show a ≤ (a + b - 1) / b * b
  omega

theorem divide_up_mul_lt (a : Int) (hb : 0 < b) : divide a b .ROUND_UP * b < a + b := by
  have := Int.ediv_mul_le (a + b - 1) (Int.ne_of_gt hb)
  show (a + b - 1) / b * b < a + b
  omega

variable {a x : Int}

theorem divide_le (rounding : Rounding) (hb : 0 < b) (h : a ≤ x * b) :
    divide a b rounding ≤ x := by
  cases rounding with
  | ROUND_DOWN => exact Int.ediv_le_of_le_mul hb h
  | ROUND_UP =>
    have hlt : divide a b .ROUND_UP * b < (x + 1) * b := by
      have := divide_up_mul_lt a hb
      rw [Int.add_mul]
      omega
    exact Int.le_of_lt_add_one (lt_of_mul_lt_mul_right hlt hb.le)

theorem divide_nonneg (rounding : Rounding) (hb : 0 < b) (ha : 0 ≤ a) :
    0 ≤ divide a b rounding := by
  cases rounding with
  | ROUND_DOWN => exact Int.ediv_nonneg ha hb.le
  | ROUND_UP => exact nonneg_of_mul_nonneg_left (ha.trans (le_divide_up_mul a hb)) hb

/-! ## Amounts at a value -/

section Amounts

variable {price : Price} {value : Int}

/-- Amounts of wheat and sheep that do not exceed a value. -/
structure Within (price : Price) (value : Int) (p : Int × Int) : Prop where
  wheat_nonneg : 0 ≤ p.1
  sheep_nonneg : 0 ≤ p.2
  wheat_le : ∀ x, value ≤ x * price.n → p.1 ≤ x
  sheep_le : ∀ x, value ≤ x * price.d → p.2 ≤ x

/-- The amounts when sheep stays -/
def sheepStaysAmounts (price : Price) (value : Int) : Int × Int :=
  if price.n > price.d then (value / price.n, value / price.n * price.n / price.d)
  else (divide (value / price.d * price.d) price.n .ROUND_UP, value / price.d)

/-- The amounts when wheat stays -/
def wheatStaysAmounts (price : Price) (value : Int) (isPathPayment : Bool) : Int × Int :=
  if price.n > price.d ∨ isPathPayment then
    (value / price.n, divide (value / price.n * price.n) price.d .ROUND_UP)
  else (value / price.d * price.d / price.n, value / price.d)

variable (hn : 0 < price.n) (hd : 0 < price.d) (hv : 0 ≤ value)

include hn hd hv

/-- The wheat is rounded first. -/
theorem wheatFirst_within (rounding : Rounding) :
    Within price value (value / price.n, divide (value / price.n * price.n) price.d rounding) where
  wheat_nonneg := Int.ediv_nonneg hv hn.le
  sheep_nonneg := divide_nonneg _ hd (Int.mul_nonneg (Int.ediv_nonneg hv hn.le) hn.le)
  wheat_le _ hx := divide_le .ROUND_DOWN hn hx
  sheep_le _ hx := divide_le _ hd ((Int.ediv_mul_le value (Int.ne_of_gt hn)).trans hx)

/-- The sheep is rounded first. -/
theorem sheepFirst_within (rounding : Rounding) :
    Within price value (divide (value / price.d * price.d) price.n rounding, value / price.d) where
  wheat_nonneg := divide_nonneg _ hn (Int.mul_nonneg (Int.ediv_nonneg hv hd.le) hd.le)
  sheep_nonneg := Int.ediv_nonneg hv hd.le
  wheat_le _ hx := divide_le _ hn ((Int.ediv_mul_le value (Int.ne_of_gt hd)).trans hx)
  sheep_le _ hx := divide_le .ROUND_DOWN hd hx

theorem sheepStaysAmounts_within : Within price value (sheepStaysAmounts price value) := by
  unfold sheepStaysAmounts
  split
  · exact wheatFirst_within hn hd hv .ROUND_DOWN
  · exact sheepFirst_within hn hd hv .ROUND_UP

theorem wheatStaysAmounts_within (isPathPayment : Bool) :
    Within price value (wheatStaysAmounts price value isPathPayment) := by
  unfold wheatStaysAmounts
  split
  · exact wheatFirst_within hn hd hv .ROUND_UP
  · exact sheepFirst_within hn hd hv .ROUND_DOWN

omit hv

/-- When sheep stays, its seller is favoured. -/
theorem sheepStaysAmounts_favors :
    (sheepStaysAmounts price value).2 * price.d ≤ (sheepStaysAmounts price value).1 * price.n := by
  unfold sheepStaysAmounts
  split
  · exact Int.ediv_mul_le _ (Int.ne_of_gt hd)
  · exact le_divide_up_mul _ hn

/-- When wheat stays, its seller is favoured. -/
theorem wheatStaysAmounts_favors (isPathPayment : Bool) :
    (wheatStaysAmounts price value isPathPayment).1 * price.n ≤
      (wheatStaysAmounts price value isPathPayment).2 * price.d := by
  unfold wheatStaysAmounts
  split
  · exact le_divide_up_mul _ hd
  · exact Int.ediv_mul_le _ (Int.ne_of_gt hn)

end Amounts

/-! ## What the code computes -/

/-- An amount that fits an `int64` -/
def IsAmount (x : Int) : Prop := 0 ≤ x ∧ x ≤ INT64_MAX

theorem isAmount_max : IsAmount INT64_MAX := ⟨INT64_MAX_pos.le, le_rfl⟩

/-- A price that `isPriceValid` admits: its parts are positive values of `int32`. -/
structure ValidPrice (price : Price) : Prop where
  n_pos : 0 < price.n
  n_le : price.n ≤ INT32_MAX
  d_pos : 0 < price.d
  d_le : price.d ≤ INT32_MAX

theorem uint128_eq (h₀ : 0 ≤ x) (h : x ≤ UINT128_MAX) : uint128 x = x :=
  Int.emod_eq_of_lt h₀ (lt_of_le_of_lt h (by decide))

/-- A product of an amount and the part of a price, or hundred times that part, is far from
what a `uint128_t` holds. -/
theorem mul_le_uint128 (ha : IsAmount a) (hb₀ : 0 ≤ b) (hb : b ≤ 100 * INT32_MAX) :
    a * b ≤ UINT128_MAX - INT32_MAX :=
  (mul_le_mul ha.2 hb hb₀ INT64_MAX_pos.le).trans (by decide)

theorem value_le_uint128 (ha : IsAmount a) (hb₀ : 0 ≤ b) (hb : b ≤ INT32_MAX) :
    a * b ≤ UINT128_MAX :=
  (mul_le_uint128 ha hb₀ (hb.trans (by decide))).trans (by decide)

theorem bigMultiply_eq (ha : 0 ≤ a) (hb : 0 ≤ b) (h : a * b ≤ UINT128_MAX) :
    bigMultiply a b = .ok (a * b) := by
  rw [bigMultiply, assert_eq_ok.mpr ⟨ha, hb⟩, uint128_eq (Int.mul_nonneg ha hb) h]
  rfl

theorem checkQuotient_eq (h : x ≤ INT64_MAX) : checkQuotient x = .ok x := if_pos h

theorem divide128_eq (rounding : Rounding) (ha₀ : 0 ≤ a)
    (ha : a ≤ UINT128_MAX - INT32_MAX) (hb₀ : 0 < b) (hb : b ≤ INT32_MAX) :
    divide128 a b rounding = divide a b rounding := by
  cases rounding
  · exact congrArg (· / b) (uint128_eq ha₀ (by omega))
  · exact congrArg (· / b) (uint128_eq (by omega) (by omega))

theorem bigDivide_eq (rounding : Rounding) {A B C : Int} (hA : IsAmount A) (hB₀ : 0 ≤ B)
    (hB : B ≤ INT32_MAX) (hC₀ : 0 < C) (hC : C ≤ INT32_MAX)
    (h : divide (A * B) C rounding ≤ INT64_MAX) :
    bigDivide A B C rounding = .ok (divide (A * B) C rounding) := by
  have hmax := mul_le_uint128 hA hB₀ (hB.trans (by decide))
  rw [bigDivide, assert_eq_ok.mpr ⟨hA.1, hB₀, hC₀⟩, divide128_eq rounding (Int.mul_nonneg hA.1 hB₀)
    hmax hC₀ hC]
  exact checkQuotient_eq h

theorem bigDivide128_down {B : Int} (ha₀ : 0 ≤ a) (ha : a ≤ UINT128_MAX) (hB : 0 < B)
    (h : a / B ≤ INT64_MAX) : bigDivide128 a B .ROUND_DOWN = .ok (a / B) := by
  rw [bigDivide128, assert_eq_ok.mpr hB, divide128,
    uint128_eq ha₀ ha]
  exact checkQuotient_eq h

theorem calculateOfferValue_eq {priceN priceD maxSend maxReceive : Int} (hn₀ : 0 ≤ priceN)
    (hn : priceN ≤ INT32_MAX) (hd₀ : 0 ≤ priceD) (hd : priceD ≤ INT32_MAX)
    (hsend : IsAmount maxSend) (hreceive : IsAmount maxReceive) :
    calculateOfferValue priceN priceD maxSend maxReceive =
      .ok (min (maxSend * priceN) (maxReceive * priceD)) := by
  rw [calculateOfferValue, bigMultiply_eq hsend.1 hn₀ (value_le_uint128 hsend hn₀ hn),
    bigMultiply_eq hreceive.1 hd₀ (value_le_uint128 hreceive hd₀ hd)]
  rfl

section Exchange

variable {price : Price} {maxWheatSend maxWheatReceive maxSheepSend maxSheepReceive : Int}
  {isPathPayment : Bool}

/-- The wheat and the sheep of an exchange at two values -/
def amountsAt (price : Price) (wheatValue sheepValue : Int) (isPathPayment : Bool) : Int × Int :=
  if wheatValue > sheepValue then wheatStaysAmounts price sheepValue isPathPayment
  else sheepStaysAmounts price wheatValue

theorem amountsAt_within {wheatValue sheepValue : Int} (hn : 0 < price.n) (hd : 0 < price.d)
    (hw : 0 ≤ wheatValue) (hs : 0 ≤ sheepValue) :
    Within price (min wheatValue sheepValue) (amountsAt price wheatValue sheepValue
      isPathPayment) := by
  unfold amountsAt
  split
  · rename_i hstays
    rw [min_eq_right hstays.le]
    exact wheatStaysAmounts_within hn hd hs isPathPayment
  · rename_i hstays
    rw [min_eq_left (not_lt.mp hstays)]
    exact sheepStaysAmounts_within hn hd hw

/-- The divisions do not overflow. -/
theorem exchangeAmounts_eq (hp : ValidPrice price) {wheatValue sheepValue : Int}
    (hw : 0 ≤ wheatValue) (hs : 0 ≤ sheepValue)
    (hwMax : wheatValue ≤ UINT128_MAX) (hsMax : sheepValue ≤ UINT128_MAX)
    (hwheat : min wheatValue sheepValue ≤ INT64_MAX * price.n)
    (hsheep : min wheatValue sheepValue ≤ INT64_MAX * price.d) (isPathPayment : Bool) :
    exchangeAmounts price wheatValue sheepValue isPathPayment =
      .ok (amountsAt price wheatValue sheepValue isPathPayment) := by
  obtain ⟨hn, hnMax, hd, hdMax⟩ := hp
  have hwithin : Within price (min wheatValue sheepValue)
      (amountsAt price wheatValue sheepValue isPathPayment) := amountsAt_within hn hd hw hs
  have hwheat : IsAmount (amountsAt price wheatValue sheepValue isPathPayment).1 :=
    ⟨hwithin.wheat_nonneg, hwithin.wheat_le _ hwheat⟩
  have hsheep : IsAmount (amountsAt price wheatValue sheepValue isPathPayment).2 :=
    ⟨hwithin.sheep_nonneg, hwithin.sheep_le _ hsheep⟩
  unfold exchangeAmounts
  unfold amountsAt at hwheat hsheep ⊢
  by_cases hstays : wheatValue > sheepValue
  · simp only [if_pos hstays] at hwheat hsheep ⊢
    unfold wheatStaysAmounts at hwheat hsheep ⊢
    by_cases hprice : price.n > price.d ∨ isPathPayment = true
    · simp only [if_pos hprice] at hwheat hsheep ⊢
      rw [bigDivide128_down hs hsMax hn hwheat.2, ok_bind,
        bigDivide_eq .ROUND_UP hwheat hn.le hnMax hd hdMax hsheep.2]
      rfl
    · simp only [if_neg hprice] at hwheat hsheep ⊢
      rw [bigDivide128_down hs hsMax hd hsheep.2, ok_bind,
        bigDivide_eq .ROUND_DOWN hsheep hd.le hdMax hn hnMax hwheat.2]
      rfl
  · simp only [if_neg hstays] at hwheat hsheep ⊢
    unfold sheepStaysAmounts at hwheat hsheep ⊢
    by_cases hprice : price.n > price.d
    · simp only [if_pos hprice] at hwheat hsheep ⊢
      rw [bigDivide128_down hw hwMax hn hwheat.2, ok_bind,
        bigDivide_eq .ROUND_DOWN hwheat hn.le hnMax hd hdMax hsheep.2]
      rfl
    · simp only [if_neg hprice] at hwheat hsheep ⊢
      rw [bigDivide128_down hw hwMax hd hsheep.2, ok_bind,
        bigDivide_eq .ROUND_UP hsheep hd.le hdMax hn hnMax hwheat.2]
      rfl

/-- What is exchanged within the limits of both sides -/
def exchangeResult (price : Price) (maxWheatSend maxWheatReceive maxSheepSend
    maxSheepReceive : Int) (isPathPayment : Bool) : ExchangeResultV10 :=
  let wheatValue := min (maxWheatSend * price.n) (maxSheepReceive * price.d)
  let sheepValue := min (maxSheepSend * price.d) (maxWheatReceive * price.n)
  let p := amountsAt price wheatValue sheepValue isPathPayment
  ⟨p.1, p.2, wheatValue > sheepValue⟩

/-- What holds of an exchange: the amounts are within the limits, and the price favours the
seller whose offer stays. -/
structure Exchanged (price : Price) (maxWheatSend maxWheatReceive maxSheepSend
    maxSheepReceive : Int) (r : ExchangeResultV10) : Prop where
  wheat_nonneg : 0 ≤ r.numWheatReceived
  wheat_le_receive : r.numWheatReceived ≤ maxWheatReceive
  wheat_le_send : r.numWheatReceived ≤ maxWheatSend
  sheep_nonneg : 0 ≤ r.numSheepSend
  sheep_le_receive : r.numSheepSend ≤ maxSheepReceive
  sheep_le_send : r.numSheepSend ≤ maxSheepSend
  wheat_favored : r.wheatStays = true →
    r.numWheatReceived * price.n ≤ r.numSheepSend * price.d
  sheep_favored : r.wheatStays = false →
    r.numSheepSend * price.d ≤ r.numWheatReceived * price.n

theorem exchangeResult_exchanged (hp : ValidPrice price) (hws : 0 ≤ maxWheatSend)
    (hwr : 0 ≤ maxWheatReceive) (hss : 0 ≤ maxSheepSend) (hsr : 0 ≤ maxSheepReceive)
    (isPathPayment : Bool) :
    Exchanged price maxWheatSend maxWheatReceive maxSheepSend maxSheepReceive
      (exchangeResult price maxWheatSend maxWheatReceive maxSheepSend maxSheepReceive
        isPathPayment) := by
  have hn := hp.n_pos
  have hd := hp.d_pos
  have hw : 0 ≤ min (maxWheatSend * price.n) (maxSheepReceive * price.d) :=
    le_min (Int.mul_nonneg hws hn.le) (Int.mul_nonneg hsr hd.le)
  have hs : 0 ≤ min (maxSheepSend * price.d) (maxWheatReceive * price.n) :=
    le_min (Int.mul_nonneg hss hd.le) (Int.mul_nonneg hwr hn.le)
  have hwithin : Within price (min _ _) (amountsAt price
    (min (maxWheatSend * price.n) (maxSheepReceive * price.d))
    (min (maxSheepSend * price.d) (maxWheatReceive * price.n)) isPathPayment) :=
    amountsAt_within hn hd hw hs
  exact
    { wheat_nonneg := hwithin.wheat_nonneg
      wheat_le_receive := hwithin.wheat_le _ ((min_le_right _ _).trans (min_le_right _ _))
      wheat_le_send := hwithin.wheat_le _ ((min_le_left _ _).trans (min_le_left _ _))
      sheep_nonneg := hwithin.sheep_nonneg
      sheep_le_receive := hwithin.sheep_le _ ((min_le_left _ _).trans (min_le_right _ _))
      sheep_le_send := hwithin.sheep_le _ ((min_le_right _ _).trans (min_le_left _ _))
      wheat_favored := fun hstays => by
        have hstays := of_decide_eq_true hstays
        simp only [exchangeResult, amountsAt, if_pos hstays]
        exact wheatStaysAmounts_favors hn hd isPathPayment
      sheep_favored := fun hstays => by
        have hstays := of_decide_eq_false hstays
        simp only [exchangeResult, amountsAt, if_neg hstays]
        exact sheepStaysAmounts_favors hn hd }

/-- The exchange never throws. -/
theorem exchange_eq (hp : ValidPrice price) (hws : IsAmount maxWheatSend)
    (hwr : IsAmount maxWheatReceive) (hss : IsAmount maxSheepSend)
    (hsr : IsAmount maxSheepReceive) (isPathPayment : Bool) :
    exchangeV10WithoutPriceErrorThresholds price maxWheatSend maxWheatReceive maxSheepSend
        maxSheepReceive isPathPayment =
      .ok (exchangeResult price maxWheatSend maxWheatReceive maxSheepSend maxSheepReceive
        isPathPayment) := by
  have h := exchangeResult_exchanged hp hws.1 hwr.1 hss.1 hsr.1 isPathPayment
  have hamounts := exchangeAmounts_eq hp
    (le_min (Int.mul_nonneg hws.1 hp.n_pos.le) (Int.mul_nonneg hsr.1 hp.d_pos.le))
    (le_min (Int.mul_nonneg hss.1 hp.d_pos.le) (Int.mul_nonneg hwr.1 hp.n_pos.le))
    ((min_le_left _ _).trans (value_le_uint128 hws hp.n_pos.le hp.n_le))
    ((min_le_left _ _).trans (value_le_uint128 hss hp.d_pos.le hp.d_le))
    (((min_le_left _ _).trans (min_le_left _ _)).trans
      (Int.mul_le_mul_of_nonneg_right hws.2 hp.n_pos.le))
    (((min_le_left _ _).trans (min_le_right _ _)).trans
      (Int.mul_le_mul_of_nonneg_right hsr.2 hp.d_pos.le)) isPathPayment
  rw [exchangeV10WithoutPriceErrorThresholds,
    calculateOfferValue_eq hp.n_pos.le hp.n_le hp.d_pos.le hp.d_le hws hsr,
    calculateOfferValue_eq hp.d_pos.le hp.d_le hp.n_pos.le hp.n_le hss hwr, ok_bind, ok_bind,
    hamounts, ok_bind, if_neg, if_neg]
  · rfl
  · exact not_or.mpr ⟨not_lt.mpr h.sheep_nonneg, not_lt.mpr
      (le_min h.sheep_le_receive h.sheep_le_send)⟩
  · exact not_or.mpr ⟨not_lt.mpr h.wheat_nonneg, not_lt.mpr
      (le_min h.wheat_le_receive h.wheat_le_send)⟩

/-! ## The price thresholds -/

/-- The price of an exchange is within one percent of the offer's, or better for the seller of
wheat if that is allowed. -/
def priceErrorBounded (price : Price) (wheat sheep : Int) (canFavorWheat : Bool) : Bool :=
  let lhs := 100 * price.n * wheat
  let rhs := 100 * price.d * sheep
  (canFavorWheat && decide (rhs > lhs)) ||
    decide ((if lhs > rhs then lhs - rhs else rhs - lhs) ≤ price.n * wheat)

theorem checkPriceErrorBound_eq (hp : ValidPrice price) {wheat sheep : Int}
    (hwheat : IsAmount wheat) (hsheep : IsAmount sheep) (canFavorWheat : Bool) :
    checkPriceErrorBound price wheat sheep canFavorWheat =
      .ok (priceErrorBounded price wheat sheep canFavorWheat) := by
  obtain ⟨hn, hnMax, _, _⟩ := hp
  have hlhs : 100 * price.n * wheat ≤ UINT128_MAX := by
    rw [mul_comm]
    exact (mul_le_uint128 hwheat (by omega) (by omega)).trans (by decide)
  have hrhs : 100 * price.d * sheep ≤ UINT128_MAX := by
    rw [mul_comm]
    exact (mul_le_uint128 hsheep (by omega) (by omega)).trans (by decide)
  have hcap : price.n * wheat ≤ UINT128_MAX := by
    rw [mul_comm]
    exact value_le_uint128 hwheat hn.le hnMax
  rw [checkPriceErrorBound, bigMultiply_eq (by omega) hwheat.1 hlhs,
    bigMultiply_eq (by omega) hsheep.1 hrhs, bigMultiply_eq hn.le hwheat.1 hcap]
  rfl

/-- An exchange that favours the seller of wheat is within the bound of path payments. -/
theorem priceErrorBounded_of_favors {wheat sheep : Int} (hn : 0 < price.n) (hwheat : 0 ≤ wheat)
    (h : wheat * price.n ≤ sheep * price.d) : priceErrorBounded price wheat sheep true = true := by
  have hcap : 0 ≤ price.n * wheat := Int.mul_nonneg hn.le hwheat
  have hlhs : 100 * price.n * wheat = 100 * (wheat * price.n) := by ring
  have hrhs : 100 * price.d * sheep = 100 * (sheep * price.d) := by ring
  simp only [priceErrorBounded, Bool.true_and, Bool.or_eq_true, decide_eq_true_eq]
  rcases h.lt_or_eq with _ | -
  · exact .inl (by omega)
  · omega

theorem priceErrorBounded_mono {wheat sheep : Int} (canFavorWheat : Bool)
    (h : priceErrorBounded price wheat sheep false = true) :
    priceErrorBounded price wheat sheep canFavorWheat = true := by
  simp only [priceErrorBounded, Bool.false_and, Bool.false_or] at h
  simp [priceErrorBounded, h]

/-- What is left of an exchange by the thresholds, if they do not throw -/
def applied (price : Price) (r : ExchangeResultV10) (isPathPayment : Bool) :
    Except TxError ExchangeResultV10 :=
  if 0 < r.numWheatReceived ∧ 0 < r.numSheepSend then
    if priceErrorBounded price r.numWheatReceived r.numSheepSend isPathPayment then .ok r
    else if isPathPayment then .error (.runtimeError "exceeded price error bound")
    else .ok ⟨0, 0, r.wheatStays⟩
  else .ok ⟨0, 0, r.wheatStays⟩

/-- The seller whose offer stays is favoured, so the checks for it pass. -/
theorem applyPriceErrorThresholds_eq (hp : ValidPrice price) {r : ExchangeResultV10}
    (hws : IsAmount maxWheatSend) (hsr : IsAmount maxSheepReceive)
    (h : Exchanged price maxWheatSend maxWheatReceive maxSheepSend maxSheepReceive r)
    (isPathPayment : Bool) :
    applyPriceErrorThresholds price r.numWheatReceived r.numSheepSend r.wheatStays
      isPathPayment = applied price r isPathPayment := by
  have hwheat : IsAmount r.numWheatReceived := ⟨h.wheat_nonneg, h.wheat_le_send.trans hws.2⟩
  have hsheep : IsAmount r.numSheepSend := ⟨h.sheep_nonneg, h.sheep_le_receive.trans hsr.2⟩
  unfold applyPriceErrorThresholds applied
  by_cases hpos : 0 < r.numWheatReceived ∧ 0 < r.numSheepSend
  · have hwheatFavored : ¬ (r.wheatStays = true ∧
        r.numSheepSend * price.d < r.numWheatReceived * price.n) :=
      fun hlt => absurd (h.wheat_favored hlt.1) (not_le.mpr hlt.2)
    have hsheepFavored : ¬ ((!r.wheatStays) = true ∧
        r.numSheepSend * price.d > r.numWheatReceived * price.n) :=
      fun hlt => absurd (h.sheep_favored (by simpa using hlt.1)) (not_le.mpr hlt.2)
    rw [if_pos hpos, if_pos hpos, applyThresholds,
      bigMultiply_eq hwheat.1 hp.n_pos.le (value_le_uint128 hwheat hp.n_pos.le hp.n_le),
      bigMultiply_eq hsheep.1 hp.d_pos.le (value_le_uint128 hsheep hp.d_pos.le hp.d_le),
      checkPriceErrorBound_eq hp hwheat hsheep, ok_bind, ok_bind, ok_bind, if_neg hwheatFavored,
      if_neg hsheepFavored]
    rfl
  · rw [if_neg hpos, if_neg hpos]
    rfl

theorem exchangeV10_eq (hp : ValidPrice price) (hws : IsAmount maxWheatSend)
    (hwr : IsAmount maxWheatReceive) (hss : IsAmount maxSheepSend)
    (hsr : IsAmount maxSheepReceive) (isPathPayment : Bool) :
    exchangeV10 price maxWheatSend maxWheatReceive maxSheepSend maxSheepReceive isPathPayment =
      applied price (exchangeResult price maxWheatSend maxWheatReceive maxSheepSend
        maxSheepReceive isPathPayment) isPathPayment := by
  rw [exchangeV10, exchange_eq hp hws hwr hss hsr]
  exact applyPriceErrorThresholds_eq hp hws hsr
    (exchangeResult_exchanged hp hws.1 hwr.1 hss.1 hsr.1 isPathPayment) isPathPayment

theorem applied_ne_favored {r : ExchangeResultV10} {what : String}
    (hwhat : what ≠ "exceeded price error bound") :
    applied price r isPathPayment ≠ .error (.runtimeError what) := by
  unfold applied
  split
  · split
    · exact nofun
    · split
      · exact fun h => hwhat (TxError.runtimeError.inj (Except.error.inj h)).symm
      · exact nofun
  · exact nofun

/-- An exchange within the limits of `int64` never throws, keeps to the limits of both sides and
favours the seller whose offer stays, so the thresholds never find the other one favoured. -/
theorem exchange_within_bounds (hp : ValidPrice price) (hws : IsAmount maxWheatSend)
    (hwr : IsAmount maxWheatReceive) (hss : IsAmount maxSheepSend)
    (hsr : IsAmount maxSheepReceive) (isPathPayment : Bool) :
    ∃ r, exchangeV10WithoutPriceErrorThresholds price maxWheatSend maxWheatReceive maxSheepSend
        maxSheepReceive isPathPayment = .ok r ∧
      0 ≤ r.numWheatReceived ∧ r.numWheatReceived ≤ min maxWheatReceive maxWheatSend ∧
      0 ≤ r.numSheepSend ∧ r.numSheepSend ≤ min maxSheepReceive maxSheepSend ∧
      (r.wheatStays = true → r.numSheepSend * price.d ≥ r.numWheatReceived * price.n) ∧
      (r.wheatStays = false → r.numSheepSend * price.d ≤ r.numWheatReceived * price.n) ∧
      applyPriceErrorThresholds price r.numWheatReceived r.numSheepSend r.wheatStays
        isPathPayment ≠ .error (.runtimeError "favored sheep when wheat stays") ∧
      applyPriceErrorThresholds price r.numWheatReceived r.numSheepSend r.wheatStays
        isPathPayment ≠ .error (.runtimeError "favored wheat when sheep stays") := by
  have h := exchangeResult_exchanged hp hws.1 hwr.1 hss.1 hsr.1 isPathPayment
  refine ⟨_, exchange_eq hp hws hwr hss hsr isPathPayment, h.wheat_nonneg,
    le_min h.wheat_le_receive h.wheat_le_send, h.sheep_nonneg,
    le_min h.sheep_le_receive h.sheep_le_send, h.wheat_favored, h.sheep_favored, ?_, ?_⟩
  · rw [applyPriceErrorThresholds_eq hp hws hsr h]
    exact applied_ne_favored (by decide)
  · rw [applyPriceErrorThresholds_eq hp hws hsr h]
    exact applied_ne_favored (by decide)

theorem exchange_within_bounds_max :
    ∃ r, exchangeV10WithoutPriceErrorThresholds ⟨INT32_MAX, 1⟩ INT64_MAX INT64_MAX INT64_MAX
      INT64_MAX true = .ok r ∧ r.numSheepSend ≤ min INT64_MAX INT64_MAX := by
  obtain ⟨r, hr, -, -, -, hle, -⟩ := exchange_within_bounds
    (⟨by decide, by decide, by decide, by decide⟩ : ValidPrice ⟨INT32_MAX, 1⟩) isAmount_max
    isAmount_max isAmount_max isAmount_max true
  exact ⟨r, hr, hle⟩

end Exchange

/-! ## An offer and a buyer without limits -/

section Offers

variable {price : Price} {maxWheatSend maxSheepReceive : Int}

/-- Wheat and sheep of an offer that is taken by a buyer without limits -/
def offerAmounts (price : Price) (maxWheatSend maxSheepReceive : Int) : Int × Int :=
  sheepStaysAmounts price (min (maxWheatSend * price.n) (maxSheepReceive * price.d))

theorem offerAmounts_within (hp : ValidPrice price) (hws : 0 ≤ maxWheatSend)
    (hsr : 0 ≤ maxSheepReceive) :
    Within price (min (maxWheatSend * price.n) (maxSheepReceive * price.d))
      (offerAmounts price maxWheatSend maxSheepReceive) :=
  sheepStaysAmounts_within hp.n_pos hp.d_pos
    (le_min (Int.mul_nonneg hws hp.n_pos.le) (Int.mul_nonneg hsr hp.d_pos.le))

/-- A buyer without limits does not leave the offer in the book. -/
theorem exchangeResult_offer (hp : ValidPrice price) (hws : maxWheatSend ≤ INT64_MAX)
    (hsr : maxSheepReceive ≤ INT64_MAX) :
    exchangeResult price maxWheatSend INT64_MAX INT64_MAX maxSheepReceive false =
      ⟨(offerAmounts price maxWheatSend maxSheepReceive).1,
        (offerAmounts price maxWheatSend maxSheepReceive).2, false⟩ := by
  have hstays : ¬ min (maxWheatSend * price.n) (maxSheepReceive * price.d) >
      min (INT64_MAX * price.d) (INT64_MAX * price.n) := by
    rw [not_lt, min_comm (INT64_MAX * price.d)]
    exact min_le_min (Int.mul_le_mul_of_nonneg_right hws hp.n_pos.le)
      (Int.mul_le_mul_of_nonneg_right hsr hp.d_pos.le)
  simp only [exchangeResult, amountsAt, if_neg hstays, decide_eq_false hstays]
  rfl

/-- An offer that has been cut back to what a buyer takes is taken as it is, also with a higher
limit. -/
theorem offerAmounts_idem (hp : ValidPrice price) {limit : Int} (hmax : maxSheepReceive ≤ limit) :
    offerAmounts price (offerAmounts price maxWheatSend maxSheepReceive).1 limit =
      offerAmounts price maxWheatSend maxSheepReceive := by
  obtain ⟨hn, -, hd, -⟩ := hp
  obtain ⟨v, hv⟩ : ∃ v, v = min (maxWheatSend * price.n) (maxSheepReceive * price.d) := ⟨_, rfl⟩
  have hvMax : v ≤ limit * price.d :=
    (hv ▸ min_le_right _ _).trans (Int.mul_le_mul_of_nonneg_right hmax hd.le)
  unfold offerAmounts
  rw [← hv]
  have hfavors : (sheepStaysAmounts price v).2 * price.d ≤
      (sheepStaysAmounts price v).1 * price.n := sheepStaysAmounts_favors hn hd
  unfold sheepStaysAmounts at hfavors ⊢
  by_cases hprice : price.n > price.d
  · -- the value of the wheat is exact
    simp only [if_pos hprice]
    have hexact : min (v / price.n * price.n) (limit * price.d) = v / price.n * price.n :=
      min_eq_left ((Int.ediv_mul_le v (Int.ne_of_gt hn)).trans hvMax)
    rw [hexact, Int.mul_ediv_cancel _ (Int.ne_of_gt hn)]
  · -- the value of the wheat is rounded up by less than one sheep
    simp only [if_neg hprice] at hfavors ⊢
    have hlt := divide_up_mul_lt (v / price.d * price.d) hn
    have hsheep : min (divide (v / price.d * price.d) price.n .ROUND_UP * price.n)
        (limit * price.d) / price.d = v / price.d := by
      refine le_antisymm ?_ ?_
      · refine Int.le_of_lt_add_one ((Int.ediv_lt_iff_lt_mul hd).mpr ?_)
        rw [Int.add_mul]
        omega
      · refine (Int.le_ediv_iff_mul_le hd).mpr (le_min hfavors ?_)
        exact (Int.ediv_mul_le v (Int.ne_of_gt hd)).trans hvMax
    rw [hsheep]

/-- The amount of an offer after it has been adjusted -/
def adjustedAmount (price : Price) (maxWheatSend maxSheepReceive : Int) : Int :=
  let p := offerAmounts price maxWheatSend maxSheepReceive
  if 0 < p.1 ∧ 0 < p.2 ∧ priceErrorBounded price p.1 p.2 false then p.1 else 0

/-- `adjustOffer` never throws. -/
theorem adjustOffer_eq (hp : ValidPrice price) (hws : IsAmount maxWheatSend)
    (hsr : IsAmount maxSheepReceive) :
    adjustOffer price maxWheatSend maxSheepReceive =
      .ok (adjustedAmount price maxWheatSend maxSheepReceive) := by
  rw [adjustOffer, exchangeV10_eq hp hws isAmount_max isAmount_max hsr,
    exchangeResult_offer hp hws.2 hsr.2, applied, adjustedAmount]
  obtain ⟨p, hp⟩ : ∃ p, p = offerAmounts price maxWheatSend maxSheepReceive := ⟨_, rfl⟩
  rw [← hp]
  by_cases hpos : 0 < p.1 ∧ 0 < p.2
  · rw [if_pos hpos]
    cases hbound : priceErrorBounded price p.1 p.2 false
    · simp only [Bool.false_eq_true, and_false]
      rfl
    · simp only [and_true, if_pos hpos]
      rfl
  · rw [if_neg hpos, if_neg fun h => hpos ⟨h.1, h.2.1⟩]
    rfl

/-- What is left of an adjusted offer is what a buyer without limits takes. -/
theorem adjustedAmount_pos (h : 0 < adjustedAmount price maxWheatSend maxSheepReceive) :
    adjustedAmount price maxWheatSend maxSheepReceive =
        (offerAmounts price maxWheatSend maxSheepReceive).1 ∧
      0 < (offerAmounts price maxWheatSend maxSheepReceive).2 ∧
      priceErrorBounded price (offerAmounts price maxWheatSend maxSheepReceive).1
        (offerAmounts price maxWheatSend maxSheepReceive).2 false = true := by
  unfold adjustedAmount at h ⊢
  dsimp only at h ⊢
  split at h
  · rename_i hpos
    rw [if_pos hpos]
    exact ⟨rfl, hpos.2.1, hpos.2.2⟩
  · exact absurd h (lt_irrefl 0)

theorem adjustedAmount_nonneg : 0 ≤ adjustedAmount price maxWheatSend maxSheepReceive := by
  unfold adjustedAmount
  dsimp only
  split
  · rename_i hpos
    exact hpos.1.le
  · exact le_rfl

variable (hp : ValidPrice price)

include hp

theorem adjustedAmount_le (hws : 0 ≤ maxWheatSend)
    (hsr : 0 ≤ maxSheepReceive) :
    adjustedAmount price maxWheatSend maxSheepReceive ≤ maxWheatSend := by
  unfold adjustedAmount
  dsimp only
  split
  · exact (offerAmounts_within hp hws hsr).wheat_le _ (min_le_left _ _)
  · exact hws

/-- An adjusted offer is taken as it is. -/
theorem offerAmounts_adjusted {limit : Int}
    (h : 0 < adjustedAmount price maxWheatSend maxSheepReceive)
    (hmax : maxSheepReceive ≤ limit) :
    offerAmounts price (adjustedAmount price maxWheatSend maxSheepReceive) limit =
      offerAmounts price maxWheatSend maxSheepReceive := by
  rw [(adjustedAmount_pos h).1, offerAmounts_idem hp hmax]

theorem offerAmounts_zero (hsr : 0 ≤ maxSheepReceive) :
    offerAmounts price 0 maxSheepReceive = (0, 0) := by
  have hwithin := offerAmounts_within hp le_rfl hsr
  exact Prod.ext (le_antisymm (hwithin.wheat_le 0 (min_le_left _ _)) hwithin.wheat_nonneg)
    (le_antisymm (hwithin.sheep_le 0 ((min_le_left _ _).trans (by simp))) hwithin.sheep_nonneg)

/-- Adjusting an offer twice changes nothing. -/
theorem adjustedAmount_idem (hsr : 0 ≤ maxSheepReceive) :
    adjustedAmount price (adjustedAmount price maxWheatSend maxSheepReceive) maxSheepReceive =
      adjustedAmount price maxWheatSend maxSheepReceive := by
  rcases adjustedAmount_nonneg.lt_or_eq with hpos | hzero
  · conv_lhs => rw [adjustedAmount, offerAmounts_adjusted hp hpos le_rfl]
    rfl
  · rw [← hzero, adjustedAmount, offerAmounts_zero hp hsr]
    rfl

end Offers

end EssaCore.Transactions
