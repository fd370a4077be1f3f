import EssaCore.Transactions.AdjustedOffers
import EssaCore.Transactions.CrossOffer

/-!
# Live offers

An offer in the book has something behind both of its sides. Such an offer has a valid price
and an amount, and what `adjustOffer` leaves of an offer is again one, whatever the limits.

- `OfferEntry.Backed` — both liabilities are positive;
- `OfferEntry.Fits` — price and amount are values of their types;
- `OfferEntry.Backed.validPrice` — what a backed offer says about its price;
- `backed_of_adjusted` — an adjusted offer is backed.
-/

namespace EssaCore.Ledger

open Transactions

/-- Both liabilities of the offer are positive. -/
def OfferEntry.Backed (o : OfferEntry) : Prop := 0 < o.liability .buying ∧ 0 < o.liability .selling

/-- Price and amount of the offer are within the range of their types. -/
def OfferEntry.Fits (o : OfferEntry) : Prop :=
  o.price.n ≤ INT32_MAX ∧ o.price.d ≤ INT32_MAX ∧ o.amount ≤ INT64_MAX

instance (o : OfferEntry) : Decidable o.Backed := inferInstanceAs (Decidable (_ ∧ _))

instance (o : OfferEntry) : Decidable o.Fits := inferInstanceAs (Decidable (_ ∧ _ ∧ _))

end EssaCore.Ledger

namespace EssaCore.Transactions

open Ledger Lib

/-! ## What the code has computed -/

section Inversion

variable {price : Price} {maxWheatSend maxWheatReceive maxSheepSend maxSheepReceive : Int}
  {isPathPayment : Bool}

theorem bigMultiply_eq_ok {a b x : Int} (h : bigMultiply a b = .ok x) :
    0 ≤ a ∧ 0 ≤ b ∧ 0 ≤ x ∧ x ≤ a * b := by
  unfold bigMultiply at h
  rw [assert_bind_eq_ok] at h
  obtain ⟨⟨ha, hb⟩, h⟩ := h
  obtain rfl := Except.ok.inj h
  have hnonneg := Int.mul_nonneg ha hb
  unfold uint128
  omega

theorem calculateOfferValue_eq_ok {priceN priceD maxSend maxReceive value : Int}
    (h : calculateOfferValue priceN priceD maxSend maxReceive = .ok value) :
    (0 ≤ maxSend ∧ 0 ≤ priceN ∧ 0 ≤ maxReceive ∧ 0 ≤ priceD) ∧ 0 ≤ value ∧
      value ≤ maxSend * priceN ∧ value ≤ maxReceive * priceD := by
  obtain ⟨x, hx, h⟩ := bind_eq_ok.mp h
  obtain ⟨y, hy, h⟩ := bind_eq_ok.mp h
  obtain rfl := Except.ok.inj h
  obtain ⟨hsend, hn, hx₀, hxle⟩ := bigMultiply_eq_ok hx
  obtain ⟨hreceive, hd, hy₀, hyle⟩ := bigMultiply_eq_ok hy
  exact ⟨⟨hsend, hn, hreceive, hd⟩, le_min hx₀ hy₀, (min_le_left _ _).trans hxle,
    (min_le_right _ _).trans hyle⟩

theorem bigDivide128_down_eq_ok {a B x : Int} (ha₀ : 0 ≤ a) (ha : a ≤ UINT128_MAX)
    (h : bigDivide128 a B .ROUND_DOWN = .ok x) : 0 < B ∧ x = a / B := by
  unfold bigDivide128 at h
  rw [assert_bind_eq_ok] at h
  obtain ⟨hB, h⟩ := h
  rw [if_neg (fun h => nomatch h.1), divide128, uint128_eq ha₀ ha] at h
  unfold checkQuotient at h
  split at h
  · exact ⟨hB, (Except.ok.inj h).symm⟩
  · cases h

theorem bigDivide_eq_ok {A B C x : Int} {rounding : Rounding} (hA : A ≤ INT64_MAX)
    (hB : B ≤ INT32_MAX) (hC : C ≤ INT32_MAX) (h : bigDivide A B C rounding = .ok x) :
    0 ≤ A ∧ 0 ≤ B ∧ 0 < C ∧ x = divide (A * B) C rounding := by
  unfold bigDivide at h
  rw [assert_bind_eq_ok] at h
  obtain ⟨⟨hA₀, hB₀, hC₀⟩, h⟩ := h
  rw [divide128_eq rounding (Int.mul_nonneg hA₀ hB₀)
    (mul_le_uint128 ⟨hA₀, hA⟩ hB₀ (hB.trans (by decide))) hC₀ hC] at h
  unfold checkQuotient at h
  split at h
  · exact ⟨hA₀, hB₀, hC₀, (Except.ok.inj h).symm⟩
  · cases h

/-- Amounts that were exchanged at two values, within the limits -/
theorem exchange_eq_ok {r : ExchangeResultV10}
    (h : exchangeV10WithoutPriceErrorThresholds price maxWheatSend maxWheatReceive maxSheepSend
      maxSheepReceive isPathPayment = .ok r) :
    ∃ wheatValue sheepValue,
      calculateOfferValue price.n price.d maxWheatSend maxSheepReceive = .ok wheatValue ∧
      calculateOfferValue price.d price.n maxSheepSend maxWheatReceive = .ok sheepValue ∧
      exchangeAmounts price wheatValue sheepValue isPathPayment =
        .ok (r.numWheatReceived, r.numSheepSend) ∧
      r.numWheatReceived ≤ maxWheatSend ∧ r.numSheepSend ≤ maxSheepReceive := by
  obtain ⟨wheatValue, hwheat, h⟩ := bind_eq_ok.mp h
  obtain ⟨sheepValue, hsheep, h⟩ := bind_eq_ok.mp h
  obtain ⟨_, hamounts, h⟩ := bind_eq_ok.mp h
  rw [ite_throw_eq_ok, ite_throw_eq_ok] at h
  obtain ⟨_, _, h⟩ := h
  obtain rfl := Except.ok.inj h
  refine ⟨wheatValue, sheepValue, hwheat, hsheep, hamounts, ?_⟩
  dsimp only
  omega

/-- What is left of an offer was exchanged for some sheep. -/
theorem adjustOffer_eq_ok {amount : Int}
    (h : adjustOffer price maxWheatSend maxSheepReceive = .ok amount) (hne : amount ≠ 0) :
    0 < amount ∧ ∃ sheep, 0 < sheep ∧ ∃ stays, exchangeV10WithoutPriceErrorThresholds price
      maxWheatSend INT64_MAX INT64_MAX maxSheepReceive false = .ok ⟨amount, sheep, stays⟩ := by
  obtain ⟨_, hres, h⟩ := bind_eq_ok.mp h
  obtain rfl := Except.ok.inj h
  obtain ⟨_, hbefore, h⟩ := bind_eq_ok.mp hres
  unfold applyPriceErrorThresholds at h
  split at h
  · rename_i hpos
    obtain ⟨_, -, h⟩ := bind_eq_ok.mp h
    obtain ⟨_, -, h⟩ := bind_eq_ok.mp h
    obtain ⟨bounded, -, h⟩ := bind_eq_ok.mp h
    rw [ite_throw_eq_ok, ite_throw_eq_ok] at h
    obtain ⟨-, -, h⟩ := h
    cases bounded with
    | true =>
      obtain rfl := Except.ok.inj h
      exact ⟨hpos.1, _, hpos.2, _, hbefore⟩
    | false =>
      obtain rfl := Except.ok.inj h
      exact absurd rfl hne
  · obtain rfl := Except.ok.inj h
    exact absurd rfl hne

end Inversion

/-! ## Backed offers -/

section Backed

variable {o : OfferEntry} {price : Price} {maxWheatSend maxSheepReceive : Int}

/-- Wheat is worth a sheep if it was exchanged for one, at a price below one. -/
theorem le_mul_of_exchange (hp : ValidPrice price) (hprice : ¬ price.n > price.d)
    (hmax : maxWheatSend ≤ INT64_MAX) {wheat sheep : Int} {stays : Bool} (hsheep : 0 < sheep)
    (h : exchangeV10WithoutPriceErrorThresholds price maxWheatSend INT64_MAX INT64_MAX
      maxSheepReceive false = .ok ⟨wheat, sheep, stays⟩) : price.d ≤ wheat * price.n := by
  obtain ⟨wheatValue, sheepValue, hwheatValue, hsheepValue, hamounts, -, -⟩ := exchange_eq_ok h
  obtain ⟨-, hvalue₀, hvalue, -⟩ := calculateOfferValue_eq_ok hwheatValue
  have hvalueMax : wheatValue ≤ INT64_MAX * price.n :=
    hvalue.trans (Int.mul_le_mul_of_nonneg_right hmax hp.n_pos.le)
  rw [calculateOfferValue_eq hp.d_pos.le hp.d_le hp.n_pos.le hp.n_le isAmount_max isAmount_max]
    at hsheepValue
  have hsheepStays : ¬ wheatValue > sheepValue := by
    rw [← Except.ok.inj hsheepValue, not_lt]
    exact le_min (hvalueMax.trans (Int.mul_le_mul_of_nonneg_left (not_lt.mp hprice)
      INT64_MAX_pos.le)) hvalueMax
  rw [exchangeAmounts, if_neg hsheepStays, if_neg hprice] at hamounts
  obtain ⟨_, hdown, h⟩ := bind_eq_ok.mp hamounts
  obtain ⟨_, hup, h⟩ := bind_eq_ok.mp h
  obtain ⟨rfl, rfl⟩ := Prod.mk.inj (Except.ok.inj h)
  have hfits := hvalueMax.trans (value_le_uint128 isAmount_max hp.n_pos.le hp.n_le)
  obtain ⟨-, rfl⟩ := bigDivide128_down_eq_ok hvalue₀ hfits hdown
  have hsheepMax : wheatValue / price.d ≤ INT64_MAX := Int.ediv_le_of_le_mul hp.d_pos
    (hvalueMax.trans (Int.mul_le_mul_of_nonneg_left (not_lt.mp hprice) INT64_MAX_pos.le))
  obtain ⟨-, -, -, rfl⟩ := bigDivide_eq_ok hsheepMax hp.d_le hp.n_le hup
  calc price.d ≤ wheatValue / price.d * price.d := le_mul_of_one_le_left hp.d_pos.le hsheep
    _ ≤ _ := le_divide_up_mul _ hp.n_pos

/-- The liabilities of an offer that is worth a sheep -/
theorem backed_of_le (hp : ValidPrice o.price) (ha : IsAmount o.amount) (hpos : 0 < o.amount)
    (h : ¬ o.price.n > o.price.d → o.price.d ≤ o.amount * o.price.n) : o.Backed := by
  unfold OfferEntry.Backed OfferEntry.liability
  rw [getOfferBuyingLiabilities_eq hp ha, getOfferSellingLiabilities_eq hp ha]
  show 0 < (offerAmounts o.price o.amount INT64_MAX).2 ∧
    0 < (offerAmounts o.price o.amount INT64_MAX).1
  have hmax {x : Int} (hx : x ≤ INT32_MAX) : x ≤ INT64_MAX * o.price.d :=
    (hx.trans (by decide)).trans (le_mul_of_one_le_right INT64_MAX_pos.le hp.d_pos)
  unfold offerAmounts sheepStaysAmounts
  split
  · rename_i hprice
    have hn : o.price.n ≤ min (o.amount * o.price.n) (INT64_MAX * o.price.d) :=
      le_min (le_mul_of_one_le_left hp.n_pos.le hpos) (hmax hp.n_le)
    have hwheat : 1 ≤ min (o.amount * o.price.n) (INT64_MAX * o.price.d) / o.price.n :=
      (Int.le_ediv_iff_mul_le hp.n_pos).mpr (by rwa [Int.one_mul])
    refine ⟨(Int.le_ediv_iff_mul_le hp.d_pos).mpr ?_, hwheat⟩
    rw [Int.zero_add, Int.one_mul]
    exact hprice.le.trans (le_mul_of_one_le_left hp.n_pos.le hwheat)
  · rename_i hprice
    have hd := le_min (h hprice) (hmax hp.d_le)
    have hsheep : 1 ≤ min (o.amount * o.price.n) (INT64_MAX * o.price.d) / o.price.d :=
      (Int.le_ediv_iff_mul_le hp.d_pos).mpr (by rwa [Int.one_mul])
    refine ⟨hsheep, pos_of_mul_pos_left ?_ hp.n_pos.le⟩
    exact (Int.mul_pos hsheep hp.d_pos).trans_le (le_divide_up_mul _ hp.n_pos)

/-- What is left of an offer is backed, whatever it can sell and buy. -/
theorem backed_of_adjusted (hp : ValidPrice o.price) (hmax : maxWheatSend ≤ INT64_MAX)
    (h : adjustOffer o.price maxWheatSend maxSheepReceive = .ok o.amount) (hne : o.amount ≠ 0) :
    o.Backed ∧ o.amount ≤ maxWheatSend := by
  obtain ⟨hpos, _, hsheep, _, hexchange⟩ := adjustOffer_eq_ok h hne
  obtain ⟨-, -, -, -, -, hle, -⟩ := exchange_eq_ok hexchange
  refine ⟨backed_of_le hp ⟨hpos.le, hle.trans hmax⟩ hpos fun hprice => ?_, hle⟩
  exact le_mul_of_exchange hp hprice hmax hsheep hexchange

/-- Without value nothing is exchanged. -/
theorem exchangeAmounts_zero {isPathPayment : Bool} {wheat sheep : Int}
    (h : exchangeAmounts price 0 0 isPathPayment = .ok (wheat, sheep)) : wheat = 0 ∨ sheep = 0 := by
  have hzero {B x : Int} (h : bigDivide128 0 B .ROUND_DOWN = .ok x) : x = 0 := by
    rw [(bigDivide128_down_eq_ok le_rfl (by decide) h).2, Int.zero_ediv]
  rw [exchangeAmounts, if_neg (lt_irrefl _)] at h
  split at h
  · obtain ⟨_, hdown, h⟩ := bind_eq_ok.mp h
    obtain ⟨_, -, h⟩ := bind_eq_ok.mp h
    obtain ⟨rfl, rfl⟩ := Prod.mk.inj (Except.ok.inj h)
    exact .inl (hzero hdown)
  · obtain ⟨_, hdown, h⟩ := bind_eq_ok.mp h
    obtain ⟨_, -, h⟩ := bind_eq_ok.mp h
    obtain ⟨rfl, rfl⟩ := Prod.mk.inj (Except.ok.inj h)
    exact .inr (hzero hdown)

end Backed

end EssaCore.Transactions

namespace EssaCore.Ledger

open Transactions Lib

variable {o : OfferEntry}

/-- The liabilities of an offer that is backed were computed. -/
theorem OfferEntry.Backed.computed (h : o.Backed) :
    ∃ r, offerExchange o = .ok r ∧ 0 < r.numWheatReceived ∧ 0 < r.numSheepSend := by
  obtain ⟨hbuying, hselling⟩ := h
  unfold OfferEntry.liability getOfferBuyingLiabilities getOfferSellingLiabilities at *
  cases hr : offerExchange o with
  | error e =>
    rw [hr] at hbuying
    cases hbuying
  | ok r =>
    rw [hr] at hbuying hselling
    exact ⟨r, rfl, hselling, hbuying⟩

/-- A backed offer has a price, and an amount to sell. -/
theorem OfferEntry.Backed.valid (h : o.Backed) (hfits : o.Fits) :
    ValidPrice o.price ∧ 0 < o.amount ∧ IsAmount o.amount := by
  obtain ⟨r, hr, hwheat, hsheep⟩ := h.computed
  obtain ⟨wheatValue, sheepValue, hwheatValue, hsheepValue, hamounts, hle, -⟩ := exchange_eq_ok hr
  obtain ⟨⟨-, hn, -, hd⟩, hwheat₀, hwheatN, hwheatD⟩ := calculateOfferValue_eq_ok hwheatValue
  obtain ⟨-, hsheep₀, hsheepD, hsheepN⟩ := calculateOfferValue_eq_ok hsheepValue
  have hworth : ¬ (wheatValue = 0 ∧ sheepValue = 0) := by
    rintro ⟨rfl, rfl⟩
    rcases exchangeAmounts_zero hamounts with hzero | hzero
    · exact hwheat.ne' hzero
    · exact hsheep.ne' hzero
  have hpos : 0 < o.amount := hwheat.trans_le hle
  refine ⟨⟨lt_of_le_of_ne hn fun hzero => hworth ?_, hfits.1,
    lt_of_le_of_ne hd fun hzero => hworth ?_, hfits.2.1⟩, hpos, hpos.le, hfits.2.2⟩
  · rw [← hzero, Int.mul_zero] at hwheatN hsheepN
    exact ⟨le_antisymm hwheatN hwheat₀, le_antisymm hsheepN hsheep₀⟩
  · rw [← hzero] at hwheatD hsheepD
    exact ⟨le_antisymm hwheatD hwheat₀, le_antisymm hsheepD hsheep₀⟩

end EssaCore.Ledger
