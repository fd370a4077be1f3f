import EssaCore.Transactions.ExchangeRounding
import EssaCore.Transactions.TransactionUtils

/-!
# Adjusted offers

An offer is adjusted before it enters the book and before it is crossed. Its liabilities are
what a buyer without limits takes of it, and such a buyer takes an adjusted offer as it is.

- `adjustOffer_consistent` — adjusting again changes nothing, and the liabilities are within
  the limits the offer was adjusted to;
- `exchange_adjusted` — an exchange with an adjusted offer stays within the price bound.
-/

namespace EssaCore.Transactions

open Ledger Lib

section Liabilities

variable {o : OfferEntry}

theorem offerExchange_eq (hp : ValidPrice o.price) (ha : IsAmount o.amount) :
    offerExchange o = .ok ⟨(offerAmounts o.price o.amount INT64_MAX).1,
      (offerAmounts o.price o.amount INT64_MAX).2, false⟩ := by
  rw [offerExchange, exchange_eq hp ha isAmount_max isAmount_max isAmount_max,
    exchangeResult_offer hp ha.2 le_rfl]

theorem getOfferBuyingLiabilities_eq (hp : ValidPrice o.price) (ha : IsAmount o.amount) :
    getOfferBuyingLiabilities o = .ok (offerAmounts o.price o.amount INT64_MAX).2 := by
  rw [getOfferBuyingLiabilities, offerExchange_eq hp ha]
  rfl

theorem getOfferSellingLiabilities_eq (hp : ValidPrice o.price) (ha : IsAmount o.amount) :
    getOfferSellingLiabilities o = .ok (offerAmounts o.price o.amount INT64_MAX).1 := by
  rw [getOfferSellingLiabilities, offerExchange_eq hp ha]
  rfl

end Liabilities

section Adjusted

variable {price : Price} {maxWheatSend maxSheepReceive : Int}

theorem isAmount_adjusted (hp : ValidPrice price) (hws : IsAmount maxWheatSend)
    (hsr : 0 ≤ maxSheepReceive) : IsAmount (adjustedAmount price maxWheatSend maxSheepReceive) :=
  ⟨adjustedAmount_nonneg, (adjustedAmount_le hp hws.1 hsr).trans hws.2⟩

/-- Adjusting an offer is idempotent, and what is left of it has liabilities within the limits
and the price bound. -/
theorem adjustOffer_consistent (hp : ValidPrice price) (hws : IsAmount maxWheatSend)
    (hsr : IsAmount maxSheepReceive) :
    ∃ a, adjustOffer price maxWheatSend maxSheepReceive = .ok a ∧ a ≤ maxWheatSend ∧
      adjustOffer price a maxSheepReceive = .ok a ∧
      (0 < a → ∀ o : OfferEntry, o.price = price → o.amount = a →
        getOfferSellingLiabilities o = .ok a ∧
        ∃ buying, getOfferBuyingLiabilities o = .ok buying ∧ 0 < buying ∧
          buying ≤ maxSheepReceive ∧ checkPriceErrorBound price a buying false = .ok true) := by
  have ha := isAmount_adjusted hp hws hsr.1
  refine ⟨_, adjustOffer_eq hp hws hsr, adjustedAmount_le hp hws.1 hsr.1, ?_, ?_⟩
  · rw [adjustOffer_eq hp ha hsr, adjustedAmount_idem hp hsr.1]
  · rintro hpos o rfl hamount
    obtain ⟨hwheat, hsheep, hbound⟩ := adjustedAmount_pos hpos
    have hwithin := offerAmounts_within hp hws.1 hsr.1
    have hsheepMax := hwithin.sheep_le _ (min_le_right _ _)
    have hadjusted := offerAmounts_adjusted hp hpos hsr.2
    rw [← hamount] at ha hwheat hadjusted ⊢
    rw [getOfferSellingLiabilities_eq hp ha, getOfferBuyingLiabilities_eq hp ha, hadjusted]
    refine ⟨congrArg _ hwheat.symm, _, rfl, hsheep, hsheepMax, ?_⟩
    rw [checkPriceErrorBound_eq hp ha ⟨hsheep.le, hsheepMax.trans hsr.2⟩, hwheat, hbound]

theorem adjustOffer_consistent_limited :
    ∃ a, adjustOffer ⟨3, 2⟩ 35 52 = .ok a ∧ adjustOffer ⟨3, 2⟩ a 52 = .ok a := by
  obtain ⟨a, ha, -, hidem, -⟩ := adjustOffer_consistent
    (⟨by decide, by decide, by decide, by decide⟩ : ValidPrice ⟨3, 2⟩)
    (⟨by decide, by decide⟩ : IsAmount 35) (⟨by decide, by decide⟩ : IsAmount 52)
  exact ⟨a, ha, hidem⟩

/-! ## Exchanges with adjusted offers -/

variable {maxWheatReceive maxSheepSend : Int}

/-- What is exchanged with an offer that does not stay is what a buyer without limits takes. -/
theorem exchangeResult_of_not_stays {isPathPayment : Bool}
    (h : (exchangeResult price maxWheatSend maxWheatReceive maxSheepSend maxSheepReceive
      isPathPayment).wheatStays = false) :
    exchangeResult price maxWheatSend maxWheatReceive maxSheepSend maxSheepReceive
        isPathPayment = ⟨(offerAmounts price maxWheatSend maxSheepReceive).1,
      (offerAmounts price maxWheatSend maxSheepReceive).2, false⟩ := by
  have hstays := of_decide_eq_false h
  simp only [exchangeResult, amountsAt, if_neg hstays, decide_eq_false hstays]
  rfl

/-- An exchange with an adjusted offer is empty or within the bound of path payments: either
wheat stays and its seller is favoured, or the whole offer is taken. -/
theorem exchangeResult_adjusted_bounded (hp : ValidPrice price) (hsr : 0 ≤ maxSheepReceive)
    (hwr : 0 ≤ maxWheatReceive)
    (hss : 0 ≤ maxSheepSend) {r : ExchangeResultV10}
    (hr : r = exchangeResult price (adjustedAmount price maxWheatSend maxSheepReceive)
      maxWheatReceive maxSheepSend maxSheepReceive true) (hpos : 0 < r.numWheatReceived) :
    priceErrorBounded price r.numWheatReceived r.numSheepSend true = true := by
  have h : Exchanged price _ maxWheatReceive maxSheepSend maxSheepReceive r :=
    hr ▸ exchangeResult_exchanged hp adjustedAmount_nonneg hwr hss hsr true
  cases hstays : r.wheatStays with
  | true => exact priceErrorBounded_of_favors hp.n_pos h.wheat_nonneg (h.wheat_favored hstays)
  | false =>
    have hadjusted : 0 < adjustedAmount price maxWheatSend maxSheepReceive :=
      hpos.trans_le h.wheat_le_send
    have hall := exchangeResult_of_not_stays (hr ▸ hstays)
    rw [offerAmounts_adjusted hp hadjusted le_rfl] at hall
    rw [hr, hall]
    exact priceErrorBounded_mono true (adjustedAmount_pos hadjusted).2.2

theorem applied_true {r : ExchangeResultV10}
    (h : 0 < r.numWheatReceived → priceErrorBounded price r.numWheatReceived r.numSheepSend
      true = true) :
    applied price r true = .ok (if 0 < r.numWheatReceived ∧ 0 < r.numSheepSend then r
      else ⟨0, 0, r.wheatStays⟩) := by
  unfold applied
  split
  · rename_i hpos
    rw [if_pos (h hpos.1)]
  · rfl

/-- The price of an exchange differs from the offer's by at most one percent. -/
def WithinOnePercent (price : Price) (wheat sheep : Int) : Prop :=
  100 * |sheep * price.d - wheat * price.n| ≤ wheat * price.n

theorem withinOnePercent_of_bounded {wheat sheep : Int}
    (h : priceErrorBounded price wheat sheep false = true) :
    WithinOnePercent price wheat sheep := by
  have hlhs : 100 * price.n * wheat = 100 * (wheat * price.n) := by ring
  have hrhs : 100 * price.d * sheep = 100 * (sheep * price.d) := by ring
  simp only [priceErrorBounded, Bool.false_and, Bool.false_or, decide_eq_true_eq,
    mul_comm price.n wheat] at h
  unfold WithinOnePercent
  split at h
  · rw [abs_of_nonpos (by omega)]
    omega
  · rw [abs_of_nonneg (by omega)]
    omega

theorem applied_false (r : ExchangeResultV10) : ∃ r', applied price r false = .ok r' ∧
      (r'.numWheatReceived = 0 ∧ r'.numSheepSend = 0 ∨
        0 < r'.numWheatReceived ∧ 0 < r'.numSheepSend ∧
          WithinOnePercent price r'.numWheatReceived r'.numSheepSend) := by
  unfold applied
  split
  · rename_i hpos
    split
    · rename_i hbound
      exact ⟨r, rfl, .inr ⟨hpos.1, hpos.2, withinOnePercent_of_bounded hbound⟩⟩
    · exact ⟨_, rfl, .inl ⟨rfl, rfl⟩⟩
  · exact ⟨_, rfl, .inl ⟨rfl, rfl⟩⟩

/-- Rounding up is the ceiling of the fraction. -/
theorem divide_up_eq_ceil (a : Int) {b : Int} (hb : 0 < b) :
    divide a b .ROUND_UP = ⌈(a : ℚ) / b⌉ := by
  have hb' : (0 : ℚ) < b := by exact_mod_cast hb
  symm
  rw [Int.ceil_eq_iff, lt_div_iff₀ hb', div_le_iff₀ hb']
  constructor
  · have := divide_up_mul_lt a hb
    have : (divide a b .ROUND_UP - 1) * b < a := by
      rw [Int.sub_mul]
      omega
    exact_mod_cast this
  · exact_mod_cast le_divide_up_mul a hb

/-- A path payment that the sender's limit does not restrict is delivered exactly. -/
theorem exchangeResult_exact (hn : 0 < price.n)
    (hstays : (exchangeResult price maxWheatSend maxWheatReceive maxSheepSend maxSheepReceive
      true).wheatStays = true)
    (hsend : maxSheepSend * price.d ≥ maxWheatReceive * price.n) :
    exchangeResult price maxWheatSend maxWheatReceive maxSheepSend maxSheepReceive true =
      ⟨maxWheatReceive, divide (maxWheatReceive * price.n) price.d .ROUND_UP, true⟩ := by
  have hstays := of_decide_eq_true hstays
  simp only [exchangeResult, amountsAt, if_pos hstays, decide_eq_true hstays, wheatStaysAmounts,
    or_true, if_true]
  rw [min_eq_right hsend, Int.mul_ediv_cancel _ (Int.ne_of_gt hn)]

/-- An exchange with an adjusted offer: a path payment does not exceed the price bound and is
delivered exactly unless the sender's limit restricts it; any other exchange is empty or within
one percent of the offer's price. -/
theorem exchange_adjusted (hp : ValidPrice price) (hws : IsAmount maxWheatSend)
    (hsr : IsAmount maxSheepReceive) {maxWheatReceive maxSheepSend : Int}
    (hwr : IsAmount maxWheatReceive) (hss : IsAmount maxSheepSend) :
    ∃ a, adjustOffer price maxWheatSend maxSheepReceive = .ok a ∧
      (∃ r, exchangeV10 price a maxWheatReceive maxSheepSend maxSheepReceive true = .ok r ∧
        (r.wheatStays = true → maxSheepSend * price.d ≥ maxWheatReceive * price.n →
          r.numWheatReceived = 0 ∧ r.numSheepSend = 0 ∨
          r.numWheatReceived = maxWheatReceive ∧
            r.numSheepSend = ⌈(maxWheatReceive * price.n : ℚ) / price.d⌉)) ∧
      ∃ r, exchangeV10 price a maxWheatReceive maxSheepSend maxSheepReceive false = .ok r ∧
        (r.numWheatReceived = 0 ∧ r.numSheepSend = 0 ∨ 0 < r.numWheatReceived ∧ 0 < r.numSheepSend ∧
            WithinOnePercent price r.numWheatReceived r.numSheepSend) := by
  have ha := isAmount_adjusted hp hws hsr.1
  refine ⟨_, adjustOffer_eq hp hws hsr, ?_, ?_⟩
  · rw [exchangeV10_eq hp ha hwr hss hsr, applied_true
      (exchangeResult_adjusted_bounded hp hsr.1 hwr.1 hss.1 rfl)]
    refine ⟨_, rfl, ?_⟩
    split
    · intro hstays hsend
      rw [exchangeResult_exact hp.n_pos hstays hsend, divide_up_eq_ceil _ hp.d_pos]
      exact .inr ⟨rfl, by push_cast; rfl⟩
    · exact fun _ _ => .inl ⟨rfl, rfl⟩
  · rw [exchangeV10_eq hp ha hwr hss hsr]
    exact applied_false _

theorem exchange_adjusted_limited : ∃ a, adjustOffer ⟨3, 2⟩ 100 60 = .ok a ∧
      ∃ r, exchangeV10 ⟨3, 2⟩ a 7 50 60 true = .ok r := by
  obtain ⟨a, ha, ⟨r, hr, -⟩, -⟩ := exchange_adjusted
    (⟨by decide, by decide, by decide, by decide⟩ : ValidPrice ⟨3, 2⟩)
    (⟨by decide, by decide⟩ : IsAmount 100) (⟨by decide, by decide⟩ : IsAmount 60)
    (⟨by decide, by decide⟩ : IsAmount 7) (⟨by decide, by decide⟩ : IsAmount 50)
  exact ⟨a, ha, r, hr⟩

end Adjusted

end EssaCore.Transactions
