import EssaCore.Transactions.Accounting
import EssaCore.Transactions.ConvertWithOffers

/-!
# What taking offers changes

Every offer that `convertWithOffers` takes goes through the same phases: its liabilities
are released, wheat and sheep change hands, and what is left of it goes back into the book
with its liabilities, or the offer is erased. Each phase is a list of changes.

- `Crosses` — a call of `crossOfferV10` that returns, phase by phase;
- `Converts` — a run of the loop of `convertWithOffers`, offer by offer;
- `crossOfferV10_crosses`, `convertWithOffers_converts` — the code does nothing else.
-/

open List Option

namespace EssaCore.Transactions

open Ledger Lib

/-! ## One offer -/

variable {isPathPayment : Bool}

/-- Wheat and sheep are exchanged for each other, or nothing is exchanged. -/
theorem exchangeV10_pos_or_zero {price : Price} {maxWheatSend maxWheatReceive maxSheepSend
    maxSheepReceive : Int} {ex : ExchangeResultV10}
    (h : exchangeV10 price maxWheatSend maxWheatReceive maxSheepSend maxSheepReceive
      isPathPayment = .ok ex) :
    (0 < ex.numWheatReceived ∧ 0 < ex.numSheepSend) ∨
      (ex.numWheatReceived = 0 ∧ ex.numSheepSend = 0) := by
  obtain ⟨_, -, h⟩ := bind_eq_ok.mp h
  unfold applyPriceErrorThresholds at h
  split at h
  · rename_i hpos
    obtain ⟨_, -, h⟩ := bind_eq_ok.mp h
    obtain ⟨_, -, h⟩ := bind_eq_ok.mp h
    obtain ⟨_, -, h⟩ := bind_eq_ok.mp h
    split at h
    · cases h
    · split at h
      · cases h
      · split at h
        · obtain rfl := Except.ok.inj h
          exact .inl hpos
        · split at h
          · cases h
          · obtain rfl := Except.ok.inj h
            exact .inr ⟨rfl, rfl⟩
  · obtain rfl := Except.ok.inj h
    exact .inr ⟨rfl, rfl⟩

/-- The changes that `settle` makes -/
def settleChange (id : AccountID) (asset : Asset) (delta : Int) : List Change :=
  if delta = 0 then [] else [.amount .balance id asset delta]

/-- The changes by which an exchange is settled -/
def settleChanges (offer : OfferEntry) (ex : ExchangeResultV10) : List Change :=
  settleChange offer.sellerID offer.buying ex.numSheepSend ++
    settleChange offer.sellerID offer.selling (-ex.numWheatReceived)

/-- The changes that end an exchange with an offer -/
def finishChanges (offer : OfferEntry) (amount : Int) : List Change :=
  if amount = 0 then [.eraseOffer offer, .numEntries offer.sellerID (-1)]
  else .setAmount offer amount :: liabilityChanges { offer with amount := amount } true

/-- All changes of an exchange with an offer -/
def crossChanges (offer : OfferEntry) (ex : ExchangeResultV10) (amount : Int) : List Change :=
  liabilityChanges offer false ++ (settleChanges offer ex ++ finishChanges offer amount)

/-- What crossing an offer returns -/
def crossResult (offer : OfferEntry) (ex : ExchangeResultV10) (amount : Int) :
    CrossOfferResult where
  numWheatReceived := ex.numWheatReceived
  numSheepSend := ex.numSheepSend
  wheatStays := ex.wheatStays
  claim := ⟨offer.sellerID, offer.offerID, offer.selling, ex.numWheatReceived, offer.buying,
    ex.numSheepSend⟩
  taken := amount = 0

/-- A call of `crossOfferV10` that returns -/
inductive Crosses (s : LedgerState) (offer : OfferEntry) (maxWheatReceived maxSheepSend : Int)
    (isPathPayment : Bool) : CrossOfferResult → LedgerState → Prop
  | intro {released settled s' : LedgerState} {adjusted amount : Int} {limits : Int × Int}
      {ex : ExchangeResultV10} (hassets : offer.buying ≠ offer.selling)
      (hcomputed : ∃ r, offerExchange offer = .ok r)
      (hrelease : Journal s (liabilityChanges offer false) released)
      (hlimits : sellerLimits released offer = .ok limits)
      (hadjust : adjustOffer offer.price (min offer.amount limits.1) limits.2 = .ok adjusted)
      (hexchange : exchangeV10 offer.price (min adjusted limits.1) maxWheatReceived maxSheepSend
        limits.2 isPathPayment = .ok ex)
      (hsettle : Journal released (settleChanges offer ex) settled)
      (htaken : ex.wheatStays = false → amount = 0)
      (hstays : ex.wheatStays = true → ∃ limits, sellerLimits settled offer = .ok limits ∧
        adjustOffer offer.price (min (adjusted - ex.numWheatReceived) limits.1) limits.2 =
          .ok amount)
      (hfinish : Journal settled (finishChanges offer amount) s') :
      Crosses s offer maxWheatReceived maxSheepSend isPathPayment (crossResult offer ex amount) s'

variable {o : OfferEntry} {asset : Asset} {id : AccountID}

section CrossOffer

variable {s : LedgerState} {offer : OfferEntry}

theorem wlp_settle {delta : Int} {what : String}
    {Q : Unit → LedgerState → Prop}
    (h : ∀ s', Journal s (settleChange id asset delta) s' → Q () s') :
    wlp (settle id asset delta what) Q s := by
  unfold settle settleChange at *
  split
  · rename_i hdelta
    rw [if_pos hdelta] at h
    exact h s (.nil s)
  · rename_i hdelta
    rw [if_neg hdelta] at h
    rw [wlp, wp_bind]
    refine wp_addBalanceTo ⟨fun s' hstep => ?_, fun _ => ⟨?_, fun _ => trivial⟩⟩
    · rw [wp_throwIf]
      exact ⟨by simp, fun _ => h s' (.single hstep)⟩
    · rw [wp_throwIf]
      exact ⟨fun _ => trivial, fun h => absurd rfl h⟩

theorem wlp_adjustOfferEntry {Q : Int → LedgerState → Prop}
    (h : ∀ limits amount, sellerLimits s offer = .ok limits →
      adjustOffer offer.price (min offer.amount limits.1) limits.2 = .ok amount → Q amount s) :
    wlp (adjustOfferEntry offer) Q s := by
  simp only [adjustOfferEntry, wp_bind, wp_lift, implies_true, and_true]
  exact fun limits hlimits amount hadjust => h limits amount hlimits hadjust

theorem wlp_finishOffer {amount : Int} {Q : Unit → LedgerState → Prop}
    (ho : s.offer offer.sellerID offer.offerID = some offer)
    (h : ∀ s', Journal s (finishChanges offer amount) s' → Q () s') :
    wlp (finishOffer { offer with amount := amount }) Q s := by
  unfold finishOffer finishChanges at *
  split
  · rename_i hamount
    rw [if_pos hamount] at h
    simp only [wp_bind, wp_eraseEntry]
    refine wp_removeEntry (fun s' hstep => ?_) fun _ _ => trivial
    exact h s' (.cons (.eraseOffer ho) (.single hstep))
  · rename_i hamount
    rw [if_neg hamount] at h
    refine wp_acquireOrReleaseLiabilities (fun s' _ _ hjournal => ?_) fun _ _ _ => trivial
    exact h s' (.cons (.setAmount ho) hjournal)

theorem assetKey_ne_offer {sellerID : AccountID} {offerID : Nat} :
    assetKey id asset ≠ .offer sellerID offerID := by
  unfold assetKey
  split <;> exact nofun

/-- Amounts move without a change of an offer. -/
theorem offer_of_amounts {s' : LedgerState} {cs : List Change} (h : Journal s cs s')
    (hcs : ∀ c ∈ cs, ∃ q id asset delta, c = .amount q id asset delta) (id : AccountID)
    (offerID : Nat) : s'.offer id offerID = s.offer id offerID := by
  unfold LedgerState.offer
  rw [lookup_of_journal h]
  intro c hc hkey
  obtain ⟨q, _, asset, delta, rfl⟩ := hcs c hc
  exact assetKey_ne_offer (some.inj hkey)

theorem liabilityChanges_amounts {isAcquire : Bool} :
    ∀ c ∈ liabilityChanges o isAcquire, ∃ q id asset delta, c = .amount q id asset delta := by
  intro c hc
  simp only [liabilityChanges, mem_cons, not_mem_nil, or_false] at hc
  rcases hc with rfl | rfl
  · exact ⟨_, _, _, _, rfl⟩
  · exact ⟨_, _, _, _, rfl⟩

theorem settleChanges_amounts {ex : ExchangeResultV10} :
    ∀ c ∈ settleChanges offer ex, ∃ q id asset delta, c = .amount q id asset delta := by
  intro c hc
  unfold settleChanges settleChange at hc
  rcases mem_append.mp hc with hc | hc
  · split at hc
    · cases hc
    · exact ⟨_, _, _, _, mem_singleton.mp hc⟩
  · split at hc
    · cases hc
    · exact ⟨_, _, _, _, mem_singleton.mp hc⟩

/-- A call of `crossOfferV10` that returns has gone through the phases. -/
theorem crossOfferV10_crosses {maxWheatReceived maxSheepSend : Int}
    (ho : s.offer offer.sellerID offer.offerID = some offer) :
    wlp (crossOfferV10 offer maxWheatReceived maxSheepSend isPathPayment)
      (Crosses s offer maxWheatReceived maxSheepSend isPathPayment) s := by
  simp only [crossOfferV10, wp_bind, wp_lift, wp_orThrow, implies_true, and_true]
  intro _ _ _ _ acc _
  refine wp_acquireOrReleaseLiabilities (fun released hassets hcomputed hrelease => ?_)
    fun _ _ _ => trivial
  refine wlp_adjustOfferEntry fun limits adjusted hlimits hadjust => ?_
  simp only [exchangeWithOffer, wp_bind, wp_lift, implies_true, and_true]
  intro limits' hlimits' ex hexchange
  obtain rfl : limits = limits' := Except.ok.inj (hlimits.symm.trans hlimits')
  refine wlp_settle fun paid hpaid => wlp_settle fun settled hsettled => ?_
  have hsettle : Journal released (settleChanges offer ex) settled := hpaid.append hsettled
  have ho' : settled.offer offer.sellerID offer.offerID = some offer := by
    rw [offer_of_amounts hsettle settleChanges_amounts,
      offer_of_amounts hrelease liabilityChanges_amounts, ho]
  unfold remainingAmount
  split
  · rename_i hstays
    refine wlp_adjustOfferEntry fun limits' amount hlimits' hadjust' => ?_
    refine wlp_finishOffer ho' fun s' hfinish => ?_
    refine .intro hassets hcomputed hrelease hlimits hadjust hexchange hsettle ?_ ?_ hfinish
    · intro h
      rw [hstays] at h
      cases h
    · exact fun _ => ⟨limits', hlimits', hadjust'⟩
  · rename_i hstays
    refine wlp_finishOffer ho' fun s' hfinish => ?_
    exact .intro hassets hcomputed hrelease hlimits hadjust hexchange hsettle (fun _ => rfl)
      (fun h => absurd h hstays) hfinish

theorem Crosses.journal {maxWheatReceived maxSheepSend : Int}
    {r : CrossOfferResult} {s' : LedgerState}
    (h : Crosses s offer maxWheatReceived maxSheepSend isPathPayment r s') :
    ∃ ex amount, r = crossResult offer ex amount ∧ Journal s (crossChanges offer ex amount) s' := by
  obtain ⟨-, -, hrelease, -, -, -, hsettle, -, -, hfinish⟩ := h
  exact ⟨_, _, rfl, hrelease.append (hsettle.append hfinish)⟩

end CrossOffer

/-! ## The accounts of an exchange -/

section Accounts

variable {offer : OfferEntry} {ex : ExchangeResultV10} {amount : Int}

/-- What the seller of an offer gains of an asset -/
def ClaimOfferAtom.gain (id : AccountID) (asset : Asset) (claim : ClaimOfferAtom) : Int :=
  if claim.sellerID = id then
    (if claim.assetBought = asset then claim.amountBought else 0) -
      (if claim.assetSold = asset then claim.amountSold else 0)
  else 0

/-- Settling nothing adds nothing. -/
theorem settleChange_sum {f : Change → Int}
    (hf : f (.amount .balance id asset 0) = 0) (delta : Int) :
    ((settleChange id asset delta).map f).sum = f (.amount .balance id asset delta) := by
  unfold settleChange
  split
  · rename_i hdelta
    rw [hdelta, hf]
    rfl
  · simp

theorem liabilityIn_balance : liabilityIn .balance id asset offer = 0 := ite_self 0

variable (id : AccountID)

/-- What is stored changes by the liabilities of the offer. -/
theorem liabilityChanges_delta (q : Quantity) (asset : Asset) (isAcquire : Bool) :
    ((liabilityChanges offer isAcquire).map (Change.delta q id asset)).sum =
      if isAcquire then liabilityIn q id asset offer else -liabilityIn q id asset offer := by
  by_cases hid : offer.sellerID = id
  · cases q <;> cases isAcquire <;>
      simp [liabilityChanges, Change.delta, liabilityIn, OfferEntry.asset, OfferEntry.liability,
        hid] <;> split <;> simp
  · simp [liabilityChanges, Change.delta, liabilityIn, hid]

/-- Without a settlement, what is stored changes with the offer. -/
theorem finishChanges_delta (q : Quantity) (asset : Asset) :
    ((finishChanges offer amount).map (Change.delta q id asset)).sum =
      liabilityIn q id asset offer +
        ((finishChanges offer amount).map (Change.offered q id asset)).sum := by
  unfold finishChanges
  split
  · simp [Change.delta, Change.offered]
  · rw [map_cons, sum_cons, liabilityChanges_delta]
    simp [Change.delta, Change.offered, liabilityChanges]

theorem liabilityChanges_offered (q : Quantity) (asset : Asset)
    (isAcquire : Bool) :
    ((liabilityChanges offer isAcquire).map (Change.offered q id asset)).sum = 0 := rfl

/-- The seller is paid and pays, and nobody else is. -/
theorem crossChanges_balance (asset : Asset) :
    ((crossChanges offer ex amount).map (Change.delta .balance id asset)).sum =
      (crossResult offer ex amount).claim.gain id asset := by
  have hoffered :
      ((finishChanges offer amount).map (Change.offered .balance id asset)).sum = 0 := by
    unfold finishChanges
    split <;> simp [Change.offered, liabilityIn_balance, liabilityChanges]
  simp only [crossChanges, settleChanges, map_append, sum_append, liabilityChanges_delta,
    finishChanges_delta, hoffered, settleChange_sum (f := Change.delta .balance id asset) (ite_self
      0)]
  by_cases hid : offer.sellerID = id
  · by_cases hselling : offer.selling = asset
    · simp [Change.delta, crossResult, ClaimOfferAtom.gain, hid, hselling, Int.sub_eq_add_neg]
    · simp [Change.delta, crossResult, ClaimOfferAtom.gain, hid, hselling]
  · simp [Change.delta, crossResult, ClaimOfferAtom.gain, hid]

/-- The liabilities that are stored change with those of the offer. -/
theorem crossChanges_liabilities {q : Quantity} (hq : q ≠ .balance)
    (asset : Asset) :
    ((crossChanges offer ex amount).map (Change.delta q id asset)).sum =
      ((crossChanges offer ex amount).map (Change.offered q id asset)).sum := by
  have hsettle {f : Change → Int} (hf : ∀ id asset delta, f (.amount .balance id asset delta) = 0) :
      ((settleChanges offer ex).map f).sum = 0 := by
    rw [settleChanges, map_append, sum_append, settleChange_sum (hf _ _ _),
      settleChange_sum (hf _ _ _), hf, hf]
    rfl
  simp only [crossChanges, map_append, sum_append, liabilityChanges_delta,
    liabilityChanges_offered, finishChanges_delta]
  rw [hsettle fun _ _ _ => if_neg fun h => hq h.1.symm,
    hsettle fun _ _ _ => rfl, if_neg Bool.false_ne_true]
  omega

theorem crossChanges_offers : ((crossChanges offer ex amount).map Change.offers).sum =
      if (crossResult offer ex amount).taken then -1 else 0 := by
  simp only [crossChanges, settleChanges, map_append, sum_append,
    settleChange_sum (f := Change.offers) rfl]
  unfold finishChanges
  split
  · rename_i hamount
    simp [crossResult, hamount, liabilityChanges, Change.offers]
  · rename_i hamount
    simp [crossResult, hamount, liabilityChanges, Change.offers]

end Accounts

/-! ## One offer after the other -/

section Best

variable {env : TxEnv} {s : LedgerState} {buying selling : Asset} {o : OfferEntry}

theorem mem_offersFor :
    o ∈ offersFor s buying selling ↔ o ∈ s.offers ∧ o.buying = buying ∧ o.selling = selling := by
  simp [offersFor]

private theorem foldl_betterOf_mem (best : Option OfferEntry) (os : List OfferEntry)
    (h : os.foldl (betterOf env) best = some o) : best = some o ∨ o ∈ os := by
  induction os generalizing best with
  | nil => exact .inl h
  | cons o' os ih =>
    rcases ih _ h with hbest | hmem
    · unfold betterOf at hbest
      split at hbest
      · exact .inr (some.inj hbest ▸ mem_cons_self)
      · split at hbest
        · exact .inr (some.inj hbest ▸ mem_cons_self)
        · exact .inl hbest
    · exact .inr (mem_cons_of_mem _ hmem)

theorem bestOffer_mem (h : bestOffer env s buying selling = some o) :
    o ∈ offersFor s buying selling := by
  rcases foldl_betterOf_mem none _ h with h | h
  · cases h
  · exact h

theorem offer_of_best (h : bestOffer env s buying selling = some o) :
    s.offer o.sellerID o.offerID = some o :=
  s.mem_offers.mp (mem_offersFor.mp (bestOffer_mem h)).1

private theorem foldl_betterOf_some (best : OfferEntry) (os : List OfferEntry) :
    ∃ o, os.foldl (betterOf env) (some best) = some o := by
  induction os generalizing best with
  | nil => exact ⟨best, rfl⟩
  | cons o os ih =>
    rw [foldl_cons, betterOf]
    split
    · exact ih o
    · exact ih best

theorem bestOffer_eq_none (h : bestOffer env s buying selling = none) :
    offersFor s buying selling = [] := by
  cases hos : offersFor s buying selling with
  | nil => rfl
  | cons o os =>
    rw [bestOffer, hos, foldl_cons] at h
    obtain ⟨o', ho'⟩ : ∃ o', os.foldl (betterOf env) (some o) = some o' :=
      foldl_betterOf_some o os
    rw [betterOf, ho'] at h
    cases h

end Best

section Convert

variable {env : TxEnv} {sheep wheat : Asset} {isPathPayment : Bool}
  {filter : OfferEntry → Except TxError OfferFilterResult}

/-- A run of the loop of `convertWithOffers` within limits, with the offers that are taken and
what is exchanged with them -/
inductive Converts (env : TxEnv) (sheep wheat : Asset) (isPathPayment : Bool)
    (filter : OfferEntry → Except TxError OfferFilterResult) :
    LedgerState → (maxSheepSend maxWheatReceive : Int) → ConvertResult →
      List (OfferEntry × CrossOfferResult) → LedgerState → Prop
  | exhausted {s : LedgerState} {maxSheepSend maxWheatReceive : Int}
      (hbest : bestOffer env s sheep wheat = none) :
      Converts env sheep wheat isPathPayment filter s maxSheepSend maxWheatReceive .ePartial [] s
  | stopped {s : LedgerState} {maxSheepSend maxWheatReceive : Int} {o : OfferEntry}
      {code : Option InnerResultCode} (hbest : bestOffer env s sheep wheat = some o)
      (hfilter : filter o = .ok (.eStop code)) :
      Converts env sheep wheat isPathPayment filter s maxSheepSend maxWheatReceive
        (.eFilterStop code) [] s
  | last {s s' : LedgerState} {maxSheepSend maxWheatReceive : Int} {o : OfferEntry}
      {r : CrossOfferResult} (hbest : bestOffer env s sheep wheat = some o)
      (hfilter : filter o = .ok .eKeep)
      (hcall : crossOfferV10 o maxWheatReceive maxSheepSend isPathPayment s = .ok r s')
      (hsheep : 0 ≤ r.numSheepSend ∧ r.numSheepSend ≤ maxSheepSend)
      (hwheat : 0 ≤ r.numWheatReceived ∧ r.numWheatReceived ≤ maxWheatReceive)
      (hdone : r.wheatStays = true ∨ ¬ (maxWheatReceive - r.numWheatReceived > 0 ∧
        maxSheepSend - r.numSheepSend > 0)) :
      Converts env sheep wheat isPathPayment filter s maxSheepSend maxWheatReceive .eOK
        [(o, r)] s'
  | next {s s' s'' : LedgerState} {maxSheepSend maxWheatReceive : Int} {o : OfferEntry}
      {r : CrossOfferResult} {result : ConvertResult}
      {rest : List (OfferEntry × CrossOfferResult)}
      (hbest : bestOffer env s sheep wheat = some o) (hfilter : filter o = .ok .eKeep)
      (hcall : crossOfferV10 o maxWheatReceive maxSheepSend isPathPayment s = .ok r s')
      (hsheep : 0 ≤ r.numSheepSend ∧ r.numSheepSend ≤ maxSheepSend)
      (hwheat : 0 ≤ r.numWheatReceived ∧ r.numWheatReceived ≤ maxWheatReceive)
      (htaken : r.taken = true) (hmore : maxWheatReceive - r.numWheatReceived > 0 ∧
        maxSheepSend - r.numSheepSend > 0)
      (hrest : Converts env sheep wheat isPathPayment filter s'
        (maxSheepSend - r.numSheepSend) (maxWheatReceive - r.numWheatReceived) result rest s'') :
      Converts env sheep wheat isPathPayment filter s maxSheepSend maxWheatReceive result
        ((o, r) :: rest) s''

variable {maxWheatReceive maxSheepSend : Int} {s' s : LedgerState} {r : CrossOfferResult}

/-- The call that takes an offer from the book goes through the phases. -/
theorem crosses_of_call (hbest : bestOffer env s sheep wheat = some o)
    (hcall : crossOfferV10 o maxWheatReceive maxSheepSend isPathPayment s = .ok r s') :
    Crosses s o maxWheatReceive maxSheepSend isPathPayment r s' :=
  (crossOfferV10_crosses (offer_of_best hbest)).of_ok hcall

/-- An offer that stays in the book stays because its wheat does. -/
theorem Crosses.stays_of_not_taken
    (h : Crosses s o maxWheatReceive maxSheepSend isPathPayment r s') (htaken : r.taken = false) :
    r.wheatStays = true := by
  obtain @⟨_, _, _, _, _, _, ex, -, -, -, -, -, -, -, hzero, -, -⟩ := h
  cases hstays : ex.wheatStays with
  | true => exact hstays
  | false => exact absurd (hzero hstays) (of_decide_eq_false htaken)

theorem Crosses.pos_or_zero (h : Crosses s o maxWheatReceive maxSheepSend isPathPayment r s') :
    (0 < r.numWheatReceived ∧ 0 < r.numSheepSend) ∨
      (r.numWheatReceived = 0 ∧ r.numSheepSend = 0) := by
  obtain @⟨_, _, _, _, _, _, _, -, -, -, -, -, hexchange, -, -, -, -⟩ := h
  exact exchangeV10_pos_or_zero hexchange

/-- The amounts over the offers that are taken -/
def totalSheep (rounds : List (OfferEntry × CrossOfferResult)) : Int :=
  (rounds.map fun p => p.2.numSheepSend).sum

def totalWheat (rounds : List (OfferEntry × CrossOfferResult)) : Int :=
  (rounds.map fun p => p.2.numWheatReceived).sum

theorem convertLoop_converts (fuel : Nat) {maxSheepSend maxWheatReceive
    sheepSend wheatReceived : Int} {offerTrail : List ClaimOfferAtom} :
    wlp (convertLoop env sheep wheat isPathPayment filter fuel maxSheepSend maxWheatReceive
        sheepSend wheatReceived offerTrail)
      (fun converted s' => ∀ c, converted = some c →
        ∃ rounds, Converts env sheep wheat isPathPayment filter s maxSheepSend maxWheatReceive
            c.result rounds s' ∧
          c.sheepSend = sheepSend + totalSheep rounds ∧
          c.wheatReceived = wheatReceived + totalWheat rounds ∧
          c.offerTrail = offerTrail ++ rounds.map (·.2.claim)) s := by
  induction fuel generalizing s maxSheepSend maxWheatReceive sheepSend wheatReceived offerTrail with
  | zero => exact nofun
  | succ fuel ih =>
    simp only [convertLoop, loadBestOffer, wp_bind, wp_get, wp_pure]
    split
    · rename_i hbest
      rintro c ⟨⟩
      exact ⟨[], .exhausted hbest, by simp [totalSheep, totalWheat]⟩
    · rename_i o hbest
      simp only [wp_bind, wp_lift, implies_true, and_true]
      intro filtered hfilter
      split
      · rintro c ⟨⟩
        exact ⟨[], .stopped hbest hfilter, by simp [totalSheep, totalWheat]⟩
      · simp only [wp_bind]
        refine wp_nested (wlp_iff.mpr fun r s' hcall => ?_)
        simp only [wp_lift, implies_true, and_true]
        intro _ hsheep _ hwheat
        have hsheep := assert_eq_ok.mp hsheep
        have hwheat := assert_eq_ok.mp hwheat
        split
        · rename_i hdone
          rintro c ⟨⟩
          exact ⟨[(o, r)], .last hbest hfilter hcall hsheep hwheat hdone, by
            simp [totalSheep, totalWheat]⟩
        · rename_i hdone
          obtain ⟨hstays, hmore⟩ := not_or.mp hdone
          split
          · rename_i htaken
            exact absurd ((crosses_of_call hbest hcall).stays_of_not_taken htaken) hstays
          · rename_i htaken
            refine ih.imp fun converted s'' h c hc => ?_
            obtain ⟨rounds, hconverts, hs, hw, ht⟩ := h c hc
            refine ⟨(o, r) :: rounds, .next hbest hfilter hcall hsheep hwheat
              (Bool.eq_true_of_not_eq_false htaken) (not_not.mp hmore) hconverts, ?_⟩
            rw [hs, hw, ht]
            simp [totalSheep, totalWheat, Int.add_assoc]

/-- A call of `convertWithOffers` that returns: nothing is needed, or the loop runs. -/
theorem convertWithOffers_converts :
    wlp (convertWithOffers env sheep maxSheepSend wheat maxWheatReceive isPathPayment filter)
      (fun c s' => ∃ rounds, c.sheepSend = totalSheep rounds ∧ c.wheatReceived = totalWheat rounds ∧
        c.offerTrail = rounds.map (·.2.claim) ∧
        (¬ (maxWheatReceive > 0 ∧ maxSheepSend > 0) ∧ c.result = .eOK ∧ rounds = [] ∧ s' = s ∨
        (maxWheatReceive > 0 ∧ maxSheepSend > 0) ∧
          Converts env sheep wheat isPathPayment filter s maxSheepSend maxWheatReceive c.result
            rounds s')) s := by
  simp only [convertWithOffers, wp_bind]
  split
  · rename_i hmore
    refine (convertLoop_converts _).bind fun converted s' h => ?_
    cases converted with
    | none => trivial
    | some c =>
      obtain ⟨rounds, hconverts, hs, hw, ht⟩ := h c rfl
      exact ⟨rounds, by rw [hs, Int.zero_add], by rw [hw, Int.zero_add], ht,
        .inr ⟨hmore, hconverts⟩⟩
  · rename_i hmore
    exact ⟨[], rfl, rfl, rfl, .inl ⟨hmore, rfl, rfl, rfl⟩⟩

end Convert

end EssaCore.Transactions
