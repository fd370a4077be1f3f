import EssaCore.Transactions.SubEntries

/-!
# The numbers of sub-entries stay right

Operations and the removal of used one-time signers keep the numbers of sub-entries right, and as
long as these fit an `int` they are never found to be inconsistent: an account is charged for an
entry before it is made, and until after it is erased.

- `wp_doApply_harmless` — no operation throws because of the numbers;
- `rightCounts_kept` — they stay right;
- `addNumEntries_throws_crowded` — what happens to an account with too many sub-entries.
-/

open List Option

namespace EssaCore.Transactions

open Ledger Lib LedgerState AccountEntry TransactionFrame ManageOfferOp

variable {s s' : LedgerState} {id sourceID : AccountID} {bound : Nat} {c : Change}
  {cs : List Change} {acc : AccountEntry} {header : LedgerHeader}

/-! ## Taking offers -/

variable {o : OfferEntry}

theorem wp_finishOffer_harmless {amount : Int} (hs : Charged bound s)
    (hbound : bound ≤ 2 ^ 31) (ho : s.offer o.sellerID o.offerID = some o) :
    wp (finishOffer { o with amount := amount }) (fun _ _ => True) (fun e _ => Harmless e) s := by
  unfold finishOffer
  split
  · simp only [wp_bind]
    exact wp_removeErased_harmless hs hbound (.eraseOffer ho) trivial (if_pos rfl)
  · rw [wp_bind]
    exact acquireOrReleaseLiabilities_harmless _

variable {maxSheepSend : Int}

theorem wlp_exchangeWithOffer {maxWheatReceived : Int}
    {isPathPayment : Bool} {Q : ExchangeResultV10 → LedgerState → Prop} (h : ∀ ex, Q ex s) :
    wlp (exchangeWithOffer o maxWheatReceived maxSheepSend isPathPayment) Q s := by
  simp [exchangeWithOffer, h]

theorem wlp_remainingAmount {ex : ExchangeResultV10}
    {Q : Int → LedgerState → Prop} (h : ∀ amount, Q amount s) :
    wlp (remainingAmount o ex) Q s := by
  unfold remainingAmount
  split
  · exact wlp_adjustOfferEntry fun _ amount _ _ => h amount
  · exact h 0

theorem crossOfferV10_harmless {maxWheatReceived : Int}
    {isPathPayment : Bool} (hs : Charged bound s) (hbound : bound ≤ 2 ^ 31)
    (ho : s.offer o.sellerID o.offerID = some o) :
    wp (crossOfferV10 o maxWheatReceived maxSheepSend isPathPayment) (fun _ _ => True)
      (fun e _ => Harmless e) s := by
  simp only [crossOfferV10, wp_bind, wp_lift_harmless, assert_harmless, wp_orThrow,
    and_true]
  intro _ _ _ _
  refine ⟨fun acc _ => ?_, by simp⟩
  refine acquireOrReleaseLiabilities_harmless.wp_of (wp_acquireOrReleaseLiabilities
    (fun released _ _ hrelease => ?_) fun _ _ _ => trivial)
  refine adjustOfferEntry_harmless.wp_of (wlp_adjustOfferEntry fun _ adjusted _ _ => ?_)
  refine exchangeWithOffer_harmless.wp_of (wlp_exchangeWithOffer fun ex => ?_)
  refine (settle_harmless (by decide)).wp_of (wlp_settle fun paid hpaid => ?_)
  refine (settle_harmless (by decide)).wp_of (wlp_settle fun settled hsettled => ?_)
  have hsettle : Journal released (settleChanges o ex) settled := hpaid.append hsettled
  have ho' : settled.offer o.sellerID o.offerID = some o := by
    rw [offer_of_amounts hsettle settleChanges_amounts,
      offer_of_amounts hrelease liabilityChanges_amounts, ho]
  have hs' : Charged bound settled :=
    (hs.amounts hbound hrelease liabilityChanges_amounts).amounts hbound hsettle
      settleChanges_amounts
  refine remainingAmount_harmless.wp_of (wlp_remainingAmount fun amount => ?_)
  exact wp_finishOffer_harmless hs' hbound ho'

section Convert

variable {env : TxEnv} {sheep wheat : Asset} {isPathPayment : Bool}
  {filter : OfferEntry → Except TxError OfferFilterResult}

theorem wp_convertLoop_harmless (hfilter : ∀ o, FailsIn Harmless (filter o))
    (hbound : bound ≤ 2 ^ 31) (fuel : Nat) {s : LedgerState} (hs : Charged bound s)
    {maxWheatReceive sheepSend wheatReceived : Int}
    {offerTrail : List ClaimOfferAtom} :
    wp (convertLoop env sheep wheat isPathPayment filter fuel maxSheepSend maxWheatReceive
      sheepSend wheatReceived offerTrail) (fun _ s' => Charged bound s')
      (fun e _ => Harmless e) s := by
  induction fuel generalizing s maxSheepSend maxWheatReceive sheepSend wheatReceived offerTrail with
  | zero => exact hs
  | succ fuel ih =>
    simp only [convertLoop, loadBestOffer, wp_bind, wp_get, wp_pure]
    split
    · exact hs
    · rename_i o hbest
      have ho := offer_of_best hbest
      simp only [wp_bind, wp_lift_harmless, hfilter, and_true]
      intro filtered _
      split
      · exact hs
      · rw [wp_bind]
        refine wp_nested (((crossOfferV10_crosses ho).and
          (crossOfferV10_harmless hs hbound ho)).mono (fun r s₁ hcross => ?_) fun _ _ h => h.2)
        obtain ⟨_, _, rfl, _⟩ := hcross.1.journal
        have hs₁ : Charged bound s₁ := hs.trade hbound (.cons .nil) (by rwa [append_nil])
        simp only [wp_bind, wp_lift_harmless, assert_harmless, and_true]
        intro _ _ _ _
        split
        · exact hs₁
        · split
          · exact hs₁
          · exact ih hs₁

theorem wp_convertWithOffers_harmless (hfilter : ∀ o, FailsIn Harmless (filter o))
    (hbound : bound ≤ 2 ^ 31) (hs : Charged bound s) {maxWheatReceive : Int} :
    wp (convertWithOffers env sheep maxSheepSend wheat maxWheatReceive isPathPayment filter)
      (fun _ s' => Charged bound s') (fun e _ => Harmless e) s := by
  rw [convertWithOffers, wp_bind, wp_get, wp_ite]
  refine ⟨fun _ => ?_, fun _ => hs⟩
  refine (wp_convertLoop_harmless hfilter hbound _ hs).bind fun converted s' hs' => ?_
  cases converted with
  | none => exact harmless_outOfFuel
  | some c => exact hs'

end Convert

/-! ## Payments -/

namespace PathPaymentOp

variable {env : TxEnv} {sourceID : AccountID} {op : PathPaymentOp}

theorem creditDestination_harmless : HaltsIn Harmless op.creditDestination := by
  intro s
  simp [creditDestination, addAccountBalance_harmless.wp_iff, addTrustLineBalance_harmless.wp_iff]

theorem debitSource_harmless {w : Walked} : HaltsIn Harmless (op.debitSource sourceID w) := by
  intro s
  simp only [debitSource, wp_bind, wp_loadHeader, wp_loadAccount, wp_failIf, wp_ite,
    addAccountBalance_harmless.wp_iff, loadTrustLine_harmless.wp_iff, wp_orFail, wp_lift_harmless,
    assert_harmless, addTrustLineBalance_harmless.wp_iff, harmless_failed, implies_true, and_true]

theorem wp_walkPath_harmless (hbound : bound ≤ 2 ^ 31) (path : List Asset) {w : Walked}
    {s : LedgerState} (hs : Charged bound s) :
    wp (walkPath env sourceID path w) (fun _ _ => True) (fun e _ => Harmless e) s := by
  induction path generalizing s w with
  | nil => trivial
  | cons curA path ih =>
    rw [walkPath, wp_ite]
    refine ⟨fun _ => ih hs, fun _ => ?_⟩
    rw [wp_bind, wp_loadAccount, wp_bind, wp_failIf]
    refine ⟨fun _ => harmless_failed _, fun _ => ?_⟩
    refine (wp_convertWithOffers_harmless (fun o => ?_) hbound hs).bind fun c s₁ hs₁ => ?_
    · simp [offerFilter, failsIn_ite]
    · rw [wp_bind, wp_lift_harmless]
      refine ⟨fun _ _ => ?_, assert_harmless⟩
      rw [wp_bind]
      unfold checkConverted
      split
      · exact harmless_failed _
      · rw [wp_failIf, wp_bind, wp_lift_harmless]
        exact ⟨fun _ => harmless_failed _, fun _ => ⟨fun _ _ => ih hs₁, assert_harmless⟩⟩
      · exact harmless_failed _

theorem wp_doApply_harmless (hbound : bound ≤ 2 ^ 31) (hs : Charged bound s) :
    wp (op.doApply env sourceID) (fun _ _ => True) (fun e _ => Harmless e) s := by
  rw [doApply, wp_bind]
  refine creditDestination_harmless.wp_of (wlp_creditDestination.imp fun _ s₁ hcredit => ?_)
  have hs₁ : Charged bound s₁ := hs.amounts hbound hcredit (by simp)
  refine (wp_walkPath_harmless hbound _ hs₁).bind fun w s₂ _ => ?_
  rw [wp_bind]
  exact debitSource_harmless s₂

end PathPaymentOp

variable {env : TxEnv}

theorem PaymentOp.wp_doApply_harmless {op : PaymentOp}
    (hbound : bound ≤ 2 ^ 31) (hs : Charged bound s) :
    wp (op.doApply env sourceID) (fun _ _ => True) (fun e _ => Harmless e) s := by
  have hcode (code : InnerResultCode) : Harmless (resultCode code) := by
    unfold resultCode
    split <;> simp
  rw [doApply, wp_ite]
  refine ⟨fun _ => trivial, fun _ => wp_mapResultCode ?_⟩
  rw [wp_bind]
  unfold checked
  split
  · rw [wp_pure, wp_bind]
    refine (PathPaymentOp.wp_doApply_harmless hbound hs).mono (fun _ _ _ => trivial) ?_
    intro e _ he
    cases e with
    | failed code => exact hcode code
    | _ => exact he
  · exact hcode _

/-! ## Offers -/

namespace ManageOfferOp

variable {env : TxEnv} {op : ManageOfferOp} {sourceID : AccountID} {passive : Bool}

theorem checkOfferValid_harmless : HaltsIn Harmless (op.checkOfferValid sourceID) := by
  intro s
  simp [checkOfferValid, checkSelling, checkBuying]

theorem prepareOffer_harmless : HaltsIn Harmless (op.prepareOffer sourceID passive) := by
  intro s
  simp only [prepareOffer, wp_ite, wp_pure, wp_bind, wp_loadOffer, wp_orFail, releaseLiabilities,
    acquireOrReleaseLiabilities_harmless.wp_iff, wp_eraseEntry, harmless_failed, implies_true,
    and_true]

variable {newOffer : OfferEntry} {creatingNewOffer : Bool}

theorem computeOfferExchangeParameters_harmless {offer : OfferEntry}
    (h : Below bound s) (hbound : bound < 2 ^ 31) :
    FailsIn Harmless (computeOfferExchangeParameters s offer creatingNewOffer) := by
  have havailable {asset : Asset} {line : Option TrustLineWrapper} {ofAccount : Int}
      {ofLine : TrustLineWrapper → Int} :
      FailsIn Harmless (availableOf asset line ofAccount ofLine) := by
    unfold availableOf
    split
    · exact failsIn_pure _
    · split <;> simp
  have hexchange : FailsIn Harmless (offerExchange offer) := exchange_harmless
  unfold computeOfferExchangeParameters
  split
  · simp
  · rename_i account hacc
    have hlt := h _ _ hacc
    have hlimits : FailsIn Harmless (accountForLimits s.header account creatingNewOffer) := by
      unfold accountForLimits
      split
      · rw [failsIn_bind]
        refine ⟨addNumEntries_one_harmless (by omega), fun account' _ => ?_⟩
        cases account' <;> simp
      · exact failsIn_pure _
    simp [getOfferBuyingLiabilities, getOfferSellingLiabilities, failsIn_bind, failsIn_ite,
      hlimits, havailable, hexchange]

theorem settleSource_harmless {c : Converted} : HaltsIn Harmless (settleSource newOffer c) := by
  intro s
  simp only [settleSource, wp_ite, wp_bind, addBalanceTo_harmless.wp_iff]
  simp

theorem amountLeft_harmless {sheepStays : Bool} :
    HaltsIn Harmless (amountLeft newOffer sheepStays) :=
  HaltsIn.ite (fun _ => adjustOfferEntry_harmless) fun _ => .pure 0

theorem checkConverted_harmless {result : ConvertResult} :
    HaltsIn Harmless (checkConverted result) := by
  intro s
  unfold checkConverted
  split
  · trivial
  · trivial
  · trivial
  · exact harmless_failed _

theorem wp_crossOffers_harmless (hbound : bound < 2 ^ 31) (hs : Charged bound s) :
    wp (crossOffers env newOffer creatingNewOffer) (fun _ _ => True) (fun e _ => Harmless e) s := by
  rw [crossOffers, wp_bind, wp_get]
  rw [wp_bind, wp_lift_harmless]
  refine ⟨fun limits _ => ?_, computeOfferExchangeParameters_harmless hs.below hbound⟩
  rw [wp_bind, wp_failIf]
  refine ⟨fun _ => harmless_failed _, fun _ => ?_⟩
  refine (wp_convertWithOffers_harmless (fun o => ?_) hbound.le hs).bind fun c s₁ _ => ?_
  · simp [offerFilter, failsIn_bind, failsIn_ite]
  · simp only [wp_bind, wp_lift_harmless, assert_harmless, checkConverted_harmless.wp_iff,
      settleSource_harmless.wp_iff, amountLeft_harmless.wp_iff, wp_pure, implies_true, and_true]

theorem CrossesBook.charged {amount : Int} {claimed : List ClaimOfferAtom}
    (h : CrossesBook env newOffer creatingNewOffer s amount claimed s')
    (hbound : bound ≤ 2 ^ 31) (hs : Charged bound s) :
    Charged bound s' ∧ ∀ id, s'.sum (excessOf id) = s.sum (excessOf id) := by
  obtain @⟨_, c, _, _, _, _, _, -, -, hspec, hidle, -, hsettle, -, -⟩ := h
  obtain ⟨_, htrade, htrades⟩ := hspec.journal hidle
  have hs₁ := hs.trade hbound htrade htrades
  refine ⟨hs₁.amounts hbound hsettle settlement_amounts, fun id => ?_⟩
  rw [(journal_excess hsettle (fun c hc => (amounts_removes settlement_amounts c hc).small)
    (hs₁.below.few hbound) id).1, amounts_excess settlement_amounts,
    (journal_excess htrades (fun c hc => (htrade.removes c hc).small) (hs.below.few hbound) id).1,
    htrade.excess]
  omega

/-- An offer is taken out of the book while its account is charged for it. -/
theorem Prepares.charged {old : List OfferEntry}
    (h : op.Prepares sourceID passive s newOffer old s') (hbound : bound ≤ 2 ^ 31)
    (hs : Charged bound s) : Charged bound s' ∧
      (op.offerID ≠ 0 → 0 < s'.sum (excessOf sourceID)) := by
  cases h with
  | create hid => exact ⟨hs, fun h => absurd hid h⟩
  | @update o _ _ ho _ hjournal =>
    have hseller := (s.key_of_offer ho).1
    have hremoves : ∀ c ∈ withdrawal o, c.Removes := by
      simp [withdrawal, liabilityChanges, Change.Removes]
    have hsum (id : AccountID) : ((withdrawal o).map (Change.excess id)).sum =
        if o.sellerID = id then 1 else 0 := by
      simp only [withdrawal, map_append, map_cons, Change.excess]
      split <;> rfl
    refine ⟨hs.journal hbound hjournal hremoves fun id => ?_, fun _ => ?_⟩
    · rw [hsum]
      split <;> decide
    · have hexcess := (journal_excess hjournal (fun c hc => (hremoves c hc).small)
        (hs.below.few hbound) sourceID).1
      rw [hsum, if_pos hseller] at hexcess
      have := hs.excess sourceID
      omega

theorem wp_leaveOffer_harmless (hbound : bound < 2 ^ 31) (hs : Charged bound s)
    (hexcess : creatingNewOffer = false → 0 < s.sum (excessOf newOffer.sellerID)) :
    wp (leaveOffer newOffer creatingNewOffer) (fun _ _ => True) (fun e _ => Harmless e) s := by
  have hplace (o : OfferEntry) {effect : ManageOfferEffect} {s : LedgerState} :
      wp (do create (.offer o); acquireLiabilities o; pure effect) (fun _ _ => True)
        (fun e _ => Harmless e) s := by
    simp only [wp_bind, acquireLiabilities,
      acquireOrReleaseLiabilities_harmless.wp_iff]
    simp
  rw [leaveOffer, wp_ite, wp_ite, wp_ite]
  refine ⟨fun _ => ⟨fun _ => ?_, fun _ => hplace newOffer⟩,
    fun _ => ⟨fun _ => trivial, fun h => ?_⟩⟩
  · rw [createNewOffer]
    refine (wp_addEntry_harmless hs.below hbound).bind fun ok s₁ _ => ?_
    rw [wp_bind, wp_failIf]
    refine ⟨fun _ => harmless_failed _, fun _ => ?_⟩
    rw [generateID, wp_bind, wp_bind, wp_loadHeader, wp_bind, wp_storeHeader]
    exact hplace _
  · refine (wp_removeEntry_harmless hs.below hbound.le ?_).bind fun _ _ _ => trivial
    have := hexcess (Bool.eq_false_of_not_eq_true h)
    have := ownedBy_nonneg s newOffer.sellerID
    omega

theorem wp_doApply_harmless (hbound : bound < 2 ^ 31) (hs : Charged bound s) :
    wp (op.doApply env sourceID passive) (fun _ _ => True) (fun e _ => Harmless e) s := by
  refine wp_nested ?_
  rw [wp_bind]
  refine checkOfferValid_harmless.wp_of (wlp_checkOfferValid.imp ?_)
  rintro _ _ ⟨rfl, -⟩
  rw [wp_bind]
  refine prepareOffer_harmless.wp_of (wlp_prepareOffer.imp ?_)
  rintro newOffer s₁ ⟨old, hprepare⟩
  obtain ⟨hs₁, hexcess⟩ := hprepare.charged hbound.le hs
  obtain ⟨hseller, -, -⟩ := Transactions.Prepares.journal hprepare
  have hcreating : decide (op.offerID = 0) = false → 0 < s₁.sum (excessOf newOffer.sellerID) :=
    fun h => hseller ▸ hexcess (of_decide_eq_false h)
  rw [wp_ite]
  refine ⟨fun _ => ?_, fun _ => ?_⟩
  · rw [wp_bind]
    refine ((wp_crossOffers_harmless hbound hs₁).and wlp_crossOffers).mono
      (fun crossed s₂ hcross => ?_) fun _ _ h => h.1
    obtain ⟨hs₂, hsame⟩ := hcross.2.charged hbound.le hs₁
    exact (wp_leaveOffer_harmless hbound hs₂ fun h => hsame _ ▸ hcreating h).bind
      fun _ _ _ => trivial
  · rw [wp_bind, wp_pure, wp_bind]
    exact wp_leaveOffer_harmless hbound hs₁ hcreating

end ManageOfferOp

/-! ## Trust lines -/

theorem ChangeTrustOp.wp_doApply_harmless {op : ChangeTrustOp}
    (hbound : bound < 2 ^ 31) (hs : Charged bound s) :
    wp (op.doApply sourceID) (fun _ _ => True) (fun e _ => Harmless e) s := by
  rw [doApply, wp_bind, wp_failIf]
  refine ⟨fun _ => harmless_failed _, fun _ => ?_⟩
  rw [wp_bind, wp_get]
  split
  · rename_i tl htl
    obtain ⟨hid, hasset⟩ := s.key_of_trustLine htl
    rw [modifyLine, wp_bind, wp_failIf]
    refine ⟨fun _ => harmless_failed _, fun hlimit => ?_⟩
    rw [wp_ite]
    refine ⟨fun hzero => ?_, fun _ => ?_⟩
    · have herase : Step s (.eraseTrustLine tl) (s.erase (.trustLine sourceID op.line)) := by
        rw [← hid, ← hasset] at htl ⊢
        exact .eraseTrustLine htl (by omega)
      rw [wp_bind, wp_eraseEntry]
      exact (wp_removeErased_harmless hs hbound.le herase trivial (if_pos hid)).bind
        fun _ _ _ => trivial
    · simp
  · rw [createLine, wp_bind, wp_failIf]
    refine ⟨fun _ => harmless_failed _, fun _ => ?_⟩
    rw [wp_bind, wp_loadAccount, wp_bind, wp_orFail]
    refine ⟨fun issuer _ => ?_, fun _ => harmless_failed _⟩
    refine (wp_addEntry_harmless hs.below hbound).bind fun ok s₁ _ => ?_
    rw [wp_bind, wp_failIf, wp_create]
    exact ⟨fun _ => harmless_failed _, fun _ => ⟨fun _ => by simp, fun _ => trivial⟩⟩

namespace AllowTrustOp

variable {op : AllowTrustOp} {sourceID trustor : AccountID} {ci : Asset} {o : OfferEntry}

theorem deletion_removes : ∀ c ∈ deletion o, c.Removes := by
  simp [deletion, liabilityChanges, Change.Removes]

theorem Charged.deletion (hs : Charged bound s) (hbound : bound ≤ 2 ^ 31)
    (h : Journal s (deletion o) s') : Charged bound s' := by
  refine hs.journal hbound h deletion_removes fun id => ?_
  have := deletions_excess [o] id
  rw [deletions_cons, deletions, flatMap_nil] at this
  exact this.ge

theorem wp_deleteOffer_harmless (hs : Charged bound s) (hbound : bound ≤ 2 ^ 31)
    (ho : s.offer o.sellerID o.offerID = some o) (hseller : o.sellerID = trustor) :
    wp (deleteOffer trustor ci o) (fun _ _ => True) (fun e _ => Harmless e) s := by
  rw [deleteOffer, wp_bind, wp_throwIf]
  refine ⟨fun h => absurd hseller h, fun _ => ?_⟩
  rw [wp_bind, wp_throwIf]
  refine ⟨fun _ => by simp, fun _ => ?_⟩
  rw [wp_bind]
  refine acquireOrReleaseLiabilities_harmless.wp_of (wp_acquireOrReleaseLiabilities
    (fun released _ _ hrelease => ?_) fun _ _ _ => trivial)
  have hs₁ := hs.amounts hbound hrelease liabilityChanges_amounts
  have ho₁ : released.lookup (.offer o.sellerID o.offerID) = some (.offer o) := by
    rw [← offer_eq_some_iff, offer_of_amounts hrelease liabilityChanges_amounts, ho]
  rw [wp_bind]
  refine wp_removeEntry_harmless hs₁.below hbound ?_
  have hexcess := hs₁.excess trustor
  have hpos := ownedBy_pos (d := .offer o) ho₁ (congrArg some hseller)
  omega

theorem wp_deleteOffers_harmless {os : List OfferEntry} (hs : Charged bound s)
    (hbound : bound ≤ 2 ^ 31)
    (hos : ∀ o ∈ os, s.offer o.sellerID o.offerID = some o ∧ o.sellerID = trustor ∧
      (o.buying = ci ∨ o.selling = ci))
    (hdistinct : os.Pairwise fun o o' => ¬ (o.sellerID = o'.sellerID ∧ o.offerID = o'.offerID)) :
    wp (deleteOffers trustor ci os) (fun _ _ => True) (fun e _ => Harmless e) s := by
  induction os generalizing s with
  | nil => trivial
  | cons o os ih =>
    obtain ⟨ho, hseller, hasset⟩ := hos o mem_cons_self
    obtain ⟨hfirst, hdistinct⟩ := pairwise_cons.mp hdistinct
    have hdeletes : wlp (deleteOffer trustor ci o) (fun _ s' => Journal s (deletion o) s') s :=
      wp_deleteOffer ho hseller hasset (fun _ h => h) fun _ _ _ => trivial
    rw [deleteOffers, wp_bind]
    refine ((wp_deleteOffer_harmless hs hbound ho hseller).and hdeletes).mono
      (fun _ s₁ h => ?_) fun _ _ h => h.1
    refine ih (Charged.deletion hs hbound h.2) (fun o' ho' => ?_) hdistinct
    rw [offer_of_deletion h.2 (hfirst o' ho')]
    exact hos o' (mem_cons_of_mem _ ho')

theorem wp_doApply_harmless (hbound : bound ≤ 2 ^ 31) (hs : Charged bound s) :
    wp (op.doApply sourceID) (fun _ _ => True) (fun e _ => Harmless e) s := by
  simp only [doApply, checkSource, revokeOffers, wp_bind, wp_failIf, wp_current,
    wp_get, wp_orFail, wp_store, harmless_failed, harmless_assertion, implies_true, and_true,
    true_and]
  intro _ _ _ _ _ trust _
  rw [wp_ite]
  refine ⟨fun _ => ?_, fun _ => trivial⟩
  refine wp_deleteOffers_harmless hs hbound (fun o ho => ?_) (s.offers_pairwise.filter _)
  obtain ⟨hmem, hseller, hasset⟩ := mem_offersByAccountAndAsset.mp ho
  exact ⟨s.mem_offers.mp hmem, hseller, hasset⟩

end AllowTrustOp

/-! ## Accounts -/

/-- Charging for one entry less, as long as there is one -/
theorem addNumEntries_minus_one (hpos : 0 < acc.numSubEntries) (hacc : acc.numSubEntries < 2 ^ 31) :
    acc.addNumEntries header (-1) = .ok (some (acc.withEntries (acc.numSubEntries - 1))) := by
  have hcount : acc.newEntriesCount (-1) = (acc.numSubEntries - 1 : Nat) := by
    rw [newEntriesCount, Int.bmod_eq_of_le (by omega) (by omega)]
    omega
  refine addNumEntries_eq_some.mpr ⟨by omega, fun h => absurd h.1 (by decide), ?_⟩
  rw [hcount]
  rfl

theorem eraseSigners_harmless {key : SignerKey} (signers : List Signer)
    {kept : List Signer} (hsigners : signers.length ≤ acc.numSubEntries)
    (hacc : acc.numSubEntries < 2 ^ 31) :
    FailsIn Harmless (eraseSigners header key signers kept acc) := by
  induction signers generalizing kept acc with
  | nil => exact failsIn_pure _
  | cons oldSigner signers ih =>
    rw [length_cons] at hsigners
    rw [eraseSigners, failsIn_ite]
    refine ⟨fun _ => ?_, fun _ => ih (by omega) hacc⟩
    have hremove (acc' : AccountEntry) (hentries : acc'.numSubEntries = acc.numSubEntries) :
        removeNumEntry header acc' = .ok (acc'.withEntries (acc.numSubEntries - 1)) := by
      rw [removeNumEntry, addNumEntries_minus_one (by omega) (by omega), hentries]
      rfl
    rw [hremove { acc with signers := kept ++ signers } rfl]
    refine ih ?_ ?_
    · exact Nat.le_sub_of_add_le hsigners
    · exact (Nat.sub_le _ _).trans_lt hacc

namespace SetOptionsOp

variable {op : SetOptionsOp} {sourceID : AccountID}

theorem wp_setSigner_harmless
    (hsigners : acc.signers.length ≤ acc.numSubEntries) (hacc : acc.numSubEntries + 1 < 2 ^ 31) :
    wp (op.setSigner header acc) (fun _ _ => True) (fun e _ => Harmless e) s := by
  unfold setSigner
  split
  · trivial
  · rw [wp_ite, wp_bind, wp_bind, addSigner, wp_ite]
    refine ⟨fun _ => ⟨fun _ => trivial, fun _ => ?_⟩, fun _ => ?_⟩
    · rw [wp_bind, wp_failIf]
      refine ⟨fun _ => harmless_failed _, fun _ => ?_⟩
      rw [wp_bind, wp_lift_harmless]
      refine ⟨fun _ _ => ?_, addNumEntries_one_harmless hacc⟩
      rw [wp_bind, wp_orFail]
      exact ⟨fun _ _ => trivial, fun _ => harmless_failed _⟩
    · rw [wp_lift_harmless]
      exact ⟨fun _ _ => trivial, eraseSigners_harmless _ hsigners (by omega)⟩

theorem setInflationDest_harmless : HaltsIn Harmless (op.setInflationDest sourceID acc) := by
  intro s
  unfold setInflationDest
  split
  · trivial
  · simp only [wp_bind, wp_loadAccount, wp_failIf, wp_pure, harmless_failed, implies_true, and_true]

theorem changeFlags_harmless {flags : Option Nat} {change : Nat → Nat → Nat} :
    HaltsIn Harmless (changeFlags flags change acc) := by
  intro s
  unfold changeFlags
  split
  · trivial
  · simp only [wp_bind, wp_failIf, wp_pure, harmless_failed, implies_true, and_true]

theorem wp_doApply_harmless (hbound : bound < 2 ^ 31) (hs : Charged bound s) :
    wp (op.doApply sourceID) (fun _ _ => True) (fun e _ => Harmless e) s := by
  rw [doApply, wp_bind, wp_loadHeader, wp_bind, wp_loadAccount, wp_bind, wp_current]
  refine ⟨fun acc hacc => ?_, fun _ => harmless_assertion⟩
  have hlt := hs.below _ _ hacc
  have hexcess := hs.excess sourceID
  have hnonneg := ownedBy_nonneg s sourceID
  rw [excess_eq, hacc, map_some, getD_some] at hexcess
  rw [wp_bind]
  refine setInflationDest_harmless.wp_of (wlp_setInflationDest.imp ?_)
  rintro acc₁ _ ⟨rfl, htunes₁⟩
  rw [wp_bind]
  refine changeFlags_harmless.wp_of (wlp_changeFlags.imp ?_)
  rintro acc₂ _ ⟨rfl, htunes₂⟩
  rw [wp_bind]
  refine changeFlags_harmless.wp_of (wlp_changeFlags.imp ?_)
  rintro acc₃ s ⟨rfl, htunes₃⟩
  have htunes : Tunes acc (op.setPlain acc₃) :=
    ((htunes₁.trans htunes₂).trans htunes₃).trans ⟨⟨rfl, rfl, rfl, rfl⟩, rfl, rfl⟩
  rw [wp_bind]
  refine wp_setSigner_harmless ?_ ?_
  · rw [htunes.signers, htunes.entries]
    omega
  · rw [htunes.entries]
    omega

end SetOptionsOp

theorem ManageDataOp.wp_doApply_harmless {op : ManageDataOp}
    (hbound : bound < 2 ^ 31) (hs : Charged bound s) :
    wp (op.doApply sourceID) (fun _ _ => True) (fun e _ => Harmless e) s := by
  rw [doApply, wp_bind, wp_loadData]
  split
  · rw [createData]
    refine (wp_addEntry_harmless hs.below hbound).bind fun ok s₁ _ => ?_
    rw [wp_bind, wp_failIf, wp_create]
    exact ⟨fun _ => harmless_failed _, fun _ => ⟨fun _ => by simp, fun _ => trivial⟩⟩
  · trivial
  · exact harmless_failed _
  · rename_i d _ hd
    obtain ⟨hid, hname⟩ := s.key_of_data hd
    have herase : Step s (.eraseData d) (s.erase (.data sourceID op.dataName)) := by
      rw [← hid, ← hname] at hd ⊢
      exact .eraseData hd
    rw [wp_bind, wp_eraseEntry]
    exact (wp_removeErased_harmless hs hbound.le herase trivial (if_pos hid)).bind
      fun _ _ _ => trivial

theorem CreateAccountOp.doApply_harmless {op : CreateAccountOp} :
    HaltsIn Harmless (op.doApply sourceID) := by
  intro s
  simp only [doApply, wp_bind, addAccountBalance_harmless.wp_iff, wp_lift_harmless]
  simp

theorem MergeOp.doApply_harmless {op : MergeOp} : HaltsIn Harmless (op.doApply sourceID) := by
  intro s
  simp [doApply, addAccountBalance_harmless.wp_iff]

theorem BumpSequenceOp.doApply_harmless {op : BumpSequenceOp} :
    HaltsIn Harmless (op.doApply sourceID) := by
  intro s
  simp [doApply]

namespace Inflation

theorem doleWinner_harmless {w : InflationWinner} {amountToDole totalVotes left : Int} :
    HaltsIn Harmless (doleWinner w amountToDole totalVotes left) := by
  intro s
  have hcredit (winner : Option AccountEntry) (toDole : Int) :
      HaltsIn Harmless (creditWinner w.accountID winner toDole left) := by
    intro s
    unfold creditWinner
    split
    · trivial
    · simp only [wp_bind, addAccountBalance_harmless.wp_iff]
      simp
  simp only [doleWinner, wp_bind, wp_lift_harmless, bigDivide_harmless, wp_ite, wp_pure,
    wp_loadHeader, wp_loadAccount, (hcredit _ _).wp_iff, implies_true, and_true]

theorem dole_harmless {amountToDole totalVotes : Int} (winners : List InflationWinner)
    {left : Int} :
    HaltsIn Harmless (dole amountToDole totalVotes winners left) := by
  induction winners generalizing left with
  | nil => exact .pure left
  | cons w winners ih => exact doleWinner_harmless.bind fun _ => ih

theorem doApply_harmless : HaltsIn Harmless (doApply env) := by
  intro s
  rw [doApply, wp_bind, wp_loadHeader, wp_bind, wp_failIf]
  refine ⟨fun _ => harmless_failed _, fun _ => ?_⟩
  rw [wp_bind, wp_lift_harmless]
  refine ⟨fun _ _ => ?_, bigDivide_harmless⟩
  rw [wp_bind, wp_get]
  rw [wp_bind, wp_lift_harmless]
  refine ⟨fun _ _ => ?_, bigDivide_harmless⟩
  rw [wp_bind, wp_storeHeader, wp_bind]
  exact dole_harmless _ _

end Inflation

/-! ## One-time signers -/

namespace TransactionFrame

theorem removeFirst_harmless (keys : List SignerKey)
    (hsigners : acc.signers.length ≤ acc.numSubEntries) (hacc : acc.numSubEntries < 2 ^ 31) :
    FailsIn Harmless (removeFirst header acc keys) := by
  induction keys with
  | nil => exact failsIn_pure _
  | cons key keys ih =>
    rw [removeFirst, failsIn_bind]
    refine ⟨?_, fun removed _ => ?_⟩
    · unfold removeAccountSigner
      split
      · rename_i hany
        obtain ⟨_, hmem, -⟩ := any_eq_true.mp hany
        have hpos := length_pos_of_mem hmem
        rw [addNumEntries_minus_one (by omega) hacc]
        exact failsIn_pure _
      · exact failsIn_pure _
    · cases removed with
      | some acc' => exact failsIn_pure _
      | none => exact ih

theorem wp_removeUsedFrom_harmless {accountID : AccountID} {keys : List SignerKey}
    (hbound : bound ≤ 2 ^ 31) (hs : Charged bound s) :
    wp (removeUsedFrom accountID keys) (fun _ _ => True) (fun e _ => Harmless e) s := by
  rw [removeUsedFrom, wp_bind, wp_loadAccount]
  cases hacc : s.account accountID with
  | none => trivial
  | some acc =>
    have hlt := hs.below _ _ hacc
    have hexcess := hs.excess accountID
    have hnonneg := ownedBy_nonneg s accountID
    rw [excess_eq, hacc, map_some, getD_some] at hexcess
    rw [wp_bind, wp_loadHeader, wp_bind, wp_lift_harmless]
    refine ⟨fun changed _ => ?_, removeFirst_harmless _ (by omega) (by omega)⟩
    cases changed <;> trivial

theorem wp_removeUsedOneTimeSignerKeys_harmless (used : List (AccountID × List SignerKey))
    (hfew : FewEntries s) (hs : ∀ id, 0 ≤ s.sum (excessOf id)) :
    wp (removeUsedOneTimeSignerKeys used) (fun _ _ => True) (fun e _ => Harmless e) s := by
  induction used generalizing s with
  | nil => trivial
  | cons u used ih =>
    rw [removeUsedOneTimeSignerKeys, wp_bind]
    refine ((wp_removeUsedFrom_harmless le_rfl ⟨hfew, hs⟩).and removeUsedFrom_moves).mono
      (fun _ s₁ h => ?_) fun _ _ h => h.1
    obtain ⟨_, hneutral, hjournal, -⟩ := h.2
    have hexcess := journal_excess hjournal hneutral.small hfew
    refine ih (hexcess 0).2 fun id => ?_
    rw [(hexcess id).1, hneutral.excess]
    simpa using hs id

end TransactionFrame

/-! ## The numbers stay right -/

theorem wp_doApply_harmless {body : OperationBody}
    (hbound : bound < 2 ^ 31) (hs : Charged bound s) :
    wp (body.doApply env sourceID) (fun _ _ => True) (fun e _ => Harmless e) s := by
  cases body with
  | createAccount op => exact CreateAccountOp.doApply_harmless s
  | payment op => exact PaymentOp.wp_doApply_harmless hbound.le hs
  | pathPayment op =>
    rw [OperationBody.doApply]
    exact (PathPaymentOp.wp_doApply_harmless hbound.le hs).bind
      fun _ _ _ => trivial
  | manageOffer op =>
    rw [OperationBody.doApply, wp_bind]
    exact ManageOfferOp.wp_doApply_harmless hbound hs
  | createPassiveOffer op =>
    rw [OperationBody.doApply, wp_bind]
    exact ManageOfferOp.wp_doApply_harmless hbound hs
  | setOptions op => exact SetOptionsOp.wp_doApply_harmless hbound hs
  | changeTrust op => exact ChangeTrustOp.wp_doApply_harmless hbound hs
  | allowTrust op => exact AllowTrustOp.wp_doApply_harmless hbound.le hs
  | accountMerge op => exact MergeOp.doApply_harmless s
  | inflation => exact Inflation.doApply_harmless s
  | manageData op => exact ManageDataOp.wp_doApply_harmless hbound hs
  | bumpSequence op => exact BumpSequenceOp.doApply_harmless s

/-- Offers of one account -/
def offersOfOne : Nat → LedgerState
  | 0 => .ofEntries ⟨10, 0, 2, 500, 100, 0, 0, 100, 5⟩ []
  | n + 1 => (offersOfOne n).put
    (.offer ⟨1, n, .native, .alphaNum4 (.replicate 4 65) 1, 1, ⟨1, 1⟩, 0⟩)

theorem offersOfOne_lookup (n : Nat) {k : LedgerKey} (h : ∀ i < n, k ≠ .offer 1 i) :
    (offersOfOne n).lookup k = none := by
  induction n with
  | zero => rfl
  | succ n ih =>
    exact (lookup_put ..).trans ((if_neg (h n n.lt_succ_self)).trans
      (ih fun i hi => h i (hi.trans n.lt_succ_self)))

theorem offersOfOne_excess (n : Nat) (id : AccountID) :
    (offersOfOne n).sum (excessOf id) = if id = 1 then -(n : Int) else 0 := by
  induction n with
  | zero => split <;> rfl
  | succ n ih =>
    rw [offersOfOne, sum_put, ih, weight_of_none]
    · simp only [excessOf, LedgerEntryData.owner, some.injEq, eq_comm]
      split <;> omega
    · refine offersOfOne_lookup n fun i hi hkey => ?_
      obtain ⟨-, rfl⟩ := LedgerKey.offer.inj hkey
      exact absurd hi (Nat.lt_irrefl n)

/-- An account with a number of offers -/
def crowded (n : Nat) : LedgerState :=
  (offersOfOne n).put (.account ⟨1, 400, 0, n, none, 0, "", ⟨1, 0, 0, 0⟩, [], none⟩)

theorem crowded_rightCounts (n : Nat) : RightCounts (crowded n) ∧ Owned (crowded n) := by
  refine excess_eq_zero_iff.mp fun id => ?_
  rw [crowded, sum_put, offersOfOne_excess, weight_of_none]
  · simp only [excessOf, length_nil, eq_comm]
    split <;> omega
  · exact offersOfOne_lookup n (by rintro _ _ ⟨⟩)

/-- From right numbers of sub-entries, all of which have room for one more, operations and the
removal of used one-time signers lead to right numbers, and never find inconsistent ones. -/
theorem rightCounts_kept (s : LedgerState) (hcounts : RightCounts s) (howned : Owned s)
    (hfew : ∀ id acc, s.account id = some acc → acc.numSubEntries + 1 < 2 ^ 31) :
    (∀ env sourceID (body : OperationBody), body.doCheckValid sourceID = .ok () →
      wp (body.doApply env sourceID) (fun _ s' => RightCounts s' ∧ Owned s')
        (fun e _ => e ≠ .runtimeError "invalid account state") s) ∧
    (∀ crypto checker tx, wp (TransactionFrame.processSignatures crypto checker tx)
        (fun _ s' => RightCounts s' ∧ Owned s')
        (fun e _ => e ≠ .runtimeError "invalid account state") s) := by
  have hexcess : ∀ id, s.sum (excessOf id) = 0 := excess_eq_zero_iff.mpr ⟨hcounts, howned⟩
  have hfew' : FewEntries s := fun id acc hacc => Nat.lt_of_succ_lt (hfew id acc hacc)
  refine ⟨fun env sourceID body hvalid => ?_, fun crypto checker tx => ?_⟩
  · obtain ⟨bound, _⟩ : ∃ bound, bound + 1 = 2 ^ 31 := ⟨2 ^ 31 - 1, by decide⟩
    have hcharged : Charged bound s := by
      refine ⟨fun id acc hacc => ?_, fun id => (hexcess id).ge⟩
      have := hfew id acc hacc
      omega
    exact ((wp_doApply_harmless (by omega) hcharged).and (doApply_moves hvalid)).mono
      (fun _ _ h => h.2.rightCounts hfew' ⟨hcounts, howned⟩) fun _ _ h => h.1
  · rw [processSignatures, wp_bind, wp_get]
    rw [wp_bind]
    exact ((wp_removeUsedOneTimeSignerKeys_harmless _ hfew'
      fun id => (hexcess id).ge).and (removeUsedOneTimeSignerKeys_moves _ s)).mono
      (fun _ _ h => h.2.rightCounts hfew' ⟨hcounts, howned⟩) fun _ _ h => h.1

/-- An account with two offers gets a data entry. -/
theorem rightCounts_kept_twoOffers :
    RightCounts (crowded 2) ∧ Owned (crowded 2) ∧ ∀ env, wp (OperationBody.doApply env 1
        (.manageData ⟨"a", some []⟩)) (fun _ s' => RightCounts s' ∧ Owned s')
      (fun e _ => e ≠ .runtimeError "invalid account state") (crowded 2) := by
  obtain ⟨hcounts, howned⟩ := crowded_rightCounts 2
  refine ⟨hcounts, howned, fun env => ?_⟩
  refine (rightCounts_kept _ hcounts howned fun id acc hacc => ?_).1 env 1 _ rfl
  rw [crowded, account_put_account] at hacc
  split at hacc
  · cases hacc
    decide
  · rw [account, offersOfOne_lookup 2 (by simp)] at hacc
    cases hacc

/-! ## Too many sub-entries -/

/-- One more than the most that fits an `int` is negative. -/
theorem newEntriesCount_neg (h : acc.numSubEntries + 1 = 2 ^ 31) : acc.newEntriesCount 1 < 0 := by
  have hmod : ((acc.numSubEntries : Int) + 1).bmod (2 ^ 32) = acc.numSubEntries + 1 - 2 ^ 32 := by
    rw [← Int.sub_bmod_right, Int.bmod_eq_of_le (by omega) (by omega)]
    rfl
  rw [newEntriesCount]
  omega

/-- An account that is charged for the most that fits an `int` cannot have another entry: the
sum is negative, and `addNumEntries` throws. -/
theorem addNumEntries_throws_crowded : ∃ s, RightCounts s ∧ Owned s ∧
    ∃ (body : OperationBody) (sourceID : AccountID), body.doCheckValid sourceID = .ok () ∧
      ∀ env, wp (body.doApply env sourceID) (fun _ _ => False)
        (fun e _ => e = .runtimeError "invalid account state") s := by
  obtain ⟨n, hn⟩ : ∃ n, n + 1 = 2 ^ 31 := ⟨2 ^ 31 - 1, by decide⟩
  obtain ⟨hcounts, howned⟩ := crowded_rightCounts n
  have hdata : (crowded n).data 1 "a" = none := by
    rw [data, crowded, lookup_put, if_neg (by simp [LedgerEntryData.key]),
      offersOfOne_lookup n (by simp)]
  refine ⟨crowded n, hcounts, howned, .manageData ⟨"a", some []⟩, 1, rfl, fun env => ?_⟩
  rw [OperationBody.doApply, ManageDataOp.doApply, wp_bind, wp_loadData, hdata]
  dsimp only
  rw [ManageDataOp.createData, wp_bind, addNumEntries, wp_bind, wp_loadHeader, wp_bind,
    wp_loadAccount, wp_bind, wp_current]
  refine ⟨?_, by rintro ⟨⟩⟩
  rintro acc hsome
  cases hsome
  rw [wp_bind, AccountEntry.addNumEntries, if_pos, wp_lift]
  · refine ⟨by simp, ?_⟩
    rintro e ⟨⟩
    rfl
  · exact newEntriesCount_neg hn

end EssaCore.Transactions
