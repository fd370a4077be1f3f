import EssaCore.Transactions.CrossOffer
import EssaCore.Transactions.ManageOfferOp

/-!
# What a conversion amounts to

The loop of `convertWithOffers` ends, because every round but the last erases an offer. What
it returns are the sums over the offers that were taken, and these are what their sellers
were paid and have given.

- `TradeChanges` — the changes of a conversion, offer by offer;
- `Converts.journal` — a conversion makes no other changes;
- `KeptByCrossing`, `Converts.invariant` — what holds after a conversion;
- `Converts.erased` — every offer but the last is gone;
- `convertLoop_ends` — there are enough rounds;
- `convertWithOffers_spec` — all of it, for the code.
-/

open List

namespace EssaCore.Transactions

open Ledger Lib LedgerState ManageOfferOp

/-! ## The changes of a conversion -/

/-- The changes by which offers are taken -/
inductive TradeChanges : List (OfferEntry × CrossOfferResult) → List Change → Prop
  | nil : TradeChanges [] []
  | cons {o : OfferEntry} {ex : ExchangeResultV10} {amount : Int}
      {rounds : List (OfferEntry × CrossOfferResult)} {cs : List Change}
      (h : TradeChanges rounds cs) :
      TradeChanges ((o, crossResult o ex amount) :: rounds) (crossChanges o ex amount ++ cs)

namespace TradeChanges

variable {rounds : List (OfferEntry × CrossOfferResult)} {cs : List Change}

variable (h : TradeChanges rounds cs)

include h

/-- What an account gains of an asset in a conversion -/
theorem balance (id : AccountID) (asset : Asset) :
    (cs.map (Change.delta .balance id asset)).sum =
      (rounds.map fun p => p.2.claim.gain id asset).sum := by
  induction h with
  | nil => rfl
  | cons _ ih =>
    rw [map_append, sum_append, crossChanges_balance, ih, map_cons, sum_cons]

theorem append {rounds' : List (OfferEntry × CrossOfferResult)} {cs' : List Change}
    (h' : TradeChanges rounds' cs') :
    TradeChanges (rounds ++ rounds') (cs ++ cs') := by
  induction h with
  | nil => exact h'
  | cons _ ih =>
    rw [append_assoc]
    exact .cons ih

/-- What is recorded for an offer is what was exchanged with it. -/
theorem claim :
    ∀ p ∈ rounds, p.2.claim = ⟨p.1.sellerID, p.1.offerID, p.1.selling, p.2.numWheatReceived,
      p.1.buying, p.2.numSheepSend⟩ := by
  induction h with
  | nil => exact fun _ hp => absurd hp not_mem_nil
  | cons _ ih =>
    intro p hp
    rcases mem_cons.mp hp with rfl | hp
    · rfl
    · exact ih p hp

/-- A conversion makes four kinds of changes. -/
theorem mem {c : Change} (hc : c ∈ cs) :
    (∃ q id asset delta, c = .amount q id asset delta) ∨ (∃ o, c = .eraseOffer o) ∨
      (∃ o amount, c = .setAmount o amount) ∨ ∃ id, c = .numEntries id (-1) := by
  induction h with
  | nil => cases hc
  | cons _ ih =>
    rcases mem_append.mp hc with hc | hc
    · rcases mem_append.mp hc with hc | hc
      · exact .inl (liabilityChanges_amounts c hc)
      · rcases mem_append.mp hc with hc | hc
        · exact .inl (settleChanges_amounts c hc)
        · unfold finishChanges at hc
          split at hc
          · simp only [mem_cons, not_mem_nil, or_false] at hc
            rcases hc with rfl | rfl
            · exact .inr (.inl ⟨_, rfl⟩)
            · exact .inr (.inr (.inr ⟨_, rfl⟩))
          · rcases mem_cons.mp hc with rfl | hc
            · exact .inr (.inr (.inl ⟨_, _, rfl⟩))
            · exact .inl (liabilityChanges_amounts c hc)
    · exact ih hc

end TradeChanges

/-- An offer comes into the book only when it is created. -/
theorem offer_eq_none_of_journal {s s' : LedgerState} {cs : List Change} (h : Journal s cs s')
    (hcs : ∀ c ∈ cs, ∀ o, c ≠ .createOffer o) {id : AccountID} {offerID : Nat}
    (hnone : s.offer id offerID = none) : s'.offer id offerID = none := by
  refine h.preserves_of_mem (P := fun s => s.offer id offerID = none)
    (fun s c s' hstep hc hnone => ?_) hcs hnone
  by_cases hkey : c.key = some (.offer id offerID)
  · cases hstep with
    | createOffer => exact absurd rfl (hc _)
    | setAmount ho =>
      obtain ⟨rfl, rfl⟩ := LedgerKey.offer.inj (Option.some.inj hkey)
      rw [hnone] at ho
      cases ho
    | eraseOffer ho =>
      obtain ⟨rfl, rfl⟩ := LedgerKey.offer.inj (Option.some.inj hkey)
      rw [hnone] at ho
      cases ho
    | native => exact absurd (Option.some.inj hkey) assetKey_ne_offer
    | line => exact absurd (Option.some.inj hkey) assetKey_ne_offer
    | issuer => exact absurd (Option.some.inj hkey) assetKey_ne_offer
    | _ => cases hkey
  · unfold offer at hnone ⊢
    rwa [hstep.lookup_of_ne hkey]

section Converts

variable {env : TxEnv} {sheep wheat : Asset} {isPathPayment : Bool}
  {filter : OfferEntry → Except TxError OfferFilterResult} {s s' : LedgerState}
  {maxSheepSend maxWheatReceive : Int} {result : ConvertResult}
  {rounds : List (OfferEntry × CrossOfferResult)}

/-- What is kept whenever an offer is taken -/
def KeptByCrossing (P : LedgerState → Prop) : Prop :=
  ∀ ⦃s s' : LedgerState⦄ ⦃o : OfferEntry⦄ ⦃maxWheatReceive maxSheepSend : Int⦄
    ⦃isPathPayment : Bool⦄ ⦃r : CrossOfferResult⦄, o ∈ s.offers →
    Crosses s o maxWheatReceive maxSheepSend isPathPayment r s' → P s → P s'

variable (h : Converts env sheep wheat isPathPayment filter s maxSheepSend maxWheatReceive result
  rounds s')

include h

theorem Converts.journal : ∃ cs, TradeChanges rounds cs ∧ Journal s cs s' := by
  induction h with
  | exhausted => exact ⟨[], .nil, .nil _⟩
  | stopped => exact ⟨[], .nil, .nil _⟩
  | last hbest _ hcall =>
    obtain ⟨ex, amount, rfl, hjournal⟩ := (crosses_of_call hbest hcall).journal
    exact ⟨_, .cons .nil, by rwa [append_nil]⟩
  | next hbest _ hcall _ _ _ _ _ ih =>
    obtain ⟨ex, amount, rfl, hjournal⟩ := (crosses_of_call hbest hcall).journal
    obtain ⟨cs, htrade, hrest⟩ := ih
    exact ⟨_, .cons htrade, hjournal.append hrest⟩

theorem Converts.invariant {P : LedgerState → Prop} (hP : KeptByCrossing P) (hs : P s) : P s' := by
  induction h with
  | exhausted => exact hs
  | stopped => exact hs
  | last hbest _ hcall =>
    exact hP (mem_offersFor.mp (bestOffer_mem hbest)).1 (crosses_of_call hbest hcall) hs
  | next hbest _ hcall _ _ _ _ _ ih =>
    exact ih (hP (mem_offersFor.mp (bestOffer_mem hbest)).1 (crosses_of_call hbest hcall) hs)

/-- The offers that are taken sell wheat for sheep, and the filter keeps them. -/
theorem Converts.kept :
    ∀ p ∈ rounds, p.1.buying = sheep ∧ p.1.selling = wheat ∧ filter p.1 = .ok .eKeep := by
  induction h with
  | exhausted => exact fun _ hp => absurd hp not_mem_nil
  | stopped => exact fun _ hp => absurd hp not_mem_nil
  | last hbest hfilter =>
    intro p hp
    rw [mem_singleton.mp hp]
    have hmem := mem_offersFor.mp (bestOffer_mem hbest)
    exact ⟨hmem.2.1, hmem.2.2, hfilter⟩
  | next hbest hfilter _ _ _ _ _ _ ih =>
    intro p hp
    rcases mem_cons.mp hp with rfl | hp
    · have hmem := mem_offersFor.mp (bestOffer_mem hbest)
      exact ⟨hmem.2.1, hmem.2.2, hfilter⟩
    · exact ih p hp

theorem Converts.bounds (hs : 0 ≤ maxSheepSend) (hw : 0 ≤ maxWheatReceive) :
    (0 ≤ totalSheep rounds ∧ totalSheep rounds ≤ maxSheepSend) ∧
      0 ≤ totalWheat rounds ∧ totalWheat rounds ≤ maxWheatReceive := by
  induction h with
  | exhausted => exact ⟨⟨le_rfl, hs⟩, le_rfl, hw⟩
  | stopped => exact ⟨⟨le_rfl, hs⟩, le_rfl, hw⟩
  | last _ _ _ hsheep hwheat =>
    simp only [totalSheep, totalWheat, map_cons, map_nil, sum_cons, sum_nil]
    omega
  | next _ _ _ hsheep hwheat _ hmore _ ih =>
    simp only [totalSheep, totalWheat, map_cons, sum_cons] at ih ⊢
    omega

/-- No sheep is sent for nothing. -/
theorem Converts.sheep_eq_zero (hwheat : totalWheat rounds = 0) : totalSheep rounds = 0 := by
  induction h with
  | exhausted => rfl
  | stopped => rfl
  | last hbest _ hcall =>
    have := (crosses_of_call hbest hcall).pos_or_zero
    simp only [totalSheep, totalWheat, map_cons, map_nil, sum_cons, sum_nil]
      at hwheat ⊢
    omega
  | next hbest _ hcall hsheep hwheat' _ hmore hrest ih =>
    have := (crosses_of_call hbest hcall).pos_or_zero
    have := hrest.bounds hmore.2.le hmore.1.le
    simp only [totalSheep, totalWheat, map_cons, sum_cons] at *
    omega

omit h in
/-- A taken offer is gone. -/
theorem Crosses.erased {o : OfferEntry} {r : CrossOfferResult}
    (h : Crosses s o maxWheatReceive maxSheepSend isPathPayment r s') (htaken : r.taken = true) :
    s'.offer o.sellerID o.offerID = none := by
  obtain @⟨_, _, _, _, _, _, _, -, -, -, -, -, -, -, -, -, hfinish⟩ := h
  rw [finishChanges, if_pos (of_decide_eq_true htaken)] at hfinish
  cases hfinish with
  | cons herase hrest =>
    refine offer_eq_none_of_journal hrest (fun c hc o => ?_) ?_
    · rw [mem_singleton.mp hc]
      exact nofun
    · cases herase with
      | eraseOffer ho =>
        unfold offer
        rw [lookup_erase_self]

/-- Every offer that is taken but the last one is gone. -/
theorem Converts.erased : ∀ p ∈ rounds.dropLast, s'.offer p.1.sellerID p.1.offerID = none := by
  induction h with
  | exhausted => exact fun _ hp => absurd hp not_mem_nil
  | stopped => exact fun _ hp => absurd hp not_mem_nil
  | last => exact fun _ hp => absurd hp not_mem_nil
  | @next s s₁ s' _ _ o r result rest hbest hfilter hcall _ _ htaken _ hrest ih =>
    have hgone := (crosses_of_call hbest hcall).erased htaken
    obtain ⟨cs, htrade, hjournal⟩ := hrest.journal
    have hcs : ∀ c ∈ cs, ∀ o, c ≠ .createOffer o := by
      intro c hc o
      rcases htrade.mem hc with ⟨_, _, _, _, rfl⟩ | ⟨_, rfl⟩ | ⟨_, _, rfl⟩ |
        ⟨_, rfl⟩ <;> exact nofun
    intro p hp
    cases rest with
    | nil => cases hp
    | cons p' rest =>
      rcases mem_cons.mp hp with rfl | hp
      · exact offer_eq_none_of_journal hjournal hcs hgone
      · exact ih p hp

/-- How a conversion ends -/
theorem Converts.result_cases :
    (result = .eOK → totalSheep rounds = maxSheepSend ∨ totalWheat rounds = maxWheatReceive ∨
      ∃ p, rounds.getLast? = some p ∧ p.2.wheatStays = true) ∧
    (result = .ePartial → offersFor s' sheep wheat = [] ∧
      (0 < maxSheepSend → totalSheep rounds < maxSheepSend) ∧
      (0 < maxWheatReceive → totalWheat rounds < maxWheatReceive)) := by
  induction h with
  | exhausted hbest =>
    exact ⟨nofun, fun _ => ⟨bestOffer_eq_none hbest, id, id⟩⟩
  | stopped => exact ⟨nofun, nofun⟩
  | @last s s' maxSheepSend maxWheatReceive o r _ _ _ hsheep hwheat hdone =>
    refine ⟨fun _ => ?_, nofun⟩
    simp only [totalSheep, totalWheat, map_cons, map_nil, sum_cons, sum_nil]
    rcases hdone with hstays | hdone
    · exact .inr (.inr ⟨(o, r), rfl, hstays⟩)
    · omega
  | @next s s₁ s' maxSheepSend maxWheatReceive o r result rest _ _ _ _ _ _ hmore hrest ih =>
    simp only [totalSheep, totalWheat, map_cons, sum_cons] at ih ⊢
    constructor
    · intro hresult
      rcases ih.1 hresult with h | h | ⟨p, hlast, hstays⟩
      · omega
      · omega
      · refine .inr (.inr ⟨p, ?_, hstays⟩)
        rw [List.getLast?_cons, hlast]
        rfl
    · intro hresult
      obtain ⟨hnone, _, _⟩ := ih.2 hresult
      exact ⟨hnone, fun _ => by omega, fun _ => by omega⟩

omit h in
/-- A loop with more rounds than there are offers is not cut off. -/
theorem convertLoop_ends (fuel : Nat) (hfuel : s.offers.length < fuel)
    {sheepSend wheatReceived : Int} {offerTrail : List ClaimOfferAtom} :
    wlp (convertLoop env sheep wheat isPathPayment filter fuel maxSheepSend maxWheatReceive
      sheepSend wheatReceived offerTrail) (fun c _ => c ≠ none) s := by
  induction fuel generalizing s maxSheepSend maxWheatReceive sheepSend wheatReceived offerTrail with
  | zero => exact absurd hfuel (Nat.not_lt_zero _)
  | succ fuel ih =>
    simp only [convertLoop, loadBestOffer, wp_bind, wp_get, wp_pure]
    split
    · simp
    · rename_i o hbest
      simp only [wp_bind, wp_lift, implies_true, and_true]
      intro filtered hfilter
      split
      · simp
      · simp only [wp_bind]
        refine wp_nested (wlp_iff.mpr fun r s' hcall => ?_)
        simp only [wp_lift, implies_true, and_true]
        intro _ _ _ _
        split
        · simp
        · split
          · simp
          · rename_i htaken
            refine ih ?_
            -- the offer that was taken is gone
            obtain ⟨_, _, rfl, hjournal⟩ := (crosses_of_call hbest hcall).journal
            have hoffers := journal_offers hjournal
            rw [crossChanges_offers, if_pos (Bool.eq_true_of_not_eq_false htaken)] at hoffers
            omega

end Converts

/-! ## The code -/

/-- The price of an offer is at most the reciprocal of a new offer's, and less for a passive one,
and the offer belongs to another account. -/
def Suits (newOffer : OfferEntry) (passive : Bool) (o : OfferEntry) : Prop :=
  o.price.n * newOffer.price.n ≤ o.price.d * newOffer.price.d ∧
    (passive = true → o.price.n * newOffer.price.n < o.price.d * newOffer.price.d) ∧
    o.sellerID ≠ newOffer.sellerID

theorem ManageOfferOp.offerFilter_eq_keep {newOffer o : OfferEntry} {passive : Bool}
    (h : ManageOfferOp.offerFilter newOffer passive o = .ok .eKeep) :
    Suits newOffer passive o := by
  unfold offerFilter at h
  rw [assert_bind_eq_ok] at h
  obtain ⟨-, h⟩ := h
  split at h
  · cases h
  · rename_i hprice
    obtain ⟨hge, hgt⟩ := not_or.mp hprice
    simp only [Price.gt, decide_eq_true_eq, not_lt] at hgt
    split at h
    · cases h
    · rename_i hseller
      refine ⟨hgt, fun hpassive => ?_, hseller⟩
      simpa [Price.ge, hpassive] using hge

/-- What `convertWithOffers` has done when it returns. `rounds` are its calls of `crossOfferV10`,
with the offers they were made for. -/
structure ConvertSpec (env : TxEnv) (sheep wheat : Asset) (maxSheepSend maxWheatReceive : Int)
    (isPathPayment : Bool) (filter : OfferEntry → Except TxError OfferFilterResult)
    (s : LedgerState) (c : Converted) (rounds : List (OfferEntry × CrossOfferResult))
    (s' : LedgerState) : Prop where
  calls : maxWheatReceive > 0 ∧ maxSheepSend > 0 →
    Converts env sheep wheat isPathPayment filter s maxSheepSend maxWheatReceive c.result rounds s'
  trail : c.offerTrail = rounds.map (·.2.claim)
  claims : ∀ claim ∈ c.offerTrail, claim.assetSold = wheat ∧ claim.assetBought = sheep
  sheepSend : c.sheepSend = (c.offerTrail.map (·.amountBought)).sum
  wheatReceived : c.wheatReceived = (c.offerTrail.map (·.amountSold)).sum
  makers : ∀ id asset, ¬ issues id asset → kept s' .balance id asset =
    kept s .balance id asset + (c.offerTrail.map (ClaimOfferAtom.gain id asset)).sum
  sheep_le : 0 ≤ c.sheepSend ∧ c.sheepSend ≤ max maxSheepSend 0
  wheat_le : 0 ≤ c.wheatReceived ∧ c.wheatReceived ≤ max maxWheatReceive 0
  erased : ∀ claim ∈ c.offerTrail.dropLast, s'.offer claim.sellerID claim.offerID = none
  eOK : c.result = .eOK → c.sheepSend ≥ maxSheepSend ∨ c.wheatReceived ≥ maxWheatReceive ∨
    ∃ p, rounds.getLast? = some p ∧ p.2.wheatStays = true
  ePartial : c.result = .ePartial → offersFor s' sheep wheat = [] ∧ c.sheepSend < maxSheepSend ∧
    c.wheatReceived < maxWheatReceive
  filtered : ∀ newOffer passive, filter = ManageOfferOp.offerFilter newOffer passive →
    ∀ p ∈ rounds, Suits newOffer passive p.1

section ConvertSpec

variable {env : TxEnv} {sheep wheat : Asset} {maxSheepSend maxWheatReceive : Int}
  {isPathPayment : Bool} {filter : OfferEntry → Except TxError OfferFilterResult}
  {s s' : LedgerState} {c : Converted} {rounds : List (OfferEntry × CrossOfferResult)}

variable
  (h : ConvertSpec env sheep wheat maxSheepSend maxWheatReceive isPathPayment filter s c rounds s')
  (hidle : ¬ (maxWheatReceive > 0 ∧ maxSheepSend > 0) → c.result = .eOK ∧ rounds = [] ∧ s' = s)

include h hidle

/-- A conversion makes the changes by which its offers are taken. -/
theorem ConvertSpec.journal : ∃ cs, TradeChanges rounds cs ∧ Journal s cs s' := by
  by_cases hmore : maxWheatReceive > 0 ∧ maxSheepSend > 0
  · exact (h.calls hmore).journal
  · obtain ⟨-, rfl, rfl⟩ := hidle hmore
    exact ⟨[], .nil, .nil _⟩

/-- A conversion keeps what is kept whenever an offer is taken. -/
theorem ConvertSpec.invariant {P : LedgerState → Prop} (hP : KeptByCrossing P) (hs : P s) :
    P s' := by
  by_cases hmore : maxWheatReceive > 0 ∧ maxSheepSend > 0
  · exact (h.calls hmore).invariant hP hs
  · obtain ⟨-, -, rfl⟩ := hidle hmore
    exact hs

/-- The offers that are taken sell wheat for sheep, and the filter keeps them. -/
theorem ConvertSpec.kept :
    ∀ p ∈ rounds, p.1.buying = sheep ∧ p.1.selling = wheat ∧ filter p.1 = .ok .eKeep := by
  by_cases hmore : maxWheatReceive > 0 ∧ maxSheepSend > 0
  · exact (h.calls hmore).kept
  · obtain ⟨-, rfl, -⟩ := hidle hmore
    exact fun _ hp => absurd hp not_mem_nil

/-- What is returned is what the offers add up to. -/
theorem ConvertSpec.totals :
    c.sheepSend = totalSheep rounds ∧ c.wheatReceived = totalWheat rounds := by
  obtain ⟨_, htrade, -⟩ := h.journal hidle
  have hclaim := htrade.claim
  rw [h.sheepSend, h.wheatReceived, h.trail, map_map, map_map]
  exact ⟨congrArg List.sum (map_congr_left fun p hp =>
      congrArg ClaimOfferAtom.amountBought (hclaim p hp)),
    congrArg List.sum (map_congr_left fun p hp =>
      congrArg ClaimOfferAtom.amountSold (hclaim p hp))⟩

/-- No sheep is sent for nothing. -/
theorem ConvertSpec.sheep_eq_zero (hwheat : c.wheatReceived = 0) : c.sheepSend = 0 := by
  obtain ⟨hsheep, hwheat'⟩ := h.totals hidle
  rw [hsheep]
  by_cases hmore : maxWheatReceive > 0 ∧ maxSheepSend > 0
  · exact (h.calls hmore).sheep_eq_zero (hwheat'.symm.trans hwheat)
  · obtain ⟨-, rfl, -⟩ := hidle hmore
    rfl

end ConvertSpec

/-- What a call of `convertWithOffers` has done when it returns. Nothing is done if nothing is
needed. -/
theorem wlp_convertWithOffers {env : TxEnv} {sheep wheat : Asset}
    {maxSheepSend maxWheatReceive : Int} {isPathPayment : Bool}
    {filter : OfferEntry → Except TxError OfferFilterResult} {s : LedgerState} :
    wlp (convertWithOffers env sheep maxSheepSend wheat maxWheatReceive isPathPayment filter)
      (fun c s' => ∃ rounds, ConvertSpec env sheep wheat maxSheepSend maxWheatReceive
        isPathPayment filter s c rounds s' ∧ (¬ (maxWheatReceive > 0 ∧ maxSheepSend > 0) →
          c.result = .eOK ∧ rounds = [] ∧ s' = s)) s := by
  refine convertWithOffers_converts.imp fun c s' => ?_
  rintro ⟨rounds, hsheep, hwheat, htrail, ⟨hnone, hresult, rfl, rfl⟩ | ⟨hmore, hconverts⟩⟩
  · -- nothing is needed, and nothing is done
    have hsheep : c.sheepSend = 0 := hsheep
    have hwheat : c.wheatReceived = 0 := hwheat
    refine ⟨[], ?_, fun _ => ⟨hresult, rfl, rfl⟩⟩
    exact
      { calls := fun h => absurd h hnone
        trail := htrail
        claims := by simp [htrail]
        sheepSend := by simp [hsheep, htrail]
        wheatReceived := by simp [hwheat, htrail]
        makers := by simp [htrail]
        sheep_le := by simp [hsheep]
        wheat_le := by simp [hwheat]
        erased := by simp [htrail]
        eOK := fun _ => by
          rw [hsheep]
          omega
        ePartial := fun h => by
          rw [hresult] at h
          cases h
        filtered := fun _ _ _ _ hp => absurd hp not_mem_nil }
  · obtain ⟨_, htrade, hjournal⟩ := hconverts.journal
    obtain ⟨_, _⟩ := hconverts.bounds hmore.2.le hmore.1.le
    have hends := hconverts.result_cases
    have hclaim := htrade.claim
    have hkeep := hconverts.kept
    refine ⟨rounds, ?_, fun h => absurd hmore h⟩
    exact
      { calls := fun _ => hconverts
        trail := htrail
        claims := fun claim hmem => by
          rw [htrail] at hmem
          obtain ⟨p, hp, rfl⟩ := mem_map.mp hmem
          rw [hclaim p hp]
          exact ⟨(hkeep p hp).2.1, (hkeep p hp).1⟩
        sheepSend := by
          rw [hsheep, htrail, map_map]
          exact congrArg List.sum (map_congr_left fun p hp =>
            (congrArg ClaimOfferAtom.amountBought (hclaim p hp)).symm)
        wheatReceived := by
          rw [hwheat, htrail, map_map]
          exact congrArg List.sum (map_congr_left fun p hp =>
            (congrArg ClaimOfferAtom.amountSold (hclaim p hp)).symm)
        makers := fun id asset hissues => by
          rw [journal_kept hjournal hissues, htrade.balance, htrail, map_map]
          rfl
        sheep_le := by
          omega
        wheat_le := by
          omega
        erased := fun claim hmem => by
          rw [htrail, ← map_dropLast] at hmem
          obtain ⟨p, hp, rfl⟩ := mem_map.mp hmem
          rw [hclaim p ((dropLast_sublist rounds).subset hp)]
          exact hconverts.erased p hp
        eOK := fun h => by
          rw [hsheep, hwheat]
          exact (hends.1 h).imp ge_of_eq (Or.imp_left ge_of_eq)
        ePartial := fun h => by
          rw [hsheep, hwheat]
          obtain ⟨hnone, hs, hw⟩ := hends.2 h
          exact ⟨hnone, hs hmore.2, hw hmore.1⟩
        filtered := fun newOffer passive hfilter p hp => by
          have hp := (hkeep p hp).2.2
          rw [hfilter] at hp
          exact offerFilter_eq_keep hp }

/-- `convertWithOffers` ends, and returns what the offers it has taken add up to. -/
theorem convertWithOffers_spec (env : TxEnv) (sheep wheat : Asset)
    (maxSheepSend maxWheatReceive : Int) (isPathPayment : Bool)
    (filter : OfferEntry → Except TxError OfferFilterResult) (s : LedgerState) :
    wlp (convertLoop env sheep wheat isPathPayment filter (s.offers.length + 1) maxSheepSend
      maxWheatReceive 0 0 []) (fun c _ => c ≠ none) s ∧
    wlp (convertWithOffers env sheep maxSheepSend wheat maxWheatReceive isPathPayment filter)
      (fun c s' => ∃ rounds, ConvertSpec env sheep wheat maxSheepSend maxWheatReceive
        isPathPayment filter s c rounds s') s := by
  refine ⟨convertLoop_ends _ (Nat.lt_succ_self _), ?_⟩
  refine wlp_convertWithOffers.imp fun c s' => ?_
  rintro ⟨rounds, hspec, -⟩
  exact ⟨rounds, hspec⟩

end EssaCore.Transactions
