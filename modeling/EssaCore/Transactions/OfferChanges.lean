import EssaCore.Transactions.AccountChanges
import EssaCore.Transactions.Conversion

/-!
# What an offer changes

A `ManageOfferOp` that succeeds takes the offer it modifies out of the book, takes the offers
that the new one crosses, settles with the source, and leaves what is left of the new offer in
the book.

- `Prepares` — the offer that is modified;
- `CrossesBook` — the offers that are taken, and what is left of the new one;
- `Leaves` — the new offer in the book;
- `Applies` — all of it;
- `doApply_applies` — the code does nothing else.
-/

namespace EssaCore.Transactions.ManageOfferOp

open Ledger Lib

variable {s : LedgerState} {op : ManageOfferOp} {sourceID : AccountID} {passive : Bool}

/-! ## The offer that is modified -/

/-- The changes that take an offer out of the book -/
def withdrawal (o : OfferEntry) : List Change := liabilityChanges o false ++ [.eraseOffer o]

/-- The new offer, and the state without the one that is modified -/
inductive Prepares (op : ManageOfferOp) (sourceID : AccountID) (passive : Bool) (s : LedgerState) :
    OfferEntry → List OfferEntry → LedgerState → Prop
  | create (hid : op.offerID = 0) :
      Prepares op sourceID passive s (buildOffer sourceID op (if passive then PASSIVE_FLAG else 0))
        [] s
  | update {o : OfferEntry} {s' : LedgerState} (hid : op.offerID ≠ 0)
      (ho : s.offer sourceID op.offerID = some o) (hcomputed : ∃ r, offerExchange o = .ok r)
      (hjournal : Journal s (withdrawal o) s') :
      Prepares op sourceID passive s (buildOffer sourceID op o.flags) [o] s'

theorem wlp_prepareOffer : wlp (op.prepareOffer sourceID passive)
    (fun newOffer s' => ∃ old, Prepares op sourceID passive s newOffer old s') s := by
  unfold prepareOffer
  split
  · rename_i hid
    exact ⟨[], .create hid⟩
  · rename_i hid
    simp only [wp_bind, wp_orFail, implies_true, and_true]
    intro o ho
    refine wp_acquireOrReleaseLiabilities (fun s₁ _ hcomputed hrelease => ?_) fun _ _ _ => trivial
    rw [wp_eraseEntry]
    refine ⟨[o], .update hid ho hcomputed (hrelease.snoc ?_)⟩
    obtain ⟨hseller, hofferID⟩ := s.key_of_offer ho
    rw [← hseller, ← hofferID] at ho ⊢
    exact .eraseOffer ((offer_of_amounts hrelease liabilityChanges_amounts _ _).trans ho)

/-! ## Crossing the book -/

/-- The changes by which the source is settled with -/
def settlement (newOffer : OfferEntry) (c : Converted) : List Change :=
  if c.wheatReceived > 0 then
    [.amount .balance newOffer.sellerID newOffer.buying c.wheatReceived,
      .amount .balance newOffer.sellerID newOffer.selling (-c.sheepSend)]
  else []

variable {newOffer : OfferEntry} {creatingNewOffer : Bool} {env : TxEnv}

theorem wlp_settleSource {c : Converted} :
    wlp (settleSource newOffer c) (fun _ s' => Journal s (settlement newOffer c) s') s := by
  unfold settleSource settlement
  split
  · rw [wlp, wp_bind]
    refine wp_addBalanceTo ⟨fun s₁ hpaid => ?_, fun _ => ⟨?_, fun _ => trivial⟩⟩
    · rw [wp_bind, wp_throwIf]
      refine ⟨by simp, fun _ => ?_⟩
      rw [wp_bind]
      refine wp_addBalanceTo ⟨fun s₂ hsold => ?_, fun _ => ⟨?_, fun _ => trivial⟩⟩
      · rw [wp_throwIf]
        exact ⟨by simp, fun _ => .cons hpaid (.single hsold)⟩
      · rw [wp_throwIf]
        exact ⟨fun _ => trivial, fun h => absurd rfl h⟩
    · rw [wp_bind, wp_throwIf]
      exact ⟨fun _ => trivial, fun h => absurd rfl h⟩
  · exact .nil s

/-- The new offer is crossed with the book. -/
inductive CrossesBook (env : TxEnv) (newOffer : OfferEntry) (creatingNewOffer : Bool)
    (s : LedgerState) : Int → List ClaimOfferAtom → LedgerState → Prop
  | intro {limits : Int × Int} {c : Converted} {rounds : List (OfferEntry × CrossOfferResult)}
      {s₁ s' : LedgerState} {sheepStays : Bool} {amount : Int}
      (hlimits : computeOfferExchangeParameters s newOffer creatingNewOffer = .ok limits)
      (hfull : limits.2 ≠ 0)
      (hspec : ConvertSpec env newOffer.selling newOffer.buying limits.1 limits.2 false
        (offerFilter newOffer (newOffer.flags &&& PASSIVE_FLAG ≠ 0)) s c rounds s₁)
      (hidle : ¬ (limits.2 > 0 ∧ limits.1 > 0) → c.result = .eOK ∧ rounds = [] ∧ s₁ = s)
      (hstays : c.result = .eOK ∧ sheepStays = false ∨
        (c.result = .ePartial ∨ c.result = .eFilterStop none) ∧ sheepStays = true)
      (hsettle : Journal s₁ (settlement newOffer c) s')
      (hgone : sheepStays = false → amount = 0)
      (hleft : sheepStays = true → ∃ limits', sellerLimits s' newOffer = .ok limits' ∧
        adjustOffer newOffer.price (min (limits.1 - c.sheepSend) limits'.1) limits'.2 =
          .ok amount) :
      CrossesBook env newOffer creatingNewOffer s amount c.offerTrail s'

theorem wlp_crossOffers : wlp (crossOffers env newOffer creatingNewOffer)
      (fun r s' => CrossesBook env newOffer creatingNewOffer s r.1 r.2 s') s := by
  simp only [crossOffers, wp_bind, wp_lift, wp_failIf, implies_true, true_and, and_true]
  intro limits hlimits hfull
  refine wlp_convertWithOffers.imp ?_
  rintro c s₁ ⟨rounds, hspec, hidle⟩ _ _
  unfold checkConverted
  split
  · rename_i hresult
    refine wlp_settleSource.imp fun _ s' hsettle => ?_
    exact .intro hlimits hfull hspec hidle (.inl ⟨hresult, rfl⟩) hsettle (fun _ => rfl) (by simp)
  · rename_i hresult
    refine wlp_settleSource.imp fun _ s' hsettle => ?_
    refine wlp_adjustOfferEntry fun limits' amount hlimits' hadjust => ?_
    exact .intro hlimits hfull hspec hidle (.inr ⟨.inl hresult, rfl⟩) hsettle (by simp)
      fun _ => ⟨limits', hlimits', hadjust⟩
  · rename_i hresult
    refine wlp_settleSource.imp fun _ s' hsettle => ?_
    refine wlp_adjustOfferEntry fun limits' amount hlimits' hadjust => ?_
    exact .intro hlimits hfull hspec hidle (.inr ⟨.inr hresult, rfl⟩) hsettle (by simp)
      fun _ => ⟨limits', hlimits', hadjust⟩
  · trivial

theorem settlement_balances {c : Converted} : ∀ change ∈ settlement newOffer c,
      ∃ id asset delta, change = .amount .balance id asset delta := by
  intro change hchange
  unfold settlement at hchange
  split at hchange
  · simp only [List.mem_cons, List.not_mem_nil, or_false] at hchange
    rcases hchange with rfl | rfl <;> exact ⟨_, _, _, rfl⟩
  · cases hchange

/-- Crossing keeps what is kept whenever an offer is taken or a balance moves. -/
theorem CrossesBook.invariant {P : LedgerState → Prop} {amount : Int}
    {claimed : List ClaimOfferAtom} {s' : LedgerState}
    (h : CrossesBook env newOffer creatingNewOffer s amount claimed s') (hP : KeptByCrossing P)
    (hbalance : ∀ s s' id asset delta, Step s (.amount .balance id asset delta) s' → P s → P s')
    (hs : P s) : P s' := by
  obtain ⟨-, -, hspec, hidle, -, hsettle, -, -⟩ := h
  refine hsettle.preserves_of_mem ?_ settlement_balances (hspec.invariant hidle hP hs)
  rintro s₁ _ s₂ hstep ⟨id, asset, delta, rfl⟩ hs₁
  exact hbalance _ _ _ _ _ hstep hs₁

/-! ## What is left of the new offer -/

/-- The changes by which an offer comes into the book -/
def placement (o : OfferEntry) : List Change := .createOffer o :: liabilityChanges o true

/-- The header after an identifier was generated -/
def nextID (header : LedgerHeader) : LedgerHeader :=
  { header with idPool := (header.idPool + 1) % 2 ^ 64 }

/-- What is left of the new offer goes into the book. -/
inductive Leaves (newOffer : OfferEntry) (s : LedgerState) :
    Bool → ManageOfferEffect → List Change → LedgerState → Prop
  | created {s' : LedgerState} (hamount : 0 < newOffer.amount)
      (hcomputed : ∃ r, offerExchange newOffer = .ok r)
      (hjournal : Journal s (.numEntries newOffer.sellerID 1 ::
        .header s.header (nextID s.header) ::
        placement { newOffer with offerID := (nextID s.header).idPool }) s') :
      Leaves newOffer s true
        (.MANAGE_OFFER_CREATED { newOffer with offerID := (nextID s.header).idPool })
        (.numEntries newOffer.sellerID 1 :: .header s.header (nextID s.header) ::
          placement { newOffer with offerID := (nextID s.header).idPool }) s'
  | updated {s' : LedgerState} (hamount : 0 < newOffer.amount)
      (hcomputed : ∃ r, offerExchange newOffer = .ok r)
      (hjournal : Journal s (placement newOffer) s') :
      Leaves newOffer s false (.MANAGE_OFFER_UPDATED newOffer) (placement newOffer) s'
  | nothing (hamount : newOffer.amount ≤ 0) : Leaves newOffer s true .MANAGE_OFFER_DELETED [] s
  | deleted {s' : LedgerState} (hamount : newOffer.amount ≤ 0)
      (hjournal : Journal s [.numEntries newOffer.sellerID (-1)] s') :
      Leaves newOffer s false .MANAGE_OFFER_DELETED [.numEntries newOffer.sellerID (-1)] s'

theorem Leaves.journal {effect : ManageOfferEffect} {cs : List Change} {s' : LedgerState}
    (h : Leaves newOffer s creatingNewOffer effect cs s') : Journal s cs s' := by
  cases h with
  | created _ _ hjournal => exact hjournal
  | updated _ _ hjournal => exact hjournal
  | nothing => exact .nil s
  | deleted _ hjournal => exact hjournal

theorem wlp_leaveOffer : wlp (leaveOffer newOffer creatingNewOffer)
      (fun effect s' => ∃ cs, Leaves newOffer s creatingNewOffer effect cs s') s := by
  unfold leaveOffer
  split
  · rename_i hamount
    split
    · rename_i hcreating
      subst hcreating
      rw [createNewOffer, wlp, wp_bind]
      refine wp_addNumEntries ⟨fun s₁ hcount => ?_, fun _ => ⟨?_, fun _ => trivial⟩⟩
      · have hheader : s₁.header = s.header := header_of_step hcount (by simp)
        simp only [generateID, wp_bind, wp_failIf, wp_loadHeader, wp_create, implies_true,
          true_and, hheader]
        intro _ hnone
        refine wp_acquireOrReleaseLiabilities (fun s' _ hcomputed hacquire => ?_)
          fun _ _ _ => trivial
        refine ⟨_, .created hamount hcomputed ?_⟩
        refine .cons hcount (.cons ?_ (.cons (.createOffer hnone) hacquire))
        rw [← hheader]
        exact .header rfl rfl rfl
      · rw [wp_bind, wp_failIf]
        exact ⟨fun _ => trivial, fun h => absurd rfl h⟩
    · rename_i hcreating
      obtain rfl := Bool.eq_false_of_not_eq_true hcreating
      simp only [updateOffer, wp_bind, wp_create, implies_true, true_and]
      intro hnone
      refine wp_acquireOrReleaseLiabilities (fun s' _ hcomputed hacquire => ?_) fun _ _ _ => trivial
      exact ⟨_, .updated hamount hcomputed (.cons (.createOffer hnone) hacquire)⟩
  · rename_i hamount
    split
    · rename_i hcreating
      subst hcreating
      exact ⟨[], .nothing (not_lt.mp hamount)⟩
    · rename_i hcreating
      obtain rfl := Bool.eq_false_of_not_eq_true hcreating
      rw [wlp, wp_bind]
      refine wp_removeEntry (fun s' hstep => ?_) fun _ _ => trivial
      exact ⟨_, .deleted (not_lt.mp hamount) (.single hstep)⟩

/-! ## The operation -/

/-- The source holds an authorized line for an asset, if it needs one. -/
def MayHold (s : LedgerState) (id : AccountID) (asset : Asset) : Prop :=
  asset = .native ∨ ∃ line, trustLineOf s id asset = some line ∧ line.isAuthorized = true

/-- A `ManageOfferOp` that succeeds -/
inductive Applies (env : TxEnv) (op : ManageOfferOp) (sourceID : AccountID) (passive : Bool)
    (s : LedgerState) : ManageOfferSuccessResult → LedgerState → Prop
  | delete {newOffer : OfferEntry} {old : List OfferEntry} {s₁ s' : LedgerState}
      {effect : ManageOfferEffect} {cs : List Change} (hamount : ¬ op.amount > 0)
      (hprepare : Prepares op sourceID passive s newOffer old s₁)
      (hleave : Leaves newOffer s₁ (op.offerID = 0) effect cs s') :
      Applies env op sourceID passive s ⟨[], effect⟩ s'
  | cross {newOffer : OfferEntry} {old : List OfferEntry} {s₁ s₂ s' : LedgerState} {amount : Int}
      {offersClaimed : List ClaimOfferAtom} {effect : ManageOfferEffect} {cs : List Change}
      (hamount : op.amount > 0) (hselling : MayHold s sourceID op.selling)
      (hbuying : MayHold s sourceID op.buying)
      (hprepare : Prepares op sourceID passive s newOffer old s₁)
      (hcross : CrossesBook env newOffer (op.offerID = 0) s₁ amount offersClaimed s₂)
      (hleave : Leaves { newOffer with amount := amount } s₂ (op.offerID = 0) effect cs s') :
      Applies env op sourceID passive s ⟨offersClaimed, effect⟩ s'

theorem wlp_checkSelling :
    wlp (op.checkSelling sourceID) (fun _ s' => s' = s ∧ MayHold s sourceID op.selling) s := by
  unfold checkSelling
  split
  · rename_i hasset
    exact ⟨rfl, .inl hasset⟩
  · simp only [wp_bind, wp_loadTrustLine, wp_loadAccount, wp_failIf, wp_orFail, implies_true,
      true_and, and_true]
    intro _ _ line hline _ hauth
    exact .inr ⟨line, hline, Bool.eq_true_of_not_eq_false hauth⟩

theorem wlp_checkBuying :
    wlp (op.checkBuying sourceID) (fun _ s' => s' = s ∧ MayHold s sourceID op.buying) s := by
  unfold checkBuying
  split
  · rename_i hasset
    exact ⟨rfl, .inl hasset⟩
  · simp only [wp_bind, wp_loadTrustLine, wp_loadAccount, wp_failIf, wp_orFail, implies_true,
      true_and, and_true]
    intro _ _ line hline hauth
    exact .inr ⟨line, hline, Bool.eq_true_of_not_eq_false hauth⟩

theorem wlp_checkOfferValid : wlp (op.checkOfferValid sourceID) (fun _ s' => s' = s ∧
    (op.amount ≠ 0 → MayHold s sourceID op.selling ∧ MayHold s sourceID op.buying)) s := by
  unfold checkOfferValid
  split
  · rename_i hamount
    exact ⟨rfl, fun h => absurd hamount h⟩
  · refine wlp_checkSelling.bind ?_
    rintro _ _ ⟨rfl, hselling⟩
    refine wlp_checkBuying.imp ?_
    rintro _ _ ⟨rfl, hbuying⟩
    exact ⟨rfl, fun _ => ⟨hselling, hbuying⟩⟩

theorem doApply_applies : wlp (op.doApply env sourceID passive)
    (fun r s' => Applies env op sourceID passive s r s') s := by
  refine wp_nested ?_
  simp only [wp_bind]
  refine wlp_checkOfferValid.mono ?_ fun _ _ _ => trivial
  rintro _ _ ⟨rfl, hholds⟩
  refine wlp_prepareOffer.mono ?_ fun _ _ _ => trivial
  rintro newOffer s₁ ⟨old, hprepare⟩
  rw [wp_ite]
  refine ⟨fun hamount => ?_, fun hamount => ?_⟩
  · rw [wp_bind]
    refine wlp_crossOffers.mono (fun crossed s₂ hcross => ?_) fun _ _ _ => trivial
    rw [wp_bind]
    refine wlp_leaveOffer.mono ?_ fun _ _ _ => trivial
    rintro effect s' ⟨cs, hleave⟩
    obtain ⟨hselling, hbuying⟩ := hholds (ne_of_gt hamount)
    exact .cross hamount hselling hbuying hprepare hcross hleave
  · rw [wp_bind, wp_pure, wp_bind]
    refine wlp_leaveOffer.mono ?_ fun _ _ _ => trivial
    rintro effect s' ⟨cs, hleave⟩
    exact .delete hamount hprepare hleave

end EssaCore.Transactions.ManageOfferOp
