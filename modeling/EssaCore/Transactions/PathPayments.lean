import EssaCore.Transactions.AccountChanges
import EssaCore.Transactions.Conversion
import EssaCore.Transactions.PathPaymentOp

/-!
# What a payment changes

A path payment credits its destination, takes offers for each hop of the path on the way back
to the source, and debits the source what the first hop of the path takes.

- `Hop` — the offers that are taken between two assets of the path;
- `Walks` — the way back along the path;
- `PathPaymentOp.Applies` — a path payment that succeeds.
-/

namespace EssaCore.Transactions

open Ledger Lib

namespace PathPaymentOp

variable {env : TxEnv} {s : LedgerState} {op : PathPaymentOp} {sourceID : AccountID}

/-! ## Walking the path -/

/-- The offers that are taken to convert one asset of the path to the next -/
structure Hop where
  sheep : Asset
  wheat : Asset
  rounds : List (OfferEntry × CrossOfferResult)

/-- The path is walked backwards, hop by hop. -/
inductive Walks (env : TxEnv) (sourceID : AccountID) :
    LedgerState → List Asset → Walked → List Hop → Walked → LedgerState → Prop
  | done {s : LedgerState} {w : Walked} : Walks env sourceID s [] w [] w s
  | same {s s' : LedgerState} {curA : Asset} {path : List Asset} {w w' : Walked} {hops : List Hop}
      (hsame : curA = w.curB) (h : Walks env sourceID s path w hops w' s') :
      Walks env sourceID s (curA :: path) w hops w' s'
  | hop {s s₁ s' : LedgerState} {curA : Asset} {path : List Asset} {w w' : Walked}
      {hops : List Hop} {c : Converted} {rounds : List (OfferEntry × CrossOfferResult)}
      (hne : curA ≠ w.curB)
      (hspec : ConvertSpec env curA w.curB INT64_MAX w.curBReceived true (offerFilter sourceID) s c
        rounds s₁)
      (hidle : ¬ (w.curBReceived > 0 ∧ INT64_MAX > 0) → c.result = .eOK ∧ rounds = [] ∧ s₁ = s)
      (hresult : c.result = .eOK) (hwheat : w.curBReceived = c.wheatReceived)
      (h : Walks env sourceID s₁ path ⟨curA, c.sheepSend, c.offerTrail ++ w.offers⟩ hops w' s') :
      Walks env sourceID s (curA :: path) w (⟨curA, w.curB, rounds⟩ :: hops) w' s'

variable {w : Walked}

theorem wlp_walkPath {path : List Asset} : wlp (walkPath env sourceID path w)
    (fun w' s' => ∃ hops, Walks env sourceID s path w hops w' s') s := by
  induction path generalizing s w with
  | nil => exact ⟨[], .done⟩
  | cons curA path ih =>
    unfold walkPath
    split
    · rename_i hsame
      refine ih.imp ?_
      rintro w' s' ⟨hops, hwalks⟩
      exact ⟨hops, .same hsame hwalks⟩
    · rename_i hne
      simp only [wp_bind, wp_failIf, implies_true, true_and]
      intro _
      refine wlp_convertWithOffers.imp ?_
      rintro c s₁ ⟨rounds, hspec, hidle⟩
      rw [wp_lift]
      refine ⟨fun _ hsheep => ?_, fun _ _ => trivial⟩
      unfold checkConverted
      split
      · trivial
      · rename_i hresult
        simp only [wp_failIf, wp_lift, implies_true, true_and, and_true]
        intro _ _ hwheat
        refine ih.imp ?_
        rintro w' s' ⟨hops, hwalks⟩
        exact ⟨_, .hop hne hspec hidle hresult (assert_eq_ok.mp hwheat) hwalks⟩
      · trivial

section Walks

variable {path : List Asset} {w w' : Walked} {hops : List Hop} {s' : LedgerState}

variable (h : Walks env sourceID s path w hops w' s')

include h

theorem Walks.journal : ∃ cs, TradeChanges (hops.flatMap (·.rounds)) cs ∧ Journal s cs s' := by
  induction h with
  | done => exact ⟨[], .nil, .nil _⟩
  | same _ _ ih => exact ih
  | hop _ hspec hidle _ _ _ ih =>
    obtain ⟨cs, htrade, hjournal⟩ := hspec.journal hidle
    obtain ⟨cs', htrade', hjournal'⟩ := ih
    exact ⟨cs ++ cs', htrade.append htrade', hjournal.append hjournal'⟩

theorem Walks.invariant {P : LedgerState → Prop}
    (hP : KeptByCrossing P) (hs : P s) : P s' := by
  induction h with
  | done => exact hs
  | same _ _ ih => exact ih hs
  | hop _ hspec hidle _ _ _ ih => exact ih (hspec.invariant hidle hP hs)

theorem Walks.curB : w'.curB = path.getLastD w.curB := by
  induction h with
  | done => rfl
  | same hsame _ ih => rw [ih, List.getLastD_cons, hsame]
  | hop _ _ _ _ _ _ ih => rw [ih, List.getLastD_cons]

end Walks

/-! ## Both ends of the path -/

theorem wlp_creditDestination : wlp op.creditDestination (fun _ s' => Journal s
    [.amount .balance op.destination op.destAsset op.destAmount] s') s := by
  simp only [creditDestination, wp_bind, wp_failIf, implies_true, true_and]
  intro _
  split
  · rename_i hasset
    rw [wp_bind, hasset]
    refine wp_addAccountBalance ⟨fun s' hstep => ?_, fun _ => ⟨?_, fun _ => trivial⟩⟩
    · rw [wp_failIf]
      exact ⟨by simp, fun _ => .single hstep⟩
    · rw [wp_failIf]
      exact ⟨fun _ => trivial, fun h => absurd rfl h⟩
  · rename_i hasset
    simp only [wp_bind, wp_failIf, wp_loadTrustLine, wp_orFail, implies_true,
      true_and, and_true]
    intro _ _ line _ _
    refine wp_addTrustLineBalance hasset ⟨fun s' hstep => ?_, fun _ => ⟨?_, fun _ => trivial⟩⟩
    · exact fun _ => .single hstep
    · exact fun h => absurd rfl h

theorem wlp_debitSource : wlp (op.debitSource sourceID w) (fun _ s' =>
    w.curBReceived ≤ op.sendMax ∧ Journal s
      [.amount .balance sourceID w.curB (-w.curBReceived)] s') s := by
  simp only [debitSource, wp_bind, wp_failIf, implies_true, true_and]
  intro hmax
  have hmax := not_lt.mp hmax
  split
  · rename_i hasset
    simp only [wp_bind, wp_orFail, wp_failIf, implies_true, true_and,
      and_true]
    intro acc _ _
    rw [hasset]
    refine wp_addAccountBalance ⟨fun s' hstep => ?_, fun _ => ⟨?_, fun _ => trivial⟩⟩
    · rw [wp_lift]
      exact ⟨fun _ _ => ⟨hmax, .single hstep⟩, fun _ _ => trivial⟩
    · rw [wp_lift]
      exact ⟨fun _ h => absurd (assert_eq_ok.mp h) Bool.false_ne_true, fun _ _ => trivial⟩
  · rename_i hasset
    simp only [wp_bind, wp_failIf, wp_loadTrustLine, wp_orFail, implies_true,
      true_and, and_true]
    intro _ _ line _ _
    refine wp_addTrustLineBalance hasset ⟨fun s' hstep => ?_, fun _ => ⟨?_, fun _ => trivial⟩⟩
    · exact fun _ => ⟨hmax, .single hstep⟩
    · exact fun h => absurd rfl h

/-- A path payment that succeeds -/
inductive Applies (env : TxEnv) (op : PathPaymentOp) (sourceID : AccountID) (s : LedgerState) :
    List Hop → Walked → LedgerState → Prop
  | intro {s₁ s₂ s' : LedgerState} {hops : List Hop} {w : Walked}
      (hcredit : Journal s [.amount .balance op.destination op.destAsset op.destAmount] s₁)
      (hwalk : Walks env sourceID s₁ (op.sendAsset :: op.path).reverse
        ⟨op.destAsset, op.destAmount, []⟩ hops w s₂)
      (hmax : w.curBReceived ≤ op.sendMax)
      (hdebit : Journal s₂ [.amount .balance sourceID op.sendAsset (-w.curBReceived)] s') :
      Applies env op sourceID s hops w s'

/-- A path payment keeps what is kept whenever an offer is taken or a balance moves. -/
theorem Applies.invariant {P : LedgerState → Prop} {s' : LedgerState} {hops : List Hop}
    (h : op.Applies env sourceID s hops w s') (hP : KeptByCrossing P)
    (hbalance : ∀ s s' id asset delta, Step s (.amount .balance id asset delta) s' → P s → P s')
    (hs : P s) : P s' := by
  obtain ⟨hcredit, hwalk, -, hdebit⟩ := h
  have hone {s s' : LedgerState} {id : AccountID} {asset : Asset} {delta : Int}
      (h : Journal s [.amount .balance id asset delta] s') (hs : P s) : P s' := by
    cases h with
    | cons hstep hnil =>
      cases hnil
      exact hbalance _ _ _ _ _ hstep hs
  exact hone hdebit (hwalk.invariant hP (hone hcredit hs))

theorem doApply_applies : wlp (op.doApply env sourceID)
    (fun w s' => ∃ hops, Applies env op sourceID s hops w s') s := by
  simp only [doApply, wp_bind]
  refine wlp_creditDestination.imp fun _ s₁ hcredit => ?_
  refine wlp_walkPath.imp ?_
  rintro w s₂ ⟨hops, hwalk⟩
  refine wlp_debitSource.imp ?_
  rintro _ s' ⟨hmax, hdebit⟩
  have hsend : w.curB = op.sendAsset := by
    rw [hwalk.curB]
    simp
  rw [hsend] at hdebit
  exact ⟨hops, .intro hcredit hwalk hmax hdebit⟩

end PathPaymentOp

/-- Only the code of a call that fails is translated. -/
theorem PaymentOp.wp_mapResultCode {α : Type} {f : InnerResultCode → TxError} {x : TxM α}
    {Q : α → LedgerState → Prop} {E : TxError → LedgerState → Prop} {s : LedgerState}
    (h : wp x Q (fun e s' => match e with
      | .failed code => E (f code) s'
      | e => E e s') s) : wp (mapResultCode f x) Q E s := by
  unfold wp mapResultCode at *
  rcases hx : x s with ⟨a, s'⟩ | ⟨e, s'⟩
  · rw [hx] at h
    exact h
  · rw [hx] at h
    cases e <;> exact h

/-- A payment that succeeds: one of native coins to oneself, or a path payment -/
theorem PaymentOp.doApply_applies {env : TxEnv} {op : PaymentOp} {sourceID : AccountID}
    {s : LedgerState} : wlp (op.doApply env sourceID) (fun _ s' => s' = s ∨
      ∃ hops w, op.pathPayment.Applies env sourceID s hops w s') s := by
  unfold doApply
  split
  · exact .inl rfl
  · refine wp_mapResultCode ?_
    rw [wp_bind]
    unfold checked
    split
    · rw [wp_pure, wp_bind]
      refine PathPaymentOp.doApply_applies.mono ?_ fun e _ _ => by cases e <;> trivial
      rintro w s' ⟨hops, happlies⟩
      exact .inr ⟨hops, w, happlies⟩
    · trivial

end EssaCore.Transactions
