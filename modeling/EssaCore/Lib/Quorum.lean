import Mathlib

/-!
# Federated quorum systems

Nodes choose for themselves whom they trust: `sat v S` says that the set `S`
satisfies node `v`, i.e. contains one of its slices. Faulty nodes may claim
anything; what well-behaved nodes can rely on is intersection *after deleting*
the faulty ones.

- `IsQuorum sat faulty Q` — `Q` is a quorum of the system without the faulty
  nodes;
- `QuorumIntersection sat faulty` — any two of them share a node;
- `agreement` — if every well-behaved node pledges to one value only, and
  decides on a value only when a set that satisfies it is pledged to that
  value, then all decisions of well-behaved nodes agree.
-/

namespace EssaCore.Lib

universe u v

variable {N : Type u} {X : Type v}

/-- A set of well-behaved nodes, each satisfied by the set and whatever the
faulty nodes add. -/
structure IsQuorum (sat : N → Set N → Prop) (faulty Q : Set N) : Prop where
  nonempty : Q.Nonempty
  wellBehaved : ∀ v ∈ Q, v ∉ faulty
  satisfied : ∀ v ∈ Q, sat v (Q ∪ faulty)

/-- Quorum intersection despite the faulty nodes. -/
def QuorumIntersection (sat : N → Set N → Prop) (faulty : Set N) : Prop :=
  ∀ Q Q', IsQuorum sat faulty Q → IsQuorum sat faulty Q' → (Q ∩ Q').Nonempty

/-- `U` supports a decision on `x`: its well-behaved nodes are pledged to `x`,
and each is satisfied by `U` or has itself decided on `x`. -/
def Supports (sat : N → Set N → Prop) (faulty : Set N)
    (pledged decided : N → X → Prop) (x : X) (U : Set N) : Prop :=
  ∀ w ∈ U, w ∉ faulty → pledged w x ∧ (sat w U ∨ decided w x)

section Agreement

variable {sat : N → Set N → Prop} {faulty : Set N}
  {pledged decided : N → X → Prop}

/-- Everyone well-behaved that stands behind the decisions on `x`. -/
def Backers (sat : N → Set N → Prop) (faulty : Set N)
    (pledged decided : N → X → Prop) (x : X) : Set N :=
  { w | w ∉ faulty ∧ (decided w x ∨
    ∃ U, Supports sat faulty pledged decided x U ∧ w ∈ U) }

/-- The backers of a decision form a quorum: a decided node is satisfied by its
own support, and the others by the support they appear in. -/
theorem isQuorum_backers (hmono : ∀ v S T, S ⊆ T → sat v S → sat v T)
    (hsupport : ∀ v x, v ∉ faulty → decided v x →
      ∃ U, sat v U ∧ Supports sat faulty pledged decided x U)
    {v : N} {x : X} (hv : v ∉ faulty) (hd : decided v x) :
    IsQuorum sat faulty (Backers sat faulty pledged decided x) := by
  have hsub : ∀ U, Supports sat faulty pledged decided x U →
      U ⊆ Backers sat faulty pledged decided x ∪ faulty := by
    intro U hU w hw
    by_cases hf : w ∈ faulty
    · exact .inr hf
    · exact .inl ⟨hf, .inr ⟨U, hU, hw⟩⟩
  have hdecided : ∀ w, w ∉ faulty → decided w x →
      sat w (Backers sat faulty pledged decided x ∪ faulty) := by
    intro w hw hdw
    obtain ⟨U, hsat, hU⟩ := hsupport w x hw hdw
    exact hmono w U _ (hsub U hU) hsat
  refine ⟨⟨v, hv, .inl hd⟩, fun w hw => hw.1, ?_⟩
  rintro w ⟨hw, hdw | ⟨U, hU, hwU⟩⟩
  · exact hdecided w hw hdw
  · rcases (hU w hwU hw).2 with hsat | hdw
    · exact hmono w U _ (hsub U hU) hsat
    · exact hdecided w hw hdw

/-- **Agreement.** Under quorum intersection despite the faulty nodes,
well-behaved nodes that decide with support decide alike. -/
theorem agreement (hmono : ∀ v S T, S ⊆ T → sat v S → sat v T)
    (hinter : QuorumIntersection sat faulty)
    (hpledge : ∀ v x y, v ∉ faulty → pledged v x → pledged v y → x = y)
    (hdecide : ∀ v x, v ∉ faulty → decided v x → pledged v x)
    (hsupport : ∀ v x, v ∉ faulty → decided v x →
      ∃ U, sat v U ∧ Supports sat faulty pledged decided x U)
    {v v' : N} {x x' : X} (hv : v ∉ faulty) (hv' : v' ∉ faulty)
    (hd : decided v x) (hd' : decided v' x') : x = x' := by
  have hbacker : ∀ y w, w ∈ Backers sat faulty pledged decided y → pledged w y := by
    rintro y w ⟨hw, hdw | ⟨U, hU, hwU⟩⟩
    · exact hdecide w y hw hdw
    · exact (hU w hwU hw).1
  obtain ⟨w, hw, hw'⟩ := hinter _ _ (isQuorum_backers hmono hsupport hv hd)
    (isQuorum_backers hmono hsupport hv' hd')
  exact hpledge w x x' hw.1 (hbacker x w hw) (hbacker x' w hw')

end Agreement

end EssaCore.Lib
