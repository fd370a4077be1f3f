import Mathlib

/-!
# Sorting by a comparison

`std::sort` takes a strict weak order, and leaves the order of tied elements open. What is said of
it here holds of every implementation.

- `StrictWeak`, `Tied` — what a comparison has to be;
- `StdSort` — an implementation of `std::sort`;
- `StdSort.sort_unique` — without ties, implementations and orders of the input do not matter.
-/

namespace EssaCore.Lib

variable {α : Type}

/-- Neither element comes before the other. -/
def Tied (lt : α → α → Bool) (a b : α) : Prop := lt a b = false ∧ lt b a = false

/-- A strict weak order, as sorting needs it -/
structure StrictWeak (lt : α → α → Bool) : Prop where
  irrefl : ∀ a, lt a a = false
  trans : ∀ a b c, lt a b = true → lt b c = true → lt a c = true
  tied_trans : ∀ a b c, Tied lt a b → Tied lt b c → Tied lt a c

section Key

variable {κ : Type} [LinearOrder κ] {lt : α → α → Bool} {key : α → κ}

theorem tied_iff (h : ∀ a b, lt a b = true ↔ key a < key b) {a b : α} :
    Tied lt a b ↔ key a = key b := by
  rw [Tied, ← Bool.not_eq_true, ← Bool.not_eq_true, h, h, not_lt, not_lt]
  exact ⟨fun hle => le_antisymm hle.2 hle.1, fun heq => ⟨heq.ge, heq.le⟩⟩

/-- Comparing by a key is a strict weak order. -/
theorem strictWeak_of_key (h : ∀ a b, lt a b = true ↔ key a < key b) : StrictWeak lt where
  irrefl a := by
    rw [← Bool.not_eq_true, h]
    exact lt_irrefl _
  trans a b c hab hbc := (h a c).mpr (((h a b).mp hab).trans ((h b c).mp hbc))
  tied_trans a b c hab hbc := by
    rw [tied_iff h] at hab hbc ⊢
    exact hab.trans hbc

end Key

/-- An implementation of `std::sort` -/
structure StdSort where
  sort : {α : Type} → (α → α → Bool) → List α → List α
  perm : ∀ {α : Type} {lt : α → α → Bool} (l : List α), StrictWeak lt → (sort lt l).Perm l
  sorted : ∀ {α : Type} {lt : α → α → Bool} (l : List α), StrictWeak lt →
    (sort lt l).Pairwise fun a b => lt b a = false

namespace StdSort

/-- An implementation that keeps tied elements in order -/
def stable : StdSort where
  sort lt l := l.mergeSort fun a b => !lt b a
  perm l _ := List.mergeSort_perm l _
  sorted {α lt} l h := by
    refine (List.pairwise_mergeSort (fun a b c hab hbc => ?_) (fun a b => ?_) l).imp
      fun hab => (Bool.not_eq_true' _).mp hab
    · rw [Bool.not_eq_true'] at hab hbc ⊢
      cases hca : lt c a with
      | false => rfl
      | true =>
        -- an element before `a` that is not before `b` would be tied with `b`, and so would `a`
        cases hcb : lt b c with
        | true => rw [h.trans b c a hcb hca] at hab; cases hab
        | false =>
          cases hab' : lt a b with
          | true => rw [h.trans c a b hca hab'] at hbc; cases hbc
          | false => rw [(h.tied_trans a b c ⟨hab', hab⟩ ⟨hcb, hbc⟩).2] at hca; cases hca
    · cases hab : lt b a with
      | false => rfl
      | true =>
        cases hba : lt a b with
        | false => rfl
        | true => exact absurd (h.trans a b a hba hab) (by rw [h.irrefl]; nofun)

/-- If no two elements are tied, there is only one way to sort them. -/
theorem sort_unique {lt : α → α → Bool} {l l' s s' : List α} (hperm : l.Perm l')
    (hties : l.Pairwise fun a b => ¬ Tied lt a b) (hs : s.Perm l)
    (hsorted : s.Pairwise fun a b => lt b a = false) (hs' : s'.Perm l')
    (hsorted' : s'.Pairwise fun a b => lt b a = false) : s = s' := by
  refine List.Perm.eq_of_pairwise (fun a b ha hb hab hba => ?_) hsorted hsorted'
    (hs.trans (hperm.trans hs'.symm))
  by_contra hne
  have ha' := hs.mem_iff.mp ha
  have hb' := hperm.mem_iff.mpr (hs'.mem_iff.mp hb)
  have : Std.Symm fun a b => ¬ Tied lt a b := ⟨fun _ _ h htied => h ⟨htied.2, htied.1⟩⟩
  exact hties.forall ha' hb' hne ⟨hba, hab⟩

end StdSort

end EssaCore.Lib
