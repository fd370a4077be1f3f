import Mathlib

/-!
# Programs that may fail

How to read an equation `x = .ok a` about a program in `Except`, and which errors a
program has: one rule for each program former.
-/

namespace EssaCore.Lib

universe u v

variable {ε : Type u} {α β : Type v}

/-- A sequence whose first part has succeeded. -/
theorem ok_bind (a : α) (f : α → Except ε β) : (Except.ok a >>= f) = f a := rfl

variable {x : Except ε α}

/-- A sequence succeeds if both parts do. -/
theorem bind_eq_ok {f : α → Except ε β} {b : β} :
    (x >>= f) = .ok b ↔ ∃ a, x = .ok a ∧ f a = .ok b := by
  cases x with
  | error e =>
    constructor
    · intro h
      cases h
    · rintro ⟨a, h, -⟩
      cases h
  | ok a =>
    constructor
    · exact fun h => ⟨a, rfl, h⟩
    · rintro ⟨_, h, hf⟩
      cases h
      exact hf

/-- A branch that throws is not taken by a program that succeeds. -/
theorem ite_throw_eq_ok {c : Prop} [Decidable c] {e : ε}
    {a : α} : (if c then throw e else x) = .ok a ↔ ¬ c ∧ x = .ok a := by
  by_cases h : c
  · rw [if_pos h]
    constructor
    · intro hx
      cases hx
    · exact fun hx => absurd h hx.1
  · rw [if_neg h]
    exact ⟨fun hx => ⟨h, hx⟩, fun hx => hx.2⟩

/-! ## Results and errors -/

/-- `x` returns something in `P`, or fails with an error in `E`. -/
def Settles (E : ε → Prop) (P : α → Prop) : Except ε α → Prop
  | .ok a => P a
  | .error e => E e

section Settles

variable {E : ε → Prop} {P : α → Prop}

@[simp] theorem settles_ok (a : α) : Settles E P (.ok a) ↔ P a := Iff.rfl

@[simp] theorem settles_error (e : ε) : Settles E P (.error e : Except ε α) ↔ E e := Iff.rfl

@[simp] theorem settles_pure (a : α) : Settles E P (pure a) ↔ P a := Iff.rfl

@[simp] theorem settles_throw (e : ε) : Settles E P (throw e : Except ε α) ↔ E e := Iff.rfl

theorem settles_bind {f : α → Except ε β} {Q : β → Prop} :
    Settles E Q (x >>= f) ↔ Settles E (fun a => Settles E Q (f a)) x := by
  cases x <;> rfl

theorem settles_ite {c : Prop} [Decidable c] {y : Except ε α} :
    Settles E P (if c then x else y) ↔ (c → Settles E P x) ∧ (¬ c → Settles E P y) := by
  by_cases h : c <;> simp [h]

end Settles

/-! ## Errors -/

/-- Every error of `x` satisfies `P`. -/
def FailsIn (P : ε → Prop) (x : Except ε α) : Prop := ∀ e, x = .error e → P e

section FailsIn

variable {P : ε → Prop}

@[simp] theorem failsIn_pure (a : α) : FailsIn P (pure a : Except ε α) := fun _ h => by cases h

@[simp] theorem failsIn_throw {e : ε} : FailsIn P (throw e : Except ε α) ↔ P e :=
  ⟨fun h => h e rfl, fun h _ h' => by cases h'; exact h⟩

theorem failsIn_bind {f : α → Except ε β} :
    FailsIn P (x >>= f) ↔ FailsIn P x ∧ ∀ a, x = .ok a → FailsIn P (f a) := by
  cases x with
  | error e =>
    constructor
    · intro h
      refine ⟨fun e' h' => h e' ?_, nofun⟩
      cases h'
      rfl
    · rintro ⟨h, -⟩ e' h'
      cases h'
      exact h e rfl
  | ok a =>
    constructor
    · intro h
      refine ⟨nofun, fun a' h' => ?_⟩
      cases h'
      exact h
    · exact fun h => h.2 a rfl

theorem failsIn_ite {c : Prop} [Decidable c] {y : Except ε α} :
    FailsIn P (if c then x else y) ↔ (c → FailsIn P x) ∧ (¬ c → FailsIn P y) := by
  by_cases h : c <;> simp [h]

end FailsIn

end EssaCore.Lib
