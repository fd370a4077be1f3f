import Mathlib

/-!
# Programs that halt with their state

A weakest-precondition calculus for `EStateM ε σ`: programs over an explicit
state whose exceptions *keep* the state they were raised in. It is the right
shape for long-running components in which an exception aborts the current
call but not the memory it has already written.

- `wp x Q E s` — run `x` from `s`: a normal exit meets `Q`, a halt meets `E`;
- `wlp x Q s` — likewise, when only normal exits matter;
- `wp_bind`, `wp_modify`, `wp_throw`, ... — one rule for each program former;
- `Respects P R x` — whatever `x` does from `s`, also when it halts (then within
  `P`), is related to `s` by `R`; for a reflexive and transitive `R` this
  composes along binds, so an invariant of a whole call is checked one update at
  a time.
-/

namespace EssaCore.Lib

universe u

variable {ε σ α β : Type u}

/-! ## Weakest preconditions -/

/-- Running `x` from `s` either returns with `Q` or halts with `E`. -/
def wp (x : EStateM ε σ α) (Q : α → σ → Prop) (E : ε → σ → Prop) (s : σ) :
    Prop :=
  match x s with
  | .ok a s' => Q a s'
  | .error e s' => E e s'

variable {Q Q' : α → σ → Prop} {E E' : ε → σ → Prop} {s : σ}

variable {x : EStateM ε σ α}

/-- The rule of consequence. -/
theorem wp.mono (h : wp x Q E s) (hQ : ∀ a s', Q a s' → Q' a s') (hE : ∀ e s', E e s' → E' e s') :
    wp x Q' E' s := by
  unfold wp at h ⊢
  split at h
  · exact hQ _ _ h
  · exact hE _ _ h

/-- The rule of consequence where the halts stay the same. -/
theorem wp.imp (h : wp x Q E s) (hQ : ∀ a s', Q a s' → Q' a s') : wp x Q' E s :=
  h.mono hQ fun _ _ h => h

/-- Two specifications of one program hold together. -/
theorem wp.and (h : wp x Q E s) (h' : wp x Q' E' s) :
    wp x (fun a s' => Q a s' ∧ Q' a s') (fun e s' => E e s' ∧ E' e s') s := by
  unfold wp at h h' ⊢
  split at h <;> simp_all

/-- What a specification says of a run that returned. -/
theorem wp.of_ok {a : α} {s' : σ} (h : wp x Q E s) (hx : x s = .ok a s') : Q a s' := by
  unfold wp at h
  rw [hx] at h
  exact h

/-- What `x` halts with, if it does. -/
def halt (x : EStateM ε σ α) (s : σ) : Option ε :=
  match x s with
  | .ok _ _ => none
  | .error e _ => some e

theorem error_of_halt {e : ε} (h : halt x s = some e) : ∃ s', x s = .error e s' := by
  unfold halt at h
  split at h
  · cases h
  · rename_i e' s' hrun
    exact ⟨s', by rw [hrun, Option.some.inj h]⟩

/-- Whatever `x` returns from `s` meets `Q`. -/
abbrev wlp (x : EStateM ε σ α) (Q : α → σ → Prop) (s : σ) : Prop := wp x Q (fun _ _ => True) s

theorem wlp_iff : wlp x Q s ↔ ∀ a s', x s = .ok a s' → Q a s' := by
  constructor
  · exact fun h a s' hx => h.of_ok hx
  · intro h
    unfold wlp wp
    split
    · rename_i a s' hx
      exact h a s' hx
    · trivial

/-- A program that never halts returns. -/
theorem wp.returns (h : wp x Q (fun _ _ => False) s) : ∃ a s', x s = .ok a s' ∧ Q a s' := by
  unfold wp at h
  split at h
  · rename_i a s' hx
    exact ⟨a, s', hx, h⟩
  · exact h.elim

@[simp] theorem wp_pure (a : α) : wp (pure a : EStateM ε σ α) Q E s ↔ Q a s := Iff.rfl

@[simp] theorem wp_throw (e : ε) : wp (throw e : EStateM ε σ α) Q E s ↔ E e s := Iff.rfl

@[simp] theorem wp_get {Q : σ → σ → Prop} : wp (get : EStateM ε σ σ) Q E s ↔ Q s s := Iff.rfl

@[simp] theorem wp_modify {σ' : Type} {ε' : Type} {s₀ : σ'}
    {Q : PUnit → σ' → Prop} {E : ε' → σ' → Prop} (f : σ' → σ') :
    wp (modify f : EStateM ε' σ' PUnit) Q E s₀ ↔ Q ⟨⟩ (f s₀) := Iff.rfl

@[simp] theorem wp_bind (x : EStateM ε σ α) (f : α → EStateM ε σ β) {Q : β → σ → Prop} :
    wp (x >>= f) Q E s ↔ wp x (fun a s' => wp (f a) Q E s') E s := by
  have hrun : (x >>= f) s =
      match x s with
      | .ok a s' => f a s'
      | .error e s' => .error e s' := rfl
  unfold wp
  rw [hrun]
  cases x s <;> rfl

@[simp] theorem wp_ite (c : Prop) [Decidable c] (x y : EStateM ε σ α) :
    wp (if c then x else y) Q E s ↔ (c → wp x Q E s) ∧ (¬ c → wp y Q E s) := by
  by_cases h : c <;> simp [h]

variable {f : α → EStateM ε σ β}

/-- The rule of sequence. -/
theorem wp.bind {Q' : β → σ → Prop} (h : wp x Q E s)
    (hf : ∀ a s', Q a s' → wp (f a) Q' E s') : wp (x >>= f) Q' E s :=
  (wp_bind x f).mpr (h.imp hf)

/-! ## Programs that respect a relation -/

/-- `x` moves the state along `R`, whether it returns or halts, and every halt satisfies `P`. -/
def Respects (P : ε → Prop) (R : σ → σ → Prop) (x : EStateM ε σ α) : Prop :=
  ∀ s, wp x (fun _ s' => R s s') (fun e s' => P e ∧ R s s') s

variable {x : EStateM ε σ α}

section Respects

variable {P : ε → Prop} {R : σ → σ → Prop}

theorem Respects.pure [Std.Refl R] (a : α) : Respects P R (pure a : EStateM ε σ α) :=
  fun s => refl s

theorem Respects.throw [Std.Refl R] {e : ε} (h : P e) :
    Respects P R (throw e : EStateM ε σ α) := fun s => ⟨h, refl s⟩

/-- From `s`, running a program that respects `R` lands in `R s'` for every
`s'` below `s`. -/
theorem Respects.after [IsTrans σ R] (hx : Respects P R x) {s₀ : σ}
    (h : R s₀ s) : wp x (fun _ s' => R s₀ s') (fun e s' => P e ∧ R s₀ s') s :=
  (hx s).mono (fun _ _ h' => IsTrans.trans _ _ _ h h')
    (fun _ _ h' => ⟨h'.1, IsTrans.trans _ _ _ h h'.2⟩)

theorem Respects.bind [IsTrans σ R]
    (hx : Respects P R x) (hf : ∀ a, Respects P R (f a)) :
    Respects P R (x >>= f) := by
  intro s
  exact (hx s).bind fun a _ h => (hf a).after h

theorem Respects.ite {c : Prop} [Decidable c] {y : EStateM ε σ α}
    (hx : c → Respects P R x) (hy : ¬ c → Respects P R y) :
    Respects P R (if c then x else y) := by
  by_cases h : c
  · simpa only [if_pos h] using hx h
  · simpa only [if_neg h] using hy h

end Respects

/-! ## Programs that halt only in some ways -/

/-- Every halt of `x` satisfies `P`. -/
def HaltsIn (P : ε → Prop) (x : EStateM ε σ α) : Prop :=
  ∀ s, wp x (fun _ _ => True) (fun e _ => P e) s

section HaltsIn

variable {P : ε → Prop}

/-- What is left to show about a program whose halts are known -/
theorem HaltsIn.wp_iff (h : HaltsIn P x) :
    wp x Q (fun e _ => P e) s ↔ ∀ a s', x s = .ok a s' → Q a s' := by
  have hs := h s
  unfold wp at *
  split at hs
  · rename_i a s' hx
    rw [hx]
    exact ⟨fun hQ _ _ h' => by cases h'; exact hQ, fun hQ => hQ a s' rfl⟩
  · rename_i e s' hx
    rw [hx]
    exact ⟨fun _ _ _ h' => by (cases h'), fun _ => hs⟩

/-- What a program returns, and how it halts -/
theorem HaltsIn.wp_of (h : HaltsIn P x) (hQ : wlp x Q s) :
    wp x Q (fun e _ => P e) s := h.wp_iff.mpr (wlp_iff.mp hQ)

theorem HaltsIn.pure (a : α) : HaltsIn P (pure a : EStateM ε σ α) :=
  fun _ => trivial

theorem HaltsIn.bind (hx : HaltsIn P x) (hf : ∀ a, HaltsIn P (f a)) : HaltsIn P (x >>= f) := by
  intro s
  exact (hx s).bind fun a s' _ => hf a s'

theorem HaltsIn.ite {c : Prop} [Decidable c] {y : EStateM ε σ α}
    (hx : c → HaltsIn P x) (hy : ¬ c → HaltsIn P y) :
    HaltsIn P (if c then x else y) := by
  by_cases h : c
  · simpa only [if_pos h] using hx h
  · simpa only [if_neg h] using hy h

end HaltsIn

end EssaCore.Lib
