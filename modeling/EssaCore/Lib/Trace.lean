import Mathlib

/-!
# Traces

The runs of a labelled transition system with the list of their labels. What a label
says about one step is added up over a run.

- `Trace R s cs s'` — a run from `s` to `s'` with the labels `cs`;
- `Trace.preserves` — what every step keeps is kept by a run;
- `Trace.sum` — a quantity that each step changes by what its label says.
-/

namespace EssaCore.Lib

universe u v

variable {σ : Type u} {ℓ : Type v} {R : σ → ℓ → σ → Prop}

/-- A run from one state to another, with its labels -/
inductive Trace (R : σ → ℓ → σ → Prop) : σ → List ℓ → σ → Prop
  | nil (s : σ) : Trace R s [] s
  | cons {s s' s'' : σ} {c : ℓ} {cs : List ℓ} :
      R s c s' → Trace R s' cs s'' → Trace R s (c :: cs) s''

namespace Trace

variable {s s' s'' : σ} {c : ℓ} {cs cs' : List ℓ}

theorem single (h : R s c s') : Trace R s [c] s' := .cons h (.nil s')

theorem append (h : Trace R s cs s') (h' : Trace R s' cs' s'') : Trace R s (cs ++ cs') s'' := by
  induction h with
  | nil => exact h'
  | cons hstep _ ih => exact .cons hstep (ih h')

/-- A run in two parts -/
theorem split (h : Trace R s (cs ++ cs') s'') : ∃ s', Trace R s cs s' ∧ Trace R s' cs' s'' := by
  induction cs generalizing s with
  | nil => exact ⟨s, .nil s, h⟩
  | cons c cs ih =>
    cases h with
    | cons hstep hrest =>
      obtain ⟨s', hfirst, hsecond⟩ := ih hrest
      exact ⟨s', .cons hstep hfirst, hsecond⟩

/-- A run that takes one more step -/
theorem snoc (h : Trace R s cs s') (h' : R s' c s'') : Trace R s (cs ++ [c]) s'' :=
  h.append (single h')

/-- What the steps with some labels keep is kept by a run with such labels. -/
theorem preserves_of_mem {P : σ → Prop} {C : ℓ → Prop}
    (hstep : ∀ s c s', R s c s' → C c → P s → P s') (h : Trace R s cs s')
    (hcs : ∀ c ∈ cs, C c) (hs : P s) : P s' := by
  induction h with
  | nil => exact hs
  | cons hc _ ih =>
    exact ih (fun c hmem => hcs c (List.mem_cons_of_mem _ hmem))
      (hstep _ _ _ hc (hcs _ List.mem_cons_self) hs)

theorem preserves {P : σ → Prop} (hstep : ∀ s c s', R s c s' → P s → P s')
    (h : Trace R s cs s') (hs : P s) : P s' :=
  preserves_of_mem (fun s c s' hc _ => hstep s c s' hc) h
    (fun _ _ => trivial) hs

/-- A quantity changes by the sum of what the labels say. -/
theorem sum {f : σ → Int} {w : ℓ → Int} (hstep : ∀ s c s', R s c s' → f s' = f s + w c)
    (h : Trace R s cs s') : f s' = f s + (cs.map w).sum := by
  induction h with
  | nil => simp
  | cons hc _ ih =>
    rw [ih, hstep _ _ _ hc, List.map_cons, List.sum_cons, Int.add_assoc]

end Trace

end EssaCore.Lib
