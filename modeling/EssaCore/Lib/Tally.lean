import Mathlib

/-!
# Tallies over finite maps

A tally adds up a weight over all values of a finite map: a number of entries, a
sum of balances, or any balance sheet of such sums with signs. Two writes are all a
map has, so the effect of a program on a tally is the sum of what its writes add and
take away.

- `weightAt w m k` — what the key `k` contributes;
- `tally w m` — the sum of the weights;
- `tally_insert`, `tally_erase` — the effect of one write;
- `weightAt_le_tally` — one weight and the sum.
-/

open List AList

namespace EssaCore.Lib

universe u v

variable {K : Type u} {V : Type v}

/-- The sum of `w` over the values of a map. -/
def tally (w : V → Int) (m : AList fun _ : K => V) : Int :=
  (m.entries.map fun e => w e.2).sum

variable [DecidableEq K]

/-- The weight of the value at a key, if there is one. -/
def weightAt (w : V → Int) (m : AList fun _ : K => V) (k : K) : Int :=
  ((m.lookup k).map w).getD 0

variable {w w' : V → Int} {m : AList fun _ : K => V} {k : K} {v : V}

theorem weightAt_of_some (h : m.lookup k = some v) : weightAt w m k = w v := by
  rw [weightAt, h]
  rfl

theorem weightAt_of_none (h : m.lookup k = none) : weightAt w m k = 0 := by
  rw [weightAt, h]
  rfl

private theorem sum_kerase (w : V → Int) (k : K) (l : List (Sigma fun _ : K => V)) :
    ((l.kerase k).map fun e => w e.2).sum + ((l.dlookup k).map w).getD 0 =
      (l.map fun e => w e.2).sum := by
  induction l with
  | nil => rfl
  | cons e l ih =>
    by_cases hk : k = e.1
    · subst hk
      rw [dlookup_cons_eq]
      simp [Int.add_comm]
    · rw [kerase_cons_ne hk, dlookup_cons_ne _ _ hk]
      simp only [map_cons, sum_cons]
      omega

theorem tally_erase (w : V → Int) (m : AList fun _ : K => V) (k : K) :
    tally w (m.erase k) = tally w m - weightAt w m k := by
  have hsum : tally w (m.erase k) + weightAt w m k = tally w m := sum_kerase w k m.entries
  omega

theorem tally_insert (w : V → Int) (m : AList fun _ : K => V) (k : K) (v : V) :
    tally w (m.insert k v) = tally w m - weightAt w m k + w v := by
  have := tally_erase w m k
  have hcons : tally w (m.insert k v) = w v + tally w (m.erase k) := by
    simp [tally, erase]
  omega

omit [DecidableEq K] in
/-- Weights that agree on all values have the same tally. -/
theorem tally_congr (h : ∀ e ∈ m.entries, w e.2 = w' e.2) : tally w m = tally w' m :=
  congrArg List.sum (List.map_congr_left h)

omit [DecidableEq K] in
/-- The tally of a difference -/
theorem tally_sub (w w' : V → Int) (m : AList fun _ : K => V) :
    tally (fun v => w v - w' v) m = tally w m - tally w' m := by
  unfold tally
  induction m.entries with
  | nil => rfl
  | cons e es ih =>
    simp only [List.map_cons, List.sum_cons, ih]
    omega

omit [DecidableEq K] in
theorem tally_nonneg (h : ∀ v, 0 ≤ w v) : 0 ≤ tally w m := by
  refine List.sum_nonneg fun x hx => ?_
  obtain ⟨e, -, rfl⟩ := List.mem_map.mp hx
  exact h e.2

/-- Only one key weighs something. -/
theorem tally_eq_weightAt (h : ∀ k' v, m.lookup k' = some v → k' ≠ k → w v = 0) :
    tally w m = weightAt w m k := by
  have hzero : tally w (m.erase k) = 0 := by
    refine sum_eq_zero fun x hx => ?_
    obtain ⟨⟨k', v⟩, hmem, rfl⟩ := mem_map.mp hx
    have hlookup : (m.erase k).lookup k' = some v := mem_lookup_iff.mpr hmem
    by_cases hk : k' = k
    · rw [hk, lookup_erase] at hlookup
      cases hlookup
    · rw [lookup_erase_ne hk] at hlookup
      exact h k' v hlookup hk
  have := tally_erase w m k
  omega

/-- One value weighs no more than all of them. -/
theorem weightAt_le_tally (h : ∀ v, 0 ≤ w v) : weightAt w m k ≤ tally w m := by
  have herase := tally_erase w m k
  have hrest : 0 ≤ tally w (m.erase k) := tally_nonneg h
  omega

end EssaCore.Lib
