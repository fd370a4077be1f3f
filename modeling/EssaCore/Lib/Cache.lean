import Mathlib

/-!
# Read-through caches

A cache in front of a map may forget entries at any time and reorder them on
every access; what it must not do is answer a value it was never given. The
structure `CacheModel` states exactly that, so a proof about a cached store
holds for every eviction policy.

- `CacheModel` — the operations of a cache and the three laws above;
- `CacheModel.All P c` — every answer of the cache satisfies `P`; kept by hits,
  by puts of values that satisfy `P`, and by clearing;
- `CacheModel.lru` — the least-recently-used policy is a `CacheModel`.
-/

open List

namespace EssaCore.Lib

universe u v

/-- A cache of `K → V` whose eviction policy is unspecified. -/
structure CacheModel (K : Type u) (V : Type v) where
  /-- the contents, with whatever order the policy keeps -/
  Store : Type (max u v)
  find? : Store → K → Option V
  /-- what a hit on a key does to the store -/
  touch : Store → K → Store
  put : Store → K → V → Store
  clear : Store → Store
  find_touch : ∀ c k k' w, find? (touch c k) k' = some w → find? c k' = some w
  find_put : ∀ c k v k' w, find? (put c k v) k' = some w →
    k' = k ∧ w = v ∨ find? c k' = some w
  find_clear : ∀ c k, find? (clear c) k = none

namespace CacheModel

variable {K : Type u} {V : Type v} (M : CacheModel K V)

/-- Everything the cache would answer satisfies `P`. -/
def All (P : K → V → Prop) (c : M.Store) : Prop :=
  ∀ k v, M.find? c k = some v → P k v

variable {M} {c : M.Store} {P : K → V → Prop}

theorem All.touch (h : M.All P c) (k : K) : M.All P (M.touch c k) :=
  fun k' v hv => h k' v (M.find_touch c k k' v hv)

theorem All.put (h : M.All P c) {k : K} {v : V} (hkv : P k v) : M.All P (M.put c k v) := by
  intro k' w hw
  rcases M.find_put c k v k' w hw with ⟨rfl, rfl⟩ | hold
  · exact hkv
  · exact h k' w hold

theorem all_clear (c : M.Store) : M.All P (M.clear c) := by
  intro k v hv
  rw [M.find_clear] at hv
  cases hv

/-! ## Least recently used -/

section Lru

variable [DecidableEq K]

/-- Bring the pair of `k`, if there is one, to the front. -/
def lruTouch (c : List (K × V)) (k : K) : List (K × V) :=
  match c.lookup k with
  | some v => (k, v) :: c.filter (fun p => p.1 ≠ k)
  | none => c

/-- Put a pair in front and forget what exceeds the capacity. -/
def lruPut (capacity : Nat) (c : List (K × V)) (k : K) (v : V) :
    List (K × V) :=
  ((k, v) :: c.filter (fun p => p.1 ≠ k)).take capacity

/-- Dropping the pairs of `k` changes no other key's answer. -/
theorem lookup_filter_of_ne (c : List (K × V)) {k k' : K} (hk : k' ≠ k) :
    (c.filter (fun p => p.1 ≠ k)).lookup k' = c.lookup k' := by
  induction c with
  | nil => rfl
  | cons p c ih =>
    obtain ⟨j, v⟩ := p
    by_cases hj : j = k
    · subst hj
      rw [filter_cons_of_neg (by simp), ih, lookup_cons, beq_false_of_ne hk]
    · rw [filter_cons_of_pos (by simpa using hj), lookup_cons, lookup_cons, ih]

/-- A shorter list answers no more than the whole one. -/
theorem lookup_of_lookup_take {c : List (K × V)} {n : Nat} {k : K} {w : V}
    (h : (c.take n).lookup k = some w) : c.lookup k = some w := by
  induction c generalizing n with
  | nil => rwa [take_nil] at h
  | cons p c ih =>
    obtain ⟨j, v⟩ := p
    cases n with
    | zero => cases h
    | succ n =>
      rw [take_succ_cons, lookup_cons] at h
      rw [lookup_cons]
      cases hj : k == j
      · rw [hj] at h
        exact ih h
      · rwa [hj] at h

/-- The least-recently-used cache of a given capacity. -/
def lru (K : Type u) (V : Type v) [DecidableEq K] (capacity : Nat) :
    CacheModel K V where
  Store := List (K × V)
  find? c k := c.lookup k
  touch c k := lruTouch c k
  put c k v := lruPut capacity c k v
  clear _ := []
  find_touch c k k' w h := by
    unfold lruTouch at h
    split at h
    · rename_i v hv
      by_cases hk : k' = k
      · subst hk
        rw [List.lookup_cons, BEq.rfl] at h
        rw [hv]
        exact h
      · rw [List.lookup_cons, beq_false_of_ne hk] at h
        rwa [lookup_filter_of_ne c hk] at h
    · exact h
  find_put c k v k' w h := by
    have h' := lookup_of_lookup_take h
    by_cases hk : k' = k
    · subst hk
      rw [List.lookup_cons, BEq.rfl] at h'
      exact .inl ⟨rfl, (Option.some.inj h').symm⟩
    · rw [List.lookup_cons, beq_false_of_ne hk] at h'
      rw [lookup_filter_of_ne c hk] at h'
      exact .inr h'
  find_clear _ _ := rfl

end Lru

end CacheModel

end EssaCore.Lib
