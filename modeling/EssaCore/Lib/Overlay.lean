import Mathlib

/-!
# Overlays

An overlay records what has changed over a map it does not own: a key is
untouched, written, or deleted (a *tombstone*). Stacked overlays are the usual
representation of nested transactions. This file relates overlays to the full
maps they stand for.

- `Overlay K V` — a finite map from keys to `Option V`, `none` a tombstone;
- `Overlay.view o m` — the full map that `o` over `m` stands for;
- `Overlay.put` — record a change; a deletion of a key the map below does not
  have leaves no trace (`view_put`);
- `Overlay.viewAll` — the map a stack of overlays stands for;
- `replay_eq_view` — replaying the changes of an overlay one by one, in any
  order, gives its view;
- `Overlay.All P o` — `P` holds of every change that `o` records.
-/

open List Function AList

namespace EssaCore.Lib

universe u v

/-- What has changed: `some v` is a write, `none` a deletion. -/
abbrev Overlay (K : Type u) (V : Type v) := AList (fun _ : K => Option V)

namespace Overlay

variable {K : Type u} {V : Type v} [DecidableEq K]

/-- The full map that an overlay over `m` stands for. -/
def view (o : Overlay K V) (m : K → Option V) : K → Option V :=
  fun k => (o.lookup k).getD (m k)

theorem view_insert (o : Overlay K V) (m : K → Option V) (k : K) (v : Option V) :
    view (o.insert k v) m = Function.update (view o m) k v := by
  funext j
  unfold view
  by_cases hj : j = k
  · subst hj
    rw [lookup_insert, update_self]
    rfl
  · rw [lookup_insert_ne hj, update_of_ne hj]

/-- Forgetting a key that the map below does not have deletes it. -/
theorem view_erase {o : Overlay K V} {m : K → Option V} {k : K} (h : m k = none) :
    view (o.erase k) m = Function.update (view o m) k none := by
  funext j
  unfold view
  by_cases hj : j = k
  · subst hj
    rw [lookup_erase, update_self]
    exact h
  · rw [lookup_erase_ne hj, update_of_ne hj]

/-- Record a change over `m`; a deletion needs a tombstone only where `m` has
the key. -/
def put (m : K → Option V) (o : Overlay K V) (k : K) (v : Option V) :
    Overlay K V :=
  if v = none ∧ m k = none then o.erase k else o.insert k v

theorem view_put (m : K → Option V) (o : Overlay K V) (k : K) (v : Option V) :
    view (put m o k v) m = Function.update (view o m) k v := by
  unfold put
  split
  · rename_i h
    rw [view_erase h.2, h.1]
  · exact view_insert o m k v

/-! ## Replaying an overlay -/

/-- Apply a list of changes to a full map. -/
def replay (m : K → Option V) (l : List (Σ _ : K, Option V)) :
    K → Option V :=
  l.foldl (fun g p => Function.update g p.1 p.2) m

variable {l : List (Σ _ : K, Option V)}

/-- A list that changes each key at most once acts as its lookup table. -/
theorem replay_apply (hl : l.NodupKeys) (m : K → Option V) (k : K) :
    replay m l k = (l.dlookup k).getD (m k) := by
  induction l generalizing m with
  | nil => rfl
  | cons p l ih =>
    obtain ⟨j, v⟩ := p
    obtain ⟨hj, hl⟩ := nodupKeys_cons.mp hl
    show replay (update m j v) l k = _
    rw [ih hl]
    by_cases hk : k = j
    · subst hk
      rw [dlookup_eq_none.mpr hj, dlookup_cons_eq, update_self]
      rfl
    · rw [dlookup_cons_ne _ _ (by exact hk), update_of_ne hk]

/-- Replaying an overlay in any order gives its view. -/
theorem replay_eq_view {o : Overlay K V}
    (h : l.Perm o.entries) (m : K → Option V) : replay m l = view o m := by
  funext k
  have hl : l.NodupKeys := (perm_nodupKeys h).mpr o.nodupKeys
  rw [replay_apply hl, perm_dlookup k hl h]
  rfl

/-! ## Replaying on a table -/

/-- Apply one change to a finite table. -/
def change (t : AList (fun _ : K => V)) (p : Σ _ : K, Option V) :
    AList (fun _ : K => V) :=
  match p.2 with
  | some v => t.insert p.1 v
  | none => t.erase p.1

theorem lookup_change (t : AList (fun _ : K => V)) (p : Σ _ : K, Option V) :
    (fun k => (change t p).lookup k) = Function.update (fun k => t.lookup k) p.1 p.2 := by
  obtain ⟨j, v⟩ := p
  funext k
  by_cases hk : k = j
  · subst hk
    rw [update_self]
    cases v with
    | none => exact lookup_erase _ _
    | some v => exact lookup_insert _
  · rw [update_of_ne hk]
    cases v with
    | none => exact lookup_erase_ne hk
    | some v => exact lookup_insert_ne hk

/-- A list of changes acts on a table as on its lookup function. -/
theorem lookup_foldl_change (t : AList (fun _ : K => V)) (l : List (Σ _ : K, Option V)) :
    (fun k => (l.foldl change t).lookup k) = replay (fun k => t.lookup k) l := by
  induction l generalizing t with
  | nil => rfl
  | cons p l ih =>
    show (fun k => (l.foldl change (change t p)).lookup k) = _
    rw [ih, lookup_change]
    rfl

/-! ## Changing the values -/

/-- Change every written value; tombstones stay. -/
def mapValues (f : V → V) (o : Overlay K V) : Overlay K V where
  entries := o.entries.map fun p => ⟨p.1, p.2.map f⟩
  nodupKeys := by
    have hkeys : (o.entries.map fun p : (Σ _ : K, Option V) =>
        (⟨p.1, p.2.map f⟩ : Σ _ : K, Option V)).keys = o.entries.keys := by
      simp only [List.keys, List.map_map]
      rfl
    unfold List.NodupKeys
    rw [hkeys]
    exact o.nodupKeys

theorem dlookup_map (f : V → V) (l : List (Σ _ : K, Option V)) (k : K) :
    (l.map fun p => (⟨p.1, p.2.map f⟩ : Σ _ : K, Option V)).dlookup k =
      (l.dlookup k).map (Option.map f) := by
  induction l with
  | nil => rfl
  | cons p l ih =>
    obtain ⟨j, v⟩ := p
    rw [map_cons]
    by_cases hk : k = j
    · subst hk
      rw [dlookup_cons_eq, dlookup_cons_eq]
      rfl
    · rw [dlookup_cons_ne _ _ (by exact hk),
        dlookup_cons_ne _ _ (by exact hk), ih]

@[simp] theorem lookup_mapValues (f : V → V) (o : Overlay K V) (k : K) :
    (mapValues f o).lookup k = (o.lookup k).map (Option.map f) :=
  dlookup_map f o.entries k

/-- A change of values that `g` does not see is not seen in the view. -/
theorem view_mapValues {W : Type*} {f : V → V} {g : V → W}
    (hg : ∀ v, g (f v) = g v) (o : Overlay K V) (m : K → Option V) (k : K) :
    (view (mapValues f o) m k).map g = (view o m k).map g := by
  unfold view
  rw [lookup_mapValues]
  cases o.lookup k with
  | none => rfl
  | some v =>
    cases v with
    | none => rfl
    | some v => exact congrArg some (hg v)

/-! ## Facts about every change -/

/-- `P` holds of every change that is recorded. -/
def All (P : K → Option V → Prop) (o : Overlay K V) : Prop :=
  ∀ k v, o.lookup k = some v → P k v

section All

variable {P P' : K → Option V → Prop} {o : Overlay K V}

theorem all_empty : All P (∅ : Overlay K V) := fun _ _ h => by cases h

theorem All.mono (h : All P o) (hP : ∀ k v, P k v → P' k v) : All P' o :=
  fun k v hv => hP k v (h k v hv)

theorem All.insert (h : All P o) {k : K} {v : Option V} (hv : P k v) : All P (o.insert k v) := by
  intro j w hw
  by_cases hj : j = k
  · subst hj
    rw [lookup_insert] at hw
    cases hw
    exact hv
  · rw [lookup_insert_ne hj] at hw
    exact h j w hw

theorem All.erase (h : All P o) (k : K) : All P (o.erase k) := by
  intro j w hw
  by_cases hj : j = k
  · subst hj
    rw [lookup_erase] at hw
    cases hw
  · rw [lookup_erase_ne hj] at hw
    exact h j w hw

theorem All.mapValues (h : All P o) {f : V → V}
    (hf : ∀ k v, P k v → P k (v.map f)) : All P (mapValues f o) := by
  intro k w hw
  rw [lookup_mapValues] at hw
  obtain ⟨v, hv, rfl⟩ := Option.map_eq_some_iff.mp hw
  exact hf k v (h k v hv)

/-- What is said of every change is said of every element of a list of them. -/
theorem All.of_perm (h : All P o)
    (hl : l.Perm o.entries) : ∀ c ∈ l, P c.1 c.2 := by
  intro c hc
  exact h c.1 c.2 (mem_lookup_iff.mpr (hl.mem_iff.mp hc))

end All

/-! ## Stacks of overlays -/

/-- The map that a stack of overlays, innermost first, stands for. -/
def viewAll (os : List (Overlay K V)) (m : K → Option V) : K → Option V :=
  os.foldr view m

@[simp] theorem viewAll_nil (m : K → Option V) : viewAll [] m = m := rfl

@[simp] theorem viewAll_cons (o : Overlay K V) (os : List (Overlay K V))
    (m : K → Option V) : viewAll (o :: os) m = view o (viewAll os m) := rfl

end Overlay

end EssaCore.Lib
