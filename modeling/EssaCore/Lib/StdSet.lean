import Mathlib

/-!
# Ordered sets

`std::set` as the strictly ascending list of its elements, and `std::includes`,
which compares two such lists. `includes_of_subset` is what the ascending order
is for: on sets the algorithm finds every subset.
-/

open List

namespace EssaCore.Lib

universe u

variable {α : Type u} [LT α]

/-- A `std::set` -/
structure StdSet (α : Type u) [LT α] where
  elems : List α
  ascending : elems.Pairwise (· < ·)

section Algorithms

variable [DecidableLT α]

def insertAscending (a : α) : List α → List α
  | [] => [a]
  | b :: l =>
    if a < b then a :: b :: l
    else if b < a then b :: insertAscending a l
    else b :: l

/-- `std::includes(v, p)`: are the elements of `p` among those of `v`? -/
def includes : List α → List α → Bool
  | _, [] => true
  | [], _ :: _ => false
  | a :: v, b :: p =>
    if b < a then false
    else if a < b then includes v (b :: p)
    else includes v p

variable [Std.Trichotomous (α := α) (· < ·)]

theorem mem_insertAscending {a x : α} {l : List α} : x ∈ insertAscending a l ↔ x = a ∨ x ∈ l := by
  induction l with
  | nil => exact mem_cons
  | cons b l ih =>
    unfold insertAscending
    split
    · exact mem_cons
    · rename_i hab
      split
      · rw [mem_cons, ih, mem_cons]
        exact or_left_comm
      · rename_i hba
        rw [Std.Trichotomous.trichotomous a b hab hba]
        simp

variable [IsTrans α (· < ·)]

theorem pairwise_insertAscending {a : α} {l : List α} (h : l.Pairwise (· < ·)) :
    (insertAscending a l).Pairwise (· < ·) := by
  induction l with
  | nil => exact pairwise_singleton _ _
  | cons b l ih =>
    obtain ⟨hb, hl⟩ := pairwise_cons.mp h
    unfold insertAscending
    split
    · rename_i hab
      refine pairwise_cons.mpr ⟨fun x hx => ?_, h⟩
      rcases mem_cons.mp hx with rfl | hx
      · exact hab
      · exact IsTrans.trans _ _ _ hab (hb x hx)
    · split
      · rename_i hba
        refine pairwise_cons.mpr ⟨fun x hx => ?_, ih hl⟩
        rcases mem_insertAscending.mp hx with rfl | hx
        · exact hba
        · exact hb x hx
      · exact h

variable [Std.Irrefl (α := α) (· < ·)]

theorem includes_of_subset {v p : List α} (hv : v.Pairwise (· < ·)) (hp : p.Pairwise (· < ·))
    (h : p ⊆ v) : includes v p = true := by
  induction v generalizing p with
  | nil => rw [subset_nil.mp h, includes]
  | cons a v ih =>
    obtain ⟨ha, hv⟩ := pairwise_cons.mp hv
    cases p with
    | nil => rw [includes]
    | cons b p =>
      obtain ⟨hb, hp'⟩ := pairwise_cons.mp hp
      -- what is above `b` is not `a`
      have hrest : ∀ x, a < x → x ∈ a :: v → x ∈ v := fun x hax hx =>
        (mem_cons.mp hx).resolve_left fun hxa => irrefl a (hxa ▸ hax)
      have hba : ¬ b < a := fun hlt => by
        rcases mem_cons.mp (h mem_cons_self) with rfl | hmem
        · exact irrefl b hlt
        · exact irrefl a (IsTrans.trans _ _ _ (ha b hmem) hlt)
      rw [includes, if_neg hba]
      split
      · rename_i hab
        refine ih hv hp fun x hx => hrest x ?_ (h hx)
        rcases mem_cons.mp hx with rfl | hx
        · exact hab
        · exact IsTrans.trans _ _ _ hab (hb x hx)
      · rename_i hab
        obtain rfl := Std.Trichotomous.trichotomous a b hab hba
        exact ih hv hp' fun x hx => hrest x (hb x hx) (h (mem_cons_of_mem _ hx))

end Algorithms

namespace StdSet

instance : Membership α (StdSet α) := ⟨fun s a => a ∈ s.elems⟩

instance : HasSubset (StdSet α) := ⟨fun s t => s.elems ⊆ t.elems⟩

instance : EmptyCollection (StdSet α) := ⟨⟨[], List.Pairwise.nil⟩⟩

instance [DecidableEq α] (a : α) (s : StdSet α) : Decidable (a ∈ s) :=
  inferInstanceAs (Decidable (a ∈ s.elems))

def card (s : StdSet α) : Nat := s.elems.length

variable {s t : StdSet α} {a : α}

theorem subset_refl (s : StdSet α) : s ⊆ s := Subset.refl s.elems

theorem subset_trans {r : StdSet α} (h : s ⊆ t) (h' : t ⊆ r) : s ⊆ r := Subset.trans h h'

variable [Std.Irrefl (α := α) (· < ·)]

theorem nodup (s : StdSet α) : s.elems.Nodup := by
  refine Pairwise.imp (fun {x y} hlt => ?_) s.ascending
  rintro rfl
  exact irrefl x hlt

theorem card_le_of_subset (h : s ⊆ t) : s.card ≤ t.card :=
  (s.nodup.subperm h).length_le

variable [DecidableLT α] [Std.Trichotomous (α := α) (· < ·)] [IsTrans α (· < ·)]

/-- `insert` -/
def insert (s : StdSet α) (a : α) : StdSet α :=
  ⟨insertAscending a s.elems, pairwise_insertAscending s.ascending⟩

omit [Std.Irrefl (α := α) (· < ·)] in
theorem mem_insert {x : α} : x ∈ s.insert a ↔ x = a ∨ x ∈ s := mem_insertAscending

omit [Std.Irrefl (α := α) (· < ·)] in
theorem subset_insert (s : StdSet α) (a : α) : s ⊆ s.insert a :=
  fun _ hx => mem_insert.mpr (.inr hx)

omit [Std.Irrefl (α := α) (· < ·)] in
theorem insert_subset (ha : a ∈ t) (h : s ⊆ t) : s.insert a ⊆ t := fun x hx => by
  rcases mem_insert.mp hx with rfl | hx
  · exact ha
  · exact h hx

theorem card_lt_insert (h : a ∉ s) : s.card < (s.insert a).card := by
  have hnodup : (a :: s.elems).Nodup := nodup_cons.mpr ⟨h, s.nodup⟩
  have hsub : a :: s.elems ⊆ (s.insert a).elems :=
    cons_subset.mpr ⟨mem_insert.mpr (.inl rfl), subset_insert s a⟩
  exact (hnodup.subperm hsub).length_le

end StdSet

end EssaCore.Lib
