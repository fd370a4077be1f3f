import Mathlib

/-!
# Best elements

The best element of a set under a strict order that is total on the set's
domain only. A query for a best element is usually answered from pieces: a
sorted list, a scan, the better of two partial answers. This file says when
such pieces fit together.

- `StrictOrderOn lt D` — `lt` is a strict total order on `D`;
- `IsBest lt P r` — `r` is the best element with property `P`, if there is any;
- `IsBest.scan` — one more element of a scan;
- `IsBest.union` — the better of the answers for two sets;
- `isBest_find?` — the first hit in a sorted list.
-/

open List

namespace EssaCore.Lib

universe u

variable {α : Type u}

/-- `lt` is a strict total order on the elements of `D`. -/
structure StrictOrderOn (lt : α → α → Bool) (D : α → Prop) : Prop where
  irrefl : ∀ a, D a → lt a a = false
  trans : ∀ a b c, D a → D b → D c → lt a b → lt b c → lt a c
  total : ∀ a b, D a → D b → a = b ∨ lt a b ∨ lt b a

/-- `r` is the best element that satisfies `P`, or `none` if nothing does. -/
def IsBest (lt : α → α → Bool) (P : α → Prop) : Option α → Prop
  | none => ∀ a, ¬ P a
  | some a => P a ∧ ∀ b, P b → b = a ∨ lt a b

/-- The better of two answers. -/
def better (lt : α → α → Bool) : Option α → Option α → Option α
  | some a, some b => if lt a b then some a else some b
  | some a, none => some a
  | none, r => r

section IsBest

variable {lt : α → α → Bool} {D P P' : α → Prop} {r : Option α}

theorem IsBest.congr (h : IsBest lt P r)
    (hP : ∀ a, P' a ↔ P a) : IsBest lt P' r := by
  cases r with
  | none => exact fun a ha => h a ((hP a).mp ha)
  | some a => exact ⟨(hP a).mpr h.1, fun b hb => h.2 b ((hP b).mp hb)⟩

/-- The better of the answers for two sets is the answer for their union. -/
theorem IsBest.union (ho : StrictOrderOn lt D) (hP : ∀ a, P a → D a)
    (hP' : ∀ a, P' a → D a) {r' : Option α} (h : IsBest lt P r)
    (h' : IsBest lt P' r') :
    IsBest lt (fun a => P a ∨ P' a) (better lt r r') := by
  cases r with
  | none =>
    exact h'.congr fun a => ⟨fun ha => ha.resolve_left (h a), .inr⟩
  | some a =>
    cases r' with
    | none =>
      exact h.congr fun b => ⟨fun hb => hb.resolve_right (h' b), .inl⟩
    | some b =>
      obtain ⟨ha, hbest⟩ := h
      obtain ⟨hb, hbest'⟩ := h'
      show IsBest lt _ (if lt a b then some a else some b)
      by_cases hab : lt a b
      · rw [if_pos hab]
        refine ⟨.inl ha, ?_⟩
        rintro c (hc | hc)
        · exact hbest c hc
        · rcases hbest' c hc with rfl | hbc
          · exact .inr hab
          · exact .inr (ho.trans a b c (hP a ha) (hP' b hb) (hP' c hc) hab hbc)
      · rw [if_neg hab]
        refine ⟨.inr hb, ?_⟩
        rintro c (hc | hc)
        · -- `a` is not better than `b`, so `b` is at least as good
          have hba : b = a ∨ lt b a := by
            rcases ho.total a b (hP a ha) (hP' b hb) with rfl | hlt | hlt
            · exact .inl rfl
            · exact absurd hlt hab
            · exact .inr hlt
          rcases hbest c hc with rfl | hac
          · exact hba.imp Eq.symm id
          · rcases hba with rfl | hba
            · exact .inr hac
            · exact .inr (ho.trans b a c (hP' b hb) (hP a ha) (hP c hc) hba hac)
        · exact hbest' c hc

/-- A scan that keeps a new element exactly if it is better. -/
theorem IsBest.scan (ho : StrictOrderOn lt D) (hP : ∀ a, P a → D a)
    (h : IsBest lt P r) {a : α} (ha : D a) :
    IsBest lt (fun b => P b ∨ b = a) (if r.all fun b => lt a b then some a else r) := by
  have hone : IsBest lt (fun b => b = a) (some a) :=
    ⟨rfl, fun b hb => .inl hb⟩
  have hunion : IsBest lt (fun b => b = a ∨ P b) (better lt (some a) r) :=
    IsBest.union ho (fun b hb => by rw [hb]; exact ha) hP hone h
  have hswap : IsBest lt (fun b => P b ∨ b = a) (better lt (some a) r) :=
    hunion.congr fun b => or_comm
  cases r with
  | none => exact hswap
  | some b => exact hswap

end IsBest

/-! ## Sorted lists -/

section Sorted

variable {lt : α → α → Bool} {D : α → Prop}

/-- Sorting by `lt` orders the elements of `D`. -/
theorem pairwise_mergeSort_of (ho : StrictOrderOn lt D) {l : List α} (hl : ∀ a ∈ l, D a) :
    (l.mergeSort fun a b => !lt b a).Pairwise fun a b => lt b a = false := by
  let le : {a // D a} → {a // D a} → Bool := fun a b => !lt b.1 a.1
  have hmap : ((l.attachWith D hl).mergeSort le).map Subtype.val =
      l.mergeSort fun a b => !lt b a := by
    rw [map_mergeSort (s := fun a b => !lt b a) fun _ _ _ _ => rfl,
      attachWith_map_subtype_val]
  have hsorted : ((l.attachWith D hl).mergeSort le).Pairwise fun a b => le a b := by
    refine pairwise_mergeSort ?_ ?_ _
    · rintro ⟨a, ha⟩ ⟨b, hb⟩ ⟨c, hc⟩ hab hbc
      simp only [le] at hab hbc ⊢
      by_contra hca
      have hca : lt c a = true := by simpa using hca
      rcases ho.total a b ha hb with rfl | hlt | hlt
      · rw [hca] at hbc; cases hbc
      · have := ho.trans c a b hc ha hb hca hlt
        rw [this] at hbc; cases hbc
      · rw [hlt] at hab; cases hab
    · rintro ⟨a, ha⟩ ⟨b, hb⟩
      simp only [le]
      rcases ho.total a b ha hb with rfl | hlt | hlt
      · simp [ho.irrefl a ha]
      · have : lt b a = false := by
          by_contra hba
          have := ho.trans a b a ha hb ha hlt (by simpa using hba)
          rw [ho.irrefl a ha] at this
          cases this
        simp [this]
      · have : lt a b = false := by
          by_contra hab
          have := ho.trans b a b hb ha hb hlt (by simpa using hab)
          rw [ho.irrefl b hb] at this
          cases this
        simp [this]
  rw [← hmap, pairwise_map]
  exact hsorted.imp fun h => by simpa [le] using h

/-- The first hit in a sorted list is the best. -/
theorem isBest_find? (ho : StrictOrderOn lt D) {l : List α}
    (hl : ∀ a ∈ l, D a) (hs : l.Pairwise fun a b => lt b a = false)
    (p : α → Bool) :
    IsBest lt (fun a => a ∈ l ∧ p a) (l.find? p) := by
  induction l with
  | nil => exact fun a ha => by cases ha.1
  | cons b l ih =>
    obtain ⟨hb, hs⟩ := pairwise_cons.mp hs
    have ih := ih (fun a ha => hl a (mem_cons_of_mem b ha)) hs
    by_cases hp : p b
    · rw [List.find?_cons_of_pos hp]
      refine ⟨⟨mem_cons_self, hp⟩, ?_⟩
      rintro a ⟨ha, -⟩
      rcases mem_cons.mp ha with rfl | ha
      · exact .inl rfl
      · rcases ho.total b a (hl b mem_cons_self)
          (hl a (mem_cons_of_mem b ha)) with rfl | hlt | hlt
        · exact .inl rfl
        · exact .inr hlt
        · rw [hb a ha] at hlt; cases hlt
    · rw [List.find?_cons_of_neg hp]
      refine ih.congr fun a => ⟨?_, fun h => ⟨mem_cons_of_mem b h.1, h.2⟩⟩
      rintro ⟨ha, hpa⟩
      rcases mem_cons.mp ha with rfl | ha
      · exact absurd hpa hp
      · exact ⟨ha, hpa⟩

end Sorted

end EssaCore.Lib
