import Mathlib

/-!
# Threshold trees

A threshold tree asks for a number of its entries, each of them a leaf or again a tree.
Given which leaves hold, the tree holds or does not.

- `ThresholdTree.holds` — does the tree hold?
- `ThresholdTree.allLeaves` — the leaves, at every depth;
- `ThresholdTree.Fits` — no tree asks for nothing, or for more than it has;
- `ThresholdTree.flip` — the dual tree;
- `holds_mono`, `holds_congr` — a tree depends on its leaves, and more of them are no less;
- `holds_flip` — the dual tree holds when enough leaves are missing for the tree to fail.
-/

open List

namespace EssaCore.Lib

universe u

/-- A number of leaves and trees, of which some have to hold -/
inductive ThresholdTree (α : Type u) where
  | node (threshold : Nat) (leaves : List α) (children : List (ThresholdTree α))

namespace ThresholdTree

variable {α : Type u}

/-- Induction over a tree, with the statement for all of its children. -/
@[elab_as_elim, induction_eliminator]
theorem induct {P : ThresholdTree α → Prop}
    (node : ∀ threshold leaves children, (∀ t ∈ children, P t) →
      P (.node threshold leaves children)) (t : ThresholdTree α) : P t :=
  @ThresholdTree.rec α P (fun ts => ∀ t ∈ ts, P t) node
    (forall_mem_nil _) (fun _ _ h hs => forall_mem_cons.mpr ⟨h, hs⟩) t

mutual

/-- Enough leaves and children hold. -/
def holds (p : α → Bool) : ThresholdTree α → Bool
  | .node threshold leaves children => threshold ≤ leaves.countP p + holdsCount p children

/-- How many trees hold -/
def holdsCount (p : α → Bool) : List (ThresholdTree α) → Nat
  | [] => 0
  | t :: ts => (if holds p t then 1 else 0) + holdsCount p ts

end

mutual

/-- The leaves of the tree and of all trees below it -/
def allLeaves : ThresholdTree α → List α
  | .node _ leaves children => leaves ++ leavesOf children

/-- The leaves of trees -/
def leavesOf : List (ThresholdTree α) → List α
  | [] => []
  | t :: ts => allLeaves t ++ leavesOf ts

end

mutual

/-- The tree that holds when the other one fails -/
def flip : ThresholdTree α → ThresholdTree α
  | .node threshold leaves children =>
    .node (leaves.length + children.length + 1 - threshold) leaves (flipAll children)

/-- The duals of trees -/
def flipAll : List (ThresholdTree α) → List (ThresholdTree α)
  | [] => []
  | t :: ts => flip t :: flipAll ts

end

/-- Every threshold is positive and can be reached. -/
inductive Fits : ThresholdTree α → Prop
  | node {threshold : Nat} {leaves : List α} {children : List (ThresholdTree α)}
      (hpos : 1 ≤ threshold) (hle : threshold ≤ leaves.length + children.length)
      (hchildren : ∀ t ∈ children, Fits t) : Fits (.node threshold leaves children)

/-! ## Equations -/

theorem holdsCount_eq (p : α → Bool) (ts : List (ThresholdTree α)) :
    holdsCount p ts = ts.countP (holds p) := by
  induction ts with
  | nil => rfl
  | cons t ts ih => rw [holdsCount, ih, countP_cons, Nat.add_comm]

variable {threshold : Nat} {t : ThresholdTree α} {leaves : List α}
  {children : List (ThresholdTree α)} {p : α → Bool}

theorem holds_node : holds p (.node threshold leaves children) = true ↔
      threshold ≤ leaves.countP p + children.countP (holds p) := by
  rw [holds, decide_eq_true_eq, holdsCount_eq]

theorem leavesOf_eq (ts : List (ThresholdTree α)) : leavesOf ts = ts.flatMap allLeaves := by
  induction ts with
  | nil => rfl
  | cons t ts ih => rw [leavesOf, ih, flatMap_cons]

theorem allLeaves_node :
    allLeaves (.node threshold leaves children) = leaves ++ children.flatMap allLeaves := by
  rw [allLeaves, leavesOf_eq]

theorem mem_allLeaves {a : α} : a ∈ allLeaves (.node threshold leaves children) ↔
      a ∈ leaves ∨ ∃ t ∈ children, a ∈ allLeaves t := by
  rw [allLeaves_node, mem_append, mem_flatMap]

theorem flipAll_eq (ts : List (ThresholdTree α)) : flipAll ts = ts.map flip := by
  induction ts with
  | nil => rfl
  | cons t ts ih => rw [flipAll, ih, map_cons]

theorem flip_node : flip (.node threshold leaves children) =
      .node (leaves.length + children.length + 1 - threshold) leaves (children.map flip) := by
  rw [flip, flipAll_eq]

/-- A tree has a leaf, and no fewer leaves than entries. -/
theorem Fits.length_le (h : Fits (.node threshold leaves children)) :
    1 ≤ leaves.length + children.length ∧
      leaves.length + children.length ≤ (allLeaves (.node threshold leaves children)).length := by
  have hpos (t : ThresholdTree α) (ht : t.Fits) : 1 ≤ t.allLeaves.length := by
    induction t with
    | node threshold leaves children ih =>
      obtain ⟨hpos, hle, hchildren⟩ := ht
      rw [allLeaves_node, length_append]
      cases children with
      | nil =>
        rw [length_nil] at hle
        omega
      | cons t ts =>
        have := ih t mem_cons_self (hchildren t mem_cons_self)
        rw [flatMap_cons, length_append]
        omega
  obtain ⟨hone, hle, hchildren⟩ := h
  refine ⟨hone.trans hle, ?_⟩
  have hlength : (children.map fun t => t.allLeaves.length).length = children.length :=
    length_map _
  rw [allLeaves_node, length_append, length_flatMap, ← hlength]
  refine Nat.add_le_add_left (length_le_sum_of_one_le _ fun n hn => ?_) _
  obtain ⟨t, ht, rfl⟩ := mem_map.mp hn
  exact hpos t (hchildren t ht)

/-! ## What a tree depends on -/

theorem holds_mono {p' : α → Bool}
    (h : ∀ a ∈ allLeaves t, p a = true → p' a = true) (ht : holds p t = true) :
    holds p' t = true := by
  induction t with
  | node threshold leaves children ih =>
    rw [holds_node] at ht ⊢
    refine Nat.le_trans ht (Nat.add_le_add ?_ ?_)
    · exact countP_mono_left fun a ha => h a (mem_allLeaves.mpr (.inl ha))
    · refine countP_mono_left fun t htmem hholds => ih t htmem (fun a ha => ?_) hholds
      exact h a (mem_allLeaves.mpr (.inr ⟨t, htmem, ha⟩))

theorem holds_congr {p' : α → Bool} (h : ∀ a ∈ allLeaves t, p a = p' a) : holds p t = holds p' t :=
  Bool.eq_iff_iff.mpr ⟨holds_mono fun a ha hp => h a ha ▸ hp,
    holds_mono fun a ha hp => (h a ha).symm ▸ hp⟩

/-- With every leaf, everything holds. -/
theorem Fits.holds_all (ht : t.Fits) : holds (fun _ => true) t = true := by
  induction t with
  | node threshold leaves children ih =>
    obtain ⟨-, hle, hchildren⟩ := ht
    have hcount : children.countP (holds fun _ => true) = children.length :=
      countP_eq_length.mpr fun t htmem => ih t htmem (hchildren t htmem)
    rw [holds_node, hcount, countP_true]
    exact hle

/-! ## Duality -/

theorem countP_add_countP_not (p : α → Bool) (l : List α) :
    l.countP p + l.countP (fun a => !p a) = l.length := by
  rw [length_eq_countP_add_countP p]
  simp

theorem holds_flip (ht : t.Fits) (p : α → Bool) : holds p t.flip = !holds (fun a => !p a) t := by
  induction t with
  | node threshold leaves children ih =>
    obtain ⟨_, -, hchildren⟩ := ht
    have hcount : children.countP (fun t => holds p t.flip) =
        children.countP (fun t => !holds (fun a => !p a) t) :=
      countP_congr fun t ht => by rw [ih t ht (hchildren t ht)]
    have hleaves := countP_add_countP_not p leaves
    have hsets := countP_add_countP_not (holds fun a => !p a) children
    rw [Bool.eq_iff_iff, Bool.not_eq_true', ← Bool.not_eq_true, flip_node, holds_node, holds_node,
      countP_map]
    simp only [Function.comp_def]
    omega

end ThresholdTree

end EssaCore.Lib
