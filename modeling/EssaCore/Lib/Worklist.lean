import Mathlib

/-!
# Worklists

A search keeps the elements it has found but not looked at, and those it has looked at. It takes
one of the former, whichever it likes, and adds what follows from it and is new.

- `Worklist`, `Worklist.start` — what the search keeps;
- `Worklist.Takes` — one element is looked at;
- `Worklist.Searches` — the invariant: all that was found is reachable, and nothing is forgotten;
- `Searches.visited_iff` — when nothing is left, exactly the reachable elements were looked at;
- `Takes.card_lt` — how often an element can be taken, in a finite set.
-/

open Finset

namespace EssaCore.Lib

universe u

/-- What was found but not looked at, and what was looked at -/
structure Worklist (α : Type u) where
  backlog : Finset α
  visited : Finset α

namespace Worklist

variable {α : Type u} {follows : α → α → Prop} {root a b c : α} {w w' : Worklist α}

/-- Only the root was found. -/
def start (root : α) : Worklist α := ⟨{root}, ∅⟩

/-- The element `c` is taken, and all that follows from it and was not visited is added. -/
structure Takes [DecidableEq α] (follows : α → α → Prop) (w : Worklist α) (c : α)
    (w' : Worklist α) : Prop where
  mem : c ∈ w.backlog
  visited : w'.visited = insert c w.visited
  backlog : ∀ b, b ∈ w'.backlog ↔ b ∈ w.backlog.erase c ∨ follows c b ∧ b ∉ w'.visited

/-- The element was found. -/
def Found (w : Worklist α) (a : α) : Prop := a ∈ w.backlog ∨ a ∈ w.visited

/-- What holds of a search from `root` -/
structure Searches (follows : α → α → Prop) (root : α) (w : Worklist α) : Prop where
  reachable : ∀ a, w.Found a → Relation.ReflTransGen follows root a
  root : w.Found root
  closed : ∀ a ∈ w.visited, ∀ b, follows a b → w.Found b
  disjoint : ∀ a ∈ w.backlog, a ∉ w.visited

theorem searches_start : Searches follows root (start root) where
  reachable a ha := by
    rcases ha with ha | ha
    · rw [mem_singleton.mp ha]
    · exact absurd ha (notMem_empty a)
  root := .inl (mem_singleton_self root)
  closed a ha := absurd ha (notMem_empty a)
  disjoint _ _ := notMem_empty _

section Takes

variable [DecidableEq α] (h : Takes follows w c w')

include h

/-- Nothing that was found is forgotten. -/
theorem Takes.found (ha : w.Found a) : w'.Found a := by
  rcases ha with ha | ha
  · by_cases hac : a = c
    · exact .inr (h.visited ▸ hac ▸ mem_insert_self c w.visited)
    · exact .inl ((h.backlog a).mpr (.inl (mem_erase.mpr ⟨hac, ha⟩)))
  · exact .inr (h.visited ▸ mem_insert_of_mem ha)

theorem Searches.takes (hs : Searches follows root w) : Searches follows root w' where
  reachable a ha := by
    have hc := hs.reachable c (.inl h.mem)
    rcases ha with ha | ha
    · rcases (h.backlog a).mp ha with ha | ⟨hfollows, -⟩
      · exact hs.reachable a (.inl (mem_of_mem_erase ha))
      · exact hc.tail hfollows
    · rcases mem_insert.mp (h.visited ▸ ha) with rfl | ha
      · exact hc
      · exact hs.reachable a (.inr ha)
  root := h.found hs.root
  closed a ha b hfollows := by
    rcases mem_insert.mp (h.visited ▸ ha) with rfl | ha
    · by_cases hb : b ∈ w'.visited
      · exact .inr hb
      · exact .inl ((h.backlog b).mpr (.inr ⟨hfollows, hb⟩))
    · exact h.found (hs.closed a ha b hfollows)
  disjoint a ha := by
    rcases (h.backlog a).mp ha with ha' | ⟨-, hnot⟩
    · rw [h.visited, mem_insert, not_or]
      exact ⟨(mem_erase.mp ha').1, hs.disjoint a (mem_of_mem_erase ha')⟩
    · exact hnot

/-- Fewer elements of a finite set are left to be taken. -/
theorem Takes.card_lt {U : Finset α} (hs : Searches follows root w) (hU : c ∈ U) :
    (U \ w'.visited).card < (U \ w.visited).card := by
  refine card_lt_card (ssubset_iff_of_subset ?_ |>.mpr ⟨c, ?_, ?_⟩)
  · rw [h.visited]
    exact sdiff_subset_sdiff (Finset.Subset.refl U) (subset_insert c w.visited)
  · exact mem_sdiff.mpr ⟨hU, hs.disjoint c h.mem⟩
  · rw [h.visited]
    exact fun hc => (mem_sdiff.mp hc).2 (mem_insert_self c w.visited)

end Takes

/-- A search that has nothing left has visited what is reachable. -/
theorem Searches.visited_iff (hs : Searches follows root w) (hempty : w.backlog = ∅) :
    a ∈ w.visited ↔ Relation.ReflTransGen follows root a := by
  have hvisited (b : α) (hb : w.Found b) : b ∈ w.visited :=
    hb.resolve_left (hempty ▸ notMem_empty b)
  refine ⟨fun ha => hs.reachable a (.inr ha), fun ha => ?_⟩
  induction ha with
  | refl => exact hvisited root hs.root
  | tail _ hfollows ih => exact hvisited _ (hs.closed _ ih _ hfollows)

/-- All that is found stays in a set with the root that is closed. -/
theorem Searches.mem_of_found {U : Finset α} (hs : Searches follows root w) (hroot : root ∈ U)
    (hU : ∀ a b, follows a b → b ∈ U) (ha : w.Found a) : a ∈ U := by
  cases hs.reachable a ha with
  | refl => exact hroot
  | tail _ hfollows => exact hU _ _ hfollows

end Worklist

end EssaCore.Lib
