import EssaCore.Lib.ThresholdTree

/-!
# Smallest completions of threshold trees

Some leaves of a threshold tree are done, and others are free to be added. A
completion adds free leaves until the tree holds; it is smallest if no other
completion is shorter. One for a tree is put together greedily from those of its
children: free leaves of its own first, then the shortest completions.

- `ThresholdTree.Smallest` — a completion that is not longer than any other;
- `Smallest.eq_nil_iff` — nothing is added only when the tree already holds;
- `sum_take_le` — the first elements of a sorted list have the smallest sum;
- `Smallest.node` — the greedy choice.
-/

open List

namespace EssaCore.Lib.ThresholdTree

universe u v

variable {α : Type u} [DecidableEq α] {done free : α → Bool}

/-- Free leaves that make the tree hold together with the ones that are done, as few as
possible -/
structure Smallest (done free : α → Bool) (t : ThresholdTree α) (r : List α) : Prop where
  isFree : ∀ a ∈ r, free a = true
  leaves : r.Subperm t.allLeaves
  completes : t.holds (fun a => done a || decide (a ∈ r)) = true
  least : ∀ p : α → Bool, (∀ a, p a = true → free a = true) →
    t.holds (fun a => done a || p a) = true → r.length ≤ t.allLeaves.countP p

variable {r : List α}

theorem Smallest.eq_nil_iff {t : ThresholdTree α} (h : Smallest done free t r) :
    r = [] ↔ t.holds done = true := by
  constructor
  · rintro rfl
    simpa using h.completes
  · intro hdone
    have := h.least (fun _ => false) nofun (by simpa using hdone)
    rw [countP_false] at this
    exact length_eq_zero_iff.mp (Nat.le_zero.mp this)

/-! ## Sums of first elements -/

omit [DecidableEq α] in
theorem countP_or_of_disjoint {p q : α → Bool} (h : ∀ a, p a = true → q a = false) (l : List α) :
    l.countP (fun a => p a || q a) = l.countP p + l.countP q := by
  induction l with
  | nil => rfl
  | cons a l ih =>
    rw [List.countP_cons, List.countP_cons, List.countP_cons, ih]
    cases hp : p a with
    | false => simp [Nat.add_assoc]
    | true => simp [h a hp]; omega

variable {l : List Nat}

theorem add_sum_take_le {a n : Nat} (ha : ∀ b ∈ l, a ≤ b) (hn : n < l.length) :
    a + (l.take n).sum ≤ (l.take (n + 1)).sum := by
  rw [take_add_one, sum_append, List.getElem?_eq_getElem hn, Nat.add_comm]
  simpa using ha _ (getElem_mem hn)

/-- No sublist of a sorted list has a smaller sum than its first elements. -/
theorem sum_take_le {j : List Nat} (hsub : j.Sublist l) (hsorted : l.Pairwise (· ≤ ·)) :
    (l.take j.length).sum ≤ j.sum := by
  induction hsub with
  | slnil => exact Nat.le_refl _
  | @cons j l a hsub ih =>
    obtain ⟨ha, hsorted⟩ := pairwise_cons.mp hsorted
    cases j with
    | nil => exact Nat.le_refl _
    | cons b j =>
      -- the first element is left out for a later one that is not smaller
      rw [length_cons, take_succ_cons]
      exact (add_sum_take_le ha hsub.length_le).trans (ih hsorted)
  | @cons_cons j l a hsub ih =>
    obtain ⟨-, hsorted⟩ := pairwise_cons.mp hsorted
    rw [sum_cons]
    exact Nat.add_le_add_left (ih hsorted) a

theorem sum_take_add_le (hpos : ∀ b ∈ l, 1 ≤ b) {m n : Nat} (hmn : m ≤ n)
    (hn : n ≤ l.length) : (l.take m).sum + (n - m) ≤ (l.take n).sum := by
  induction n, hmn using Nat.le_induction with
  | base => omega
  | succ n hmn ih =>
    have hstep := add_sum_take_le hpos hn
    omega

/-! ## The greedy choice -/

section Node

variable {ι : Type v} {is : List ι} {tree : ι → ThresholdTree α} {res : ι → List α}
  {sorted : List (List α)}

omit [DecidableEq α] in
/-- The completions that add something are as many as the children that do not hold yet. -/
theorem length_sorted (hperm : sorted.Perm ((is.map res).filter fun r => !r.isEmpty)) :
    is.countP (fun i => (res i).isEmpty) + sorted.length = is.length := by
  rw [hperm.length_eq, List.filter_map, List.length_map, ← List.countP_eq_length_filter]
  exact countP_add_countP_not _ is

/-- Leaves that are added hold. -/
theorem countP_leaves (hdisjoint : ∀ a, done a = true → free a = false) (n : Nat)
    (leaves : List α) (hr : ∀ a ∈ (leaves.filter free).take n, a ∈ r) :
    leaves.countP done + min n (leaves.filter free).length ≤
      leaves.countP fun a => done a || decide (a ∈ r) := by
  have htaken : min n (leaves.filter free).length ≤
      leaves.countP fun a => free a && decide (a ∈ r) := by
    have hcount : ((leaves.filter free).take n).countP (fun a => decide (a ∈ r)) ≤
        (leaves.filter free).countP fun a => decide (a ∈ r) :=
      (take_sublist n _).countP_le
    rw [countP_eq_length.mpr fun a ha => decide_eq_true (hr a ha), length_take,
      countP_filter] at hcount
    exact hcount.trans (Nat.le_of_eq (countP_congr fun a _ => by simp [and_comm]))
  refine (Nat.add_le_add_left htaken _).trans ?_
  rw [← countP_or_of_disjoint fun a ha => by rw [hdisjoint a ha, Bool.false_and]]
  refine countP_mono_left fun a _ ha => ?_
  simp only [Bool.or_eq_true, Bool.and_eq_true] at ha ⊢
  exact ha.imp_right And.right

variable (hres : ∀ i ∈ is, Smallest done free (tree i) (res i))

include hres

/-- Children of which the completion is part of what is added hold. -/
theorem countP_children (hperm : sorted.Perm ((is.map res).filter fun r => !r.isEmpty)) (n : Nat)
    (hr : ∀ a ∈ (sorted.take n).flatten, a ∈ r) :
    is.countP (fun i => (res i).isEmpty) + min n sorted.length ≤
      is.countP fun i => (tree i).holds fun a => done a || decide (a ∈ r) := by
  let taken (i : ι) : Bool := !(res i).isEmpty && decide (res i ∈ sorted.take n)
  have hdisjoint (i : ι) (h : (res i).isEmpty = true) : taken i = false := by
    simp [taken, h]
  have htaken : min n sorted.length ≤ is.countP taken := by
    have hsub : (sorted.take n).Subperm ((is.map res).filter fun r => !r.isEmpty) :=
      (take_sublist n sorted).subperm.trans hperm.subperm
    have hcount := hsub.countP_le fun r => decide (r ∈ sorted.take n)
    rw [countP_filter, countP_map] at hcount
    rw [← length_take, ← countP_eq_length.mpr fun r hr => decide_eq_true hr]
    refine hcount.trans (Nat.le_of_eq (countP_congr fun i _ => ?_))
    simp [taken, and_comm]
  refine (Nat.add_le_add_left htaken _).trans ?_
  rw [← countP_or_of_disjoint hdisjoint]
  refine countP_mono_left fun i hi h => holds_mono (fun a _ ha => ?_) (hres i hi).completes
  rw [Bool.or_eq_true, decide_eq_true_eq] at ha ⊢
  refine ha.imp_right fun ha => ?_
  rcases Bool.or_eq_true_iff.mp h with hempty | htaken
  · rw [isEmpty_iff.mp hempty] at ha
    exact absurd ha not_mem_nil
  · simp only [taken, Bool.and_eq_true, decide_eq_true_eq] at htaken
    exact hr a (mem_flatten_of_mem htaken.2 ha)

/-- Children with nothing to complete hold. -/
theorem countP_isEmpty_le {p : α → Bool} :
    is.countP (fun i => (res i).isEmpty) ≤
      is.countP fun i => (tree i).holds fun a => done a || p a :=
  countP_mono_left fun i hi hempty =>
    holds_mono (fun a _ ha => by rw [ha, Bool.true_or])
      ((hres i hi).eq_nil_iff.mp (isEmpty_iff.mp hempty))

/-- Whatever makes more children hold is not shorter than the shortest completions. -/
theorem sum_children_le (hperm : sorted.Perm ((is.map res).filter fun r => !r.isEmpty))
    (hsorted : sorted.Pairwise fun r r' => r.length ≤ r'.length) {p : α → Bool}
    (hp : ∀ a, p a = true → free a = true) {n : Nat}
    (hn : is.countP (fun i => (tree i).holds fun a => done a || p a) =
      is.countP (fun i => (res i).isEmpty) + n) :
    n ≤ sorted.length ∧ ((sorted.map List.length).take n).sum ≤
        (is.flatMap fun i => (tree i).allLeaves).countP p := by
  let completed (i : ι) : Bool := !(res i).isEmpty && (tree i).holds fun a => done a || p a
  let lengths := (is.filter completed).map fun i => (res i).length
  have hlength : lengths.length = n := by
    have hsplit : is.countP (fun i => (tree i).holds fun a => done a || p a) =
        is.countP (fun i => (res i).isEmpty || completed i) := by
      refine countP_congr fun i hi => ?_
      cases hempty : (res i).isEmpty with
      | false => simp [completed, hempty]
      | true =>
        have hholds := (hres i hi).eq_nil_iff.mp (isEmpty_iff.mp hempty)
        simp only [Bool.true_or, iff_true]
        exact holds_mono (fun a _ ha => by rw [ha, Bool.true_or]) hholds
    rw [hsplit, countP_or_of_disjoint fun i h => by simp [completed, h]] at hn
    rw [length_map, ← countP_eq_length_filter]
    omega
  have hsub : lengths.Subperm (sorted.map List.length) := by
    have hfilter : (is.filter completed).Sublist (is.filter fun i => !(res i).isEmpty) :=
      monotone_filter_right _ fun i h => (Bool.and_eq_true_iff.mp h).1
    have hmap := (hfilter.map fun i => (res i).length).subperm
    refine hmap.trans (Perm.subperm ?_)
    refine Perm.trans (Perm.of_eq ?_) (hperm.map List.length).symm
    rw [filter_map, map_map]
    rfl
  obtain ⟨_, hperm', hsublist⟩ := hsub
  have hsum := sum_take_le hsublist (pairwise_map.mpr hsorted)
  rw [hperm'.length_eq, hlength, hperm'.sum_eq] at hsum
  refine ⟨?_, hsum.trans ?_⟩
  · rw [← hlength, ← hperm'.length_eq, ← length_map List.length]
    exact hsublist.length_le
  · rw [countP_flatMap]
    have hle : lengths.sum ≤ ((is.filter completed).map fun i => (tree i).allLeaves.countP p).sum :=
      sum_le_sum fun i hi => by
        obtain ⟨hi, hcompleted⟩ := mem_filter.mp hi
        exact (hres i hi).least p hp (Bool.and_eq_true_iff.mp hcompleted).2
    exact hle.trans ((filter_sublist.map _).sum_le_sum fun _ _ => Nat.zero_le _)

omit hres

/-- A smallest completion takes free leaves of the tree, as far as needed, and then the shortest
completions of children. -/
theorem Smallest.node (hdisjoint : ∀ a, done a = true → free a = false)
    (hres : ∀ i ∈ is, Smallest done free (tree i) (res i))
    (hperm : sorted.Perm ((is.map res).filter fun r => !r.isEmpty))
    (hsorted : sorted.Pairwise fun r r' => r.length ≤ r'.length)
    {threshold : Nat} {leaves : List α}
    (hreach : threshold ≤ leaves.countP (fun a => done a || free a) + is.length) {m : Nat}
    (hm : m = threshold - (leaves.countP done + is.countP fun i => (res i).isEmpty)) :
    Smallest done free (.node threshold leaves (is.map tree)) ((leaves.filter free).take m ++
        (sorted.take (m - (leaves.filter free).length)).flatten) := by
  have hlength := length_sorted hperm
  have hmem : ∀ r ∈ sorted, ∃ i ∈ is, res i = r ∧ r ≠ [] := by
    intro r hr
    obtain ⟨hr, hne⟩ := mem_filter.mp (hperm.mem_iff.mp hr)
    obtain ⟨i, hi, rfl⟩ := mem_map.mp hr
    exact ⟨i, hi, rfl, by simpa using hne⟩
  refine ⟨fun a ha => ?_, ?_, ?_, fun p hp hholds => ?_⟩
  · rcases mem_append.mp ha with ha | ha
    · exact (mem_filter.mp (mem_of_mem_take ha)).2
    · obtain ⟨r, hr, ha⟩ := mem_flatten.mp ha
      obtain ⟨i, hi, rfl, -⟩ := hmem r (mem_of_mem_take hr)
      exact (hres i hi).isFree a ha
  · rw [allLeaves_node, flatMap_map]
    refine Subperm.append ((take_sublist _ _).trans filter_sublist).subperm ?_
    have hflatten : (is.flatMap res).Subperm (is.flatMap fun i => (tree i).allLeaves) := by
      clear hperm hreach hm hlength hmem
      induction is with
      | nil => exact Subperm.refl _
      | cons i is ih =>
        rw [flatMap_cons]
        exact Subperm.append (hres i mem_cons_self).leaves
          (ih fun i hi => hres i (mem_cons_of_mem _ hi))
    refine Subperm.trans ?_ hflatten
    refine ((take_sublist _ sorted).flatten.subperm).trans ?_
    refine hperm.flatten.subperm.trans ?_
    exact filter_sublist.flatten.subperm
  · have hleaves := countP_leaves hdisjoint m leaves fun a ha =>
      mem_append_left (sorted.take (m - (leaves.filter free).length)).flatten ha
    have hchildren := countP_children hres hperm (m - (leaves.filter free).length)
      fun a ha => mem_append_right ((leaves.filter free).take m) ha
    rw [countP_or_of_disjoint hdisjoint, countP_eq_length_filter (p := free)] at hreach
    rw [holds_node, countP_map]
    simp only [Function.comp_def]
    omega
  · rw [holds_node, countP_map, countP_or_of_disjoint fun a ha => by
      cases hpa : p a with
      | false => rfl
      | true => exact absurd (hp a hpa) (by simp [hdisjoint a ha])] at hholds
    simp only [Function.comp_def] at hholds
    rw [allLeaves_node, flatMap_map, countP_append, length_append,
      length_flatten, map_take, length_take]
    have hfree : leaves.countP p ≤ (leaves.filter free).length := by
      rw [← countP_eq_length_filter]
      exact countP_mono_left fun a _ => hp a
    obtain ⟨n, hn⟩ := Nat.exists_eq_add_of_le (countP_isEmpty_le hres)
    obtain ⟨hle, _⟩ := sum_children_le hres hperm hsorted hp hn
    rw [← length_map List.length] at hle
    have hpos : ∀ b ∈ sorted.map List.length, 1 ≤ b := by
      intro b hb
      obtain ⟨r, hr, rfl⟩ := mem_map.mp hb
      obtain ⟨i, -, -, hne⟩ := hmem r hr
      exact length_pos_iff.mpr hne
    have hadd := sum_take_add_le hpos (m := m - (leaves.filter free).length) ?_ hle
    · omega
    · omega

end Node

end EssaCore.Lib.ThresholdTree
