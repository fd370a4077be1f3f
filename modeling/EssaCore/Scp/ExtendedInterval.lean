import EssaCore.Scp.BallotProtocol

/-!
# The interval of counters that is found

`findExtendedInterval` (`BallotProtocol.cpp:1078–1114`) makes one scan down the boundaries
for two searches: for the high end, and from there for the low end.

- `findExtendedInterval_extend` — the second part of the scan;
- `findExtendedInterval_spec` — both ends.
-/

namespace EssaCore.Scp

variable (pred : Interval → Bool) {lo hi : UInt32} {l : List UInt32}

/-- From a high end on, the scan goes down to the first boundary where the predicate fails. -/
theorem findExtendedInterval_extend (hsorted : (lo :: l).Pairwise (· > ·)) (hzero : 0 ∉ lo :: l)
    (hle : lo ≤ hi) : ∃ low ∈ lo :: l, findExtendedInterval pred l (lo, hi) = (low, hi) ∧
      (∀ c ∈ l, low ≤ c → pred (c, hi)) ∧
      ∀ b ∈ l, b < low → ∃ c ∈ l, b ≤ c ∧ pred (c, hi) = false := by
  induction l generalizing lo with
  | nil => exact ⟨lo, by simp [findExtendedInterval]⟩
  | cons b l ih =>
    obtain ⟨-, hsorted⟩ := List.pairwise_cons.mp hsorted
    have hbelow := (List.pairwise_cons.mp hsorted).1
    rw [findExtendedInterval, if_neg (by grind), if_neg (by grind)]
    split
    · obtain ⟨low, _, hfind, _, _⟩ := ih hsorted (by grind) (by grind)
      clear ih
      exact ⟨low, by grind, hfind, by grind, by grind⟩
    · clear ih
      exact ⟨lo, by grind, rfl, by grind, by grind⟩

/-- The ends of the interval that a scan of all boundaries finds -/
structure FindsEnds (boundaries : Set UInt32) (r : Interval) : Prop where
  high : IsGreatest {b | b ∈ boundaries ∧ pred (b, b)} r.2
  low : IsLeast {b | b ∈ boundaries ∧ ∀ c ∈ boundaries, b ≤ c → c ≤ r.2 → pred (c, r.2)} r.1

theorem findExtendedInterval_ends (hsorted : l.Pairwise (· > ·)) (hzero : 0 ∉ l)
    (h : ∃ b ∈ l, pred (b, b)) :
    FindsEnds pred {b | b ∈ l} (findExtendedInterval pred l (0, 0)) := by
  induction l with
  | nil => simp at h
  | cons b l ih =>
    obtain ⟨_, hsorted'⟩ := List.pairwise_cons.mp hsorted
    rw [findExtendedInterval, if_pos rfl]
    split
    · clear ih
      obtain ⟨_, _, hfind, hall, _⟩ :=
        findExtendedInterval_extend pred hsorted hzero le_rfl
      rw [hfind]
      refine ⟨⟨by grind, ?_⟩, by grind, ?_⟩
      · rintro x ⟨hx, -⟩
        grind
      · rintro x ⟨hx, hxall⟩
        grind
    · -- the highest boundary is neither end
      obtain ⟨⟨_, hgreatest⟩, ⟨_, hall⟩, hleast⟩ := ih hsorted' (by grind) (by grind)
      clear ih
      refine ⟨⟨by grind, ?_⟩, by grind, ?_⟩
      · rintro x ⟨hx, hxpred⟩
        have := @hgreatest x
        grind
      · rintro x ⟨hx, hxall⟩
        have := @hleast x
        grind

theorem findExtendedInterval_none (h : ∀ b ∈ l, pred (b, b) = false) :
    findExtendedInterval pred l (0, 0) = (0, 0) := by
  induction l with
  | nil => rfl
  | cons b l ih =>
    obtain ⟨hb, hl⟩ := List.forall_mem_cons.mp h
    rw [findExtendedInterval, if_pos rfl, hb, if_neg Bool.false_ne_true, ih hl]

/-- **What is found**: nothing if no boundary alone satisfies the predicate; otherwise the high
end is the highest that does, and the low end the lowest down to which every boundary does
together with the high end. -/
theorem findExtendedInterval_spec (boundaries : Finset UInt32) (hzero : 0 ∉ boundaries) :
    ((∀ b ∈ boundaries, pred (b, b) = false) →
      findExtendedInterval pred (boundaries.sort (· ≥ ·)) (0, 0) = (0, 0)) ∧
    ((∃ b ∈ boundaries, pred (b, b) = true) → FindsEnds pred boundaries
      (findExtendedInterval pred (boundaries.sort (· ≥ ·)) (0, 0))) := by
  have hmem (b : UInt32) : b ∈ boundaries.sort (· ≥ ·) ↔ b ∈ boundaries := Finset.mem_sort _
  refine ⟨fun h => findExtendedInterval_none pred fun b hb => h b ((hmem b).mp hb), fun h => ?_⟩
  have hends := findExtendedInterval_ends pred boundaries.sortedGT_sort.pairwise
    (by rwa [hmem]) (by simpa only [hmem] using h)
  simp only [hmem] at hends
  exact hends

/-- The interval ends at 5 and is cut at 2. -/
theorem findExtendedInterval_spec_upTo :
    FindsEnds (fun i => 2 < i.1 && i.2 ≤ 5) ({2, 3, 5, 9} : Finset UInt32)
      (findExtendedInterval (fun i => 2 < i.1 && i.2 ≤ 5)
        (({2, 3, 5, 9} : Finset UInt32).sort (· ≥ ·)) (0, 0)) :=
  (findExtendedInterval_spec _ {2, 3, 5, 9} (by decide)).2 ⟨5, by decide⟩

end EssaCore.Scp
