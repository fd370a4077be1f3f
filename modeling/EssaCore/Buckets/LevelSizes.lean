import EssaCore.Buckets.BucketListRuns

/-!
# How many ledgers a bucket stands for

`BucketList::sizeOfCurr`, `sizeOfSnap` and `oldestLedgerIn*` compute, from the
number of the ledger alone, the range of ledgers of each bucket. This file shows
that these are the ranges that the buckets have.

- `sizeOfCurr`, `sizeOfSnap`, `oldestLedgerInCurr`, `oldestLedgerInSnap` — as the
  code has them;
- `bounds_eq` — closed forms of the ranges;
- `sizes_eq` — the sizes are those of the ranges;
- `buckets_hold_sizes` — and of what the buckets stand for after any batches;
- `buckets_hold_intervals` — which ledgers' entries each bucket has, all of them together.
-/

namespace EssaCore.Buckets

open Ledger Lib

/-! ## Rounding down -/

theorem mask_le (v m : ℕ) : mask v m ≤ v := Nat.div_mul_le_self v m

theorem dvd_mask (v m : ℕ) : m ∣ mask v m := Nat.dvd_mul_left m (v / m)

theorem mask_of_dvd {v m : ℕ} (h : m ∣ v) : mask v m = v := Nat.div_mul_cancel h

/-- A multiple is below a number if and only if it is below it rounded down. -/
theorem le_mask_iff {a v m : ℕ} (h : m ∣ a) : a ≤ mask v m ↔ a ≤ v := by
  refine ⟨fun hle => hle.trans (mask_le v m), fun hle => ?_⟩
  obtain ⟨q, rfl⟩ := h
  rcases Nat.eq_zero_or_pos m with rfl | hm
  · simp
  · rw [Nat.mul_comm m q]
    refine Nat.mul_le_mul_right m ((Nat.le_div_iff_mul_le hm).mpr ?_)
    rwa [Nat.mul_comm]

theorem mask_ne_zero_iff {v m : ℕ} (hm : 0 < m) : mask v m ≠ 0 ↔ m ≤ v := by
  rw [← le_mask_iff (dvd_refl m)]
  refine ⟨fun h => Nat.le_of_dvd (Nat.pos_of_ne_zero h) (dvd_mask v m), fun h => by omega⟩

theorem pos_of_mask_ne_zero {v m : ℕ} (h : mask v m ≠ 0) : 0 < v :=
  (Nat.pos_of_ne_zero h).trans_le (mask_le v m)

/-- Rounding to a coarser unit gives less. -/
theorem mask_le_mask {v m m' : ℕ} (h : m ∣ m') : mask v m' ≤ mask v m :=
  (le_mask_iff (h.trans (dvd_mask v m'))).mpr (mask_le v m')

theorem mask_mask {v m m' : ℕ} (h : m ∣ m') : mask (mask v m) m' = mask v m' := by
  refine le_antisymm ?_ ?_
  · exact (le_mask_iff (dvd_mask _ m')).mpr ((mask_le _ m').trans (mask_le v m))
  · exact (le_mask_iff (dvd_mask v m')).mpr (mask_le_mask h)

theorem mask_succ_of_dvd {n m : ℕ} (h : m ∣ n + 1) : mask n m + m = n + 1 := by
  have hdiv := Nat.succ_div_of_dvd h
  rw [mask, ← Nat.succ_mul, Nat.succ_eq_add_one, ← hdiv]
  exact Nat.div_mul_cancel h

theorem mask_succ_of_not_dvd {n m : ℕ} (h : ¬ m ∣ n + 1) : mask (n + 1) m = mask n m := by
  rw [mask, mask, Nat.succ_div_of_not_dvd h]

/-! ## The functions of the code -/

/-- The local variable `previousRelevantLedger` of `sizeOfCurr` -/
def previousRelevantLedger (ledger level : ℕ) : ℕ :=
  max (max (mask (ledger - 1) (levelHalf (level - 1)))
      (mask (ledger - 1) (levelSize (level - 1))))
    (max (mask (ledger - 1) (levelHalf level)) (mask (ledger - 1) (levelSize level)))

theorem previousRelevantLedger_lt {ledger : ℕ} (h : 0 < ledger) (level : ℕ) :
    previousRelevantLedger ledger level < ledger := by
  have hle := fun m => mask_le (ledger - 1) m
  have hmax : previousRelevantLedger ledger level ≤ ledger - 1 :=
    max_le (max_le (hle _) (hle _)) (max_le (hle _) (hle _))
  omega

mutual

/-- `BucketList::sizeOfCurr` -/
def sizeOfCurr (ledger level : ℕ) : ℕ :=
  if level = 0 then
    if ledger = 1 then 1 else 1 + ledger % 2
  else if h : level ≠ kNumLevels - 1 ∧ mask ledger (levelHalf level) ≠ 0 then
    let sizeDelta := 2 ^ (2 * level - 1)
    if mask ledger (levelHalf level) = ledger ∨ mask ledger (levelSize level) = ledger then
      sizeDelta
    else if mask ledger (levelHalf (level - 1)) = ledger ∨
        mask ledger (levelSize (level - 1)) = ledger then
      sizeOfCurr (previousRelevantLedger ledger level) level + sizeDelta
    else sizeOfCurr (previousRelevantLedger ledger level) level
  else ledger - sizeBelow ledger level
termination_by 3 * (level + ledger) + 1
decreasing_by
  · have hlt := previousRelevantLedger_lt (pos_of_mask_ne_zero h.2) level
    omega
  · have hlt := previousRelevantLedger_lt (pos_of_mask_ne_zero h.2) level
    omega
  · omega

/-- `BucketList::sizeOfSnap` -/
def sizeOfSnap (ledger level : ℕ) : ℕ :=
  if level = kNumLevels - 1 then 0
  else if mask ledger (levelSize level) ≠ 0 then levelHalf level
  else ledger - (sizeBelow ledger level + sizeOfCurr ledger level)
termination_by 3 * (level + ledger) + 2

/-- The loop over the levels before `level` that adds up the sizes -/
def sizeBelow (ledger level : ℕ) : ℕ :=
  match level with
  | 0 => 0
  | l + 1 => sizeBelow ledger l + (sizeOfCurr ledger l + sizeOfSnap ledger l)
termination_by 3 * (level + ledger)

end

/-- `std::numeric_limits<uint32_t>::max()` -/
def uint32Max : ℕ := 2 ^ 32 - 1

/-- `BucketList::oldestLedgerInCurr` -/
def oldestLedgerInCurr (ledger level : ℕ) : ℕ :=
  if sizeOfCurr ledger level = 0 then uint32Max
  else ledger - sizeBelow ledger level - sizeOfCurr ledger level + 1

/-- `BucketList::oldestLedgerInSnap` -/
def oldestLedgerInSnap (ledger level : ℕ) : ℕ :=
  if sizeOfSnap ledger level = 0 then uint32Max
  else ledger - sizeBelow ledger (level + 1) + 1

/-! ## Closed forms of the ranges -/

/-- How far the range of `curr` starts before the last spill of its level. -/
def currOffset : ℕ → ℕ
  | 0 => 1
  | i + 1 => currOffset i + 2 * levelHalf i

theorem currOffset_le (i : ℕ) : currOffset i ≤ levelHalf i := by
  induction i with
  | zero => decide
  | succ i ih =>
    rw [currOffset, levelHalf_succ]
    omega

theorem levelHalf_dvd_succ (i : ℕ) : levelHalf i ∣ levelHalf (i + 1) := by
  rw [levelHalf_succ]
  exact Nat.dvd_mul_left _ _

variable {n i level : ℕ}

/-- The ranges of a level end at its last two spills, up to the offset. -/
theorem bounds_eq (hi : i < kNumLevels - 1) (n : ℕ) :
    currLo n i = mask n (levelHalf i) - currOffset i ∧
      snapLo n i = mask n (levelHalf i) - levelHalf i - currOffset i := by
  induction n generalizing i with
  | zero => simp [mask, currLo, snapLo, bounds]
  | succ n ih =>
    by_cases hs : levelShouldSpill (n + 1) i = true
    · have hdvd := (levelShouldSpill_iff.mp hs).2
      have hmask := mask_succ_of_dvd hdvd
      rw [currLo_of_spill hs, snapLo_of_spill hs, (ih hi).1, mask_of_dvd hdvd]
      refine ⟨?_, by omega⟩
      cases i with
      | zero => rfl
      | succ i =>
        -- the level above spills too, and starts where it did one spill ago
        have hdvd' := (levelHalf_dvd_succ i).trans hdvd
        have hmask' := mask_succ_of_dvd hdvd'
        have hhi : currHi n (i + 1) = snapLo n i := rfl
        rw [hhi, (ih (by omega)).2, currOffset]
        omega
    · have hdvd : ¬ levelHalf i ∣ n + 1 :=
        fun h => hs (levelShouldSpill_iff.mpr ⟨by omega, h⟩)
      rw [currLo_of_not_spill hs, snapLo_of_not_spill hs, mask_succ_of_not_dvd hdvd]
      exact ih hi

/-- `curr` of a level starts at the last spill of the level above. -/
theorem currHi_succ_eq (hi : i < kNumLevels - 1) (n : ℕ) :
    currHi n (i + 1) = mask n (levelHalf i) - levelHalf i - currOffset i :=
  (bounds_eq hi n).2

/-! ## The sizes of the ranges -/

/-- The range of `curr`, once the level has spilled. -/
theorem currSize_of_spilled (hi : i + 1 < kNumLevels - 1) (h : mask n (levelHalf (i + 1)) ≠ 0) :
    currHi n (i + 1) - currLo n (i + 1) =
      mask n (levelHalf i) - mask n (levelHalf (i + 1)) + levelHalf i := by
  have hle := mask_le_mask (v := n) (levelHalf_dvd_succ i)
  have hpos := Nat.le_of_dvd (Nat.pos_of_ne_zero h) (dvd_mask n (levelHalf (i + 1)))
  have hoffset := currOffset_le (i + 1)
  have hsucc : currOffset (i + 1) = currOffset i + 2 * levelHalf i := rfl
  rw [currHi_succ_eq (by omega), (bounds_eq hi n).1]
  omega

/-- The range of `curr`, before the level has spilled. -/
theorem currLo_of_not_spilled
    (h : ¬ (i ≠ kNumLevels - 1 ∧ mask n (levelHalf i) ≠ 0)) : currLo n i = 0 := by
  by_cases hlast : i = kNumLevels - 1
  · rw [hlast]
    exact (bounds_last n).1
  · have hmask : ¬ mask n (levelHalf i) ≠ 0 := fun hne => h ⟨hlast, hne⟩
    rw [mask_ne_zero_iff (levelHalf_pos _)] at hmask
    exact (bounds_of_lt (by omega)).1

/-- The range of `snap`. -/
theorem snapSize_eq (hi : i < kNumLevels - 1) (n : ℕ) :
    currLo n i - snapLo n i = if levelSize i ≤ n then levelHalf i else currLo n i := by
  have hoffset := currOffset_le i
  obtain ⟨hc, _⟩ := bounds_eq hi n
  rw [hc]
  split
  case isTrue h =>
    have hle : levelSize i ≤ mask n (levelHalf i) := by
      refine (le_mask_iff ?_).mpr h
      rw [levelSize_eq]
      exact Nat.dvd_mul_left _ _
    rw [levelSize_eq] at hle
    omega
  case isFalse h =>
    have hdiv : n / levelHalf i < 2 := by
      rw [levelSize_eq] at h
      exact Nat.div_lt_of_lt_mul (by omega)
    have hle : mask n (levelHalf i) ≤ 1 * levelHalf i :=
      Nat.mul_le_mul_right _ (by omega)
    omega

/-- The loop adds up the ranges of the levels before. -/
theorem sizeBelow_eq (h : ∀ l < level, sizeOfCurr n l = currHi n l - currLo n l ∧
      sizeOfSnap n l = currLo n l - snapLo n l) :
    sizeBelow n level = n - currHi n level := by
  induction level with
  | zero =>
    rw [sizeBelow]
    exact (Nat.sub_self n).symm
  | succ l ih =>
    have hbelow := ih fun l' hl' => h l' (by omega)
    obtain ⟨_, hsnap⟩ := h l (Nat.lt_succ_self l)
    obtain ⟨_, _⟩ := snapLo_le_currLo_le n l
    have h3 := currHi_le n l
    have hhi : currHi n (l + 1) = snapLo n l := rfl
    rw [sizeBelow, hsnap]
    omega

theorem previousRelevantLedger_succ (n i : ℕ) :
    previousRelevantLedger n (i + 1) = mask (n - 1) (levelHalf i) := by
  have hsize : ∀ j, levelHalf j ∣ levelSize j := by
    intro j
    rw [levelSize_eq]
    exact Nat.dvd_mul_left _ _
  have h1 := mask_le_mask (v := n - 1) (hsize i)
  have h2 := mask_le_mask (v := n - 1) (levelHalf_dvd_succ i)
  have h3 := mask_le_mask (v := n - 1) ((levelHalf_dvd_succ i).trans (hsize (i + 1)))
  rw [previousRelevantLedger, Nat.add_sub_cancel, max_eq_left h1, max_eq_left]
  exact max_le h2 h3

/-- A number is rounded to itself by one of two units if and only if it is by the
finer one. -/
theorem mask_eq_or_iff (n i : ℕ) :
    mask n (levelHalf i) = n ∨ mask n (levelSize i) = n ↔ levelHalf i ∣ n := by
  rw [eq_comm, eq_mask_iff, eq_comm, eq_mask_iff]
  refine ⟨fun h => h.elim id fun h => ?_, .inl⟩
  rw [levelSize_eq] at h
  exact (Nat.dvd_mul_left _ _).trans h

theorem sizeOfCurr_zero (hn : 0 < n) : sizeOfCurr n 0 = currHi n 0 - currLo n 0 := by
  have hhi : currHi n 0 = n := rfl
  have hlo : currLo n 0 = n / 2 * 2 - 1 := (bounds_eq (by decide) n).1
  rw [sizeOfCurr, if_pos rfl, hhi]
  split <;> omega

/-- The size of `curr` below the first level, given the sizes above. -/
theorem sizeOfCurr_succ (hi : i + 1 < kNumLevels) (hn : 0 < n)
    (hbelow : ∀ n, 0 < n → sizeBelow n (i + 1) = n - currHi n (i + 1)) :
    sizeOfCurr n (i + 1) = currHi n (i + 1) - currLo n (i + 1) := by
  induction n using Nat.strong_induction_on with
  | _ n ih =>
    rw [sizeOfCurr, if_neg (Nat.succ_ne_zero i)]
    split
    case isTrue h =>
      have hlevel : i + 1 < kNumLevels - 1 := by omega
      have hdelta : 2 ^ (2 * (i + 1) - 1) = levelHalf i := (levelHalf_eq i).symm
      simp only [mask_eq_or_iff, Nat.add_sub_cancel, previousRelevantLedger_succ]
      rw [currSize_of_spilled hlevel h.2]
      by_cases hspill : levelHalf (i + 1) ∣ n
      · rw [if_pos hspill, mask_of_dvd hspill, mask_of_dvd ((levelHalf_dvd_succ i).trans hspill)]
        omega
      · -- between two spills: one more merge, or the same as after the last one
        obtain ⟨n, rfl⟩ := Nat.exists_eq_succ_of_ne_zero hn.ne'
        have hmask := mask_succ_of_not_dvd hspill
        have hcoarse := mask_mask (v := n) (levelHalf_dvd_succ i)
        have hle := mask_le_mask (v := n) (levelHalf_dvd_succ i)
        have hprev : mask (mask n (levelHalf i)) (levelHalf (i + 1)) ≠ 0 := by
          rw [hcoarse, ← hmask]
          exact h.2
        have hsize := ih (mask n (levelHalf i)) (Nat.lt_succ_of_le (mask_le _ _))
          (pos_of_mask_ne_zero hprev)
        rw [currSize_of_spilled hlevel hprev, mask_of_dvd (dvd_mask _ _), hcoarse] at hsize
        rw [if_neg hspill, Nat.succ_sub_one, hsize, hmask]
        by_cases hmerge : levelHalf i ∣ n + 1
        · have hfine := mask_succ_of_dvd hmerge
          rw [if_pos hmerge, mask_of_dvd hmerge]
          omega
        · rw [if_neg hmerge, mask_succ_of_not_dvd hmerge]
    case isFalse h =>
      have hle := currHi_le n (i + 1)
      rw [hbelow n hn, currLo_of_not_spilled h]
      omega

/-- The size of `snap`, given the sizes before. -/
theorem sizeOfSnap_of_below (hi : i < kNumLevels) (hbelow : sizeBelow n i = n - currHi n i)
    (hcurr : sizeOfCurr n i = currHi n i - currLo n i) :
    sizeOfSnap n i = currLo n i - snapLo n i := by
  rw [sizeOfSnap]
  by_cases hlast : i = kNumLevels - 1
  · rw [if_pos hlast, hlast, (bounds_last n).1, (bounds_last n).2]
  · have hle := currHi_le n i
    have hle' := (snapLo_le_currLo_le n i).2
    rw [if_neg hlast, snapSize_eq (by omega)]
    simp only [mask_ne_zero_iff (levelSize_pos i)]
    split <;> omega

/-- The sizes that the code computes are those of the ranges. -/
theorem sizes_eq (hlevel : level < kNumLevels) (hn : 0 < n) :
    sizeOfCurr n level = currHi n level - currLo n level ∧
      sizeOfSnap n level = currLo n level - snapLo n level := by
  induction level using Nat.strong_induction_on generalizing n with
  | _ level ih =>
    have hbelow : ∀ n, 0 < n → sizeBelow n level = n - currHi n level :=
      fun n hn => sizeBelow_eq fun l hl => ih l hl (by omega) hn
    have hcurr : sizeOfCurr n level = currHi n level - currLo n level := by
      cases level with
      | zero => exact sizeOfCurr_zero hn
      | succ i => exact sizeOfCurr_succ hlevel hn hbelow
    exact ⟨hcurr, sizeOfSnap_of_below hlevel (hbelow n hn) hcurr⟩

/-- The oldest ledger of `curr`, if it stands for any. -/
theorem oldestLedgerInCurr_eq (hlevel : level < kNumLevels) (hn : 0 < n) :
    oldestLedgerInCurr n level =
      if currLo n level < currHi n level then currLo n level + 1 else uint32Max := by
  have hbelow : sizeBelow n level = n - currHi n level :=
    sizeBelow_eq fun l hl => sizes_eq (by omega) hn
  have hle := currHi_le n level
  rw [oldestLedgerInCurr, (sizes_eq hlevel hn).1]
  split <;> split <;> omega

/-- The oldest ledger of `snap`, if it stands for any. -/
theorem oldestLedgerInSnap_eq (hlevel : level < kNumLevels) (hn : 0 < n) :
    oldestLedgerInSnap n level =
      if snapLo n level < currLo n level then snapLo n level + 1 else uint32Max := by
  have hbelow : sizeBelow n (level + 1) = n - currHi n (level + 1) :=
    sizeBelow_eq fun l hl => sizes_eq (by omega) hn
  have hhi : currHi n (level + 1) = snapLo n level := rfl
  have hle := currHi_le n (level + 1)
  rw [oldestLedgerInSnap, (sizes_eq hlevel hn).2, hbelow]
  split <;> split <;> omega

/-- After any batches, `snap` and `curr` of a level stand for adjacent ranges of ledgers, of the
sizes and from the oldest ledgers that the code computes for them. -/
theorem buckets_hold_sizes {Hash : Type} [DecidableEq Hash] (env : BucketHasher Hash)
    (batches : ℕ → { b : Batch // b.Distinct }) (m : ℕ) :
    let n := m + 1
    let log := logOf (batches · |>.1)
    ∃ bl, addBatches env (batches · |>.1) n = .ok bl ∧ ∀ i < kNumLevels, ∃ lo mid,
      log.Represents Gone lo mid n False (bl.mLevels i).mSnap.find ∧ mid = lo + sizeOfSnap n i ∧
      log.Represents Gone mid (mid + sizeOfCurr n i) n (i = kNumLevels - 1)
        (bl.mLevels i).mCurr.find ∧
      (sizeOfSnap n i ≠ 0 → oldestLedgerInSnap n i = lo + 1) ∧
      (sizeOfCurr n i ≠ 0 → oldestLedgerInCurr n i = mid + 1) := by
  intro n log
  obtain ⟨bl, hbl, h⟩ := addBatches_views env (batches · |>.1) n
  refine ⟨bl, hbl, fun i hi => ⟨snapLo n i, currLo n i, ?_⟩⟩
  have hn : 0 < n := m.succ_pos
  have hinv : Inv log n _ := inv_viewAfter fun i _ _ => (batches i).2
  obtain ⟨hlo, hhi⟩ := snapLo_le_currLo_le n i
  obtain ⟨hcurr, hsnap⟩ := sizes_eq hi hn
  rw [(h.level i hi).snap, (h.level i hi).curr, oldestLedgerInSnap_eq hi hn,
    oldestLedgerInCurr_eq hi hn, hcurr, hsnap, Nat.add_sub_cancel' hhi]
  exact ⟨hinv.snap i hi, by omega, hinv.curr i hi, fun _ => if_pos (by omega),
    fun _ => if_pos (by omega)⟩

/-! ## Which ledgers a bucket holds -/

/-- Each batch has a live entry that no other batch mentions. -/
def Tagged (batches : ℕ → Batch) (tag : ℕ → LedgerKey) : Prop :=
  ∀ l, (∃ e, (batches l).mention (tag l) = some (.LIVEENTRY e)) ∧
    ∀ l', l' ≠ l → (batches l').mention (tag l) = none

/-- The ledgers whose entries the bucket has -/
def heldIn (tag : ℕ → LedgerKey) (b : Bucket) : Set ℕ := {l | (b.find (tag l)).isSome}

/-- A bucket holds the ledgers of the range that it represents. -/
theorem heldIn_eq {batches : ℕ → Batch} {tag : ℕ → LedgerKey} (htag : Tagged batches tag)
    {lo hi : ℕ} {bottom : Prop} {b : Bucket}
    (h : (logOf batches).Represents Gone lo hi n bottom b.find) :
    heldIn tag b = Set.Ioc lo hi := by
  ext l
  obtain ⟨⟨e, he⟩, hother⟩ := htag l
  constructor
  · intro hl
    obtain ⟨v, hv⟩ := Option.isSome_iff_exists.mp hl
    obtain ⟨m, hlo, hhi, hm⟩ := h.mentioned _ v hv
    by_cases hml : m = l
    · exact hml ▸ ⟨hlo, hhi⟩
    · exact absurd ((hother m hml).symm.trans hm) (by simp)
  · rintro ⟨hlo, hhi⟩
    have hlast : (logOf batches).lastIn lo (tag l) hi = some (l, .LIVEENTRY e) :=
      BatchLog.lastIn_eq_some_iff.mpr ⟨hlo, hhi, he, fun i hi _ => hother i hi.ne'⟩
    rcases h.complete _ _ _ hlast with hfind | ⟨i, hi, -, hmention⟩ | ⟨-, hgone⟩
    · exact Option.isSome_iff_exists.mpr ⟨_, hfind⟩
    · exact absurd (hother i (by omega)) hmention
    · cases hgone

theorem sum_sizes (n level : ℕ) :
    ∑ i ∈ Finset.range level, (sizeOfCurr n i + sizeOfSnap n i) = sizeBelow n level := by
  induction level with
  | zero => rw [Finset.sum_range_zero, sizeBelow]
  | succ l ih => rw [Finset.sum_range_succ, ih, sizeBelow]

/-- After the batches of `n` ledgers the buckets, from `curr` and `snap` of level 0 to those of the
last level, hold adjacent intervals of ledgers from `n` down to 1, which have the sizes and the
oldest ledgers that the code computes. -/
theorem buckets_hold_intervals {Hash : Type} [DecidableEq Hash] (env : BucketHasher Hash)
    (batches : ℕ → { b : Batch // b.Distinct }) (tag : ℕ → LedgerKey)
    (htag : Tagged (batches · |>.1) tag) (n : ℕ) (hn : 0 < n) :
    ∃ bl, addBatches env (batches · |>.1) n = .ok bl ∧ ∃ top : ℕ → ℕ,
      top 0 = n ∧ top kNumLevels = 0 ∧
      (∀ i < kNumLevels, ∃ mid, mid + sizeOfCurr n i = top i ∧ top (i + 1) + sizeOfSnap n i = mid ∧
        heldIn tag (bl.mLevels i).mCurr = Set.Ioc mid (top i) ∧
        heldIn tag (bl.mLevels i).mSnap = Set.Ioc (top (i + 1)) mid ∧
        oldestLedgerInCurr n i = (if sizeOfCurr n i = 0 then uint32Max else mid + 1) ∧
        oldestLedgerInSnap n i = if sizeOfSnap n i = 0 then uint32Max else top (i + 1) + 1) ∧
      ∑ i ∈ Finset.range kNumLevels, (sizeOfCurr n i + sizeOfSnap n i) = n := by
  obtain ⟨bl, hbl, h⟩ := addBatches_views env (batches · |>.1) n
  have hinv : Inv (logOf (batches · |>.1)) n _ := inv_viewAfter fun i _ _ => (batches i).2
  have hlast : currHi n kNumLevels = 0 := (bounds_last n).2
  refine ⟨bl, hbl, currHi n, rfl, hlast, fun i hi => ⟨currLo n i, ?_⟩, ?_⟩
  · obtain ⟨hlo, hhi⟩ := snapLo_le_currLo_le n i
    have htop : currHi n (i + 1) = snapLo n i := rfl
    obtain ⟨hcurr, hsnap⟩ := sizes_eq hi hn
    rw [(h.level i hi).snap, (h.level i hi).curr, oldestLedgerInSnap_eq hi hn,
      oldestLedgerInCurr_eq hi hn, hcurr, hsnap, htop, heldIn_eq htag (hinv.curr i hi),
      heldIn_eq htag (hinv.snap i hi)]
    refine ⟨by omega, by omega, rfl, rfl, ?_, ?_⟩
    · split <;> split <;> omega
    · split <;> split <;> omega
  · rw [sum_sizes, sizeBelow_eq fun l hl => sizes_eq hl hn, hlast, Nat.sub_zero]

/-- Every ledger makes an offer. -/
def offerBatch (l : ℕ) : { b : Batch // b.Distinct } :=
  ⟨⟨[⟨l, .offer ⟨1, l, .native, .native, 1, ⟨1, 1⟩, 0⟩⟩], []⟩, List.nodup_singleton _⟩

theorem offerBatch_tagged : Tagged (offerBatch · |>.1) (.offer 1) := by
  refine fun l => ⟨⟨⟨l, .offer ⟨1, l, .native, .native, 1, ⟨1, 1⟩, 0⟩⟩, ?_⟩, fun l' hne => ?_⟩
  · simp [offerBatch, Batch.mention, LedgerEntryKey, LedgerEntryData.key]
  · simp [offerBatch, Batch.mention, LedgerEntryKey, LedgerEntryData.key, hne]

theorem buckets_hold_intervals_offers :
    ∃ bl, addBatches contentHasher (offerBatch · |>.1) 6 = .ok bl ∧
      heldIn (.offer 1) (bl.mLevels 0).mCurr = Set.Ioc 5 6 := by
  obtain ⟨bl, hbl, top, htop, -, hlevels, -⟩ :=
    buckets_hold_intervals contentHasher offerBatch _ offerBatch_tagged 6 (by decide)
  obtain ⟨mid, hmid, -, hcurr, -⟩ := hlevels 0 (by decide)
  have hsize : sizeOfCurr 6 0 = 1 := by
    rw [sizeOfCurr]
    rfl
  rw [htop, hsize] at hmid
  obtain rfl : mid = 5 := by omega
  exact ⟨bl, hbl, htop ▸ hcurr⟩

/-! ## Empty ranges -/

/-- The range of `snap` is empty only before the first spill of its level. -/
theorem currLo_eq_zero_of_le (hi : i < kNumLevels) (h : currLo n i ≤ snapLo n i) :
    currLo n i = 0 := by
  by_cases hlast : i = kNumLevels - 1
  · rw [hlast]
    exact (bounds_last n).1
  · have hsize := snapSize_eq (show i < kNumLevels - 1 by omega) n
    have hpos := levelHalf_pos i
    split at hsize <;> omega

/-- The range of `curr` is empty only before it gets its first ledger. -/
theorem currHi_eq_zero_of_le (hi : i < kNumLevels) (h : currHi n i ≤ currLo n i) :
    currHi n i = 0 := by
  rcases Nat.eq_zero_or_pos n with rfl | hn
  · exact Nat.le_zero.mp (currHi_le 0 i)
  · cases i with
    | zero =>
      have hsize := sizeOfCurr_zero hn
      rw [sizeOfCurr, if_pos rfl] at hsize
      split at hsize <;> omega
    | succ i =>
      by_cases hspilled : i + 1 ≠ kNumLevels - 1 ∧ mask n (levelHalf (i + 1)) ≠ 0
      · have hsize := currSize_of_spilled (by omega) hspilled.2
        have hpos := levelHalf_pos i
        omega
      · have hlo := currLo_of_not_spilled hspilled
        omega

end EssaCore.Buckets
