import Mathlib

/-!
# Enumerators of bit sets, and the permutation enumerator

`util/BitsetEnumerator.cpp`. An enumerator goes through some bit sets; `PermutationEnumerator`
goes through those with a given number of bits. It moves from one to the next by arithmetic on the
number that stands for the bit set: the lowest block of ones gives its top bit to the place above,
and the rest of the block falls to the bottom.

- `BitsetEnumerator`, `Yields` — an enumerator, and what it goes through;
- `permutation` — the permutation enumerator;
- `IsNext`, `toNat_next` — what one step does to the number;
- `masks` — the numbers with `k` of `n` bits, in order: the list that the steps follow
  (`isChain_masks`), as many as there should be (`length_masks`, `mem_masks`);
- `permutation_yields` — the whole enumeration.
-/

open List

namespace EssaCore.Util

/-- `std::bitset<64>` -/
abbrev Bitset := BitVec 64

/-- `BitsetEnumerator`, as operations on states: `reset`, `operator bool`, `operator*`,
`operator++` -/
structure BitsetEnumerator (σ : Type) where
  reset : σ → σ
  live : σ → Bool
  bits : σ → Bitset
  next : σ → σ

/-- From the state on, exactly these bit sets are yielded. -/
def Yields {σ : Type} (I : BitsetEnumerator σ) : σ → List Bitset → Prop
  | s, [] => I.live s = false
  | s, x :: l => I.live s = true ∧ I.bits s = x ∧ Yields I (I.next s) l

/-! ## The code -/

/-- `PermutationEnumerator` -/
structure PermutationEnumerator where
  mCur : UInt64
  mSet : Nat
  mTot : Nat

/-- The loop of the constructor and of `reset`: `mCur <<= 1; mCur |= 1` -/
def shiftIn : Nat → UInt64 → UInt64
  | 0, mCur => mCur
  | nSet + 1, mCur => shiftIn nSet (mCur <<< 1 ||| 1)

/-- `uneg` -/
def uneg (n : UInt64) : UInt64 := ~~~n + 1

/-- `PermutationEnumerator` (69–118); the constructor leaves it as `reset` does. -/
def permutation : BitsetEnumerator PermutationEnumerator where
  reset e := { e with mCur := shiftIn e.mSet 0 }
  live e := e.mCur &&& ~~~((1 <<< UInt64.ofNat e.mTot) - 1) == 0
  bits e := e.mCur.toBitVec
  next e :=
    let t := (e.mCur ||| (e.mCur - 1)) + 1
    { e with mCur := t ||| ((((t &&& uneg t) / (e.mCur &&& uneg e.mCur)) >>> 1) - 1) }

/-! ## The next number with as many bits -/

/-- The lowest bit of `x` is moved up past the ones that follow it, and these go to the bottom. -/
def IsNext (x y : Nat) : Prop :=
  ∃ s s' a b, s < s' ∧ x = 2 ^ s * (2 * a + 1) ∧ x + 2 ^ s = 2 ^ s' * (2 * b + 1) ∧
    y = 2 ^ s' * (2 * b + 1) + (2 ^ (s' - s - 1) - 1)

theorem or_pred (s a : Nat) :
    2 ^ s * (2 * a + 1) ||| (2 ^ s * (2 * a + 1) - 1) = 2 ^ s * (2 * a + 1) + (2 ^ s - 1) := by
  have hpred : 2 ^ s * (2 * a + 1) - 1 = 2 ^ s * (2 * a) + (2 ^ s - 1) := by
    have := Nat.two_pow_pos s
    rw [Nat.mul_add]
    omega
  have hlt : 2 ^ s - 1 < 2 ^ s := Nat.sub_lt (Nat.two_pow_pos s) Nat.one_pos
  rw [hpred]
  refine Nat.eq_of_testBit_eq fun i => ?_
  rw [Nat.testBit_or, Nat.testBit_two_pow_mul, Nat.testBit_two_pow_mul_add _ hlt,
    Nat.testBit_two_pow_mul_add _ hlt, Nat.testBit_two_pow_sub_one]
  by_cases hi : i < s
  · simp [hi]
  · obtain ⟨k, rfl⟩ := Nat.exists_eq_add_of_le (not_lt.mp hi)
    cases k with
    | zero => simp
    | succ k => simp [Nat.testBit_succ, Nat.mul_add_div]

/-- `n & uneg(n)` is the lowest bit. -/
theorem toNat_and_uneg {n : UInt64} {s a : Nat} (h : n.toNat = 2 ^ s * (2 * a + 1)) :
    (n &&& uneg n).toNat = 2 ^ s := by
  have hbit (i : Nat) : n.toBitVec.getLsbD i =
      (decide (i ≥ s) && (2 * a + 1).testBit (i - s)) := by
    rw [← BitVec.testBit_toNat]
    show n.toNat.testBit i = _
    rw [h, Nat.testBit_two_pow_mul]
  have hs : n.toBitVec.getLsbD s = true := by simp [hbit]
  have hlow {i : Nat} (hi : i < s) : n.toBitVec.getLsbD i = false := by
    simp [hbit, not_le.mpr hi]
  refine Nat.eq_of_testBit_eq fun i => ?_
  rw [uneg, ← UInt64.neg_eq_not_add]
  show (n.toBitVec &&& -n.toBitVec).toNat.testBit i = _
  rw [BitVec.testBit_toNat, BitVec.getLsbD_and, BitVec.getLsbD_neg, Nat.testBit_two_pow]
  rcases lt_trichotomy i s with hi | rfl | hi
  · simp [hlow hi, hi.ne']
  · have hnone : ¬ ∃ j < i, n.toBitVec.getLsbD j = true := by
      rintro ⟨j, hj, hbit⟩
      simp [hlow hj] at hbit
    simp [hs, hnone]
  · by_cases hn : n.toBitVec.getLsbD i = true
    · have hlt := BitVec.lt_of_getLsbD hn
      simp [hlt, hi.ne, show ∃ j < i, n.toBitVec.getLsbD j = true from ⟨s, hi, hs⟩]
    · simp [Bool.eq_false_iff.mpr hn, hi.ne]

theorem toNat_next {e : PermutationEnumerator} {y : Nat} (h : IsNext e.mCur.toNat y)
    (hy : y < 2 ^ 64) : (permutation.next e).mCur.toNat = y := by
  obtain ⟨s, s', a, b, hs, hx, hsum, rfl⟩ := h
  have hpos := Nat.two_pow_pos s
  have hpos' := Nat.two_pow_pos (s' - s - 1)
  -- `t` is `mCur` plus its lowest bit
  have ht : ((e.mCur ||| (e.mCur - 1)) + 1).toNat = 2 ^ s' * (2 * b + 1) := by
    have hone : 1 ≤ e.mCur.toNat := by
      rw [hx]
      exact Nat.mul_pos hpos (Nat.succ_pos _)
    rw [UInt64.toNat_add, UInt64.toNat_or, UInt64.toNat_sub_of_le _ _ hone]
    show ((e.mCur.toNat ||| (e.mCur.toNat - 1)) + 1) % 2 ^ 64 = _
    rw [hx, or_pred, ← hx, Nat.mod_eq_of_lt] <;> omega
  have hquot : ((((e.mCur ||| (e.mCur - 1)) + 1 &&& uneg ((e.mCur ||| (e.mCur - 1)) + 1)) /
      (e.mCur &&& uneg e.mCur)) >>> 1).toNat = 2 ^ (s' - s - 1) := by
    rw [UInt64.toNat_shiftRight, UInt64.toNat_div, toNat_and_uneg ht, toNat_and_uneg hx,
      Nat.pow_div hs.le two_pos]
    show 2 ^ (s' - s) >>> 1 = _
    rw [Nat.shiftRight_eq_div_pow, Nat.pow_div (by omega) two_pos]
  show (_ ||| (_ - 1) : UInt64).toNat = _
  rw [UInt64.toNat_or, UInt64.toNat_sub_of_le _ _
    (UInt64.le_iff_toNat_le.mpr (by rw [hquot]; exact hpos')), ht, hquot,
    Nat.two_pow_add_eq_or_of_lt]
  · rfl
  · have : 2 ^ (s' - s - 1) ≤ 2 ^ s' := Nat.pow_le_pow_right two_pos (by omega)
    omega

/-- The last number of `k` bits is followed by one that is larger than all of them. -/
theorem isNext_last (r k : Nat) :
    IsNext (2 ^ r * (2 ^ (k + 1) - 1)) (2 ^ (r + k + 1) + (2 ^ k - 1)) := by
  have hk := Nat.two_pow_pos k
  refine ⟨r, r + k + 1, 2 ^ k - 1, 0, by omega, ?_, ?_, ?_⟩
  · congr 1
    omega
  · rw [← Nat.mul_succ, Nat.succ_eq_add_one, Nat.sub_add_cancel (Nat.two_pow_pos _), ← Nat.pow_add]
    simp [Nat.add_assoc]
  · rw [show r + k + 1 - r - 1 = k by omega]
    simp

/-- Bits further up do not matter. -/
theorem IsNext.add {x y n : Nat} (h : IsNext x y) (hy : y < 2 ^ n) :
    IsNext (2 ^ n + x) (2 ^ n + y) := by
  obtain ⟨s, s', a, b, hs, rfl, hsum, rfl⟩ := h
  have hs' : s' < n := by
    refine (Nat.pow_lt_pow_iff_right one_lt_two).mp (lt_of_le_of_lt ?_ hy)
    exact (Nat.le_mul_of_pos_right _ (Nat.succ_pos _)).trans (Nat.le_add_right _ _)
  have hup {r c : Nat} (hr : r < n) :
      2 ^ n + 2 ^ r * (2 * c + 1) = 2 ^ r * (2 * (2 ^ (n - r - 1) + c) + 1) := by
    have hpow : 2 ^ n = 2 ^ r * (2 * 2 ^ (n - r - 1)) := by
      rw [← Nat.pow_succ', ← Nat.pow_add]
      congr 1
      omega
    rw [hpow]
    ring
  refine ⟨s, s', 2 ^ (n - s - 1) + a, 2 ^ (n - s' - 1) + b, hs, hup (hs.trans hs'), ?_, ?_⟩
  · rw [Nat.add_assoc, hsum, hup hs']
  · rw [← Nat.add_assoc, hup hs']

/-! ## All numbers with some bits -/

/-- The numbers of `n` bits of which `k` are set, in order. -/
def masks : Nat → Nat → List Nat
  | _, 0 => [0]
  | 0, _ + 1 => []
  | n + 1, k + 1 => masks n (k + 1) ++ (masks n k).map (2 ^ n + ·)

/-- How many of the low `n` bits are set. -/
def bitCount (n x : Nat) : Nat := (List.range n).countP x.testBit

theorem bitCount_succ (n x : Nat) :
    bitCount (n + 1) x = bitCount n x + if x.testBit n then 1 else 0 := by
  rw [bitCount, List.range_succ, countP_append, bitCount, countP_singleton]

theorem bitCount_of_lt {n x : Nat} (h : x < 2 ^ n) : bitCount (n + 1) x = bitCount n x := by
  rw [bitCount_succ, Nat.testBit_lt_two_pow h]
  rfl

theorem bitCount_add {n x : Nat} (h : x < 2 ^ n) :
    bitCount (n + 1) (2 ^ n + x) = bitCount n x + 1 := by
  have hlow : bitCount n (2 ^ n + x) = bitCount n x :=
    countP_congr fun i hi => by rw [Nat.testBit_two_pow_add_gt (List.mem_range.mp hi)]
  rw [bitCount_succ, hlow, Nat.testBit_two_pow_add_eq, Nat.testBit_lt_two_pow h]
  rfl

theorem mem_masks {n k x : Nat} : x ∈ masks n k ↔ x < 2 ^ n ∧ bitCount n x = k := by
  induction n generalizing k x with
  | zero => cases k <;> simp [masks, bitCount]
  | succ n ih =>
    have hzero : masks n 0 = [0] := by cases n <;> rfl
    rcases Nat.lt_or_ge x (2 ^ n) with hlt | hge
    · have hlt' : x < 2 ^ (n + 1) := hlt.trans (Nat.pow_lt_pow_succ one_lt_two)
      rw [bitCount_of_lt hlt]
      cases k with
      | zero => rw [masks, ← hzero, ih, and_iff_right hlt, and_iff_right hlt']
      | succ k =>
        rw [masks, mem_append, ih, and_iff_right hlt, and_iff_right hlt', or_iff_left]
        rintro h
        obtain ⟨y, -, rfl⟩ := mem_map.mp h
        omega
    · obtain ⟨y, rfl⟩ := Nat.exists_eq_add_of_le hge
      have hlt : 2 ^ n + y < 2 ^ (n + 1) ↔ y < 2 ^ n := by
        rw [Nat.pow_succ]
        omega
      rw [hlt]
      have hpos := Nat.two_pow_pos n
      cases k with
      | zero =>
        rw [masks, mem_singleton]
        refine ⟨fun h => by omega, fun h => ?_⟩
        rw [bitCount_add h.1] at h
        omega
      | succ k =>
        rw [masks, mem_append, ih, mem_map_of_injective (add_right_injective _), ih]
        have hnot : ¬ 2 ^ n + y < 2 ^ n := by omega
        rw [or_iff_right fun h => hnot h.1]
        refine and_congr_right fun hy => ?_
        rw [bitCount_add hy, Nat.succ_inj]

theorem length_masks (n k : Nat) : (masks n k).length = n.choose k := by
  induction n generalizing k with
  | zero => cases k <;> rfl
  | succ n ih =>
    cases k with
    | zero => simp [masks]
    | succ k => simp [masks, ih, Nat.choose_succ_succ, Nat.add_comm]

theorem pairwise_masks (n k : Nat) : (masks n k).Pairwise (· < ·) := by
  induction n generalizing k with
  | zero => cases k <;> simp [masks]
  | succ n ih =>
    cases k with
    | zero => simp [masks]
    | succ k =>
      refine pairwise_append.mpr ⟨ih _, pairwise_map.mpr ((ih k).imp (Nat.add_lt_add_left · _)), ?_⟩
      intro x hx y hy
      obtain ⟨z, -, rfl⟩ := mem_map.mp hy
      exact Nat.lt_add_right z (mem_masks.mp hx).1

theorem masks_eq_nil {n k : Nat} (h : n < k) : masks n k = [] := by
  rw [← length_eq_zero_iff, length_masks, Nat.choose_eq_zero_of_lt h]

theorem masks_ends {n k : Nat} (h : k ≤ n) : (masks n k).head? = some (2 ^ k - 1) ∧
    (masks n k).getLast? = some (2 ^ (n - k) * (2 ^ k - 1)) := by
  induction n generalizing k with
  | zero => simp [masks, Nat.le_zero.mp h]
  | succ n ih =>
    cases k with
    | zero => simp [masks]
    | succ k =>
      obtain ⟨hhead, hlast⟩ := ih (Nat.le_of_succ_le_succ h)
      have hpow : 2 ^ n = 2 ^ (n - k) * 2 ^ k := by rw [← Nat.pow_add]; congr 1; omega
      have hlast' : 2 ^ n + 2 ^ (n - k) * (2 ^ k - 1) =
          2 ^ (n + 1 - (k + 1)) * (2 ^ (k + 1) - 1) := by
        have hk := Nat.two_pow_pos k
        rw [Nat.add_sub_add_right, hpow, ← Nat.mul_add]
        congr 1
        omega
      simp only [masks, head?_append, getLast?_append, head?_map, getLast?_map, hhead, hlast]
      refine ⟨?_, by simp [hlast']⟩
      rcases Nat.lt_or_ge n (k + 1) with hlt | hle
      · obtain rfl : n = k := by omega
        rw [masks_eq_nil hlt]
        simp
        omega
      · simp [(ih hle).1]

theorem isChain_masks (n k : Nat) : (masks n k).IsChain IsNext := by
  induction n generalizing k with
  | zero => cases k <;> simp [masks]
  | succ n ih =>
    cases k with
    | zero => simp [masks]
    | succ k =>
      rw [masks, isChain_append, isChain_map]
      refine ⟨ih _, ?_, ?_⟩
      · -- the high bit does not matter
        refine (ih k).imp_of_mem_imp fun x y _ hy h => h.add (mem_masks.mp hy).1
      · intro x hx y hy
        rcases Nat.lt_or_ge n (k + 1) with hlt | hle
        · rw [masks_eq_nil hlt] at hx
          cases hx
        · rw [(masks_ends hle).2] at hx
          rw [head?_map, (masks_ends (Nat.le_of_succ_le hle)).1] at hy
          obtain rfl := Option.some.inj hx
          obtain rfl := Option.some.inj hy
          have hnext := isNext_last (n - (k + 1)) k
          rwa [show n - (k + 1) + k + 1 = n by omega] at hnext

/-! ## The enumerator -/

variable {k n : Nat}

theorem live_iff {e : PermutationEnumerator} (hn : e.mTot ≤ 63) :
    permutation.live e = true ↔ e.mCur.toNat < 2 ^ e.mTot := by
  have hlt : 2 ^ e.mTot < 2 ^ 64 := Nat.pow_lt_pow_right one_lt_two (by omega)
  have hshift : (1 <<< UInt64.ofNat e.mTot : UInt64).toNat = 2 ^ e.mTot := by
    rw [UInt64.toNat_shiftLeft, UInt64.toNat_ofNat_of_lt' (by show _ < 2 ^ 64; omega),
      Nat.mod_eq_of_lt (by omega : e.mTot < 64)]
    show 1 <<< e.mTot % 2 ^ 64 = _
    rw [Nat.one_shiftLeft, Nat.mod_eq_of_lt hlt]
  have hmask : ((1 <<< UInt64.ofNat e.mTot : UInt64) - 1).toNat = 2 ^ e.mTot - 1 := by
    rw [UInt64.toNat_sub_of_le, hshift]
    · rfl
    · rw [UInt64.le_iff_toNat_le, hshift]
      exact Nat.two_pow_pos _
  have hbit (i : Nat) (hi : i < 64) : (e.mCur &&& ~~~((1 <<< UInt64.ofNat e.mTot) - 1)
      ).toBitVec.getLsbD i = (e.mCur.toNat.testBit i && !decide (i < e.mTot)) := by
    show (e.mCur.toBitVec &&& ~~~ ((1 <<< UInt64.ofNat e.mTot) - 1 : UInt64).toBitVec).getLsbD i = _
    rw [BitVec.getLsbD_and, BitVec.getLsbD_not, ← BitVec.testBit_toNat, ← BitVec.testBit_toNat]
    show (e.mCur.toNat.testBit i && (decide (i < 64) &&
      !((1 <<< UInt64.ofNat e.mTot) - 1 : UInt64).toNat.testBit i)) = _
    rw [hmask, Nat.testBit_two_pow_sub_one, decide_eq_true hi, Bool.true_and]
  show (_ == (0 : UInt64)) = true ↔ _
  rw [beq_iff_eq]
  constructor
  · intro h
    refine Nat.lt_pow_two_of_testBit _ fun i hi => ?_
    by_cases hlt : i < 64
    · have hzero := hbit i hlt
      rw [h] at hzero
      simpa [not_lt.mpr hi] using hzero.symm
    · exact Nat.testBit_lt_two_pow (e.mCur.toNat_lt.trans_le
        (Nat.pow_le_pow_right two_pos (not_lt.mp hlt)))
  · intro h
    refine UInt64.toBitVec_inj.mp (BitVec.eq_of_getLsbD_eq fun i hi => ?_)
    rw [hbit i hi]
    by_cases hlt : i < e.mTot
    · simp [hlt]
    · simp [Nat.testBit_lt_two_pow (h.trans_le (Nat.pow_le_pow_right two_pos (not_lt.mp hlt)))]

theorem toNat_shiftIn (k : Nat) (x : UInt64) (h : 2 ^ k * (x.toNat + 1) ≤ 2 ^ 64) :
    (shiftIn k x).toNat = 2 ^ k * (x.toNat + 1) - 1 := by
  induction k generalizing x with
  | zero => simp [shiftIn]
  | succ k ih =>
    rw [Nat.pow_succ, Nat.mul_assoc] at h
    have hx : (x <<< 1 ||| 1).toNat = 2 * x.toNat + 1 := by
      have hlt : 2 * x.toNat < 2 ^ 64 := by
        have := Nat.le_mul_of_pos_left (2 * (x.toNat + 1)) (Nat.two_pow_pos k)
        omega
      rw [UInt64.toNat_or, UInt64.toNat_shiftLeft]
      show x.toNat <<< 1 % 2 ^ 64 ||| 1 = _
      rw [Nat.shiftLeft_eq, Nat.pow_one, Nat.mul_comm, Nat.mod_eq_of_lt hlt]
      exact (Nat.two_pow_add_eq_or_of_lt (i := 1) one_lt_two x.toNat).symm
    have hdouble : 2 * x.toNat + 1 + 1 = 2 * (x.toNat + 1) := by omega
    rw [shiftIn, ih, hx, hdouble, Nat.pow_succ, Nat.mul_assoc]
    rwa [hx, hdouble]

theorem yields_of_isChain : ∀ (l : List Nat) (e : PermutationEnumerator), e.mTot ≤ 63 →
    (e.mCur.toNat :: l).IsChain IsNext → (∀ y ∈ e.mCur.toNat :: l, y < 2 ^ e.mTot) →
    (∀ y ∈ (e.mCur.toNat :: l).getLast?, ∃ z, IsNext y z ∧ 2 ^ e.mTot ≤ z ∧ z < 2 ^ 64) →
    Yields permutation e ((e.mCur.toNat :: l).map (BitVec.ofNat 64)) := by
  intro l
  induction l with
  | nil =>
    intro e hn _ hlt hlast
    obtain ⟨z, hz, hge, hlt64⟩ := hlast _ rfl
    refine ⟨(live_iff hn).mpr (hlt _ mem_cons_self), by simp [permutation], ?_⟩
    refine Bool.eq_false_iff.mpr fun hlive => ?_
    have hlt' := (live_iff (e := permutation.next e) hn).mp hlive
    rw [toNat_next hz hlt64] at hlt'
    exact absurd hlt' (not_lt.mpr hge)
  | cons y l ih =>
    intro e hn hchain hlt hlast
    obtain ⟨hxy, hchain⟩ := isChain_cons_cons.mp hchain
    obtain ⟨hx, hlt⟩ := forall_mem_cons.mp hlt
    have hy : y < 2 ^ 64 := (hlt y mem_cons_self).trans (Nat.pow_lt_pow_right one_lt_two (by omega))
    refine ⟨(live_iff hn).mpr hx, by simp [permutation], ?_⟩
    have hrest := ih (permutation.next e) hn
    rw [toNat_next hxy hy] at hrest
    exact hrest hchain hlt fun z hz => hlast z (by rwa [getLast?_cons_cons])

/-- After a reset the masks are yielded, in order. -/
theorem yields_masks {e : PermutationEnumerator} (hpos : 1 ≤ e.mSet) (hle : e.mSet ≤ e.mTot)
    (hn : e.mTot ≤ 63) :
    Yields permutation (permutation.reset e) ((masks e.mTot e.mSet).map (BitVec.ofNat 64)) := by
  obtain ⟨hhead, hlast⟩ := masks_ends hle
  have hpow : 2 ^ e.mSet ≤ 2 ^ 63 := Nat.pow_le_pow_right two_pos (by omega)
  have hcur : (permutation.reset e).mCur.toNat = 2 ^ e.mSet - 1 := by
    show (shiftIn e.mSet 0).toNat = _
    rw [toNat_shiftIn] <;> simp
    omega
  obtain ⟨l, hl⟩ : ∃ l, masks e.mTot e.mSet = (permutation.reset e).mCur.toNat :: l := by
    rw [hcur]
    exact head?_eq_some_iff.mp hhead
  have hchain := isChain_masks e.mTot e.mSet
  rw [hl] at hchain hlast ⊢
  refine yields_of_isChain l _ hn hchain (fun y hy => (mem_masks.mp (hl ▸ hy)).1) fun y hy => ?_
  rw [hlast] at hy
  obtain rfl := Option.some.inj hy
  obtain ⟨k, hk⟩ := Nat.exists_eq_add_of_le' hpos
  have hnext := isNext_last (e.mTot - e.mSet) k
  rw [← hk, Nat.add_assoc, ← hk, Nat.sub_add_cancel hle] at hnext
  have hk' : 2 ^ k ≤ 2 ^ 62 := Nat.pow_le_pow_right two_pos (by omega)
  have htot : 2 ^ e.mTot ≤ 2 ^ 63 := Nat.pow_le_pow_right two_pos hn
  exact ⟨_, hnext, Nat.le_add_right _ _, by omega⟩

/-- `std::bitset::count` -/
def Bitset.count (b : Bitset) : Nat := bitCount 64 b.toNat

theorem bitCount_of_le {n m x : Nat} (h : x < 2 ^ n) (hnm : n ≤ m) :
    bitCount m x = bitCount n x := by
  induction m, hnm using Nat.le_induction with
  | base => rfl
  | succ m hnm ih =>
    rw [bitCount_of_lt (h.trans_le (Nat.pow_le_pow_right two_pos hnm)), ih]

/-- The bit sets with `nSet` of the lowest `nTotal` bits, each once and in increasing order, from
the start and again after each reset. -/
theorem permutation_yields (nSet nTotal : Nat) (hpos : 1 ≤ nSet) (hle : nSet ≤ nTotal)
    (hn : nTotal ≤ 63) : ∃ l : List Bitset,
      (∀ mCur, Yields permutation (permutation.reset ⟨mCur, nSet, nTotal⟩) l) ∧
      l.length = nTotal.choose nSet ∧ l.Pairwise (fun a b => a.toNat < b.toNat) ∧
      ∀ b, b ∈ l ↔ b.toNat < 2 ^ nTotal ∧ Bitset.count b = nSet := by
  have hlt {x : Nat} (hx : x < 2 ^ nTotal) : x < 2 ^ 64 :=
    hx.trans (Nat.pow_lt_pow_right one_lt_two (by omega))
  refine ⟨(masks nTotal nSet).map (BitVec.ofNat 64), fun mCur => yields_masks hpos hle hn, ?_, ?_,
    fun b => ?_⟩
  · rw [length_map, length_masks]
  · refine pairwise_map.mpr ((pairwise_masks nTotal nSet).imp_of_mem fun {x y} hx hy hxy => ?_)
    rwa [BitVec.toNat_ofNat, BitVec.toNat_ofNat, Nat.mod_eq_of_lt (hlt (mem_masks.mp hx).1),
      Nat.mod_eq_of_lt (hlt (mem_masks.mp hy).1)]
  · have hcount (hb : b.toNat < 2 ^ nTotal) : Bitset.count b = bitCount nTotal b.toNat :=
      bitCount_of_le hb (by omega)
    rw [mem_map]
    constructor
    · rintro ⟨x, hx, rfl⟩
      have hmem := mem_masks.mp hx
      have hx' : (BitVec.ofNat 64 x).toNat = x := by
        rw [BitVec.toNat_ofNat, Nat.mod_eq_of_lt (hlt hmem.1)]
      rw [hx'] at hcount ⊢
      exact ⟨hmem.1, (hcount hmem.1).trans hmem.2⟩
    · rintro ⟨hb, hbits⟩
      exact ⟨b.toNat, mem_masks.mpr ⟨hb, (hcount hb).symm.trans hbits⟩, BitVec.ofNat_toNat ..⟩

/-- Two of four bits -/
theorem permutation_yields_two_of_four : ∃ l : List Bitset,
    (∀ mCur, Yields permutation (permutation.reset ⟨mCur, 2, 4⟩) l) ∧ l.length = 6 ∧ 10 ∈ l := by
  obtain ⟨l, hyields, hlength, -, hmem⟩ :=
    permutation_yields 2 4 (by decide) (by decide) (by decide)
  exact ⟨l, hyields, hlength, (hmem 10).mpr (by decide)⟩

end EssaCore.Util
