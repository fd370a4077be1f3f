import Mathlib

/-!
# The range of ledgers to catch up with

`CatchupWork::makeCatchupRange` (`catchup/CatchupWork.cpp` 402–505) decides where catchup starts,
and whether it starts by applying buckets. Checkpoint ledgers come just before the multiples of
the checkpoint frequency (`history/HistoryManagerImpl.cpp` 93–113). Ledger numbers are `uint32_t`;
`u32` wraps what may leave the type.
-/

namespace EssaCore.Catchup

/-- `HistoryManagerImpl::nextCheckpointLedger` (106–113), for a checkpoint frequency -/
def nextCheckpointLedger (freq ledger : UInt32) : UInt32 :=
  if ledger = 0 then freq else (ledger + freq - 1) / freq * freq

/-- `HistoryManagerImpl::checkpointContainingLedger` (93–97) -/
def checkpointContainingLedger (freq ledger : UInt32) : UInt32 :=
  nextCheckpointLedger freq (ledger + 1) - 1

namespace CatchupRange

def u32 (n : Nat) : Nat := n % 2 ^ 32

structure LedgerRange where
  first : Nat
  last : Nat

structure CatchupConfiguration where
  toLedger : Nat
  count : Nat

section Code

variable (freq : Nat)

/-- The same between numbers -/
def checkpointContainingLedger (ledger : Nat) : Nat :=
  (Catchup.checkpointContainingLedger (.ofNat freq) (.ofNat ledger)).toNat

/-- `firstNotFinishedCheckpoint` (402–415) -/
def firstNotFinishedCheckpoint (lastClosedLedger : Nat) : Nat :=
  let result := checkpointContainingLedger freq lastClosedLedger
  if lastClosedLedger < result then result else u32 (result + freq)

/-- `firstNeededLedger` (423–430); `GENESIS_LEDGER_SEQ` is 1 -/
def firstNeededLedger (configuration : CatchupConfiguration) : Nat :=
  let neededCount := max configuration.count 1
  if configuration.toLedger > neededCount then configuration.toLedger - neededCount + 1 else 1

/-- `computeCatchupStart` (432–471) -/
def computeCatchupStart (smallestLedgerToApply smallestBucketApplyCheckpoint : Nat) : Bool × Nat :=
  let smallestCheckpointToApply := checkpointContainingLedger freq smallestLedgerToApply
  if smallestLedgerToApply = smallestCheckpointToApply then (true, smallestCheckpointToApply)
  else if smallestLedgerToApply < freq - 1 then (false, smallestLedgerToApply)
  else
    let smallestCheckpointToApply := u32 (smallestCheckpointToApply + (2 ^ 32 - freq))
    if smallestCheckpointToApply ≥ smallestBucketApplyCheckpoint then
      (true, smallestCheckpointToApply)
    else (false, smallestLedgerToApply)

/-- `makeCatchupRange` (474–505) with the constructor of `LedgerRange`; `none` if an assertion
fails -/
def makeCatchupRange (lastClosedLedger : Nat) (configuration : CatchupConfiguration) :
    Option (LedgerRange × Bool) :=
  if lastClosedLedger = 0 ∨ configuration.toLedger < lastClosedLedger ∨
      configuration.toLedger = 0 then none
  else
    let catchupStart := computeCatchupStart freq
      (max (firstNeededLedger configuration) lastClosedLedger)
      (firstNotFinishedCheckpoint freq lastClosedLedger)
    if catchupStart.2 = 0 ∨ configuration.toLedger < catchupStart.2 then none
    else some (⟨catchupStart.2, configuration.toLedger⟩,
      catchupStart.1 && decide (catchupStart.2 > u32 (lastClosedLedger + 1)))

end Code

variable {f lcl l s : Nat} {configuration : CatchupConfiguration}

/-! ## Checkpoints -/

/-- Two multiples are apart by the frequency. -/
theorem mul_gap {j k f : Nat} (h : j * f < k * f) : j * f + f ≤ k * f := by
  rw [← Nat.succ_mul]
  exact Nat.mul_le_mul_right f (Nat.lt_of_mul_lt_mul_right h)

/-- The checkpoint of a ledger is the next one, where the sum with the frequency does not wrap. -/
theorem checkpoint_spec (hf : 0 < f) (hl : l + f < 2 ^ 32) :
    ∃ k, checkpointContainingLedger f l + 1 = k * f ∧ l ≤ checkpointContainingLedger f l ∧
      checkpointContainingLedger f l < l + f := by
  have hle : (l + f) / f * f ≤ l + f := Nat.div_mul_le_self _ _
  have hlt : l + f < (l + f) / f * f + f := Nat.lt_div_mul_add hf
  have hcheckpoint : checkpointContainingLedger f l = (l + f) / f * f - 1 := by
    have hf' : (UInt32.ofNat f).toNat = f := UInt32.toNat_ofNat_of_lt (show f < 2 ^ 32 by omega)
    have hl' : (UInt32.ofNat l).toNat = l := UInt32.toNat_ofNat_of_lt (show l < 2 ^ 32 by omega)
    have hsum : (UInt32.ofNat l + 1 + UInt32.ofNat f - 1).toNat = l + f := by
      rw [UInt32.toNat_sub, UInt32.toNat_add, UInt32.toNat_add, hf', hl', UInt32.toNat_one]
      omega
    have hne : UInt32.ofNat l + 1 ≠ 0 := by
      rw [ne_eq, ← UInt32.toNat_inj, UInt32.toNat_add, hl', UInt32.toNat_one, UInt32.toNat_zero]
      omega
    rw [checkpointContainingLedger, Catchup.checkpointContainingLedger, nextCheckpointLedger,
      if_neg hne, UInt32.toNat_sub, UInt32.toNat_mul, UInt32.toNat_div, hsum, hf', UInt32.toNat_one]
    omega
  exact ⟨(l + f) / f, by omega, by omega, by omega⟩

theorem firstNotFinishedCheckpoint_spec (hf : 0 < f) (hl : lcl + f < 2 ^ 32) :
    ∃ k, firstNotFinishedCheckpoint f lcl + 1 = k * f ∧
      lcl < firstNotFinishedCheckpoint f lcl ∧ firstNotFinishedCheckpoint f lcl ≤ lcl + f := by
  obtain ⟨k, hk, _, _⟩ := checkpoint_spec hf hl
  unfold firstNotFinishedCheckpoint u32
  dsimp only
  split
  · exact ⟨k, hk, by omega, by omega⟩
  · exact ⟨k + 1, by rw [Nat.succ_mul]; omega, by omega, by omega⟩

/-! ## The start of catchup -/

/-- Catchup applies buckets at a checkpoint less than `f` before the ledger `s`, or begins with
`s`, whose checkpoint is at most `f` after the last closed ledger. -/
theorem computeCatchupStart_spec (hf : 2 ≤ f) (hs : s + f < 2 ^ 32) (hlcl : lcl ≤ s) :
    let start := computeCatchupStart f s (firstNotFinishedCheckpoint f lcl)
    lcl ≤ start.2 ∧ start.2 ≤ s ∧ (start.1 = true → (∃ k, start.2 + 1 = k * f) ∧ s < start.2 + f) ∧
      (start.1 = false → start.2 = s ∧ checkpointContainingLedger f s ≤ lcl + f) := by
  obtain ⟨k, hk, _, _⟩ := checkpoint_spec (by omega) hs
  obtain ⟨j, _, _, _⟩ :=
    firstNotFinishedCheckpoint_spec (show 0 < f by omega) (show lcl + f < 2 ^ 32 by omega)
  unfold computeCatchupStart u32
  dsimp only
  split
  · exact ⟨by omega, by omega, fun _ => ⟨⟨k, hk⟩, by omega⟩, nofun⟩
  split
  · -- before the first checkpoint
    refine ⟨hlcl, Nat.le_refl s, nofun, fun _ => ⟨rfl, ?_⟩⟩
    by_contra
    have := mul_gap (j := 1) (k := k) (f := f) (by omega)
    omega
  · split
    · refine ⟨by omega, by omega, fun _ => ⟨⟨k - 1, ?_⟩, by omega⟩, nofun⟩
      rw [Nat.sub_mul]
      omega
    · refine ⟨hlcl, Nat.le_refl s, nofun, fun _ => ⟨rfl, ?_⟩⟩
      by_contra
      have := mul_gap (j := j) (k := k) (f := f) (by omega)
      omega

/-- Catchup goes up to the ledger asked for. It applies buckets at a checkpoint beyond the ledger
after the last closed one, for the number of ledgers asked for and at most `f` more; or it starts
in a checkpoint that has or precedes the ledger after the last closed one. -/
theorem makeCatchupRange_correct (hf : 2 ≤ f) (hmax : f ≤ 2 ^ 31) (hlcl : 0 < lcl)
    (hle : lcl ≤ configuration.toLedger) (hto : configuration.toLedger < 2 ^ 31) :
    ∃ range applyBuckets, makeCatchupRange f lcl configuration = some (range, applyBuckets) ∧
      range.last = configuration.toLedger ∧ lcl ≤ range.first ∧
      (applyBuckets = true → (∃ k, range.first + 1 = k * f) ∧ lcl + 1 < range.first ∧
        max configuration.count 1 ≤ range.last - range.first + 1 ∧
        range.last - range.first + 1 ≤ max configuration.count 1 + f) ∧
      (applyBuckets = false → checkpointContainingLedger f range.first ≤ lcl + f ∧
        range.last - lcl ≤ max configuration.count 1 + f) := by
  generalize hc : max configuration.count 1 = c
  unfold makeCatchupRange
  rw [if_neg (by omega)]
  -- the smallest ledger to apply leaves as many ledgers as are needed
  generalize hs : max (firstNeededLedger configuration) lcl = s
  have hneeded : lcl ≤ s ∧ s ≤ configuration.toLedger ∧ configuration.toLedger < s + c ∧
      (lcl < s → configuration.toLedger + 1 = s + c) := by
    unfold firstNeededLedger at hs
    dsimp only at hs
    split at hs <;> omega
  obtain ⟨hfirst, _, hspec⟩ := computeCatchupStart_spec hf (by omega) hneeded.1
  generalize computeCatchupStart f s (firstNotFinishedCheckpoint f lcl) = start at *
  obtain ⟨applies, first⟩ := start
  dsimp only at *
  obtain ⟨-, -, _, _⟩ := checkpoint_spec (f := f) (l := first) (by omega)
    (by omega)
  rw [if_neg (by omega), u32, Nat.mod_eq_of_lt (by omega)]
  refine ⟨_, _, rfl, rfl, hfirst, fun h => ?_, fun h => ?_⟩ <;> dsimp only
  · obtain ⟨happlies, hbeyond⟩ := Bool.and_eq_true_iff.mp h
    obtain ⟨hmultiple, _⟩ := hspec.1 happlies
    have := of_decide_eq_true hbeyond
    exact ⟨hmultiple, by omega, by omega, by omega⟩
  · cases applies with
    | true =>
      have := (hspec.1 rfl).2
      have : ¬ first > lcl + 1 := of_decide_eq_false h
      exact ⟨by omega, by omega⟩
    | false =>
      obtain ⟨rfl, hspec⟩ := hspec.2 rfl
      exact ⟨hspec, by omega⟩

/-- Ten ledgers up to 1000, from ledger 500: buckets are applied at 959. -/
theorem makeCatchupRange_correct_buckets :
    ∃ range applyBuckets, makeCatchupRange 64 500 ⟨1000, 10⟩ = some (range, applyBuckets) ∧
      range.last = 1000 ∧ (applyBuckets = true → 501 < range.first) := by
  obtain ⟨range, applies, h, hlast, -, hbuckets, -⟩ :=
    @makeCatchupRange_correct 64 500 ⟨1000, 10⟩ (by decide) (by decide) (by decide) (by decide)
      (by decide)
  exact ⟨range, applies, h, hlast, fun happlies => (hbuckets happlies).2.1⟩

/-- With a frequency beyond `2 ^ 31` the checkpoint of a ledger wraps around. -/
theorem makeCatchupRange_wraps : (makeCatchupRange 0x80000005 1 ⟨0x7fffffff, 1⟩).any (fun r =>
      !r.2 && decide (checkpointContainingLedger 0x80000005 r.1.first > 1 + 0x80000005)) =
      true := by
  decide +kernel

end CatchupRange

end EssaCore.Catchup
