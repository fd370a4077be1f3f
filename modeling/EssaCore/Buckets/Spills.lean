import EssaCore.Buckets.BucketList

/-!
# What a batch does to every level

`addBatch` works its way from the oldest level to the youngest, on levels that
it has changed before, and with merges that run in the background. This module
says what the result is, level by level, in terms of the list before the batch.

- `LevelView` — a level with the bucket that its merge will result in;
- `stepLevel`, `addBatchView` — the levels after a batch;
- `Views` — a bucket list whose merges are running, finished or absent;
- `addBatch_views` — `addBatch` fails no `assert` and computes `addBatchView`.
-/

open Function

namespace EssaCore.Buckets

open Ledger Lib Bucket FutureBucket BucketList

variable {Hash : Type}

/-! ## Levels by their buckets -/

/-- A level, with the result of the merge it waits for. -/
structure LevelView where
  curr : Bucket
  snap : Bucket
  next : Option Bucket

namespace LevelView

/-- `BucketLevel::snap` -/
def snapped (l : LevelView) : LevelView := { l with snap := l.curr, curr := .empty }

/-- The `curr` bucket after `BucketLevel::commit` -/
def committed (l : LevelView) : Bucket := l.next.getD l.curr

end LevelView

/-- The `curr` and `snap` buckets of the levels below `n`, the youngest first. -/
def bucketsBelow (v : ℕ → LevelView) (n : ℕ) : List Bucket :=
  (List.range n).flatMap fun i => [(v i).curr, (v i).snap]

/-- Level `i` before it takes what the level above spills. -/
def snapIfSpills (ledger : ℕ) (v : ℕ → LevelView) (i : ℕ) : LevelView :=
  if levelShouldSpill ledger i then (v i).snapped else v i

/-- A level after the loop of `addBatch`. -/
def stepLevel (ledger : ℕ) (v : ℕ → LevelView) : ℕ → LevelView
  | 0 => snapIfSpills ledger v 0
  | i + 1 =>
    if levelShouldSpill ledger i then
      let l := snapIfSpills ledger v (i + 1)
      { curr := l.committed
        snap := l.snap
        next := some (Bucket.merge
          (if levelShouldSpill (ledger + levelHalf i) (i + 1) then .empty
            else l.committed)
          (v i).curr (bucketsBelow v i) (keepDeadEntries (i + 1))) }
    else v (i + 1)

/-- A level after `addBatch`. -/
def addBatchView (ledger : ℕ) (v : ℕ → LevelView) (fresh : Bucket) (i : ℕ) :
    LevelView :=
  if i = 0 then
    { stepLevel ledger v 0 with
      curr := Bucket.merge (stepLevel ledger v 0).curr fresh [] (keepDeadEntries 0) }
  else stepLevel ledger v i

/-! ## The schedule -/

theorem levelSize_pos (i : ℕ) : 0 < levelSize i := Nat.two_pow_pos _

theorem levelHalf_eq (i : ℕ) : levelHalf i = 2 ^ (2 * i + 1) := by
  unfold levelHalf levelSize
  rw [show 2 * (i + 1) = (2 * i + 1) + 1 by ring]
  omega

theorem levelHalf_pos (i : ℕ) : 0 < levelHalf i := by
  rw [levelHalf_eq]
  exact Nat.two_pow_pos _

theorem levelSize_eq (i : ℕ) : levelSize i = 2 * levelHalf i := by
  rw [levelHalf_eq, ← Nat.pow_succ']
  congr 1

theorem levelHalf_succ (i : ℕ) : levelHalf (i + 1) = 4 * levelHalf i := by
  rw [levelHalf_eq, levelHalf_eq, show 2 * (i + 1) + 1 = (2 * i + 1) + 2 by ring]
  ring

theorem eq_mask_iff {v m : ℕ} : v = mask v m ↔ m ∣ v := by
  constructor
  · intro h
    exact ⟨v / m, h.trans (Nat.mul_comm _ _)⟩
  · intro h
    exact (Nat.div_mul_cancel h).symm

variable {ledger i : ℕ}

/-- A level spills when the ledger is a multiple of its half. -/
theorem levelShouldSpill_iff :
    levelShouldSpill ledger i = true ↔ i ≠ kNumLevels - 1 ∧ levelHalf i ∣ ledger := by
  unfold levelShouldSpill
  by_cases hi : i = kNumLevels - 1
  · simp [hi]
  · have hsize : levelSize i ∣ ledger → levelHalf i ∣ ledger := by
      rw [levelSize_eq]
      exact (Dvd.intro_left 2 rfl).trans
    rw [if_neg hi, decide_eq_true_iff, eq_mask_iff, eq_mask_iff]
    constructor
    · rintro (h | h)
      · exact ⟨hi, h⟩
      · exact ⟨hi, hsize h⟩
    · exact fun h => .inl h.2

/-- A level that spills is above another one that spills too. -/
theorem levelShouldSpill_of_succ (hi : i + 1 < kNumLevels)
    (h : levelShouldSpill ledger (i + 1) = true) : levelShouldSpill ledger i = true := by
  rw [levelShouldSpill_iff] at h ⊢
  refine ⟨by omega, ?_⟩
  rw [levelHalf_succ] at h
  exact (Dvd.intro_left 4 rfl).trans h.2

/-! ## Lists and views -/

/-- The merge of a level and its result. -/
inductive Pending (env : BucketHasher Hash) (keep : Bool) :
    FutureBucket Hash → Option Bucket → Prop where
  | clear : Pending env keep .clear none
  | inputs (curr snap : Bucket) (shadows : List Bucket) :
      Pending env keep (.ofInputs env curr snap shadows keep)
        (some (Bucket.merge curr snap shadows keep))
  | output (b : Bucket) : Pending env keep (.ofOutput env b) (some b)

/-- A level and its view. -/
structure LevelViews (env : BucketHasher Hash) (i : ℕ) (level : BucketLevel Hash)
    (l : LevelView) : Prop where
  curr : level.mCurr = l.curr
  snap : level.mSnap = l.snap
  next : Pending env (keepDeadEntries i) level.mNextCurr l.next

/-- A list and its view. Level 0 never waits for a merge. -/
structure Views (env : BucketHasher Hash) (bl : BucketList Hash)
    (v : ℕ → LevelView) : Prop where
  level : ∀ i < kNumLevels, LevelViews env i (bl.mLevels i) (v i)
  zero : (v 0).next = none

theorem Views.buckets {env : BucketHasher Hash} {bl : BucketList Hash}
    {v : ℕ → LevelView} (h : Views env bl v) {n : ℕ} (hn : n ≤ kNumLevels) :
    bl.buckets n = bucketsBelow v n := by
  refine List.flatMap_congr fun i hi => ?_
  have hv := h.level i (by have := List.mem_range.mp hi; omega)
  rw [hv.curr, hv.snap]

theorem bucketsBelow_succ (v : ℕ → LevelView) (n : ℕ) :
    bucketsBelow v (n + 1) = bucketsBelow v n ++ [(v n).curr, (v n).snap] := by
  simp [bucketsBelow, List.range_succ]

theorem dropLast_bucketsBelow (v : ℕ → LevelView) (n : ℕ) :
    (bucketsBelow v (n + 1)).dropLast.dropLast = bucketsBelow v n := by
  rw [bucketsBelow_succ, show bucketsBelow v n ++ [(v n).curr, (v n).snap] =
    (bucketsBelow v n ++ [(v n).curr]) ++ [(v n).snap] by simp]
  rw [List.dropLast_concat, List.dropLast_concat]

theorem two_le_length_bucketsBelow (v : ℕ → LevelView) (n : ℕ) :
    2 ≤ (bucketsBelow v (n + 1)).length := by
  rw [bucketsBelow_succ]
  simp

variable [DecidableEq Hash] {env : BucketHasher Hash}

/-! ## One level -/

namespace BucketLevel

variable {level : BucketLevel Hash} {l : LevelView} {i ledger : ℕ} {snap : Bucket}
  {shadows : List Bucket}

/-- `commit` takes the result of the merge, if there is one. -/
theorem commit_eq (h : LevelViews env i level l) :
    level.commit env = .ok { level with mCurr := l.committed, mNextCurr := .clear } := by
  obtain ⟨_, _, _⟩ := level
  obtain ⟨hcurr, -, hnext⟩ := h
  obtain ⟨_, _, _⟩ := l
  cases hcurr
  cases hnext with
  | clear => exact assert_bind rfl _
  | inputs curr' snap' shadows' =>
    exact (congrArg (· >>= _) resolve_ofInputs).trans rfl
  | output b =>
    exact (congrArg (· >>= _) resolve_ofOutput).trans rfl

/-- `prepare` starts the merge. -/
theorem prepare_eq (h : level.mNextCurr = .clear) :
    level.prepare env i ledger snap shadows = .ok { level with
      mNextCurr := .ofInputs env
        (if i ≠ 0 ∧ levelShouldSpill (ledger + levelHalf (i - 1)) i then .empty
          else level.mCurr)
        snap shadows (keepDeadEntries i) } := by
  refine (assert_bind (by rw [h]; rfl) _).trans ?_
  dsimp only
  rw [new_eq, ok_bind]
  exact assert_bind rfl _

end BucketLevel

/-! ## The loop -/

/-- The levels when the loop has come down to level `i`: the levels above it are
done, and level `i` is a snapshot if it has spilled. -/
def midLevels (ledger : ℕ) (v : ℕ → LevelView) (i j : ℕ) : LevelView :=
  if i < j then stepLevel ledger v j
  else if j = i then snapIfSpills ledger v j
  else v j

variable {v : ℕ → LevelView} {j : ℕ} {bl : BucketList Hash}

theorem midLevels_above (h : i < j) :
    midLevels ledger v i j = stepLevel ledger v j := if_pos h

theorem midLevels_self : midLevels ledger v i i = snapIfSpills ledger v i := by
  rw [midLevels, if_neg (lt_irrefl i), if_pos rfl]

theorem midLevels_below (h : j < i) : midLevels ledger v i j = v j := by
  rw [midLevels, if_neg (by omega), if_neg (by omega)]

/-- One round of the loop that spills level `i` into level `i + 1`. -/
theorem spill_views (hi : i + 1 < kNumLevels)
    (h : ∀ j < kNumLevels, LevelViews env j (bl.mLevels j) (midLevels ledger v (i + 1) j))
    (hspill : levelShouldSpill ledger i = true) :
    ∃ bl', bl.spill env ledger i (bucketsBelow v i) = .ok bl' ∧
      ∀ j < kNumLevels, LevelViews env j (bl'.mLevels j) (midLevels ledger v i j) := by
  have hlevel : LevelViews env i (bl.mLevels i) (v i) := by
    have hl := h i (by omega)
    rwa [midLevels_below (by omega)] at hl
  have hnext : LevelViews env (i + 1) (bl.mLevels (i + 1)) (snapIfSpills ledger v (i + 1)) := by
    have hl := h (i + 1) hi
    rwa [midLevels_self] at hl
  have hset : (bl.set i (bl.mLevels i).snap).mLevels (i + 1) = bl.mLevels (i + 1) :=
    update_of_ne (by omega) _ _
  unfold spill
  dsimp only
  rw [hset, BucketLevel.commit_eq hnext, ok_bind, BucketLevel.prepare_eq rfl]
  refine ⟨_, rfl, fun j hj => ?_⟩
  by_cases hj1 : j = i + 1
  · subst hj1
    have hcond : (if i + 1 ≠ 0 ∧
        levelShouldSpill (ledger + levelHalf (i + 1 - 1)) (i + 1) = true then empty
        else (snapIfSpills ledger v (i + 1)).committed) =
        if levelShouldSpill (ledger + levelHalf i) (i + 1) = true then empty
        else (snapIfSpills ledger v (i + 1)).committed := by
      simp
    rw [midLevels_above (by omega), stepLevel, if_pos hspill]
    simp only [BucketList.set, Function.update_self]
    rw [hcond, hlevel.curr]
    exact ⟨rfl, hnext.snap, .inputs _ _ _⟩
  · simp only [BucketList.set, Function.update_of_ne hj1]
    by_cases hj2 : j = i
    · subst hj2
      rw [midLevels_self, snapIfSpills, if_pos hspill, Function.update_self]
      exact ⟨rfl, hlevel.curr, hlevel.next⟩
    · have hl := h j hj
      rw [Function.update_of_ne hj2]
      by_cases hlt : i < j
      · rw [midLevels_above (by omega)] at hl
        rwa [midLevels_above hlt]
      · rw [midLevels_below (by omega)] at hl
        rwa [midLevels_below (by omega)]

/-- A round of the loop in which level `i` does not spill. -/
theorem midLevels_of_not_spill
    (hi : i + 1 < kNumLevels) (hspill : ¬ levelShouldSpill ledger i = true) :
    midLevels ledger v (i + 1) j = midLevels ledger v i j := by
  have hspill' : ¬ levelShouldSpill ledger (i + 1) = true :=
    fun h => hspill (levelShouldSpill_of_succ hi h)
  rcases lt_trichotomy j (i + 1) with h | rfl | h
  · rw [midLevels_below h]
    by_cases hj : j = i
    · subst hj
      rw [midLevels_self, snapIfSpills, if_neg hspill]
    · rw [midLevels_below (by omega)]
  · rw [midLevels_self, midLevels_above (by omega), snapIfSpills, if_neg hspill', stepLevel,
      if_neg hspill]
  · rw [midLevels_above h, midLevels_above (by omega)]

/-- The loop, from level `i` down. -/
theorem spillLevels_views (hi : i < kNumLevels)
    (h : ∀ j < kNumLevels, LevelViews env j (bl.mLevels j) (midLevels ledger v i j)) :
    ∃ bl', bl.spillLevels env ledger i (bucketsBelow v i) = .ok bl' ∧
      ∀ j < kNumLevels, LevelViews env j (bl'.mLevels j) (midLevels ledger v 0 j) := by
  induction i generalizing bl with
  | zero => exact ⟨bl, assert_bind rfl _, h⟩
  | succ i ih =>
    unfold spillLevels
    rw [assert_bind (two_le_length_bucketsBelow v i), dropLast_bucketsBelow]
    by_cases hspill : levelShouldSpill ledger i = true
    · obtain ⟨bl', hbl', h'⟩ := spill_views hi h hspill
      rw [if_pos hspill, hbl']
      exact ih (by omega) h'
    · rw [if_neg hspill]
      refine ih (by omega) fun j hj => ?_
      rw [← midLevels_of_not_spill hi hspill]
      exact h j hj

/-- A batch: no `assert` fails, and the levels are those of `addBatchView`. -/
theorem addBatch_views (h : Views env bl v) (hledger : 0 < ledger) (liveEntries : List LedgerEntry)
    (deadEntries : List LedgerKey) :
    ∃ bl', bl.addBatch env ledger liveEntries deadEntries = .ok bl' ∧
      Views env bl' (addBatchView ledger v (Bucket.fresh liveEntries deadEntries)) := by
  have hstart : ∀ j < kNumLevels,
      LevelViews env j (bl.mLevels j) (midLevels ledger v (kNumLevels - 1) j) := by
    intro j hj
    by_cases hj' : j = kNumLevels - 1
    · subst hj'
      rw [midLevels_self, snapIfSpills]
      exact h.level _ hj
    · rw [midLevels_below (by omega)]
      exact h.level j hj
  obtain ⟨bl₁, hbl₁, h₁⟩ := spillLevels_views (by decide) hstart
  have hzero : LevelViews env 0 (bl₁.mLevels 0) (stepLevel ledger v 0) := h₁ 0 (by decide)
  have hnext : (stepLevel ledger v 0).next = none := by
    rw [stepLevel, snapIfSpills]
    split
    · exact h.zero
    · exact h.zero
  have hclear : (bl₁.mLevels 0).mNextCurr = .clear := by
    have hp := hzero.next
    rw [hnext] at hp
    generalize (bl₁.mLevels 0).mNextCurr = next at hp ⊢
    cases hp
    rfl
  unfold addBatch
  rw [assert_bind hledger, h.buckets le_rfl]
  have hlen : 2 ≤ (bucketsBelow v kNumLevels).length := two_le_length_bucketsBelow v 10
  have hdrop : (bucketsBelow v kNumLevels).dropLast.dropLast =
      bucketsBelow v (kNumLevels - 1) := dropLast_bucketsBelow v 10
  rw [assert_bind hlen, hdrop, hbl₁, ok_bind, BucketLevel.prepare_eq hclear, ok_bind]
  have hprepared : LevelViews env 0 ⟨(stepLevel ledger v 0).curr, (bl₁.mLevels 0).mSnap,
        .ofInputs env (stepLevel ledger v 0).curr
          (fresh liveEntries deadEntries) [] (keepDeadEntries 0)⟩
      ⟨(stepLevel ledger v 0).curr, (stepLevel ledger v 0).snap,
        some (merge (stepLevel ledger v 0).curr
          (fresh liveEntries deadEntries) [] (keepDeadEntries 0))⟩ :=
    ⟨rfl, hzero.snap, .inputs _ _ _⟩
  rw [if_neg (by simp), hzero.curr]
  rw [BucketLevel.commit_eq hprepared]
  refine ⟨_, rfl, fun j hj => ?_, hnext⟩
  by_cases hj0 : j = 0
  · subst hj0
    rw [addBatchView, if_pos rfl]
    refine ⟨rfl, hzero.snap, ?_⟩
    rw [hnext]
    exact .clear
  · simp only [BucketList.set, Function.update_of_ne hj0]
    rw [addBatchView, if_neg hj0, ← midLevels_above (i := 0) (by omega)]
    exact h₁ j hj

end EssaCore.Buckets
