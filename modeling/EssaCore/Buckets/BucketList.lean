import EssaCore.Buckets.FutureBucket

/-!
# The bucket list

`bucket/BucketList.cpp`: eleven levels of two buckets, `curr` and `snap`. Every
ledger adds a batch to level 0. When a level is half full its `curr` becomes its
`snap`, and the merge of that `snap` into the next level is started; the result
becomes the next level's `curr` at the following spill.

- `levelSize`, `levelHalf`, `levelShouldSpill` — the schedule;
- `BucketLevel`, `commit`, `prepare`, `snap` — one level;
- `BucketList`, `addBatch` — the list; `addBatches` adds the batches of ledgers
  1, 2, ..., one after the other.

`uint32` sequence numbers are natural numbers: the schedule only asks whether
they are multiples of powers of two below `2^32`.
-/

namespace EssaCore.Buckets

open Ledger Lib

variable {Hash : Type} [DecidableEq Hash] (env : BucketHasher Hash)

/-! ## The schedule -/

/-- `BucketList::kNumLevels` -/
def kNumLevels : ℕ := 11

/-- `BucketList::levelSize` -/
def levelSize (level : ℕ) : ℕ := 2 ^ (2 * (level + 1))

/-- `BucketList::levelHalf` -/
def levelHalf (level : ℕ) : ℕ := levelSize level / 2

/-- `BucketList::mask`, for a power of two `m` -/
def mask (v m : ℕ) : ℕ := v / m * m

/-- `BucketList::levelShouldSpill` -/
def levelShouldSpill (ledger level : ℕ) : Bool :=
  if level = kNumLevels - 1 then false
  else ledger = mask ledger (levelHalf level) ∨ ledger = mask ledger (levelSize level)

/-- `BucketList::keepDeadEntries` -/
def keepDeadEntries (level : ℕ) : Bool := level < kNumLevels - 1

/-! ## Levels -/

/-- `BucketLevel` -/
structure BucketLevel (Hash : Type) where
  mCurr : Bucket
  mSnap : Bucket
  mNextCurr : FutureBucket Hash

namespace BucketLevel

/-- The constructor of `BucketLevel` -/
def new : BucketLevel Hash := ⟨.empty, .empty, .clear⟩

/-- `BucketLevel::setCurr` -/
def setCurr (level : BucketLevel Hash) (b : Bucket) : BucketLevel Hash :=
  { level with mNextCurr := .clear, mCurr := b }

/-- `BucketLevel::commit` -/
def commit (level : BucketLevel Hash) : Checked (BucketLevel Hash) := do
  if level.mNextCurr.isLive then do
    let (b, _) ← level.mNextCurr.resolve env
    let level := level.setCurr b
    assert (!level.mNextCurr.isMerging) "!mNextCurr.isMerging()"
    pure level
  else do
    assert (!level.mNextCurr.isMerging) "!mNextCurr.isMerging()"
    pure level

/-- `BucketLevel::prepare` of level `mLevel` -/
def prepare (mLevel : ℕ) (level : BucketLevel Hash) (currLedger : ℕ) (snap : Bucket)
    (shadows : List Bucket) : Checked (BucketLevel Hash) := do
  assert (!level.mNextCurr.isMerging) "!mNextCurr.isMerging()"
  -- `curr` is left out if it will be a snapshot itself at the next spill
  let curr :=
    if mLevel ≠ 0 ∧ levelShouldSpill (currLedger + levelHalf (mLevel - 1)) mLevel then
      Bucket.empty
    else level.mCurr
  let next ← FutureBucket.new env curr snap shadows (keepDeadEntries mLevel)
  assert next.isMerging "mNextCurr.isMerging()"
  pure { level with mNextCurr := next }

/-- `BucketLevel::snap` -/
def snap (level : BucketLevel Hash) : BucketLevel Hash :=
  { level with mSnap := level.mCurr, mCurr := .empty }

end BucketLevel

/-! ## The list -/

/-- `BucketList`: only the levels below `kNumLevels` are used. -/
structure BucketList (Hash : Type) where
  mLevels : ℕ → BucketLevel Hash

namespace BucketList

/-- The constructor of `BucketList` -/
def new : BucketList Hash := ⟨fun _ => .new⟩

/-- Replaces one level. -/
def set (bl : BucketList Hash) (i : ℕ) (level : BucketLevel Hash) : BucketList Hash :=
  ⟨Function.update bl.mLevels i level⟩

/-- The `curr` and `snap` buckets of the levels below `n`, the youngest first. -/
def buckets (bl : BucketList Hash) (n : ℕ) : List Bucket :=
  (List.range n).flatMap fun i => [(bl.mLevels i).mCurr, (bl.mLevels i).mSnap]

/-- One round of the loop of `addBatch`: level `i` spills into level `i + 1`. -/
def spill (currLedger i : ℕ) (shadows : List Bucket) (bl : BucketList Hash) :
    Checked (BucketList Hash) := do
  let snap := (bl.mLevels i).mCurr
  let bl := bl.set i (bl.mLevels i).snap
  let level ← (bl.mLevels (i + 1)).commit env
  let level ← level.prepare env (i + 1) currLedger snap shadows
  pure (bl.set (i + 1) level)

/-- The loop of `addBatch`, from level `i` down to level 1 -/
def spillLevels (currLedger : ℕ) : ℕ → List Bucket → BucketList Hash →
    Checked (BucketList Hash)
  | 0, shadows, bl => do
    assert shadows.isEmpty "shadows.size() == 0"
    pure bl
  | i + 1, shadows, bl => do
    assert (2 ≤ shadows.length) "shadows.size() >= 2"
    let shadows := shadows.dropLast.dropLast
    let bl ← if levelShouldSpill currLedger i then bl.spill env currLedger i shadows
      else pure bl
    spillLevels currLedger i shadows bl

/-- `BucketList::addBatch` -/
def addBatch (bl : BucketList Hash) (currLedger : ℕ) (liveEntries : List LedgerEntry)
    (deadEntries : List LedgerKey) : Checked (BucketList Hash) := do
  assert (currLedger > 0) "currLedger > 0"
  let shadows := bl.buckets kNumLevels
  assert (2 ≤ shadows.length) "shadows.size() >= 2"
  let bl ← spillLevels env currLedger (kNumLevels - 1) shadows.dropLast.dropLast bl
  let level ← (bl.mLevels 0).prepare env 0 currLedger
    (Bucket.fresh liveEntries deadEntries) []
  let level ← level.commit env
  pure (bl.set 0 level)

end BucketList

/-- The changes of a ledger. -/
structure Batch where
  liveEntries : List LedgerEntry
  deadEntries : List LedgerKey

/-- The list after the first `n` batches, added at ledgers `1, ..., n`. -/
def addBatches (batches : ℕ → Batch) : ℕ → Checked (BucketList Hash)
  | 0 => pure .new
  | n + 1 => do
    let bl ← addBatches batches n
    bl.addBatch env (n + 1) (batches (n + 1)).liveEntries (batches (n + 1)).deadEntries

end EssaCore.Buckets
