import EssaCore.Buckets.Bucket

/-!
# Merges in progress

`bucket/FutureBucket.cpp`, `bucket/FutureBucket.h`: the merge of two buckets
runs in the background. A `FutureBucket` holds its inputs and, as a future, its
output; saved to a file it is reduced to the hashes of either the inputs or the
output, and after loading it is made live again by finding the buckets and
starting the merge.

- `FutureBucket`, `checkState` — the class and what it asserts about itself;
- `resolve`, `makeLive`, `save` and `load` — its lifecycle, which stops at a
  failed `assert`;
- `clear`, `ofInputs`, `ofOutput` — the three values that a bucket list holds;
- `resolve_ofInputs`, `makeLive_inputs`, ... — none of them fails on these.
-/

namespace EssaCore.Buckets

open Lib

variable {Hash : Type} [DecidableEq Hash]

/-- The hash of a bucket's contents. -/
structure BucketHasher (Hash : Type) where
  getHash : Bucket → Hash
  getHash_injective : Function.Injective getHash

/-- `FutureBucket::State` -/
inductive FutureBucketState where
  | FB_CLEAR
  | FB_HASH_OUTPUT
  | FB_HASH_INPUTS
  | FB_LIVE_OUTPUT
  | FB_LIVE_INPUTS
  deriving DecidableEq

open FutureBucketState

/-- `FutureBucket`. The empty string is `none` for a hash. The future
`mOutputBucket` holds the value it has or will have, `mergeComplete` tells that
it is known to have it. -/
structure FutureBucket (Hash : Type) where
  mState : FutureBucketState
  mInputCurrBucket : Option Bucket
  mInputSnapBucket : Option Bucket
  mInputShadowBuckets : List Bucket
  mOutputBucket : Option Bucket
  mergeComplete : Bool
  mInputCurrBucketHash : Option Hash
  mInputSnapBucketHash : Option Hash
  mInputShadowBucketHashes : List Hash
  mOutputBucketHash : Option Hash

namespace FutureBucket

/-! ## The class -/

/-- `FutureBucket::clear`; also the default constructor -/
def clear : FutureBucket Hash where
  mState := FB_CLEAR
  mInputCurrBucket := none
  mInputSnapBucket := none
  mInputShadowBuckets := []
  mOutputBucket := none
  mergeComplete := false
  mInputCurrBucketHash := none
  mInputSnapBucketHash := none
  mInputShadowBucketHashes := []
  mOutputBucketHash := none

/-- `FutureBucket::clearInputs` -/
def clearInputs (fb : FutureBucket Hash) : FutureBucket Hash :=
  { fb with
    mInputShadowBuckets := []
    mInputSnapBucket := none
    mInputCurrBucket := none
    mInputShadowBucketHashes := []
    mInputSnapBucketHash := none
    mInputCurrBucketHash := none }

/-- `FutureBucket::isLive` -/
def isLive (fb : FutureBucket Hash) : Bool :=
  fb.mState = FB_LIVE_INPUTS ∨ fb.mState = FB_LIVE_OUTPUT

/-- `FutureBucket::isMerging` -/
def isMerging (fb : FutureBucket Hash) : Bool := fb.mState = FB_LIVE_INPUTS

/-- `FutureBucket::hasHashes` -/
def hasHashes (fb : FutureBucket Hash) : Bool :=
  fb.mState = FB_HASH_INPUTS ∨ fb.mState = FB_HASH_OUTPUT

/-- `FutureBucket::hasOutputHash` -/
def hasOutputHash (fb : FutureBucket Hash) : Bool :=
  fb.mState = FB_LIVE_OUTPUT ∨ fb.mState = FB_HASH_OUTPUT

variable (env : BucketHasher Hash)

/-- A bucket that is there has the hash that is there. -/
def hashMatches (b : Option Bucket) (h : Option Hash) : Bool :=
  b.all fun b => h = some (env.getHash b)

/-- `FutureBucket::checkHashesMatch` -/
def checkHashesMatch (fb : FutureBucket Hash) : Bool :=
  (fb.mInputShadowBuckets.isEmpty ∨
    fb.mInputShadowBuckets.map env.getHash = fb.mInputShadowBucketHashes) ∧
  hashMatches env fb.mInputSnapBucket fb.mInputSnapBucketHash ∧
  hashMatches env fb.mInputCurrBucket fb.mInputCurrBucketHash ∧
  (fb.mergeComplete → fb.mOutputBucketHash.isSome →
    hashMatches env fb.mOutputBucket fb.mOutputBucketHash)

/-- `FutureBucket::checkState`: the conjunction of its asserts -/
def checkState (fb : FutureBucket Hash) : Bool :=
  match fb.mState with
  | FB_CLEAR =>
    fb.mInputShadowBuckets.isEmpty ∧ fb.mInputSnapBucket.isNone ∧
    fb.mInputCurrBucket.isNone ∧ fb.mOutputBucket.isNone ∧
    fb.mInputShadowBucketHashes.isEmpty ∧ fb.mInputSnapBucketHash.isNone ∧
    fb.mInputCurrBucketHash.isNone ∧ fb.mOutputBucketHash.isNone
  | FB_LIVE_INPUTS =>
    fb.mInputSnapBucket.isSome ∧ fb.mInputCurrBucket.isSome ∧
    fb.mOutputBucket.isSome ∧ fb.mOutputBucketHash.isNone ∧
    fb.checkHashesMatch env
  | FB_LIVE_OUTPUT =>
    fb.mergeComplete ∧ fb.mOutputBucket.isSome ∧ fb.mOutputBucketHash.isSome ∧
    fb.checkHashesMatch env
  | FB_HASH_INPUTS =>
    fb.mInputSnapBucket.isNone ∧ fb.mInputCurrBucket.isNone ∧
    fb.mOutputBucket.isNone ∧ fb.mInputSnapBucketHash.isSome ∧
    fb.mInputCurrBucketHash.isSome ∧ fb.mOutputBucketHash.isNone
  | FB_HASH_OUTPUT =>
    fb.mInputSnapBucket.isNone ∧ fb.mInputCurrBucket.isNone ∧
    fb.mOutputBucket.isNone ∧ fb.mInputSnapBucketHash.isNone ∧
    fb.mInputCurrBucketHash.isNone ∧ fb.mOutputBucketHash.isSome

/-! ## Lifecycle -/

/-- `FutureBucket::startMerge` -/
def startMerge (fb : FutureBucket Hash) (keepDeadEntries : Bool) :
    Checked (FutureBucket Hash) := do
  assert (fb.mState = FB_LIVE_INPUTS) "mState == FB_LIVE_INPUTS"
  match fb.mInputCurrBucket, fb.mInputSnapBucket with
  | some curr, some snap => do
    assert fb.mOutputBucket.isNone "!mOutputBucket.valid()"
    let fb :=
      { fb with
        mOutputBucket :=
          some (Bucket.merge curr snap fb.mInputShadowBuckets keepDeadEntries)
        mergeComplete := false }
    assert (fb.checkState env) "checkState"
    pure fb
  | none, _ => .error "curr"
  | _, none => .error "snap"

/-- The constructor of `FutureBucket` that starts a merge -/
def new (curr snap : Bucket) (shadows : List Bucket) (keepDeadEntries : Bool) :
    Checked (FutureBucket Hash) :=
  startMerge env
    { clear with
      mState := FB_LIVE_INPUTS
      mInputCurrBucket := some curr
      mInputSnapBucket := some snap
      mInputShadowBuckets := shadows
      mInputCurrBucketHash := some (env.getHash curr)
      mInputSnapBucketHash := some (env.getHash snap)
      mInputShadowBucketHashes := shadows.map env.getHash } keepDeadEntries

/-- `FutureBucket::setLiveOutput` -/
def setLiveOutput (fb : FutureBucket Hash) (output : Bucket) :
    Checked (FutureBucket Hash) := do
  let fb :=
    { fb with
      mState := FB_LIVE_OUTPUT
      mOutputBucketHash := some (env.getHash output)
      mOutputBucket := some output
      mergeComplete := true }
  assert (fb.checkState env) "checkState"
  pure fb

/-- `FutureBucket::resolve`: waits for the merge. -/
def resolve (fb : FutureBucket Hash) : Checked (Bucket × FutureBucket Hash) := do
  assert (fb.checkState env) "checkState"
  assert fb.isLive "isLive()"
  match fb.mOutputBucket with
  | none => .error "mOutputBucket.get()"
  | some bucket => do
    assert (fb.mOutputBucketHash.all fun h => h = env.getHash bucket) "checkHashEq"
    let fb :=
      { fb.clearInputs with
        mOutputBucketHash := some (env.getHash bucket)
        mergeComplete := true
        mState := FB_LIVE_OUTPUT }
    assert (fb.checkState env) "checkState"
    pure (bucket, fb)

/-- `FutureBucket::makeLive`. The manager's buckets are found by their hash; a
missing one is a null pointer. -/
def makeLive (getBucketByHash : Hash → Option Bucket) (fb : FutureBucket Hash)
    (keepDeadEntries : Bool) : Checked (FutureBucket Hash) := do
  assert (fb.checkState env) "checkState"
  assert (!fb.isLive) "!isLive()"
  assert fb.hasHashes "hasHashes()"
  if fb.hasOutputHash then
    match fb.mOutputBucketHash.bind getBucketByHash with
    | some output => setLiveOutput env fb output
    | none => .error "output->getHash()"
  else do
    assert (fb.mState = FB_HASH_INPUTS) "mState == FB_HASH_INPUTS"
    assert fb.mInputShadowBuckets.isEmpty "mInputShadowBuckets.empty()"
    let shadows := fb.mInputShadowBucketHashes.map getBucketByHash
    assert (shadows.all Option.isSome) "b"
    let fb ← startMerge env
      { fb with
        mInputCurrBucket := fb.mInputCurrBucketHash.bind getBucketByHash
        mInputSnapBucket := fb.mInputSnapBucketHash.bind getBucketByHash
        mInputShadowBuckets := shadows.reduceOption
        mState := FB_LIVE_INPUTS } keepDeadEntries
    assert fb.isLive "isLive()"
    pure fb

/-! ## Saving and loading -/

/-- What `FutureBucket::save` writes. -/
inductive SavedFuture (Hash : Type) where
  | FB_CLEAR
  | FB_HASH_INPUTS (curr snap : Option Hash) (shadow : List Hash)
  | FB_HASH_OUTPUT (output : Option Hash)

/-- `FutureBucket::save` -/
def save (fb : FutureBucket Hash) : Checked (SavedFuture Hash) := do
  assert (fb.checkState env) "checkState"
  match fb.mState with
  | FB_LIVE_INPUTS | FB_HASH_INPUTS =>
    pure (.FB_HASH_INPUTS fb.mInputCurrBucketHash fb.mInputSnapBucketHash
      fb.mInputShadowBucketHashes)
  | FB_LIVE_OUTPUT | FB_HASH_OUTPUT => pure (.FB_HASH_OUTPUT fb.mOutputBucketHash)
  | FB_CLEAR => pure .FB_CLEAR

/-- `FutureBucket::load` -/
def load (saved : SavedFuture Hash) : Checked (FutureBucket Hash) := do
  let fb : FutureBucket Hash :=
    match saved with
    | .FB_CLEAR => clear
    | .FB_HASH_INPUTS curr snap shadow =>
      { clear with
        mState := .FB_HASH_INPUTS
        mInputCurrBucketHash := curr
        mInputSnapBucketHash := snap
        mInputShadowBucketHashes := shadow }
    | .FB_HASH_OUTPUT output =>
      { clear with mState := .FB_HASH_OUTPUT, mOutputBucketHash := output }
  assert (fb.checkState env) "checkState"
  pure fb

/-! ## The values a bucket list holds -/

/-- A running merge. -/
def ofInputs (curr snap : Bucket) (shadows : List Bucket) (keepDeadEntries : Bool) :
    FutureBucket Hash where
  mState := FB_LIVE_INPUTS
  mInputCurrBucket := some curr
  mInputSnapBucket := some snap
  mInputShadowBuckets := shadows
  mOutputBucket := some (Bucket.merge curr snap shadows keepDeadEntries)
  mergeComplete := false
  mInputCurrBucketHash := some (env.getHash curr)
  mInputSnapBucketHash := some (env.getHash snap)
  mInputShadowBucketHashes := shadows.map env.getHash
  mOutputBucketHash := none

/-- A finished merge. -/
def ofOutput (output : Bucket) : FutureBucket Hash :=
  { clear with
    mState := FB_LIVE_OUTPUT
    mOutputBucket := some output
    mergeComplete := true
    mOutputBucketHash := some (env.getHash output) }

variable {env} {curr snap output : Bucket} {shadows : List Bucket} {keep : Bool}

theorem checkState_clear : (clear : FutureBucket Hash).checkState env = true := rfl

theorem checkState_ofInputs (curr snap : Bucket) (shadows : List Bucket) (keep : Bool) :
    (ofInputs env curr snap shadows keep).checkState env = true := by
  simp [checkState, checkHashesMatch, hashMatches, ofInputs]

theorem checkState_ofOutput (output : Bucket) : (ofOutput env output).checkState env = true := by
  simp [checkState, checkHashesMatch, hashMatches, ofOutput, clear]

theorem new_eq : new env curr snap shadows keep = .ok (ofInputs env curr snap shadows keep) := by
  exact assert_bind (checkState_ofInputs curr snap shadows keep) _

theorem resolve_ofOutput : resolve env (ofOutput env output) =
    .ok (output, ofOutput env output) := by
  refine (assert_bind (checkState_ofOutput output) _).trans ?_
  refine (assert_bind rfl _).trans ?_
  refine (assert_bind (by simp [ofOutput]) _).trans ?_
  exact assert_bind (checkState_ofOutput output) _

theorem resolve_ofInputs : resolve env (ofInputs env curr snap shadows keep) =
    .ok (Bucket.merge curr snap shadows keep,
      ofOutput env (Bucket.merge curr snap shadows keep)) := by
  refine (assert_bind (checkState_ofInputs curr snap shadows keep) _).trans ?_
  exact assert_bind (checkState_ofOutput _) _

/-! ## Saving and making live again -/

theorem save_clear : save env (clear : FutureBucket Hash) = .ok .FB_CLEAR :=
  assert_bind checkState_clear _

theorem save_ofInputs : save env (ofInputs env curr snap shadows keep) =
    .ok (.FB_HASH_INPUTS (some (env.getHash curr)) (some (env.getHash snap))
      (shadows.map env.getHash)) :=
  assert_bind (checkState_ofInputs curr snap shadows keep) _

theorem save_ofOutput : save env (ofOutput env output) =
    .ok (.FB_HASH_OUTPUT (some (env.getHash output))) :=
  assert_bind (checkState_ofOutput output) _

/-- A merge that is known by the hashes of its inputs. -/
def ofInputHashes (curr snap : Hash) (shadow : List Hash) : FutureBucket Hash :=
  { clear with
    mState := .FB_HASH_INPUTS
    mInputCurrBucketHash := some curr
    mInputSnapBucketHash := some snap
    mInputShadowBucketHashes := shadow }

/-- A merge that is known by the hash of its output. -/
def ofOutputHash (output : Hash) : FutureBucket Hash :=
  { clear with mState := .FB_HASH_OUTPUT, mOutputBucketHash := some output }

variable {getBucketByHash : Hash → Option Bucket}

/-- A finished merge is made live from the hash of its output. -/
theorem makeLive_output (h : getBucketByHash (env.getHash output) = some output) :
    makeLive env getBucketByHash (ofOutputHash (env.getHash output)) keep =
      .ok (ofOutput env output) := by
  refine (assert_bind rfl _).trans ?_
  have hfind : (ofOutputHash (env.getHash output)).mOutputBucketHash.bind
      getBucketByHash = some output := h
  rw [hfind]
  exact assert_bind (checkState_ofOutput output) _

/-- A running merge is started again on the same inputs. -/
theorem makeLive_inputs (hcurr : getBucketByHash (env.getHash curr) = some curr)
    (hsnap : getBucketByHash (env.getHash snap) = some snap)
    (hshadows : ∀ b ∈ shadows, getBucketByHash (env.getHash b) = some b) :
    makeLive env getBucketByHash (ofInputHashes (env.getHash curr) (env.getHash snap)
          (shadows.map env.getHash)) keep =
      .ok (ofInputs env curr snap shadows keep) := by
  have hfound : (shadows.map env.getHash).map getBucketByHash = shadows.map some := by
    rw [List.map_map]
    exact List.map_congr_left fun b hb => hshadows b hb
  have hall : ((shadows.map some).all Option.isSome) = true := by simp
  have hreduce : (shadows.map some).reduceOption = shadows := by
    induction shadows <;> simp_all [List.reduceOption]
  refine (assert_bind rfl _).trans ?_
  refine (assert_bind rfl _).trans ?_
  refine (assert_bind rfl _).trans ?_
  refine (assert_bind rfl _).trans ?_
  refine (assert_bind rfl _).trans ?_
  refine (assert_bind (by rw [← hfound] at hall; exact hall) _).trans ?_
  have hstart : startMerge env
      { ofInputHashes (env.getHash curr) (env.getHash snap) (shadows.map env.getHash) with
        mInputCurrBucket := getBucketByHash (env.getHash curr)
        mInputSnapBucket := getBucketByHash (env.getHash snap)
        mInputShadowBuckets :=
          ((shadows.map env.getHash).map getBucketByHash).reduceOption
        mState := FB_LIVE_INPUTS } keep = .ok (ofInputs env curr snap shadows keep) := by
    rw [hcurr, hsnap, hfound, hreduce]
    exact new_eq
  refine (congrArg (· >>= _) hstart).trans ?_
  rw [ok_bind]
  exact assert_bind rfl _

end FutureBucket

end EssaCore.Buckets
