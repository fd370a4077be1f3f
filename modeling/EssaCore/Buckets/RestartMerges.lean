import EssaCore.Buckets.BucketListRuns

/-!
# Restarts

After each ledger a node saves its bucket list as a `HistoryArchiveState`: the
hashes of the buckets and, for a level whose merge is not committed yet, the hash
of its output or the hashes of its inputs. A node that is restarted finds the
buckets by these hashes (`bucket/BucketManagerImpl.cpp`, `assumeState`) and starts
the merges again (`bucket/BucketList.cpp`, `restartMerges`).

- `HistoryArchiveState` — what is saved (`history/HistoryArchive.cpp`);
- `assumeState`, `restartMerges` — how a list is built from it;
- `restartIf_views` — the new list has the levels of the old one;
- `restarts_transparent` — a run with restarts has the buckets of one without.
-/

open List Function

namespace EssaCore.Buckets

open Ledger Lib FutureBucket

variable {Hash : Type}

/-! ## Loops over the levels -/

/-- `for (i = 0; i < n; ++i) xs[i] = f(i, xs[i])` -/
def forLevels {α : Type} (f : ℕ → α → Checked α) : ℕ → (ℕ → α) → Checked (ℕ → α)
  | 0, xs => pure xs
  | n + 1, xs => do
    let xs ← forLevels f n xs
    let x ← f n (xs n)
    pure (Function.update xs n x)

/-- A loop whose every round succeeds with a result in `R`. -/
theorem forLevels_eq_ok {α : Type} {f : ℕ → α → Checked α} {n : ℕ} {xs : ℕ → α}
    (R : ℕ → α → Prop) (h : ∀ i < n, ∃ x, f i (xs i) = .ok x ∧ R i x) :
    ∃ xs', forLevels f n xs = .ok xs' ∧ ∀ i < n, R i (xs' i) := by
  -- the rounds to come still see the values they start from
  suffices ∃ xs', forLevels f n xs = .ok xs' ∧ (∀ i < n, R i (xs' i)) ∧ ∀ i, n ≤ i → xs' i = xs i by
    obtain ⟨xs', hxs', hR, -⟩ := this
    exact ⟨xs', hxs', hR⟩
  induction n with
  | zero => exact ⟨xs, rfl, nofun, fun _ _ => rfl⟩
  | succ n ih =>
    obtain ⟨xs', hxs', hdone, hrest⟩ := ih fun i hi => h i (by omega)
    obtain ⟨x, hx, hR⟩ := h n (Nat.lt_succ_self n)
    refine ⟨update xs' n x, ?_, fun i hi => ?_, fun i hi => ?_⟩
    · rw [forLevels, hxs', ok_bind, hrest n le_rfl, hx]
      rfl
    · by_cases hin : i = n
      · subst hin
        rwa [update_self]
      · rw [update_of_ne hin]
        exact hdone i (by omega)
    · rw [update_of_ne (by omega)]
      exact hrest i (by omega)

/-! ## What is saved -/

/-- `FutureBucket::getHashes` -/
def FutureBucket.getHashes (fb : FutureBucket Hash) : List Hash :=
  fb.mInputCurrBucketHash.toList ++ fb.mInputSnapBucketHash.toList ++
    fb.mInputShadowBucketHashes ++ fb.mOutputBucketHash.toList

/-- `HistoryStateBucket` -/
structure HistoryStateBucket (Hash : Type) where
  curr : Hash
  next : FutureBucket Hash
  snap : Hash

/-- `HistoryArchiveState`, without the version and the name of the server. -/
structure HistoryArchiveState (Hash : Type) where
  currentLedger : ℕ
  currentBuckets : ℕ → HistoryStateBucket Hash

variable [DecidableEq Hash] (env : BucketHasher Hash)

namespace HistoryArchiveState

/-- The constructor of `HistoryArchiveState` from a bucket list -/
def ofBucketList (ledgerSeq : ℕ) (bl : BucketList Hash) : HistoryArchiveState Hash where
  currentLedger := ledgerSeq
  currentBuckets i :=
    { curr := env.getHash (bl.mLevels i).mCurr
      next := (bl.mLevels i).mNextCurr
      snap := env.getHash (bl.mLevels i).mSnap }

/-- A round of the loop of `resolveAnyReadyFutures`; `ready` tells whether the
merge has finished in the background. -/
def resolveIfReady (ready : Bool) (b : HistoryStateBucket Hash) :
    Checked (HistoryStateBucket Hash) := do
  if b.next.isMerging && ready then do
    let (_, next) ← b.next.resolve env
    pure { b with next }
  else pure b

/-- `HistoryArchiveState::resolveAnyReadyFutures` -/
def resolveAnyReadyFutures (ready : ℕ → Bool) (has : HistoryArchiveState Hash) :
    Checked (HistoryArchiveState Hash) := do
  let currentBuckets ←
    forLevels (fun i b => resolveIfReady env (ready i) b) kNumLevels has.currentBuckets
  pure { has with currentBuckets }

/-- A level is written and read back. -/
def reloadLevel (b : HistoryStateBucket Hash) : Checked (HistoryStateBucket Hash) := do
  let saved ← b.next.save env
  let next ← FutureBucket.load env saved
  pure { b with next }

/-- `HistoryArchiveState::futuresAllResolved` -/
def futuresAllResolved (has : HistoryArchiveState Hash) : Bool :=
  ∀ i < kNumLevels, ¬ (has.currentBuckets i).next.isMerging = true

/-- `HistoryArchiveState::toString`, then `HistoryArchiveState::fromString` -/
def reload (has : HistoryArchiveState Hash) : Checked (HistoryArchiveState Hash) := do
  let currentBuckets ← forLevels (fun _ => reloadLevel env) kNumLevels has.currentBuckets
  let has := { has with currentBuckets }
  assert has.futuresAllResolved "futuresAllResolved()"
  pure has

/-- `HistoryArchiveState::allBuckets` -/
def allBuckets (has : HistoryArchiveState Hash) : List Hash :=
  (List.range kNumLevels).flatMap fun i =>
    (has.currentBuckets i).curr :: (has.currentBuckets i).snap ::
      (has.currentBuckets i).next.getHashes

end HistoryArchiveState

/-- The state that `LedgerManagerImpl::storeCurrentLedger` stores, as it is read
after a restart. -/
def savedState (ready : ℕ → Bool) (ledgerSeq : ℕ) (bl : BucketList Hash) :
    Checked (HistoryArchiveState Hash) := do
  let has := HistoryArchiveState.ofBucketList env ledgerSeq bl
  let has ← has.resolveAnyReadyFutures env ready
  has.reload env

/-! ## Restarting -/

/-- The bucket files: each has the hash it is stored under. -/
structure BucketStore where
  getBucketByHash : Hash → Option Bucket
  hash_eq : ∀ h b, getBucketByHash h = some b → env.getHash b = h

variable {env}

/-- A round of the loop of `assumeState` -/
def assumeLevel (store : BucketStore env) (b : HistoryStateBucket Hash)
    (level : BucketLevel Hash) : Checked (BucketLevel Hash) :=
  match store.getBucketByHash b.curr, store.getBucketByHash b.snap with
  | some curr, some snap =>
    pure { level.setCurr curr with mSnap := snap, mNextCurr := b.next }
  | _, _ => .error "Missing bucket files while assuming saved BucketList state"

/-- A round of the loop of `restartMerges` -/
def restartMerge (store : BucketStore env) (i : ℕ) (level : BucketLevel Hash) :
    Checked (BucketLevel Hash) := do
  if level.mNextCurr.hasHashes && !level.mNextCurr.isLive then do
    let next ← level.mNextCurr.makeLive env store.getBucketByHash (keepDeadEntries i)
    pure { level with mNextCurr := next }
  else pure level

/-- `BucketList::restartMerges` -/
def BucketList.restartMerges (store : BucketStore env) (bl : BucketList Hash) :
    Checked (BucketList Hash) := do
  let mLevels ← forLevels (restartMerge store) kNumLevels bl.mLevels
  pure { mLevels }

/-- `BucketManagerImpl::assumeState` -/
def assumeState (store : BucketStore env) (has : HistoryArchiveState Hash)
    (bl : BucketList Hash) : Checked (BucketList Hash) := do
  let mLevels ← forLevels (fun i => assumeLevel store (has.currentBuckets i)) kNumLevels
    bl.mLevels
  BucketList.restartMerges store { mLevels }

/-! ## A merge that is saved and started again -/

variable {keep : Bool} {fb : FutureBucket Hash} {o : Option Bucket}

/-- A merge that is known by hashes, and what it results in. -/
inductive Hashed (env : BucketHasher Hash) (keep : Bool) :
    FutureBucket Hash → Option Bucket → Prop where
  | clear : Hashed env keep .clear none
  | inputs (curr snap : Bucket) (shadows : List Bucket) :
      Hashed env keep
        (.ofInputHashes (env.getHash curr) (env.getHash snap) (shadows.map env.getHash))
        (some (Bucket.merge curr snap shadows keep))
  | output (b : Bucket) : Hashed env keep (.ofOutputHash (env.getHash b)) (some b)

variable {has : HistoryArchiveState Hash} {store : BucketStore env}

omit [DecidableEq Hash] in
theorem BucketStore.find_of_isSome {b : Bucket}
    (h : (store.getBucketByHash (env.getHash b)).isSome = true) :
    store.getBucketByHash (env.getHash b) = some b := by
  obtain ⟨b', hb'⟩ := Option.isSome_iff_exists.mp h
  rw [hb', env.getHash_injective (store.hash_eq _ _ hb')]

/-- Resolving a merge that has finished does not change its result. -/
theorem Pending.resolveIfReady (h : Pending env keep fb o) (ready : Bool) (curr snap : Hash) :
    ∃ fb', HistoryArchiveState.resolveIfReady env ready ⟨curr, fb, snap⟩ =
      .ok ⟨curr, fb', snap⟩ ∧ Pending env keep fb' o := by
  cases h with
  | clear => exact ⟨_, rfl, .clear⟩
  | inputs c s shadows =>
    cases ready with
    | false => exact ⟨_, rfl, .inputs c s shadows⟩
    | true =>
      refine ⟨_, ?_, .output _⟩
      exact (congrArg (· >>= _) resolve_ofInputs).trans rfl
  | output b => exact ⟨_, rfl, .output b⟩

theorem Pending.reloadLevel (h : Pending env keep fb o) (curr snap : Hash) :
    ∃ fb', HistoryArchiveState.reloadLevel env ⟨curr, fb, snap⟩ = .ok ⟨curr, fb', snap⟩ ∧
      Hashed env keep fb' o := by
  cases h with
  | clear =>
    refine ⟨_, ?_, .clear⟩
    exact (congrArg (· >>= _) save_clear).trans rfl
  | inputs c s shadows =>
    refine ⟨_, ?_, .inputs c s shadows⟩
    exact (congrArg (· >>= _) save_ofInputs).trans rfl
  | output b =>
    refine ⟨_, ?_, .output b⟩
    exact (congrArg (· >>= _) save_ofOutput).trans rfl

omit [DecidableEq Hash] in
theorem Hashed.isMerging (h : Hashed env keep fb o) : fb.isMerging = false := by
  cases h <;> rfl

/-- A merge that is started again has the result of the one that was saved. -/
theorem Hashed.restartMerge {i : ℕ} (h : Hashed env (keepDeadEntries i) fb o)
    (hpresent : ∀ x ∈ fb.getHashes, (store.getBucketByHash x).isSome = true)
    (curr snap : Bucket) :
    ∃ fb', Buckets.restartMerge store i ⟨curr, snap, fb⟩ = .ok ⟨curr, snap, fb'⟩ ∧
      Pending env (keepDeadEntries i) fb' o := by
  cases h with
  | clear => exact ⟨_, rfl, .clear⟩
  | inputs c s shadows =>
    have hfind : ∀ b ∈ c :: s :: shadows, store.getBucketByHash (env.getHash b) = some b := by
      intro b hb
      refine store.find_of_isSome (hpresent _ ?_)
      simpa [FutureBucket.getHashes, FutureBucket.ofInputHashes, FutureBucket.clear]
        using mem_map_of_mem hb
    have hshadows : ∀ b ∈ shadows, store.getBucketByHash (env.getHash b) = some b :=
      fun b hb => hfind b (mem_cons_of_mem _ (mem_cons_of_mem _ hb))
    refine ⟨_, ?_, .inputs c s shadows⟩
    exact (congrArg (· >>= _) (makeLive_inputs (hfind c (by simp))
      (hfind s (by simp)) hshadows)).trans rfl
  | output b =>
    have hfind : store.getBucketByHash (env.getHash b) = some b := by
      refine store.find_of_isSome (hpresent _ ?_)
      simp [getHashes, ofOutputHash]
    refine ⟨_, ?_, .output b⟩
    exact (congrArg (· >>= _) (makeLive_output hfind)).trans rfl

/-! ## A list that is saved and loaded -/

variable {bl : BucketList Hash} {v : ℕ → LevelView}

/-- A state with the levels `v`, whose merges are in the form `P`. -/
def HistoryArchiveState.Views (has : HistoryArchiveState Hash) (env : BucketHasher Hash)
    (P : Bool → FutureBucket Hash → Option Bucket → Prop) (v : ℕ → LevelView) : Prop :=
  ∀ i < kNumLevels, (has.currentBuckets i).curr = env.getHash (v i).curr ∧
    (has.currentBuckets i).snap = env.getHash (v i).snap ∧
    P (keepDeadEntries i) (has.currentBuckets i).next (v i).next

theorem HistoryArchiveState.resolveAnyReadyFutures_views
    (h : has.Views env (Pending env) v) (ready : ℕ → Bool) :
    ∃ has', has.resolveAnyReadyFutures env ready = .ok has' ∧
      has'.currentLedger = has.currentLedger ∧ has'.Views env (Pending env) v := by
  have hround : ∀ i < kNumLevels, ∃ b, resolveIfReady env (ready i) (has.currentBuckets i) = .ok b ∧
      b.curr = env.getHash (v i).curr ∧ b.snap = env.getHash (v i).snap ∧
      Pending env (keepDeadEntries i) b.next (v i).next := by
    intro i hi
    obtain ⟨hcurr, hsnap, hnext⟩ := h i hi
    obtain ⟨_, hfb, hpending⟩ := hnext.resolveIfReady (ready i)
      (has.currentBuckets i).curr (has.currentBuckets i).snap
    exact ⟨_, hfb, hcurr, hsnap, hpending⟩
  obtain ⟨bs, hbs, hviews⟩ := forLevels_eq_ok _ hround
  refine ⟨{ has with currentBuckets := bs }, ?_, rfl, hviews⟩
  rw [resolveAnyReadyFutures, hbs]
  rfl

theorem HistoryArchiveState.reload_views (h : has.Views env (Pending env) v) :
    ∃ has', has.reload env = .ok has' ∧ has'.currentLedger = has.currentLedger ∧
      has'.Views env (Hashed env) v := by
  have hround : ∀ i < kNumLevels, ∃ b, reloadLevel env (has.currentBuckets i) = .ok b ∧
      b.curr = env.getHash (v i).curr ∧ b.snap = env.getHash (v i).snap ∧
      Hashed env (keepDeadEntries i) b.next (v i).next := by
    intro i hi
    obtain ⟨hcurr, hsnap, hnext⟩ := h i hi
    obtain ⟨_, hfb, hhashed⟩ := hnext.reloadLevel
      (has.currentBuckets i).curr (has.currentBuckets i).snap
    exact ⟨_, hfb, hcurr, hsnap, hhashed⟩
  obtain ⟨bs, hbs, hviews⟩ := forLevels_eq_ok _ hround
  refine ⟨{ has with currentBuckets := bs }, ?_, rfl, hviews⟩
  have hresolved :
      futuresAllResolved ({ has with currentBuckets := bs }) =
        true := by
    simp only [futuresAllResolved, decide_eq_true_eq]
    intro i hi
    rw [(hviews i hi).2.2.isMerging]
    exact Bool.false_ne_true
  rw [reload, hbs]
  exact assert_bind hresolved _

theorem Views.savedState (h : Views env bl v) (ready : ℕ → Bool) (ledgerSeq : ℕ) :
    ∃ has, savedState env ready ledgerSeq bl = .ok has ∧ has.currentLedger = ledgerSeq ∧
      has.Views env (Hashed env) v := by
  have hviews : (HistoryArchiveState.ofBucketList env ledgerSeq bl).Views env (Pending env) v := by
    intro i hi
    obtain ⟨hcurr, hsnap, hnext⟩ := h.level i hi
    exact ⟨congrArg env.getHash hcurr, congrArg env.getHash hsnap, hnext⟩
  obtain ⟨has, hhas, hledger, hviews⟩ :=
    HistoryArchiveState.resolveAnyReadyFutures_views hviews ready
  obtain ⟨has', hhas', hledger', hviews'⟩ := HistoryArchiveState.reload_views hviews
  refine ⟨has', ?_, hledger'.trans hledger, hviews'⟩
  rw [Buckets.savedState, hhas, ok_bind, hhas']

/-- All buckets that a state refers to are there. -/
def BucketStore.Present (store : BucketStore env) (has : HistoryArchiveState Hash) : Prop :=
  ∀ h ∈ has.allBuckets, (store.getBucketByHash h).isSome = true

/-- A list that is built from the state of another one has its levels. -/
theorem assumeState_views (h : has.Views env (Hashed env) v) (hzero : (v 0).next = none)
    (hpresent : store.Present has) (bl : BucketList Hash) :
    ∃ bl', assumeState store has bl = .ok bl' ∧ Views env bl' v := by
  have hmem : ∀ i < kNumLevels, ∀ x ∈ (has.currentBuckets i).curr ::
      (has.currentBuckets i).snap :: (has.currentBuckets i).next.getHashes,
      (store.getBucketByHash x).isSome = true := fun i hi x hx =>
    hpresent x (mem_flatMap.mpr ⟨i, mem_range.mpr hi, hx⟩)
  have hassume : ∀ i < kNumLevels, ∃ level,
      assumeLevel store (has.currentBuckets i) (bl.mLevels i) = .ok level ∧
      level = ⟨(v i).curr, (v i).snap, (has.currentBuckets i).next⟩ := by
    intro i hi
    obtain ⟨hcurr, hsnap, -⟩ := h i hi
    have hc := hmem i hi _ (mem_cons_self ..)
    have hs := hmem i hi _ (mem_cons_of_mem _ (mem_cons_self ..))
    rw [hcurr] at hc
    rw [hsnap] at hs
    refine ⟨_, ?_, rfl⟩
    rw [assumeLevel, hcurr, hsnap, store.find_of_isSome hc, store.find_of_isSome hs]
    rfl
  obtain ⟨mLevels, hlevels, heq⟩ := forLevels_eq_ok _ hassume
  have hrestart : ∀ i < kNumLevels, ∃ level, restartMerge store i (mLevels i) = .ok level ∧
      LevelViews env i level (v i) := by
    intro i hi
    obtain ⟨_, hfb, hpending⟩ := (h i hi).2.2.restartMerge
      (fun x hx => hmem i hi x (mem_cons_of_mem _ (mem_cons_of_mem _ hx)))
      (v i).curr (v i).snap
    rw [heq i hi]
    exact ⟨_, hfb, rfl, rfl, hpending⟩
  obtain ⟨mLevels', hlevels', hviews⟩ := forLevels_eq_ok _ hrestart
  refine ⟨⟨mLevels'⟩, ?_, hviews, hzero⟩
  rw [assumeState, hlevels, ok_bind, BucketList.restartMerges, hlevels']
  rfl

/-! ## Runs with restarts -/

/-- A restart: which merges had finished when the state was saved, and the files
that are there. -/
structure Restart (env : BucketHasher Hash) where
  ready : ℕ → Bool
  store : BucketStore env

/-- What a restart after a ledger makes of the bucket list. -/
def restart (r : Restart env) (ledgerSeq : ℕ) (bl : BucketList Hash) :
    Checked (BucketList Hash) := do
  let has ← savedState env r.ready ledgerSeq bl
  assumeState r.store has .new

/-- The restart after a ledger, if there is one. -/
def restartIf (restarts : ℕ → Option (Restart env)) (ledgerSeq : ℕ)
    (bl : BucketList Hash) : Checked (BucketList Hash) :=
  match restarts ledgerSeq with
  | none => pure bl
  | some r => restart r ledgerSeq bl

variable (env) in
/-- The list after the first `n` batches of a node that is restarted after some of
the ledgers before. -/
def addBatchesRestarting (batches : ℕ → Batch) (restarts : ℕ → Option (Restart env)) :
    ℕ → Checked (BucketList Hash)
  | 0 => pure .new
  | n + 1 => do
    let bl ← addBatchesRestarting batches restarts n
    let bl ← restartIf restarts n bl
    bl.addBatch env (n + 1) (batches (n + 1)).liveEntries (batches (n + 1)).deadEntries

/-- The buckets of the state that is saved after a ledger are there if the node
is restarted then. -/
def RestartPresent (batches : ℕ → Batch) (restarts : ℕ → Option (Restart env))
    (ledgerSeq : ℕ) : Prop :=
  ∀ r ∈ restarts ledgerSeq, ∀ bl has,
    addBatchesRestarting env batches restarts ledgerSeq = .ok bl →
    savedState env r.ready ledgerSeq bl = .ok has → r.store.Present has

variable {batches : ℕ → Batch} {restarts : ℕ → Option (Restart env)} {n : ℕ}

/-- A restart keeps the levels. -/
theorem restartIf_views (h : Views env bl v) (ledgerSeq : ℕ)
    (hpresent : ∀ r ∈ restarts ledgerSeq, ∀ has,
      savedState env r.ready ledgerSeq bl = .ok has → r.store.Present has) :
    ∃ bl', restartIf restarts ledgerSeq bl = .ok bl' ∧ Views env bl' v := by
  unfold restartIf
  cases hr : restarts ledgerSeq with
  | none => exact ⟨bl, rfl, h⟩
  | some r =>
    obtain ⟨has, hhas, -, hviews⟩ := h.savedState r.ready ledgerSeq
    obtain ⟨bl', hbl', h'⟩ := assumeState_views hviews h.zero (hpresent r hr has hhas) .new
    refine ⟨bl', ?_, h'⟩
    dsimp only
    rw [restart, hhas, ok_bind, hbl']

/-- A run with restarts has the levels of the run without. -/
theorem addBatchesRestarting_views (hpresent : ∀ i < n, RestartPresent batches restarts i) :
    ∃ bl, addBatchesRestarting env batches restarts n = .ok bl ∧
      Views env bl (viewAfter batches n) := by
  induction n with
  | zero => exact ⟨_, rfl, views_new env⟩
  | succ n ih =>
    obtain ⟨bl, hbl, h⟩ := ih fun i hi => hpresent i (by omega)
    obtain ⟨_, hbl₁, h₁⟩ := restartIf_views h n
      fun r hr has hhas => hpresent n (Nat.lt_succ_self n) r hr bl has hbl hhas
    obtain ⟨bl₂, hbl₂, h₂⟩ := addBatch_views h₁ (Nat.succ_pos n)
      (batches (n + 1)).liveEntries (batches (n + 1)).deadEntries
    refine ⟨bl₂, ?_, h₂⟩
    rw [addBatchesRestarting, hbl, ok_bind, hbl₁, ok_bind, hbl₂]

/-- Restarts are transparent: a node that is restarted after any of the ledgers,
the last one included, fails no `assert`, in particular none of `checkState`, and
has the buckets of a node that runs without a restart. -/
theorem restarts_transparent (batches : ℕ → Batch) (restarts : ℕ → Option (Restart env))
    (n : ℕ) (hpresent : ∀ i ≤ n, RestartPresent batches restarts i) :
    ∃ bl bl₀, (addBatchesRestarting env batches restarts n >>= restartIf restarts n) = .ok bl ∧
      addBatches env batches n = .ok bl₀ ∧
      ∀ i < kNumLevels, env.getHash (bl.mLevels i).mCurr = env.getHash (bl₀.mLevels i).mCurr ∧
        env.getHash (bl.mLevels i).mSnap = env.getHash (bl₀.mLevels i).mSnap := by
  obtain ⟨bl₁, hbl₁, h₁⟩ := addBatchesRestarting_views fun i hi => hpresent i hi.le
  obtain ⟨bl, hbl, h⟩ := restartIf_views h₁ n
    fun r hr has hhas => hpresent n le_rfl r hr bl₁ has hbl₁ hhas
  obtain ⟨bl₀, hbl₀, h₀⟩ := addBatches_views env batches n
  refine ⟨bl, bl₀, ?_, hbl₀, fun i hi => ?_⟩
  · rw [hbl₁, ok_bind, hbl]
  · rw [(h.level i hi).curr, (h.level i hi).snap, (h₀.level i hi).curr, (h₀.level i hi).snap]
    exact ⟨rfl, rfl⟩

omit [DecidableEq Hash] in
/-- The state of a list refers to hashes of buckets only. -/
theorem HistoryArchiveState.Views.exists_bucket
    (h : has.Views env (Hashed env) v) {x : Hash} (hx : x ∈ has.allBuckets) :
    ∃ b, env.getHash b = x := by
  obtain ⟨i, hi, hx⟩ := List.mem_flatMap.mp hx
  obtain ⟨hcurr, hsnap, hnext⟩ := h i (List.mem_range.mp hi)
  rw [hcurr, hsnap, List.mem_cons, List.mem_cons] at hx
  rcases hx with rfl | rfl | hx
  · exact ⟨_, rfl⟩
  · exact ⟨_, rfl⟩
  · generalize (has.currentBuckets i).next = fb, (v i).next = o at hnext hx
    cases hnext with
    | clear => simp [getHashes, clear] at hx
    | inputs c s shadows =>
      have hmem : x ∈ (c :: s :: shadows).map env.getHash := by
        simpa [getHashes, ofInputHashes, clear]
          using hx
      obtain ⟨b, -, hb⟩ := List.mem_map.mp hmem
      exact ⟨b, hb⟩
    | output b =>
      simp only [getHashes, ofOutputHash, clear,
        Option.toList, List.nil_append, List.mem_singleton] at hx
      exact ⟨b, hx.symm⟩

/-- A node that never loses a file can be restarted at any time. -/
theorem restartPresent_of_complete (h : ∀ i, ∀ r ∈ restarts i, ∀ b,
      (r.store.getBucketByHash (env.getHash b)).isSome = true) (n : ℕ) :
    RestartPresent batches restarts n := by
  induction n using Nat.strong_induction_on with
  | _ n ih =>
    intro r hr bl has hbl hhas x hx
    obtain ⟨_, hbl', hviews⟩ := addBatchesRestarting_views ih
    obtain ⟨_, hhas', -, hviews'⟩ := hviews.savedState r.ready n
    cases hbl.symm.trans hbl'
    cases hhas.symm.trans hhas'
    obtain ⟨b, rfl⟩ := hviews'.exists_bucket hx
    exact h n r hr b

/-- Files for all buckets. -/
def contentStore : BucketStore contentHasher where
  getBucketByHash entries := if h : Sorted entries then some ⟨entries, h⟩ else none
  hash_eq entries b h := by
    split at h
    · cases h
      rfl
    · cases h

theorem contentStore_complete (b : Bucket) :
    (contentStore.getBucketByHash (contentHasher.getHash b)).isSome = true := by
  simp [contentStore, contentHasher, dif_pos b.sorted]

/-- A node that is restarted after ledgers 2 and 4, where the merge into level 1
is running, and finished. -/
def twoRestarts : ℕ → Option (Restart contentHasher)
  | 2 => some ⟨fun _ => false, contentStore⟩
  | 4 => some ⟨fun _ => true, contentStore⟩
  | _ => none

theorem twoRestarts_complete (i : ℕ) : ∀ r ∈ twoRestarts i, ∀ b,
    (r.store.getBucketByHash (contentHasher.getHash b)).isSome = true := by
  intro r hr b
  unfold twoRestarts at hr
  split at hr <;> cases hr <;> exact contentStore_complete b

theorem restarts_transparent_twice : ∃ bl bl₀,
      (addBatchesRestarting contentHasher dataBatches twoRestarts 9 >>=
        restartIf twoRestarts 9) = .ok bl ∧
      addBatches contentHasher dataBatches 9 = .ok bl₀ ∧
      ∀ i < kNumLevels, contentHasher.getHash (bl.mLevels i).mCurr =
          contentHasher.getHash (bl₀.mLevels i).mCurr ∧
        contentHasher.getHash (bl.mLevels i).mSnap = contentHasher.getHash (bl₀.mLevels i).mSnap :=
  restarts_transparent dataBatches twoRestarts 9
    fun i _ => restartPresent_of_complete twoRestarts_complete i

end EssaCore.Buckets
