import EssaCore.Lib.BatchLog
import EssaCore.Buckets.Spills

/-!
# The bucket list represents the ledger

Each bucket of the list stands for a range of ledgers, and the ranges tile all
ledgers so far, from the youngest bucket to the oldest. A bucket may lack what a
younger one has, since merges leave out shadowed entries, and the last level
lacks tombstones; searching the buckets from the youngest to the oldest still
finds the last change of every key.

- `currLo`, `currHi`, `snapLo` — the ranges of the buckets after `n` ledgers;
- `Inv` — every bucket, and the result of every merge, represents its range;
- `Inv.step` — a batch keeps the invariant;
- `bucketList_represents_ledger` — what a search finds.
-/

open List

namespace EssaCore.Buckets

open Ledger Lib Bucket

variable {Hash : Type}

/-! ## Batches as a log -/

namespace Batch

/-- What a batch says about a key. -/
def mention (b : Batch) (k : LedgerKey) : Option BucketEntry :=
  if k ∈ b.deadEntries then some (.DEADENTRY k)
  else (b.liveEntries.find? fun e => LedgerEntryKey e = k).map .LIVEENTRY

/-- The keys of a batch are pairwise distinct. -/
def Distinct (b : Batch) : Prop :=
  (b.liveEntries.map LedgerEntryKey ++ b.deadEntries).Nodup

theorem Distinct.find_fresh {b : Batch} (h : b.Distinct) (k : LedgerKey) :
    (Bucket.fresh b.liveEntries b.deadEntries).find k = b.mention k := by
  obtain ⟨hlive, hdead, -⟩ := nodup_append.mp h
  exact Bucket.find_fresh (pairwise_map.mp hlive) hdead k

end Batch

/-- What the last of the first `n` batches that mentions a key says about it. -/
def lastMention (batches : ℕ → Batch) (k : LedgerKey) : ℕ → Option BucketEntry
  | 0 => none
  | n + 1 => ((batches (n + 1)).mention k).or (lastMention batches k n)

/-- The batches as a log. -/
def logOf (batches : ℕ → Batch) : BatchLog LedgerKey BucketEntry :=
  fun n k => (batches n).mention k

/-- Tombstones may be dropped at the bottom. -/
def Gone (e : BucketEntry) : Prop := e.isLive = false

theorem lastMention_eq (batches : ℕ → Batch) (k : LedgerKey) (n : ℕ) :
    lastMention batches k n = ((logOf batches).lastIn 0 k n).map Prod.snd := by
  induction n with
  | zero => rfl
  | succ n ih =>
    rw [lastMention, ih, BatchLog.lastIn, logOf]
    cases (batches (n + 1)).mention k <;> simp

/-- The last mention of a key is a tombstone of it or a live entry. -/
theorem lastMention_cases (batches : ℕ → Batch) (k : LedgerKey) (n : ℕ) :
    lastMention batches k n = none ∨ lastMention batches k n = some (.DEADENTRY k) ∨
      ∃ e, lastMention batches k n = some (.LIVEENTRY e) := by
  induction n with
  | zero => exact .inl rfl
  | succ n ih =>
    rw [lastMention, Batch.mention]
    split
    · exact .inr (.inl rfl)
    · cases (batches (n + 1)).liveEntries.find? fun e => LedgerEntryKey e = k with
      | none => exact ih
      | some e => exact .inr (.inr ⟨e, rfl⟩)

/-! ## Ranges -/

/-- The range of a level ends where that of the level above starts. -/
def above (n : ℕ) (lo : ℕ → ℕ) : ℕ → ℕ
  | 0 => n
  | i + 1 => lo i

/-- The lower ends of the ranges of `curr` and `snap` after `n` ledgers: a spill
moves the range of `curr` to `snap`. -/
def bounds : ℕ → ℕ → ℕ × ℕ
  | 0, _ => (0, 0)
  | n + 1, i =>
    if levelShouldSpill (n + 1) i then
      (above n (fun j => (bounds n j).2) i, (bounds n i).1)
    else bounds n i

/-- `curr` of level `i` stands for the ledgers from here, exclusively, ... -/
def currLo (n i : ℕ) : ℕ := (bounds n i).1

/-- `snap` of level `i` stands for the ledgers from here, exclusively, to `currLo`. -/
def snapLo (n i : ℕ) : ℕ := (bounds n i).2

/-- ... to here, inclusively. -/
def currHi (n : ℕ) : ℕ → ℕ := above n (snapLo n)

variable {i n : ℕ}

theorem currLo_of_spill (h : levelShouldSpill (n + 1) i = true) :
    currLo (n + 1) i = currHi n i := by
  rw [currLo, bounds, if_pos h]
  rfl

theorem snapLo_of_spill (h : levelShouldSpill (n + 1) i = true) :
    snapLo (n + 1) i = currLo n i := by
  rw [snapLo, bounds, if_pos h]
  rfl

theorem currLo_of_not_spill (h : ¬ levelShouldSpill (n + 1) i = true) :
    currLo (n + 1) i = currLo n i := by
  rw [currLo, bounds, if_neg h]
  rfl

theorem snapLo_of_not_spill (h : ¬ levelShouldSpill (n + 1) i = true) :
    snapLo (n + 1) i = snapLo n i := by
  rw [snapLo, bounds, if_neg h]
  rfl

theorem snapLo_le_currLo_le (n i : ℕ) : snapLo n i ≤ currLo n i ∧ currLo n i ≤ currHi n i := by
  induction n generalizing i with
  | zero => exact ⟨le_rfl, Nat.zero_le _⟩
  | succ n ih =>
    have hhi : currHi n i ≤ currHi (n + 1) i := by
      cases i with
      | zero => exact Nat.le_succ n
      | succ i =>
        by_cases h : levelShouldSpill (n + 1) i = true
        · exact (ih i).1.trans (snapLo_of_spill h).ge
        · exact (snapLo_of_not_spill h).ge
    by_cases h : levelShouldSpill (n + 1) i = true
    · rw [snapLo_of_spill h, currLo_of_spill h]
      exact ⟨(ih i).2, hhi⟩
    · rw [snapLo_of_not_spill h, currLo_of_not_spill h]
      exact ⟨(ih i).1, (ih i).2.trans hhi⟩

/-- Ranges only move to younger ledgers. -/
theorem bounds_mono {m : ℕ} (h : n ≤ m) (i : ℕ) :
    snapLo n i ≤ snapLo m i ∧ currLo n i ≤ currLo m i := by
  induction h with
  | refl => exact ⟨le_rfl, le_rfl⟩
  | @step m _ ih =>
    obtain ⟨h1, h2⟩ := snapLo_le_currLo_le m i
    by_cases hs : levelShouldSpill (m + 1) i = true
    · rw [snapLo_of_spill hs, currLo_of_spill hs]
      exact ⟨ih.1.trans h1, ih.2.trans h2⟩
    · rw [snapLo_of_not_spill hs, currLo_of_not_spill hs]
      exact ih

theorem currHi_mono {m : ℕ} (h : n ≤ m) (i : ℕ) : currHi n i ≤ currHi m i := by
  cases i with
  | zero => exact h
  | succ i => exact (bounds_mono h i).1

/-- Older levels stand for older ledgers. -/
theorem currHi_le_snapLo {j : ℕ} (h : j < i) : currHi n i ≤ snapLo n j := by
  induction i with
  | zero => omega
  | succ i ih =>
    by_cases hj : j = i
    · subst hj
      exact le_rfl
    · obtain ⟨h1, h2⟩ := snapLo_le_currLo_le n i
      exact (h1.trans h2).trans (ih (by omega))

theorem currHi_le (n i : ℕ) : currHi n i ≤ n := by
  cases i with
  | zero => exact le_rfl
  | succ i =>
    obtain ⟨h1, h2⟩ := snapLo_le_currLo_le n 0
    cases i with
    | zero => exact h1.trans h2
    | succ i => exact (currHi_le_snapLo (Nat.succ_pos _)).trans (h1.trans h2)

/-- A level that has not spilled yet has an empty snapshot. -/
theorem bounds_of_not_spill (h : ∀ m, 0 < m → m ≤ n → ¬ levelShouldSpill m i = true) :
    currLo n i = 0 ∧ snapLo n i = 0 := by
  induction n with
  | zero => exact ⟨rfl, rfl⟩
  | succ n ih =>
    have hno := h (n + 1) (Nat.succ_pos n) le_rfl
    rw [currLo_of_not_spill hno, snapLo_of_not_spill hno]
    exact ih fun m hm hmn => h m hm (by omega)

theorem bounds_of_lt (h : n < levelHalf i) : currLo n i = 0 ∧ snapLo n i = 0 := by
  refine bounds_of_not_spill fun m hm hmn => ?_
  rw [levelShouldSpill_iff]
  rintro ⟨-, hdvd⟩
  have := Nat.le_of_dvd hm hdvd
  omega

/-- The last level never spills. -/
theorem bounds_last (n : ℕ) : currLo n (kNumLevels - 1) = 0 ∧ snapLo n (kNumLevels - 1) = 0 := by
  refine bounds_of_not_spill fun m _ _ => ?_
  rw [levelShouldSpill_iff]
  exact fun h => h.1 rfl

/-! ## The time of the next spill -/

/-- The first ledger after `n` at which level `i` spills. -/
def nextSpill (n i : ℕ) : ℕ := (n / levelHalf i + 1) * levelHalf i

theorem nextSpill_of_dvd_succ (h : levelHalf i ∣ n + 1) : nextSpill n i = n + 1 := by
  rw [nextSpill, ← Nat.succ_div_of_dvd h]
  exact Nat.div_mul_cancel h

theorem nextSpill_of_dvd (h : levelHalf i ∣ n) : nextSpill n i = n + levelHalf i := by
  rw [nextSpill, Nat.add_mul, Nat.div_mul_cancel h, Nat.one_mul]

theorem nextSpill_succ (h : ¬ levelHalf i ∣ n + 1) :
    nextSpill (n + 1) i = nextSpill n i := by
  rw [nextSpill, nextSpill, Nat.succ_div_of_not_dvd h]

/-! ## The invariant -/

/-- The range of the merge into level `i + 1` starts with the snapshot if `curr`
will be a snapshot when the merge is committed. -/
def nextLo (n i : ℕ) : ℕ :=
  if levelShouldSpill (nextSpill n i) (i + 1) then snapLo n i else currLo n (i + 1)

/-- Every bucket represents its range, and so does the result of every merge. A
level has a merge as soon as the level above has spilled once. -/
structure Inv (log : BatchLog LedgerKey BucketEntry) (n : ℕ) (v : ℕ → LevelView) :
    Prop where
  curr : ∀ i < kNumLevels,
    log.Represents Gone (currLo n i) (currHi n i) n (i = kNumLevels - 1) (v i).curr.find
  snap : ∀ i < kNumLevels,
    log.Represents Gone (snapLo n i) (currLo n i) n False (v i).snap.find
  next : ∀ i, i + 1 < kNumLevels →
    ((v (i + 1)).next = none ∧ n < levelHalf i) ∨
    ∃ b, (v (i + 1)).next = some b ∧ log.Represents Gone (nextLo n i) (currLo n i) n
      (i + 1 = kNumLevels - 1) b.find

variable {log : BatchLog LedgerKey BucketEntry} {n : ℕ} {v : ℕ → LevelView}

theorem Represents.bottom_congr {lo hi : ℕ} {p q : Prop} {b : LedgerKey → Option BucketEntry}
    (h : log.Represents Gone lo hi n p b) (hpq : p ↔ q) :
    log.Represents Gone lo hi n q b := by
  rwa [propext hpq] at h

/-- A merge into level `i` of buckets with adjacent ranges. -/
theorem Represents.bucketMerge {lo mid hi : ℕ} {old new : Bucket} {shadows : List Bucket}
    (h₁ : lo ≤ mid) (h₂ : mid ≤ hi) (hlevel : i < kNumLevels)
    (hold : log.Represents Gone lo mid n (i = kNumLevels - 1) old.find)
    (hnew : log.Represents Gone mid hi n False new.find)
    (hshadow : ∀ k, Bucket.ShadowedBy shadows k → log.MentionedIn hi n k) :
    log.Represents Gone lo hi n (i = kNumLevels - 1)
      (Bucket.merge old new shadows (keepDeadEntries i)).find := by
  refine .merge h₁ h₂ hold hnew hshadow id ?_ (find_merge _ _ _ _)
  -- only the last level drops anything, and only tombstones
  intro e he
  obtain ⟨hkeep, hlive⟩ := Bool.or_eq_false_iff.mp he
  have hlast : ¬ i < kNumLevels - 1 := by simpa [keepDeadEntries] using hkeep
  exact ⟨by omega, hlive⟩

/-- The invariant of the empty list. -/
theorem Inv.new : Inv log 0 fun _ => ⟨.empty, .empty, none⟩ where
  curr i _ := by
    cases i with
    | zero => exact .empty
    | succ i => exact .empty
  snap i _ := .empty
  next i _ := .inl ⟨rfl, levelHalf_pos i⟩

variable (h : Inv log n v)

include h

/-- Everything in a younger level is mentioned after the range of `curr`. -/
theorem Inv.shadowed (hi : i < kNumLevels) {k : LedgerKey}
    (hk : Bucket.ShadowedBy (bucketsBelow v i) k) : log.MentionedIn (currHi n i) n k := by
  obtain ⟨b, hb, hbk⟩ := hk
  obtain ⟨j, hj, hbj⟩ := mem_flatMap.mp hb
  have hji : j < i := mem_range.mp hj
  have hle := currHi_le_snapLo (n := n) hji
  obtain ⟨_, _⟩ := snapLo_le_currLo_le n j
  have h3 := currHi_le n j
  simp only [mem_cons, not_mem_nil, or_false] at hbj
  rcases hbj with rfl | rfl
  · obtain ⟨m, hm1, hm2, hm3⟩ := (h.curr j (by omega)).mentionedIn hbk
    exact ⟨m, by omega, by omega, hm3⟩
  · obtain ⟨m, hm1, hm2, hm3⟩ := (h.snap j (by omega)).mentionedIn hbk
    exact ⟨m, by omega, by omega, hm3⟩

/-- A level after the snapshot, if it makes one. -/
theorem Inv.snapIfSpills (hi : i < kNumLevels) :
    log.Represents Gone (currLo (n + 1) i) (currHi n i) n (i = kNumLevels - 1)
      (snapIfSpills (n + 1) v i).curr.find ∧
    log.Represents Gone (snapLo (n + 1) i) (currLo (n + 1) i) n False
      (Buckets.snapIfSpills (n + 1) v i).snap.find ∧
    (Buckets.snapIfSpills (n + 1) v i).next = (v i).next := by
  unfold Buckets.snapIfSpills
  by_cases hs : levelShouldSpill (n + 1) i = true
  · rw [if_pos hs, currLo_of_spill hs, snapLo_of_spill hs]
    refine ⟨.empty, ?_, rfl⟩
    have hne : i ≠ kNumLevels - 1 := (levelShouldSpill_iff.mp hs).1
    exact Represents.bottom_congr (h.curr i hi) (iff_of_false hne not_false)
  · rw [if_neg hs, currLo_of_not_spill hs, snapLo_of_not_spill hs]
    exact ⟨h.curr i hi, h.snap i hi, rfl⟩

/-- What a level commits when the level above spills is the merge that was
prepared when it last did, which ends where `curr` of the level above starts. -/
theorem Inv.committed (hi : i + 1 < kNumLevels)
    (hs : levelShouldSpill (n + 1) i = true) :
    log.Represents Gone (currLo (n + 1) (i + 1)) (currLo n i) n
      (i + 1 = kNumLevels - 1) (Buckets.snapIfSpills (n + 1) v (i + 1)).committed.find := by
  obtain ⟨hcurr, -, hnext⟩ := h.snapIfSpills hi
  have hdvd : levelHalf i ∣ n + 1 := (levelShouldSpill_iff.mp hs).2
  rw [LevelView.committed, hnext]
  rcases h.next i hi with ⟨hnone, hlt⟩ | ⟨b, hb, hrep⟩
  · -- the first spill of the level above: its ranges are still empty
    obtain ⟨hlo, hsnap⟩ := bounds_of_lt hlt
    have hhi : currHi n (i + 1) = currLo n i := hsnap.trans hlo.symm
    rw [hnone, ← hhi]
    exact hcurr
  · have hlo : nextLo n i = currLo (n + 1) (i + 1) := by
      rw [nextLo, nextSpill_of_dvd_succ hdvd]
      split
      case isTrue hs' => exact (currLo_of_spill hs').symm
      case isFalse hs' => exact (currLo_of_not_spill hs').symm
    rw [hb, ← hlo]
    exact hrep

/-- The merge that a level prepares when the level above spills. -/
theorem Inv.prepared (hi : i + 1 < kNumLevels)
    (hs : levelShouldSpill (n + 1) i = true) :
    log.Represents Gone (nextLo (n + 1) i) (currLo (n + 1) i) (n + 1) (i + 1 = kNumLevels - 1)
      (Bucket.merge (if levelShouldSpill (n + 1 + levelHalf i) (i + 1) then .empty
          else (Buckets.snapIfSpills (n + 1) v (i + 1)).committed)
        (v i).curr (bucketsBelow v i) (keepDeadEntries (i + 1))).find := by
  have hdvd : levelHalf i ∣ n + 1 := (levelShouldSpill_iff.mp hs).2
  have hnew : log.Represents Gone (currLo n i) (currHi n i) (n + 1) False (v i).curr.find :=
    Represents.bottom_congr ((h.curr i (by omega)).mono (Nat.le_succ n))
      (iff_of_false (by omega) not_false)
  have hold : log.Represents Gone (nextLo (n + 1) i) (currLo n i) (n + 1) (i + 1 = kNumLevels - 1)
      (if levelShouldSpill (n + 1 + levelHalf i) (i + 1) then empty
        else (Buckets.snapIfSpills (n + 1) v (i + 1)).committed).find := by
    rw [nextLo, nextSpill_of_dvd hdvd]
    split
    · rw [snapLo_of_spill hs]
      exact .empty
    · exact (h.committed hi hs).mono (Nat.le_succ n)
  have hle : nextLo (n + 1) i ≤ currLo n i := by
    rw [nextLo, snapLo_of_spill hs]
    split
    · exact le_rfl
    · exact (snapLo_le_currLo_le (n + 1) (i + 1)).2.trans (snapLo_of_spill hs).le
  rw [currLo_of_spill hs]
  exact Represents.bucketMerge hle (snapLo_le_currLo_le n i).2 hi hold hnew
    fun k hk => (h.shadowed (by omega) hk).mono (Nat.le_succ n)

/-- A level below the first one after a batch. -/
theorem Inv.stepLevel (hi : i + 1 < kNumLevels) :
    log.Represents Gone (currLo (n + 1) (i + 1)) (currHi (n + 1) (i + 1)) (n + 1)
      (i + 1 = kNumLevels - 1) (stepLevel (n + 1) v (i + 1)).curr.find ∧
    log.Represents Gone (snapLo (n + 1) (i + 1)) (currLo (n + 1) (i + 1)) (n + 1) False
      (Buckets.stepLevel (n + 1) v (i + 1)).snap.find ∧
    (((Buckets.stepLevel (n + 1) v (i + 1)).next = none ∧ n + 1 < levelHalf i) ∨
      ∃ b, (Buckets.stepLevel (n + 1) v (i + 1)).next = some b ∧
        log.Represents Gone (nextLo (n + 1) i) (currLo (n + 1) i) (n + 1)
          (i + 1 = kNumLevels - 1) b.find) := by
  have hmono := Nat.le_succ n
  by_cases hs : levelShouldSpill (n + 1) i = true
  · have hhi : currHi (n + 1) (i + 1) = currLo n i := snapLo_of_spill hs
    rw [Buckets.stepLevel, if_pos hs, hhi]
    exact ⟨(h.committed hi hs).mono hmono, (h.snapIfSpills hi).2.1.mono hmono,
      .inr ⟨_, rfl, h.prepared hi hs⟩⟩
  · -- the level below does not spill either, and nothing moves
    have hs' : ¬ levelShouldSpill (n + 1) (i + 1) = true :=
      fun h' => hs (levelShouldSpill_of_succ hi h')
    have hndvd : ¬ levelHalf i ∣ n + 1 :=
      fun hd => hs (levelShouldSpill_iff.mpr ⟨by omega, hd⟩)
    have hhi : currHi (n + 1) (i + 1) = currHi n (i + 1) := snapLo_of_not_spill hs
    have hnext : nextLo (n + 1) i = nextLo n i := by
      rw [nextLo, nextLo, nextSpill_succ hndvd, snapLo_of_not_spill hs, currLo_of_not_spill hs']
    rw [Buckets.stepLevel, if_neg hs, hhi, currLo_of_not_spill hs', snapLo_of_not_spill hs',
      currLo_of_not_spill hs, hnext]
    refine ⟨(h.curr _ hi).mono hmono, (h.snap _ hi).mono hmono, ?_⟩
    rcases h.next i hi with ⟨hnone, _⟩ | ⟨b, hb, hrep⟩
    · have hne : n + 1 ≠ levelHalf i := by
        intro heq
        exact hndvd (heq ▸ dvd_rfl)
      exact .inl ⟨hnone, by omega⟩
    · exact .inr ⟨b, hb, hrep.mono hmono⟩

/-- A batch keeps the invariant. -/
theorem Inv.step {fresh : Bucket} (hfresh : ∀ k, fresh.find k = log (n + 1) k) :
    Inv log (n + 1) (addBatchView (n + 1) v fresh) where
  curr i hi := by
    cases i with
    | zero =>
      rw [addBatchView]
      have hle : currLo (n + 1) 0 ≤ n := by
        by_cases hs : levelShouldSpill (n + 1) 0 = true
        · exact (currLo_of_spill hs).le
        · rw [currLo_of_not_spill hs]
          exact (snapLo_le_currLo_le n 0).2
      refine Represents.bucketMerge hle (Nat.le_succ n) hi
        ((h.snapIfSpills hi).1.mono (Nat.le_succ n)) (.batch hfresh) ?_
      rintro k ⟨b, hb, -⟩
      cases hb
    | succ i =>
      rw [addBatchView]
      exact (h.stepLevel hi).1
  snap i hi := by
    cases i with
    | zero =>
      rw [addBatchView]
      exact (h.snapIfSpills hi).2.1.mono (Nat.le_succ n)
    | succ i =>
      rw [addBatchView]
      exact (h.stepLevel hi).2.1
  next i hi := by
    rw [addBatchView]
    exact (h.stepLevel hi).2.2

/-! ## Searching the list -/

/-- The buckets of the levels from `i` on tile the ledgers up to their range. -/
theorem Inv.tiles (d i : ℕ) (hi : i + d = kNumLevels) :
    log.Tiles Gone n 0 (currHi n i)
      (((List.range' i d).flatMap fun i => [(v i).curr, (v i).snap]).map Bucket.find) := by
  induction d generalizing i with
  | zero =>
    have hhi : currHi n i = 0 := by
      rw [show i = kNumLevels - 1 + 1 from hi]
      exact (bounds_last n).2
    rw [hhi]
    exact .nil
  | succ d ih =>
    rw [List.range'_succ, flatMap_cons]
    obtain ⟨h1, h2⟩ := snapLo_le_currLo_le n i
    refine .cons h2 (h.curr i (by omega)) ?_ (.cons h1 (h.snap i (by omega)) nofun ?_)
    · rintro rfl
      exact (bounds_last n).1
    · exact ih (i + 1) (by omega)

omit h

/-- The levels after the first `n` batches. -/
def viewAfter (batches : ℕ → Batch) : ℕ → ℕ → LevelView
  | 0 => fun _ => ⟨.empty, .empty, none⟩
  | n + 1 => addBatchView (n + 1) (viewAfter batches n)
      (Bucket.fresh (batches (n + 1)).liveEntries (batches (n + 1)).deadEntries)

theorem inv_viewAfter {batches : ℕ → Batch}
    (hkeys : ∀ i, 0 < i → i ≤ n → (batches i).Distinct) :
    Inv (logOf batches) n (viewAfter batches n) := by
  induction n with
  | zero => exact .new
  | succ n ih =>
    refine (ih fun i hi hin => hkeys i hi (by omega)).step fun k => ?_
    exact (hkeys (n + 1) (Nat.succ_pos n) le_rfl).find_fresh k

section Runs

variable [DecidableEq Hash] (env : BucketHasher Hash)

omit [DecidableEq Hash] in
theorem views_new : Views env .new fun _ => ⟨.empty, .empty, none⟩ where
  level _ _ := ⟨rfl, rfl, .clear⟩
  zero := rfl

/-- No `assert` fails over a run of batches. -/
theorem addBatches_views (batches : ℕ → Batch) (n : ℕ) :
    ∃ bl, addBatches env batches n = .ok bl ∧ Views env bl (viewAfter batches n) := by
  induction n with
  | zero => exact ⟨_, rfl, views_new env⟩
  | succ n ih =>
    obtain ⟨bl, hbl, h⟩ := ih
    obtain ⟨bl', hbl', h'⟩ := addBatch_views h (Nat.succ_pos n)
      (batches (n + 1)).liveEntries (batches (n + 1)).deadEntries
    refine ⟨bl', ?_, h'⟩
    rw [addBatches, hbl, ok_bind, hbl']

/-- The first entry for a key in `curr` and `snap` of the levels, from the first
level to the last. -/
def BucketList.find (bl : BucketList Hash) (k : LedgerKey) : Option BucketEntry :=
  (bl.buckets kNumLevels).findSome? (·.find k)

omit [DecidableEq Hash] in
/-- Searching a list whose levels have the invariant. -/
theorem Views.find_eq {bl : BucketList Hash} {v : ℕ → LevelView} {log : BatchLog _ _}
    (h : Views env bl v) (hinv : Inv log n v) (k : LedgerKey) :
    bl.find k = (log.lastIn 0 k n).map Prod.snd ∨
      bl.find k = none ∧ ∃ m e, log.lastIn 0 k n = some (m, e) ∧ Gone e := by
  have htiles := hinv.tiles kNumLevels 0 rfl
  rw [← List.range_eq_range'] at htiles
  have hfind : bl.find k = ((bucketsBelow v kNumLevels).map find).findSome? (· k) := by
    rw [BucketList.find, h.buckets le_rfl, List.findSome?_map]
    rfl
  rw [hfind]
  cases hlast : log.lastIn 0 k n with
  | none =>
    refine .inl (htiles.scan_of_not_mentioned ?_)
    rw [BatchLog.mentionedIn_iff]
    exact fun hne => hne hlast
  | some x =>
    obtain ⟨m, e⟩ := x
    have hlater : ¬ log.MentionedIn n n k := by
      rintro ⟨i, h1, h2, -⟩
      omega
    rcases htiles.scan_eq hlater hlast with hscan | ⟨hscan, hgone, -⟩
    · exact .inl hscan
    · exact .inr ⟨hscan, m, e, rfl, hgone⟩

/-- The bucket list represents the ledger: after any batches, a search from the
youngest bucket to the oldest finds a live entry for a key if and only if the last
batch that mentions the key made it live with this value. -/
theorem bucketList_represents_ledger (batches : ℕ → Batch) (n : ℕ)
    (hkeys : ∀ i, 0 < i → i ≤ n → (batches i).Distinct) :
    ∃ bl, addBatches env batches n = .ok bl ∧ ∀ k, (∀ e, bl.find k = some (.LIVEENTRY e) ↔
        lastMention batches k n = some (.LIVEENTRY e)) ∧
      ((∀ e, lastMention batches k n ≠ some (.LIVEENTRY e)) →
        bl.find k = some (.DEADENTRY k) ∨ bl.find k = none) := by
  obtain ⟨bl, hbl, h⟩ := addBatches_views env batches n
  refine ⟨bl, hbl, fun k => ?_⟩
  rcases h.find_eq env (inv_viewAfter hkeys) k with heq | ⟨hnone, m, _, hlast, hgone⟩
  · rw [← lastMention_eq] at heq
    rw [heq]
    refine ⟨fun e => Iff.rfl, fun hdead => ?_⟩
    rcases lastMention_cases batches k n with hnone | hdead' | ⟨e, he⟩
    · exact .inr hnone
    · exact .inl hdead'
    · exact absurd he (hdead e)
  · -- only a tombstone may have been dropped
    refine ⟨fun e => ?_, fun _ => .inr hnone⟩
    rw [hnone, lastMention_eq, hlast]
    refine iff_of_false nofun ?_
    rintro ⟨⟩
    cases hgone

end Runs

/-- Buckets stand for their own hashes. -/
def contentHasher : BucketHasher (List BucketEntry) where
  getHash := Bucket.entries
  getHash_injective a b h := by
    cases a
    cases b
    cases h
    rfl

/-- Two names that an account sets, changes and, in one case, removes. -/
def dataBatches : ℕ → Batch
  | 1 => ⟨[⟨1, .data ⟨7, "color", [1]⟩⟩, ⟨1, .data ⟨7, "size", [1]⟩⟩], []⟩
  | 2 => ⟨[⟨2, .data ⟨7, "color", [2]⟩⟩], []⟩
  | 5 => ⟨[⟨5, .data ⟨7, "size", [5]⟩⟩], [.data 7 "color"]⟩
  | _ => ⟨[], []⟩

theorem dataBatches_distinct (i : ℕ) : (dataBatches i).Distinct := by
  unfold dataBatches Batch.Distinct
  split <;> decide

theorem bucketList_represents_dataBatches :
    ∃ bl, addBatches contentHasher dataBatches 9 = .ok bl ∧ ∀ k,
      (∀ e, bl.find k = some (.LIVEENTRY e) ↔ lastMention dataBatches k 9 = some (.LIVEENTRY e)) ∧
      ((∀ e, lastMention dataBatches k 9 ≠ some (.LIVEENTRY e)) →
        bl.find k = some (.DEADENTRY k) ∨ bl.find k = none) :=
  bucketList_represents_ledger contentHasher dataBatches 9 fun i _ _ => dataBatches_distinct i

end EssaCore.Buckets
