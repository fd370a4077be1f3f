import EssaCore.Catchup.ApplyBucketsWork

/-!
# What catching up by buckets reconstructs

A node whose database is the ledger after `n` batches applies the buckets of the
ledger after `m` batches. Buckets that it skips stand for the same entries, but
not for the same ledgers: a live entry tells when it was modified, a tombstone
does not. So a row that was written before ledger `n` and deleted after it
survives if its tombstone looks like an older one and is skipped.

- `ledgerAfter` — the ledger as the fold of the batches;
- `Cut` — the buckets that are written, and those that are skipped;
- `Cut.row_eq_iff` — when the row of a key is right;
- `applyBuckets_correct_iff` — when the database is the ledger after `m` batches;
- `skipped_tombstone` — a database that is not.
-/

open List Option

namespace EssaCore.Buckets

open Ledger Lib

/-! ## The ledger -/

/-- The changes of a batch: live entries are written, then dead ones removed. -/
def applyBatch (b : Batch) (db : Rows) : Rows :=
  b.deadEntries.foldl (fun db k => Function.update db k none)
    (b.liveEntries.foldl (fun db e => Function.update db (LedgerEntryKey e) (some e)) db)

/-- The fold of the first `n` batches. -/
def ledgerAfter (batches : ℕ → Batch) : ℕ → Rows
  | 0 => fun _ => none
  | n + 1 => applyBatch (batches (n + 1)) (ledgerAfter batches n)

theorem foldl_live {live : List LedgerEntry} (h : (live.map LedgerEntryKey).Nodup) (db : Rows)
    (k : LedgerKey) :
    live.foldl (fun db e => Function.update db (LedgerEntryKey e) (some e)) db k =
      ((live.find? fun e => LedgerEntryKey e = k).map some).getD (db k) := by
  induction live generalizing db with
  | nil => rfl
  | cons e live ih =>
    obtain ⟨hnot, hnodup⟩ := nodup_cons.mp h
    rw [foldl_cons, ih hnodup]
    by_cases hk : LedgerEntryKey e = k
    · have hnone : live.find? (fun e => LedgerEntryKey e = k) = none := by
        refine List.find?_eq_none.mpr fun e' he' => ?_
        simp only [decide_eq_true_eq]
        rintro rfl
        exact hnot (hk ▸ mem_map_of_mem he')
      rw [hnone, List.find?_cons_of_pos (by simpa using hk), ← hk, Function.update_self]
      rfl
    · rw [List.find?_cons_of_neg (by simpa using hk), Function.update_of_ne (Ne.symm hk)]

theorem foldl_dead (dead : List LedgerKey) (db : Rows) (k : LedgerKey) :
    dead.foldl (fun db k => Function.update db k none) db k =
      if k ∈ dead then none else db k := by
  induction dead generalizing db with
  | nil => rfl
  | cons d dead ih =>
    rw [foldl_cons, ih]
    by_cases hk : k = d
    · simp [hk]
    · simp [hk]

/-- A batch of distinct keys writes what it mentions. -/
theorem applyBatch_eq {b : Batch} (h : b.Distinct) (db : Rows) (k : LedgerKey) :
    applyBatch b db k = ((b.mention k).map rowOf).getD (db k) := by
  rw [applyBatch, foldl_dead, foldl_live (nodup_append.mp h).1, Batch.mention]
  by_cases hk : k ∈ b.deadEntries
  · rw [if_pos hk, if_pos hk]
    rfl
  · rw [if_neg hk, if_neg hk]
    cases b.liveEntries.find? fun e => LedgerEntryKey e = k <;> rfl

/-- A row is what the last batch that mentions its key says. -/
theorem ledgerAfter_eq {batches : ℕ → Batch} {n : ℕ}
    (hkeys : ∀ i, 0 < i → i ≤ n → (batches i).Distinct) (k : LedgerKey) :
    ledgerAfter batches n k = ((logOf batches).lastIn 0 k n).bind fun x => rowOf x.2 := by
  induction n with
  | zero => rfl
  | succ n ih =>
    rw [ledgerAfter, applyBatch_eq (hkeys (n + 1) (Nat.succ_pos n) le_rfl),
      ih fun i h1 h2 => hkeys i h1 (by omega), BatchLog.lastIn, logOf]
    cases (batches (n + 1)).mention k <;> simp

/-! ## Live entries are stamped -/

/-- Each live entry carries the number of the batch. -/
def Stamped (batches : ℕ → Batch) (m : ℕ) : Prop :=
  ∀ i, 0 < i → i ≤ m → ∀ e ∈ (batches i).liveEntries, e.lastModifiedLedgerSeq = i

variable {k : LedgerKey} {e : LedgerEntry} {i : ℕ}

theorem Stamped.of_mention {batches : ℕ → Batch} {m : ℕ} (h : Stamped batches m)
    (hi : 0 < i) (him : i ≤ m)
    (he : logOf batches i k = some (.LIVEENTRY e)) : e.lastModifiedLedgerSeq = i := by
  rw [logOf, Batch.mention] at he
  split at he
  · cases he
  · obtain ⟨_, hfind, heq⟩ := map_eq_some_iff.mp he
    cases heq
    exact h i hi him e (mem_of_find?_eq_some hfind)

/-! ## Buckets with empty ranges -/

theorem eq_empty_of_find {b : Bucket} (h : ∀ k, b.find k = none) : b = .empty := by
  obtain ⟨entries, _⟩ := b
  cases entries with
  | nil => rfl
  | cons e entries =>
    have hfind := h e.key
    rw [Bucket.find, lookup_cons, if_pos rfl] at hfind
    cases hfind

theorem eq_empty_of_le {log : BatchLog LedgerKey BucketEntry} {lo hi n : ℕ} {bottom : Prop}
    {b : Bucket} (h : log.Represents Gone lo hi n bottom b.find) (hle : hi ≤ lo) :
    b = .empty := by
  refine eq_empty_of_find fun k => ?_
  by_contra hne
  obtain ⟨i, _, _, -⟩ := h.mentionedIn hne
  omega

section Cuts

variable {log : BatchLog LedgerKey BucketEntry} {n m : ℕ} {v w : ℕ → LevelView}

/-- A snapshot that differs stands for some ledgers. -/
theorem snap_nonempty (hv : Inv log n v) (hw : Inv log m w) (hnm : n ≤ m)
    (hi : i < kNumLevels) (hne : (w i).snap ≠ (v i).snap) : snapLo m i < currLo m i := by
  by_contra hle
  have hzero := currLo_eq_zero_of_le hi (not_lt.mp hle)
  have hmono := (bounds_mono hnm i).2
  have hw' := eq_empty_of_le (hw.snap i hi) (by omega)
  have hv' := eq_empty_of_le (hv.snap i hi) (by omega)
  exact hne (hw'.trans hv'.symm)

theorem curr_nonempty (hv : Inv log n v) (hw : Inv log m w) (hnm : n ≤ m)
    (hi : i < kNumLevels) (hne : (w i).curr ≠ (v i).curr) : currLo m i < currHi m i := by
  by_contra hle
  have hzero := currHi_eq_zero_of_le hi (not_lt.mp hle)
  have hmono := currHi_mono hnm i
  have hw' := eq_empty_of_le (hw.curr i hi) (by omega)
  have hv' := eq_empty_of_le (hv.curr i hi) (by omega)
  exact hne (hw'.trans hv'.symm)

/-! ## Written and skipped buckets -/

/-- The buckets that are written stand for the ledgers after `base`. Those that are
skipped stand for the ledgers up to `base`, and in the local list for ledgers up
to `n`. -/
structure Cut (log : BatchLog LedgerKey BucketEntry) (n m base : ℕ) (young : List Bucket) :
    Prop where
  written : log.Tiles Gone m base m (young.map Bucket.find)
  skipped : ∃ old lo, lo ≤ n ∧ log.Tiles Gone m 0 base old ∧ log.Tiles Gone n 0 lo old

/-- The levels below `i` tile the ledgers after the range of `curr` of level `i`. -/
theorem Inv.tilesBelow (h : Inv log n v) (hi : i ≤ kNumLevels) :
    log.Tiles Gone n (currHi n i) n ((bucketsBelow v i).map Bucket.find) := by
  induction i with
  | zero => exact .nil
  | succ i ih =>
    obtain ⟨h1, h2⟩ := snapLo_le_currLo_le n i
    rw [bucketsBelow_succ, map_append]
    refine (ih (by omega)).append (.cons h2 (h.curr i (by omega)) ?_
      (.cons h1 (h.snap i (by omega)) nofun .nil))
    rintro rfl
    exact (bounds_last n).1

/-- The ledger from which on rows are deleted is the first one that is written. -/
def StartsAt (m base : ℕ) : Option ℕ → Prop
  | none => base = m
  | some o => o = base + 1

theorem FirstDifference.cut {o : Option ℕ} {young : List Bucket}
    (h : FirstDifference m v w i o young) (hv : Inv log n v) (hw : Inv log m w) (hnm : n ≤ m)
    (hi : i ≤ kNumLevels)
    (hsame : ∀ l, i ≤ l → l < kNumLevels → (w l).snap = (v l).snap ∧ (w l).curr = (v l).curr) :
    ∃ base, Cut log n m base young ∧ StartsAt m base o := by
  -- the levels from `i` on
  have hold : ∀ d i, i + d = kNumLevels →
      (∀ l, i ≤ l → l < kNumLevels → (w l).snap = (v l).snap ∧ (w l).curr = (v l).curr) →
      (List.range' i d).flatMap (fun i => [(w i).curr, (w i).snap]) =
        (List.range' i d).flatMap fun i => [(v i).curr, (v i).snap] := by
    intro d i hd hsame
    refine flatMap_congr fun l hl => ?_
    obtain ⟨h1, h2⟩ := mem_range'_1.mp hl
    obtain ⟨hs, hc⟩ := hsame l h1 (by omega)
    rw [hs, hc]
  induction h with
  | none =>
    have htiles := hw.tiles kNumLevels 0 (Nat.zero_add _)
    rw [hold kNumLevels 0 (Nat.zero_add _) hsame] at htiles
    exact ⟨m, ⟨.nil, _, n, le_rfl, htiles, hv.tiles kNumLevels 0 (Nat.zero_add _)⟩, rfl⟩
  | @same i o young hsnap hcurr _ ih =>
    refine ih (by omega) fun l h1 h2 => ?_
    by_cases hl : l = i
    · subst hl
      exact ⟨hsnap, hcurr⟩
    · exact hsame l (by omega) h2
  | @snap i hsnap =>
    obtain ⟨d, hd⟩ : ∃ d, i + 1 + d = kNumLevels := ⟨_, Nat.add_sub_cancel' hi⟩
    have hlt := snap_nonempty hv hw hnm hi hsnap
    have htiles := hw.tiles d (i + 1) hd
    rw [hold d (i + 1) hd hsame] at htiles
    refine ⟨snapLo m i, ⟨Inv.tilesBelow hw hi, _, currHi n (i + 1), currHi_le _ _, htiles,
      hv.tiles d (i + 1) hd⟩, ?_⟩
    have hle := (snapLo_le_currLo_le m i).2.trans (currHi_le m i)
    rw [StartsAt, oldestLedgerInSnap_eq hi (by omega), if_pos hlt]
  | @curr i hsnap hcurr =>
    obtain ⟨d, hd⟩ : ∃ d, i + 1 + d = kNumLevels := ⟨_, Nat.add_sub_cancel' hi⟩
    have hlt := curr_nonempty hv hw hnm hi hcurr
    have htiles := hw.tiles d (i + 1) hd
    rw [hold d (i + 1) hd hsame] at htiles
    have hle := currHi_le m i
    have hsnapw := hw.snap i hi
    rw [hsnap] at hsnapw
    refine ⟨currLo m i, ⟨?_, (v i).snap.find :: _, currLo n i, ?_,
      .cons (snapLo_le_currLo_le m i).1 hsnapw nofun htiles,
      .cons (snapLo_le_currLo_le n i).1 (hv.snap i hi) nofun (hv.tiles d (i + 1) hd)⟩, ?_⟩
    · rw [map_append]
      refine (Inv.tilesBelow hw (by omega)).append (.cons hlt.le (hw.curr i hi) ?_ .nil)
      rintro rfl
      exact (bounds_last m).1
    · exact (snapLo_le_currLo_le n i).2.trans (currHi_le n i)
    · rw [StartsAt, oldestLedgerInCurr_eq hi (by omega), if_pos hlt]

end Cuts

/-! ## Rows -/

section Rows

variable {batches : ℕ → Batch} {n m base : ℕ} {young : List Bucket} {o : Option ℕ}

/-- The last batch up to `m` that mentions a key is batch `j`, which deletes it. -/
def DeletedAt (batches : ℕ → Batch) (m : ℕ) (k : LedgerKey) (j : ℕ) : Prop :=
  0 < j ∧ j ≤ m ∧ k ∈ (batches j).deadEntries ∧
    ∀ i, j < i → i ≤ m → (batches i).mention k = none

theorem deletedAt_iff {j : ℕ} : DeletedAt batches m k j ↔
      ∃ e, (logOf batches).lastIn 0 k m = some (j, e) ∧ rowOf e = none := by
  constructor
  · rintro ⟨h1, h2, h3, h4⟩
    refine ⟨.DEADENTRY k, BatchLog.lastIn_eq_some_iff.mpr ⟨h1, h2, ?_, h4⟩, rfl⟩
    rw [logOf, Batch.mention, if_pos h3]
  · rintro ⟨e, hlast, hrow⟩
    obtain ⟨h1, h2, h3, h4⟩ := BatchLog.lastIn_eq_some_iff.mp hlast
    refine ⟨h1, h2, ?_, h4⟩
    rw [logOf, Batch.mention] at h3
    split at h3
    · assumption
    · obtain ⟨_, -, rfl⟩ := map_eq_some_iff.mp h3
      cases hrow

theorem rowOf_eq_none_iff {e : BucketEntry} : rowOf e = none ↔ Gone e := by
  cases e <;> simp [rowOf, Gone, BucketEntry.isLive]

variable (hkeys : ∀ i, 0 < i → i ≤ n → (batches i).Distinct)

include hkeys

/-- A live row carries the number of the last batch that mentions its key. -/
theorem lastIn_of_row (hstamp : Stamped batches n)
    (h : ledgerAfter batches n k = some e) :
    (logOf batches).lastIn 0 k n = some (e.lastModifiedLedgerSeq, .LIVEENTRY e) := by
  rw [ledgerAfter_eq hkeys] at h
  obtain ⟨⟨j, x⟩, hlast, hx⟩ := bind_eq_some_iff.mp h
  cases x with
  | DEADENTRY k => cases hx
  | LIVEENTRY e' =>
    cases hx
    obtain ⟨h1, h2, h3, -⟩ := BatchLog.lastIn_eq_some_iff.mp hlast
    rw [hstamp.of_mention h1 h2 h3, hlast]

/-- A row whose key is not mentioned by the batches that are written stays. -/
theorem deleteFrom_of_not_mentioned
    (hstamp : Stamped batches n) (hnm : n ≤ m) (ho : StartsAt m base o)
    (hk : ¬ (logOf batches).MentionedIn base m k) :
    deleteFrom o (ledgerAfter batches n) k = ledgerAfter batches n k := by
  cases o with
  | none => rfl
  | some o =>
    cases hrow : ledgerAfter batches n k with
    | none => simp [deleteFrom, deleteObjectsModifiedOnOrAfterLedger, hrow]
    | some e =>
      obtain ⟨-, _, h3, -⟩ :=
        BatchLog.lastIn_eq_some_iff.mp (lastIn_of_row hkeys hstamp hrow)
      have hlt : e.lastModifiedLedgerSeq < o := by
        rw [show o = base + 1 from ho]
        by_contra hle
        exact hk ⟨e.lastModifiedLedgerSeq, by omega, by omega, by rw [h3]; nofun⟩
      simp [deleteFrom, deleteObjectsModifiedOnOrAfterLedger, hrow, hlt]

/-- No row stays if all buckets are written. -/
theorem deleteFrom_of_zero
    (hstamp : Stamped batches n) (hnm : n ≤ m) (ho : StartsAt m 0 o) (k : LedgerKey) :
    deleteFrom o (ledgerAfter batches n) k = none := by
  cases hrow : ledgerAfter batches n k with
  | none =>
    cases o with
    | none => exact hrow
    | some o => simp [deleteFrom, deleteObjectsModifiedOnOrAfterLedger, hrow]
  | some e =>
    obtain ⟨_, _, -⟩ := BatchLog.lastIn_eq_some_iff.mp (lastIn_of_row hkeys hstamp hrow)
    cases o with
    | none =>
      have hm : 0 = m := ho
      omega
    | some o =>
      have ho' : o = 0 + 1 := ho
      have hle : o ≤ e.lastModifiedLedgerSeq := by omega
      simp [deleteFrom, deleteObjectsModifiedOnOrAfterLedger, hrow, hle]

omit hkeys

variable (hcut : Cut (logOf batches) n m base young)

include hcut

/-- A key that only skipped buckets know: a live entry in them is older than the
local ledger. -/
theorem Cut.le_of_live (hstamp : Stamped batches m)
    (hnm : n ≤ m) {j : ℕ}
    (hk : ¬ (logOf batches).MentionedIn base m k)
    (hlast : (logOf batches).lastIn 0 k base = some (j, .LIVEENTRY e)) : j ≤ n := by
  obtain ⟨_, _, _, hremote, hlocal⟩ := hcut.skipped
  obtain ⟨h1, _, h3, -⟩ := BatchLog.lastIn_eq_some_iff.mp hlast
  have hbase := hcut.written.base_le
  rcases hremote.scan_eq hk hlast with hscan | ⟨-, hgone, -⟩
  · obtain ⟨_, hpos, _, hlog⟩ := hlocal.mentioned_of_scan hscan
    have hj := hstamp.of_mention h1 (by omega) h3
    have hj' := hstamp.of_mention hpos (by omega) hlog
    omega
  · cases hgone

/-- The row of a key that only skipped buckets know. -/
theorem Cut.skipped_row_iff
    (hkeys : ∀ i, 0 < i → i ≤ m → (batches i).Distinct) (hstamp : Stamped batches m)
    (hnm : n ≤ m) (hk : ¬ (logOf batches).MentionedIn base m k)
    (hlast : (logOf batches).lastIn 0 k m = (logOf batches).lastIn 0 k base) :
    ledgerAfter batches n k = ((logOf batches).lastIn 0 k base).bind (fun x => rowOf x.2) ↔
      ∀ j, DeletedAt batches m k j → n < j → j ≤ base → ledgerAfter batches n k = none := by
  have hrow : ledgerAfter batches n k = ((logOf batches).lastIn 0 k n).bind fun x => rowOf x.2 :=
    ledgerAfter_eq (fun i h1 h2 => hkeys i h1 (by omega)) k
  -- a last mention up to ledger `n` is the last one there too
  have hearlier : ∀ j e, (logOf batches).lastIn 0 k base = some (j, e) → j ≤ n →
      ledgerAfter batches n k = rowOf e := by
    intro j e hold hj
    obtain ⟨h1, h2, h3, h4⟩ := BatchLog.lastIn_eq_some_iff.mp (hlast.trans hold)
    have hn : (logOf batches).lastIn 0 k n = some (j, e) :=
      BatchLog.lastIn_eq_some_iff.mpr ⟨h1, hj, h3, fun i hi1 hi2 => h4 i hi1 (by omega)⟩
    rw [hrow, hn]
    rfl
  cases hold : (logOf batches).lastIn 0 k base with
  | none =>
    have hn : (logOf batches).lastIn 0 k n = none := by
      rw [hold, BatchLog.lastIn_eq_none_iff] at hlast
      exact BatchLog.lastIn_eq_none_iff.mpr fun i h1 h2 => hlast i h1 (by omega)
    have hnone : ledgerAfter batches n k = none := by rw [hrow, hn]; rfl
    exact iff_of_true hnone fun _ _ _ _ => hnone
  | some x =>
    obtain ⟨j, e⟩ := x
    rw [hold] at hlast
    obtain ⟨-, h2, -, -⟩ := BatchLog.lastIn_eq_some_iff.mp hold
    cases e with
    | LIVEENTRY e =>
      refine iff_of_true (hearlier j _ hold (hcut.le_of_live hstamp hnm hk hold)) ?_
      intro j' hj'
      obtain ⟨_, hlast', hgone⟩ := deletedAt_iff.mp hj'
      rw [hlast] at hlast'
      cases hlast'
      cases hgone
    | DEADENTRY k' =>
      refine ⟨fun h _ _ _ _ => h, fun h => ?_⟩
      by_cases hj : j ≤ n
      · exact hearlier j _ hold hj
      · exact h j (deletedAt_iff.mpr ⟨_, hlast, rfl⟩) (by omega) h2

/-- The row of a key is right unless it was deleted after ledger `n` in a batch
that is not written, and was there before. -/
theorem Cut.row_eq_iff
    (hkeys : ∀ i, 0 < i → i ≤ m → (batches i).Distinct) (hstamp : Stamped batches m)
    (hnm : n ≤ m) (ho : StartsAt m base o) (k : LedgerKey) :
    overlay young (deleteFrom o (ledgerAfter batches n)) k = ledgerAfter batches m k ↔
      ∀ j, DeletedAt batches m k j → n < j → j ≤ base → ledgerAfter batches n k = none := by
  have hkeysn : ∀ i, 0 < i → i ≤ n → (batches i).Distinct :=
    fun i h1 h2 => hkeys i h1 (by omega)
  have hstampn : Stamped batches n := fun i h1 h2 => hstamp i h1 (by omega)
  have hbase := hcut.written.base_le
  have hscan : young.findSome? (·.find k) = (young.map Bucket.find).findSome? (· k) := by
    rw [List.findSome?_map]
    rfl
  have hsplit : (logOf batches).lastIn 0 k m =
      ((logOf batches).lastIn base k m).or ((logOf batches).lastIn 0 k base) :=
    BatchLog.lastIn_split (Nat.zero_le base) hbase
  have hnone : ¬ (logOf batches).MentionedIn m m k := by
    rintro ⟨i, h1, h2, -⟩
    omega
  rw [overlay, hscan, ledgerAfter_eq hkeys, hsplit]
  cases hyoung : (logOf batches).lastIn base k m with
  | some x =>
    -- the last mention is written
    obtain ⟨h1, -, -, -⟩ := BatchLog.lastIn_eq_some_iff.mp hyoung
    refine iff_of_true ?_ fun j' hj' _ hle => ?_
    · rcases hcut.written.scan_eq hnone hyoung with hfind | ⟨hfind, hgone, rfl⟩
      · rw [hfind]
        rfl
      · rw [hfind]
        exact (deleteFrom_of_zero hkeysn hstampn hnm ho k).trans (rowOf_eq_none_iff.mpr hgone).symm
    · obtain ⟨_, hlast, -⟩ := deletedAt_iff.mp hj'
      rw [hsplit, hyoung] at hlast
      cases hlast
      omega
  | none =>
    have hk : ¬ (logOf batches).MentionedIn base m k := by
      rw [BatchLog.mentionedIn_iff, hyoung]
      exact fun h => h rfl
    rw [hcut.written.scan_of_not_mentioned hk]
    rw [deleteFrom_of_not_mentioned hkeysn hstampn hnm ho hk]
    rw [hyoung] at hsplit
    exact hcut.skipped_row_iff hkeys hstamp hnm hk hsplit

end Rows

/-! ## The database -/

variable {Hash : Type} [DecidableEq Hash] {env : BucketHasher Hash}

/-- Catching up by buckets, from the ledger after `n` batches to the one after `m`,
reconstructs the ledger if and only if no row of the local database was last
deleted between ledger `n` and the oldest ledger of the first bucket that
differs. -/
theorem applyBuckets_correct_iff {batches : ℕ → Batch} {n m : ℕ} (hnm : n ≤ m)
    (hkeys : ∀ i, 0 < i → i ≤ m → (batches i).Distinct) (hstamp : Stamped batches m)
    {bl remote : BucketList Hash} (hbl : addBatches env batches n = .ok bl)
    (hremote : addBatches env batches m = .ok remote) {ready : ℕ → Bool}
    {has : HistoryArchiveState Hash} (hhas : savedState env ready m remote = .ok has)
    {store : BucketStore env} (hpresent : store.Present has) :
    ∃ bl' db, applyBuckets store bl has (ledgerAfter batches n) = .ok (bl', db) ∧
      (db = ledgerAfter batches m ↔ ∀ k j, DeletedAt batches m k j → n < j →
          (∀ o ∈ deletedFrom env bl has kNumLevels, j < o) →
          ledgerAfter batches n k = none) := by
  obtain ⟨_, hbl₁, hv⟩ := addBatches_views env batches n
  cases hbl.symm.trans hbl₁
  obtain ⟨_, hremote₁, hw⟩ := addBatches_views env batches m
  cases hremote.symm.trans hremote₁
  obtain ⟨_, hhas₁, hledger, hviews⟩ := hw.savedState ready m
  cases hhas.symm.trans hhas₁
  have hinvn : Inv (logOf batches) n (viewAfter batches n) :=
    inv_viewAfter fun i h1 h2 => hkeys i h1 (by omega)
  have hinvm : Inv (logOf batches) m (viewAfter batches m) := inv_viewAfter hkeys
  have hrem : Remote store has (viewAfter batches m) := ⟨hviews, hw.zero, hpresent⟩
  obtain ⟨_, hsize, hcounted⟩ := hrem.totalSize
  have hpos : ∀ i < kNumLevels, (viewAfter batches m i).snap ≠ (viewAfter batches n i).snap ∨
        (viewAfter batches m i).curr ≠ (viewAfter batches n i).curr →
      has.currentLedger ≠ 0 := by
    intro i hi hne
    have hle := currHi_le m i
    have hle' := (snapLo_le_currLo_le m i).2
    rcases hne with hne | hne
    · have hlt := snap_nonempty hinvn hinvm hnm hi hne
      omega
    · have hlt := curr_nonempty hinvn hinvm hnm hi hne
      omega
  obtain ⟨_, young, hfirst, happly⟩ :=
    applyLevels_eq hrem hv hcounted le_rfl hpos (ledgerAfter batches n)
  obtain ⟨bl', hbl', -⟩ := assumeState_views hviews hw.zero hpresent bl
  rw [hledger] at hfirst
  obtain ⟨base, hcut, hstart⟩ := hfirst.cut hinvn hinvm hnm le_rfl fun l h1 h2 => by omega
  refine ⟨bl', overlay young (deleteFrom (deletedFrom env bl has kNumLevels)
    (ledgerAfter batches n)), ?_, ?_⟩
  · rw [applyBuckets, hsize, ok_bind, happly]
    rw [hbl']
    rfl
  · rw [funext_iff]
    refine forall_congr' fun k => ?_
    rw [hcut.row_eq_iff hkeys hstamp hnm hstart]
    refine forall_congr' fun j => forall_congr' fun hj => forall_congr' fun _ => ?_
    refine imp_congr ?_ Iff.rfl
    cases ho : deletedFrom env bl has kNumLevels with
    | none =>
      rw [ho] at hstart
      have hbase : base = m := hstart
      exact iff_of_true (by have := hj.2.1; omega) nofun
    | some o =>
      rw [ho] at hstart
      have hbase : o = base + 1 := hstart
      constructor
      · rintro hle o' ⟨⟩
        omega
      · intro h
        have hlt := h o rfl
        omega

theorem dataBatches_stamped (m : ℕ) : Stamped dataBatches m := by
  intro i _ _
  unfold dataBatches
  split <;> simp

theorem contentStore_present {bl : BucketList (List BucketEntry)} {v : ℕ → LevelView}
    (h : Views contentHasher bl v) (ready : ℕ → Bool) (m : ℕ) :
    ∃ has, savedState contentHasher ready m bl = .ok has ∧ contentStore.Present has := by
  obtain ⟨has, hhas, -, hviews⟩ := h.savedState ready m
  refine ⟨has, hhas, fun x hx => ?_⟩
  obtain ⟨b, rfl⟩ := hviews.exists_bucket hx
  exact contentStore_complete b

theorem applyBuckets_correct_iff_data :
    ∃ bl remote has bl' db, addBatches contentHasher dataBatches 2 = .ok bl ∧
      addBatches contentHasher dataBatches 9 = .ok remote ∧
      savedState contentHasher (fun _ => true) 9 remote = .ok has ∧
      applyBuckets contentStore bl has (ledgerAfter dataBatches 2) = .ok (bl', db) ∧
      (db = ledgerAfter dataBatches 9 ↔ ∀ k j, DeletedAt dataBatches 9 k j → 2 < j →
          (∀ o ∈ deletedFrom contentHasher bl has kNumLevels, j < o) →
          ledgerAfter dataBatches 2 k = none) := by
  obtain ⟨bl, hbl, -⟩ := addBatches_views contentHasher dataBatches 2
  obtain ⟨remote, hremote, hw⟩ := addBatches_views contentHasher dataBatches 9
  obtain ⟨has, hhas, hpresent⟩ := contentStore_present hw (fun _ => true) 9
  obtain ⟨bl', db, happly, hiff⟩ := applyBuckets_correct_iff (by decide)
    (fun i _ _ => dataBatches_distinct i) (dataBatches_stamped 9) hbl hremote hhas hpresent
  exact ⟨bl, remote, has, bl', db, hbl, hremote, hhas, happly, hiff⟩

/-- A name that is set, removed, set again and removed again. -/
def toggledBatches : ℕ → Batch
  | 1 => ⟨[⟨1, .data ⟨7, "color", [1]⟩⟩], []⟩
  | 2 => ⟨[], [.data 7 "color"]⟩
  | 7 => ⟨[⟨7, .data ⟨7, "color", [7]⟩⟩], []⟩
  | 9 => ⟨[], [.data 7 "color"]⟩
  | _ => ⟨[], []⟩

theorem toggledBatches_distinct (i : ℕ) : (toggledBatches i).Distinct := by
  unfold toggledBatches Batch.Distinct
  split <;> decide

theorem toggledBatches_stamped (m : ℕ) : Stamped toggledBatches m := by
  intro i _ _
  unfold toggledBatches
  split <;> simp

/-- The database after catching up from ledger `n` to ledger `m`. -/
def rowAfterCatchup (batches : ℕ → Batch) (n m : ℕ) (k : LedgerKey) :
    Checked (Option LedgerEntry) := do
  let bl ← addBatches contentHasher batches n
  let remote ← addBatches contentHasher batches m
  let has ← savedState contentHasher (fun _ => true) m remote
  let (_, db) ← applyBuckets contentStore bl has (ledgerAfter batches n)
  pure (db k)

/-- The node at ledger 8 has the row of ledger 7. Ledger 9 deletes it, and the
archive of ledger 16 has this tombstone where the node has the one of ledger 2:
the bucket is skipped, and the row stays. -/
theorem skipped_tombstone : (∀ i, (toggledBatches i).Distinct) ∧ Stamped toggledBatches 16 ∧
      (rowAfterCatchup toggledBatches 8 16 (.data 7 "color")).toOption =
        some (some ⟨7, .data ⟨7, "color", [7]⟩⟩) ∧
      ledgerAfter toggledBatches 16 (.data 7 "color") = none := by
  refine ⟨toggledBatches_distinct, toggledBatches_stamped 16, ?_, ?_⟩
  · decide +kernel
  · decide +kernel

end EssaCore.Buckets
