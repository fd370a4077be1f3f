import EssaCore.Buckets.LedgerCmp
import EssaCore.Lib.Except
import EssaCore.Lib.StdSort

/-!
# Buckets

`bucket/Bucket.cpp`, `bucket/BucketOutputIterator.cpp`: a bucket is a file of
live entries and tombstones, sorted by key, with at most one of them for a key.
Two buckets are merged in one pass over both; entries that are shadowed by a
younger bucket are left out, and so are tombstones at the bottom of the list.

- `BucketEntry`, `Bucket` — a bucket carries the proof that it is sorted;
- `BucketOutputIterator` — the writer, with its one-entry buffer and its assertion;
- `maybePut`, `mergeLoop`, `mergeChecked`, `freshChecked` — as the code has them;
- `mergeChecked_eq`, `freshChecked_eq` — what they write: the assertion never fails;
- `Bucket.merge`, `Bucket.fresh`, `find_merge`, `find_fresh` — the same for buckets.
-/

open List Option

namespace EssaCore.Buckets

open Ledger Lib

/-- A program that stops at a failed `assert`. -/
abbrev Checked := Except String

/-- C++'s `assert` -/
def assert (c : Prop) [Decidable c] (text : String) : Checked Unit :=
  if c then .ok () else .error text

/-- An `assert` that holds does nothing. -/
theorem assert_bind {α : Type} {c : Prop} [Decidable c] {text : String} (h : c)
    (f : Unit → Checked α) : (assert c text >>= f) = f () := by
  rw [assert, if_pos h, ok_bind]

/-! ## Entries -/

/-- The data entry `a` of an account, as a ledger left it -/
def dataEntry (accountID : AccountID) (ledger : ℕ) : LedgerEntry :=
  ⟨ledger, .data ⟨accountID, "a", []⟩⟩

/-- `BucketEntry` -/
inductive BucketEntry where
  | LIVEENTRY (liveEntry : LedgerEntry)
  | DEADENTRY (deadEntry : LedgerKey)
  deriving DecidableEq

namespace BucketEntry

/-- The identity of an entry, by which `BucketEntryIdCmp` compares. -/
def key : BucketEntry → LedgerKey
  | LIVEENTRY liveEntry => LedgerEntryKey liveEntry
  | DEADENTRY deadEntry => deadEntry

def isLive : BucketEntry → Bool
  | LIVEENTRY _ => true
  | DEADENTRY _ => false

end BucketEntry

/-- `BucketEntryIdCmp::operator()` -/
def BucketEntryIdCmp : BucketEntry → BucketEntry → Bool
  | .LIVEENTRY a, .LIVEENTRY b => LedgerEntryIdCmp a.data b.data
  | .LIVEENTRY a, .DEADENTRY b => LedgerEntryIdCmp a.data b
  | .DEADENTRY a, .LIVEENTRY b => LedgerEntryIdCmp a b.data
  | .DEADENTRY a, .DEADENTRY b => LedgerEntryIdCmp a b

theorem bucketEntryIdCmp_iff {a b : BucketEntry} : BucketEntryIdCmp a b = true ↔ a.key < b.key := by
  cases a <;> cases b <;> exact ledgerEntryIdCmp_iff

theorem bucketEntryIdCmp_eq (a b : BucketEntry) :
    BucketEntryIdCmp a b = decide (a.key < b.key) := by
  rw [Bool.eq_iff_iff, bucketEntryIdCmp_iff, decide_eq_true_iff]

/-- The entries of a list are in the order of their keys, without ties. -/
abbrev Sorted (l : List BucketEntry) : Prop :=
  l.Pairwise fun a b => a.key < b.key

/-- The entry for a key. -/
def lookup (l : List BucketEntry) (k : LedgerKey) : Option BucketEntry :=
  l.find? fun e => e.key = k

/-- `Bucket`: the entries of its file. -/
@[ext] structure Bucket where
  entries : List BucketEntry
  sorted : Sorted entries
  deriving DecidableEq

namespace Bucket

/-- The bucket without a file. -/
def empty : Bucket := ⟨[], .nil⟩

/-- The entry of a bucket for a key. -/
def find (b : Bucket) (k : LedgerKey) : Option BucketEntry := lookup b.entries k

end Bucket

/-! ## Writing -/

/-- `BucketOutputIterator`; `mOut` is what has been written to the file. -/
structure BucketOutputIterator where
  mKeepDeadEntries : Bool
  mBuf : Option BucketEntry
  mOut : List BucketEntry

namespace BucketOutputIterator

/-- A writer that has not written anything. -/
def init (keepDeadEntries : Bool) : BucketOutputIterator :=
  ⟨keepDeadEntries, none, []⟩

/-- `BucketOutputIterator::put`: an entry replaces the buffered one if they have
the same identity, and flushes it otherwise. -/
def put (out : BucketOutputIterator) (e : BucketEntry) : Checked BucketOutputIterator := do
  if !out.mKeepDeadEntries && !e.isLive then pure out
  else
    match out.mBuf with
    | none => pure { out with mBuf := some e }
    | some buf => do
      -- otherwise we are getting entries out of order
      assert (!BucketEntryIdCmp e buf) "!mCmp(e, *mBuf)"
      if BucketEntryIdCmp buf e then
        pure { out with mOut := out.mOut ++ [buf], mBuf := some e }
      else pure { out with mBuf := some e }

/-- The entries of `BucketOutputIterator::getBucket` -/
def getEntries (out : BucketOutputIterator) : List BucketEntry :=
  out.mOut ++ out.mBuf.toList

end BucketOutputIterator

/-! ## Merging -/

/-- `maybePut`: every shadow is advanced to the entry, up to the first one that
contains its identity. -/
def maybePut (out : BucketOutputIterator) (entry : BucketEntry) :
    List (List BucketEntry) → Checked (List (List BucketEntry) × BucketOutputIterator)
  | [] => do pure ([], ← out.put entry)
  | si :: rest => do
    let si := si.dropWhile fun s => BucketEntryIdCmp s entry
    if (si.head?.any fun s => !BucketEntryIdCmp entry s) then pure (si :: rest, out)
    else do
      let (rest, out) ← maybePut out entry rest
      pure (si :: rest, out)

/-- The loop of `Bucket::merge` -/
def mergeLoop : List BucketEntry → List BucketEntry → List (List BucketEntry) →
    BucketOutputIterator → Checked BucketOutputIterator
  | [], [], _, out => pure out
  | o :: oi, [], shadowIterators, out => do
    let (shadowIterators, out) ← maybePut out o shadowIterators
    mergeLoop oi [] shadowIterators out
  | [], n :: ni, shadowIterators, out => do
    let (shadowIterators, out) ← maybePut out n shadowIterators
    mergeLoop [] ni shadowIterators out
  | o :: oi, n :: ni, shadowIterators, out =>
    if BucketEntryIdCmp o n then do
      let (shadowIterators, out) ← maybePut out o shadowIterators
      mergeLoop oi (n :: ni) shadowIterators out
    else if BucketEntryIdCmp n o then do
      let (shadowIterators, out) ← maybePut out n shadowIterators
      mergeLoop (o :: oi) ni shadowIterators out
    else do
      let (shadowIterators, out) ← maybePut out n shadowIterators
      mergeLoop oi ni shadowIterators out
termination_by oi ni => oi.length + ni.length

/-- `Bucket::merge`, on the entries of the buckets -/
def mergeChecked (old new : List BucketEntry) (shadows : List (List BucketEntry))
    (keepDeadEntries : Bool) : Checked (List BucketEntry) := do
  let out ← mergeLoop old new shadows (.init keepDeadEntries)
  pure out.getEntries

/-- A writer that is given some entries -/
def putAll (es : List BucketEntry) : Checked (List BucketEntry) := do
  let out ← es.foldlM BucketOutputIterator.put (.init true)
  pure out.getEntries

/-- `Bucket::fresh`, for an implementation of `std::sort` -/
def freshChecked (std : StdSort) (liveEntries : List LedgerEntry) (deadEntries : List LedgerKey) :
    Checked (List BucketEntry) := do
  let live := std.sort BucketEntryIdCmp (liveEntries.map .LIVEENTRY)
  let dead := std.sort BucketEntryIdCmp (deadEntries.map .DEADENTRY)
  let liveBucket ← putAll live
  let deadBucket ← putAll dead
  mergeChecked liveBucket deadBucket [] true

/-! ## What a merge writes -/

/-- The entries of two sorted lists, with the new one for a common key. -/
def mergeEntries : List BucketEntry → List BucketEntry → List BucketEntry
  | [], ni => ni
  | o :: oi, [] => o :: oi
  | o :: oi, n :: ni =>
    if o.key < n.key then o :: mergeEntries oi (n :: ni)
    else if n.key < o.key then n :: mergeEntries (o :: oi) ni
    else n :: mergeEntries oi ni
termination_by oi ni => oi.length + ni.length

@[simp] theorem mergeEntries_nil_right (oi : List BucketEntry) : mergeEntries oi [] = oi := by
  cases oi <;> simp [mergeEntries]

/-- Some shadow has an entry for the key. -/
def Shadowed (shadows : List (List BucketEntry)) (k : LedgerKey) : Prop :=
  ∃ si ∈ shadows, ∃ e ∈ si, e.key = k

instance (shadows : List (List BucketEntry)) (k : LedgerKey) :
    Decidable (Shadowed shadows k) :=
  inferInstanceAs (Decidable (∃ si ∈ shadows, ∃ e ∈ si, e.key = k))

/-- An entry that a merge writes. -/
def Kept (keepDeadEntries : Bool) (shadows : List (List BucketEntry))
    (e : BucketEntry) : Bool :=
  !decide (Shadowed shadows e.key) && (keepDeadEntries || e.isLive)

variable {ni oi l es : List BucketEntry} {e : BucketEntry} {k : LedgerKey}
  {out : BucketOutputIterator}

theorem mem_mergeEntries (h : e ∈ mergeEntries oi ni) : e ∈ oi ∨ e ∈ ni := by
  fun_induction mergeEntries oi ni with
  | case1 ni => exact .inr h
  | case2 o oi => exact .inl h
  | case3 o oi n ni _ ih =>
    rcases mem_cons.mp h with rfl | h
    · exact .inl mem_cons_self
    · exact (ih h).imp_left (mem_cons_of_mem _)
  | case4 o oi n ni _ _ ih =>
    rcases mem_cons.mp h with rfl | h
    · exact .inr mem_cons_self
    · exact (ih h).imp_right (mem_cons_of_mem _)
  | case5 o oi n ni _ _ ih =>
    rcases mem_cons.mp h with rfl | h
    · exact .inr mem_cons_self
    · exact (ih h).imp (mem_cons_of_mem _) (mem_cons_of_mem _)

/-- Keys below the first of a sorted list are below all of them. -/
theorem lt_of_mem_of_sorted {n : BucketEntry} (hs : Sorted (n :: ni)) (hk : k < n.key)
    (he : e ∈ n :: ni) :
    k < e.key := by
  rcases mem_cons.mp he with rfl | he
  · exact hk
  · exact hk.trans (rel_of_pairwise_cons hs he)

theorem sorted_mergeEntries (ho : Sorted oi) (hn : Sorted ni) : Sorted (mergeEntries oi ni) := by
  fun_induction mergeEntries oi ni with
  | case1 ni => exact hn
  | case2 o oi => exact ho
  | case3 o oi n ni hlt ih =>
    refine pairwise_cons.mpr ⟨fun e he => ?_, ih ho.tail hn⟩
    rcases mem_mergeEntries he with he | he
    · exact rel_of_pairwise_cons ho he
    · exact lt_of_mem_of_sorted hn hlt he
  | case4 o oi n ni _ hlt ih =>
    refine pairwise_cons.mpr ⟨fun e he => ?_, ih ho hn.tail⟩
    rcases mem_mergeEntries he with he | he
    · exact lt_of_mem_of_sorted ho hlt he
    · exact rel_of_pairwise_cons hn he
  | case5 o oi n ni hno hnn ih =>
    have heq : o.key = n.key := le_antisymm (not_lt.mp hnn) (not_lt.mp hno)
    refine pairwise_cons.mpr ⟨fun e he => ?_, ih ho.tail hn.tail⟩
    rcases mem_mergeEntries he with he | he
    · exact heq ▸ rel_of_pairwise_cons ho he
    · exact rel_of_pairwise_cons hn he

theorem lookup_cons (e : BucketEntry) (l : List BucketEntry) (k : LedgerKey) :
    lookup (e :: l) k = if e.key = k then some e else lookup l k := by
  unfold lookup
  by_cases h : e.key = k <;> simp [h]

theorem lookup_eq_none_of_lt {n : BucketEntry} (hs : Sorted (n :: ni)) (hk : k < n.key) :
    lookup (n :: ni) k = none := by
  refine List.find?_eq_none.mpr fun e he => ?_
  have hlt := lt_of_mem_of_sorted hs hk he
  simpa using hlt.ne'

theorem lookup_tail_eq_none (hs : Sorted (e :: l)) : lookup l e.key = none := by
  refine List.find?_eq_none.mpr fun e' he' => ?_
  simpa using (rel_of_pairwise_cons hs he').ne'

/-- The new entry of a key hides the old one. -/
theorem find_mergeEntries (ho : Sorted oi) (hn : Sorted ni) (k : LedgerKey) :
    lookup (mergeEntries oi ni) k = (lookup ni k).or (lookup oi k) := by
  fun_induction mergeEntries oi ni with
  | case1 ni => simp [lookup]
  | case2 o oi => simp [lookup]
  | case3 o oi n ni hlt ih =>
    rw [lookup_cons, ih ho.tail hn, lookup_cons o]
    by_cases hk : o.key = k
    · subst hk
      rw [if_pos rfl, if_pos rfl, lookup_eq_none_of_lt hn hlt, none_or]
    · rw [if_neg hk, if_neg hk]
  | case4 o oi n ni _ hlt ih =>
    rw [lookup_cons, ih ho hn.tail, lookup_cons n]
    by_cases hk : n.key = k
    · rw [if_pos hk, if_pos hk, some_or]
    · rw [if_neg hk, if_neg hk]
  | case5 o oi n ni hno hnn ih =>
    have heq : o.key = n.key := le_antisymm (not_lt.mp hnn) (not_lt.mp hno)
    rw [lookup_cons, ih ho.tail hn.tail, lookup_cons n, lookup_cons o, heq]
    by_cases hk : n.key = k
    · rw [if_pos hk, if_pos hk, some_or]
    · rw [if_neg hk, if_neg hk, if_neg hk]

/-- If the keys of a list are different, an entry is found by its key. -/
theorem lookup_eq_some_iff (h : l.Pairwise fun a b => a.key ≠ b.key) :
    lookup l k = some e ↔ e ∈ l ∧ e.key = k := by
  induction l with
  | nil => simp [lookup]
  | cons a l ih =>
    obtain ⟨ha, hl⟩ := pairwise_cons.mp h
    rw [lookup_cons]
    by_cases hk : a.key = k
    · rw [if_pos hk]
      constructor
      · rintro ⟨⟩
        exact ⟨mem_cons_self, hk⟩
      · rintro ⟨he, rfl⟩
        rcases mem_cons.mp he with rfl | he
        · rfl
        · exact absurd hk (ha e he)
    · rw [if_neg hk, ih hl]
      constructor
      · exact fun ⟨he, hek⟩ => ⟨mem_cons_of_mem _ he, hek⟩
      · rintro ⟨he, rfl⟩
        rcases mem_cons.mp he with rfl | he
        · exact absurd rfl hk
        · exact ⟨he, rfl⟩

theorem lookup_filter_of_key {p : BucketEntry → Bool} (hs : Sorted l) (k : LedgerKey) :
    lookup (l.filter p) k = (lookup l k).filter p := by
  induction l with
  | nil => rfl
  | cons e l ih =>
    by_cases hp : p e
    · rw [filter_cons_of_pos hp, lookup_cons, lookup_cons, ih hs.tail]
      by_cases hk : e.key = k <;> simp [hk, hp, filter_some]
    · rw [filter_cons_of_neg hp, lookup_cons, ih hs.tail]
      by_cases hk : e.key = k
      · subst hk
        simp [lookup_tail_eq_none hs, hp, filter_some]
      · rw [if_neg hk]

/-! ## The writer -/

namespace BucketOutputIterator

/-- The writer after an entry that comes in order: what is below it is flushed. -/
def written (out : BucketOutputIterator) (e : BucketEntry) : BucketOutputIterator :=
  if !out.mKeepDeadEntries && !e.isLive then out
  else { out with mOut := out.mOut ++ out.mBuf.toList.filter fun buf => buf.key < e.key,
                  mBuf := some e }

theorem put_eq (h : ∀ buf ∈ out.mBuf, buf.key ≤ e.key) : out.put e = .ok (out.written e) := by
  unfold put written
  split
  · rfl
  · cases hbuf : out.mBuf with
    | none => simp [pure, Except.pure]
    | some buf =>
      have hle : ¬ e.key < buf.key := not_lt.mpr (h buf hbuf)
      simp only [bucketEntryIdCmp_eq, hle]
      by_cases hlt : buf.key < e.key <;> simp [hlt] <;> rfl

/-- Everything in the writer is below the key. -/
def Below (out : BucketOutputIterator) (k : LedgerKey) : Prop :=
  ∀ buf ∈ out.mBuf, buf.key < k

theorem below_init (keep : Bool) (k : LedgerKey) : (init keep).Below k := nofun

theorem Below.le (h : out.Below e.key) : ∀ buf ∈ out.mBuf, buf.key ≤ e.key :=
  fun buf hbuf => (h buf hbuf).le

theorem getEntries_written (h : out.Below e.key) : (out.written e).getEntries =
      out.getEntries ++ [e].filter fun e => out.mKeepDeadEntries || e.isLive := by
  unfold written
  by_cases hskip : (!out.mKeepDeadEntries && !e.isLive) = true
  · simp_all
  · rw [if_neg hskip]
    have hkeep : (out.mKeepDeadEntries || e.isLive) = true := by
      cases hk : out.mKeepDeadEntries <;> cases hl : e.isLive <;> simp_all
    cases hbuf : out.mBuf with
    | none => simp [getEntries, hbuf, hkeep]
    | some buf => simp [getEntries, hbuf, hkeep, h buf hbuf]

@[simp] theorem written_mKeepDeadEntries (out : BucketOutputIterator) (e : BucketEntry) :
    (out.written e).mKeepDeadEntries = out.mKeepDeadEntries := by
  unfold written
  split <;> rfl

/-- The buffer has what it had or the new entry. -/
theorem mem_written_mBuf {buf : BucketEntry} (h : buf ∈ (out.written e).mBuf) :
    buf ∈ out.mBuf ∨ buf = e := by
  unfold written at h
  split at h
  · exact .inl h
  · exact .inr (Option.some.inj h).symm

theorem Below.written (h : out.Below k) (hk : e.key < k) : (out.written e).Below k := by
  intro buf hbuf
  rcases mem_written_mBuf hbuf with hbuf | rfl
  · exact h buf hbuf
  · exact hk

/-- A writer between two puts: what it has is sorted, and something is written
only when there is an entry in the buffer. -/
structure Valid (out : BucketOutputIterator) : Prop where
  sorted : Sorted out.getEntries
  buffered : out.mBuf = none → out.mOut = []

/-- What a valid writer has is not above its buffer. -/
theorem Valid.lt_of_mem (h : out.Valid) (hle : ∀ buf ∈ out.mBuf, buf.key ≤ e.key)
    {a : BucketEntry} (ha : a ∈ out.mOut ++ out.mBuf.toList.filter fun buf => buf.key < e.key) :
    a.key < e.key := by
  rcases mem_append.mp ha with ha | ha
  · cases hbuf : out.mBuf with
    | none =>
      rw [h.buffered hbuf] at ha
      cases ha
    | some buf =>
      have hsorted := h.sorted
      rw [getEntries, hbuf] at hsorted
      exact ((pairwise_append.mp hsorted).2.2 a ha buf mem_cons_self).trans_le (hle buf hbuf)
  · exact of_decide_eq_true (mem_filter.mp ha).2

theorem Valid.written (h : out.Valid) (hle : ∀ buf ∈ out.mBuf, buf.key ≤ e.key) :
    (out.written e).Valid := by
  unfold BucketOutputIterator.written
  split
  · exact h
  · refine ⟨?_, nofun⟩
    have hkept : Sorted (out.mOut ++ out.mBuf.toList.filter fun buf => buf.key < e.key) :=
      h.sorted.sublist (filter_sublist.append_left _)
    refine pairwise_append.mpr ⟨hkept, pairwise_singleton _ _, fun a ha b hb => ?_⟩
    rw [toList_some, mem_singleton] at hb
    exact hb ▸ h.lt_of_mem hle ha

/-- Entries in order, with ties or without, keep the writer's assertion. -/
theorem foldlM_put_eq (hes : es.Pairwise fun a b => a.key ≤ b.key) (h : out.Valid)
    (hle : ∀ buf ∈ out.mBuf, ∀ e ∈ es, buf.key ≤ e.key) :
    es.foldlM put out = .ok (es.foldl written out) ∧ (es.foldl written out).Valid := by
  induction es generalizing out with
  | nil => exact ⟨rfl, h⟩
  | cons e es ih =>
    have he : ∀ buf ∈ out.mBuf, buf.key ≤ e.key := fun buf hbuf => hle buf hbuf e mem_cons_self
    rw [foldlM_cons, put_eq he, ok_bind]
    refine ih hes.tail (h.written he) fun buf hbuf e' he' => ?_
    rcases mem_written_mBuf hbuf with hbuf | rfl
    · exact hle buf hbuf e' (mem_cons_of_mem _ he')
    · exact rel_of_pairwise_cons hes he'

theorem valid_init : (init true).Valid :=
  ⟨.nil, fun _ => rfl⟩

/-- Entries without ties are written as they are. -/
theorem getEntries_foldl_written (hkeep : out.mKeepDeadEntries = true) (hes : Sorted es)
    (hbelow : ∀ e ∈ es, out.Below e.key) :
    (es.foldl written out).getEntries = out.getEntries ++ es := by
  induction es generalizing out with
  | nil => simp
  | cons e es ih =>
    rw [foldl_cons, ih (by rw [written_mKeepDeadEntries, hkeep]) hes.tail ?_,
      getEntries_written (hbelow e mem_cons_self)]
    · simp [hkeep]
    · intro e' he'
      exact (hbelow e' (mem_cons_of_mem _ he')).written (rel_of_pairwise_cons hes he')

end BucketOutputIterator

open BucketOutputIterator

theorem putAll_sorted (hes : es.Pairwise fun a b => a.key ≤ b.key) :
    ∃ l, putAll es = .ok l ∧ Sorted l := by
  obtain ⟨hput, hvalid⟩ := foldlM_put_eq hes valid_init nofun
  rw [putAll, hput]
  exact ⟨_, rfl, hvalid.sorted⟩

theorem putAll_eq (hes : Sorted es) : putAll es = .ok es := by
  obtain ⟨hput, -⟩ :=
    foldlM_put_eq (hes.imp le_of_lt) valid_init nofun
  rw [putAll, hput, ok_bind, getEntries_foldl_written rfl hes fun e _ => below_init true e.key]
  rfl

/-! ## The loop computes the merge -/

/-- Advancing a sorted shadow to an entry finds its key if it is there, and
loses no larger key. -/
theorem dropWhile_shadow {si : List BucketEntry} (hs : Sorted si) (k : LedgerKey) :
    (((si.dropWhile fun s => s.key < k).head?.any fun s => !(k < s.key)) = true ↔
      ∃ e ∈ si, e.key = k) ∧
    ∀ k', k < k' → ((∃ e ∈ si.dropWhile fun s => s.key < k, e.key = k') ↔
      ∃ e ∈ si, e.key = k') := by
  induction si with
  | nil => simp
  | cons s si ih =>
    obtain ⟨ih₁, ih₂⟩ := ih hs.tail
    by_cases hlt : s.key < k
    · rw [dropWhile_cons_of_pos (by simpa using hlt)]
      constructor
      · rw [ih₁]
        simp [hlt.ne]
      · intro k' hk'
        rw [ih₂ k' hk']
        simp [(hlt.trans hk').ne]
    · rw [dropWhile_cons_of_neg (by simpa using hlt)]
      refine ⟨?_, fun _ _ => Iff.rfl⟩
      constructor
      · intro h
        refine ⟨s, mem_cons_self, ?_⟩
        exact le_antisymm (by simpa using h) (not_lt.mp hlt)
      · rintro ⟨e, he, rfl⟩
        have hle : ¬ e.key < s.key := by
          intro hlt'
          exact absurd (lt_of_mem_of_sorted hs hlt' he) (lt_irrefl _)
        simpa using not_lt.mp hle

variable {shadows : List (List BucketEntry)}

/-- `maybePut` writes an entry that is not shadowed, and the advanced shadows
are as good as the old ones for the keys to come. -/
theorem maybePut_spec (hs : ∀ si ∈ shadows, Sorted si)
    (hle : ∀ buf ∈ out.mBuf, buf.key ≤ e.key) :
    ∃ rest, maybePut out e shadows =
        .ok (rest, if Shadowed shadows e.key then out else out.written e) ∧
      (∀ si ∈ rest, Sorted si) ∧
      ∀ k, e.key < k → (Shadowed rest k ↔ Shadowed shadows k) := by
  induction shadows with
  | nil =>
    refine ⟨[], ?_, nofun, fun _ _ => Iff.rfl⟩
    rw [maybePut, put_eq hle, ok_bind, if_neg (by simp [Shadowed])]
    rfl
  | cons si rest ih =>
    obtain ⟨rest', ih₁, ih₂, ih₃⟩ := ih fun s h => hs s (mem_cons_of_mem _ h)
    have hsi := hs si mem_cons_self
    obtain ⟨hfound, hlater⟩ := dropWhile_shadow hsi e.key
    have hdrop : Sorted (si.dropWhile fun s => s.key < e.key) :=
      hsi.sublist (dropWhile_sublist _)
    simp only [maybePut, bucketEntryIdCmp_eq]
    by_cases hhit : ∃ s ∈ si, s.key = e.key
    · have hshadow : Shadowed (si :: rest) e.key := ⟨si, mem_cons_self, hhit⟩
      rw [if_pos (hfound.mpr hhit), if_pos hshadow]
      refine ⟨_, rfl, ?_, fun k hk => ?_⟩
      · simpa [hdrop] using fun s h => hs s (mem_cons_of_mem _ h)
      · simp [Shadowed, hlater k hk]
    · have hshadow : Shadowed (si :: rest) e.key ↔ Shadowed rest e.key := by
        simp [Shadowed, hhit]
      rw [if_neg fun h => hhit (hfound.mp h), ih₁]
      simp only [hshadow]
      refine ⟨_, rfl, ?_, fun k hk => ?_⟩
      · simpa [hdrop] using ih₂
      · have hrest := ih₃ k hk
        simp only [Shadowed] at hrest
        simp [Shadowed, hlater k hk, hrest]

/-- In each round the entry that is taken is the first one of the merge. -/
theorem mergeLoop_eq_foldlM : mergeLoop oi ni shadows out =
      ((mergeEntries oi ni).foldlM (fun p e => maybePut p.2 e p.1) (shadows, out) >>=
        fun p => pure p.2) := by
  fun_induction mergeLoop oi ni shadows out with
  | case1 =>
    rw [mergeEntries_nil_right]
    rfl
  | case2 o oi shadows out ih =>
    rw [mergeEntries_nil_right] at ih ⊢
    rw [foldlM_cons, LawfulMonad.bind_assoc]
    exact bind_congr fun p => ih p.1 p.2
  | case3 n ni shadows out ih =>
    rw [mergeEntries] at ih ⊢
    rw [foldlM_cons, LawfulMonad.bind_assoc]
    exact bind_congr fun p => ih p.1 p.2
  | case4 o oi n ni shadows out hlt ih =>
    rw [mergeEntries, if_pos (bucketEntryIdCmp_iff.mp hlt), foldlM_cons, LawfulMonad.bind_assoc]
    exact bind_congr fun p => ih p.1 p.2
  | case5 o oi n ni shadows out hno hlt ih =>
    rw [mergeEntries, if_neg fun h => hno (bucketEntryIdCmp_iff.mpr h),
      if_pos (bucketEntryIdCmp_iff.mp hlt), foldlM_cons, LawfulMonad.bind_assoc]
    exact bind_congr fun p => ih p.1 p.2
  | case6 o oi n ni shadows out hno hnn ih =>
    rw [mergeEntries, if_neg fun h => hno (bucketEntryIdCmp_iff.mpr h),
      if_neg fun h => hnn (bucketEntryIdCmp_iff.mpr h), foldlM_cons, LawfulMonad.bind_assoc]
    exact bind_congr fun p => ih p.1 p.2

/-- What is kept is appended to the writer. -/
theorem foldlM_maybePut (hes : Sorted es) (hs : ∀ si ∈ shadows, Sorted si)
    (hout : ∀ e ∈ es, out.Below e.key) :
    ∃ p, es.foldlM (fun p e => maybePut p.2 e p.1) (shadows, out) = .ok p ∧
      p.2.getEntries = out.getEntries ++ es.filter (Kept out.mKeepDeadEntries shadows) := by
  induction es generalizing shadows out with
  | nil => exact ⟨_, rfl, by simp⟩
  | cons e es ih =>
    have he := hout e mem_cons_self
    obtain ⟨rest, hput, hs', hlater⟩ := maybePut_spec hs he.le
    have hrest : es.filter (Kept out.mKeepDeadEntries rest) =
        es.filter (Kept out.mKeepDeadEntries shadows) := by
      refine filter_congr fun e' he' => ?_
      simp [Kept, hlater e'.key (rel_of_pairwise_cons hes he')]
    rw [foldlM_cons, hput, ok_bind]
    by_cases hshadow : Shadowed shadows e.key
    · simp only [if_pos hshadow]
      obtain ⟨p, hp, hentries⟩ := ih hes.tail hs' fun e' he' => hout e' (mem_cons_of_mem _ he')
      exact ⟨p, hp, by simp [hentries, hrest, hshadow, Kept]⟩
    · simp only [if_neg hshadow]
      obtain ⟨p, hp, hentries⟩ := ih hes.tail hs' fun e' he' =>
        (hout e' (mem_cons_of_mem _ he')).written (rel_of_pairwise_cons hes he')
      refine ⟨p, hp, ?_⟩
      rw [hentries, written_mKeepDeadEntries, hrest, getEntries_written he, append_assoc,
        filter_cons (x := e)]
      by_cases hk : (out.mKeepDeadEntries || e.isLive) = true
      · simp [hshadow, Kept, hk]
      · simp [Kept, hk]

/-- What `Bucket::merge` writes. -/
theorem mergeChecked_eq (ho : Sorted oi) (hn : Sorted ni) (hs : ∀ si ∈ shadows, Sorted si)
    (keep : Bool) :
    mergeChecked oi ni shadows keep = .ok ((mergeEntries oi ni).filter (Kept keep shadows)) := by
  obtain ⟨p, hp, hentries⟩ := foldlM_maybePut (sorted_mergeEntries ho hn) hs
    fun e _ => below_init keep e.key
  rw [mergeChecked, mergeLoop_eq_foldlM, hp]
  exact congrArg Except.ok hentries

namespace Bucket

/-- `Bucket::merge` -/
def merge (oldBucket newBucket : Bucket) (shadows : List Bucket)
    (keepDeadEntries : Bool) : Bucket where
  entries := (mergeChecked oldBucket.entries newBucket.entries
    (shadows.map Bucket.entries) keepDeadEntries).toOption.getD []
  sorted := by
    have hs : ∀ si ∈ shadows.map Bucket.entries, Sorted si := by
      simpa using fun b _ => b.sorted
    rw [mergeChecked_eq oldBucket.sorted newBucket.sorted hs]
    exact (sorted_mergeEntries oldBucket.sorted newBucket.sorted).filter _

/-- Some shadow contains the key. -/
def ShadowedBy (shadows : List Bucket) (k : LedgerKey) : Prop :=
  ∃ b ∈ shadows, b.find k ≠ none

instance (shadows : List Bucket) (k : LedgerKey) :
    Decidable (ShadowedBy shadows k) :=
  inferInstanceAs (Decidable (∃ b ∈ shadows, b.find k ≠ none))

theorem shadowed_iff {shadows : List Bucket} :
    Shadowed (shadows.map Bucket.entries) k ↔ ShadowedBy shadows k := by
  simp [Shadowed, ShadowedBy, find, lookup]

/-- A merge has the new entry for a key, else the old one, unless the key is
shadowed or the entry is a tombstone that is not kept. -/
theorem find_merge (old new : Bucket) (shadows : List Bucket) (keep : Bool) (k : LedgerKey) :
    (merge old new shadows keep).find k =
      if ShadowedBy shadows k then none
      else ((new.find k).or (old.find k)).filter fun e => keep || e.isLive := by
  have hs : ∀ si ∈ shadows.map Bucket.entries, Sorted si := by
    simpa using fun b _ => b.sorted
  have hkey : ∀ {e : BucketEntry} {l : List BucketEntry}, lookup l k = some e → e.key = k := by
    intro e l h
    simpa using List.find?_some h
  have hentries : (merge old new shadows keep).entries = _ :=
    congrArg (fun x => x.toOption.getD []) (mergeChecked_eq old.sorted new.sorted hs keep)
  rw [find, hentries, Except.toOption, Option.getD_some,
    lookup_filter_of_key (sorted_mergeEntries old.sorted new.sorted),
    find_mergeEntries old.sorted new.sorted]
  unfold find
  cases h : (lookup new.entries k).or (lookup old.entries k) with
  | none => simp
  | some e =>
    have he : e.key = k := by
      rcases or_eq_some_iff.mp h with h | ⟨-, h⟩
      · exact hkey h
      · exact hkey h
    by_cases hshadow : ShadowedBy shadows k
    · simp [Kept, he, shadowed_iff, hshadow]
    · simp [filter_some, Kept, he, shadowed_iff, hshadow]

end Bucket

/-! ## New buckets -/

theorem strictWeak_bucketEntryIdCmp : StrictWeak BucketEntryIdCmp :=
  strictWeak_of_key fun _ _ => bucketEntryIdCmp_iff

theorem sort_le (std : StdSort) (es : List BucketEntry) :
    (std.sort BucketEntryIdCmp es).Pairwise fun a b => a.key ≤ b.key := by
  refine (std.sorted es strictWeak_bucketEntryIdCmp).imp fun {a b} hle => ?_
  rwa [bucketEntryIdCmp_eq, decide_eq_false_iff_not, not_lt] at hle

/-- Sorting entries with different keys -/
theorem sorted_sort (std : StdSort) (hes : es.Pairwise fun a b => a.key ≠ b.key) :
    Sorted (std.sort BucketEntryIdCmp es) ∧ (std.sort BucketEntryIdCmp es).Perm es := by
  have hperm := std.perm es strictWeak_bucketEntryIdCmp
  have hne : (std.sort BucketEntryIdCmp es).Pairwise fun a b => a.key ≠ b.key :=
    hperm.symm.pairwise hes fun h => h.symm
  exact ⟨(sort_le std es).imp₂ (fun _ _ h h' => lt_of_le_of_ne h h') hne, hperm⟩

/-- Without shadows, and with tombstones, everything is kept. -/
theorem filter_kept (es : List BucketEntry) : es.filter (Kept true []) = es :=
  filter_eq_self.mpr fun e _ => by simp [Kept, Shadowed]

section Fresh

variable {liveEntries : List LedgerEntry} {deadEntries : List LedgerKey}

/-- A new bucket is sorted, whatever it is given. -/
theorem freshChecked_sorted (std : StdSort) (liveEntries : List LedgerEntry)
    (deadEntries : List LedgerKey) :
    ∃ l, freshChecked std liveEntries deadEntries = .ok l ∧ Sorted l := by
  obtain ⟨live, hlive, hsl⟩ := putAll_sorted (sort_le std (liveEntries.map .LIVEENTRY))
  obtain ⟨dead, hdead, hsd⟩ := putAll_sorted (sort_le std (deadEntries.map .DEADENTRY))
  rw [freshChecked, hlive, hdead]
  exact ⟨_, mergeChecked_eq hsl hsd (forall_mem_nil _) true, (sorted_mergeEntries hsl hsd).filter _⟩

/-- If no key is given twice, nothing is lost by writing. -/
theorem freshChecked_eq (std : StdSort)
    (hlive : liveEntries.Pairwise fun a b => LedgerEntryKey a ≠ LedgerEntryKey b)
    (hdead : deadEntries.Nodup) :
    ∃ live dead, freshChecked std liveEntries deadEntries = .ok (mergeEntries live dead) ∧
      Sorted live ∧ Sorted dead ∧ live.Perm (liveEntries.map .LIVEENTRY) ∧
      dead.Perm (deadEntries.map .DEADENTRY) := by
  obtain ⟨hsl, hpl⟩ := sorted_sort std (pairwise_map.mpr hlive :
    (liveEntries.map BucketEntry.LIVEENTRY).Pairwise fun a b => a.key ≠ b.key)
  obtain ⟨hsd, hpd⟩ := sorted_sort std (pairwise_map.mpr hdead :
    (deadEntries.map BucketEntry.DEADENTRY).Pairwise fun a b => a.key ≠ b.key)
  refine ⟨_, _, ?_, hsl, hsd, hpl, hpd⟩
  rw [freshChecked, putAll_eq hsl, putAll_eq hsd, ok_bind, ok_bind,
    mergeChecked_eq hsl hsd (forall_mem_nil _) true, filter_kept]

namespace Bucket

/-- `Bucket::fresh`; ties are sorted in the order in which they are given. -/
def fresh (liveEntries : List LedgerEntry) (deadEntries : List LedgerKey) : Bucket where
  entries := (freshChecked .stable liveEntries deadEntries).toOption.getD []
  sorted := by
    obtain ⟨l, hl, hsorted⟩ := freshChecked_sorted .stable liveEntries deadEntries
    rwa [hl]

/-- Lists with the same entries and different keys -/
theorem lookup_perm {l' : List BucketEntry} (hs : Sorted l) (hperm : l.Perm l') (k : LedgerKey) :
    lookup l k = lookup l' k := by
  have hne : l.Pairwise fun a b => a.key ≠ b.key := hs.imp fun h => h.ne
  have hne' := hperm.pairwise hne fun h => h.symm
  refine ext fun e => ?_
  rw [lookup_eq_some_iff hne, lookup_eq_some_iff hne', hperm.mem_iff]

/-- What a batch with different keys says about a key. -/
theorem find_fresh (hlive : liveEntries.Pairwise fun a b => LedgerEntryKey a ≠ LedgerEntryKey b)
    (hdead : deadEntries.Nodup) (k : LedgerKey) :
    (fresh liveEntries deadEntries).find k =
      if k ∈ deadEntries then some (.DEADENTRY k)
      else (liveEntries.find? fun e => LedgerEntryKey e = k).map .LIVEENTRY := by
  have hfl : lookup (liveEntries.map BucketEntry.LIVEENTRY) k =
      (liveEntries.find? fun e => LedgerEntryKey e = k).map .LIVEENTRY := by
    rw [lookup, List.find?_map]
    rfl
  have hfd : lookup (deadEntries.map BucketEntry.DEADENTRY) k =
      if k ∈ deadEntries then some (.DEADENTRY k) else none := by
    have hd : (deadEntries.map BucketEntry.DEADENTRY).Pairwise fun a b => a.key ≠ b.key :=
      pairwise_map.mpr hdead
    split
    · next hk => exact (lookup_eq_some_iff hd).mpr ⟨mem_map_of_mem hk, rfl⟩
    · next hk =>
      refine List.find?_eq_none.mpr fun e he => ?_
      obtain ⟨_, hk', rfl⟩ := mem_map.mp he
      intro heq
      exact hk ((of_decide_eq_true heq) ▸ hk')
  obtain ⟨live, dead, hfresh, hsl, hsd, hpl, hpd⟩ := freshChecked_eq .stable hlive hdead
  have hentries : (fresh liveEntries deadEntries).entries = mergeEntries live dead :=
    congrArg (fun x => x.toOption.getD []) hfresh
  rw [find, hentries, find_mergeEntries hsl hsd, lookup_perm hsl hpl, lookup_perm hsd hpd, hfl, hfd]
  split <;> simp

end Bucket

end Fresh

end EssaCore.Buckets
