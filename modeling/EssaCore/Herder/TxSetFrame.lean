import EssaCore.Lib.StdSort
import EssaCore.Transactions.SignatureChecker

/-!
# The order in which transactions are applied

`herder/TxSetFrame.cpp` 54–137, 341–357: a transaction set is hashed in the order of the full hashes
of its transactions. It is applied in batches, the `i`-th transactions of all accounts in the
`i`-th batch, each in the order of the hashes xored with the hash of the set.

- `TxSetFrame`, `getContentsHash`, `sortForApply` — the code, for any implementation of `std::sort`;
- `rank` — the batch of a transaction: how many of its account have a lower sequence number;
- `BatchesOf` — what the batches are while they are built;
- `sortForApply_canonical` — the order is the same whatever the set's own order is, and keeps the
  sequence numbers of every account ascending.
-/

open List

namespace EssaCore.Herder

open Ledger Transactions Lib

/-! ## The code -/

/-- The hash of an envelope (`TransactionFrame::getFullHash`), and the hash of envelopes after the
hash of the previous ledger -/
structure SetHasher where
  fullHash : TransactionEnvelope → BitVec 256
  setHash : BitVec 256 → List TransactionEnvelope → BitVec 256

/-- `lessThanXored` (`util/types.cpp` 69–80) -/
def lessThanXored (l r x : BitVec 256) : Bool := x ^^^ l < x ^^^ r

/-- `TxSetFrame` -/
structure TxSetFrame where
  mHashIsValid : Bool
  mHash : BitVec 256
  mPreviousLedgerHash : BitVec 256
  mTransactions : List TransactionEnvelope

section Code

variable (std : StdSort) (hasher : SetHasher)

def HashTxSorter (tx1 tx2 : TransactionEnvelope) : Bool :=
  hasher.fullHash tx1 < hasher.fullHash tx2

def ApplyTxSorter (mSetHash : BitVec 256) (tx1 tx2 : TransactionEnvelope) : Bool :=
  lessThanXored (hasher.fullHash tx1) (hasher.fullHash tx2) mSetHash

def SeqSorter (tx1 tx2 : TransactionEnvelope) : Bool := tx1.tx.seqNum < tx2.tx.seqNum

namespace TxSetFrame

/-- The constructors: an empty set, or the transactions of a `TransactionSet` -/
def new (previousLedgerHash : BitVec 256) (txs : List TransactionEnvelope) : TxSetFrame :=
  ⟨false, 0, previousLedgerHash, txs⟩

def add (f : TxSetFrame) (tx : TransactionEnvelope) : TxSetFrame :=
  { f with mTransactions := f.mTransactions ++ [tx], mHashIsValid := false }

def removeTx (f : TxSetFrame) (tx : TransactionEnvelope) : TxSetFrame :=
  { f with mTransactions := f.mTransactions.erase tx, mHashIsValid := false }

def sortForHash (f : TxSetFrame) : TxSetFrame :=
  { f with
    mTransactions := std.sort (HashTxSorter hasher) f.mTransactions
    mHashIsValid := false }

def getContentsHash (f : TxSetFrame) : BitVec 256 × TxSetFrame :=
  if f.mHashIsValid then (f.mHash, f)
  else
    let f := f.sortForHash std hasher
    let mHash := hasher.setHash f.mPreviousLedgerHash f.mTransactions
    (mHash, { f with mHash := mHash, mHashIsValid := true })

/-- The loop that builds `txBatches`: `counts` is `accountTxCountMap`. -/
def buildBatches : List TransactionEnvelope → List (List TransactionEnvelope) → (AccountID → Nat) →
    List (List TransactionEnvelope)
  | [], txBatches, _ => txBatches
  | tx :: txs, txBatches, counts =>
    let v := counts tx.tx.sourceAccount
    let txBatches :=
      if v ≥ txBatches.length then
        txBatches ++ .replicate (v + 4 - txBatches.length) [] else txBatches
    buildBatches txs (txBatches.modify v (· ++ [tx]))
      (Function.update counts tx.tx.sourceAccount (v + 1))

/-- The loop that sorts the batches -/
def sortBatches : List (List TransactionEnvelope) → TxSetFrame →
    List TransactionEnvelope × TxSetFrame
  | [], f => ([], f)
  | batch :: batches, f =>
    let (hash, f) := f.getContentsHash std hasher
    let (rest, f) := sortBatches batches f
    (std.sort (ApplyTxSorter hasher hash) batch ++ rest, f)

def sortForApply (f : TxSetFrame) : List TransactionEnvelope × TxSetFrame :=
  let retList := std.sort SeqSorter f.mTransactions
  let txBatches := buildBatches retList (.replicate 4 []) fun _ => 0
  sortBatches std hasher txBatches f

end TxSetFrame

end Code

/-! ## The comparisons -/

section Comparisons

variable {hasher : SetHasher}

theorem hashTxSorter_iff (a b : TransactionEnvelope) : HashTxSorter hasher a b = true ↔
    (hasher.fullHash a).toNat < (hasher.fullHash b).toNat := by
  rw [HashTxSorter, decide_eq_true_iff, BitVec.lt_def]

theorem applyTxSorter_iff (hash : BitVec 256) (a b : TransactionEnvelope) :
    ApplyTxSorter hasher hash a b = true ↔
      (hash ^^^ hasher.fullHash a).toNat < (hash ^^^ hasher.fullHash b).toNat := by
  rw [ApplyTxSorter, lessThanXored, decide_eq_true_iff, BitVec.lt_def]

theorem seqSorter_iff (a b : TransactionEnvelope) :
    SeqSorter a b = true ↔ a.tx.seqNum < b.tx.seqNum := by
  rw [SeqSorter, decide_eq_true_iff]

variable {txs : List TransactionEnvelope}

theorem hashTxSorter_ties (h : (txs.map hasher.fullHash).Nodup) :
    txs.Pairwise fun a b => ¬ Tied (HashTxSorter hasher) a b := by
  refine (pairwise_map.mp h).imp fun hne htied => hne ?_
  exact BitVec.eq_of_toNat_eq ((tied_iff hashTxSorter_iff).mp htied)

/-- Different hashes stay different when they are xored with the hash of the set. -/
theorem applyTxSorter_ties (hash : BitVec 256) (h : (txs.map hasher.fullHash).Nodup) :
    txs.Pairwise fun a b => ¬ Tied (ApplyTxSorter hasher hash) a b := by
  refine (pairwise_map.mp h).imp fun hne htied => hne ?_
  have hxor := BitVec.eq_of_toNat_eq ((tied_iff (applyTxSorter_iff hash)).mp htied)
  exact (BitVec.xor_right_inj hash).mp hxor

end Comparisons

/-! ## The hash of the set -/

namespace TxSetFrame

variable {std std' : StdSort} {hasher : SetHasher} {f g : TxSetFrame}

/-- The transactions in the order in which they are hashed -/
def HashOrder (hasher : SetHasher) (f : TxSetFrame) (txs : List TransactionEnvelope) : Prop :=
  txs.Perm f.mTransactions ∧ txs.Pairwise fun a b => HashTxSorter hasher b a = false

/-- A hash that is marked as valid is the hash of the set. -/
def Cached (hasher : SetHasher) (f : TxSetFrame) : Prop :=
  f.mHashIsValid = true →
    ∃ txs, f.HashOrder hasher txs ∧ f.mHash = hasher.setHash f.mPreviousLedgerHash txs

theorem cached_of_not_valid (h : f.mHashIsValid = false) : f.Cached hasher := fun hvalid => by
  rw [h] at hvalid
  cases hvalid

theorem cached_new (previousLedgerHash : BitVec 256) (txs : List TransactionEnvelope) :
    (new previousLedgerHash txs).Cached hasher := cached_of_not_valid rfl

theorem cached_add (f : TxSetFrame) (tx : TransactionEnvelope) : (f.add tx).Cached hasher :=
  cached_of_not_valid rfl

theorem cached_removeTx (f : TxSetFrame) (tx : TransactionEnvelope) :
    (f.removeTx tx).Cached hasher := cached_of_not_valid rfl

theorem getContentsHash_spec (std : StdSort) (h : f.Cached hasher) :
    (f.getContentsHash std hasher).2.Cached hasher ∧ ∃ txs, f.HashOrder hasher txs ∧
        (f.getContentsHash std hasher).1 = hasher.setHash f.mPreviousLedgerHash txs := by
  unfold getContentsHash
  split
  · rename_i hvalid
    exact ⟨h, h hvalid⟩
  · have hweak : StrictWeak (HashTxSorter hasher) := strictWeak_of_key hashTxSorter_iff
    have hsorted := std.sorted f.mTransactions hweak
    have hperm := std.perm f.mTransactions hweak
    exact ⟨fun _ => ⟨_, ⟨Perm.refl _, hsorted⟩, rfl⟩, _, ⟨hperm, hsorted⟩, rfl⟩

/-- Asked again, the set has the same hash. -/
theorem getContentsHash_again : ((f.getContentsHash std hasher).2.getContentsHash std hasher).1 =
      (f.getContentsHash std hasher).1 := by
  cases hvalid : f.mHashIsValid <;> simp [getContentsHash, hvalid]

/-- Sets of the same transactions have the same hash. -/
theorem getContentsHash_unique (hf : f.Cached hasher) (hg : g.Cached hasher)
    (hprev : g.mPreviousLedgerHash = f.mPreviousLedgerHash)
    (hperm : g.mTransactions.Perm f.mTransactions)
    (hhashes : (f.mTransactions.map hasher.fullHash).Nodup) :
    (g.getContentsHash std' hasher).1 = (f.getContentsHash std hasher).1 := by
  obtain ⟨-, _, ⟨hp, hs⟩, hhash⟩ := getContentsHash_spec std hf
  obtain ⟨-, _, ⟨hp', hs'⟩, hhash'⟩ := getContentsHash_spec std' hg
  rw [hhash, hhash', hprev, StdSort.sort_unique hperm.symm
    (hashTxSorter_ties hhashes) hp hs hp' hs']

end TxSetFrame

/-! ## The batches -/

/-- How many transactions of the same account have a lower sequence number -/
def rank (txs : List TransactionEnvelope) (tx : TransactionEnvelope) : Nat :=
  txs.countP fun t => t.tx.sourceAccount = tx.tx.sourceAccount ∧ t.tx.seqNum < tx.tx.seqNum

/-- No two transactions of one account share a sequence number. -/
def SeqDistinct (txs : List TransactionEnvelope) : Prop :=
  txs.Pairwise fun a b => a.tx.sourceAccount = b.tx.sourceAccount → a.tx.seqNum ≠ b.tx.seqNum

variable {txs txs' pre suf : List TransactionEnvelope} {tx a b : TransactionEnvelope}

theorem rank_perm (h : txs.Perm txs') : rank txs = rank txs' := by
  funext tx
  exact h.countP_eq _

theorem SeqDistinct.perm (h : SeqDistinct txs) (hperm : txs.Perm txs') : SeqDistinct txs' :=
  hperm.pairwise h fun hne hsource heq => hne hsource.symm heq.symm

variable {α : Type}

theorem countP_lt_countP {p q : α → Bool} {l : List α} {x : α}
    (hpq : ∀ y, p y = true → q y = true) (hx : x ∈ l) (hp : ¬ p x = true) (hq : q x = true) :
    l.countP p < l.countP q := by
  induction l with
  | nil => cases hx
  | cons y l ih =>
    rcases mem_cons.mp hx with rfl | hx
    · rw [countP_cons_of_neg hp, countP_cons_of_pos hq, Nat.lt_succ_iff]
      exact countP_mono_left fun z _ => hpq z
    · have hlt := ih hx
      by_cases hy : p y = true
      · rw [countP_cons_of_pos hy, countP_cons_of_pos (hpq y hy)]
        exact Nat.succ_lt_succ hlt
      · rw [countP_cons_of_neg hy, countP_cons]
        omega

theorem rank_lt_rank (ha : a ∈ txs) (hsource : a.tx.sourceAccount = b.tx.sourceAccount)
    (hlt : a.tx.seqNum < b.tx.seqNum) : rank txs a < rank txs b := by
  refine countP_lt_countP (fun t ht => ?_) ha ?_ ?_
  · simp only [decide_eq_true_eq] at ht ⊢
    exact ⟨ht.1.trans hsource, lt_trans ht.2 hlt⟩
  · simp
  · simp only [decide_eq_true_eq]
    exact ⟨hsource, hlt⟩

/-- Transactions of one account are in different batches, in order. -/
theorem seqNum_lt_of_rank (hb : b ∈ txs) (hsource : a.tx.sourceAccount = b.tx.sourceAccount)
    (hne : a.tx.seqNum ≠ b.tx.seqNum) (hle : rank txs a ≤ rank txs b) :
    a.tx.seqNum < b.tx.seqNum := by
  rcases lt_or_gt_of_ne hne with hlt | hgt
  · exact hlt
  · exact absurd (rank_lt_rank hb hsource.symm hgt) (not_lt.mpr hle)

theorem rank_congr (hsource : a.tx.sourceAccount = b.tx.sourceAccount)
    (hseq : a.tx.seqNum = b.tx.seqNum) : rank txs a = rank txs b := by
  rw [rank, rank, hsource, hseq]

/-- In the order of sequence numbers, the rank is the number of earlier transactions of the
account. -/
theorem rank_eq_count (hsorted : (pre ++ tx :: suf).Pairwise fun a b => SeqSorter b a = false)
    (hseqs : SeqDistinct (pre ++ tx :: suf)) :
    rank (pre ++ tx :: suf) tx = pre.countP fun t => t.tx.sourceAccount = tx.tx.sourceAccount := by
  simp only [SeqSorter, decide_eq_false_iff_not] at hsorted
  obtain ⟨-, hsuf, hpre⟩ := pairwise_append.mp hsorted
  obtain ⟨-, -, hdistinct⟩ := pairwise_append.mp hseqs
  have hlater : suf.countP (fun t => t.tx.sourceAccount = tx.tx.sourceAccount ∧
      t.tx.seqNum < tx.tx.seqNum) = 0 := by
    refine countP_eq_zero.mpr fun t ht => ?_
    have hnot := rel_of_pairwise_cons hsuf ht
    simp [hnot]
  rw [rank, countP_append, countP_cons_of_neg (by simp), hlater]
  refine countP_congr fun t ht => ?_
  simp only [decide_eq_true_eq]
  refine ⟨fun h => h.1, fun hsource => ⟨hsource, ?_⟩⟩
  have hle := hpre t ht tx mem_cons_self
  exact lt_of_le_of_ne (not_lt.mp hle) (hdistinct t ht tx mem_cons_self hsource)

/-- What is known of the batches when the transactions of `pre` were put into them -/
structure BatchesOf (txs pre : List TransactionEnvelope)
    (txBatches : List (List TransactionEnvelope))
    (counts : AccountID → Nat) : Prop where
  counts : ∀ id, counts id = pre.countP fun t => t.tx.sourceAccount = id
  batch : ∀ i, txBatches.getD i [] = pre.filter fun t => rank txs t = i
  perm : txBatches.flatten.Perm pre

theorem flatten_modify_perm {v : Nat} {batches : List (List α)} (x : α)
    (hv : v < batches.length) :
    (batches.modify v (· ++ [x])).flatten.Perm (batches.flatten ++ [x]) := by
  induction batches generalizing v with
  | nil => exact absurd hv (Nat.not_lt_zero v)
  | cons b bs ih =>
    cases v with
    | zero =>
      rw [modify_zero_cons, flatten_cons, flatten_cons, append_assoc,
        append_assoc]
      exact perm_append_comm.append_left b
    | succ v =>
      rw [modify_succ_cons, flatten_cons, flatten_cons, append_assoc]
      exact (ih (Nat.lt_of_succ_lt_succ hv)).append_left b

section Batches

variable {txBatches : List (List TransactionEnvelope)} {counts : AccountID → Nat}

/-- New batches are empty. -/
theorem BatchesOf.resize (h : BatchesOf txs pre txBatches counts) (n : Nat) :
    BatchesOf txs pre (txBatches ++ .replicate n []) counts where
  counts := h.counts
  batch i := by
    rw [← h.batch i]
    simp only [getD_eq_getElem?_getD, List.getElem?_append, List.getElem?_replicate]
    split
    · rfl
    · rename_i hlen
      rw [List.getElem?_eq_none (not_lt.mp hlen)]
      split <;> rfl
  perm := by
    rw [flatten_append, flatten_replicate_nil, append_nil]
    exact h.perm

/-- One transaction goes into its batch. -/
theorem BatchesOf.push (h : BatchesOf txs pre txBatches counts) {v : Nat}
    (hv : v < txBatches.length) (hcount : counts tx.tx.sourceAccount = v)
    (hrank : rank txs tx = v) :
    BatchesOf txs (pre ++ [tx]) (txBatches.modify v (· ++ [tx]))
      (Function.update counts tx.tx.sourceAccount (v + 1)) where
  counts id := by
    rw [countP_append, ← h.counts id]
    by_cases hid : tx.tx.sourceAccount = id
    · subst hid
      simp [hcount]
    · rw [Function.update_of_ne fun heq => hid heq.symm]
      simp [hid]
  batch i := by
    rw [filter_append, ← h.batch i, getD_eq_getElem?_getD, List.getElem?_modify]
    by_cases hi : v = i
    · subst hi
      simp [hrank, List.getElem?_eq_getElem hv]
    · simp [hrank, hi]
  perm := (flatten_modify_perm tx hv).trans (h.perm.append_right [tx])

theorem buildBatches_spec (hsorted : (pre ++ suf).Pairwise fun a b => SeqSorter b a = false)
    (hseqs : SeqDistinct (pre ++ suf)) (h : BatchesOf (pre ++ suf) pre txBatches counts) :
    ∃ counts', BatchesOf (pre ++ suf) (pre ++ suf)
      (TxSetFrame.buildBatches suf txBatches counts) counts' := by
  induction suf generalizing pre txBatches counts with
  | nil =>
    rw [append_nil] at h ⊢
    exact ⟨counts, h⟩
  | cons tx suf ih =>
    have hassoc : pre ++ tx :: suf = (pre ++ [tx]) ++ suf := by simp
    have hrank : rank (pre ++ tx :: suf) tx = counts tx.tx.sourceAccount := by
      rw [rank_eq_count hsorted hseqs, h.counts]
    obtain ⟨hresized, hlen⟩ : BatchesOf (pre ++ tx :: suf) pre
          (if counts tx.tx.sourceAccount ≥ txBatches.length then txBatches ++
            .replicate (counts tx.tx.sourceAccount + 4 - txBatches.length) [] else txBatches)
          counts ∧
        counts tx.tx.sourceAccount <
          (if counts tx.tx.sourceAccount ≥ txBatches.length then txBatches ++
            .replicate (counts tx.tx.sourceAccount + 4 - txBatches.length) []
          else txBatches).length := by
      split
      · refine ⟨h.resize _, ?_⟩
        rw [length_append, length_replicate]
        omega
      · exact ⟨h, by omega⟩
    have hpushed := hresized.push hlen rfl hrank
    rw [hassoc] at hpushed hsorted hseqs ⊢
    exact ih hsorted hseqs hpushed

/-- The batches of a set: each has the transactions of its rank. -/
theorem batchesOf_sorted (hsorted : txs.Pairwise fun a b => SeqSorter b a = false)
    (hseqs : SeqDistinct txs) : ∃ counts, BatchesOf txs txs
      (TxSetFrame.buildBatches txs (.replicate 4 []) fun _ => 0) counts := by
  have hsorted' : ([] ++ txs).Pairwise fun a b => SeqSorter b a = false := hsorted
  refine buildBatches_spec hsorted' hseqs ⟨fun _ => rfl, fun i => ?_, ?_⟩
  · match i with
    | 0 | 1 | 2 | 3 | _ + 4 => rfl
  · exact Perm.refl _

variable {i : Nat}

variable (h : BatchesOf txs pre txBatches counts)

include h

theorem BatchesOf.getElem
    (hi : i < txBatches.length) : txBatches[i] = pre.filter fun t => rank txs t = i := by
  rw [← h.batch i, getD_eq_getElem?_getD, List.getElem?_eq_getElem hi, Option.getD_some]

theorem BatchesOf.mem (hi : i < txBatches.length)
    (ha : a ∈ txBatches[i]) : a ∈ pre ∧ rank txs a = i := by
  rw [h.getElem hi, mem_filter, decide_eq_true_iff] at ha
  exact ha

theorem BatchesOf.seqDistinct (hseqs : SeqDistinct pre)
    (hi : i < txBatches.length) : SeqDistinct txBatches[i] := by
  rw [h.getElem hi]
  exact Pairwise.filter _ hseqs

end Batches

/-! ## The order -/

namespace TxSetFrame

variable {std std' : StdSort} {hasher : SetHasher} {f g : TxSetFrame}

theorem sortBatches_eq (txBatches : List (List TransactionEnvelope)) (f : TxSetFrame) :
    (sortBatches std hasher txBatches f).1 =
      txBatches.flatMap (std.sort (ApplyTxSorter hasher (f.getContentsHash std hasher).1)) := by
  induction txBatches generalizing f with
  | nil => rfl
  | cons batch batches ih => simp [sortBatches, ih, getContentsHash_again]

/-- Trailing batches that are empty do not matter. -/
theorem flatMap_eq_range {β : Type} {sort : List α → List β} (hnil : sort [] = []) {n : Nat}
    {batches : List (List α)} (hn : batches.length ≤ n) :
    batches.flatMap sort = (List.range n).flatMap fun i => sort (batches.getD i []) := by
  induction batches generalizing n with
  | nil =>
    simp [hnil]
  | cons b bs ih =>
    obtain ⟨m, rfl⟩ : ∃ m, n = m + 1 := ⟨n - 1, by simp at hn; omega⟩
    rw [flatMap_cons, range_succ_eq_map, flatMap_cons, flatMap_map,
      ih (Nat.le_of_succ_le_succ hn)]
    rfl

theorem sort_nil {lt : α → α → Bool} (hweak : StrictWeak lt) : std.sort lt [] = [] :=
  perm_nil.mp (std.perm [] hweak)

theorem strictWeak_apply (hash : BitVec 256) : StrictWeak (ApplyTxSorter hasher hash) :=
  strictWeak_of_key (applyTxSorter_iff hash)

theorem strictWeak_seq : StrictWeak SeqSorter := strictWeak_of_key seqSorter_iff

/-- The result, as a permutation -/
theorem sortForApply_perm (hseqs : SeqDistinct f.mTransactions) :
    (f.sortForApply std hasher).1.Perm f.mTransactions := by
  have hperm := std.perm f.mTransactions strictWeak_seq
  obtain ⟨_, hbatches⟩ := batchesOf_sorted (std.sorted f.mTransactions strictWeak_seq)
    (hseqs.perm hperm.symm)
  rw [sortForApply, sortBatches_eq]
  refine (Perm.flatten_congr ?_).trans (hbatches.perm.trans hperm)
  rw [forall₂_map_left_iff, forall₂_same]
  exact fun batch _ => std.perm batch (strictWeak_apply _)

/-- The result keeps the order of the sequence numbers of an account. -/
theorem sortForApply_ascending (hseqs : SeqDistinct f.mTransactions) :
    (f.sortForApply std hasher).1.Pairwise fun a b =>
      a.tx.sourceAccount = b.tx.sourceAccount → a.tx.seqNum < b.tx.seqNum := by
  have hperm := std.perm f.mTransactions strictWeak_seq
  have hseqs' := hseqs.perm hperm.symm
  obtain ⟨_, hbatches⟩ := batchesOf_sorted (std.sorted f.mTransactions strictWeak_seq) hseqs'
  rw [sortForApply, sortBatches_eq, flatMap_def, pairwise_flatten]
  generalize (f.getContentsHash std hasher).1 = hash
  have hsort (batch : List TransactionEnvelope) :
      (std.sort (ApplyTxSorter hasher hash) batch).Perm batch :=
    std.perm batch (strictWeak_apply hash)
  refine ⟨?_, pairwise_iff_getElem.mpr fun i j hi hj hij a ha b hb hsource => ?_⟩
  · -- in one batch there is at most one transaction of an account
    intro sorted hmem
    obtain ⟨batch, hbatch, rfl⟩ := mem_map.mp hmem
    obtain ⟨i, hi, rfl⟩ := mem_iff_getElem.mp hbatch
    refine Pairwise.imp_of_mem (fun {a b} ha hb hne hsource => ?_)
      ((hbatches.seqDistinct hseqs' hi).perm (hsort _).symm)
    obtain ⟨-, hranka⟩ := hbatches.mem hi ((hsort _).mem_iff.mp ha)
    obtain ⟨hb, hrankb⟩ := hbatches.mem hi ((hsort _).mem_iff.mp hb)
    exact seqNum_lt_of_rank hb hsource (hne hsource) (hranka.trans hrankb.symm).le
  · rw [getElem_map] at ha hb
    obtain ⟨-, hranka⟩ := hbatches.mem _ ((hsort _).mem_iff.mp ha)
    obtain ⟨hb, hrankb⟩ := hbatches.mem _ ((hsort _).mem_iff.mp hb)
    refine seqNum_lt_of_rank hb hsource (fun heq => ?_) (by omega)
    have hrank := (hranka.symm.trans (rank_congr hsource heq)).trans hrankb
    omega

/-- The result does not depend on the order of the set, or on how it is sorted. -/
theorem sortForApply_unique (hf : f.Cached hasher) (hg : g.Cached hasher)
    (hprev : g.mPreviousLedgerHash = f.mPreviousLedgerHash)
    (hperm : g.mTransactions.Perm f.mTransactions)
    (hhashes : (f.mTransactions.map hasher.fullHash).Nodup) (hseqs : SeqDistinct f.mTransactions) :
    (g.sortForApply std' hasher).1 = (f.sortForApply std hasher).1 := by
  have hpermf := std.perm f.mTransactions strictWeak_seq
  have hpermg := std'.perm g.mTransactions strictWeak_seq
  have hperm' : (std.sort SeqSorter f.mTransactions).Perm (std'.sort SeqSorter g.mTransactions) :=
    hpermf.trans (hperm.symm.trans hpermg.symm)
  obtain ⟨_, hbatchesf⟩ := batchesOf_sorted (std.sorted f.mTransactions strictWeak_seq)
    (hseqs.perm hpermf.symm)
  obtain ⟨_, hbatchesg⟩ := batchesOf_sorted (std'.sorted g.mTransactions strictWeak_seq)
    (hseqs.perm (hpermf.symm.trans hperm'))
  rw [sortForApply, sortForApply, sortBatches_eq, sortBatches_eq,
    getContentsHash_unique hf hg hprev hperm hhashes,
    flatMap_eq_range (sort_nil (strictWeak_apply _)) (le_max_left _ (List.length _)),
    flatMap_eq_range (sort_nil (strictWeak_apply _)) (le_max_right (List.length _) _)]
  refine flatMap_congr fun i _ => ?_
  rw [hbatchesf.batch i, hbatchesg.batch i, ← rank_perm hperm']
  have hfilter := hperm'.filter fun t => rank (std.sort SeqSorter f.mTransactions) t = i
  refine StdSort.sort_unique hfilter.symm ?_ (std'.perm _ (strictWeak_apply _))
    (std'.sorted _ (strictWeak_apply _)) (std.perm _ (strictWeak_apply _))
    (std.sorted _ (strictWeak_apply _))
  refine Pairwise.filter _ (applyTxSorter_ties _ ?_)
  exact ((hpermf.symm.trans hperm').map hasher.fullHash).nodup_iff.mp hhashes

end TxSetFrame

/-- The order in which a set is applied has its transactions, with the sequence numbers of each
account ascending; sets with the same transactions are applied in the same order, whatever order
they have themselves and however they are sorted. -/
theorem sortForApply_canonical (hasher : SetHasher) (f : TxSetFrame) (hcached : f.Cached hasher)
    (hhashes : (f.mTransactions.map hasher.fullHash).Nodup) (hseqs : SeqDistinct f.mTransactions)
    (std : StdSort) :
    (f.sortForApply std hasher).1.Perm f.mTransactions ∧
      ((f.sortForApply std hasher).1.Pairwise fun a b =>
        a.tx.sourceAccount = b.tx.sourceAccount → a.tx.seqNum < b.tx.seqNum) ∧
      ∀ (g : TxSetFrame) (std' : StdSort), g.Cached hasher →
        g.mPreviousLedgerHash = f.mPreviousLedgerHash → g.mTransactions.Perm f.mTransactions →
        (g.sortForApply std' hasher).1 = (f.sortForApply std hasher).1 :=
  ⟨TxSetFrame.sortForApply_perm hseqs, TxSetFrame.sortForApply_ascending hseqs,
    fun _ _ hg hprev hperm => TxSetFrame.sortForApply_unique hcached hg hprev hperm hhashes hseqs⟩

/-- A transaction without operations -/
def emptyTx (sourceAccount : AccountID) (seqNum : SequenceNumber) : TransactionEnvelope :=
  ⟨⟨sourceAccount, 100, seqNum, none, []⟩, []⟩

/-- Hashes for transactions with low sequence numbers -/
def seqHasher : SetHasher where
  fullHash e := e.tx.sourceAccount * 16 + .ofInt 256 e.tx.seqNum
  setHash _ txs := .ofNat 256 txs.length

/-- Two transactions of one account and one of another, in two orders -/
theorem sortForApply_canonical_three : (TxSetFrame.sortForApply .stable seqHasher
      (.new 0 [emptyTx 1 6, emptyTx 2 5, emptyTx 1 5])).1 =
    (TxSetFrame.sortForApply .stable seqHasher
      (.new 0 [emptyTx 1 5, emptyTx 1 6, emptyTx 2 5])).1 := by
  refine (sortForApply_canonical seqHasher (.new 0 [emptyTx 1 5, emptyTx 1 6, emptyTx 2 5])
    (TxSetFrame.cached_new _ _) (by decide) ?_ .stable).2.2 _ _ (TxSetFrame.cached_new _ _) rfl
    (by decide)
  simp [SeqDistinct, TxSetFrame.new, emptyTx]

end EssaCore.Herder
