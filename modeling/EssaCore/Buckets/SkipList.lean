import EssaCore.Scp.Types

/-!
# The skip list of ledger headers

`bucket/BucketManagerImpl.cpp` 406–437: every header carries the bucket list hashes of four
earlier ledgers. The first slot follows the ledgers at multiples of `SKIP_1`; each other slot takes
over what the one before it held, at multiples of its own period.

- `calculateSkipValues`, `snapshotLedger` — the code, with its mixed `uint32` and `int` arithmetic;
- `slotIndex` — the ledger whose hash a slot with some period and offset holds;
- `slot_step` — a slot that takes over the one before it at multiples of its period keeps to
  `slotIndex`, if the one before it does;
- `skipList_closedForm` — the four slots after every ledger of a chain.
-/

namespace EssaCore.Buckets

/-! ## The code -/

def SKIP_1 : Nat := 50

def SKIP_2 : Nat := 5000

def SKIP_3 : Nat := 50000

def SKIP_4 : Nat := 500000

/-- What the bucket manager reads and writes of a `LedgerHeader` -/
structure SnapshotHeader where
  ledgerSeq : UInt32
  bucketListHash : Hash
  skipList : Fin 4 → Hash

/-- The condition `v > 0 && (v % skip) == 0`, on `int` -/
def shiftsAt (v : Int32) (skip : Nat) : Bool := v > 0 && v % Int32.ofNat skip == 0

/-- `BucketManagerImpl::calculateSkipValues` -/
def calculateSkipValues (h : SnapshotHeader) : SnapshotHeader :=
  if h.ledgerSeq % UInt32.ofNat SKIP_1 = 0 then
    -- the differences are taken in `uint32` and stored in an `int`
    let v := (h.ledgerSeq - UInt32.ofNat SKIP_1).toInt32
    let skipList := h.skipList
    let skipList :=
      if shiftsAt v SKIP_2 then
        let v := (h.ledgerSeq - UInt32.ofNat SKIP_2 - UInt32.ofNat SKIP_1).toInt32
        let skipList :=
          if shiftsAt v SKIP_3 then
            let v := (h.ledgerSeq - UInt32.ofNat SKIP_3 - UInt32.ofNat SKIP_2 -
              UInt32.ofNat SKIP_1).toInt32
            let skipList :=
              if shiftsAt v SKIP_4 then Function.update skipList 3 (skipList 2) else skipList
            Function.update skipList 2 (skipList 1)
          else skipList
        Function.update skipList 1 (skipList 0)
      else skipList
    { h with skipList := Function.update skipList 0 h.bucketListHash }
  else h

/-- `BucketManagerImpl::snapshotLedger`, for a bucket list with hash `hash` -/
def snapshotLedger (hash : Hash) (h : SnapshotHeader) : SnapshotHeader :=
  calculateSkipValues { h with bucketListHash := hash }

/-- The header of ledger `n + 1`: the genesis header, and then one closed ledger after the other,
where ledger `k` has the bucket list hash `H k`. -/
def headerChain (H : Nat → Hash) : Nat → SnapshotHeader
  | 0 => ⟨1, H 1, fun _ => 0⟩
  | n + 1 =>
    let h := headerChain H n
    snapshotLedger (H (n + 2)) { h with ledgerSeq := h.ledgerSeq + 1 }

/-! ## Slots -/

/-- The last multiple of `period` that is at least `offset` ledgers before ledger `n` -/
def slotIndex (period offset n : Int) : Int := period * ((n - offset) / period)

variable {p q o n : Int}

theorem slotIndex_of_dvd (h : p ∣ n - o) : slotIndex p o n = n - o := Int.mul_ediv_cancel' h

/-- Between multiples of the period nothing changes. -/
theorem slotIndex_pred (hp : 0 < p) (h : ¬ p ∣ n - o) :
    slotIndex p o (n - 1) = slotIndex p o n := by
  have hlt := Int.emod_lt_of_pos (n - o) hp
  have hsplit : n - 1 - o = ((n - o) % p - 1) + p * ((n - o) / p) := by
    have := Int.emod_add_mul_ediv (n - o) p
    omega
  rw [slotIndex, slotIndex, hsplit, Int.add_mul_ediv_left _ _ hp.ne',
    Int.ediv_eq_zero_of_lt (by omega) (by omega), zero_add]

/-- Just before a multiple of the period a slot still has the multiple before it. -/
theorem slotIndex_pred_of_dvd (hp : 0 < p) (h : p ∣ n - o) : slotIndex p o (n - 1) = n - o - p := by
  obtain ⟨k, hk⟩ := h
  have hsplit : n - 1 - o = (p - 1) + p * (k - 1) := by
    rw [Int.mul_sub]
    omega
  rw [slotIndex, hsplit, Int.add_mul_ediv_left _ _ hp.ne',
    Int.ediv_eq_zero_of_lt (by omega) (by omega), zero_add, hk, Int.mul_sub, mul_one]

/-- The hash of a ledger, or zero if there is no such ledger -/
def hashOf (H : Nat → Hash) (k : Int) : Hash := if k < 1 then 0 else H k.toNat

variable {H : Nat → Hash}

theorem hashOf_of_lt {k : Int} (h : k < 1) : hashOf H k = 0 := if_pos h

/-- A slot that takes over the slot before it at multiples of its period -/
theorem slot_step {o' : Int} (hp : 0 < p) (hq : 0 < q) (hpq : p ∣ q) (ho : o' = o + p) :
    (if 0 < n - o' ∧ q ∣ n - o' then hashOf H (slotIndex p o (n - 1))
      else hashOf H (slotIndex q o' (n - 1))) = hashOf H (slotIndex q o' n) := by
  by_cases hdvd : q ∣ n - o'
  · by_cases hpos : 0 < n - o'
    · have hp' : p ∣ n - o := by
        have hsum := Int.dvd_add (Int.dvd_trans hpq hdvd) (Int.dvd_refl p)
        rwa [ho, show n - (o + p) + p = n - o by omega] at hsum
      rw [if_pos ⟨hpos, hdvd⟩, slotIndex_pred_of_dvd hp hp', slotIndex_of_dvd hdvd, ho, Int.sub_sub]
    · -- a slot is not filled before its period has passed once
      rw [if_neg fun h => hpos h.1, slotIndex_pred_of_dvd hq hdvd, slotIndex_of_dvd hdvd,
        hashOf_of_lt (by omega), hashOf_of_lt (by omega)]
  · rw [if_neg fun h => hdvd h.2, slotIndex_pred hq hdvd]

/-- The slot that follows the ledgers themselves -/
theorem firstSlot_step {period k : Nat} (hperiod : 0 < period) (hk : 0 < k) :
    (if period ∣ k then H k else hashOf H (slotIndex period 0 (k - 1))) =
      hashOf H (slotIndex period 0 k) := by
  by_cases hdvd : period ∣ k
  · have hdvd' : (period : Int) ∣ k - 0 := by
      exact Int.natCast_dvd_natCast.mpr hdvd
    rw [if_pos hdvd, slotIndex_of_dvd hdvd', hashOf, if_neg (by omega), Int.sub_zero,
      Int.toNat_natCast]
  · have hdvd' : ¬ (period : Int) ∣ k - 0 := by
      exact fun h => hdvd (Int.natCast_dvd_natCast.mp h)
    rw [if_neg hdvd, slotIndex_pred (by omega) hdvd']

/-! ## The conditions of the code -/

/-- A difference of sequence numbers below `2^31` is right as an `int`. -/
theorem toInt_sub {a b : UInt32} (ha : a.toNat < 2 ^ 31) (hb : b.toNat < 2 ^ 31) :
    (a - b).toInt32.toInt = a.toNat - b.toNat := by
  have h : (a - b).toInt32.toInt = (a - b).toBitVec.toInt := rfl
  rw [h, BitVec.toInt_eq_toNat_cond, UInt32.toNat_toBitVec, UInt32.toNat_sub]
  omega

theorem shiftsAt_iff {seq : UInt32} {d k : Nat} (hseq : seq.toNat < 2 ^ 31) (hd : d < 2 ^ 31)
    (hk : k < 2 ^ 31) : shiftsAt (seq - UInt32.ofNat d).toInt32 k = true ↔
      0 < (seq.toNat - d : Int) ∧ (k : Int) ∣ seq.toNat - d := by
  have hdiff : (seq - UInt32.ofNat d).toInt32.toInt = seq.toNat - d := by
    have hnat : (UInt32.ofNat d).toNat = d := Nat.mod_eq_of_lt (by omega)
    rw [toInt_sub hseq (by omega), hnat]
  have hofNat : (Int32.ofNat k).toInt = k := by
    rw [Int32.toInt_ofNat', Int.bmod_eq_of_le] <;> simp only [Int32.size] <;> omega
  rw [shiftsAt, Bool.and_eq_true, decide_eq_true_iff, beq_iff_eq, gt_iff_lt, Int32.lt_iff_toInt_lt,
    ← Int32.toInt_inj, Int32.toInt_mod, hofNat, hdiff]
  exact and_congr_right fun _ => Int.dvd_iff_tmod_eq_zero.symm

theorem ledgerSeq_mod_iff {seq : UInt32} : seq % UInt32.ofNat SKIP_1 = 0 ↔ SKIP_1 ∣ seq.toNat := by
  rw [← UInt32.toNat_inj, Nat.dvd_iff_mod_eq_zero]
  rfl

theorem sub_ofNat_sub (a : UInt32) (b c : Nat) :
    a - UInt32.ofNat b - UInt32.ofNat c = a - UInt32.ofNat (c + b) := by
  rw [UInt32.ofNat_add]
  grind

/-- Slots that are written from the last to the first, each only together with those before it -/
theorem cascade {α : Type} (slots : Fin 4 → α) (x : α) {A B C D : Prop} [Decidable A] [Decidable B]
    [Decidable C] [Decidable D] (hB : B → A) (hC : C → B) (hD : D → C) :
    (if A then
        let slots := if B then
            let slots := if C then
                let slots := if D then Function.update slots 3 (slots 2) else slots
                Function.update slots 2 (slots 1)
              else slots
            Function.update slots 1 (slots 0)
          else slots
        Function.update slots 0 x
      else slots) =
      ![if A then x else slots 0, if B then slots 0 else slots 1, if C then slots 1 else slots 2,
        if D then slots 2 else slots 3] := by
  funext i
  by_cases hA : A
  · by_cases hB' : B
    · by_cases hC' : C
      · by_cases hD' : D <;> fin_cases i <;> simp [hA, hB', hC', hD']
      · have hD' : ¬ D := fun h => hC' (hD h)
        fin_cases i <;> simp [hA, hB', hC', hD']
    · have hC' : ¬ C := fun h => hB' (hC h)
      have hD' : ¬ D := fun h => hC' (hD h)
      fin_cases i <;> simp [hA, hB', hC', hD']
  · have hB' : ¬ B := fun h => hA (hB h)
    have hC' : ¬ C := fun h => hB' (hC h)
    have hD' : ¬ D := fun h => hC' (hD h)
    fin_cases i <;> simp [hA, hB', hC', hD']

/-- When each slot is written, and with what -/
theorem calculateSkipValues_skipList {h : SnapshotHeader} (hseq : h.ledgerSeq.toNat < 2 ^ 31) :
    (calculateSkipValues h).skipList =
      ![if SKIP_1 ∣ h.ledgerSeq.toNat then h.bucketListHash else h.skipList 0,
        if 0 < (h.ledgerSeq.toNat - SKIP_1 : Int) ∧ (SKIP_2 : Int) ∣ h.ledgerSeq.toNat - SKIP_1 then
          h.skipList 0 else h.skipList 1,
        if 0 < (h.ledgerSeq.toNat - (SKIP_1 + SKIP_2) : Int) ∧
          (SKIP_3 : Int) ∣ h.ledgerSeq.toNat - (SKIP_1 + SKIP_2) then h.skipList 1
          else h.skipList 2,
        if 0 < (h.ledgerSeq.toNat - (SKIP_1 + SKIP_2 + SKIP_3) : Int) ∧
          (SKIP_4 : Int) ∣ h.ledgerSeq.toNat - (SKIP_1 + SKIP_2 + SKIP_3) then h.skipList 2
          else h.skipList 3] := by
  have hsub₃ : h.ledgerSeq - UInt32.ofNat SKIP_3 - UInt32.ofNat SKIP_2 - UInt32.ofNat SKIP_1 =
      h.ledgerSeq - UInt32.ofNat (SKIP_1 + SKIP_2 + SKIP_3) := by
    rw [sub_ofNat_sub, sub_ofNat_sub]
  rw [calculateSkipValues]
  simp only [hsub₃, sub_ofNat_sub _ SKIP_2, ledgerSeq_mod_iff, apply_ite SnapshotHeader.skipList,
    shiftsAt_iff (k := SKIP_2) hseq (by decide : SKIP_1 < 2 ^ 31) (by decide),
    shiftsAt_iff (k := SKIP_3) hseq (by decide : SKIP_1 + SKIP_2 < 2 ^ 31) (by decide),
    shiftsAt_iff (k := SKIP_4) hseq (by decide : SKIP_1 + SKIP_2 + SKIP_3 < 2 ^ 31) (by decide)]
  refine cascade h.skipList h.bucketListHash ?_ ?_ ?_ <;>
    simp only [SKIP_1, SKIP_2, SKIP_3, SKIP_4] <;> omega

/-! ## The chain -/

theorem snapshotLedger_ledgerSeq (hash : Hash) (h : SnapshotHeader) :
    (snapshotLedger hash h).ledgerSeq = h.ledgerSeq := by
  rw [snapshotLedger, calculateSkipValues]
  split <;> rfl

theorem headerChain_ledgerSeq (H : Nat → Hash) {n : Nat} (hn : n + 1 < 2 ^ 32) :
    (headerChain H n).ledgerSeq.toNat = n + 1 := by
  induction n with
  | zero => rfl
  | succ n ih =>
    rw [headerChain, snapshotLedger_ledgerSeq, UInt32.toNat_add, ih (by omega)]
    exact Nat.mod_eq_of_lt hn

/-- What the slots hold after ledger `n` -/
def slotsAt (H : Nat → Hash) (n : Int) : Fin 4 → Hash :=
  ![hashOf H (slotIndex SKIP_1 0 n), hashOf H (slotIndex SKIP_2 SKIP_1 n),
    hashOf H (slotIndex SKIP_3 (SKIP_1 + SKIP_2) n),
    hashOf H (slotIndex SKIP_4 (SKIP_1 + SKIP_2 + SKIP_3) n)]

/-- One ledger -/
theorem calculateSkipValues_slots {h : SnapshotHeader} {n : Nat} (hseq : h.ledgerSeq.toNat = n)
    (hn : n < 2 ^ 31) (hpos : 0 < n) (hhash : h.bucketListHash = H n)
    (hslots : h.skipList = slotsAt H (n - 1)) : (calculateSkipValues h).skipList = slotsAt H n := by
  rw [calculateSkipValues_skipList (by omega), hseq, hhash, hslots]
  refine congrArg₂ _ (firstSlot_step (by decide) hpos) ?_
  refine congrArg₂ _ (slot_step (by decide) (by decide) (by decide) (by decide)) ?_
  refine congrArg₂ _ (slot_step (by decide) (by decide) (by decide) (by decide)) ?_
  exact congrArg₂ _ (slot_step (by decide) (by decide) (by decide) (by decide)) rfl

theorem headerChain_slots (H : Nat → Hash) {n : Nat} (hn : n + 1 < 2 ^ 31) :
    (headerChain H n).skipList = slotsAt H (n + 1 : Nat) := by
  induction n with
  | zero =>
    funext i
    fin_cases i <;> rfl
  | succ n ih =>
    have hprev := headerChain_ledgerSeq H (n := n) (by omega)
    refine calculateSkipValues_slots ?_ hn (by omega) rfl ?_
    · have hsucc : ((headerChain H n).ledgerSeq + 1).toNat = n + 2 := by
        rw [UInt32.toNat_add, hprev]
        exact Nat.mod_eq_of_lt (by change n + 2 < 2 ^ 32; omega)
      exact hsucc
    · have hcast : ((n + 1 + 1 : Nat) : Int) - 1 = (n + 1) := by omega
      rw [hcast]
      exact ih (by omega)

/-- The skip list after ledger `n + 1` of a chain: each slot holds the hash of the ledger at the
last multiple of its period that has gone through the slots before it. -/
theorem skipList_closedForm (H : Nat → Hash) (n : Nat) (hn : n + 1 < 2 ^ 31) :
    (headerChain H n).ledgerSeq.toNat = n + 1 ∧
      (headerChain H n).skipList 0 = hashOf H (50 * (((n + 1 : Nat) : Int) / 50)) ∧
      (headerChain H n).skipList 1 = hashOf H (5000 * ((((n + 1 : Nat) : Int) - 50) / 5000)) ∧
      (headerChain H n).skipList 2 = hashOf H (50000 * ((((n + 1 : Nat) : Int) - 5050) / 50000)) ∧
      (headerChain H n).skipList 3 =
        hashOf H (500000 * ((((n + 1 : Nat) : Int) - 55050) / 500000)) := by
  refine ⟨headerChain_ledgerSeq H (by omega), ?_⟩
  rw [headerChain_slots H hn]
  refine ⟨?_, rfl, rfl, rfl⟩
  rw [← Int.sub_zero ((n + 1 : Nat))]
  rfl

/-- Bucket lists whose hash is the ledger they are of -/
def numbered (n : Nat) : Hash := n

/-- After ledger 55100 the hashes of the ledgers 55100, 55000 and 50000 are in the list. -/
theorem skipList_closedForm_third : (headerChain numbered 55099).skipList 0 = 55100 ∧
    (headerChain numbered 55099).skipList 1 = 55000 ∧
    (headerChain numbered 55099).skipList 2 = 50000 ∧
    (headerChain numbered 55099).skipList 3 = 0 := by
  obtain ⟨-, hfirst, hsecond, hthird, hfourth⟩ := skipList_closedForm numbered 55099 (by decide)
  exact ⟨hfirst, hsecond, hthird, hfourth⟩

end EssaCore.Buckets
