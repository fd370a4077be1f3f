import EssaCore.Catchup.LedgerChainSound

/-!
# Header files with the wrong numbers

The assertions of `VerifyLedgerChainWork` about the file verified before rest on the numbers in
the files, which no check ensures: a file that begins late is accepted, and the next file then
fails an assertion (`runWork_misnumbered`).

- `Intact`, `NumbersMeet`, `HashesMeet` — what is asked of one file and of two neighbours;
- `Joined` — as far as the files are read, they exist, parse and have numbers that meet;
- `settles_verifyHistory` — one file is passed or fails a check exactly if it does;
- `runWork_ends_iff` — the work ends, in success or in failure, exactly if the files are joined.
-/

namespace EssaCore.Catchup

open EssaCore.Lib

variable {Hash : Type} [DecidableEq Hash] (cfg : VerifyConfig Hash)

/-- The work is run until it has ended, at most `n` times. -/
def runWork : Nat → VerifyState Hash → Except Stop WorkState
  | 0, _ => pure .WORK_RUNNING
  | n + 1, st => do
    let (w, st') ← onSuccess cfg st
    if w = .WORK_RUNNING then runWork n st' else pure w

/-- The work ends in one of its states. -/
def Ends (st : VerifyState Hash) : Prop := ∃ n w, runWork cfg n st = .ok w ∧ w ≠ .WORK_RUNNING

/-! ## The numbers in the files -/

/-- The entries that are read from a file are checked and linked. -/
structure Intact (file : LedgerFile Hash) : Prop where
  links : (readEntries cfg file.entries).IsChain Follows
  entries : ∀ e ∈ readEntries cfg file.entries, EntryOK cfg e

/-- The last entry of a file comes right before the first entry of the file ahead. Without a file
ahead it is the last ledger of the range; a file ahead of such an entry begins with ledger 1. -/
def NumbersMeet (e : LedgerHeaderHistoryEntry Hash) :
    Option (LedgerHeaderHistoryEntry Hash) → Prop
  | none => e.header.ledgerSeq = cfg.last
  | some ahead =>
    ahead.header.ledgerSeq =
      if e.header.ledgerSeq = cfg.last then 1 else e.header.ledgerSeq + 1

/-- The last entry of a file has the hash that is trusted, or that the file ahead names. -/
def HashesMeet (e : LedgerHeaderHistoryEntry Hash)
    (ahead : Option (LedgerHeaderHistoryEntry Hash)) : Prop :=
  if e.header.ledgerSeq = cfg.last then ∀ h ∈ cfg.trustedEndLedger.2, h = e.hash
  else ∀ first ∈ ahead, first.header.previousLedgerHash = e.hash

/-- From the newest checkpoint on, and as long as the files pass the checks: each file exists and
parses, and if it ends with its checkpoint or with the range, then its numbers meet those of the
file ahead. -/
def Joined : Option (LedgerHeaderHistoryEntry Hash) → List UInt32 → Prop
  | _, [] => True
  | ahead, c :: older =>
    ∃ file, cfg.files c = some file ∧ (Intact cfg file →
      (file.malformed = true → ∃ e ∈ file.entries, e.header.ledgerSeq = cfg.last) ∧
      ∀ e ∈ (readEntries cfg file.entries).getLast?,
        e.header.ledgerSeq = c ∨ e.header.ledgerSeq = cfg.last →
          NumbersMeet cfg e ahead ∧
            (HashesMeet cfg e ahead → Joined file.entries.head? older))

/-- A checkpoint and the `n` before it -/
def checkpointsFrom (c : UInt32) : Nat → List UInt32
  | 0 => [c]
  | n + 1 => c :: checkpointsFrom (c - cfg.getCheckpointFrequency) n

/-- The checkpoints of the range, from the newest to the oldest -/
def checkpoints : List UInt32 :=
  let newest := cfg.checkpointContainingLedger cfg.last
  let oldest := cfg.checkpointContainingLedger cfg.first
  checkpointsFrom cfg newest ((newest - oldest) / cfg.getCheckpointFrequency).toNat

/-! ## One file -/

variable {cfg} {st : VerifyState Hash} {ahead : Option (LedgerHeaderHistoryEntry Hash)} {n : Nat}

/-- What the state keeps of the file ahead -/
def RemembersAhead (st : VerifyState Hash) : Option (LedgerHeaderHistoryEntry Hash) → Prop
  | none => st.mVerifiedAhead = (0, none)
  | some first =>
    st.mVerifiedAhead = (first.header.ledgerSeq - 1, some first.header.previousLedgerHash)

theorem sub_one_eq_iff {a b : UInt32} : a - 1 = b ↔ a = b + 1 := by
  constructor
  · rintro rfl
    simp
  · rintro rfl
    simp

/-- The end of a file is compared with what is expected of it: the assertions hold exactly if the
numbers meet. -/
theorem settles_expectedEnd (hst : RemembersAhead st ahead) {e : LedgerHeaderHistoryEntry Hash}
    (hcurr : st.mCurrCheckpoint ≠ 0)
    (hend : e.header.ledgerSeq = st.mCurrCheckpoint ∨ e.header.ledgerSeq = cfg.last) {P : Prop} :
    Settles IsStatus
        (fun next => Settles IsStatus (fun _ => P) (verifyLastLedgerInCheckpoint e next))
        (expectedEnd cfg st e) ↔
      NumbersMeet cfg e ahead ∧ (HashesMeet cfg e ahead → P) := by
  have hassert : ¬ IsStatus .assertion := by
    rintro ⟨s, hs⟩
    cases hs
  unfold expectedEnd verifyLastLedgerInCheckpoint HashesMeet
  by_cases hlast : e.header.ledgerSeq = cfg.last
  · -- the end of the range is compared with the trusted hash
    have htrusted : Option.any (fun x => !decide (x = e.hash)) cfg.trustedEndLedger.2 = false ↔
        ∀ h, cfg.trustedEndLedger.2 = some h → h = e.hash := by
      cases cfg.trustedEndLedger.2 <;> simp
    cases ahead with
    | none =>
      rw [RemembersAhead] at hst
      simp [settles_ite, hlast, hst, cfg.trustedEndLedger_fst, NumbersMeet, htrusted]
    | some first =>
      rw [RemembersAhead] at hst
      simp only [settles_ite, settles_throw, settles_pure, hst, hassert, hlast, if_true,
        NumbersMeet, ne_eq, sub_one_eq_iff, cfg.trustedEndLedger_fst]
      simp [htrusted]
      tauto
  · cases ahead with
    | none =>
      rw [RemembersAhead] at hst
      simp [settles_ite, hlast, hst, NumbersMeet]
    | some first =>
      rw [RemembersAhead] at hst
      have hseq : e.header.ledgerSeq ≠ 0 := by
        rw [hend.resolve_right hlast]
        exact hcurr
      have hmeet : e.header.ledgerSeq = first.header.ledgerSeq - 1 ↔
          first.header.ledgerSeq = e.header.ledgerSeq + 1 := eq_comm.trans sub_one_eq_iff
      simp only [settles_ite, settles_throw, settles_pure, hlast, hst, hassert, NumbersMeet,
        if_false]
      simp [hmeet]
      constructor
      · rintro ⟨hne, h⟩
        obtain ⟨hnumbers, hP⟩ := h hne
        exact ⟨hnumbers, hP hnumbers⟩
      · rintro ⟨hnumbers, hP⟩
        refine ⟨?_, fun _ => ⟨hnumbers, fun _ => hP⟩⟩
        rw [hnumbers]
        simpa using hseq

/-- One file: it exists and parses, and the end of an intact file meets the file ahead. -/
theorem settles_verifyHistory (hst : RemembersAhead st ahead) (hcurr : st.mCurrCheckpoint ≠ 0)
    {P : VerifyState Hash → Prop} :
    Settles IsStatus P (verifyHistoryOfSingleCheckpoint cfg st) ↔
      ∃ file, cfg.files st.mCurrCheckpoint = some file ∧ (Intact cfg file →
        (file.malformed = true → ∃ e ∈ file.entries, e.header.ledgerSeq = cfg.last) ∧
        ∀ e ∈ (readEntries cfg file.entries).getLast?,
          e.header.ledgerSeq = st.mCurrCheckpoint ∨ e.header.ledgerSeq = cfg.last →
            NumbersMeet cfg e ahead ∧ (HashesMeet cfg e ahead → P
              { st with
                mVerifiedAhead := aheadOf file.entries st.mVerifiedAhead
                mVerifiedLedgerRangeStart :=
                  if st.mCurrCheckpoint = cfg.checkpointContainingLedger cfg.first
                  then some e else st.mVerifiedLedgerRangeStart })) := by
  unfold verifyHistoryOfSingleCheckpoint
  cases hfile : cfg.files st.mCurrCheckpoint with
  | none => simp
  | some file =>
    have hintact (X : Prop) : ((readEntries cfg file.entries).IsChain Follows →
        (∀ e ∈ readEntries cfg file.entries, EntryOK cfg e) → X) ↔ (Intact cfg file → X) :=
      ⟨fun h hi => h hi.links hi.entries, fun h hlinks hentries => h ⟨hlinks, hentries⟩⟩
    simp only [Option.some.injEq, exists_eq_left', settles_bind, settles_verifyEntries,
      Option.toList_none, List.nil_append, hintact]
    refine imp_congr_right fun _ => and_congr_right fun _ => ?_
    cases (readEntries cfg file.entries).getLast? with
    | none => simp
    | some e =>
      simp only [settles_ite, settles_throw, Option.mem_some_iff, forall_eq', settles_bind]
      by_cases hend : e.header.ledgerSeq = st.mCurrCheckpoint ∨ e.header.ledgerSeq = cfg.last
      · rw [← settles_expectedEnd hst hcurr hend]
        have hno : ¬ (e.header.ledgerSeq ≠ st.mCurrCheckpoint ∧ e.header.ledgerSeq ≠ cfg.last) :=
          fun h => hend.elim h.1 h.2
        simp only [hno, hend, false_implies, true_and, not_false_iff, true_implies, settles_pure]
      · have hyes : e.header.ledgerSeq ≠ st.mCurrCheckpoint ∧ e.header.ledgerSeq ≠ cfg.last :=
          not_or.mp hend
        simp [hyes]

/-! ## The work -/

theorem ends_iff : Ends cfg st ↔
    Settles (fun _ => False) (fun p => p.1 = .WORK_RUNNING → Ends cfg p.2) (onSuccess cfg st) := by
  constructor
  · rintro ⟨n, w, hrun, hw⟩
    cases n with
    | zero =>
      cases hrun
      exact absurd rfl hw
    | succ n =>
      rw [runWork] at hrun
      cases hstep : onSuccess cfg st with
      | error e =>
        rw [hstep] at hrun
        cases hrun
      | ok p =>
        rw [hstep, ok_bind] at hrun
        intro hrunning
        exact ⟨n, w, (if_pos hrunning).symm.trans hrun, hw⟩
  · intro h
    cases hstep : onSuccess cfg st with
    | error e =>
      rw [hstep] at h
      exact h.elim
    | ok p =>
      rw [hstep] at h
      by_cases hrunning : p.1 = .WORK_RUNNING
      · obtain ⟨n, w, hrun, hw⟩ := h hrunning
        exact ⟨n + 1, w, by rw [runWork, hstep, ok_bind]; exact (if_pos hrunning).trans hrun, hw⟩
      · exact ⟨1, p.1, by rw [runWork, hstep, ok_bind]; exact if_neg hrunning, hrunning⟩

/-- After a file the work has ended, or goes on with the checkpoint before. -/
theorem ends_iff_verify (hge : cfg.checkpointContainingLedger cfg.first ≤ st.mCurrCheckpoint) :
    Ends cfg st ↔ Settles IsStatus
      (fun st' => st.mCurrCheckpoint ≠ cfg.checkpointContainingLedger cfg.first →
        Ends cfg { st' with
          mCurrCheckpoint := st.mCurrCheckpoint - cfg.getCheckpointFrequency })
      (verifyHistoryOfSingleCheckpoint cfg st) := by
  rw [ends_iff, onSuccess, if_neg (UInt32.not_lt.mpr hge)]
  cases verifyHistoryOfSingleCheckpoint cfg st with
  | error e => cases e <;> simp
  | ok st' =>
    by_cases holdest : st.mCurrCheckpoint = cfg.checkpointContainingLedger cfg.first
    · simp [holdest]
    · simp [holdest]

omit [DecidableEq Hash] in
theorem frequency_ge (cfg : VerifyConfig Hash) : 8 ≤ cfg.getCheckpointFrequency.toNat := by
  unfold VerifyConfig.getCheckpointFrequency
  split <;> decide

/-- From a checkpoint on: the induction is over the checkpoints before it. -/
theorem ends_iff_joined (hpos : 0 < (cfg.checkpointContainingLedger cfg.first).toNat)
    (hcurr : st.mCurrCheckpoint.toNat = (cfg.checkpointContainingLedger cfg.first).toNat +
      n * cfg.getCheckpointFrequency.toNat) (hst : RemembersAhead st ahead) :
    Ends cfg st ↔ Joined cfg ahead (checkpointsFrom cfg st.mCurrCheckpoint n) := by
  have hne {m : Nat} {c : UInt32} (hc : c.toNat =
      (cfg.checkpointContainingLedger cfg.first).toNat + m) : c ≠ 0 := by
    rintro rfl
    rw [UInt32.toNat_zero] at hc
    omega
  induction n generalizing st ahead with
  | zero =>
    have holdest : st.mCurrCheckpoint = cfg.checkpointContainingLedger cfg.first :=
      UInt32.toNat_inj.mp (by rw [hcurr, Nat.zero_mul, Nat.add_zero])
    rw [ends_iff_verify (by simp [holdest]), settles_verifyHistory hst (hne hcurr)]
    simp [holdest, checkpointsFrom, Joined]
  | succ n ih =>
    have holder : st.mCurrCheckpoint ≠ cfg.checkpointContainingLedger cfg.first := by
      intro h
      have hf := frequency_ge cfg
      rw [h, Nat.succ_mul] at hcurr
      omega
    rw [Nat.succ_mul] at hcurr
    have hge : cfg.checkpointContainingLedger cfg.first ≤ st.mCurrCheckpoint :=
      UInt32.le_iff_toNat_le.mpr (by omega)
    rw [ends_iff_verify hge, settles_verifyHistory hst (hne hcurr), checkpointsFrom, Joined]
    refine exists_congr fun file => and_congr_right fun _ => imp_congr_right fun _ =>
      and_congr_right fun _ => forall₂_congr fun e he => imp_congr_right fun _ =>
      and_congr_right fun _ => imp_congr_right fun _ => ?_
    refine (forall_prop_of_true holder).trans (ih ?_ ?_)
    · rw [UInt32.toNat_sub_of_le _ _ (UInt32.le_iff_toNat_le.mpr (by omega))]
      omega
    · cases hentries : file.entries with
      | nil =>
        rw [hentries] at he
        cases he
      | cons first rest => rfl

omit [DecidableEq Hash] in
theorem toNat_checkpoint (l : UInt32) : (cfg.checkpointContainingLedger l).toNat =
    CatchupRange.checkpointContainingLedger cfg.getCheckpointFrequency.toNat l.toNat := by
  rw [CatchupRange.checkpointContainingLedger, UInt32.ofNat_toNat, UInt32.ofNat_toNat]
  rfl

/-- The work ends, in success or in failure, exactly if the files of its checkpoints are joined. -/
theorem runWork_ends_iff (cfg : VerifyConfig Hash)
    (hlast : cfg.last.toNat + cfg.getCheckpointFrequency.toNat < 2 ^ 32) :
    (∃ n w, runWork cfg n (onReset cfg) = .ok w ∧ w ≠ .WORK_RUNNING) ↔
      Joined cfg none (checkpoints cfg) := by
  have hle := UInt32.le_iff_toNat_le.mp cfg.first_le_last
  have hpos := UInt32.lt_iff_toNat_lt.mp cfg.first_pos
  have hf := frequency_ge cfg
  obtain ⟨j, hj, hj₁, hj₂⟩ := CatchupRange.checkpoint_spec (by omega) hlast
  obtain ⟨k, hk, hk₁, hk₂⟩ := CatchupRange.checkpoint_spec (f := cfg.getCheckpointFrequency.toNat)
    (l := cfg.first.toNat) (by omega) (by omega)
  rw [← toNat_checkpoint] at hj hj₁ hj₂ hk hk₁ hk₂
  have hkj : k ≤ j := by
    by_contra hlt
    have := Nat.mul_le_mul_right cfg.getCheckpointFrequency.toNat (Nat.lt_of_not_le hlt)
    rw [Nat.succ_mul] at this
    omega
  have hmul := Nat.mul_le_mul_right cfg.getCheckpointFrequency.toNat hkj
  have hnumber : ((cfg.checkpointContainingLedger cfg.last -
      cfg.checkpointContainingLedger cfg.first) / cfg.getCheckpointFrequency).toNat = j - k := by
    rw [UInt32.toNat_div, UInt32.toNat_sub_of_le _ _ (UInt32.le_iff_toNat_le.mpr (by omega)),
      show (cfg.checkpointContainingLedger cfg.last).toNat -
        (cfg.checkpointContainingLedger cfg.first).toNat =
          (j - k) * cfg.getCheckpointFrequency.toNat by rw [Nat.sub_mul]; omega,
      Nat.mul_div_cancel _ (by omega)]
  refine ends_iff_joined (by omega) ?_ rfl
  rw [hnumber, Nat.sub_mul]
  show (cfg.checkpointContainingLedger cfg.last).toNat = _
  omega

/-- Two files of headers that all have the hash 0, the newer one from a given ledger on -/
def twoFiles (start : UInt32) (count : Nat) : VerifyConfig Nat where
  sha256 header := header.other
  files c :=
    let (first, count) := if c = 15 then (start, count) else (1, 7)
    some ⟨(List.range count).map fun i => ⟨0, ⟨10, first + .ofNat i, 0, 0⟩⟩, false⟩
  accelerated := true
  first := 1
  last := 15
  lastClosed := (1, 0)
  trustedEndLedger := (15, none)
  first_pos := by decide
  first_le_last := by decide
  trustedEndLedger_fst := rfl

/-- With the ledgers 8 to 15 and 1 to 7 in the two files -/
theorem runWork_ends_iff_twoFiles :
    ∃ n w, runWork (twoFiles 8 8) n (onReset (twoFiles 8 8)) = .ok w ∧ w ≠ .WORK_RUNNING := by
  refine (runWork_ends_iff (twoFiles 8 8) (by decide)).mpr ?_
  have hcheckpoints : checkpoints (twoFiles 8 8) = [15, 7] := by decide
  rw [hcheckpoints]
  refine ⟨_, rfl, fun _ => ⟨by rintro ⟨⟩, fun e he _ => ⟨?_, fun _ => ?_⟩⟩⟩
  · cases he
    rfl
  · refine ⟨_, rfl, fun _ => ⟨by rintro ⟨⟩, fun e he _ => ⟨?_, fun _ => trivial⟩⟩⟩
    cases he
    rfl

/-- If the newer file has ledger 15 only, it is accepted, and the older one fails an assertion. -/
theorem runWork_misnumbered :
    runWork (twoFiles 15 1) 2 (onReset (twoFiles 15 1)) = .error .assertion := by
  decide +kernel

end EssaCore.Catchup
