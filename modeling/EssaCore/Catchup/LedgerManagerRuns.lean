import EssaCore.Catchup.LedgerManagerSpecs

/-!
# Runs of the ledger manager

No run of the catchup state machine reaches a failed `assert`, and the last
closed ledger moves by one ledger at a time or by applying buckets, as long as
every *manual* catchup ends just before the first ledger that was buffered
while it ran.

An automatic catchup is started with the ledger before the first buffered one as
its target, so it always joins the buffer. A manual one has a target of its own:
`manual_catchup_overtakes` is a run in which the callback that replays the
buffer then stops at its `assert`.

- `step_safe` — one step of the node; `runSteps_safe` — a run;
- `catchup_runs_safe` — runs from a node that was just started or is in sync;
- `buffer_replayed_in_order` — what the posted callbacks do.
-/

namespace EssaCore.Catchup

open Lib

variable {Hash : Type}

/-- If this step ends a manual catchup, it has joined the buffer. The work of a
manual catchup has no hash for its target. -/
def Step.Joins (lm : LedgerManagerImpl Hash) : Step Hash → Prop
  | .catchupFinished => ∀ w, lm.mCatchupWork = some w →
      w.mCatchupConfiguration.hash = none → lm.Joined
  | _ => True

/-- Every step of a run joins. -/
def RunJoins [DecidableEq Hash] (env : LedgerManagerEnv Hash) :
    List (Step Hash) → LedgerManagerImpl Hash → Prop
  | [], _ => True
  | e :: es, lm => e.Joins lm ∧
    match stepCaught env e lm with
    | .ok _ lm' => RunJoins env es lm'
    | .error _ _ => True

variable {lm : LedgerManagerImpl Hash} {first : UInt32} [DecidableEq Hash]
  {env : LedgerManagerEnv Hash}

/-! ## The catchup work -/

variable {w : CatchupWork Hash} {e : Step Hash}

omit [DecidableEq Hash] in
/-- A change of the work that keeps what is known of it, while the last closed ledger moves -/
theorem Inv.moveTo {f : CatchupWork Hash → CatchupWork Hash}
    {lcl : LedgerHeaderHistoryEntry Hash} {closed : List LedgerMove}
    (h : Inv first lm) (hw : lm.mCatchupWork = some w)
    (hf : (f w).mCatchupConfiguration = w.mCatchupConfiguration)
    (hlast : ∀ e ∈ (f w).mLastApplied, e = lcl)
    (hl : Consecutive first lcl.header.ledgerSeq closed) :
    Inv first { lm with
      mLastClosedLedger := lcl, mClosed := closed, mCatchupWork := lm.mCatchupWork.map f } := by
  obtain ⟨hs, hc, hi, hp⟩ := h.phase.of_work hw
  refine ⟨.applyingHistory hs hc (f w) (by simp [hw]) ⟨hlast, ?_⟩ hp, h.contiguous, hl⟩
  rw [hf]
  exact hi.target

/-- A replay that throws is caught by the work. -/
theorem wp_applyLedgerChainOnRun {hHeader : LedgerHeaderHistoryEntry Hash}
    {d : LedgerCloseData Hash} {Q : PUnit → LedgerManagerImpl Hash → Prop}
    {E : Halt → LedgerManagerImpl Hash → Prop}
    (h : wp (applyHistoryOfSingleLedger env hHeader d) Q (fun halt lm' => match halt with
        | .assertion _ => E halt lm'
        | .exception _ => Q ⟨⟩ { lm' with
            mCatchupWork := lm'.mCatchupWork.map fun w => { w with mLastApplied := none } }) lm) :
    wp (applyLedgerChainOnRun env hHeader d) Q E lm := by
  unfold wp at h ⊢
  unfold applyLedgerChainOnRun
  cases hrun : applyHistoryOfSingleLedger env hHeader d lm with
  | ok _ lm' =>
    rw [hrun] at h
    exact h
  | error halt lm' =>
    rw [hrun] at h
    cases halt with
    | assertion _ => exact h
    | exception _ => exact h

/-- Replaying a header of the verified chain. -/
theorem wp_replay {hHeader : LedgerHeaderHistoryEntry Hash}
    {d : LedgerCloseData Hash} (h : Inv first lm)
    (hw : lm.mCatchupWork = some w)
    (hverified : hHeader.hash = env.sha256 hHeader.header) :
    Safe first (applyLedgerChainOnRun env hHeader d) lm := by
  have hcleared : Inv first { lm with
      mCatchupWork := lm.mCatchupWork.map fun w => { w with mLastApplied := none } } :=
    h.moveTo hw rfl nofun h.consecutive
  apply wp_applyLedgerChainOnRun
  unfold applyHistoryOfSingleLedger modifyWork
  simp only [wp_bind, wp_ite, wp_pure]
  refine ⟨fun _ => h, fun _ => ⟨fun _ => ⟨fun _ => hcleared, fun _ => h⟩, fun _ =>
    ⟨fun _ => ⟨fun _ => hcleared, fun _ => h⟩, fun _ => ⟨fun _ => hcleared,
      fun hseq => ⟨fun _ => hcleared, fun _ => ?_⟩⟩⟩⟩⟩
  refine wp_closeLedger ?_ fun _ => hcleared
  intro header hheader
  have hnext : hHeader.header.ledgerSeq =
      lm.mLastClosedLedger.header.ledgerSeq + 1 := not_not.mp hseq
  have hl := h.consecutive.close (hheader.trans hnext.symm) hnext
  refine ⟨fun _ => h.moveTo hw rfl nofun hl, fun hhash => ?_⟩
  refine h.moveTo hw rfl ?_ hl
  -- equal hashes of the verified and the computed header: equal headers
  have heq : env.sha256 header = env.sha256 hHeader.header :=
    (not_not.mp hhash).trans hverified
  obtain ⟨hash, _⟩ := hHeader
  cases env.sha256_injective heq
  simp_all

omit [DecidableEq Hash] in
/-- A catchup that has reached its target has joined the buffer, unless it is a
manual one. -/
theorem joined_of_finished {currentLedger : UInt32} (hi : WorkInv lm w)
    (hlcl : lm.mLastClosedLedger.header.ledgerSeq = w.mCatchupConfiguration.resolve currentLedger)
    (hmanual : w.mCatchupConfiguration.hash = none → lm.Joined) : lm.Joined := by
  by_cases hhash : w.mCatchupConfiguration.hash = none
  · exact hmanual hhash
  · obtain ⟨front, rest, hb, hcurrent, hsucc⟩ := hi.target hhash
    intro front' hfront'
    rw [hb] at hfront'
    cases hfront'
    rw [hlcl, CatchupConfiguration.resolve, if_neg hcurrent, hsucc]

/-- The notification before the last one: the replay has moved the last closed
ledger, nothing else has. -/
theorem wp_historyCaughtup_applied {Q : PUnit → LedgerManagerImpl Hash → Prop}
    {E : Halt → LedgerManagerImpl Hash → Prop}
    (hc : lm.mCatchupState = .APPLYING_HISTORY) (hQ : Q ⟨⟩ lm) :
    wp (historyCaughtup .APPLIED_TRANSACTIONS lm.mLastClosedLedger) Q E lm := by
  unfold historyCaughtup
  simp only [wp_bind, wp_get, wp_assert]
  refine ⟨fun _ => ⟨fun _ => ⟨fun _ => hQ, ?_⟩, ?_⟩, fun h' => absurd hc h'⟩
  · exact fun h' => absurd trivial h'
  · exact fun h' => absurd trivial h'

/-! ## Steps and runs -/

/-- A step keeps the invariant and fails no `assert`. -/
theorem step_safe (env : LedgerManagerEnv Hash) (h : Inv first lm) (hjoins : e.Joins lm) :
    Safe first (step env e) lm := by
  unfold Safe step
  rw [wp_bind, wp_get]
  cases e with
  | valueExternalized d => exact wp_valueExternalized h
  | catchup ledger => exact wp_catchup h
  | archiveState currentLedger =>
    cases hw : lm.mCatchupWork with
    | none => exact h
    | some w =>
      obtain ⟨hs, hc, hi, hp⟩ := h.phase.of_work hw
      simp only [wp_ite]
      refine ⟨fun _ => h, fun _ => ⟨fun _ => ?_, fun _ => ?_⟩⟩
      · exact h.moveTo hw rfl hi.lastApplied h.consecutive
      · exact wp_historyCaughtupError h hs hc hp
  | bucketsApplied start =>
    cases hw : lm.mCatchupWork with
    | none => exact h
    | some w =>
      obtain ⟨hs, hc, hi, hp⟩ := h.phase.of_work hw
      unfold historyCaughtup modifyWork
      simp only [wp_ite, wp_bind, wp_assert]
      refine ⟨fun hready => ⟨fun _ => ?_, fun h' => absurd hc h'⟩, fun _ => h⟩
      refine h.moveTo hw rfl ?_ (h.consecutive.appliedBuckets hready.2.2)
      rintro e he
      rw [hready.2.1] at he
      cases he
  | applyTransactions =>
    cases hw : lm.mCatchupWork with
    | none => exact h
    | some w =>
      refine h.moveTo hw rfl ?_ h.consecutive
      rintro e he
      cases he
      rfl
  | replay hHeader closeData =>
    cases hw : lm.mCatchupWork with
    | none => exact h
    | some w =>
      simp only [wp_ite]
      exact ⟨fun hv => wp_replay h hw hv.2, fun _ => h⟩
  | catchupFinished =>
    cases hw : lm.mCatchupWork with
    | none => exact h
    | some w =>
      obtain ⟨-, hc, hi, hp⟩ := h.phase.of_work hw
      cases hr : w.mRemoteState with
      | none => simpa [hr] using h
      | some currentLedger =>
        cases ha : w.mLastApplied with
        | none => simpa [ha] using h
        | some lastApplied =>
          simp only [hr, ha, wp_ite]
          refine ⟨fun hlcl => ?_, fun _ => h⟩
          rw [wp_bind, hi.lastApplied _ ha]
          apply wp_historyCaughtup_applied hc
          exact wp_historyCaughtup_finished h hc hp (joined_of_finished hi hlcl (hjoins w hw))
  | catchupFailed =>
    cases hw : lm.mCatchupWork with
    | none => exact h
    | some w =>
      obtain ⟨hs, hc, -, hp⟩ := h.phase.of_work hw
      exact wp_historyCaughtupError h hs hc hp
  | applyBufferedLedger =>
    simp only [wp_ite]
    exact ⟨fun _ => h, fun hp => wp_applyBufferedLedger h hp⟩

theorem stepCaught_safe (env : LedgerManagerEnv Hash) (h : Inv first lm) (hjoins : e.Joins lm) :
    ∃ lm', stepCaught env e lm = .ok ⟨⟩ lm' ∧ Inv first lm' := by
  have hstep := step_safe env h hjoins
  unfold Safe wp at hstep
  unfold stepCaught
  cases hrun : step env e lm with
  | ok _ lm' =>
    rw [hrun] at hstep
    exact ⟨lm', rfl, hstep⟩
  | error halt lm' =>
    rw [hrun] at hstep
    cases halt with
    | assertion _ => exact hstep.elim
    | exception _ => exact ⟨lm', rfl, hstep⟩

theorem runSteps_cons {es : List (Step Hash)}
    {lm' : LedgerManagerImpl Hash} (h : stepCaught env e lm = .ok ⟨⟩ lm') :
    runSteps env (e :: es) lm = runSteps env es lm' := by
  change EStateM.bind (stepCaught env e) (fun _ => runSteps env es) lm = _
  rw [EStateM.bind, h]

theorem runSteps_safe {es : List (Step Hash)} (h : Inv first lm) (hjoins : RunJoins env es lm) :
    ∃ lm', runSteps env es lm = .ok ⟨⟩ lm' ∧ Inv first lm' := by
  induction es generalizing lm with
  | nil => exact ⟨lm, rfl, h⟩
  | cons e es ih =>
    obtain ⟨hjoins₁, hjoins₂⟩ := hjoins
    obtain ⟨_, hstep, h₁⟩ := stepCaught_safe env h hjoins₁
    rw [hstep] at hjoins₂
    rw [runSteps_cons hstep]
    exact ih h₁ hjoins₂

/-- From a node that was just started or is in sync, a run in which every manual
catchup joins the buffer fails no `assert`, and it closes ledgers one after the
other. -/
theorem catchup_runs_safe (env : LedgerManagerEnv Hash)
    (lm : LedgerManagerImpl Hash) (hlm : lm.Started) (es : List (Step Hash))
    (hjoins : RunJoins env es lm) :
    ∃ lm', runSteps env es lm = .ok ⟨⟩ lm' ∧ Consecutive lm.mLastClosedLedger.header.ledgerSeq
        lm'.mLastClosedLedger.header.ledgerSeq lm'.mClosed := by
  obtain ⟨lm', hrun, h⟩ := runSteps_safe hlm.inv hjoins
  exact ⟨lm', hrun, h.consecutive⟩

/-! ## Draining the buffer -/

/-- The hash of a header is the list of what the headers up to it contain. -/
def chainEnv : LedgerManagerEnv (List (UInt32 × UInt32 × Nat)) where
  sha256 h := (h.ledgerVersion, h.ledgerSeq, h.other) :: h.previousLedgerHash
  getCheckpointFrequency := 64
  applyLedger lcl d := .ok (lcl.header.ledgerVersion, d.contents)
  sha256_injective := by
    rintro ⟨v, s, p, o⟩ ⟨v', s', p', o'⟩ h
    simp_all

/-- A header on top of no other. -/
def baseEntry (seq : UInt32) :
    LedgerHeaderHistoryEntry (List (UInt32 × UInt32 × Nat)) where
  header := ⟨10, seq, [], 0⟩
  hash := [(10, seq, 0)]

/-- A node in sync. -/
def syncedNode : LedgerManagerImpl (List (UInt32 × UInt32 × Nat)) where
  mState := .LM_SYNCED_STATE
  mCatchupState := .NONE
  mCatchupTriggerLedger := 0
  mLastClosedLedger := baseEntry 100
  mSyncingLedgers := []
  mCatchupWork := none
  mPosted := 0
  mClosed := []

theorem syncedNode_started : syncedNode.Started :=
  ⟨by decide, rfl, rfl, rfl, rfl, rfl⟩

/-- Ledgers 120, 121 and 129 are externalized, catchup goes to ledger 119, ledgers 120 and 121
are replayed from the buffer and ledger 122 closes on consensus. -/
def joiningRun : List (Step (List (UInt32 × UInt32 × Nat))) :=
  [.valueExternalized ⟨120, [(10, 119, 0)], 5⟩,
    .valueExternalized ⟨121, [(10, 120, 5), (10, 119, 0)], 0⟩,
    .valueExternalized ⟨129, [], 0⟩,
    .archiveState 127,
    .bucketsApplied (baseEntry 119),
    .applyTransactions,
    .catchupFinished,
    .applyBufferedLedger,
    .applyBufferedLedger,
    .valueExternalized ⟨122, [(10, 121, 0), (10, 120, 5), (10, 119, 0)], 0⟩]

/-- The text of the `assert` a run has stopped at. -/
def failedAssert {σ : Type} : EStateM.Result Halt σ PUnit → Option String
  | .error (.assertion text) _ => some text
  | _ => none

theorem joiningRun_joins : RunJoins chainEnv joiningRun syncedNode := by
  refine ⟨trivial, trivial, trivial, trivial, trivial, trivial, ?_, trivial, trivial, trivial,
    trivial⟩
  intro w hw hhash
  cases hw
  cases hhash

theorem catchup_runs_safe_joining : syncedNode.Started ∧ RunJoins chainEnv joiningRun syncedNode ∧
      ∃ lm', runSteps chainEnv joiningRun syncedNode = .ok ⟨⟩ lm' ∧
        Consecutive 100 lm'.mLastClosedLedger.header.ledgerSeq lm'.mClosed :=
  ⟨syncedNode_started, joiningRun_joins,
    catchup_runs_safe chainEnv syncedNode syncedNode_started joiningRun joiningRun_joins⟩

/-- A manual catchup from ledger 100 to ledger 127, during which ledger 101 is
externalized. -/
def overtakingRun : List (Step (List (UInt32 × UInt32 × Nat))) :=
  [.catchup 127,
    .valueExternalized ⟨101, [(10, 100, 0)], 0⟩,
    .archiveState 127,
    .bucketsApplied (baseEntry 127),
    .applyTransactions,
    .catchupFinished,
    .applyBufferedLedger]

theorem manual_catchup_overtakes : syncedNode.Started ∧
      failedAssert (runSteps chainEnv overtakingRun syncedNode) =
        some "lcd.getLedgerSeq() == mLastClosedLedger.header.ledgerSeq + 1" :=
  ⟨syncedNode_started, by decide +kernel⟩

end EssaCore.Catchup
