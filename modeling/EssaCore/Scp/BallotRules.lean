import EssaCore.Scp.BallotSpecs

/-!
# A proof rule for the ballot protocol

Everything a call into the ballot protocol does is a sequence of a dozen kinds
of atomic updates, each made under a guard that the source checks first.
`Rules env net allowed R` says that a relation `R` between states contains
every one of these updates and is closed under composition; then every entry
point moves the state along `R`, also when it halts half-way and through all
the nested `advanceSlot` calls (`Rules.call`).

An invariant of whole runs is proved by giving its `Rules` — one small goal for
each update — without looking at the control flow again. The parameters say
where data enters: `net` the envelopes the network delivers, `allowed` the
values nomination hands to `bumpState`.
-/

namespace EssaCore.Scp

open EssaCore.Lib

/-! ## Updates and their guards -/

/-- Events that only annotate the log. -/
def Event.isNote : Event → Bool
  | .ballotDidHearFromQuorum _ | .bumpToBallot _ | .setPreparedConfirmed _ | .setAcceptCommit _ _
  | .setConfirmCommit _ _ | .createStatement _ | .created _ | .emitEnvelope _
  | .valueExternalized _ => false
  | _ => true

/-- The envelope is the local node's own, and its statement was created. -/
def OwnEnvelope (env : Env) (s : State) (e : SCPEnvelope) : Prop :=
  e = createEnvelope env e.statement ∧
    e.statement.nodeID = env.localNode.mNodeID ∧
    .created e.statement ∈ s.log

/-- The current ballot is absent or below `b`. -/
def Below (s : State) (b : SCPBallot) : Prop :=
  ∀ cur, s.mCurrentBallot = some cur → cur < b

/-- Where the value of a new ballot comes from while no value is confirmed:
nomination, or if it has nothing the ballot already voted for. -/
def Proposed (env : Env) (allowed : Value → Prop) (s : State) (v : Value) :
    Prop :=
  allowed v ∨ (env.latestCompositeCandidate = [] ∧
    ∃ cur, s.mCurrentBallot = some cur ∧ cur.value = v)

/-- Why the current ballot may move to `b`. -/
inductive BumpReason (env : Env) (allowed : Value → Prop) (s : State)
    (b : SCPBallot) : Prop where
  /-- to the value confirmed prepared or accepted committed -/
  | override (hphase : s.mPhase ≠ .externalize)
      (h : s.mValueOverride = some b.value) (hbelow : Below s b)
  /-- to the ballot accepted or confirmed committed -/
  | high (hphase : s.mPhase = .confirm) (h : s.mHighBallot = some b)
      (hbelow : Below s b)
  /-- to a value from nomination, or the one already voted for -/
  | value (hphase : s.mPhase ≠ .externalize) (h : s.mValueOverride = none)
      (hvalue : Proposed env allowed s b.value)
      (hcommit : ∀ cur, s.mCurrentBallot = some cur →
        ∀ c, s.mCommit = some c → c.value = b.value)
      (hbelow : Below s b)

/-- The state right after a statement was created. -/
def State.afterStatement (s : State) (st : SCPStatement) : State :=
  (s.note (.createStatement s.localState)).note (.created st)

/-- A quorum accepted to commit `v`. -/
def CommitRatified (env : Env) (envs : EnvelopeMap) (v : Value) : Prop :=
  ∃ (ballot : SCPBallot) (cur : Interval), ballot.value = v ∧
    federatedRatify env (commitPredicate ballot cur) envs = true

/-- A quorum is at the counter of `b`, or above it. -/
def HeardFromQuorum (env : Env) (envs : EnvelopeMap) (b : SCPBallot) : Prop :=
  isQuorum env.localNode.mQSet envs (getQuorumSetFromStatement env)
    (heardAtCounter b.counter) = true

/-- **`R` contains every update of the ballot protocol.** -/
structure Rules (env : Env) (net : SCPEnvelope → Prop) (allowed : Value → Prop)
    (R : State → State → Prop) : Prop where
  refl : ∀ s, R s s
  trans : ∀ s₁ s₂ s₃, R s₁ s₂ → R s₂ s₃ → R s₁ s₃
  log_suffix : ∀ s s', R s s' → s.log <:+ s'.log
  note : ∀ s ev, Event.isNote ev = true → R s (s.note ev)
  level : ∀ s n, R s (s.withLevel n)
  didHear : ∀ s b, s.mCurrentBallot = some b →
    HeardFromQuorum env s.mLatestEnvelopes b → s.mHeardFromQuorum = false →
    R s ((s.withHeardFromQuorum true).note (.ballotDidHearFromQuorum b))
  notHeard : ∀ s b, s.mCurrentBallot = some b →
    ¬ HeardFromQuorum env s.mLatestEnvelopes b → R s (s.withHeardFromQuorum false)
  fullyValidated : ∀ s, R s (s.withFullyValidated false)
  latest : ∀ s e, net e ∨ OwnEnvelope env s e →
    isNewerForNode s.mLatestEnvelopes e.statement = true → R s (s.withLatestEnvelope e)
  createStatement : ∀ s, R s (s.note (.createStatement s.localState))
  created : ∀ s st, StatementOf env s st → R s (s.note (.created st))
  /-- An envelope is remembered after it was processed, which may take the
  state far from where its statement was created. -/
  lastEnvelope : ∀ s s' st, StatementOf env s st → s.mCurrentBallot.isSome →
    R s (s.afterStatement st) → R (s.afterStatement st) s' →
    R s (s'.withLastEnvelope (createEnvelope env st))
  emit : ∀ s e, s.mLastEnvelope = some e →
    R s ((s.withLastEnvelopeEmit e).note (.emitEnvelope e))
  prepared : ∀ s ballot, s.mPhase ≠ .externalize →
    (s.mPhase = .confirm →
      ∃ p, s.mPrepared = some p ∧ p ≤ ballot ∧ p.value = ballot.value) →
    R s (s.withPrepared (preparedWith s.mPrepared s.mPreparedPrime ballot).1.1
      (preparedWith s.mPrepared s.mPreparedPrime ballot).1.2)
  clearCommit : ∀ s, s.mPhase ≠ .externalize → commitContradicted s = true →
    R s (s.withCommit none)
  confirmPrepared : ∀ s newH, s.mPhase = .prepare →
    R s ((s.note (.setPreparedConfirmed newH)).withValueOverride newH.value)
  highBallot : ∀ s newH, s.mPhase = .prepare →
    s.mValueOverride = some newH.value → R s (s.withHighBallot (some newH))
  commit : ∀ s newC, s.mPhase = .prepare →
    s.mValueOverride = some newC.value → R s (s.withCommit (some newC))
  bump : ∀ s b, BumpReason env allowed s b → R s (s.bump b)
  enterConfirm : ∀ s c h, s.mPhase = .prepare → c.value = h.value →
    R s ((s.acceptedCommit c h).enteredConfirm h)
  acceptCommit : ∀ s c h h₀, s.mPhase = .confirm → s.mHighBallot = some h₀ →
    h₀.value = h.value → c.value = h.value → R s (s.acceptedCommit c h)
  confirmCommit : ∀ s c h c₀, s.mPhase = .confirm → s.mCommit = some c₀ →
    c.value = c₀.value → h.value = c₀.value → R s (s.confirmedCommit c h)
  externalize : ∀ s c h, s.mPhase = .confirm → s.mCommit = some c →
    s.mHighBallot = some h → h.value = c.value →
    CommitRatified env s.mLatestEnvelopes c.value →
    R s (s.withPhase .externalize)
  /-- `valueExternalized` ends what the move to `EXTERNALIZE` started. -/
  valueExternalized : ∀ s s' v, s.mPhase = .confirm →
    R s (s.withPhase .externalize) → R (s.withPhase .externalize) s' →
    R s (s'.note (.valueExternalized v))

/-! ## The rule, function by function -/

variable {s : State}

theorem OwnEnvelope.mono {env : Env} {s' : State} {e : SCPEnvelope}
    (h : OwnEnvelope env s e) (hlog : s.log <:+ s'.log) :
    OwnEnvelope env s' e :=
  ⟨h.1, h.2.1, hlog.subset h.2.2⟩

namespace Rules

variable {env : Env} {net : SCPEnvelope → Prop} {allowed : Value → Prop}
  {R : State → State → Prop} (H : Rules env net allowed R)
  {P : Halt → Prop} (hP : ∀ e, e.isCommon = true → P e)

/-- From `s₀`, the program `x` stays within what `R` allows from `s`, and halts within `P`. -/
def Stays {α : Type} (P : Halt → Prop) (R : State → State → Prop) (s s₀ : State) (x : M α) :
    Prop :=
  wp x (fun _ s' => R s s') (fun e s' => P e ∧ R s s') s₀

include H

variable {s₀ : State}

/-- A program that respects `R` can be run after any part of a call. -/
theorem stays {α : Type} {x : M α} (hx : Respects P R x)
    (h : R s s₀) : Stays P R s s₀ x :=
  (hx s₀).mono (fun _ _ h' => H.trans _ _ _ h h') (fun _ _ h' => ⟨h'.1, H.trans _ _ _ h h'.2⟩)

include hP

theorem respects_checkHeardFromQuorum : Respects P R (checkHeardFromQuorum env) := by
  intro s
  have hnote : ∀ (s' : State) (ev : Event), R s s' → ev.isNote = true →
      R s (s'.note ev) := fun s' ev h hev => H.trans _ _ _ h (H.note s' ev hev)
  unfold checkHeardFromQuorum
  simp only [wp_bind, wp_get]
  cases hb : s.mCurrentBallot with
  | none => exact H.refl s
  | some b =>
    simp only [checkHeardAtBallot, startBallotProtocolTimer,
      wp_ite, wp_bind, wp_modify, wp_onlyIf, wp_deref]
    refine ⟨fun hheard => ⟨fun hold => ?_, fun hold => ?_⟩, fun hnot =>
      hnote _ _ (H.notHeard s b hb hnot) rfl⟩
    · have ht := H.didHear s b hb hheard (by simpa using hold)
      refine ⟨fun _ => ⟨fun b' _ => ⟨fun _ => ?_, fun _ => hnote _ _ ht rfl⟩,
        fun _ => ⟨hP _ rfl, ht⟩⟩, fun _ => ⟨fun _ => hnote _ _ ht rfl, fun _ => ht⟩⟩
      exact hnote _ _ (hnote _ _ ht rfl) rfl
    · -- it was heard before: nothing changes
      have hsame : s.withHeardFromQuorum true = s := by
        have hold : s.mHeardFromQuorum = true := by simpa using hold
        unfold State.withHeardFromQuorum
        rw [← hold]
      rw [hsame]
      exact ⟨fun _ => hnote _ _ (H.refl s) rfl, fun _ => H.refl s⟩

omit hP in
theorem respects_sendLatestEnvelope : Respects P R sendLatestEnvelope := by
  intro s
  exact wp_sendLatestEnvelope (fun e he _ _ _ => H.emit s e he) (H.refl s)

section Reentrant

variable {adv : SCPStatement → M Unit} (hadv : ∀ st, Respects P R (adv st))

include hadv

variable {s : State}

theorem stays_processEnvelope {e : SCPEnvelope} {self : Bool} (he : net e ∨ OwnEnvelope env s e) :
    Stays P R s s (processEnvelope env adv e self) := by
  -- the only updates: the validation flag, the recorded envelope, and
  -- whatever the nested call does
  have hrecord : ∀ s', R s s' → isNewerForNode s'.mLatestEnvelopes e.statement = true →
      R s (s'.withLatestEnvelope e) := by
    intro s' h hnewer
    have he' : net e ∨ OwnEnvelope env s' e :=
      he.imp_right fun ho => ho.mono (H.log_suffix _ _ h)
    exact H.trans _ _ _ h (H.latest s' e he' hnewer)
  unfold Stays processEnvelope
  simp only [wp_bind, wp_dbgAssert_pure, wp_ite, wp_onlyIf, wp_deref]
  refine ⟨fun _ => ⟨fun _ => H.refl s, fun _ => ⟨fun _ => H.refl s, fun hstale =>
    ⟨fun _ => H.refl s, fun _ => ?_⟩⟩⟩, fun _ _ => ⟨hP _ rfl, H.refl s⟩⟩
  have hnewer : isNewerForNode s.mLatestEnvelopes e.statement = true := by
    simpa using hstale
  refine ⟨fun _ => ⟨fun _ => ?_, fun _ => ?_⟩, fun _ => ⟨fun c _ =>
    ⟨fun _ => hrecord s (H.refl s) hnewer, fun _ => H.refl s⟩,
    fun _ => ⟨hP _ rfl, H.refl s⟩⟩⟩
  · exact H.stays (hadv _) (hrecord _ (H.fullyValidated s) hnewer)
  · exact H.stays (hadv _) (hrecord _ (H.refl s) hnewer)

theorem respects_emitCurrentStateStatement : Respects P R (emitCurrentStateStatement env adv) := by
  intro s
  unfold emitCurrentStateStatement
  rw [wp_bind]
  have hnote := H.createStatement s
  refine wp_createStatement (fun st hst => ?_) fun _ he => ⟨hP _ he, hnote⟩
  have hcreated := H.trans _ _ _ hnote (H.created _ st hst)
  have hown : OwnEnvelope env (s.afterStatement st) (createEnvelope env st) :=
    ⟨rfl, hst.1, List.mem_cons_self⟩
  simp only [wp_bind, wp_onlyIf, wp_ite]
  refine ⟨fun _ => ?_, fun _ => hcreated⟩
  refine (H.stays_processEnvelope hP hadv (.inr hown)).mono (fun res s' h => ?_)
    fun _ s' h => ⟨h.1, H.trans _ _ _ hcreated h.2⟩
  have hs' := H.trans _ _ _ hcreated h
  refine ⟨fun _ => ?_, fun _ => ⟨hP _ rfl, hs'⟩⟩
  simp only [updateLastEnvelope, wp_bind, wp_onlyIf]
  refine ⟨fun hemit => ?_, fun _ => hs'⟩
  have hcan : s.mCurrentBallot.isSome := (Bool.and_eq_true_iff.1 hemit).1
  have hlast := H.lastEnvelope s s' st hst hcan hcreated h
  exact H.stays H.respects_sendLatestEnvelope hlast

theorem stays_setPreparedAccept {ballot : SCPBallot}
    (hs : R s s₀) (hphase : s₀.mPhase ≠ .externalize)
    (hconfirm : s₀.mPhase = .confirm →
      ∃ p, s₀.mPrepared = some p ∧ p ≤ ballot ∧ p.value = ballot.value) :
    Stays P R s s₀ (setPreparedAccept env adv ballot) := by
  have hemit := H.respects_emitCurrentStateStatement hP hadv
  unfold Stays setPreparedAccept
  simp only [wp_bind, wp_onlyIf,
    wp_dbgAssert_pure, wp_modify]
  have h₁ := H.trans _ _ _ hs (H.note s₀ (.setPreparedAccept ballot) rfl)
  have h₂ := H.trans _ _ _ h₁
    (H.prepared (s₀.note (.setPreparedAccept ballot)) ballot hphase hconfirm)
  refine ⟨fun hclear => ⟨fun _ => ?_, fun _ _ => ⟨hP _ rfl, h₂⟩⟩, fun _ => ?_⟩
  · have hnote := H.trans _ _ _ h₂ (H.note _ (.clearCommit s₀.mPhase) rfl)
    have h₃ := H.trans _ _ _ hnote (H.clearCommit _ hphase hclear)
    exact ⟨fun _ => H.stays hemit (H.trans _ _ _ h₃ (H.note _ _ rfl)), fun _ => h₃⟩
  · exact ⟨fun _ => H.stays hemit (H.trans _ _ _ h₂ (H.note _ _ rfl)), fun _ => h₂⟩

theorem stays_acceptFirstPrepared (hs : R s s₀)
    (hphase : s₀.mPhase ≠ .externalize) (candidates : List SCPBallot) :
    Stays P R s s₀ (acceptFirstPrepared env adv candidates) := by
  induction candidates with
  | nil => exact hs
  | cons ballot rest ih =>
    unfold Stays acceptFirstPrepared
    simp only [wp_bind]
    refine wp_considerForPrepared (fun hconfirm => ?_) ?_ fun _ he => ⟨hP _ he, hs⟩
    · simp only [wp_ite]
      refine ⟨fun _ => ih, fun _ => ⟨fun _ => ih, fun _ => ⟨fun _ => ih, fun _ =>
        ⟨fun _ => ?_, fun _ => ih⟩⟩⟩⟩
      exact H.stays_setPreparedAccept hP hadv hs hphase hconfirm
    · simp only [wp_ite]
      exact ⟨fun _ => ih, fun h => absurd rfl h⟩

theorem respects_attemptPreparedAccept (hint : SCPStatement) :
    Respects P R (attemptPreparedAccept env adv hint) := by
  intro s
  unfold attemptPreparedAccept
  simp only [wp_bind, wp_ite]
  refine ⟨fun _ => H.refl s, fun hphase => ?_⟩
  refine H.stays_acceptFirstPrepared hP hadv (H.refl s) (fun h => hphase ?_) _
  exact ⟨by simp [h], by simp [h]⟩

theorem stays_setPreparedConfirmed {newC newH : SCPBallot} (hphase : s.mPhase = .prepare)
    (hvalue : newC.counter ≠ 0 → newC.value = newH.value) :
    Stays P R s s (setPreparedConfirmed env adv newC newH) := by
  have hemit := H.respects_emitCurrentStateStatement hP hadv
  unfold Stays setPreparedConfirmed
  simp only [wp_bind, wp_record]
  have h₁ := H.confirmPrepared s newH hphase
  -- `setHighAndCommit` keeps the phase, the override and the current ballot
  suffices hset : wp (setHighAndCommit env newC newH) (fun _ s' => R s s' ∧ s'.mPhase = .prepare ∧
        s'.mValueOverride = some newH.value)
      (fun e s' => P e ∧ R s s')
      ((s.note (.setPreparedConfirmed newH)).withValueOverride newH.value) by
    refine hset.imp fun didWork s' h => ?_
    obtain ⟨hs', hp, hv⟩ := h
    have hrest : ∀ (c : Bool) (s'' : State), R s s'' →
        Stays P R s s'' (onlyIf c <| emitCurrentStateStatement env adv) :=
      fun c s'' h => wp_onlyIf_of h fun _ => H.stays hemit h
    refine wp_updateCurrentIfNeeded (by simp [hp]) (fun hbelow => ?_) fun _ _ _ => hrest _ _ hs'
    refine hrest _ _ (H.trans _ _ _ hs' (H.bump s' newH ?_))
    exact .override (by simp [hp]) hv hbelow
  let K : State → Prop := fun s' =>
    R s s' ∧ s'.mPhase = .prepare ∧ s'.mValueOverride = some newH.value
  have hK : K ((s.note (.setPreparedConfirmed newH)).withValueOverride
      newH.value) := ⟨h₁, hphase, rfl⟩
  have hraise : ∀ s', K s' → K (s'.withHighBallot (some newH)) :=
    fun s' h => ⟨H.trans _ _ _ h.1 (H.highBallot s' newH h.2.1 h.2.2), h.2⟩
  have hcommit : ∀ s', K s' → newC.counter ≠ 0 → K (s'.withCommit (some newC)) :=
    fun s' h hc => ⟨H.trans _ _ _ h.1 (H.commit s' newC h.2.1 (by rw [h.2.2, hvalue hc])), h.2⟩
  unfold setHighAndCommit
  simp only [wp_bind, wp_ite]
  refine ⟨fun _ => ?_, fun _ => hK⟩
  refine wp.imp (wp_onlyIf_of hK fun _ => hraise _ hK) fun _ s₂ h₂ => ?_
  refine wp.imp (wp_onlyIf_of h₂ fun hc => ?_) fun _ s₃ h₃ => ?_
  · simp only [setCommit, wp_bind, wp_dbgAssert_pure]
    exact ⟨fun _ => hcommit s₂ h₂ (by simpa using hc), fun _ _ => ⟨hP _ rfl, h₂.1⟩⟩
  · refine wp_onlyIf_of h₃ fun _ => ?_
    exact ⟨H.trans _ _ _ h₃.1 (H.note s₃ _ rfl), h₃.2⟩

theorem respects_attemptPreparedConfirmed (hint : SCPStatement) :
    Respects P R (attemptPreparedConfirmed env adv hint) := by
  intro s
  unfold attemptPreparedConfirmed
  simp only [wp_bind, wp_ite]
  refine ⟨fun _ => H.refl s, fun hphase => ⟨fun _ => H.refl s, fun _ => ?_⟩⟩
  split
  · exact H.refl s
  · refine H.stays_setPreparedConfirmed hP hadv (not_not.1 hphase) fun hc => ?_
    exact (newCommitFor_spec hc).2.2

theorem stays_setAcceptCommit {c h : SCPBallot}
    (hphase : s.mPhase ≠ .externalize) (hvalue : c.value = h.value)
    (hconfirm : s.mPhase = .confirm → ∃ h₀, s.mHighBallot = some h₀ ∧ h₀.value = h.value) :
    Stays P R s s (setAcceptCommit env adv c h) := by
  -- both ways of accepting lead to `CONFIRM` with `h` as the high ballot
  have hfinish : ∀ (didWork : Bool) (s₁ : State), R s s₁ →
      s₁.mPhase = .confirm → s₁.mHighBallot = some h →
      Stays P R s s₁ (onlyIf didWork do
        let high ← deref (← get).mHighBallot
        let _ ← updateCurrentIfNeeded env high
        record (.acceptedCommit h)
        emitCurrentStateStatement env adv) := by
    intro didWork s₁ h₁ hp hh
    have hemit := H.respects_emitCurrentStateStatement hP hadv
    refine wp_onlyIf_of h₁ fun _ => ?_
    simp only [wp_bind, wp_get, hh, wp_deref_some]
    refine wp_updateCurrentIfNeeded (by simp [hp]) (fun hbelow => ?_)
      fun _ _ _ => H.stays hemit (H.trans _ _ _ h₁ (H.note s₁ _ rfl))
    have h₂ := H.trans _ _ _ h₁ (H.bump s₁ h (.high hp hh hbelow))
    exact H.stays hemit (H.trans _ _ _ h₂ (H.note _ _ rfl))
  unfold Stays setAcceptCommit
  simp only [wp_bind]
  refine wp_updateAcceptCommit (fun hp => ?_) fun hp didWork _ => ?_
  · exact hfinish true _ (H.enterConfirm s c h hp hvalue)
      (State.enteredConfirm_mPhase _ h) (State.enteredConfirm_mHighBallot s c h)
  · have hc : s.mPhase = .confirm := by
      cases hs : s.mPhase <;> simp_all
    obtain ⟨h₀, hh₀, hv₀⟩ := hconfirm hc
    exact hfinish didWork _ (H.acceptCommit s c h h₀ hc hh₀ hv₀ hvalue) hc rfl

theorem respects_attemptAcceptCommit (hint : SCPStatement) :
    Respects P R (attemptAcceptCommit env adv hint) := by
  intro s
  unfold attemptAcceptCommit
  simp only [wp_bind, wp_ite]
  refine ⟨fun _ => H.refl s, fun hphase => ?_⟩
  have hphase' : s.mPhase ≠ .externalize := fun h => hphase (by simp [h])
  split
  · exact H.refl s
  · rename_i ballot _
    simp only [wp_bind, wp_ite, compatibleWithHigh, wp_deref]
    have hset : (s.mPhase = .confirm → ∃ h₀, s.mHighBallot = some h₀ ∧ h₀.value = ballot.value) →
        ∀ candidate : Interval, Stays P R s s (setAcceptCommit env adv ⟨candidate.1, ballot.value⟩
            ⟨candidate.2, ballot.value⟩) := fun hc candidate =>
      H.stays_setAcceptCommit hP hadv hphase' rfl hc
    refine ⟨fun hc => ⟨fun h₀ hh₀ => ⟨fun _ => H.refl s, fun hcompat => ?_⟩,
      fun _ => ⟨hP _ rfl, H.refl s⟩⟩, fun hc => ⟨fun _ => H.refl s, fun _ => ?_⟩⟩
    · refine ⟨fun _ => H.refl s, fun _ =>
        (readOnly_raisesHigh s _).wp (fun raises => ?_) fun _ he => ⟨hP _ he, H.refl s⟩⟩
      refine ⟨fun _ => hset (fun _ => ⟨h₀, hh₀, ?_⟩) _, fun _ => H.refl s⟩
      have : areBallotsCompatible ballot h₀ = true := by simpa using hcompat
      exact (areBallotsCompatible_iff.1 this).symm
    · refine ⟨fun _ => H.refl s, fun _ =>
        (readOnly_raisesHigh s _).wp (fun raises => ?_) fun _ he => ⟨hP _ he, H.refl s⟩⟩
      exact ⟨fun _ => hset (fun h => absurd h hc) _, fun _ => H.refl s⟩

theorem stays_setConfirmCommit {c h c₀ : SCPBallot}
    (hphase : s.mPhase = .confirm) (hc₀ : s.mCommit = some c₀)
    (hc : c.value = c₀.value) (hh : h.value = c₀.value)
    (hratified : CommitRatified env s.mLatestEnvelopes c.value) :
    Stays P R s s (setConfirmCommit env adv c h) := by
  have hemit := H.respects_emitCurrentStateStatement hP hadv
  have h₁ := H.confirmCommit s c h c₀ hphase hc₀ hc hh
  -- from the move to `EXTERNALIZE` on
  have hfinish : ∀ s₁, R s s₁ → s₁.mPhase = .confirm → s₁.mCommit = some c →
      s₁.mHighBallot = some h → s₁.mLatestEnvelopes = s.mLatestEnvelopes →
      Stays P R s (s₁.withPhase .externalize) (do
        emitCurrentStateStatement env adv
        record .stopNomination
        let commit ← deref (← get).mCommit
        record (.valueExternalized commit.value)
        pure true) := by
    intro s₁ hs₁ hp₁ hc₁ hh₁ henvs
    have hext := H.externalize s₁ c h hp₁ hc₁ hh₁ (hh.trans hc.symm) (henvs ▸ hratified)
    have hs₂ := H.trans _ _ _ hs₁ hext
    unfold Stays
    simp only [wp_bind, wp_deref]
    refine (hemit _).mono (fun _ s₂ h₂ => ⟨fun c' _ => ?_, fun _ => ?_⟩)
      fun _ _ h₂ => ⟨h₂.1, H.trans _ _ _ hs₂ h₂.2⟩
    · have h₃ := H.trans _ _ _ h₂ (H.note s₂ .stopNomination rfl)
      exact H.trans _ _ _ hs₁ (H.valueExternalized s₁ _ c'.value hp₁ hext h₃)
    · exact ⟨hP _ rfl, H.trans _ _ _ hs₂ (H.trans _ _ _ h₂ (H.note s₂ _ rfl))⟩
  unfold Stays setConfirmCommit
  rw [wp_bind, wp_record, wp_bind, wp_modify, wp_bind]
  refine wp_updateCurrentIfNeeded (by simp [State.withCommit,
    State.withHighBallot, State.note, hphase]) (fun hbelow => ?_) fun _ _ _ => ?_
  · rw [wp_bind]
    refine hfinish _ (H.trans _ _ _ h₁ (H.bump (s.confirmedCommit c h) h ?_)) hphase rfl ?_ rfl
    · exact .high hphase rfl hbelow
    · simp [State.bump, State.bumpedTo, State.note, State.withHighBallot]
  · rw [wp_bind]
    exact hfinish _ h₁ hphase rfl rfl rfl

theorem respects_attemptConfirmCommit (hint : SCPStatement) :
    Respects P R (attemptConfirmCommit env adv hint) := by
  intro s
  unfold attemptConfirmCommit
  simp only [wp_bind, wp_ite]
  refine ⟨fun _ => H.refl s, fun hphase => ?_⟩
  split
  · rename_i h₀ c₀ ballot _ hc₀ _
    simp only [wp_ite]
    refine ⟨fun _ => H.refl s, fun hcompat => ⟨fun _ => H.refl s, fun hne => ?_⟩⟩
    have hvalue : ballot.value = c₀.value := by simpa using hcompat
    refine H.stays_setConfirmCommit hP hadv (not_not.1 hphase) hc₀ hvalue hvalue
      ⟨ballot, confirmCommitInterval env s ballot, rfl, ?_⟩
    exact findExtendedInterval_pred _ (fun h => absurd rfl h) hne
  · exact H.refl s

theorem respects_attemptAll (hint : SCPStatement) : Respects P R (attemptAll env adv hint) := by
  have : IsTrans State R := ⟨H.trans⟩
  have : Std.Refl R := ⟨H.refl⟩
  exact .bind (H.respects_attemptPreparedAccept hP hadv hint) fun _ =>
    .bind (H.respects_attemptPreparedConfirmed hP hadv hint) fun _ =>
    .bind (H.respects_attemptAcceptCommit hP hadv hint) fun _ =>
    .bind (H.respects_attemptConfirmCommit hP hadv hint) fun _ => .pure _

/-! ### Bumping -/

theorem stays_bumpStateTo {value : Value} {n : UInt32} (hvalue : Proposed env allowed s value)
    (hask : ¬ AsksForward s value n → P (.dbgAbort .updateCurrentValue)) :
    Stays P R s s (bumpStateTo env adv value n) := by
  unfold Stays bumpStateTo
  simp only [wp_bind, wp_ite]
  refine ⟨fun _ => H.refl s, fun hphase => ?_⟩
  have hphase' : s.mPhase ≠ .externalize := fun h => hphase (by simp [h])
  have hfinish : ∀ (updated : Bool) (s₁ : State), R s s₁ → Stays P R s s₁ (onlyIf updated do
        emitCurrentStateStatement env adv
        checkHeardFromQuorum env) := by
    intro updated s₁ h₁
    refine wp_onlyIf_of h₁ fun _ => ?_
    refine (H.stays (H.respects_emitCurrentStateStatement hP hadv) h₁).bind
      fun _ s₂ h₂ => ?_
    exact H.stays (H.respects_checkHeardFromQuorum hP) h₂
  refine wp_updateCurrentValue hphase' (fun hbelow hcommit => ?_)
    (readOnly_checkInvariants.wp (fun _ => hfinish _ _ (H.refl s)) fun _ he => ⟨hP _ he, H.refl s⟩)
    (hfinish _ _ (H.refl s)) fun h => h.elim fun cur hcur =>
      ⟨hask fun hle => absurd (hle cur hcur.1) (not_le.mpr hcur.2), H.refl s⟩
  have hreason : BumpReason env allowed s ⟨n, s.mValueOverride.getD value⟩ := by
    by_cases hov : s.mValueOverride = none
    · exact .value hphase' hov (by simpa [hov] using hvalue) hcommit hbelow
    · obtain ⟨v, hv⟩ := Option.ne_none_iff_exists'.1 hov
      exact .override hphase' (by simp [hv]) hbelow
  have hb := H.bump s _ hreason
  exact readOnly_checkInvariants.wp (fun _ => hfinish _ _ hb) fun _ he => ⟨hP _ he, hb⟩

theorem stays_bumpState {value : Value} {force : Bool} (hvalue : Proposed env allowed s value)
    (hask : ¬ (force = true → s.localCounter ≠ uint32Max) → P (.dbgAbort .updateCurrentValue)) :
    Stays P R s s (bumpState env adv value force) := by
  unfold Stays bumpState
  simp only [wp_bind, wp_ite]
  refine ⟨fun _ => H.refl s, fun hgo => H.stays_bumpStateTo hP hadv hvalue fun hnot =>
    hask fun hrange => hnot ?_⟩
  cases force with
  | true => exact asksForward_of_lt (localCounter_lt_next (hrange rfl)) value
  | false =>
    intro cur hcur
    simp [hcur] at hgo

theorem stays_abandonBallot (n : UInt32) (hcand : env.latestCompositeCandidate ≠ [] →
      allowed env.latestCompositeCandidate)
    (hask : ¬ (Call.abandonBallot n).InRange s → P (.dbgAbort .updateCurrentValue)) :
    Stays P R s s (abandonBallot env adv n) := by
  -- the value is the nominated one, or else the current one
  have hvalue : ∀ v, v = (if env.latestCompositeCandidate = [] then
      (s.mCurrentBallot.map (·.value)).getD []
      else env.latestCompositeCandidate) → v ≠ [] →
      Proposed env allowed s v := by
    intro v hv hne
    by_cases hc : env.latestCompositeCandidate = []
    · rw [if_pos hc] at hv
      cases hcur : s.mCurrentBallot with
      | none => simp [hcur] at hv; exact absurd hv hne
      | some cur => exact .inr ⟨hc, cur, hcur, by simp [hv, hcur]⟩
    · rw [if_neg hc] at hv
      exact .inl (hv ▸ hcand hc)
  unfold Stays abandonBallot
  simp only [wp_bind, wp_get]
  generalize hv : (if env.latestCompositeCandidate = [] then
    (s.mCurrentBallot.map (·.value)).getD []
    else env.latestCompositeCandidate) = v
  simp only [wp_ite]
  refine ⟨fun _ => H.refl s, fun hne => ⟨fun hn => ?_, fun hn => ?_⟩⟩
  · rw [Call.InRange, if_pos hn] at hask
    exact H.stays_bumpState hP hadv (hvalue v hv.symm hne) fun h =>
      hask fun hrange => h fun _ => hrange
  · rw [Call.InRange, if_neg hn] at hask
    exact H.stays_bumpStateTo hP hadv (hvalue v hv.symm hne) fun h =>
      hask fun hlt => h (asksForward_of_lt hlt v)

section Bump

variable (hcand : env.latestCompositeCandidate ≠ [] →
  allowed env.latestCompositeCandidate)

include hcand

theorem respects_attemptBump : Respects P R (attemptBump env adv) := by
  intro s
  unfold attemptBump
  simp only [wp_bind, wp_ite]
  refine ⟨fun _ => H.refl s, fun _ => ⟨fun _ => H.refl s, fun _ => ?_⟩⟩
  split
  · rename_i n hn
    have hlt : s.localCounter < n := lt_of_bumpCounter hn
    refine H.stays_abandonBallot hP hadv n hcand fun hrange => absurd ?_ hrange
    have hne : n ≠ 0 := by
      rintro rfl
      exact absurd hlt (not_lt.2 (UInt32.le_iff_toNat_le.2 (Nat.zero_le _)))
    rwa [Call.InRange, if_neg hne]
  · exact H.refl s

theorem respects_attemptBumpLoop (hloop : P .bumpLoop) (rounds : Nat) :
    Respects P R (attemptBumpLoop env adv rounds) := by
  have : IsTrans State R := ⟨H.trans⟩
  have : Std.Refl R := ⟨H.refl⟩
  induction rounds with
  | zero => exact .throw hloop
  | succ rounds ih =>
    refine .bind (H.respects_attemptBump hP hadv hcand) fun didBump => ?_
    exact .ite (fun _ => .bind ih fun _ => .pure _) fun _ => .pure _

end Bump

theorem respects_advanceSlotBody (hmax : P .maximumNumberOfTransitions)
    (hloop : Respects P R (attemptBumpLoop env adv bumpRounds)) (hint : SCPStatement) :
    Respects P R (advanceSlotBody env adv hint) := by
  have : IsTrans State R := ⟨H.trans⟩
  have : Std.Refl R := ⟨H.refl⟩
  have hlevel : ∀ f : State → Nat, Respects P R (modify fun s => s.withLevel (f s)) :=
    fun f s => H.level s (f s)
  have hbump : ∀ level, Respects P R (bumpAfterAttempts env adv level) := by
    intro level
    exact .ite (fun _ => .bind hloop
      fun _ => .bind (H.respects_checkHeardFromQuorum hP) fun _ => .pure _)
      fun _ => .pure _
  refine .bind (hlevel _) fun _ => .bind (fun s => H.refl s) fun s => ?_
  refine .ite (fun _ => .throw hmax) fun _ => ?_
  refine .bind (H.respects_attemptAll hP hadv hint) fun _ =>
    .bind (hbump _) fun _ => .bind (hlevel _) fun _ => ?_
  exact fun s => wp_onlyIf_of (H.refl s) fun _ => H.respects_sendLatestEnvelope s

end Reentrant

section Calls

variable (hmax : P .maximumNumberOfTransitions)
  (hloop : ∀ adv, (∀ st, Respects P R (adv st)) →
    Respects P R (attemptBumpLoop env adv bumpRounds))

include hmax hloop

/-- The induction over the nested calls. -/
theorem respects_advanceSlot (depth : Nat) (hint : SCPStatement) :
    Respects P R (advanceSlot env depth hint) := by
  have : IsTrans State R := ⟨H.trans⟩
  have : Std.Refl R := ⟨H.refl⟩
  induction depth generalizing hint with
  | zero => exact .bind (fun s => H.level s _) fun _ => .throw hmax
  | succ depth ih => exact H.respects_advanceSlotBody hP ih hmax (hloop _ ih) hint

/-- **Every call moves the state along `R`**, and halts within `P`. -/
theorem stays_call (hcand : env.latestCompositeCandidate ≠ [] →
      allowed env.latestCompositeCandidate) (c : Call)
    (hnet : ∀ e, c = .processEnvelope e → net e)
    (hallowed : ∀ v force, c = .bumpState v force → allowed v)
    (hask : ¬ c.InRange s → P (.dbgAbort .updateCurrentValue)) :
    Stays P R s s (c.run env) := by
  have hadv : ∀ st, Respects P R (nestedAdvanceSlot env st) :=
    H.respects_advanceSlot hP hmax hloop _
  unfold Stays
  cases c with
  | processEnvelope e =>
    simp only [Call.run, wp_bind]
    exact H.stays_processEnvelope hP hadv (.inl (hnet e rfl))
  | bumpState v force =>
    simp only [Call.run, wp_bind]
    exact H.stays_bumpState hP hadv (.inl (hallowed v force rfl)) hask
  | abandonBallot n =>
    simp only [Call.run, wp_bind]
    exact H.stays_abandonBallot hP hadv n hcand hask

end Calls

omit hP in
/-- **Every call moves the state along `R`**, whether it returns or halts. -/
theorem call (hcand : env.latestCompositeCandidate ≠ [] → allowed env.latestCompositeCandidate)
    (c : Call) (hnet : ∀ e, c = .processEnvelope e → net e)
    (hallowed : ∀ v force, c = .bumpState v force → allowed v) :
    Respects (fun _ => True) R (c.run env) := by
  have hcommon : ∀ e : Halt, e.isCommon = true → True := fun _ _ => trivial
  exact fun s => H.stays_call hcommon trivial
    (fun _ hadv => H.respects_attemptBumpLoop hcommon hadv hcand trivial _) hcand c hnet
    hallowed fun _ => trivial

end Rules

/-! ## Runs -/

/-- The state after a call, also if the call halts. -/
def Call.after (env : Env) (c : Call) (s : State) : State :=
  match c.run env s with
  | .ok _ s' => s'
  | .error _ s' => s'

/-- A sequence of calls, made one after the other. A call that throws leaves
the state it reached to the next one. -/
def runCalls (calls : List (Env × Call)) (s : State) : State :=
  calls.foldl (fun s c => c.2.after c.1 s) s

theorem after_of_respects {P : Halt → Prop} {R : State → State → Prop} {env : Env} {c : Call}
    (h : Respects P R (c.run env)) : R s (c.after env s) := by
  have hs := h s
  unfold wp at hs
  unfold Call.after
  split at hs <;> simp_all

/-- A relation with `Rules` in all surroundings relates the two ends of a run. -/
theorem Rules.runCalls {R : State → State → Prop}
    (H : ∀ env, Rules env (fun _ => True) (fun _ => True) R)
    (hrefl : ∀ s, R s s) (calls : List (Env × Call)) (s : State) :
    R s (runCalls calls s) := by
  induction calls generalizing s with
  | nil => exact hrefl s
  | cons c calls ih =>
    have hc : R s (c.2.after c.1 s) := after_of_respects <|
      (H c.1).call (fun _ => trivial) c.2 (fun _ _ => trivial) fun _ _ _ => trivial
    exact (H c.1).trans _ _ _ hc (ih _)

end EssaCore.Scp
