import EssaCore.Scp.BallotProtocol

/-!
# What the local transitions do

One specification for each function of the ballot protocol that does not
re-enter `advanceSlot`, stated on the state before it: which state it leaves,
or at which assertion it halts. Later proofs cite these and never unfold the
functions.
-/

open List Option

namespace EssaCore.Scp

open EssaCore.Lib

variable {env : Env} {s : State} {E : Halt → State → Prop}

/-! ## Primitives -/

section Primitives

@[simp] theorem wp_record {ev : Event} {Q : Unit → State → Prop} :
    wp (record ev) Q E s ↔ Q () (s.note ev) := Iff.rfl

variable {α : Type} {c : Bool} {Q : α → State → Prop}

@[simp] theorem wp_deref_some {a : α} : wp (deref (some a)) Q E s ↔ Q a s := Iff.rfl

@[simp] theorem wp_deref_none : wp (deref (none : Option α)) Q E s ↔ E .nullDeref s := Iff.rfl

theorem wp_deref {o : Option α} : wp (deref o) Q E s ↔
      (∀ a, o = some a → Q a s) ∧ (o = none → E .nullDeref s) := by
  cases o <;> simp

@[simp] theorem wp_onlyIf {x : M Unit} {Q : Unit → State → Prop} :
    wp (onlyIf c x) Q E s ↔ (c = true → wp x Q E s) ∧ (c = false → Q () s) := by
  cases c <;> simp [onlyIf]

/-- A condition that both outcomes of an `onlyIf` establish. -/
theorem wp_onlyIf_of {P : State → Prop} {x : M Unit} (h : P s)
    (hx : c = true → wp x (fun _ => P) E s) :
    wp (onlyIf c x) (fun _ => P) E s :=
  wp_onlyIf.2 ⟨hx, fun _ => h⟩

@[simp] theorem wp_dbgAssert_pure {site : AssertSite} {Q : Unit → State → Prop} :
    wp (dbgAssert env site (pure c)) Q E s ↔ (env.ndebug = true ∨ c = true → Q () s) ∧
      (env.ndebug = false → c = false → E (.dbgAbort site) s) := by
  unfold dbgAssert
  cases env.ndebug <;> cases c <;> simp

end Primitives

/-! ## Programs that only look at the state -/

/-- Halts that any part of a call may end in. The others are those of `bumpToBallot` and
`updateCurrentValue`, of the bump loop, and of too deep a recursion. -/
def Halt.isCommon : Halt → Bool
  | .dbgAbort .updateCurrentValue | .dbgAbort .bumpToBallot | .bumpLoop
  | .maximumNumberOfTransitions => false
  | _ => true

def ReadOnly {α : Type} (x : M α) : Prop := Respects (fun e => e.isCommon = true) Eq x

theorem readOnly_get : ReadOnly get := fun _ => rfl

theorem readOnly_deref {α : Type} (o : Option α) : ReadOnly (deref o) := by
  intro s
  rw [wp_deref]
  exact ⟨fun _ _ => rfl, fun _ => ⟨rfl, rfl⟩⟩

theorem readOnly_dbgAssert {site : AssertSite} {cond : M Bool}
    (hsite : (Halt.dbgAbort site).isCommon = true) (h : ReadOnly cond) :
    ReadOnly (dbgAssert env site cond) := by
  refine .ite (fun _ => .pure _) fun _ => .bind h fun c => ?_
  exact .ite (fun _ => .pure _) fun _ => .throw hsite

/-- A read-only program leaves the state it found, however it ends. -/
theorem ReadOnly.wp {α : Type} {x : M α} (hx : ReadOnly x)
    {Q : α → State → Prop}
    (hQ : ∀ a, Q a s) (hE : ∀ e, e.isCommon = true → E e s) : wp x Q E s :=
  (hx s).mono (fun a _ h => h ▸ hQ a) (fun e _ h => h.2 ▸ hE e h.1)

theorem readOnly_checkInvariants : ReadOnly (checkInvariants env) := by
  have hassert : ∀ c : Bool, ReadOnly (dbgAssert env .checkInvariants (pure c)) :=
    fun c => readOnly_dbgAssert rfl (.pure c)
  have hassert₁ : ∀ (o : Option SCPBallot) (f : SCPBallot → Bool),
      ReadOnly (dbgAssert env .checkInvariants do pure (f (← deref o))) :=
    fun o f => readOnly_dbgAssert rfl (.bind (readOnly_deref o) fun _ => .pure _)
  refine .bind readOnly_get fun s => .bind ?_ fun _ => .bind ?_ fun _ =>
    .bind ?_ fun _ => .bind ?_ fun _ => ?_
  · unfold checkCurrentBallot
    cases s.mCurrentBallot
    · exact .pure _
    · exact hassert _
  · unfold checkPrepared
    split
    · exact hassert _
    · exact .pure _
  · unfold checkHighBallot
    cases s.mHighBallot
    · exact .pure _
    · exact .bind (hassert _) fun _ => hassert₁ _ _
  · unfold checkCommit
    cases s.mCommit
    · exact .pure _
    · refine .bind (hassert _) fun _ => .bind (hassert₁ _ _) fun _ => ?_
      exact readOnly_dbgAssert rfl (.bind (readOnly_deref _) fun _ =>
        .bind (readOnly_deref _) fun _ => .pure _)
  · unfold checkPhase
    cases s.mPhase
    · exact .pure _
    · exact hassert _
    · exact .bind (hassert _) fun _ => hassert _

theorem readOnly_raisesHigh (s₀ : State) (candidate : Interval) :
    ReadOnly (raisesHigh s₀ candidate) := by
  exact .ite (fun _ => .pure _) fun _ => .bind (readOnly_deref _) fun _ => .pure _

variable {Q : Bool → State → Prop} {h b ballot : SCPBallot} {s : State}

/-- What `considerForPrepared` has checked when it lets a ballot through. -/
theorem wp_considerForPrepared {s₀ : State} (hyes : (s.mPhase = .confirm →
      ∃ p, s.mPrepared = some p ∧ p ≤ ballot ∧ p.value = ballot.value) →
      Q true s₀)
    (hno : Q false s₀) (hE : ∀ e, e.isCommon = true → E e s₀) :
    wp (considerForPrepared env s ballot) Q E s₀ := by
  unfold considerForPrepared
  simp only [wp_ite, wp_bind, wp_deref]
  refine ⟨fun hc => ⟨fun p hp => ⟨fun hle => ?_, fun _ => hno⟩, fun _ => hE _ rfl⟩,
    fun hc => hyes fun h => absurd h hc⟩
  refine (readOnly_dbgAssert rfl ?_).wp (fun _ => hyes fun _ => ⟨p, hp, ?_⟩) hE
  · exact .bind (readOnly_deref _) fun _ => .pure _
  · exact areBallotsLessAndCompatible_iff.1 hle

/-! ## Moving the current ballot -/

/-- The state after `bumpToBallot`. -/
def State.bump (s : State) (b : SCPBallot) : State :=
  (s.note (.bumpToBallot b)).bumpedTo b

/-- What `bumpToBallot` logs besides its own line. -/
def State.bumpNotes (s : State) (b : SCPBallot) : List Event :=
  (if s.mHighBallot.any fun h => !areBallotsCompatible b h then
    [.resetHighBallot s.mCommit] else []) ++
  (if s.mCurrentBallot.isNone then [.startedBallotProtocol b] else [])

theorem State.bump_log (s : State) (b : SCPBallot) :
    (s.bump b).log = s.bumpNotes b ++ .bumpToBallot b :: s.log := by
  unfold State.bumpNotes
  rw [append_assoc]
  rfl

/-- A bump keeps `h` or drops it. -/
theorem State.bump_mHighBallot (hh : (s.bump b).mHighBallot = some h) : s.mHighBallot = some h := by
  have heq : (s.bump b).mHighBallot =
      if s.mHighBallot.any fun h => !areBallotsCompatible b h then none
      else s.mHighBallot := rfl
  rw [heq] at hh
  split at hh
  · cases hh
  · exact hh

theorem State.mem_bumpNotes {ev : Event} (h : ev ∈ s.bumpNotes b) :
    ev = .resetHighBallot s.mCommit ∨ ev = .startedBallotProtocol b := by
  rcases mem_append.1 h with h | h
  · split at h
    · exact .inl (mem_singleton.1 h)
    · exact absurd h not_mem_nil
  · split at h
    · exact .inr (mem_singleton.1 h)
    · exact absurd h not_mem_nil

/-- The state after the first half of `setAcceptCommit`. -/
def State.acceptedCommit (s : State) (c h : SCPBallot) : State :=
  (((s.note (.setAcceptCommit c h)).withValueOverride h.value).withCommit
    (some c)).withHighBallot (some h)

/-- The state in the middle of `enterConfirmPhase`: on a ballot that `h` is
below and compatible with. -/
def State.onConfirmBallot (s : State) (h : SCPBallot) : State :=
  if s.mCurrentBallot.any fun b => !areBallotsLessAndCompatible h b then
    (s.withPhase .confirm).bump h
  else s.withPhase .confirm

/-- The state after `enterConfirmPhase`. -/
def State.enteredConfirm (s : State) (h : SCPBallot) : State :=
  (s.onConfirmBallot h).withPrepared (s.onConfirmBallot h).mPrepared none

/-- The state after the first assignments of `setConfirmCommit`. -/
def State.confirmedCommit (s : State) (c h : SCPBallot) : State :=
  ((s.note (.setConfirmCommit c h)).withCommit (some c)).withHighBallot (some h)

/-- The assertions of `bumpToBallot` hold, or are compiled out. -/
def BumpAllowed (env : Env) (s : State) (b : SCPBallot) (check : Bool) :
    Prop :=
  env.ndebug = true ∨ (s.mPhase ≠ .externalize ∧
    (check = true → ∀ cur, s.mCurrentBallot = some cur → cur ≤ b))

theorem wp_bumpToBallot {check : Bool} {Q : Unit → State → Prop}
    (hQ : BumpAllowed env s b check → Q () (s.bump b))
    (hE : ¬ BumpAllowed env s b check → E (.dbgAbort .bumpToBallot) (s.note (.bumpToBallot b))) :
    wp (bumpToBallot env b check) Q E s := by
  unfold bumpToBallot
  simp only [wp_bind, wp_record, wp_get, wp_dbgAssert_pure, wp_onlyIf]
  have hphase : (s.note (.bumpToBallot b)).mPhase = s.mPhase := rfl
  have hcur : (s.note (.bumpToBallot b)).mCurrentBallot = s.mCurrentBallot := rfl
  have hmono : (s.mCurrentBallot.all fun cur => (compareBallots b cur).isGE) =
      true ↔ ∀ cur, s.mCurrentBallot = some cur → cur ≤ b := by
    cases s.mCurrentBallot <;> simp [isGE_compareBallots_iff]
  rw [hphase, hcur]
  refine ⟨fun h₁ => ⟨fun hc => ⟨fun h₂ => hQ ?_, fun hd h₂ => hE ?_⟩,
    fun hc => hQ ?_⟩, fun hd h₁ => hE ?_⟩
  · rcases h₁ with hd | h₁
    · exact .inl hd
    · rcases h₂ with hd | h₂
      · exact .inl hd
      · exact .inr ⟨by simpa using h₁, fun _ => hmono.1 h₂⟩
  · rintro (hd' | ⟨_, hle⟩)
    · simp [hd] at hd'
    · rw [hmono.2 (hle hc)] at h₂
      exact Bool.noConfusion h₂
  · rcases h₁ with hd | h₁
    · exact .inl hd
    · exact .inr ⟨by simpa using h₁, fun h => by simp [hc] at h⟩
  · rintro (hd' | ⟨hp, _⟩)
    · simp [hd] at hd'
    · simp [hp] at h₁

/-- `updateCurrentIfNeeded` never trips an assertion before `EXTERNALIZE`: it
only moves up. -/
theorem wp_updateCurrentIfNeeded (hphase : s.mPhase ≠ .externalize)
    (hbump : (∀ b, s.mCurrentBallot = some b → b < h) → Q true (s.bump h))
    (hkeep : ∀ b, s.mCurrentBallot = some b → h ≤ b → Q false s) :
    wp (updateCurrentIfNeeded env h) Q E s := by
  have hlt : (s.mCurrentBallot.all fun b => compareBallots b h == .lt) = true ↔
      ∀ b, s.mCurrentBallot = some b → b < h := by
    cases s.mCurrentBallot <;> simp [compareBallots_lt_iff]
  unfold updateCurrentIfNeeded
  simp only [wp_bind, wp_ite]
  refine ⟨fun hall => ?_, fun hall => ?_⟩
  · have hb := hlt.1 hall
    refine wp_bumpToBallot (fun _ => hbump hb) fun hno => absurd ?_ hno
    exact .inr ⟨hphase, fun _ b hcur => (hb b hcur).le⟩
  · rw [hlt] at hall
    simp only [not_forall, not_lt] at hall
    obtain ⟨b, hcur, hle⟩ := hall
    exact hkeep b hcur hle

/-! ## Statements -/

/-- `st` is the statement for the local state of `s`. -/
def StatementOf (env : Env) (s : State) (st : SCPStatement) : Prop :=
  st.nodeID = env.localNode.mNodeID ∧ st.slotIndex = env.slotIndex ∧
    currentPledges env s = some st.pledges

/-- A `PREPARE` statement is made in `PREPARE`. -/
theorem currentPledges_eq_prepare {prep : PreparePledge}
    (h : currentPledges env s = some (.prepare prep)) :
    s.mPhase = .prepare ∧ prep = ⟨env.localNode.mQSetHash, s.mCurrentBallot.getD .null, s.mPrepared,
        s.mPreparedPrime, (s.mCommit.map (·.counter)).getD 0,
        (s.mHighBallot.map (·.counter)).getD 0⟩ := by
  unfold currentPledges at h
  cases hp : s.mPhase with
  | prepare =>
    simp only [hp] at h
    exact ⟨rfl, (SCPPledges.prepare.inj (some.inj h)).symm⟩
  | confirm => simp [hp, bind_eq_some_iff] at h
  | externalize => simp [hp, bind_eq_some_iff] at h

/-- A `CONFIRM` statement is made in `CONFIRM`, with all four ballots set. -/
theorem currentPledges_eq_confirm {con : ConfirmPledge}
    (h : currentPledges env s = some (.confirm con)) :
    s.mPhase = .confirm ∧ ∃ p c hb, s.mCurrentBallot = some con.ballot ∧
      s.mPrepared = some p ∧ s.mCommit = some c ∧ s.mHighBallot = some hb ∧
      con = ⟨con.ballot, p.counter, c.counter, hb.counter, env.localNode.mQSetHash⟩ := by
  unfold currentPledges at h
  cases hp : s.mPhase with
  | prepare => simp [hp] at h
  | confirm =>
    simp only [hp, bind_eq_bind, bind_eq_some_iff] at h
    obtain ⟨b, hb, p, hpp, c, hc, hb', hh, heq⟩ := h
    obtain rfl := SCPPledges.confirm.inj (some.inj heq)
    exact ⟨rfl, p, c, hb', hb, hpp, hc, hh, rfl⟩
  | externalize =>
    simp [hp, bind_eq_some_iff] at h

/-- An `EXTERNALIZE` statement is made in `EXTERNALIZE`, from `c` and `h`. -/
theorem currentPledges_eq_externalize {ext : ExternalizePledge}
    (h : currentPledges env s = some (.externalize ext)) :
    s.mPhase = .externalize ∧ s.mCommit = some ext.commit ∧ ∃ hb, s.mHighBallot = some hb ∧
        ext = ⟨ext.commit, hb.counter, env.localNode.mQSetHash⟩ := by
  unfold currentPledges at h
  cases hp : s.mPhase with
  | prepare => simp [hp] at h
  | confirm => simp [hp, bind_eq_some_iff] at h
  | externalize =>
    simp only [hp, bind_eq_bind, bind_eq_some_iff] at h
    obtain ⟨c, hc, hb, hh, heq⟩ := h
    obtain rfl := SCPPledges.externalize.inj (some.inj heq)
    exact ⟨rfl, hc, hb, hh, rfl⟩

theorem wp_createStatement {Q : SCPStatement → State → Prop} (hQ : ∀ st, StatementOf env s st →
      Q st ((s.note (.createStatement s.localState)).note (.created st)))
    (hE : ∀ e, e.isCommon = true → E e (s.note (.createStatement s.localState))) :
    wp (createStatement env) Q E s := by
  unfold createStatement
  simp only [wp_bind, wp_record]
  refine readOnly_checkInvariants.wp (fun _ => ?_) hE
  rw [wp_deref]
  exact ⟨fun pl hpl => hQ _ ⟨rfl, rfl, hpl⟩, fun _ => hE _ rfl⟩

theorem wp_sendLatestEnvelope {Q : Unit → State → Prop}
    (hemit : ∀ e, s.mLastEnvelope = some e → s.mCurrentMessageLevel = 0 →
      s.mFullyValidated = true → s.mLastEnvelopeEmit ≠ some e →
      Q () ((s.withLastEnvelopeEmit e).note (.emitEnvelope e)))
    (hkeep : Q () s) : wp sendLatestEnvelope Q E s := by
  unfold sendLatestEnvelope
  simp only [wp_bind, wp_get]
  cases hlast : s.mLastEnvelope with
  | none => exact hkeep
  | some e =>
    simp only [wp_onlyIf, Bool.and_eq_true, beq_iff_eq, bne_iff_ne]
    exact ⟨fun h => hemit e hlast h.1.1 h.1.2 h.2, fun _ => hkeep⟩

/-! ## Confirming and accepting -/

theorem findNewC_le {newH : SCPBallot} (candidates : List SCPBallot) {newC : SCPBallot}
    (hnew : newC.counter ≠ 0 → newC ≤ newH ∧ newC.value = newH.value) :
    (findNewC env s b newH candidates newC).counter ≠ 0 →
      findNewC env s b newH candidates newC ≤ newH ∧
        (findNewC env s b newH candidates newC).value = newH.value := by
  induction candidates generalizing newC with
  | nil => exact hnew
  | cons ballot rest ih =>
    unfold findNewC
    split
    · exact hnew
    split
    · exact ih hnew
    · rename_i hcompat
      split
      · refine ih fun _ => ?_
        have hle : areBallotsLessAndCompatible ballot newH = true := by
          simpa using hcompat
        exact areBallotsLessAndCompatible_iff.1 hle
      · exact hnew

/-- A new `c` is only set where there was none, below the new `h`. -/
theorem newCommitFor_spec {newH : SCPBallot} {rest : List SCPBallot}
    (h : (newCommitFor env s newH rest).counter ≠ 0) :
    s.mCommit = none ∧ newCommitFor env s newH rest ≤ newH ∧
      (newCommitFor env s newH rest).value = newH.value := by
  unfold newCommitFor at h ⊢
  split at h
  · rename_i hset
    rw [if_pos hset]
    simp only [Bool.and_eq_true, isNone_iff_eq_none] at hset
    exact ⟨hset.1.1, findNewC_le _ (fun h0 => absurd rfl h0) h⟩
  · exact absurd rfl h

theorem State.enteredConfirm_mHighBallot (s : State) (c h : SCPBallot) :
    ((s.acceptedCommit c h).enteredConfirm h).mHighBallot = some h := by
  unfold State.enteredConfirm State.onConfirmBallot
  split
  · simp [State.withPrepared, State.bump, State.bumpedTo, State.note,
      State.withPhase, State.acceptedCommit, State.withHighBallot]
  · rfl

theorem State.enteredConfirm_mPhase (s : State) (h : SCPBallot) :
    (s.enteredConfirm h).mPhase = .confirm := by
  unfold State.enteredConfirm State.onConfirmBallot
  split <;> rfl

/-- The fields that entering `CONFIRM` keeps. -/
theorem State.enteredConfirm_kept (s : State) (h : SCPBallot) :
    (s.enteredConfirm h).mValueOverride = s.mValueOverride ∧
      (s.enteredConfirm h).mCommit = s.mCommit ∧
      (s.enteredConfirm h).mLatestEnvelopes = s.mLatestEnvelopes ∧
      (s.enteredConfirm h).mLastEnvelope = s.mLastEnvelope := by
  unfold State.enteredConfirm State.onConfirmBallot
  split <;> exact ⟨rfl, rfl, rfl, rfl⟩

/-- In `CONFIRM` the current ballot is at or above the accepted `h`. -/
theorem State.enteredConfirm_mCurrentBallot (s : State) (h : SCPBallot) :
    ∀ b, (s.enteredConfirm h).mCurrentBallot = some b → h ≤ b ∧ h.value = b.value := by
  intro b hb
  unfold State.enteredConfirm State.onConfirmBallot at hb
  split at hb
  · have hbh : some h = some b := hb
    cases hbh
    exact ⟨le_rfl, rfl⟩
  · rename_i hany
    have hcur : s.mCurrentBallot = some b := hb
    rw [hcur] at hany
    simpa using hany

/-- Entering `CONFIRM` logs at most a bump to `h`. -/
theorem State.enteredConfirm_log (s : State) (h : SCPBallot) :
    ∃ new, (s.enteredConfirm h).log = new ++ s.log ∧
      ∀ ev ∈ new, ev = .bumpToBallot h ∨ ev = .resetHighBallot s.mCommit ∨
        ev = .startedBallotProtocol h := by
  unfold State.enteredConfirm State.onConfirmBallot
  split
  · refine ⟨(s.withPhase .confirm).bumpNotes h ++ [.bumpToBallot h], ?_, ?_⟩
    · rw [append_assoc]
      exact State.bump_log (s.withPhase .confirm) h
    · intro ev hev
      rcases mem_append.1 hev with hev | hev
      · exact .inr (State.mem_bumpNotes hev)
      · exact .inl (mem_singleton.1 hev)
  · exact ⟨[], rfl, fun ev hev => absurd hev not_mem_nil⟩

theorem wp_enterConfirmPhase {Q : Unit → State → Prop} (hQ : Q () (s.enteredConfirm h)) :
    wp (enterConfirmPhase env h) Q E s := by
  unfold enterConfirmPhase
  simp only [wp_bind, wp_onlyIf]
  unfold State.enteredConfirm State.onConfirmBallot at hQ
  refine ⟨fun hany => ?_, fun hany => ?_⟩
  · rw [if_pos hany] at hQ
    refine wp_bumpToBallot (fun _ => hQ) fun hno => absurd ?_ hno
    exact .inr ⟨by simp [State.withPhase], fun h => Bool.noConfusion h⟩
  · rw [if_neg (by rw [hany]; exact Bool.false_ne_true)] at hQ
    exact hQ

/-- `updateAcceptCommit` never halts: it accepts `c` and `h`, and leaves
`PREPARE`. -/
theorem wp_updateAcceptCommit {c : SCPBallot}
    (hprepare : s.mPhase = .prepare → Q true ((s.acceptedCommit c h).enteredConfirm h))
    (hconfirm : s.mPhase ≠ .prepare →
      ∀ didWork, (didWork = false → s.mHighBallot = some h ∧ s.mCommit = some c) →
      Q didWork (s.acceptedCommit c h)) :
    wp (updateAcceptCommit env c h) Q E s := by
  have hsame : s.mHighBallot = some h → s.mCommit = some c → s.acceptedCommit c h =
        (s.note (.setAcceptCommit c h)).withValueOverride h.value := by
    intro hh hc
    unfold State.acceptedCommit State.withHighBallot State.withCommit
    rw [← hh, ← hc]
    rfl
  unfold updateAcceptCommit
  simp only [wp_bind, wp_record, wp_modify, wp_get]
  -- whether or not anything changed, `c` and `h` are now the accepted ones
  refine wp.imp (Q := fun _ s' => s' = s.acceptedCommit c h)
    (wp_onlyIf.2 ⟨fun _ => rfl, fun hch => ?_⟩) fun _ s₁ hs₁ => ?_
  · have hboth : s.mHighBallot = some h ∧ s.mCommit = some c := by
      simpa [State.withValueOverride, State.note] using hch
    exact (hsame hboth.1 hboth.2).symm
  · subst hs₁
    refine wp_onlyIf.2 ⟨fun hp => ?_, fun hp => ?_⟩
    · have hp' : s.mPhase = .prepare := by
        simpa [State.withValueOverride, State.note] using hp
      refine wp_enterConfirmPhase ?_
      rw [hp, Bool.or_true]
      exact hprepare hp'
    · have hp' : s.mPhase ≠ .prepare := by
        simpa [State.withValueOverride, State.note] using hp
      refine hconfirm hp' _ fun hdid => ?_
      simpa [State.withValueOverride, State.note, hp'] using hdid

/-- An interval that was found satisfies the predicate. -/
theorem findExtendedInterval_pred {pred : Interval → Bool}
    (boundaries : List UInt32) {candidate : Interval}
    (hcand : candidate.1 ≠ 0 → pred candidate = true) :
    (findExtendedInterval pred boundaries candidate).1 ≠ 0 →
      pred (findExtendedInterval pred boundaries candidate) = true := by
  induction boundaries generalizing candidate with
  | nil => exact hcand
  | cons b boundaries ih =>
    unfold findExtendedInterval
    split
    · split
      · exact ih fun _ => by assumption
      · exact ih hcand
    · split
      · exact ih hcand
      · split
        · exact ih fun _ => by assumption
        · exact hcand

/-- `updateCurrentValue` moves up to `ballot`, keeping to the value of `c`, or
does nothing; it checks the invariants where it may have changed something. -/
theorem wp_updateCurrentValue (hphase : s.mPhase ≠ .externalize)
    (hbump : (∀ cur, s.mCurrentBallot = some cur → cur < ballot) →
      (∀ cur, s.mCurrentBallot = some cur → ∀ c, s.mCommit = some c → c.value = ballot.value) →
      wp (checkInvariants env) (fun _ => Q true) E (s.bump ballot))
    (hcheck : wp (checkInvariants env) (fun _ => Q false) E s) (hkeep : Q false s)
    (hE : (∃ cur, s.mCurrentBallot = some cur ∧ ballot < cur) →
      E (.dbgAbort .updateCurrentValue) s) :
    wp (updateCurrentValue env ballot) Q E s := by
  have hbumped : (∀ cur, s.mCurrentBallot = some cur → cur < ballot) →
      (∀ cur, s.mCurrentBallot = some cur → ∀ c, s.mCommit = some c → c.value = ballot.value) →
      wp (do
        bumpToBallot env ballot true
        checkInvariants env
        pure true) Q E s := by
    intro hlt hcommit
    rw [wp_bind]
    refine wp_bumpToBallot (fun _ => ?_) fun hno => absurd ?_ hno
    · rw [wp_bind]
      exact hbump hlt hcommit
    · exact .inr ⟨hphase, fun _ cur hcur => (hlt cur hcur).le⟩
  unfold updateCurrentValue
  simp only [wp_bind, wp_ite]
  refine ⟨fun _ => hkeep, fun _ => ?_⟩
  cases hcur : s.mCurrentBallot with
  | none =>
    have h := hbumped (by simp [hcur]) (by simp [hcur])
    exact h
  | some cur =>
    simp only [wp_bind, wp_dbgAssert_pure, wp_ite]
    refine ⟨fun _ => ⟨fun _ => hkeep, fun hc => ?_⟩, fun _ hgt => hE ⟨cur, hcur, ?_⟩⟩
    swap
    · rw [← not_le, ← isLE_compareBallots_iff, hgt]
      exact Bool.false_ne_true
    have hcommit : ∀ c, s.mCommit = some c → c.value = ballot.value := by
      intro c hsc
      simpa [hsc] using hc
    split
    · rename_i hlt
      have h := hbumped (fun cur' h' => by
          rw [hcur] at h'
          exact some.inj h' ▸ compareBallots_lt_iff.1 hlt)
        (fun _ _ => hcommit)
      exact h
    · exact hkeep
    · rw [wp_bind]
      exact hcheck

/-! ## The counters asked for -/

/-- The counter of the local ballot, 0 when there is none -/
def State.localCounter (s : State) : UInt32 := (s.mCurrentBallot.map (·.counter)).getD 0

/-- The ballot that `bumpState(value, n)` asks for is not below the current one. -/
def AsksForward (s : State) (value : Value) (n : UInt32) : Prop :=
  ∀ cur, s.mCurrentBallot = some cur → cur ≤ ⟨n, s.mValueOverride.getD value⟩

theorem asksForward_of_lt {n : UInt32} (h : s.localCounter < n) (value : Value) :
    AsksForward s value n := by
  intro cur hcur
  rw [State.localCounter, hcur] at h
  exact SCPBallot.le_def.mpr (.inl h)

/-- The counters that `attemptBump` looks at are above the local one. -/
theorem lt_of_bumpCounter {envs : EnvelopeMap} {m n : UInt32}
    (h : bumpCounter env envs m = some n) : m < n := by
  have hmem := mem_of_find?_eq_some h
  unfold setAscending at hmem
  rw [mem_insertionSort, mem_dedup, mem_filter] at hmem
  exact of_decide_eq_true hmem.2

/-- The counter that a call computes is the one it should be: `counter + 1` does not wrap, and an
explicit counter is above the current one. -/
def Call.InRange (s : State) : Call → Prop
  | .processEnvelope _ => True
  | .bumpState _ force => force = true → s.localCounter ≠ uint32Max
  | .abandonBallot n => if n = 0 then s.localCounter ≠ uint32Max else s.localCounter < n

/-- The counter that `bumpState` computes from the current ballot -/
def State.nextCounter (s : State) : UInt32 := (s.mCurrentBallot.map fun b => b.counter + 1).getD 1

theorem localCounter_lt_next (h : s.localCounter ≠ uint32Max) : s.localCounter < s.nextCounter := by
  unfold State.localCounter State.nextCounter at *
  cases hcur : s.mCurrentBallot with
  | none => exact UInt32.lt_iff_toNat_lt.mpr Nat.one_pos
  | some b =>
    rw [hcur, map_some] at h
    have hlt : b.counter.toNat + 1 < 2 ^ 32 := by
      have hne : b.counter.toNat ≠ uint32Max.toNat := fun h' => h (UInt32.toNat_inj.mp h')
      have hmax : uint32Max.toNat = 4294967295 := rfl
      have := b.counter.toNat_lt
      omega
    rw [map_some, map_some, getD_some, getD_some,
      UInt32.lt_iff_toNat_lt, UInt32.toNat_add, UInt32.toNat_one, Nat.mod_eq_of_lt hlt]
    exact Nat.lt_succ_self _

end EssaCore.Scp
