import EssaCore.Scp.AttemptBump
import EssaCore.Scp.BallotRules

/-!
# The current ballot moves forward (`scp/BallotProtocol.cpp:316–494`)

`updateCurrentValue` asserts that it is not asked to go back, and `bumpToBallot`
that "we should move mCurrentBallot monotonically only". The log of a run shows
that the ballot does move up, `setAcceptCommit` apart (`forward_rules`); and no
call trips one of the two assertions as long as the counters it computes stay
in the range of a `uint32` (`Call.InRange`, `haltsForward_call`).

The range is needed: an `EXTERNALIZE` of another node takes the counter to
`UINT32_MAX`, and the next timer wraps it (`abandonBallot_wraps`).

- `Forward` — each move in the log is to a ballot that is not lower, or is the
  move to `h` in `setAcceptCommit`;
- `ballot_asked_forward` — whole runs.
-/

open List

namespace EssaCore.Scp

open EssaCore.Lib

/-! ## Moves in the log -/

/-- The ballot of the last move -/
def ballotOf : List Event → Option SCPBallot
  | [] => none
  | .bumpToBallot b :: _ => some b
  | _ :: log => ballotOf log

/-- Each move is forward, or to the `h` of the `setAcceptCommit` it is part of. -/
def Forward : List Event → Prop
  | [] => True
  | .bumpToBallot b :: log =>
    Forward log ∧ ((∀ cur, ballotOf log = some cur → cur ≤ b) ∨
      ∃ c, log.head? = some (.setAcceptCommit c b))
  | _ :: log => Forward log

/-- The log has the moves of the current ballot, and they are forward. -/
def Tracks (s : State) : Prop :=
  s.mCurrentBallot = ballotOf s.log ∧ Forward s.log

theorem ballotOf_append {new log : List Event} (hnew : ∀ b, .bumpToBallot b ∉ new) :
    ballotOf (new ++ log) = ballotOf log := by
  induction new with
  | nil => rfl
  | cons ev new ih =>
    have hrest := ih fun b hb => hnew b (mem_cons_of_mem _ hb)
    cases ev with
    | bumpToBallot b => exact absurd mem_cons_self (hnew b)
    | _ => exact hrest

theorem forward_append {new log : List Event} (hnew : ∀ b, .bumpToBallot b ∉ new) :
    Forward (new ++ log) ↔ Forward log := by
  induction new with
  | nil => rfl
  | cons ev new ih =>
    have hrest := ih fun b hb => hnew b (mem_cons_of_mem _ hb)
    cases ev with
    | bumpToBallot b => exact absurd mem_cons_self (hnew b)
    | _ => exact hrest

/-- The log grows, and keeps track of the current ballot. -/
structure ForwardStep (s s' : State) : Prop where
  suffix : s.log <:+ s'.log
  tracks : Tracks s → Tracks s'

namespace ForwardStep

variable {s s' : State}

theorem refl (s : State) : ForwardStep s s := ⟨suffix_rfl, id⟩

theorem trans {s₁ s₂ s₃ : State} (h₁ : ForwardStep s₁ s₂) (h₂ : ForwardStep s₂ s₃) :
    ForwardStep s₁ s₃ :=
  ⟨h₁.suffix.trans h₂.suffix, fun h => h₂.tracks (h₁.tracks h)⟩

/-- An update of other data, with events that are not moves -/
theorem of_quiet (new : List Event) (hlog : s'.log = new ++ s.log)
    (hnew : ∀ b, .bumpToBallot b ∉ new) (hcur : s'.mCurrentBallot = s.mCurrentBallot) :
    ForwardStep s s' := by
  refine ⟨⟨new, hlog.symm⟩, fun hs => ⟨?_, ?_⟩⟩
  · rw [hcur, hlog, ballotOf_append hnew, hs.1]
  · rw [hlog, forward_append hnew]
    exact hs.2

theorem silent (hlog : s'.log = s.log) (hcur : s'.mCurrentBallot = s.mCurrentBallot) :
    ForwardStep s s' :=
  of_quiet [] hlog (fun _ => not_mem_nil) hcur

theorem event {ev : Event} (hlog : s'.log = ev :: s.log) (hev : ∀ b, .bumpToBallot b ≠ ev)
    (hcur : s'.mCurrentBallot = s.mCurrentBallot) : ForwardStep s s' :=
  of_quiet [ev] hlog (fun b hb => hev b (mem_singleton.mp hb)) hcur

/-- A move to a ballot that is not below the current one, or to the accepted `h` -/
theorem bump {b : SCPBallot} (h : (∀ cur, s.mCurrentBallot = some cur → cur ≤ b) ∨
    ∃ c, s.log.head? = some (.setAcceptCommit c b)) : ForwardStep s (s.bump b) := by
  have hlog := State.bump_log s b
  have hnotes : ∀ b', .bumpToBallot b' ∉ s.bumpNotes b := by
    intro b' hb'
    rcases State.mem_bumpNotes hb' with h | h <;> cases h
  refine ⟨⟨s.bumpNotes b ++ [.bumpToBallot b], ?_⟩, fun hs => ⟨?_, ?_⟩⟩
  · rw [hlog, append_assoc]
    rfl
  · rw [hlog, ballotOf_append hnotes]
    rfl
  · rw [hlog, forward_append hnotes]
    exact ⟨hs.2, hs.1 ▸ h⟩

end ForwardStep

variable {s : State}

theorem BumpReason.below {env : Env} {allowed : Value → Prop} {b : SCPBallot}
    (h : BumpReason env allowed s b) : Below s b := by
  cases h with
  | override _ _ hbelow | high _ _ hbelow | value _ _ _ _ hbelow => exact hbelow

/-- **Every update moves the ballot forward**, `setAcceptCommit` apart. -/
theorem forward_rules (env : Env) : Rules env (fun _ => True) (fun _ => True) ForwardStep where
  refl := ForwardStep.refl
  trans _ _ _ := ForwardStep.trans
  log_suffix _ _ h := h.suffix
  note _ _ hev := .event rfl (by rintro b rfl; exact Bool.noConfusion hev) rfl
  level _ _ := .silent rfl rfl
  didHear _ _ _ _ _ := .event rfl (fun _ h => Event.noConfusion h) rfl
  notHeard _ _ _ _ := .silent rfl rfl
  fullyValidated _ := .silent rfl rfl
  latest _ _ _ _ := .silent rfl rfl
  createStatement _ := .event rfl (fun _ h => Event.noConfusion h) rfl
  created _ _ _ := .event rfl (fun _ h => Event.noConfusion h) rfl
  lastEnvelope _ _ _ _ _ hcreated h := (hcreated.trans h).trans (.silent rfl rfl)
  emit _ _ _ := .event rfl (fun _ h => Event.noConfusion h) rfl
  prepared _ _ _ _ := .silent rfl rfl
  clearCommit _ _ _ := .silent rfl rfl
  confirmPrepared _ _ _ := .event rfl (fun _ h => Event.noConfusion h) rfl
  highBallot _ _ _ _ := .silent rfl rfl
  commit _ _ _ _ := .silent rfl rfl
  bump s b hreason := .bump (.inl fun cur hcur => (hreason.below cur hcur).le)
  enterConfirm s c h _ _ := by
    have haccept : ForwardStep s ((s.acceptedCommit c h).withPhase .confirm) :=
      .event rfl (fun _ h => Event.noConfusion h) rfl
    have hballot : ForwardStep s ((s.acceptedCommit c h).onConfirmBallot h) := by
      unfold State.onConfirmBallot
      split
      · -- the one move that may go back: it directly follows its `setAcceptCommit`
        exact haccept.trans (.bump (.inr ⟨c, rfl⟩))
      · exact haccept
    exact hballot.trans (.silent rfl rfl)
  acceptCommit _ _ _ _ _ _ _ _ := .event rfl (fun _ h => Event.noConfusion h) rfl
  confirmCommit _ _ _ _ _ _ _ _ := .event rfl (fun _ h => Event.noConfusion h) rfl
  externalize _ _ _ _ _ _ _ _ := .silent rfl rfl
  valueExternalized _ _ _ _ h h' :=
    (h.trans h').trans (.event rfl (fun _ h => Event.noConfusion h) rfl)

/-! ## What a call asks for -/

/-- Not a failed assertion about the current ballot -/
def Halt.IsForward (e : Halt) : Prop :=
  e ≠ .dbgAbort .updateCurrentValue ∧ e ≠ .dbgAbort .bumpToBallot

theorem isForward_of_isCommon {e : Halt} (h : e.isCommon = true) : e.IsForward := by
  refine ⟨?_, ?_⟩ <;> rintro rfl <;> cases h

theorem haltsForward_call {env : Env} {c : Call} {s' : State} {e : Halt} (hc : c.InRange s)
    (h : c.run env s = .error e s') : e.IsForward := by
  have hstays := (forward_rules env).stays_call (fun _ => isForward_of_isCommon)
    ⟨Halt.noConfusion, Halt.noConfusion⟩
    (fun adv hadv => (forward_rules env).respects_attemptBumpLoop
      (fun _ => isForward_of_isCommon) hadv (fun _ => trivial)
      ⟨Halt.noConfusion, Halt.noConfusion⟩ _)
    (fun _ => trivial) c (fun _ _ => trivial) (fun _ _ _ => trivial)
    fun hnot => absurd hc hnot
  unfold Rules.Stays wp at hstays
  rw [h] at hstays
  exact hstays.1

/-- The counter that a call passes to `bumpState(value, n)` -/
def Call.counter (s : State) : Call → Option UInt32
  | .processEnvelope _ => none
  | .bumpState _ force =>
    if !force && s.mCurrentBallot.isSome then none else some s.nextCounter
  | .abandonBallot n => some (if n = 0 then s.nextCounter else n)

/-- In range, the counter a call computes is above the current one: it did not wrap. -/
theorem localCounter_lt_counter {c : Call} {n : UInt32} (hc : c.InRange s)
    (h : c.counter s = some n) : s.localCounter < n := by
  cases c with
  | processEnvelope e => cases h
  | bumpState v force =>
    rw [Call.counter] at h
    split at h
    · cases h
    · rename_i hgo
      cases h
      refine localCounter_lt_next ?_
      cases force with
      | true => exact hc rfl
      | false =>
        -- without a ballot the counter is 0
        have hnone : s.mCurrentBallot = none := by simpa using hgo
        rw [State.localCounter, hnone]
        decide
  | abandonBallot m =>
    cases h
    by_cases hm : m = 0
    · rw [Call.InRange, if_pos hm] at hc
      rw [if_pos hm]
      exact localCounter_lt_next hc
    · rw [Call.InRange, if_neg hm] at hc
      rwa [if_neg hm]

/-! ## Whole runs -/

/-- Every call of the run is made while the counters are in range. -/
def Timely : List (Env × Call) → State → Prop
  | [], _ => True
  | c :: calls, s => c.2.InRange s ∧ Timely calls (c.2.after c.1 s)

theorem Timely.inRange {pre post : List (Env × Call)} {c : Env × Call}
    (h : Timely (pre ++ c :: post) s) : c.2.InRange (runCalls pre s) := by
  induction pre generalizing s with
  | nil => exact h.1
  | cons d pre ih => exact ih h.2

/-- In a run whose counters stay in range, and in every build: a call asks for a counter above
the current one, as `attemptBump` does in any state; no call trips an assertion about the current
ballot; and the current ballot moves forward, `setAcceptCommit` apart. -/
theorem ballot_asked_forward (isValidator : Bool) (calls : List (Env × Call))
    (hcalls : Timely calls (State.init isValidator)) :
    (∀ pre c post, calls = pre ++ c :: post →
      let s := runCalls pre (State.init isValidator)
      (∀ n, c.2.counter s = some n → s.localCounter < n ∧ ∀ v, AsksForward s v n) ∧
      ∀ e s', c.2.run c.1 s = .error e s' → e.IsForward) ∧
    (∀ (env : Env) (s : State) (n : UInt32),
      bumpCounter env s.mLatestEnvelopes s.localCounter = some n →
        s.localCounter < n ∧ ∀ v, AsksForward s v n) ∧
    Tracks (runCalls calls (State.init isValidator)) := by
  refine ⟨fun pre c post hsplit => ?_, fun env s n hn => ?_, ?_⟩
  · have hrange : c.2.InRange (runCalls pre (State.init isValidator)) := by
      rw [hsplit] at hcalls
      exact hcalls.inRange
    refine ⟨fun n hn => ?_, fun e s' hrun => haltsForward_call hrange hrun⟩
    have hlt := localCounter_lt_counter hrange hn
    exact ⟨hlt, asksForward_of_lt hlt⟩
  · have hlt := lt_of_bumpCounter hn
    exact ⟨hlt, asksForward_of_lt hlt⟩
  · have hstep := Rules.runCalls forward_rules ForwardStep.refl calls (State.init isValidator)
    exact hstep.tracks ⟨rfl, trivial⟩

/-- A node that needs both of its peers -/
def threeOfThreeEnv : Env where
  localNode := ⟨1, true, .mk 3 [1, 2, 3] [], 7⟩
  slotIndex := 1
  ndebug := false
  getQSet h := if h = 7 then some (.mk 3 [1, 2, 3] []) else none
  validateValue _ := .fullyValidatedValue
  latestCompositeCandidate := []
  signEnvelope _ := []

/-- Node 2 externalizes. -/
def externalizeOfTwo : Env × Call :=
  (threeOfThreeEnv, .processEnvelope ⟨⟨2, 1, .externalize ⟨⟨1, [1]⟩, 1, 7⟩⟩, []⟩)

theorem ballot_asked_forward_started :
    let start : Env × Call := (threeOfThreeEnv, .bumpState [1] false)
    let timer : Env × Call := (threeOfThreeEnv, .abandonBallot 0)
    let s := runCalls [start, timer] (State.init true)
    s.mCurrentBallot = some ⟨2, [1]⟩ ∧ Tracks s := by
  have hrange : Timely [(threeOfThreeEnv, .bumpState [1] false),
      (threeOfThreeEnv, .abandonBallot 0)] (State.init true) := by
    refine ⟨fun h => absurd h Bool.false_ne_true, ?_, trivial⟩
    rw [Call.InRange]
    decide +kernel
  exact ⟨by decide +kernel, (ballot_asked_forward true _ hrange).2.2⟩

/-- **The timer wraps the counter**: node 2 is v-blocking, so its `EXTERNALIZE` takes the node to
counter `UINT32_MAX`; the timer asks for counter 0, and the assertion of `updateCurrentValue`
fails. -/
theorem abandonBallot_wraps :
    let s := runCalls [externalizeOfTwo] (State.init true)
    s.mCurrentBallot = some ⟨uint32Max, [1]⟩ ∧
    (Call.abandonBallot 0).counter s = some 0 ∧
    ∃ s', (Call.abandonBallot 0).run threeOfThreeEnv s =
      .error (.dbgAbort .updateCurrentValue) s' := by
  intro s
  exact ⟨by decide +kernel, by decide +kernel, error_of_halt (by decide +kernel)⟩

end EssaCore.Scp
