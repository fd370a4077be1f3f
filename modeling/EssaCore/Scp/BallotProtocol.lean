import EssaCore.Lib.StateMachine
import EssaCore.Scp.LocalNode

/-!
# The ballot protocol (`scp/BallotProtocol.cpp`, `scp/Slot.cpp`)

A translation of `BallotProtocol` for one slot. A call runs in
`EStateM Halt State`: it may return, or halt the node (a failed assertion, a
null dereference, an exception), and a halt keeps the state reached so far.

- The recursion `advanceSlot → attempt* → set* → emitCurrentStateStatement →
  processEnvelope → advanceSlot` is opened: every function that may re-enter
  takes `advanceSlot` as its argument `adv`, and `advanceSlot` ties the knot on
  the number of nested calls still allowed (`MAX_ADVANCE_SLOT_RECURSION`).
- What the node tells its surroundings is recorded, newest first, in
  `State.log`: the callbacks of `SCPDriver`, and the places at which the source
  writes its debug log.
- The node's surroundings are in `Env`: what `SCPDriver` and `LocalNode` answer
  during one call. They may change from call to call.
-/

namespace EssaCore.Scp

open EssaCore.Lib

/-! ## State -/

inductive SCPPhase where
  | prepare
  | confirm
  | externalize
deriving DecidableEq, Repr

/-- `SCPDriver::ValidationLevel`. -/
inductive ValidationLevel where
  | invalidValue
  | maybeValidValue
  | fullyValidatedValue
deriving DecidableEq, Repr

/-- `SCP::EnvelopeState`. -/
inductive EnvelopeState where
  | invalid
  | valid
deriving DecidableEq, Repr

/-- The places at which the source asserts with `dbgAssert`. -/
inductive AssertSite where
  | processEnvelope
  | updateCurrentValue
  | bumpToBallot
  | checkInvariants
  | attemptPreparedAccept
  | setPreparedAccept
  | setPreparedConfirmed
deriving DecidableEq, Repr

/-- Why a call does not return. -/
inductive Halt where
  /-- a `dbgAssert` failed in a build with assertions -/
  | dbgAbort (site : AssertSite)
  | nullDeref
  | movedToABadState
  | maximumNumberOfTransitions
  /-- the `attemptBump` loop did not end within its rounds -/
  | bumpLoop
deriving DecidableEq, Repr

/-- The text of the `std::runtime_error`, where there is one. -/
def Halt.what : Halt → Option String
  | .movedToABadState => some "moved to a bad state (ballot protocol)"
  | .maximumNumberOfTransitions =>
    some "maximum number of transitions reached in advanceSlot"
  | _ => none

/-- The part of the state that `createStatement` reads. -/
structure LocalState where
  mCurrentBallot : Option SCPBallot
  mPrepared : Option SCPBallot
  mPreparedPrime : Option SCPBallot
  mHighBallot : Option SCPBallot
  mCommit : Option SCPBallot
  mPhase : SCPPhase
deriving DecidableEq, Repr

/-- What a node does, in the order in which it does it. -/
inductive Event where
  -- callbacks of `SCPDriver`
  | startedBallotProtocol (b : SCPBallot)
  | acceptedBallotPrepared (b : SCPBallot)
  | confirmedBallotPrepared (h : SCPBallot)
  | acceptedCommit (h : SCPBallot)
  | valueExternalized (v : Value)
  | ballotDidHearFromQuorum (b : SCPBallot)
  | emitEnvelope (e : SCPEnvelope)
  | startTimer (counter : UInt32)
  | stopTimer
  | stopNomination
  -- debug log lines of the source
  | bumpToBallot (b : SCPBallot)
  | setPreparedAccept (b : SCPBallot)
  | setPreparedConfirmed (h : SCPBallot)
  | setAcceptCommit (c h : SCPBallot)
  | setConfirmCommit (c h : SCPBallot)
  -- observation points of the model
  | createStatement (l : LocalState)
  | created (st : SCPStatement)
  | resetHighBallot (c : Option SCPBallot)
  | clearCommit (phase : SCPPhase)
deriving DecidableEq, Repr

/-- The data members of `BallotProtocol`, with `Slot::mFullyValidated`. -/
structure State where
  mCurrentBallot : Option SCPBallot
  mPrepared : Option SCPBallot
  mPreparedPrime : Option SCPBallot
  mHighBallot : Option SCPBallot
  mCommit : Option SCPBallot
  mLatestEnvelopes : EnvelopeMap
  mPhase : SCPPhase
  mValueOverride : Option Value
  mCurrentMessageLevel : Nat
  mLastEnvelope : Option SCPEnvelope
  mLastEnvelopeEmit : Option SCPEnvelope
  mHeardFromQuorum : Bool
  mFullyValidated : Bool
  log : List Event

/-- A fresh slot. `Slot` starts fully validated on validators only. -/
def State.init (isValidator : Bool) : State where
  mCurrentBallot := none
  mPrepared := none
  mPreparedPrime := none
  mHighBallot := none
  mCommit := none
  mLatestEnvelopes := ∅
  mPhase := .prepare
  mValueOverride := none
  mCurrentMessageLevel := 0
  mLastEnvelope := none
  mLastEnvelopeEmit := none
  mHeardFromQuorum := false
  mFullyValidated := isValidator
  log := []

def State.localState (s : State) : LocalState where
  mCurrentBallot := s.mCurrentBallot
  mPrepared := s.mPrepared
  mPreparedPrime := s.mPreparedPrime
  mHighBallot := s.mHighBallot
  mCommit := s.mCommit
  mPhase := s.mPhase

/-- What `LocalNode` holds. -/
structure LocalNode where
  mNodeID : NodeID
  mIsValidator : Bool
  mQSet : SCPQuorumSet
  mQSetHash : Hash

/-- The node's surroundings during one call. -/
structure Env where
  localNode : LocalNode
  slotIndex : UInt64
  /-- built with `NDEBUG`: `dbgAssert` does nothing -/
  ndebug : Bool
  getQSet : Hash → Option SCPQuorumSet
  validateValue : Value → ValidationLevel
  latestCompositeCandidate : Value
  signEnvelope : SCPStatement → Signature

abbrev M := EStateM Halt State

/-! ## Primitives -/

/-- `*ptr`. -/
def deref {α : Type} : Option α → M α
  | some a => pure a
  | none => throw .nullDeref

/-- `dbgAssert(cond)`: the condition is not even evaluated under `NDEBUG`. -/
def dbgAssert (env : Env) (site : AssertSite) (cond : M Bool) : M Unit :=
  if env.ndebug then pure ()
  else do
    if ← cond then pure () else throw (.dbgAbort site)

/-- `if (cond) { body }`. -/
def onlyIf (cond : Bool) (body : M Unit) : M Unit :=
  if cond then body else pure ()

namespace State

def note (s : State) (ev : Event) : State := { s with log := ev :: s.log }

def withCommit (s : State) (c : Option SCPBallot) : State :=
  { s with mCommit := c }

def withHighBallot (s : State) (h : Option SCPBallot) : State :=
  { s with mHighBallot := h }

def withPrepared (s : State) (p p' : Option SCPBallot) : State :=
  { s with mPrepared := p, mPreparedPrime := p' }

def withPhase (s : State) (phase : SCPPhase) : State :=
  { s with mPhase := phase }

def withValueOverride (s : State) (v : Value) : State :=
  { s with mValueOverride := some v }

def withLevel (s : State) (level : Nat) : State :=
  { s with mCurrentMessageLevel := level }

def withHeardFromQuorum (s : State) (heard : Bool) : State :=
  { s with mHeardFromQuorum := heard }

def withFullyValidated (s : State) (validated : Bool) : State :=
  { s with mFullyValidated := validated }

def withLatestEnvelope (s : State) (e : SCPEnvelope) : State :=
  { s with mLatestEnvelopes := s.mLatestEnvelopes.insert e.statement.nodeID e }

def withLastEnvelope (s : State) (e : SCPEnvelope) : State :=
  { s with mLastEnvelope := some e }

def withLastEnvelopeEmit (s : State) (e : SCPEnvelope) : State :=
  { s with mLastEnvelopeEmit := some e }

end State

def record (ev : Event) : M Unit := modify (·.note ev)

/-- The elements of a `std::set`, from the highest to the lowest. -/
def setDescending {α : Type} [DecidableEq α] [LE α] [DecidableLE α]
    (l : List α) : List α :=
  l.dedup.insertionSort (· ≥ ·)

/-- The elements of a `std::set`, from the lowest to the highest. -/
def setAscending {α : Type} [DecidableEq α] [LE α] [DecidableLE α]
    (l : List α) : List α :=
  l.dedup.insertionSort (· ≤ ·)

/-! ## Statements -/

/-- `compareBallots` on pointers: a null ballot is the lowest. -/
def comparePtrs : Option SCPBallot → Option SCPBallot → Ordering
  | some b1, some b2 => compareBallots b1 b2
  | some _, none => .gt
  | none, some _ => .lt
  | none, none => .eq

/-- `isNewerStatement`: the total order on the statements of one node. -/
def isNewerStatement (oldst st : SCPStatement) : Bool :=
  match oldst.pledges, st.pledges with
  -- can't have duplicate EXTERNALIZE statements
  | .externalize _, .externalize _ => false
  | .confirm oldC, .confirm c =>
    -- sorted by (b, p, p', h) (p' = 0 implicitely)
    match compareBallots oldC.ballot c.ballot with
    | .lt => true
    | .eq =>
      if oldC.nPrepared = c.nPrepared then oldC.nH < c.nH
      else oldC.nPrepared < c.nPrepared
    | .gt => false
  | .prepare oldPrep, .prepare prep =>
    -- lexicographical order (b, p, p', h)
    match compareBallots oldPrep.ballot prep.ballot with
    | .lt => true
    | .eq =>
      match comparePtrs oldPrep.prepared prep.prepared with
      | .lt => true
      | .eq =>
        match comparePtrs oldPrep.preparedPrime prep.preparedPrime with
        | .lt => true
        | .eq => oldPrep.nH < prep.nH
        | .gt => false
      | .gt => false
    | .gt => false
  | oldp, p => oldp.type.rank < p.type.rank

/-- `Slot::getQuorumSetFromStatement`. -/
def getQuorumSetFromStatement (env : Env) (st : SCPStatement) :
    Option SCPQuorumSet :=
  match st.pledges with
  | .externalize _ => some (getSingletonQSet st.nodeID)
  | .prepare p => env.getQSet p.quorumSetHash
  | .confirm c => env.getQSet c.quorumSetHash

/-- The pledge checks of `isStatementSane`. -/
def arePledgesSane (pledges : SCPPledges) (self : Bool) : Bool :=
  match pledges with
  | .prepare p =>
    -- self is allowed to have b = 0 (as long as it never gets emitted)
    (self || p.ballot.counter > 0) &&
    (match p.preparedPrime, p.prepared with
      | some p', some p => areBallotsLessAndIncompatible p' p
      | _, _ => true) &&
    (p.nH == 0 || p.prepared.any fun prepared => p.nH ≤ prepared.counter) &&
    -- c != 0 -> c <= h <= b
    (p.nC == 0 ||
      (p.nH != 0 && decide (p.ballot.counter ≥ p.nH) && decide (p.nH ≥ p.nC)))
  | .confirm c =>
    -- c <= h <= b
    decide (c.ballot.counter > 0) && decide (c.nH ≤ c.ballot.counter) &&
      decide (c.nCommit ≤ c.nH)
  | .externalize e =>
    decide (e.commit.counter > 0) && decide (e.nH ≥ e.commit.counter)

def isStatementSane (env : Env) (st : SCPStatement) (self : Bool) : Bool :=
  match getQuorumSetFromStatement env st with
  | none => false
  | some qSet => isQuorumSetSane qSet false && arePledgesSane st.pledges self

/-- The values that `validateValues` looks at. -/
def valuesToValidate : SCPPledges → List Value
  | .prepare prep =>
    (if prep.ballot.counter ≠ 0 then [prep.ballot.value] else []) ++
      prep.prepared.toList.map (·.value)
  | .confirm c => [c.ballot.value]
  | .externalize e => [e.commit.value]

/-- `validateValues`: the last value that is not fully validated decides. -/
def validateValues (env : Env) (st : SCPStatement) : ValidationLevel :=
  (setAscending (valuesToValidate st.pledges)).foldl
    (fun res v =>
      match env.validateValue v with
      | .fullyValidatedValue => res
      | tr => tr)
    .fullyValidatedValue

/-- `getWorkingBallot`. -/
def getWorkingBallot : SCPPledges → SCPBallot
  | .prepare p => p.ballot
  | .confirm c => ⟨c.nCommit, c.ballot.value⟩
  | .externalize e => e.commit

/-! ## Federated voting -/

def federatedAccept (env : Env) (voted accepted : SCPStatement → Bool)
    (envs : EnvelopeMap) : Bool :=
  -- do the nodes that claim to accept the statement form a v-blocking set?
  isVBlocking env.localNode.mQSet envs accepted ||
  -- do the nodes that accepted or voted for it form a quorum?
  isQuorum env.localNode.mQSet envs (getQuorumSetFromStatement env)
    fun st => accepted st || voted st

def federatedRatify (env : Env) (voted : SCPStatement → Bool)
    (envs : EnvelopeMap) : Bool :=
  isQuorum env.localNode.mQSet envs (getQuorumSetFromStatement env) voted

/-- `hasPreparedBallot`. -/
def hasPreparedBallot (ballot : SCPBallot) (st : SCPStatement) : Bool :=
  match st.pledges with
  | .prepare p =>
    (p.prepared.any fun prepared =>
      areBallotsLessAndCompatible ballot prepared) ||
    (p.preparedPrime.any fun preparedPrime =>
      areBallotsLessAndCompatible ballot preparedPrime)
  | .confirm c => areBallotsLessAndCompatible ballot ⟨c.nPrepared, c.ballot.value⟩
  | .externalize e => areBallotsCompatible ballot e.commit

/-- Does the statement vote to prepare `ballot`? (the first lambda of
`attemptPreparedAccept`) -/
def votesToPrepare (ballot : SCPBallot) (st : SCPStatement) : Bool :=
  match st.pledges with
  | .prepare p => areBallotsLessAndCompatible ballot p.ballot
  | .confirm c => areBallotsCompatible ballot c.ballot
  | .externalize e => areBallotsCompatible ballot e.commit

/-- `Interval`: the counters of `c` and `h`. -/
abbrev Interval := UInt32 × UInt32

/-- `commitPredicate`. -/
def commitPredicate (ballot : SCPBallot) (check : Interval)
    (st : SCPStatement) : Bool :=
  match st.pledges with
  | .prepare _ => false
  | .confirm c =>
    areBallotsCompatible ballot c.ballot &&
      (decide (c.nCommit ≤ check.1) && decide (check.2 ≤ c.nH))
  | .externalize e =>
    areBallotsCompatible ballot e.commit && decide (e.commit.counter ≤ check.1)

/-- Does the statement vote to commit `ballot.value` on `cur`? (the first lambda
of `attemptAcceptCommit`) -/
def votesToCommit (ballot : SCPBallot) (cur : Interval) (st : SCPStatement) :
    Bool :=
  match st.pledges with
  | .prepare p =>
    areBallotsCompatible ballot p.ballot && p.nC != 0 &&
      (decide (p.nC ≤ cur.1) && decide (cur.2 ≤ p.nH))
  | .confirm c =>
    areBallotsCompatible ballot c.ballot && decide (c.nCommit ≤ cur.1)
  | .externalize e =>
    areBallotsCompatible ballot e.commit && decide (e.commit.counter ≤ cur.1)

/-! ## Candidates and boundaries -/

/-- The ballots a hint votes for or has prepared. -/
def hintBallots : SCPPledges → List SCPBallot
  | .prepare prep =>
    prep.ballot :: (prep.prepared.toList ++ prep.preparedPrime.toList)
  | .confirm con =>
    [⟨con.nPrepared, con.ballot.value⟩, ⟨uint32Max, con.ballot.value⟩]
  | .externalize ext => [⟨uint32Max, ext.commit.value⟩]

/-- The candidates one statement contributes below `topVote`. -/
def candidatesFrom (topVote : SCPBallot) : SCPPledges → List SCPBallot
  | .prepare prep =>
    (prep.ballot :: (prep.prepared.toList ++ prep.preparedPrime.toList)).filter
      fun b => areBallotsLessAndCompatible b topVote
  | .confirm con =>
    if areBallotsCompatible topVote con.ballot then
      topVote :: (if con.nPrepared < topVote.counter
        then [⟨con.nPrepared, topVote.value⟩] else [])
    else []
  | .externalize ext =>
    if areBallotsCompatible topVote ext.commit then [topVote] else []

/-- `getPrepareCandidates`, from the highest to the lowest. -/
def getPrepareCandidates (envs : EnvelopeMap) (hint : SCPStatement) :
    List SCPBallot :=
  setDescending <|
    (hintBallots hint.pledges).flatMap fun topVote =>
      envs.entries.flatMap fun e => candidatesFrom topVote e.2.statement.pledges

/-- `findExtendedInterval` over the boundaries from the highest to the lowest;
`(0, 0)` is the interval not found yet. -/
def findExtendedInterval (pred : Interval → Bool) :
    List UInt32 → Interval → Interval
  | [], candidate => candidate
  | b :: boundaries, candidate =>
    if candidate.1 = 0 then
      -- first, find the high bound
      if pred (b, b) then findExtendedInterval pred boundaries (b, b)
      else findExtendedInterval pred boundaries candidate
    else if b > candidate.2 then
      findExtendedInterval pred boundaries candidate
    else if pred (b, candidate.2) then
      findExtendedInterval pred boundaries (b, candidate.2)
    else candidate -- could not extend further

/-- `getCommitBoundariesFromStatements`, from the highest to the lowest. -/
def getCommitBoundariesFromStatements (envs : EnvelopeMap)
    (ballot : SCPBallot) : List UInt32 :=
  setDescending <| envs.entries.flatMap fun e =>
    match e.2.statement.pledges with
    | .prepare p =>
      if areBallotsCompatible ballot p.ballot && p.nC != 0 then [p.nC, p.nH]
      else []
    | .confirm c =>
      if areBallotsCompatible ballot c.ballot then [c.nCommit, c.nH] else []
    | .externalize ext =>
      if areBallotsCompatible ballot ext.commit then
        [ext.commit.counter, ext.nH, uint32Max]
      else []

/-! ## Local transitions -/

section CheckInvariants

variable (env : Env) (s : State)

def checkCurrentBallot : M Unit :=
  match s.mCurrentBallot with
  | some b => dbgAssert env .checkInvariants (pure (b.counter != 0))
  | none => pure ()

def checkPrepared : M Unit :=
  match s.mPrepared, s.mPreparedPrime with
  | some p, some p' =>
    dbgAssert env .checkInvariants (pure (areBallotsLessAndIncompatible p' p))
  | _, _ => pure ()

def checkHighBallot : M Unit :=
  match s.mHighBallot with
  | some h => do
    dbgAssert env .checkInvariants (pure s.mCurrentBallot.isSome)
    dbgAssert env .checkInvariants
      do pure (areBallotsLessAndCompatible h (← deref s.mCurrentBallot))
  | none => pure ()

def checkCommit : M Unit :=
  match s.mCommit with
  | some c => do
    dbgAssert env .checkInvariants (pure s.mCurrentBallot.isSome)
    dbgAssert env .checkInvariants
      do pure (areBallotsLessAndCompatible c (← deref s.mHighBallot))
    dbgAssert env .checkInvariants do
      let h ← deref s.mHighBallot
      pure (areBallotsLessAndCompatible h (← deref s.mCurrentBallot))
  | none => pure ()

def checkPhase : M Unit :=
  match s.mPhase with
  | .prepare => pure ()
  | .confirm => dbgAssert env .checkInvariants (pure s.mCommit.isSome)
  | .externalize => do
    dbgAssert env .checkInvariants (pure s.mCommit.isSome)
    dbgAssert env .checkInvariants (pure s.mHighBallot.isSome)

end CheckInvariants

def checkInvariants (env : Env) : M Unit := do
  let s ← get
  checkCurrentBallot env s
  checkPrepared env s
  checkHighBallot env s
  checkCommit env s
  checkPhase env s

/-- The updates of `bumpToBallot`, after its assertions. -/
def State.bumpedTo (s : State) (ballot : SCPBallot) : State :=
  let gotBumped := s.mCurrentBallot.all fun b => b.counter != ballot.counter
  let started :=
    if s.mCurrentBallot.isNone then [.startedBallotProtocol ballot] else []
  -- invariant: h.value = b.value
  let incompatible := s.mHighBallot.any fun h => !areBallotsCompatible ballot h
  let reset := if incompatible then [.resetHighBallot s.mCommit] else []
  { s with
    mCurrentBallot := some ballot
    mHighBallot := if incompatible then none else s.mHighBallot
    mHeardFromQuorum := if gotBumped then false else s.mHeardFromQuorum
    log := reset ++ (started ++ s.log) }

def bumpToBallot (env : Env) (ballot : SCPBallot) (check : Bool) : M Unit := do
  record (.bumpToBallot ballot)
  let s ← get
  -- bumpToBallot should be never called once we committed
  dbgAssert env .bumpToBallot (pure (s.mPhase != .externalize))
  -- we should move mCurrentBallot monotonically only
  onlyIf check <| dbgAssert env .bumpToBallot <|
    pure (s.mCurrentBallot.all fun b => (compareBallots ballot b).isGE)
  modify (·.bumpedTo ballot)

def updateCurrentIfNeeded (env : Env) (h : SCPBallot) : M Bool := do
  let s ← get
  if s.mCurrentBallot.all fun b => compareBallots b h == .lt then
    bumpToBallot env h true
    pure true
  else pure false

def updateCurrentValue (env : Env) (ballot : SCPBallot) : M Bool := do
  let s ← get
  if s.mPhase ≠ .prepare ∧ s.mPhase ≠ .confirm then pure false
  else
    match s.mCurrentBallot with
    | none =>
      bumpToBallot env ballot true
      checkInvariants env
      pure true
    | some cur =>
      dbgAssert env .updateCurrentValue (pure (compareBallots cur ballot).isLE)
      if s.mCommit.any fun c => !areBallotsCompatible c ballot then pure false
      else
        match compareBallots cur ballot with
        | .lt =>
          bumpToBallot env ballot true
          checkInvariants env
          pure true
        -- attempt to bump to a smaller value
        | .gt => pure false
        | .eq =>
          checkInvariants env
          pure false

/-- The new `p` and `p'`, the two highest prepared and incompatible ballots, and
whether they changed. -/
def preparedWith (p p' : Option SCPBallot) (ballot : SCPBallot) :
    (Option SCPBallot × Option SCPBallot) × Bool :=
  match p with
  | some p₀ =>
    match compareBallots p₀ ballot with
    | .lt =>
      -- as we're replacing p, we see if we should also replace p'
      ((some ballot, if areBallotsCompatible p₀ ballot then p' else p), true)
    | .gt =>
      -- check if we should update only p'
      if p'.all fun p'₀ =>
          compareBallots p'₀ ballot == .lt && !areBallotsCompatible p₀ ballot
      then ((p, some ballot), true)
      else ((p, p'), false)
    | .eq => ((p, p'), false)
  | none => ((some ballot, p'), true)

def setPrepared (ballot : SCPBallot) : M Bool := do
  let s ← get
  let r := preparedWith s.mPrepared s.mPreparedPrime ballot
  modify (·.withPrepared r.1.1 r.1.2)
  pure r.2

/-- The pledges of `createStatement` for the current phase
(`emitCurrentStateStatement` picks the type from the phase); `none` if a
pointer it follows is null. -/
def currentPledges (env : Env) (s : State) : Option SCPPledges :=
  match s.mPhase with
  | .prepare =>
    some <| .prepare
      { quorumSetHash := env.localNode.mQSetHash
        ballot := s.mCurrentBallot.getD .null
        nC := (s.mCommit.map (·.counter)).getD 0
        prepared := s.mPrepared
        preparedPrime := s.mPreparedPrime
        nH := (s.mHighBallot.map (·.counter)).getD 0 }
  | .confirm => do
    let b ← s.mCurrentBallot
    let p ← s.mPrepared
    let c ← s.mCommit
    let h ← s.mHighBallot
    some <| .confirm
      { quorumSetHash := env.localNode.mQSetHash
        ballot := b
        nPrepared := p.counter
        nCommit := c.counter
        nH := h.counter }
  | .externalize => do
    let c ← s.mCommit
    let h ← s.mHighBallot
    some <| .externalize
      { commit := c
        nH := h.counter
        commitQuorumSetHash := env.localNode.mQSetHash }

/-- `createStatement`, with the identity that `Slot::createEnvelope` adds. -/
def createStatement (env : Env) : M SCPStatement := do
  let s ← get
  record (.createStatement s.localState)
  checkInvariants env
  let pledges ← deref (currentPledges env s)
  let st : SCPStatement := ⟨env.localNode.mNodeID, env.slotIndex, pledges⟩
  record (.created st)
  pure st

/-- `Slot::createEnvelope`. -/
def createEnvelope (env : Env) (st : SCPStatement) : SCPEnvelope where
  statement := st
  signature := env.signEnvelope st

def recordEnvelope (e : SCPEnvelope) : M Unit :=
  modify (·.withLatestEnvelope e)

/-- `sendLatestEnvelope`. The source compares the two shared pointers;
`mLastEnvelope` is only ever replaced by a strictly newer statement, so
pointers differ exactly when the envelopes do. -/
def sendLatestEnvelope : M Unit := do
  let s ← get
  match s.mLastEnvelope with
  | some e =>
    -- emit current envelope if needed
    onlyIf (s.mCurrentMessageLevel == 0 && s.mFullyValidated &&
        s.mLastEnvelopeEmit != some e) do
      modify (·.withLastEnvelopeEmit e)
      record (.emitEnvelope e)
  | none => pure ()

def startBallotProtocolTimer : M Unit := do
  let b ← deref (← get).mCurrentBallot
  record (.startTimer b.counter)

def stopBallotProtocolTimer : M Unit :=
  record .stopTimer

/-- Has a node with this statement reached the local ballot counter? -/
def heardAtCounter (counter : UInt32) (st : SCPStatement) : Bool :=
  match st.pledges with
  | .prepare p => counter ≤ p.ballot.counter
  | _ => true

/-- `checkHeardFromQuorum` when a ballot is set. -/
def checkHeardAtBallot (env : Env) (s : State) (b : SCPBallot) : M Unit :=
  if isQuorum env.localNode.mQSet s.mLatestEnvelopes
      (getQuorumSetFromStatement env) (heardAtCounter b.counter) then do
    modify (·.withHeardFromQuorum true)
    onlyIf (!s.mHeardFromQuorum) do
      -- if we transition from not heard -> heard, we start the timer
      record (.ballotDidHearFromQuorum b)
      onlyIf (s.mPhase != .externalize) startBallotProtocolTimer
    onlyIf (s.mPhase == .externalize) stopBallotProtocolTimer
  else do
    modify (·.withHeardFromQuorum false)
    stopBallotProtocolTimer

def checkHeardFromQuorum (env : Env) : M Unit := do
  let s ← get
  match s.mCurrentBallot with
  | none => pure ()
  | some b => checkHeardAtBallot env s b

/-! ## Functions that may re-enter `advanceSlot` -/

/-- `isNewerStatement(nodeID, st)`. -/
def isNewerForNode (envs : EnvelopeMap) (st : SCPStatement) : Bool :=
  match envs.lookup st.nodeID with
  | none => true
  | some old => isNewerStatement old.statement st

section Reentrant

variable (env : Env) (adv : SCPStatement → M Unit)

/-- `BallotProtocol::processEnvelope`. -/
def processEnvelope (envelope : SCPEnvelope) (self : Bool) :
    M EnvelopeState := do
  let statement := envelope.statement
  dbgAssert env .processEnvelope (pure (statement.slotIndex == env.slotIndex))
  let s ← get
  if !isStatementSane env statement self then pure .invalid
  else if !isNewerForNode s.mLatestEnvelopes statement then pure .invalid
  else if validateValues env statement = .invalidValue then pure .invalid
  else if s.mPhase ≠ .externalize then
    onlyIf (validateValues env statement == .maybeValidValue) <|
      modify (·.withFullyValidated false)
    recordEnvelope envelope
    adv statement
    pure .valid
  else
    -- note: this handles also our own messages
    -- in particular our final EXTERNALIZE message
    let c ← deref s.mCommit
    if c.value = (getWorkingBallot statement.pledges).value then
      recordEnvelope envelope
      pure .valid
    else pure .invalid

/-- The end of `emitCurrentStateStatement`, for a processed envelope. -/
def updateLastEnvelope (canEmit : Bool) (envelope : SCPEnvelope) : M Unit := do
  let s ← get
  onlyIf (canEmit && s.mLastEnvelope.all fun last =>
      isNewerStatement last.statement envelope.statement) do
    modify (·.withLastEnvelope envelope)
    -- this will no-op if invoked from advanceSlot
    sendLatestEnvelope

def emitCurrentStateStatement : M Unit := do
  let statement ← createStatement env
  let envelope := createEnvelope env statement
  let s ← get
  let canEmit := s.mCurrentBallot.isSome
  -- if we generate the same envelope, don't process it again
  onlyIf (s.mLatestEnvelopes.lookup env.localNode.mNodeID != some envelope) do
    if (← processEnvelope env adv envelope true) = .valid then
      updateLastEnvelope canEmit envelope
    else throw .movedToABadState

/-- Does an accepted ballot contradict `h`, so that `c` has to be cleared? -/
def commitContradicted (s : State) : Bool :=
  s.mCommit.isSome && s.mHighBallot.any fun h =>
    (s.mPrepared.any fun p => areBallotsLessAndIncompatible h p) ||
    (s.mPreparedPrime.any fun p' => areBallotsLessAndIncompatible h p')

def setPreparedAccept (ballot : SCPBallot) : M Bool := do
  record (.setPreparedAccept ballot)
  -- update our state
  let didWork ← setPrepared ballot
  -- check if we also need to clear 'c'
  let s ← get
  onlyIf (commitContradicted s) do
    dbgAssert env .setPreparedAccept (pure (s.mPhase == .prepare))
    record (.clearCommit s.mPhase)
    modify (·.withCommit none)
  onlyIf (didWork || commitContradicted s) do
    record (.acceptedBallotPrepared ballot)
    emitCurrentStateStatement env adv
  pure (didWork || commitContradicted s)

/-- In `CONFIRM` a ballot is only considered if it may help us increase `p`. -/
def considerForPrepared (s : State) (ballot : SCPBallot) : M Bool :=
  if s.mPhase = .confirm then do
    let p ← deref s.mPrepared
    if areBallotsLessAndCompatible p ballot then
      dbgAssert env .attemptPreparedAccept
        do pure (areBallotsCompatible (← deref s.mCommit) ballot)
      pure true
    else pure false
  else pure true

/-- The candidate loop of `attemptPreparedAccept`, highest first. -/
def acceptFirstPrepared : List SCPBallot → M Bool
  | [] => pure false
  | ballot :: rest => do
    let s ← get
    let considered ← considerForPrepared env s ballot
    if !considered then acceptFirstPrepared rest
    -- if ballot <= p' ballot is neither a candidate for p nor p'
    else if s.mPreparedPrime.any fun p' => (compareBallots ballot p').isLE then
      acceptFirstPrepared rest
    -- if ballot is already covered by p, skip
    else if s.mPrepared.any fun p => areBallotsLessAndCompatible ballot p then
      acceptFirstPrepared rest
    else if federatedAccept env (votesToPrepare ballot)
        (hasPreparedBallot ballot) s.mLatestEnvelopes then
      setPreparedAccept env adv ballot
    else acceptFirstPrepared rest

def attemptPreparedAccept (hint : SCPStatement) : M Bool := do
  let s ← get
  if s.mPhase ≠ .prepare ∧ s.mPhase ≠ .confirm then pure false
  else
    acceptFirstPrepared env adv (getPrepareCandidates s.mLatestEnvelopes hint)

def setCommit (newC : SCPBallot) : M Unit := do
  let s ← get
  dbgAssert env .setPreparedConfirmed (pure s.mCommit.isNone)
  modify (·.withCommit (some newC))

/-- The part of `setPreparedConfirmed` that sets `c` and `h`; we don't set them
if we're not on a compatible ballot. -/
def setHighAndCommit (newC newH : SCPBallot) : M Bool := do
  let s ← get
  if s.mCurrentBallot.all fun b => areBallotsCompatible b newH then
    let raised := s.mHighBallot.all fun h => compareBallots newH h == .gt
    onlyIf raised <| modify (·.withHighBallot (some newH))
    onlyIf (newC.counter != 0) <| setCommit env newC
    onlyIf (raised || newC.counter != 0) <|
      record (.confirmedBallotPrepared newH)
    pure (raised || newC.counter != 0)
  else pure false

def setPreparedConfirmed (newC newH : SCPBallot) : M Bool := do
  record (.setPreparedConfirmed newH)
  -- remember newH's value
  modify (·.withValueOverride newH.value)
  let didWork ← setHighAndCommit env newC newH
  -- always perform step (8) with the computed value of h
  let bumped ← updateCurrentIfNeeded env newH
  onlyIf (bumped || didWork) <| emitCurrentStateStatement env adv
  pure (bumped || didWork)

/-- The loop that looks for `newH`: the candidates from the one found on. -/
def findNewH (s : State) : List SCPBallot → List SCPBallot
  | [] => []
  | ballot :: rest =>
    -- only consider it if we can potentially raise h
    if s.mHighBallot.any fun h => (compareBallots h ballot).isGE then []
    else if federatedRatify env (hasPreparedBallot ballot) s.mLatestEnvelopes
    then ballot :: rest
    else findNewH s rest

/-- The loop that looks for `newC` from `newH` down (left as 0 if no update). -/
def findNewC (s : State) (b newH : SCPBallot) :
    List SCPBallot → SCPBallot → SCPBallot
  | [], newC => newC
  | ballot :: rest, newC =>
    if compareBallots ballot b = .lt then newC
    -- c and h must be compatible
    else if !areBallotsLessAndCompatible ballot newH then
      findNewC s b newH rest newC
    else if federatedRatify env (hasPreparedBallot ballot) s.mLatestEnvelopes
    then findNewC s b newH rest ballot
    else newC

/-- Step (3) from the paper: the new `c` for `newH`, if `c` may be set. -/
def newCommitFor (s : State) (newH : SCPBallot) (rest : List SCPBallot) :
    SCPBallot :=
  if s.mCommit.isNone &&
      (s.mPrepared.all fun p => !areBallotsLessAndIncompatible newH p) &&
      (s.mPreparedPrime.all fun p' => !areBallotsLessAndIncompatible newH p')
  then
    findNewC env s (s.mCurrentBallot.getD .null) newH (newH :: rest) .null
  else .null

def attemptPreparedConfirmed (hint : SCPStatement) : M Bool := do
  let s ← get
  if s.mPhase ≠ .prepare then pure false
  -- check if we could accept this ballot as prepared
  else if s.mPrepared.isNone then pure false
  else
    match findNewH env s (getPrepareCandidates s.mLatestEnvelopes hint) with
    | [] => pure false
    | newH :: rest =>
      setPreparedConfirmed env adv (newCommitFor env s newH rest) newH

/-- The part of `setAcceptCommit` that leaves the `PREPARE` phase. -/
def enterConfirmPhase (h : SCPBallot) : M Unit := do
  let s ← get
  modify (·.withPhase .confirm)
  onlyIf (s.mCurrentBallot.any fun b => !areBallotsLessAndCompatible h b) <|
    bumpToBallot env h false
  modify fun s => s.withPrepared s.mPrepared none

/-- The part of `setAcceptCommit` that updates `c`, `h` and the phase. -/
def updateAcceptCommit (c h : SCPBallot) : M Bool := do
  record (.setAcceptCommit c h)
  -- remember h's value
  modify (·.withValueOverride h.value)
  let s ← get
  let changed := s.mHighBallot != some h || s.mCommit != some c
  onlyIf changed <|
    modify fun s => (s.withCommit (some c)).withHighBallot (some h)
  onlyIf (s.mPhase == .prepare) <| enterConfirmPhase env h
  pure (changed || s.mPhase == .prepare)

def setAcceptCommit (c h : SCPBallot) : M Bool := do
  let didWork ← updateAcceptCommit env c h
  onlyIf didWork do
    let high ← deref (← get).mHighBallot
    let _ ← updateCurrentIfNeeded env high
    record (.acceptedCommit h)
    emitCurrentStateStatement env adv
  pure didWork

/-- The value a hint suggests to commit, with its high counter. -/
def hintCommitBallot : SCPPledges → Option SCPBallot
  | .prepare prep =>
    if prep.nC ≠ 0 then some ⟨prep.nH, prep.ballot.value⟩ else none
  | .confirm con => some ⟨con.nH, con.ballot.value⟩
  | .externalize ext => some ⟨ext.nH, ext.commit.value⟩

/-- In `CONFIRM` only the value of `h` can be accepted further. -/
def compatibleWithHigh (s : State) (ballot : SCPBallot) : M Bool :=
  if s.mPhase = .confirm then do
    pure (areBallotsCompatible ballot (← deref s.mHighBallot))
  else pure true

/-- In `CONFIRM` an accepted interval only counts if it raises `h`. -/
def raisesHigh (s : State) (candidate : Interval) : M Bool :=
  if s.mPhase ≠ .confirm then pure true
  else do pure (decide (candidate.2 > (← deref s.mHighBallot).counter))

/-- The interval of counters on which `ballot.value` is accepted committed. -/
def acceptCommitInterval (s : State) (ballot : SCPBallot) : Interval :=
  findExtendedInterval
    (fun cur =>
      federatedAccept env (votesToCommit ballot cur)
        (commitPredicate ballot cur) s.mLatestEnvelopes)
    (getCommitBoundariesFromStatements s.mLatestEnvelopes ballot) (0, 0)

def attemptAcceptCommit (hint : SCPStatement) : M Bool := do
  let s ← get
  if s.mPhase ≠ .prepare ∧ s.mPhase ≠ .confirm then pure false
  else
    match hintCommitBallot hint.pledges with
    | none => pure false
    | some ballot =>
      let compatible ← compatibleWithHigh s ballot
      if !compatible then pure false
      else
        let candidate := acceptCommitInterval env s ballot
        if candidate.1 = 0 then pure false
        else
          let raises ← raisesHigh s candidate
          if raises then
            setAcceptCommit env adv ⟨candidate.1, ballot.value⟩
              ⟨candidate.2, ballot.value⟩
          else pure false

def setConfirmCommit (c h : SCPBallot) : M Bool := do
  record (.setConfirmCommit c h)
  modify fun s => (s.withCommit (some c)).withHighBallot (some h)
  let _ ← updateCurrentIfNeeded env h
  modify (·.withPhase .externalize)
  emitCurrentStateStatement env adv
  record .stopNomination
  let commit ← deref (← get).mCommit
  record (.valueExternalized commit.value)
  pure true

/-- The interval of counters on which `ballot.value` is confirmed committed. -/
def confirmCommitInterval (s : State) (ballot : SCPBallot) : Interval :=
  findExtendedInterval
    (fun cur =>
      federatedRatify env (commitPredicate ballot cur) s.mLatestEnvelopes)
    (getCommitBoundariesFromStatements s.mLatestEnvelopes ballot) (0, 0)

/-- The value a hint says is committed; `PREPARE` hints say nothing. -/
def hintConfirmBallot : SCPPledges → Option SCPBallot
  | .prepare _ => none
  | .confirm con => some ⟨con.nH, con.ballot.value⟩
  | .externalize ext => some ⟨ext.nH, ext.commit.value⟩

def attemptConfirmCommit (hint : SCPStatement) : M Bool := do
  let s ← get
  if s.mPhase ≠ .confirm then pure false
  else
    match s.mHighBallot, s.mCommit, hintConfirmBallot hint.pledges with
    | some _, some c, some ballot =>
      if !areBallotsCompatible ballot c then pure false
      else
        let candidate := confirmCommitInterval env s ballot
        if candidate.1 = 0 then pure false
        else
          setConfirmCommit env adv ⟨candidate.1, ballot.value⟩
            ⟨candidate.2, ballot.value⟩
    | _, _, _ => pure false

/-- `bumpState(value, n)`. -/
def bumpStateTo (value : Value) (n : UInt32) : M Bool := do
  let s ← get
  if s.mPhase ≠ .prepare ∧ s.mPhase ≠ .confirm then pure false
  else
    -- we use the value that we saw confirmed prepared
    -- or that we at least voted to commit to
    let newb : SCPBallot := ⟨n, s.mValueOverride.getD value⟩
    let updated ← updateCurrentValue env newb
    onlyIf updated do
      emitCurrentStateStatement env adv
      checkHeardFromQuorum env
    pure updated

/-- `bumpState(value, force)`. -/
def bumpState (value : Value) (force : Bool) : M Bool := do
  let s ← get
  if !force && s.mCurrentBallot.isSome then pure false
  else
    -- the counter is a uint32 and wraps
    bumpStateTo env adv value
      ((s.mCurrentBallot.map fun b => b.counter + 1).getD 1)

/-- `abandonBallot(n)`; a timer expiry is `abandonBallot(0)`. -/
def abandonBallot (n : UInt32) : M Bool := do
  let s ← get
  let v :=
    if env.latestCompositeCandidate = [] then
      (s.mCurrentBallot.map (·.value)).getD []
    else env.latestCompositeCandidate
  if v = [] then pure false
  else if n = 0 then bumpState env adv v true
  else bumpStateTo env adv v n

/-- `statementBallotCounter`. -/
def statementBallotCounter : SCPPledges → UInt32
  | .prepare p => p.ballot.counter
  | .confirm c => c.ballot.counter
  | .externalize _ => uint32Max

/-- `hasVBlockingSubsetStrictlyAheadOf`. -/
def hasVBlockingSubsetStrictlyAheadOf (envs : EnvelopeMap) (n : UInt32) :
    Bool :=
  isVBlocking env.localNode.mQSet envs fun st =>
    n < statementBallotCounter st.pledges

/-- The smallest counter above `localCounter` in `envs` that no v-blocking set
is ahead of. -/
def bumpCounter (envs : EnvelopeMap) (localCounter : UInt32) : Option UInt32 :=
  -- collect all possible counters we might need to advance to
  let allCounters := setAscending <|
    (envs.entries.map fun e =>
      statementBallotCounter e.2.statement.pledges).filter (localCounter < ·)
  allCounters.find? fun n => !hasVBlockingSubsetStrictlyAheadOf env envs n

def attemptBump : M Bool := do
  let s ← get
  if s.mPhase ≠ .prepare ∧ s.mPhase ≠ .confirm then pure false
  else
    let localCounter := (s.mCurrentBallot.map (·.counter)).getD 0
    if !hasVBlockingSubsetStrictlyAheadOf env s.mLatestEnvelopes localCounter
    then pure false
    else
      match bumpCounter env s.mLatestEnvelopes localCounter with
      | some n => abandonBallot env adv n
      | none => pure false

/-- `do { didBump = attemptBump(); } while (didBump)`, at most `rounds` times;
returns whether any round bumped. -/
def attemptBumpLoop : Nat → M Bool
  | 0 => throw .bumpLoop
  | rounds + 1 => do
    if ← attemptBump env adv then
      let _ ← attemptBumpLoop rounds
      pure true
    else pure false

/-- Each bump of the loop raises the ballot counter or the phase, so it ends
within this many rounds. -/
def bumpRounds : Nat := 3 * 2 ^ 32 + 1

/-- What `advanceSlot` does last, at its outermost level only. -/
def bumpAfterAttempts (level : Nat) : M Bool :=
  if level = 1 then do
    let didBump ← attemptBumpLoop env adv bumpRounds
    checkHeardFromQuorum env
    pure didBump
  else pure false

/-- The four attempts, in the order of the white paper. -/
def attemptAll (hint : SCPStatement) : M Bool := do
  let preparedAccept ← attemptPreparedAccept env adv hint
  let preparedConfirmed ← attemptPreparedConfirmed env adv hint
  let acceptCommit ← attemptAcceptCommit env adv hint
  let confirmCommit ← attemptConfirmCommit env adv hint
  pure (preparedAccept || preparedConfirmed || acceptCommit || confirmCommit)

/-- `MAX_ADVANCE_SLOT_RECURSION`. -/
def maxAdvanceSlotRecursion : Nat := 50

/-- The body of `advanceSlot`, with the nested calls going to `adv`. -/
def advanceSlotBody (hint : SCPStatement) : M Unit := do
  modify fun s => s.withLevel (s.mCurrentMessageLevel + 1)
  let level := (← get).mCurrentMessageLevel
  if maxAdvanceSlotRecursion ≤ level then throw .maximumNumberOfTransitions
  else
    let attempted ← attemptAll env adv hint
    -- only bump after we're done with everything else
    let didBump ← bumpAfterAttempts env adv level
    modify fun s => s.withLevel (s.mCurrentMessageLevel - 1)
    onlyIf (attempted || didBump) sendLatestEnvelope

end Reentrant

/-- `advanceSlot`, `depth` nested calls below the limit. -/
def advanceSlot (env : Env) : Nat → SCPStatement → M Unit
  | 0, _ => do
    modify fun s => s.withLevel (s.mCurrentMessageLevel + 1)
    throw .maximumNumberOfTransitions
  | depth + 1, hint => advanceSlotBody env (advanceSlot env depth) hint

/-! ## Entry points -/

/-- The calls `Slot` makes into a ballot protocol that is running. -/
inductive Call where
  /-- an envelope from the network -/
  | processEnvelope (e : SCPEnvelope)
  /-- nomination produced a value -/
  | bumpState (value : Value) (force : Bool)
  /-- a timer expired (`n = 0`), or the counter to move to -/
  | abandonBallot (n : UInt32)

/-- The nested calls of one entry point; `advanceSlot` itself checks the level,
so this many are always enough. -/
def nestedAdvanceSlot (env : Env) : SCPStatement → M Unit :=
  advanceSlot env maxAdvanceSlotRecursion

def Call.run (env : Env) : Call → M Unit
  | .processEnvelope e => do
    let _ ← Scp.processEnvelope env (nestedAdvanceSlot env) e false
    pure ()
  | .bumpState v force => do
    let _ ← Scp.bumpState env (nestedAdvanceSlot env) v force
    pure ()
  | .abandonBallot n => do
    let _ ← Scp.abandonBallot env (nestedAdvanceSlot env) n
    pure ()

end EssaCore.Scp
