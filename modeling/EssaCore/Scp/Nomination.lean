import EssaCore.Lib.StdSet
import EssaCore.Scp.BallotProtocol

/-!
# The nomination protocol (`scp/NominationProtocol.cpp`)

A translation of `NominationProtocol` for one slot, in `EStateM Halt State` as
the ballot protocol is.

- `emitNomination` processes the node's own envelope, and so re-enters
  `processEnvelope`. Nothing in the code bounds how deep: `processEnvelope`
  takes the number of nested calls that the stack has room for, which is part
  of the surroundings (`Env.stack`).
- The answers of `SCPDriver`, the leaders that `updateRoundLeaders` computes
  from its hashes, and what the ballot protocol does when it is handed a value
  are in `Env`, and may change from call to call.
-/

namespace EssaCore.Scp.Nomination

open EssaCore.Lib

/-! ## State -/

structure SCPNomination where
  quorumSetHash : Hash
  votes : List Value
  accepted : List Value
deriving DecidableEq

/-- An `SCPStatement` that nominates -/
structure Statement where
  nodeID : NodeID
  slotIndex : UInt64
  nominate : SCPNomination
deriving DecidableEq

structure Envelope where
  statement : Statement
  signature : Signature
deriving DecidableEq

abbrev EnvelopeMap := AList fun _ : NodeID => Envelope

abbrev ValueSet := StdSet Value

/-- Why a call does not return. -/
inductive Halt where
  /-- `dbgAssert(!mPreviousValue.empty())` failed -/
  | dbgAbort
  | movedToABadState
  /-- the ballot protocol threw -/
  | ballotProtocol
  | stackOverflow
deriving DecidableEq, Repr

/-- The text of the `std::runtime_error`, where it is thrown here. -/
def Halt.what : Halt → Option String
  | .movedToABadState => some "moved to a bad state (nomination)"
  | _ => none

/-- What a node does, newest first in the log. -/
inductive Event where
  | nominatingValue (v : Value)
  | emitEnvelope (e : Envelope)
  | updatedCandidateValue (v : Value)
  | bumpState (v : Value)
  /-- observation point of the model: a statement, and `mLastEnvelope` when it was created -/
  | created (st : Statement) (last : Option Envelope)

/-- The data members of `NominationProtocol`. -/
structure State where
  mRoundNumber : Nat
  mVotes : ValueSet
  mAccepted : ValueSet
  mCandidates : ValueSet
  mLatestNominations : EnvelopeMap
  mLastEnvelope : Option Envelope
  mRoundLeaders : List NodeID
  mNominationStarted : Bool
  mLatestCompositeCandidate : Value
  mPreviousValue : Value
  log : List Event

def State.init : State where
  mRoundNumber := 0
  mVotes := ∅
  mAccepted := ∅
  mCandidates := ∅
  mLatestNominations := ∅
  mLastEnvelope := none
  mRoundLeaders := []
  mNominationStarted := false
  mLatestCompositeCandidate := []
  mPreviousValue := []
  log := []

/-- What `Slot::bumpState` comes to. -/
inductive BumpResult where
  | returned
  /-- the slot externalized, which calls `stopNomination` -/
  | stoppedNomination
  | threw
deriving DecidableEq

/-- The node's surroundings during one call. -/
structure Env where
  localNode : LocalNode
  slotIndex : UInt64
  ndebug : Bool
  stack : Nat
  isFullyValidated : Bool
  getQSet : Hash → Option SCPQuorumSet
  validateValue : Value → ValidationLevel
  extractValidValue : Value → Value
  computeValueHash : Value → Nat → Value → UInt64
  /-- the nodes with the top priority, for the previous value and the round -/
  newRoundLeaders : Value → Nat → List NodeID
  combineCandidates : ValueSet → Value
  signEnvelope : Statement → Signature
  /-- the ballot protocol, when it is bumped after what the log says -/
  bumpState : List Event → BumpResult

abbrev M := EStateM Halt State

def State.note (s : State) (ev : Event) : State := { s with log := ev :: s.log }

def State.withLatest (s : State) (e : Envelope) : State :=
  { s with mLatestNominations := s.mLatestNominations.insert e.statement.nodeID e }

def State.vote (s : State) (v : Value) : State := { s with mVotes := s.mVotes.insert v }

def State.accept (s : State) (v : Value) : State :=
  { s with mAccepted := s.mAccepted.insert v, mVotes := s.mVotes.insert v }

def record (ev : Event) : M Unit := modify (·.note ev)

/-- `if (cond) { body }`. -/
def onlyIf (cond : Bool) (body : M Unit) : M Unit :=
  if cond then body else pure ()

/-! ## Statements -/

/-- `isSubsetHelper`: whether `p` is a subset of `v`, and whether they differ. -/
def isSubsetHelper (p v : List Value) : Bool × Bool :=
  if p.length ≤ v.length then
    if includes v p then (true, p.length != v.length) else (false, true)
  else (false, true)

def isNewerStatement (oldst st : SCPNomination) : Bool :=
  let votes := isSubsetHelper oldst.votes st.votes
  let accepted := isSubsetHelper oldst.accepted st.accepted
  -- true only if one of the sets grew
  votes.1 && accepted.1 && (votes.2 || accepted.2)

/-- `isNewerStatement(nodeID, st)`. -/
def isNewerForNode (envs : EnvelopeMap) (st : Statement) : Bool :=
  match envs.lookup st.nodeID with
  | none => true
  | some old => isNewerStatement old.statement.nominate st.nominate

/-- No two neighbours `l`, `r` with `!(l < r)` (`std::adjacent_find`). -/
def strictlyAscending : List Value → Bool
  | l :: r :: rest => decide (l < r) && strictlyAscending (r :: rest)
  | _ => true

def isSane (nom : SCPNomination) : Bool :=
  nom.votes.length + nom.accepted.length != 0 && strictlyAscending nom.votes &&
    strictlyAscending nom.accepted

/-! ## Federated voting on nominations -/

section Voting

variable (env : Env) (envs : EnvelopeMap)

/-- The nodes whose latest nomination passes `filter`. -/
def filterNodes (filter : SCPNomination → Bool) : List NodeID :=
  nodesWhere envs fun e => filter e.statement.nominate

def federatedRatify (voted : SCPNomination → Bool) : Bool :=
  let pNodes := filterNodes envs voted
  let satisfied := satisfiedBy envs fun e => env.getQSet e.statement.nominate.quorumSetHash
  isQuorumSlice env.localNode.mQSet (quorumLoop satisfied pNodes.length pNodes)

def federatedAccept (voted accepted : SCPNomination → Bool) : Bool :=
  isVBlockingInternal (filterNodes envs accepted) env.localNode.mQSet ||
    federatedRatify env envs fun nom => accepted nom || voted nom

end Voting

/-- Does the nomination vote for `v`? -/
def votePredicate (v : Value) (nom : SCPNomination) : Bool := decide (v ∈ nom.votes)

def acceptPredicate (v : Value) (nom : SCPNomination) : Bool := decide (v ∈ nom.accepted)

/-! ## Promoting values -/

section Promote

variable (env : Env)

/-- One round of the loop over the votes of a statement: the new state, and whether to emit. -/
def promoteVote (s : State) (v : Value) : State × Bool :=
  if v ∈ s.mAccepted then (s, false)
  else if federatedAccept env s.mLatestNominations (votePredicate v) (acceptPredicate v) then
    if env.validateValue v = .fullyValidatedValue then (s.accept v, true)
    else
      -- the value made it pretty far: see if we can vote for a variation that we consider valid
      let toVote := env.extractValidValue v
      if toVote = [] then (s, false) else (s.vote toVote, !decide (toVote ∈ s.mVotes))
  else (s, false)

/-- Attempts to promote some of the votes to accepted. -/
def promoteVotes : List Value → State → State × Bool
  | [], s => (s, false)
  | v :: votes, s =>
    let r := promoteVote env s v
    let r' := promoteVotes votes r.1
    (r'.1, r.2 || r'.2)

/-- Attempts to promote accepted values to candidates. -/
def promoteAccepted : List Value → State → State × Bool
  | [], s => (s, false)
  | a :: accepted, s =>
    if decide (a ∉ s.mCandidates) &&
        federatedRatify env s.mLatestNominations (acceptPredicate a) then
      ((promoteAccepted accepted { s with mCandidates := s.mCandidates.insert a }).1, true)
    else promoteAccepted accepted s

/-- `dbgAssert(!mPreviousValue.empty())`. -/
def assertPreviousValue : M Unit := do
  let s ← get
  if !env.ndebug && s.mPreviousValue.isEmpty then throw .dbgAbort else pure ()

def hashValue (value : Value) : M UInt64 := do
  assertPreviousValue env
  let s ← get
  pure (env.computeValueHash s.mPreviousValue s.mRoundNumber value)

/-- The processor of `getNewValueFromNomination`: the best value so far, with its hash. -/
def considerValue (best : Value × UInt64) (value : Value) : M (Value × UInt64) := do
  let s ← get
  let valueToNominate :=
    if env.validateValue value = .fullyValidatedValue then value
    else env.extractValidValue value
  if valueToNominate = [] ∨ valueToNominate ∈ s.mVotes then pure best
  else
    let curHash ← hashValue env valueToNominate
    pure (if curHash ≥ best.2 then (valueToNominate, curHash) else best)

/-- The highest value we don't have from the leader. -/
def getNewValueFromNomination (nom : SCPNomination) : M Value := do
  let best ← (nom.votes ++ nom.accepted).foldlM (considerValue env) ([], 0)
  pure best.1

/-! ## Functions that may re-enter `processEnvelope` -/

/-- The statement that `emitNomination` creates. -/
def currentStatement (s : State) : Statement where
  nodeID := env.localNode.mNodeID
  slotIndex := env.slotIndex
  nominate := ⟨env.localNode.mQSetHash, s.mVotes.elems, s.mAccepted.elems⟩

/-- The end of `emitNomination`, for a processed envelope. -/
def updateLastEnvelope (envelope : Envelope) : M Unit := do
  let s ← get
  onlyIf (s.mLastEnvelope.all fun last =>
      isNewerStatement last.statement.nominate envelope.statement.nominate) do
    modify fun s => { s with mLastEnvelope := some envelope }
    onlyIf env.isFullyValidated <| record (.emitEnvelope envelope)

def emitNomination (process : Envelope → M EnvelopeState) : M Unit := do
  let s ← get
  let st := currentStatement env s
  let envelope : Envelope := ⟨st, env.signEnvelope st⟩
  record (.created st s.mLastEnvelope)
  if (← process envelope) = .valid then updateLastEnvelope env envelope
  else
    -- there is a bug in the application if it queued up
    -- a statement for itself that it considers invalid
    throw .movedToABadState

/-- Only take round leader votes if we're still looking for candidates. -/
def takeLeaderVote (st : Statement) : M Bool := do
  let s ← get
  if s.mCandidates.elems.isEmpty && decide (st.nodeID ∈ s.mRoundLeaders) then
    let newVote ← getNewValueFromNomination env st.nominate
    if newVote = [] then pure false
    else
      modify (·.vote newVote)
      record (.nominatingValue newVote)
      pure true
  else pure false

/-- Hands the candidates to the ballot protocol. -/
def bumpCandidates : M Unit := do
  modify fun s => { s with mLatestCompositeCandidate := env.combineCandidates s.mCandidates }
  let s ← get
  record (.updatedCandidateValue s.mLatestCompositeCandidate)
  record (.bumpState s.mLatestCompositeCandidate)
  match env.bumpState (← get).log with
  | .returned => pure ()
  | .stoppedNomination => modify fun s => { s with mNominationStarted := false }
  | .threw => throw .ballotProtocol

/-- What `processEnvelope` does with a recorded statement once nomination is started. -/
def advance (emit : M Unit) (st : Statement) : M Unit := do
  let s ← get
  let accepted := promoteVotes env st.nominate.votes s
  let candidates := promoteAccepted env accepted.1.mAccepted.elems accepted.1
  set candidates.1
  let voted ← takeLeaderVote env st
  onlyIf (accepted.2 || voted) emit
  onlyIf candidates.2 (bumpCandidates env)

/-- `processEnvelope`, with room for `depth` nested calls. -/
def processEnvelope : Nat → Envelope → M EnvelopeState
  | 0, _ => throw .stackOverflow
  | depth + 1, envelope => do
    let s ← get
    if !isNewerForNode s.mLatestNominations envelope.statement then pure .invalid
    else if !isSane envelope.statement.nominate then pure .invalid
    else
      modify (·.withLatest envelope)
      onlyIf s.mNominationStarted <|
        advance env (emitNomination env (processEnvelope depth)) envelope.statement
      pure .valid

/-- Add a few more values from other leaders: `nominatingValue`, and whether there are any. -/
def takeLeaderVotes : List NodeID → Value → Bool → M (Value × Bool)
  | [], nominatingValue, updated => pure (nominatingValue, updated)
  | leader :: leaders, nominatingValue, updated => do
    match (← get).mLatestNominations.lookup leader with
    | none => takeLeaderVotes leaders nominatingValue updated
    | some e =>
      let newValue ← getNewValueFromNomination env e.statement.nominate
      if newValue = [] then takeLeaderVotes leaders newValue updated
      else
        modify (·.vote newValue)
        takeLeaderVotes leaders newValue true

/-- `updateRoundLeaders`: hashes the local node first, then expands the leaders. -/
def updateRoundLeaders : M Unit := do
  assertPreviousValue env
  modify fun s => { s with
    mRoundLeaders :=
      setAscending (env.newRoundLeaders s.mPreviousValue s.mRoundNumber ++ s.mRoundLeaders) }

def nominate (value previousValue : Value) (timedout : Bool) : M Bool := do
  let s ← get
  if timedout && !s.mNominationStarted then pure false
  else
    modify fun s => { s with
      mNominationStarted := true
      mPreviousValue := previousValue
      mRoundNumber := s.mRoundNumber + 1 }
    updateRoundLeaders env
    let s ← get
    -- if we're leader, add our value
    let leads := decide (env.localNode.mNodeID ∈ s.mRoundLeaders)
    onlyIf leads <| modify (·.vote value)
    let r ← takeLeaderVotes env s.mRoundLeaders (if leads then value else [])
      (leads && !decide (value ∈ s.mVotes))
    record (.nominatingValue r.1)
    onlyIf r.2 <| emitNomination env (processEnvelope env env.stack)
    pure r.2

end Promote

/-! ## Runs -/

inductive Call where
  | processEnvelope (e : Envelope)
  | nominate (value previousValue : Value) (timedout : Bool)
  | stopNomination

def Call.run (env : Env) : Call → M Unit
  | .processEnvelope e => do
    let _ ← Nomination.processEnvelope env env.stack e
    pure ()
  | .nominate value previousValue timedout => do
    let _ ← Nomination.nominate env value previousValue timedout
    pure ()
  | .stopNomination => modify fun s => { s with mNominationStarted := false }

/-- The state after a call, also if the call halts. -/
def Call.after (env : Env) (c : Call) (s : State) : State :=
  match c.run env s with
  | .ok _ s' => s'
  | .error _ s' => s'

def runCalls (calls : List (Env × Call)) (s : State) : State :=
  calls.foldl (fun s c => c.2.after c.1 s) s

end EssaCore.Scp.Nomination
