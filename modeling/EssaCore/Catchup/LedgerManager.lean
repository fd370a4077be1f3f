import EssaCore.Lib.StateMachine
import EssaCore.Catchup.VerifyLedgerChain

/-!
# The catchup state machine of the ledger manager

`ledger/LedgerManagerImpl.cpp` 136–158 and 385–722, with the buffer of
`ledger/SyncingLedgerChain.cpp`, the `catchup` command of
`main/CommandHandler.cpp` and what `catchup/CatchupWork.cpp` does to the ledger
manager while it runs.

The functions of the source run one after the other on the main thread, called
by the consensus layer, the operator, the catchup work and the callbacks that
were posted before. Each call is a program that may stop at a failed `assert`
or at an exception; it keeps the state it has reached, as the source does.

- `LedgerManagerImpl` — the state, with the catchup work and the posted callbacks;
- `valueExternalized`, `startCatchup`, `historyCaughtup`,
  `applyBufferedLedgers`, ... — the member functions under their own names;
- `Step`, `step`, `runSteps` — everything that can happen to a node, and runs.

`mClosed` is not in the source: it records what moved the last closed ledger.
-/

namespace EssaCore.Catchup

open Lib

variable {Hash : Type}

/-! ## Data -/

/-- `LedgerManager::State` -/
inductive State where
  | LM_BOOTING_STATE
  | LM_SYNCED_STATE
  | LM_CATCHING_UP_STATE
  deriving DecidableEq, Repr

/-- `LedgerManager::CatchupState` -/
inductive CatchupState where
  | NONE
  | WAITING_FOR_TRIGGER_LEDGER
  | APPLYING_HISTORY
  | APPLYING_BUFFERED_LEDGERS
  | WAITING_FOR_CLOSING_LEDGER
  deriving DecidableEq, Repr

/-- `LedgerManagerImpl::CloseLedgerIfResult` -/
inductive CloseLedgerIfResult where
  | CLOSED
  | TOO_OLD
  | TOO_NEW

/-- `SyncingLedgerChainAddResult` -/
inductive SyncingLedgerChainAddResult where
  | CONTIGUOUS
  | TOO_OLD
  | TOO_NEW

/-- `CatchupWork::ProgressState` -/
inductive ProgressState where
  | APPLIED_BUCKETS
  | APPLIED_TRANSACTIONS
  | FINISHED

/-- `LedgerCloseData`. `previousLedgerHash` is the one of its transaction set;
`contents` stands for the transactions and the agreed value. -/
structure LedgerCloseData (Hash : Type) where
  ledgerSeq : UInt32
  previousLedgerHash : Hash
  contents : Nat

/-- `CatchupConfiguration`, without the number of ledgers to replay. Only the
ledger manager itself gives the hash of the target. -/
structure CatchupConfiguration (Hash : Type) where
  toLedger : UInt32
  hash : Option Hash

namespace CatchupConfiguration

/-- `CatchupConfiguration::CURRENT` -/
def CURRENT : UInt32 := 0

/-- The target of `CatchupConfiguration::resolve` -/
def resolve (configuration : CatchupConfiguration Hash)
    (remoteCheckpoint : UInt32) : UInt32 :=
  if configuration.toLedger = CURRENT then remoteCheckpoint
  else configuration.toLedger

end CatchupConfiguration

/-- `CatchupWork`: the fields that decide which notifications it sends. -/
structure CatchupWork (Hash : Type) where
  mCatchupConfiguration : CatchupConfiguration Hash
  /-- the sequence number of `mLastClosedLedgerHashPair` -/
  mLastClosedLedgerSeq : UInt32
  /-- `mRemoteState.currentLedger`, once it is downloaded -/
  mRemoteState : Option UInt32
  mBucketsAppliedEmitted : Bool
  /-- `mLastApplied`, while `ApplyLedgerChainWork` is running -/
  mLastApplied : Option (LedgerHeaderHistoryEntry Hash)

/-- What moved the last closed ledger. -/
inductive LedgerMove where
  /-- `closeLedger` on the data of this ledger -/
  | closed (ledgerSeq : UInt32)
  /-- buckets were applied, up to this ledger -/
  | appliedBuckets (ledgerSeq : UInt32)

/-- `LedgerManagerImpl`, with the catchup work of `CatchupManagerImpl` and the
number of callbacks that `applyBufferedLedgers` has posted. -/
structure LedgerManagerImpl (Hash : Type) where
  mState : State
  mCatchupState : CatchupState
  mCatchupTriggerLedger : UInt32
  mLastClosedLedger : LedgerHeaderHistoryEntry Hash
  mSyncingLedgers : List (LedgerCloseData Hash)
  mCatchupWork : Option (CatchupWork Hash)
  mPosted : Nat
  mClosed : List LedgerMove

/-- How a call ends that does not return. -/
inductive Halt where
  /-- a failed `assert` -/
  | assertion (text : String)
  /-- an exception -/
  | exception (what : String)

/-- What the ledger manager takes from the rest of the node. -/
structure LedgerManagerEnv (Hash : Type) where
  sha256 : LedgerHeader Hash → Hash
  /-- `HistoryManager::getCheckpointFrequency` -/
  getCheckpointFrequency : UInt32
  /-- the effect of the transactions and upgrades of a ledger: the version and
  the other fields of the new header, or what was thrown -/
  applyLedger : LedgerHeaderHistoryEntry Hash → LedgerCloseData Hash →
    Except String (UInt32 × Nat)
  sha256_injective : Function.Injective sha256

/-- A member function of the ledger manager. -/
abbrev LmM (Hash : Type) := EStateM Halt (LedgerManagerImpl Hash)

namespace LedgerManagerImpl

/-! ## State changes -/

/-- `setState` (135–151) -/
def setState (s : State) (lm : LedgerManagerImpl Hash) :
    LedgerManagerImpl Hash :=
  if s ≠ lm.mState then
    { lm with
      mState := s
      mCatchupState :=
        if s ≠ .LM_CATCHING_UP_STATE then .NONE else lm.mCatchupState }
  else lm

/-- `setCatchupState` (153–158) -/
def setCatchupState (s : CatchupState) (lm : LedgerManagerImpl Hash) :
    LedgerManagerImpl Hash :=
  { lm with mCatchupState := s }.setState .LM_CATCHING_UP_STATE

end LedgerManagerImpl

/-- C++'s `assert` -/
def assert (c : Prop) [Decidable c] (text : String) : LmM Hash PUnit :=
  if c then pure ⟨⟩ else throw (.assertion text)

/-! ## Buffered ledgers -/

/-- `SyncingLedgerChain::push` -/
def SyncingLedgerChain.push (mChain : List (LedgerCloseData Hash))
    (lcd : LedgerCloseData Hash) :
    List (LedgerCloseData Hash) × SyncingLedgerChainAddResult :=
  match mChain.getLast? with
  | none => (mChain ++ [lcd], .CONTIGUOUS)
  | some back =>
    if back.ledgerSeq + 1 = lcd.ledgerSeq then (mChain ++ [lcd], .CONTIGUOUS)
    else if lcd.ledgerSeq ≤ back.ledgerSeq then (mChain, .TOO_OLD)
    else (mChain, .TOO_NEW)

/-- `addToSyncingLedgers` (536–565). The results differ in what is logged. -/
def addToSyncingLedgers (ledgerData : LedgerCloseData Hash) :
    LmM Hash PUnit := do
  modify fun lm =>
    { lm with
      mSyncingLedgers :=
        (SyncingLedgerChain.push lm.mSyncingLedgers ledgerData).1 }

/-! ## Closing ledgers -/

variable [DecidableEq Hash] (env : LedgerManagerEnv Hash)

/-- `closeLedger` (746–884). The new header takes its number from the last
closed ledger, not from the data. -/
def closeLedger (ledgerData : LedgerCloseData Hash) : LmM Hash PUnit := do
  let lcl := (← get).mLastClosedLedger
  if ledgerData.previousLedgerHash ≠ lcl.hash then
    throw (.exception "txset mismatch")
  else
    match env.applyLedger lcl ledgerData with
    | .error what => throw (.exception what)
    | .ok (ledgerVersion, other) =>
      let header : LedgerHeader Hash :=
        { ledgerVersion
          ledgerSeq := lcl.header.ledgerSeq + 1
          previousLedgerHash := lcl.hash
          other }
      modify fun lm =>
        { lm with
          mLastClosedLedger := { hash := env.sha256 header, header }
          mClosed := .closed ledgerData.ledgerSeq :: lm.mClosed }

/-- `closeLedgerIf` (444–481) -/
def closeLedgerIf (ledgerData : LedgerCloseData Hash) :
    LmM Hash CloseLedgerIfResult := do
  let lcl := (← get).mLastClosedLedger
  if lcl.header.ledgerSeq + 1 = ledgerData.ledgerSeq then
    if lcl.hash = ledgerData.previousLedgerHash then do
      closeLedger env ledgerData
      pure .CLOSED
    else throw (.exception "Network consensus inconsistency")
  else if ledgerData.ledgerSeq ≤ lcl.header.ledgerSeq then pure .TOO_OLD
  else pure .TOO_NEW

/-! ## Starting catchup -/

omit [DecidableEq Hash] in
/-- `CatchupManagerImpl::catchupHistory`, with `CatchupWork::onReset` -/
def catchupHistory (configuration : CatchupConfiguration Hash) :
    LmM Hash PUnit := do
  let lm ← get
  if lm.mCatchupWork.isSome then
    throw (.exception "Catchup already in progress")
  else
    modify fun lm =>
      { lm with
        mCatchupWork := some
          { mCatchupConfiguration := configuration
            mLastClosedLedgerSeq := lm.mLastClosedLedger.header.ledgerSeq
            mRemoteState := none
            mBucketsAppliedEmitted := false
            mLastApplied := none } }

omit [DecidableEq Hash] in
/-- `startCatchup` (611–628) -/
def startCatchup (configuration : CatchupConfiguration Hash)
    (manualCatchup : Bool) : LmM Hash PUnit := do
  let lastClosedLedger := (← get).mLastClosedLedger.header.ledgerSeq
  if configuration.toLedger ≠ CatchupConfiguration.CURRENT ∧
      configuration.toLedger ≤ lastClosedLedger then
    throw (.exception "Target ledger is not newer than LCL")
  else do
    modify (·.setCatchupState .APPLYING_HISTORY)
    let lm ← get
    assert (manualCatchup = lm.mSyncingLedgers.isEmpty)
      "manualCatchup == mSyncingLedgers.empty()"
    catchupHistory configuration

omit [DecidableEq Hash] in
/-- `startCatchupIf` (567–609) -/
def startCatchupIf (lastReceivedLedgerSeq : UInt32) : LmM Hash PUnit := do
  let lm ← get
  match lm.mSyncingLedgers.head? with
  | none => throw (.assertion "!mSyncingLedgers.empty()")
  | some front => do
    assert (lm.mCatchupState ≠ .NONE) "mCatchupState != CatchupState::NONE"
    if lm.mCatchupState ≠ .WAITING_FOR_TRIGGER_LEDGER then pure ⟨⟩
    else if lm.mCatchupTriggerLedger ≤ lastReceivedLedgerSeq then do
      modify (·.setCatchupState .APPLYING_HISTORY)
      startCatchup
        { toLedger := front.ledgerSeq - 1
          hash := some front.previousLedgerHash } false
    else pure ⟨⟩

omit [DecidableEq Hash] in
/-- `initializeCatchup` (483–497) -/
def initializeCatchup (ledgerData : LedgerCloseData Hash) : LmM Hash PUnit := do
  let lm ← get
  assert (lm.mState ≠ .LM_CATCHING_UP_STATE) "mState != LM_CATCHING_UP_STATE"
  assert (lm.mCatchupState = .NONE) "mCatchupState == CatchupState::NONE"
  assert (lm.mSyncingLedgers.isEmpty) "mSyncingLedgers.empty()"
  modify (·.setState .LM_CATCHING_UP_STATE)
  modify fun lm =>
    { lm with
      mCatchupTriggerLedger :=
        nextCheckpointLedger env.getCheckpointFrequency ledgerData.ledgerSeq + 1 }
  modify (·.setCatchupState .WAITING_FOR_TRIGGER_LEDGER)
  addToSyncingLedgers ledgerData
  startCatchupIf ledgerData.ledgerSeq

omit [DecidableEq Hash] in
/-- `continueCatchup` (499–506) -/
def continueCatchup (ledgerData : LedgerCloseData Hash) : LmM Hash PUnit := do
  let lm ← get
  assert (lm.mState = .LM_CATCHING_UP_STATE) "mState == LM_CATCHING_UP_STATE"
  addToSyncingLedgers ledgerData
  startCatchupIf ledgerData.ledgerSeq

/-- `finalizeCatchup` (508–534) -/
def finalizeCatchup (ledgerData : LedgerCloseData Hash) : LmM Hash PUnit := do
  let lm ← get
  assert (lm.mState = .LM_CATCHING_UP_STATE) "mState == LM_CATCHING_UP_STATE"
  assert (lm.mCatchupState = .WAITING_FOR_CLOSING_LEDGER)
    "mCatchupState == CatchupState::WAITING_FOR_CLOSING_LEDGER"
  assert (lm.mSyncingLedgers.isEmpty) "mSyncingLedgers.empty()"
  match ← closeLedgerIf env ledgerData with
  | .CLOSED => modify (·.setState .LM_SYNCED_STATE)
  | .TOO_OLD => pure ⟨⟩
  | .TOO_NEW => do
    modify (·.setState .LM_BOOTING_STATE)
    initializeCatchup env ledgerData

/-- `valueExternalized` (385–442) -/
def valueExternalized (ledgerData : LedgerCloseData Hash) :
    LmM Hash PUnit := do
  let lm ← get
  match lm.mState with
  | .LM_BOOTING_STATE | .LM_SYNCED_STATE => do
    match ← closeLedgerIf env ledgerData with
    | .CLOSED => modify (·.setState .LM_SYNCED_STATE)
    | .TOO_OLD => pure ⟨⟩
    | .TOO_NEW => initializeCatchup env ledgerData
  | .LM_CATCHING_UP_STATE =>
    match lm.mCatchupState with
    | .WAITING_FOR_CLOSING_LEDGER => finalizeCatchup env ledgerData
    | _ => continueCatchup ledgerData

omit [DecidableEq Hash] in
/-- `CommandHandler::catchup`: only a synced node starts a manual catchup. -/
def catchup (ledger : UInt32) : LmM Hash PUnit := do
  let lm ← get
  match lm.mState with
  | .LM_BOOTING_STATE | .LM_CATCHING_UP_STATE => pure ⟨⟩
  | .LM_SYNCED_STATE => startCatchup { toLedger := ledger, hash := none } true

/-! ## Notifications of the catchup work -/

omit [DecidableEq Hash] in
/-- `applyBufferedLedgers` (689–722), up to posting the callback -/
def applyBufferedLedgers : LmM Hash PUnit := do
  let lm ← get
  assert (lm.mCatchupState = .APPLYING_BUFFERED_LEDGERS)
    "mCatchupState == CatchupState::APPLYING_BUFFERED_LEDGERS"
  if lm.mSyncingLedgers.isEmpty then
    modify (·.setCatchupState .WAITING_FOR_CLOSING_LEDGER)
  else
    modify fun lm => { lm with mPosted := lm.mPosted + 1 }

/-- `historyCaughtup` (630–687) on a notification without error -/
def historyCaughtup (progressState : ProgressState)
    (lastClosed : LedgerHeaderHistoryEntry Hash) : LmM Hash PUnit := do
  let lm ← get
  assert (lm.mCatchupState = .APPLYING_HISTORY)
    "mCatchupState == CatchupState::APPLYING_HISTORY"
  match progressState with
  | .APPLIED_BUCKETS =>
    modify fun lm =>
      { lm with
        mLastClosedLedger := lastClosed
        mClosed := .appliedBuckets lastClosed.header.ledgerSeq :: lm.mClosed }
  | .APPLIED_TRANSACTIONS => do
    assert (lastClosed.hash = lm.mLastClosedLedger.hash)
      "lastClosed.hash == mLastClosedLedger.hash"
    assert (lastClosed.header = lm.mLastClosedLedger.header)
      "lastClosed.header == mLastClosedLedger.header"
  | .FINISHED => do
    modify fun lm => { lm with mCatchupWork := none }
    modify (·.setCatchupState .APPLYING_BUFFERED_LEDGERS)
    applyBufferedLedgers

omit [DecidableEq Hash] in
/-- `historyCaughtup` (630–687) on a notification with an error. The work is
reset by its sender before. -/
def historyCaughtupError : LmM Hash PUnit := do
  modify fun lm => { lm with mCatchupWork := none }
  let lm ← get
  assert (lm.mCatchupState = .APPLYING_HISTORY)
    "mCatchupState == CatchupState::APPLYING_HISTORY"
  modify (·.setState .LM_BOOTING_STATE)
  modify fun lm => { lm with mSyncingLedgers := [] }

/-- The callback that `applyBufferedLedgers` has posted. -/
def applyBufferedLedger : LmM Hash PUnit := do
  modify fun lm => { lm with mPosted := lm.mPosted - 1 }
  let lm ← get
  match lm.mSyncingLedgers with
  | [] => throw (.assertion "mSyncingLedgers.front()")
  | lcd :: rest => do
    modify fun lm => { lm with mSyncingLedgers := rest }
    assert (lcd.ledgerSeq = lm.mLastClosedLedger.header.ledgerSeq + 1)
      "lcd.getLedgerSeq() == mLastClosedLedger.header.ledgerSeq + 1"
    closeLedger env lcd
    applyBufferedLedgers

/-! ## The catchup work -/

omit [DecidableEq Hash] in
/-- Changes the fields of the running work. -/
def modifyWork (f : CatchupWork Hash → CatchupWork Hash) : LmM Hash PUnit :=
  modify fun lm => { lm with mCatchupWork := lm.mCatchupWork.map f }

/-- `ApplyLedgerChainWork::applyHistoryOfSingleLedger` on a header of the
verified chain and the transaction set that goes with it -/
def applyHistoryOfSingleLedger (hHeader : LedgerHeaderHistoryEntry Hash)
    (closeData : LedgerCloseData Hash) : LmM Hash PUnit := do
  let lcl := (← get).mLastClosedLedger
  let seq := hHeader.header.ledgerSeq
  if seq + 1 < lcl.header.ledgerSeq then pure ⟨⟩
  else if seq + 1 = lcl.header.ledgerSeq then
    if hHeader.hash ≠ lcl.header.previousLedgerHash then
      throw (.exception "failed to connect on hash of LCL predecessor")
    else pure ⟨⟩
  else if seq = lcl.header.ledgerSeq then
    if hHeader.hash ≠ lcl.hash then
      throw (.exception "replay at LCL disagreed on hash")
    else pure ⟨⟩
  else if seq ≠ lcl.header.ledgerSeq + 1 then
    throw (.exception "replay overshot current ledger")
  else if hHeader.header.previousLedgerHash ≠ lcl.hash then
    throw (.exception "replay at current ledger disagreed on LCL hash")
  else do
    closeLedger env { closeData with ledgerSeq := seq }
    let lcl := (← get).mLastClosedLedger
    if lcl.hash ≠ hHeader.hash then
      throw (.exception "replay produced mismatched ledger hash")
    else
      modifyWork fun w => { w with mLastApplied := some hHeader }

/-- `ApplyLedgerChainWork::onRun`: a replay that throws ends the work, which
may be reset and started again. -/
def applyLedgerChainOnRun (hHeader : LedgerHeaderHistoryEntry Hash)
    (closeData : LedgerCloseData Hash) : LmM Hash PUnit := fun lm =>
  match applyHistoryOfSingleLedger env hHeader closeData lm with
  | .error (.exception _) lm' =>
    modifyWork (fun w => { w with mLastApplied := none }) lm'
  | r => r

/-! ## Steps and runs -/

/-- What can happen to a node. -/
inductive Step (Hash : Type) where
  | valueExternalized (ledgerData : LedgerCloseData Hash)
  /-- the operator's `catchup` command -/
  | catchup (ledger : UInt32)
  /-- the archive state was downloaded -/
  | archiveState (currentLedger : UInt32)
  /-- buckets were applied, up to this verified header -/
  | bucketsApplied (start : LedgerHeaderHistoryEntry Hash)
  /-- `ApplyLedgerChainWork` is added, or reset after a failure -/
  | applyTransactions
  /-- a header of the verified chain is replayed -/
  | replay (hHeader : LedgerHeaderHistoryEntry Hash)
      (closeData : LedgerCloseData Hash)
  /-- all the ledgers of the range are applied -/
  | catchupFinished
  | catchupFailed
  /-- a posted callback runs -/
  | applyBufferedLedger

/-- One step. What is not possible in a state does nothing: a notification
without a work, a callback that was not posted. -/
def step (e : Step Hash) : LmM Hash PUnit := do
  let lm ← get
  match e, lm.mCatchupWork with
  | .valueExternalized ledgerData, _ => valueExternalized env ledgerData
  | .catchup ledger, _ => catchup ledger
  | .archiveState currentLedger, some w =>
    if w.mRemoteState.isSome then pure ⟨⟩
    -- `hasAnyLedgersToCatchupTo`
    else if w.mLastClosedLedgerSeq ≤ currentLedger then
      modifyWork fun w => { w with mRemoteState := some currentLedger }
    else historyCaughtupError
  | .bucketsApplied start, some w =>
    -- `applyBuckets` refuses to go back behind the last closed ledger
    if w.mBucketsAppliedEmitted = false ∧ w.mLastApplied = none ∧
        lm.mLastClosedLedger.header.ledgerSeq ≤ start.header.ledgerSeq then do
      historyCaughtup .APPLIED_BUCKETS start
      modifyWork fun w => { w with mBucketsAppliedEmitted := true }
    else pure ⟨⟩
  | .applyTransactions, some _ =>
    modifyWork fun w => { w with mLastApplied := some lm.mLastClosedLedger }
  | .replay hHeader closeData, some w =>
    -- `VerifyLedgerChainWork` has compared the hashes with the headers
    if w.mLastApplied.isSome ∧ hHeader.hash = env.sha256 hHeader.header then
      applyLedgerChainOnRun env hHeader closeData
    else pure ⟨⟩
  | .catchupFinished, some w =>
    match w.mRemoteState, w.mLastApplied with
    | some currentLedger, some lastApplied =>
      -- `ApplyLedgerChainWork::onSuccess` has reached the end of the range
      if lm.mLastClosedLedger.header.ledgerSeq =
          w.mCatchupConfiguration.resolve currentLedger then do
        historyCaughtup .APPLIED_TRANSACTIONS lastApplied
        historyCaughtup .FINISHED lastApplied
      else pure ⟨⟩
    | _, _ => pure ⟨⟩
  | .catchupFailed, some _ => historyCaughtupError
  | .applyBufferedLedger, _ =>
    if lm.mPosted = 0 then pure ⟨⟩ else applyBufferedLedger env
  | _, none => pure ⟨⟩

/-- A step whose exceptions are caught or logged: the node goes on in the state
it has reached. A failed `assert` ends the process. -/
def stepCaught (e : Step Hash) : LmM Hash PUnit := fun lm =>
  match step env e lm with
  | .error (.exception _) lm' => .ok ⟨⟩ lm'
  | r => r

/-- A run of the node. -/
def runSteps : List (Step Hash) → LmM Hash PUnit
  | [] => pure ⟨⟩
  | e :: es => do
    stepCaught env e
    runSteps es

end EssaCore.Catchup
