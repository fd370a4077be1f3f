import EssaCore.Catchup.CatchupRange

/-!
# Verification of downloaded ledger headers

`catchup/VerifyLedgerChainWork.cpp`: the header files of a range of ledgers are
verified one checkpoint at a time, from the newest to the oldest. Each file must
be a hash chain, its last header must be the one that the file verified before
it points back to, and the newest one may be pinned by a trusted hash.

- `LedgerHeaderHistoryEntry`, `LedgerFile` — what is downloaded;
- `VerifyConfig` — the parameters of the work, with what its constructor asserts;
- `verifyEntries` — the loop over one file; `verifyHistoryOfSingleCheckpoint`;
- `onSuccess`, `EndsInSuccess` — the steps of the work and its successful ends.

Sequence numbers are `uint32_t` with their wrap-around. The hash of a header is
an arbitrary function.
-/

namespace EssaCore.Catchup

variable {Hash : Type} [DecidableEq Hash]

/-! ## Downloaded data -/

/-- The fields of a `LedgerHeader` that the work reads; `other` stands for the
fields that only go into its hash. -/
structure LedgerHeader (Hash : Type) where
  ledgerVersion : UInt32
  ledgerSeq : UInt32
  previousLedgerHash : Hash
  other : Nat
  deriving DecidableEq

/-- `LedgerHeaderHistoryEntry` -/
structure LedgerHeaderHistoryEntry (Hash : Type) where
  hash : Hash
  header : LedgerHeader Hash
  deriving DecidableEq

/-- A ledger file: the entries that can be read from it, and whether they are
followed by bytes that do not parse. -/
structure LedgerFile (Hash : Type) where
  entries : List (LedgerHeaderHistoryEntry Hash)
  malformed : Bool

/-- `LedgerNumHashPair` -/
abbrev LedgerNumHashPair (Hash : Type) := UInt32 × Option Hash

/-! ## Parameters -/

/-- The parameters of the work. The last three fields are the assertions of
`LedgerRange` and of the constructor; the hash of the last closed ledger is
always provided. -/
structure VerifyConfig (Hash : Type) where
  sha256 : LedgerHeader Hash → Hash
  /-- the files in the download directory, by checkpoint -/
  files : UInt32 → Option (LedgerFile Hash)
  /-- `ARTIFICIALLY_ACCELERATE_TIME_FOR_TESTING` -/
  accelerated : Bool
  first : UInt32
  last : UInt32
  lastClosed : UInt32 × Hash
  trustedEndLedger : LedgerNumHashPair Hash
  first_pos : 0 < first
  first_le_last : first ≤ last
  trustedEndLedger_fst : trustedEndLedger.1 = last

/-- `Config::CURRENT_LEDGER_PROTOCOL_VERSION` -/
def CURRENT_LEDGER_PROTOCOL_VERSION : UInt32 := 10

namespace VerifyConfig

variable (cfg : VerifyConfig Hash)

/-- `getCheckpointFrequency` (`history/HistoryManagerImpl.cpp` 80–91) -/
def getCheckpointFrequency : UInt32 := if cfg.accelerated then 8 else 64

/-- `checkpointContainingLedger` for this frequency -/
def checkpointContainingLedger (ledger : UInt32) : UInt32 :=
  Catchup.checkpointContainingLedger cfg.getCheckpointFrequency ledger

end VerifyConfig

/-! ## Results -/

/-- `LedgerVerificationStatus`, without `VERIFY_STATUS_OK`. -/
inductive LedgerVerificationStatus where
  | VERIFY_STATUS_ERR_BAD_HASH
  | VERIFY_STATUS_ERR_BAD_LEDGER_VERSION
  | VERIFY_STATUS_ERR_OVERSHOT
  | VERIFY_STATUS_ERR_UNDERSHOT
  | VERIFY_STATUS_ERR_MISSING_ENTRIES
  deriving DecidableEq, Repr

/-- How a verification can end other than with `VERIFY_STATUS_OK`. -/
inductive Stop where
  | status (s : LedgerVerificationStatus)
  | assertion
  | exception (what : String)
  deriving DecidableEq, Repr

/-! ## One file -/

section Verify

variable (cfg : VerifyConfig Hash)

/-- `verifyLedgerHistoryEntry` (18–31) -/
def verifyLedgerHistoryEntry (hhe : LedgerHeaderHistoryEntry Hash) :
    Except Stop Unit :=
  if cfg.sha256 hhe.header ≠ hhe.hash then
    throw (.status .VERIFY_STATUS_ERR_BAD_HASH)
  else pure ()

/-- `verifyLedgerHistoryLink` (33–50) -/
def verifyLedgerHistoryLink (prev : Hash)
    (curr : LedgerHeaderHistoryEntry Hash) : Except Stop Unit := do
  verifyLedgerHistoryEntry cfg curr
  if prev ≠ curr.header.previousLedgerHash then
    throw (.status .VERIFY_STATUS_ERR_BAD_HASH)
  else pure ()

/-- `verifyLastLedgerInCheckpoint` (52–77) -/
def verifyLastLedgerInCheckpoint (ledger : LedgerHeaderHistoryEntry Hash)
    (verifiedAhead : LedgerNumHashPair Hash) : Except Stop Unit :=
  if ledger.header.ledgerSeq ≠ verifiedAhead.1 then throw .assertion
  else if verifiedAhead.2.any (· ≠ ledger.hash) then
    throw (.status .VERIFY_STATUS_ERR_BAD_HASH)
  else pure ()

/-- The comparison with the last closed ledger (156–184) -/
def verifyLastClosed (curr : LedgerHeaderHistoryEntry Hash) :
    Except Stop Unit :=
  if curr.header.ledgerSeq = cfg.lastClosed.1 then
    if cfg.sha256 curr.header ≠ cfg.lastClosed.2 then
      throw (.status .VERIFY_STATUS_ERR_BAD_HASH)
    else pure ()
  else if curr.header.ledgerSeq = cfg.lastClosed.1 + 1 then
    verifyLedgerHistoryLink cfg cfg.lastClosed.2 curr
  else pure ()

/-- The comparison with the entry before (186–228); there is none at the
beginning of a checkpoint. -/
def verifyPrevious (prev : Option (LedgerHeaderHistoryEntry Hash))
    (curr : LedgerHeaderHistoryEntry Hash) : Except Stop Unit :=
  match prev with
  | none => verifyLedgerHistoryEntry cfg curr
  | some prev =>
    let expectedSeq := prev.header.ledgerSeq + 1
    if curr.header.ledgerSeq < expectedSeq then
      throw (.status .VERIFY_STATUS_ERR_UNDERSHOT)
    else if curr.header.ledgerSeq > expectedSeq then
      throw (.status .VERIFY_STATUS_ERR_OVERSHOT)
    else verifyLedgerHistoryLink cfg prev.hash curr

/-- One round of the loop (148–228) -/
def verifyEntry (prev : Option (LedgerHeaderHistoryEntry Hash))
    (curr : LedgerHeaderHistoryEntry Hash) : Except Stop Unit :=
  if curr.header.ledgerVersion > CURRENT_LEDGER_PROTOCOL_VERSION then
    throw (.status .VERIFY_STATUS_ERR_BAD_LEDGER_VERSION)
  else do
  verifyLastClosed cfg curr
  verifyPrevious cfg prev curr

/-- The loop over a file (147–238): the entry it ends at. It stops at the last
ledger of the range. -/
def verifyEntries (malformed : Bool) :
    List (LedgerHeaderHistoryEntry Hash) →
      Option (LedgerHeaderHistoryEntry Hash) →
      Except Stop (Option (LedgerHeaderHistoryEntry Hash))
  | [], prev =>
    if malformed then throw (.exception "malformed XDR file") else pure prev
  | curr :: rest, prev => do
    verifyEntry cfg prev curr
    if curr.header.ledgerSeq = cfg.last then pure (some curr)
    else verifyEntries malformed rest (some curr)

/-! ## The work -/

/-- The state of `VerifyLedgerChainWork`. -/
structure VerifyState (Hash : Type) where
  mCurrCheckpoint : UInt32
  mVerifiedAhead : LedgerNumHashPair Hash
  mVerifiedLedgerRangeStart : Option (LedgerHeaderHistoryEntry Hash)

/-- `onReset` (118–125) -/
def onReset : VerifyState Hash where
  mCurrCheckpoint := cfg.checkpointContainingLedger cfg.last
  mVerifiedAhead := (0, none)
  mVerifiedLedgerRangeStart := none

/-- What the last header of a file has to agree with (252–269): the trusted
hash at the end of the range, the file ahead otherwise. -/
def expectedEnd (st : VerifyState Hash)
    (curr : LedgerHeaderHistoryEntry Hash) :
    Except Stop (LedgerNumHashPair Hash) :=
  if curr.header.ledgerSeq = cfg.last then
    if st.mVerifiedAhead.1 ≠ 0 then throw .assertion
    else pure cfg.trustedEndLedger
  else if st.mVerifiedAhead.2.isNone ∨ st.mVerifiedAhead.1 = 0 then
    throw .assertion
  else pure st.mVerifiedAhead

/-- What the file verified next has to agree with (196–200). -/
def aheadOf (entries : List (LedgerHeaderHistoryEntry Hash))
    (ahead : LedgerNumHashPair Hash) : LedgerNumHashPair Hash :=
  match entries with
  | [] => ahead
  | curr :: _ =>
    (curr.header.ledgerSeq - 1, some curr.header.previousLedgerHash)

/-- `verifyHistoryOfSingleCheckpoint` (127–290). An empty file leaves `curr` a
default entry, whose sequence number 0 is neither a checkpoint nor the end of
the range. -/
def verifyHistoryOfSingleCheckpoint (st : VerifyState Hash) :
    Except Stop (VerifyState Hash) :=
  match cfg.files st.mCurrCheckpoint with
  | none => throw (.exception "failed to open XDR file")
  | some file => do
    let curr ← verifyEntries cfg file.malformed file.entries none
    match curr with
    | none => throw (.status .VERIFY_STATUS_ERR_MISSING_ENTRIES)
    | some curr =>
      if curr.header.ledgerSeq ≠ st.mCurrCheckpoint ∧
          curr.header.ledgerSeq ≠ cfg.last then
        throw (.status .VERIFY_STATUS_ERR_MISSING_ENTRIES)
      else do
      let nextCheckpointFirstLedger ← expectedEnd cfg st curr
      verifyLastLedgerInCheckpoint curr nextCheckpointFirstLedger
      pure
        { st with
          mVerifiedAhead := aheadOf file.entries st.mVerifiedAhead
          mVerifiedLedgerRangeStart :=
            if st.mCurrCheckpoint = cfg.checkpointContainingLedger cfg.first
            then some curr else st.mVerifiedLedgerRangeStart }

/-- The states a work is left in. -/
inductive WorkState where
  | WORK_SUCCESS
  | WORK_RUNNING
  | WORK_FAILURE_FATAL
  deriving DecidableEq, Repr

/-- `onSuccess` (292–349) -/
def onSuccess (st : VerifyState Hash) :
    Except Stop (WorkState × VerifyState Hash) :=
  if st.mCurrCheckpoint < cfg.checkpointContainingLedger cfg.first then
    throw (.exception "Verification undershot first ledger in the range.")
  else
    match verifyHistoryOfSingleCheckpoint cfg st with
    | .ok st' =>
      if st.mCurrCheckpoint = cfg.checkpointContainingLedger cfg.first then
        pure (.WORK_SUCCESS, st')
      else
        pure (.WORK_RUNNING, { st' with
          mCurrCheckpoint := st.mCurrCheckpoint - cfg.getCheckpointFrequency })
    | .error (.status _) => pure (.WORK_FAILURE_FATAL, st)
    | .error stop => throw stop

/-- From a state the work is run again and again until it ends in
`WORK_SUCCESS`, verifying the files of the listed checkpoints. -/
inductive EndsInSuccess : VerifyState Hash → List UInt32 → Prop where
  | success {st st' : VerifyState Hash}
      (h : onSuccess cfg st = .ok (.WORK_SUCCESS, st')) :
      EndsInSuccess st [st.mCurrCheckpoint]
  | running {st st' : VerifyState Hash} {checkpoints : List UInt32}
      (h : onSuccess cfg st = .ok (.WORK_RUNNING, st'))
      (hrest : EndsInSuccess st' checkpoints) :
      EndsInSuccess st (st.mCurrCheckpoint :: checkpoints)

end Verify

end EssaCore.Catchup
