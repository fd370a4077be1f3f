import EssaCore.Transactions.ConvertWithOffers

/-!
# Operations on accounts

`CreateAccountOpFrame.cpp`, `MergeOpFrame.cpp`, `SetOptionsOpFrame.cpp`,
`ManageDataOpFrame.cpp`, `BumpSequenceOpFrame.cpp` and `InflationOpFrame.cpp` of
`transactions`, with the branches of protocol 10. Of the results of these operations,
`sourceAccountBalance` and the payouts of inflation are left out.
-/

namespace EssaCore.Transactions

open Ledger

/-! ## Creating and merging accounts -/

/-- `CreateAccountOp` -/
structure CreateAccountOp where
  destination : AccountID
  startingBalance : Int
  deriving DecidableEq, Repr

namespace CreateAccountOp

/-- `doCheckValid` (88–104) -/
def doCheckValid (op : CreateAccountOp) (sourceID : AccountID) : Except InnerResultCode Unit :=
  if op.startingBalance ≤ 0 then throw .CREATE_ACCOUNT_MALFORMED
  else if op.destination = sourceID then throw .CREATE_ACCOUNT_MALFORMED
  else pure ()

/-- The account that is created (68–75) -/
def newAccount (op : CreateAccountOp) (header : LedgerHeader) : AccountEntry where
  accountID := op.destination
  balance := op.startingBalance
  seqNum := getStartingSequenceNumber header
  numSubEntries := 0
  inflationDest := none
  flags := 0
  homeDomain := ""
  thresholds := ⟨1, 0, 0, 0⟩
  signers := []
  ext := none

/-- `doApply` (31–86) -/
def doApply (op : CreateAccountOp) (sourceID : AccountID) : TxM Unit := do
  let destination ← loadAccount op.destination
  failIf (destination ≠ none) .CREATE_ACCOUNT_ALREADY_EXIST
  let header ← loadHeader
  failIf (op.startingBalance < getMinBalance header 0) .CREATE_ACCOUNT_LOW_RESERVE
  let sourceAccount ← loadAccount sourceID
  let sourceAccount ← current sourceAccount
  failIf (sourceAccount.getAvailableBalance header < op.startingBalance)
    .CREATE_ACCOUNT_UNDERFUNDED
  let ok ← addAccountBalance sourceID (-op.startingBalance)
  lift (assert (ok = true))
  create (.account (op.newAccount header))

end CreateAccountOp

/-- `ACCOUNT_MERGE` -/
structure MergeOp where
  destination : AccountID
  deriving DecidableEq, Repr

namespace MergeOp

/-- `doCheckValid` (118–128) -/
def doCheckValid (op : MergeOp) (sourceID : AccountID) : Except InnerResultCode Unit :=
  if sourceID = op.destination then throw .ACCOUNT_MERGE_MALFORMED else pure ()

/-- `doApply` (37–116) -/
def doApply (op : MergeOp) (sourceID : AccountID) : TxM Unit := do
  let header ← loadHeader
  let otherAccount ← loadAccount op.destination
  failIf (otherAccount = none) .ACCOUNT_MERGE_NO_ACCOUNT
  let sourceAccount ← loadAccount sourceID
  let sourceAccount ← current sourceAccount
  failIf (sourceAccount.isImmutableAuth = true) .ACCOUNT_MERGE_IMMUTABLE_SET
  failIf (sourceAccount.numSubEntries ≠ sourceAccount.signers.length)
    .ACCOUNT_MERGE_HAS_SUB_ENTRIES
  failIf (header.ledgerVersion ≥ 10 ∧ sourceAccount.seqNum ≥ getStartingSequenceNumber header)
    .ACCOUNT_MERGE_SEQNUM_TOO_FAR
  let ok ← addAccountBalance op.destination sourceAccount.balance
  failIf (ok = false) .ACCOUNT_MERGE_DEST_FULL
  eraseEntry (.account sourceID)

end MergeOp

/-! ## Options -/

/-- `SetOptionsOp` -/
structure SetOptionsOp where
  inflationDest : Option AccountID
  clearFlags : Option Nat
  setFlags : Option Nat
  masterWeight : Option Nat
  lowThreshold : Option Nat
  medThreshold : Option Nat
  highThreshold : Option Nat
  homeDomain : Option String
  signer : Option Signer
  deriving DecidableEq, Repr

def UINT8_MAX : Nat := 255

/-- `signers.max_size()` -/
def MAX_SIGNERS : Nat := 20

/-- `allAccountFlags`, and `allAccountAuthFlags` -/
def allAccountFlags : Nat := AUTH_REQUIRED_FLAG ||| AUTH_REVOCABLE_FLAG ||| AUTH_IMMUTABLE_FLAG

/-- The complement of a `uint32` -/
def complement32 (x : Nat) : Nat := (2 ^ 32 - 1) ^^^ x

/-- The kind of a signer, as `SignerKeyType` numbers them, and what it holds -/
def signerRank : SignerKey → Nat × Nat
  | .ed25519 key => (0, key.toNat)
  | .preAuthTx hash => (1, hash.toNat)
  | .hashX hash => (2, hash.toNat)

/-- The order of signers by their keys -/
def signerLe (a b : Signer) : Bool :=
  (signerRank a.key).1 < (signerRank b.key).1 ∨
    ((signerRank a.key).1 = (signerRank b.key).1 ∧ (signerRank a.key).2 ≤ (signerRank b.key).2)

/-- `normalizeSigners` -/
def normalizeSigners (acc : AccountEntry) : AccountEntry :=
  { acc with signers := acc.signers.mergeSort signerLe }

/-- `addNumEntries` on an account that is being changed, when the result does not matter -/
def removeNumEntry (header : LedgerHeader) (acc : AccountEntry) : Except TxError AccountEntry := do
  let acc' ← acc.addNumEntries header (-1)
  pure (acc'.getD acc)

/-- The loop that deletes a signer (145–159); the first list is what is still to be looked at,
the second one what is kept. -/
def eraseSigners (header : LedgerHeader) (key : SignerKey) :
    List Signer → List Signer → AccountEntry → Except TxError AccountEntry
  | [], kept, acc => pure { acc with signers := kept }
  | oldSigner :: signers, kept, acc =>
    if oldSigner.key = key then do
      let acc ← removeNumEntry header { acc with signers := kept ++ signers }
      eraseSigners header key signers kept acc
    else eraseSigners header key signers (kept ++ [oldSigner]) acc

namespace SetOptionsOp

/-- A threshold is a byte. -/
def checkThreshold (threshold : Option Nat) : Except InnerResultCode Unit :=
  if threshold.any (UINT8_MAX < ·) then throw .SET_OPTIONS_THRESHOLD_OUT_OF_RANGE else pure ()

/-- `doCheckValid` (168–266) -/
def doCheckValid (op : SetOptionsOp) (sourceID : AccountID) : Except InnerResultCode Unit := do
  if op.setFlags.any fun flags => flags &&& complement32 allAccountFlags ≠ 0 then
    throw .SET_OPTIONS_UNKNOWN_FLAG
  else if op.clearFlags.any fun flags => flags &&& complement32 allAccountFlags ≠ 0 then
    throw .SET_OPTIONS_UNKNOWN_FLAG
  else if op.setFlags.any fun set => op.clearFlags.any fun clear => set &&& clear ≠ 0 then
    throw .SET_OPTIONS_BAD_FLAGS
  else do
    checkThreshold op.masterWeight
    checkThreshold op.lowThreshold
    checkThreshold op.medThreshold
    checkThreshold op.highThreshold
    if op.signer.any fun signer => signer.key = .ed25519 sourceID then
      throw .SET_OPTIONS_BAD_SIGNER
    else if op.signer.any fun signer => signer.weight > UINT8_MAX then
      throw .SET_OPTIONS_BAD_SIGNER
    else if op.homeDomain.any fun domain => isString32Valid domain = false then
      throw .SET_OPTIONS_INVALID_HOME_DOMAIN
    else pure ()

/-- The inflation destination (50–63) -/
def setInflationDest (op : SetOptionsOp) (sourceID : AccountID) (acc : AccountEntry) :
    TxM AccountEntry :=
  match op.inflationDest with
  | none => pure acc
  | some inflationID => do
    let dest ← loadAccount inflationID
    failIf (inflationID ≠ sourceID ∧ dest = none) .SET_OPTIONS_INVALID_INFLATION
    pure { acc with inflationDest := some inflationID }

/-- Flags that are changed (65–85): authorization flags of an account that is immutable stay. -/
def changeFlags (flags : Option Nat) (change : Nat → Nat → Nat) (acc : AccountEntry) :
    TxM AccountEntry :=
  match flags with
  | none => pure acc
  | some flags => do
    failIf (flags &&& allAccountFlags ≠ 0 ∧ acc.isImmutableAuth = true) .SET_OPTIONS_CANT_CHANGE
    pure { acc with flags := change acc.flags flags }

/-- Domain, weight and thresholds (87–116) -/
def setPlain (op : SetOptionsOp) (acc : AccountEntry) : AccountEntry :=
  { acc with
    homeDomain := op.homeDomain.getD acc.homeDomain
    thresholds :=
      { masterWeight := (op.masterWeight.map (· &&& UINT8_MAX)).getD acc.thresholds.masterWeight
        low := (op.lowThreshold.map (· &&& UINT8_MAX)).getD acc.thresholds.low
        med := (op.medThreshold.map (· &&& UINT8_MAX)).getD acc.thresholds.med
        high := (op.highThreshold.map (· &&& UINT8_MAX)).getD acc.thresholds.high } }

/-- Add a signer, or change its weight (121–142). -/
def addSigner (header : LedgerHeader) (signer : Signer) (acc : AccountEntry) : TxM AccountEntry :=
  if acc.signers.any (·.key = signer.key) then
    pure { acc with signers := acc.signers.map fun oldSigner =>
      if oldSigner.key = signer.key then { oldSigner with weight := signer.weight } else oldSigner }
  else do
    failIf (acc.signers.length = MAX_SIGNERS) .SET_OPTIONS_TOO_MANY_SIGNERS
    let acc' ← lift (acc.addNumEntries header 1)
    let acc' ← orFail .SET_OPTIONS_LOW_RESERVE acc'
    pure { acc' with signers := acc'.signers ++ [signer] }

/-- The signer (118–161) -/
def setSigner (op : SetOptionsOp) (header : LedgerHeader) (acc : AccountEntry) :
    TxM AccountEntry :=
  match op.signer with
  | none => pure acc
  | some signer =>
    if signer.weight ≠ 0 then do
      let acc ← addSigner header signer acc
      pure (normalizeSigners acc)
    else do
      let acc ← lift (eraseSigners header signer.key acc.signers [] acc)
      pure (normalizeSigners acc)

/-- `doApply` (43–166) -/
def doApply (op : SetOptionsOp) (sourceID : AccountID) : TxM Unit := do
  let header ← loadHeader
  let account ← loadAccount sourceID
  let account ← current account
  let account ← op.setInflationDest sourceID account
  let account ← changeFlags op.clearFlags (fun flags clear => flags &&& complement32 clear) account
  let account ← changeFlags op.setFlags (fun flags set => flags ||| set) account
  let account ← op.setSigner header (op.setPlain account)
  store (.account account)

end SetOptionsOp

/-! ## Data -/

/-- `ManageDataOp` -/
structure ManageDataOp where
  dataName : String
  dataValue : Option (List UInt8)
  deriving DecidableEq, Repr

namespace ManageDataOp

/-- `doCheckValid` (82–97) -/
def doCheckValid (op : ManageDataOp) : Except InnerResultCode Unit :=
  if op.dataName.utf8ByteSize < 1 ∨ isString32Valid op.dataName = false then
    throw .MANAGE_DATA_INVALID_NAME
  else pure ()

/-- Create a data entry (46–62). -/
def createData (op : ManageDataOp) (sourceID : AccountID) (value : List UInt8) : TxM Unit := do
  let ok ← addNumEntries sourceID 1
  failIf (ok = false) .MANAGE_DATA_LOW_RESERVE
  create (.data ⟨sourceID, op.dataName, value⟩)

/-- `doApply` (32–80) -/
def doApply (op : ManageDataOp) (sourceID : AccountID) : TxM Unit := do
  let data ← loadData sourceID op.dataName
  match op.dataValue, data with
  | some value, none => op.createData sourceID value
  | some value, some data => store (.data { data with dataValue := value })
  | none, none => throw (.failed .MANAGE_DATA_NAME_NOT_FOUND)
  | none, some _ => do
    eraseEntry (.data sourceID op.dataName)
    let _ ← addNumEntries sourceID (-1)
    pure ()

end ManageDataOp

/-! ## Sequence numbers -/

/-- `BumpSequenceOp` -/
structure BumpSequenceOp where
  bumpTo : SequenceNumber
  deriving DecidableEq, Repr

namespace BumpSequenceOp

/-- `doCheckValid` (56–65) -/
def doCheckValid (op : BumpSequenceOp) : Except InnerResultCode Unit :=
  if op.bumpTo < 0 then throw .BUMP_SEQUENCE_BAD_SEQ else pure ()

/-- `doApply` (35–54) -/
def doApply (op : BumpSequenceOp) (sourceID : AccountID) : TxM Unit := do
  let sourceAccount ← loadAccount sourceID
  let sourceAccount ← current sourceAccount
  if op.bumpTo > sourceAccount.seqNum then
    store (.account { sourceAccount with seqNum := op.bumpTo })
  else pure ()

end BumpSequenceOp

/-! ## Inflation -/

def INFLATION_FREQUENCY : Nat := 60 * 60 * 24 * 7

def INFLATION_RATE_TRILLIONTHS : Int := 190721000

def TRILLION : Int := 1000000000000

def INFLATION_WIN_MIN_PERCENT : Int := 500000000

def INFLATION_NUM_WINNERS : Nat := 2000

def INFLATION_START_TIME : Int := 1404172800

namespace Inflation

/-- What a winner gets (78–94): nothing that does not fit the balance -/
def payout (header : LedgerHeader) (winner : Option AccountEntry) (toDole : Int) : Int :=
  match winner with
  | some winner => min (winner.getMaxAmountReceive header) toDole
  | none => toDole

/-- Credit a winner, and return what is left (96–110). -/
def creditWinner (accountID : AccountID) (winner : Option AccountEntry) (toDole left : Int) :
    TxM Int :=
  match winner with
  | none => pure left
  | some _ => do
    let ok ← addAccountBalance accountID toDole
    throwIf (ok = false) "inflation overflowed destination balance"
    pure (int64 (left - toDole))

/-- One winner (74–111) -/
def doleWinner (w : InflationWinner) (amountToDole totalVotes left : Int) : TxM Int := do
  let toDole ← lift (bigDivide amountToDole w.votes totalVotes .ROUND_DOWN)
  if toDole = 0 then pure left
  else do
    let header ← loadHeader
    let winner ← loadAccount w.accountID
    if winner ≠ none ∧ payout header winner toDole = 0 then pure left
    else creditWinner w.accountID winner (payout header winner toDole) left

/-- Credit all winners, and return what is left. -/
def dole (amountToDole totalVotes : Int) : List InflationWinner → Int → TxM Int
  | [], left => pure left
  | w :: winners, left => do
    let left ← doleWinner w amountToDole totalVotes left
    dole amountToDole totalVotes winners left

/-- `doApply` (30–117); `time_t` is an `int64`. -/
def doApply (env : TxEnv) : TxM Unit := do
  let header ← loadHeader
  failIf (int64 header.closeTime <
    INFLATION_START_TIME + header.inflationSeq * INFLATION_FREQUENCY) .INFLATION_NOT_TIME
  let minBalance ← lift (bigDivide header.totalCoins INFLATION_WIN_MIN_PERCENT TRILLION .ROUND_DOWN)
  let s ← get
  let winners := env.queryInflationWinners s INFLATION_NUM_WINNERS minBalance
  let inflationAmount ← lift (bigDivide header.totalCoins INFLATION_RATE_TRILLIONTHS TRILLION
    .ROUND_DOWN)
  let amountToDole := int64 (inflationAmount + header.feePool)
  storeHeader { header with feePool := 0, inflationSeq := (header.inflationSeq + 1) % 2 ^ 32 }
  let leftAfterDole ← dole amountToDole header.totalCoins winners amountToDole
  let header ← loadHeader
  storeHeader { header with
    feePool := int64 (header.feePool + leftAfterDole)
    totalCoins := int64 (header.totalCoins + inflationAmount) }

end Inflation

end EssaCore.Transactions
