import EssaCore.Transactions.SignatureChecker

/-!
# Transactions

`transactions/TransactionFrame.cpp` and `transactions/OperationFrame.cpp`, with the branches
of protocol 10, and the loops over the transactions of a ledger of
`ledger/LedgerManagerImpl.cpp` 916–1000: fees are charged for all transactions first; then
each one is validated again, its sequence number and one-time signers are consumed, and its
operations are applied together or not at all.

The result of a transaction is left out but for its success, and so is the meta data.
-/

namespace EssaCore.Transactions

open Ledger

/-- `THRESHOLD_LOW`, `THRESHOLD_MED` or `THRESHOLD_HIGH` of an account -/
def getNeededThreshold (acc : AccountEntry) : ThresholdLevel → Nat
  | .LOW => acc.thresholds.low
  | .MEDIUM => acc.thresholds.med
  | .HIGH => acc.thresholds.high

/-- `ValidationType`, in the order of its values -/
inductive ValidationType where
  | kInvalid
  | kInvalidUpdateSeqNum
  | kInvalidPostAuth
  | kFullyValid
  deriving DecidableEq, Repr

namespace ValidationType

def toNat : ValidationType → Nat
  | kInvalid => 0
  | kInvalidUpdateSeqNum => 1
  | kInvalidPostAuth => 2
  | kFullyValid => 3

end ValidationType

namespace Operation

/-- `getSourceID` -/
def getSourceID (op : Operation) (tx : Transaction) : AccountID :=
  op.sourceAccount.getD tx.sourceAccount

end Operation

/-- The signers of an account, with its own key if that has a weight (133–143) -/
def accountSigners (acc : AccountEntry) : List Signer :=
  (if acc.thresholds.masterWeight ≠ 0 then
    [⟨.ed25519 acc.accountID, acc.thresholds.masterWeight⟩] else []) ++ acc.signers

/-- `TransactionFrame::checkSignature` (128–147) -/
def checkSignature (crypto : Crypto) (checker : SignatureChecker) (acc : AccountEntry)
    (neededWeight : Nat) : Bool × SignatureChecker :=
  checker.checkSignature crypto acc.accountID (accountSigners acc) neededWeight

/-- `checkSignatureNoAccount` (149–157) -/
def checkSignatureNoAccount (crypto : Crypto) (checker : SignatureChecker) (accountID : AccountID) :
    Bool × SignatureChecker :=
  checker.checkSignature crypto accountID [⟨.ed25519 accountID, 1⟩] 0

/-- `OperationFrame::checkSignature` (131–167) -/
def Operation.checkSignature (crypto : Crypto) (checker : SignatureChecker) (op : Operation)
    (tx : Transaction) (s : LedgerState) (forApply : Bool) : Bool × SignatureChecker :=
  match s.account (op.getSourceID tx) with
  | some acc => Transactions.checkSignature crypto checker acc
      (getNeededThreshold acc op.body.getThresholdLevel)
  | none =>
    match op.sourceAccount with
    | none => (false, checker)
    | some id => if forApply then (false, checker) else checkSignatureNoAccount crypto checker id

/-- The signatures of all operations; none is skipped (316–323). -/
def checkOperationSignatures (crypto : Crypto) (tx : Transaction) (s : LedgerState) :
    List Operation → SignatureChecker → Bool × SignatureChecker
  | [], checker => (true, checker)
  | op :: ops, checker =>
    let checked := op.checkSignature crypto checker tx s false
    let rest := checkOperationSignatures crypto tx s ops checked.2
    (checked.1 && rest.1, rest.2)

/-- `isVersionSupported` -/
def OperationBody.isVersionSupported (header : LedgerHeader) : OperationBody → Bool
  | .bumpSequence _ => header.ledgerVersion ≥ 10
  | _ => true

/-- `OperationFrame::checkValid(signatureChecker, app, ltx, forApply)` (182–219) -/
def Operation.checkValid (crypto : Crypto) (checker : SignatureChecker) (op : Operation)
    (tx : Transaction) (s : LedgerState) (forApply : Bool) : Bool × SignatureChecker :=
  if op.body.isVersionSupported s.header = false then (false, checker)
  else
    let checked := if forApply then ((s.account (op.getSourceID tx)).isSome, checker)
      else op.checkSignature crypto checker tx s forApply
    if checked.1 = false then checked
    else ((op.body.doCheckValid (op.getSourceID tx)).isOk, checked.2)

/-- What is left of a call that may fail: whether it succeeded -/
def succeeds (x : TxM Unit) : TxM Bool := fun s =>
  match x s with
  | .ok () s' => .ok true s'
  | .error (.failed _) s' => .ok false s'
  | .error e s' => .error e s'

/-- `OperationFrame::apply` (95–115) -/
def Operation.apply (env : TxEnv) (crypto : Crypto) (checker : SignatureChecker) (op : Operation)
    (tx : Transaction) : TxM Bool := do
  let s ← get
  if (op.checkValid crypto checker tx s true).1 = false then pure false
  else succeeds (op.body.doApply env (op.getSourceID tx))

namespace TransactionFrame

/-- `getMinFee` -/
def getMinFee (header : LedgerHeader) (tx : Transaction) : Nat :=
  header.baseFee * max 1 tx.operations.length

/-- `commonValidPreSeqNum` (236–277) -/
def commonValidPreSeqNum (tx : Transaction) (s : LedgerState) : Bool :=
  if tx.operations.length = 0 then false
  else if tx.timeBounds.any fun bounds => bounds.minTime > s.header.closeTime then false
  else if tx.timeBounds.any fun bounds =>
      bounds.maxTime ≠ 0 ∧ bounds.maxTime < s.header.closeTime then false
  else if tx.fee < getMinFee s.header tx then false
  else (s.account tx.sourceAccount).isSome

/-- `processSeqNum` (279–292) -/
def processSeqNum (tx : Transaction) : TxM Unit := do
  let sourceAccount ← loadAccount tx.sourceAccount
  let acc ← current sourceAccount
  throwIf (acc.seqNum > tx.seqNum) "unexpected sequence number"
  store (.account { acc with seqNum := tx.seqNum })

/-- The sequence number of a transaction follows the current one (354–367); zero stands for the
one of the account. -/
def checkSeqNum (tx : Transaction) (acc : AccountEntry) (current : SequenceNumber) : Bool :=
  let current := if current = 0 then acc.seqNum else current
  ¬ (current = INT64_MAX ∨ current + 1 ≠ tx.seqNum)

/-- `commonValid` (336–391) -/
def commonValid (crypto : Crypto) (checker : SignatureChecker) (tx : Transaction) (s : LedgerState)
    (current : SequenceNumber) (applying : Bool) : ValidationType × SignatureChecker :=
  if commonValidPreSeqNum tx s = false then (.kInvalid, checker)
  else match s.account tx.sourceAccount with
    | none => (.kInvalid, checker)
    | some acc =>
      if checkSeqNum tx acc current = false then (.kInvalid, checker)
      else
        let checked := checkSignature crypto checker acc acc.thresholds.low
        if checked.1 = false then (.kInvalidUpdateSeqNum, checked.2)
        else if acc.getAvailableBalance s.header < (if applying then 0 else tx.fee : Nat) then
          (.kInvalidPostAuth, checked.2)
        else (.kFullyValid, checked.2)

/-- `removeAccountSigner` (463–482) -/
def removeAccountSigner (header : LedgerHeader) (acc : AccountEntry) (key : SignerKey) :
    Except TxError (Option AccountEntry) :=
  if acc.signers.any (·.key = key) then do
    let removed ← acc.addNumEntries header (-1)
    match removed with
    | none => throw .assertion
    | some acc => pure (some { acc with signers := acc.signers.eraseP (·.key = key) })
  else pure none

/-- The first of the keys that an account has is removed (447–452). -/
def removeFirst (header : LedgerHeader) (acc : AccountEntry) :
    List SignerKey → Except TxError (Option AccountEntry)
  | [] => pure none
  | key :: keys => do
    let removed ← removeAccountSigner header acc key
    match removed with
    | some acc => pure (some acc)
    | none => removeFirst header acc keys

/-- `removeUsedOneTimeSignerKeys` for one account (440–458) -/
def removeUsedFrom (accountID : AccountID) (keys : List SignerKey) : TxM Unit := do
  let account ← loadAccount accountID
  match account with
  | none => pure ()
  | some acc => do
    let header ← loadHeader
    let changed ← lift (removeFirst header acc keys)
    match changed with
    | none => pure ()
    | some acc => store (.account (normalizeSigners acc))

/-- `removeUsedOneTimeSignerKeys` (430–438) -/
def removeUsedOneTimeSignerKeys : List (AccountID × List SignerKey) → TxM Unit
  | [] => pure ()
  | (accountID, keys) :: used => do
    removeUsedFrom accountID keys
    removeUsedOneTimeSignerKeys used

/-- `processSignatures` (294–334) -/
def processSignatures (crypto : Crypto) (checker : SignatureChecker) (tx : Transaction) :
    TxM (Bool × SignatureChecker) := do
  let s ← get
  let checked := checkOperationSignatures crypto tx s tx.operations checker
  removeUsedOneTimeSignerKeys checked.2.usedOneTimeSignerKeys
  pure (checked.1 && checked.2.checkAllSignaturesUsed, checked.2)

/-- The part of `apply` before the operations: whether they are to be applied (612–629) -/
def prepare (crypto : Crypto) (envelope : TransactionEnvelope) :
    TxM (Bool × SignatureChecker) := nested do
  let s ← get
  let checker := SignatureChecker.new (crypto.contentsHash envelope.tx) envelope.signatures
  let cv := commonValid crypto checker envelope.tx s 0 true
  if cv.1.toNat ≥ ValidationType.kInvalidUpdateSeqNum.toNat then processSeqNum envelope.tx
  else pure ()
  if cv.1.toNat ≥ ValidationType.kInvalidPostAuth.toNat then do
    let signatures ← processSignatures crypto cv.2 envelope.tx
    pure (signatures.1 && decide (cv.1 = .kFullyValid), signatures.2)
  else pure (false, cv.2)

/-- The loop over the operations: each one is applied, also after one that failed. -/
def applyLoop (env : TxEnv) (crypto : Crypto) (checker : SignatureChecker) (tx : Transaction) :
    List Operation → TxM Bool
  | [] => pure true
  | op :: ops => do
    let ok ← op.apply env crypto checker tx
    let rest ← applyLoop env crypto checker tx ops
    pure (ok && rest)

/-- `applyOperations` (548–602): the operations take effect if all of them succeed. -/
def applyOperations (env : TxEnv) (crypto : Crypto) (checker : SignatureChecker)
    (tx : Transaction) : TxM Bool := fun s =>
  match applyLoop env crypto checker tx tx.operations s with
  | .ok true s' => .ok true s'
  | .ok false _ => .ok false s
  | .error e _ => .error e s

/-- `apply` (604–631) -/
def apply (env : TxEnv) (crypto : Crypto) (envelope : TransactionEnvelope) : TxM Bool := do
  let prepared ← prepare crypto envelope
  if prepared.1 then applyOperations env crypto prepared.2 envelope.tx
  else pure false

/-- The fee that is charged -/
def feeCharged (tx : Transaction) (acc : AccountEntry) : Int :=
  if (tx.fee : Int) > 0 then min acc.balance tx.fee else tx.fee

/-- `processFeeSeqNum` (393–428) -/
def processFeeSeqNum (tx : Transaction) : TxM Unit := do
  let header ← loadHeader
  let sourceAccount ← loadAccount tx.sourceAccount
  let acc ← orThrow "Unexpected database state" sourceAccount
  let fee := feeCharged tx acc
  if (tx.fee : Int) > 0 then do
    let balance ← lift (addBalance acc.balance (-fee) INT64_MAX)
    store (.account { acc with balance := balance.getD acc.balance })
    storeHeader { header with feePool := int64 (header.feePool + fee) }
  else pure ()

/-- `checkValid` (484–518) -/
def checkValid (crypto : Crypto) (envelope : TransactionEnvelope) (s : LedgerState)
    (current : SequenceNumber) : Bool :=
  let checker := SignatureChecker.new (crypto.contentsHash envelope.tx) envelope.signatures
  let cv := commonValid crypto checker envelope.tx s current false
  if cv.1 ≠ .kFullyValid then false
  else
    let checked := envelope.tx.operations.foldl (fun checked op =>
      if checked.1 then op.checkValid crypto checked.2 envelope.tx s false else checked)
      (true, cv.2)
    checked.1 && checked.2.checkAllSignaturesUsed

end TransactionFrame

/-! ## The transactions of a ledger -/

/-- `LedgerManagerImpl::processFeesSeqNums` -/
def processFeesSeqNums : List TransactionEnvelope → TxM Unit
  | [] => pure ()
  | envelope :: txs => do
    TransactionFrame.processFeeSeqNum envelope.tx
    processFeesSeqNums txs

/-- A transaction that throws leaves what it has committed: the exception is caught, and the
transaction ends with an internal error. A failed `assert` is not caught. -/
def applyTransaction (env : TxEnv) (crypto : Crypto) (envelope : TransactionEnvelope) :
    TxM Unit := fun s =>
  match TransactionFrame.apply env crypto envelope s with
  | .ok _ s' => .ok () s'
  | .error .assertion s' => .error .assertion s'
  | .error _ s' => .ok () s'

/-- `LedgerManagerImpl::applyTransactions` -/
def applyTransactions (env : TxEnv) (crypto : Crypto) : List TransactionEnvelope → TxM Unit
  | [] => pure ()
  | envelope :: txs => do
    applyTransaction env crypto envelope
    applyTransactions env crypto txs

/-- The transactions of a ledger, in the order they are applied -/
def closeTransactions (env : TxEnv) (crypto : Crypto) (txs : List TransactionEnvelope) :
    TxM Unit := do
  nested (processFeesSeqNums txs)
  applyTransactions env crypto txs

end EssaCore.Transactions
