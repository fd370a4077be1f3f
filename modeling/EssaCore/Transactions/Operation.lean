import EssaCore.Transactions.AccountOps
import EssaCore.Transactions.ManageOfferOp
import EssaCore.Transactions.PathPaymentOp
import EssaCore.Transactions.TrustOps

/-!
# Operations

`transactions/OperationFrame.cpp` and what it dispatches to: the twelve kinds of operation,
whether one is well formed, which signatures it needs, and what it does.
-/

namespace EssaCore.Transactions

open Ledger

/-- `ThresholdLevel` -/
inductive ThresholdLevel where
  | LOW
  | MEDIUM
  | HIGH
  deriving DecidableEq, Repr

/-- The body of an operation -/
inductive OperationBody where
  | createAccount (op : CreateAccountOp)
  | payment (op : PaymentOp)
  | pathPayment (op : PathPaymentOp)
  | manageOffer (op : ManageOfferOp)
  | createPassiveOffer (op : CreatePassiveOfferOp)
  | setOptions (op : SetOptionsOp)
  | changeTrust (op : ChangeTrustOp)
  | allowTrust (op : AllowTrustOp)
  | accountMerge (op : MergeOp)
  | inflation
  | manageData (op : ManageDataOp)
  | bumpSequence (op : BumpSequenceOp)
  deriving DecidableEq, Repr

/-- `Operation` -/
structure Operation where
  sourceAccount : Option AccountID
  body : OperationBody
  deriving DecidableEq, Repr

namespace OperationBody

/-- `doCheckValid` of the operations -/
def doCheckValid (sourceID : AccountID) : OperationBody → Except InnerResultCode Unit
  | createAccount op => op.doCheckValid sourceID
  | payment op => op.doCheckValid
  | pathPayment op => op.doCheckValid
  | manageOffer op => op.doCheckValid
  | createPassiveOffer op => op.manageOffer.doCheckValid
  | setOptions op => op.doCheckValid sourceID
  | changeTrust op => op.doCheckValid
  | allowTrust op => op.doCheckValid sourceID
  | accountMerge op => op.doCheckValid sourceID
  | inflation => pure ()
  | manageData op => op.doCheckValid
  | bumpSequence op => op.doCheckValid

/-- `doApply` of the operations -/
def doApply (env : TxEnv) (sourceID : AccountID) : OperationBody → TxM Unit
  | createAccount op => op.doApply sourceID
  | payment op => op.doApply env sourceID
  | pathPayment op => do
    let _ ← op.doApply env sourceID
  | manageOffer op => do
    let _ ← op.doApply env sourceID false
  | createPassiveOffer op => do
    let _ ← op.manageOffer.doApply env sourceID true
  | setOptions op => op.doApply sourceID
  | changeTrust op => op.doApply sourceID
  | allowTrust op => op.doApply sourceID
  | accountMerge op => op.doApply sourceID
  | inflation => Inflation.doApply env
  | manageData op => op.doApply sourceID
  | bumpSequence op => op.doApply sourceID

/-- `getThresholdLevel` of the operations -/
def getThresholdLevel : OperationBody → ThresholdLevel
  | setOptions op =>
    if op.masterWeight.isSome ∨ op.lowThreshold.isSome ∨ op.medThreshold.isSome ∨
        op.highThreshold.isSome ∨ op.signer.isSome then .HIGH
    else .MEDIUM
  | allowTrust _ => .LOW
  | accountMerge _ => .HIGH
  | inflation => .LOW
  | bumpSequence _ => .LOW
  | _ => .MEDIUM

end OperationBody

end EssaCore.Transactions
