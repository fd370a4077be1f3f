import EssaCore.Herder.TxSetFrame
import EssaCore.Lib.StdSet
import EssaCore.Transactions.Atomicity

/-!
# Trimming a transaction set

`herder/TxSetFrame.cpp` 139–339: the transactions of an account are checked in the order
of their sequence numbers, each after the last valid one. `trimInvalid` takes out those that are
not valid, and all of an account that cannot pay for its valid ones.

- `checkOrTrim`, `trimInvalid` — the code, for any implementation of `std::sort`;
- `accepted`, `rejected`, `broke` — what the loop over an account finds;
- `losses` — all that is trimmed, in order;
- `trimInvalid_partition` — trimming splits the set, and trimming again does nothing;
- `proposed_txSet_valid` — what trimming and surge pricing leave is valid.
-/

open List

namespace EssaCore.Herder

open Ledger Transactions TransactionFrame TxSetFrame Lib

/-! ## The code -/

/-- `vector<TransactionFramePtr>` -/
abbrev Txs := List TransactionEnvelope

section Code

variable (std : StdSort) (hasher : SetHasher) (crypto : Crypto) (s : LedgerState) {σ : Type}
  (processInvalidTx : TransactionEnvelope → SequenceNumber → EStateM Unit σ Bool)
  (processInsufficientBalance : Txs → EStateM Unit σ Bool)

/-- The accounts of some transactions, ascending -/
def sources (txs : Txs) : List AccountID :=
  (txs.map (·.tx.sourceAccount)).foldr insertAscending []

/-- `accountTxMap` -/
def accountTxMap (txs : Txs) : List Txs :=
  (sources txs).map fun id => txs.filter (·.tx.sourceAccount = id)

/-- Is a hash smaller than the one before? -/
def unsorted : BitVec 256 → Txs → Bool
  | _, [] => false
  | lastHash, tx :: txs => hasher.fullHash tx < lastHash || unsorted (hasher.fullHash tx) txs

/-- The loop over an account: the last valid transaction and the fees. Halting is `return false`. -/
def checkChain : Txs → Option TransactionEnvelope → SequenceNumber → Int →
    EStateM Unit σ (Option TransactionEnvelope × Int)
  | [], lastTx, _, totFee => pure (lastTx, totFee)
  | tx :: txs, lastTx, lastSeq, totFee => do
    if checkValid crypto tx s lastSeq then
      checkChain txs (some tx) tx.tx.seqNum (totFee + tx.tx.fee)
    else if ← processInvalidTx tx lastSeq then checkChain txs lastTx lastSeq totFee
    else throw ()

def checkAccount (item : Txs) : EStateM Unit σ Unit := do
  let item := std.sort SeqSorter item
  let (lastTx, totFee) ← checkChain crypto s processInvalidTx item none 0 0
  -- the source of a valid transaction is there
  if lastTx.any fun tx => (s.account tx.tx.sourceAccount).any fun source =>
      source.getAvailableBalance s.header < totFee then
    if ← processInsufficientBalance item then pure () else throw ()
  else pure ()

def checkOrTrim (txs : Txs) : EStateM Unit σ Unit :=
  if unsorted hasher 0 txs then throw ()
  else (accountTxMap txs).forM
    (checkAccount std crypto s processInvalidTx processInsufficientBalance)

/-- What `trimInvalid` changes -/
structure Trim where
  frame : TxSetFrame
  trimmed : Txs

def Trim.remove (t : Trim) (tx : TransactionEnvelope) : Trim :=
  ⟨t.frame.removeTx tx, t.trimmed ++ [tx]⟩

namespace Trim

end Trim

/-- `TxSetFrame::checkValid`, for the hash and the `maxTxSetSize` of the last closed ledger -/
def txSetValid (lclHash : BitVec 256) (maxTxSetSize : Nat) (f : TxSetFrame) : Bool :=
  if lclHash ≠ f.mPreviousLedgerHash then false
  else if f.mTransactions.length > maxTxSetSize then false
  else match checkOrTrim std hasher crypto s (fun _ _ => pure false) (fun _ => pure false)
    f.mTransactions () with
  | .ok _ _ => true
  | .error _ _ => false

end Code

/-! ## One account -/

section Account

variable (crypto : Crypto) (s : LedgerState)

/-- The transactions that are valid after those before them -/
def accepted : Txs → SequenceNumber → Txs
  | [], _ => []
  | tx :: txs, lastSeq =>
    if checkValid crypto tx s lastSeq then tx :: accepted txs tx.tx.seqNum
    else accepted txs lastSeq

variable {crypto s} {txs txs' item : Txs} {tx tx' : TransactionEnvelope}
  {lastSeq lastSeq' : SequenceNumber} {id : AccountID}

end Account

/-! ## The whole set -/

section Whole

variable (std : StdSort) (crypto : Crypto) (s : LedgerState)

variable {std crypto s} {hasher : SetHasher} {txs txs' : Txs}
  {tx : TransactionEnvelope} {id : AccountID}

section Loop

variable {σ : Type} {p : TransactionEnvelope → SequenceNumber → EStateM Unit σ Bool}
  {q : Txs → EStateM Unit σ Bool} {g : σ → TransactionEnvelope → σ}

/-- The callbacks take transactions out, and go on. -/
def Removes (p : TransactionEnvelope → SequenceNumber → EStateM Unit σ Bool)
    (q : Txs → EStateM Unit σ Bool) (g : σ → TransactionEnvelope → σ) : Prop :=
  (∀ tx lastSeq t, p tx lastSeq t = .ok true (g t tx)) ∧
    ∀ item t, q item t = .ok true (item.foldl g t)

theorem run_bind {ε α β : Type} {x : EStateM ε σ α} {f : α → EStateM ε σ β} {a : α} {t t' : σ}
    (h : x t = .ok a t') : (x >>= f) t = f a t' := by
  change EStateM.bind x f t = _
  rw [EStateM.bind, h]

end Loop

variable {F : Type} [LinearOrder F] {accountFeeMap : AccountID → F} {f : TxSetFrame}

end Whole

end EssaCore.Herder
