import EssaCore.Lib.StateMachine
import EssaCore.Ledger.LedgerState

/-!
# Results of operations, and calls on the ledger

How a call on the ledger can end (`xdr/EssaBlockChain-transaction.x` 377–760): it
returns, it fails with a result code, or it throws. A failed call keeps what it has
written so far; whoever made it decides what becomes of that.

- `InnerResultCode` — the codes of operations that are not a success;
- `TxError`, `TxM` — how calls end; calls on the ledger;
- `nested` — a child `LedgerTxn` that is committed when its body returns.
-/

namespace EssaCore.Transactions

open Ledger

/-- The codes of the results of operations that stand for a failure. -/
inductive InnerResultCode where
  | CREATE_ACCOUNT_MALFORMED
  | CREATE_ACCOUNT_UNDERFUNDED
  | CREATE_ACCOUNT_LOW_RESERVE
  | CREATE_ACCOUNT_ALREADY_EXIST
  | PAYMENT_MALFORMED
  | PAYMENT_UNDERFUNDED
  | PAYMENT_SRC_NO_TRUST
  | PAYMENT_SRC_NOT_AUTHORIZED
  | PAYMENT_NO_DESTINATION
  | PAYMENT_NO_TRUST
  | PAYMENT_NOT_AUTHORIZED
  | PAYMENT_LINE_FULL
  | PAYMENT_NO_ISSUER
  | PATH_PAYMENT_MALFORMED
  | PATH_PAYMENT_UNDERFUNDED
  | PATH_PAYMENT_SRC_NO_TRUST
  | PATH_PAYMENT_SRC_NOT_AUTHORIZED
  | PATH_PAYMENT_NO_DESTINATION
  | PATH_PAYMENT_NO_TRUST
  | PATH_PAYMENT_NOT_AUTHORIZED
  | PATH_PAYMENT_LINE_FULL
  | PATH_PAYMENT_NO_ISSUER
  | PATH_PAYMENT_TOO_FEW_OFFERS
  | PATH_PAYMENT_OFFER_CROSS_SELF
  | PATH_PAYMENT_OVER_SENDMAX
  | MANAGE_OFFER_MALFORMED
  | MANAGE_OFFER_SELL_NO_TRUST
  | MANAGE_OFFER_BUY_NO_TRUST
  | MANAGE_OFFER_SELL_NOT_AUTHORIZED
  | MANAGE_OFFER_BUY_NOT_AUTHORIZED
  | MANAGE_OFFER_LINE_FULL
  | MANAGE_OFFER_UNDERFUNDED
  | MANAGE_OFFER_CROSS_SELF
  | MANAGE_OFFER_SELL_NO_ISSUER
  | MANAGE_OFFER_BUY_NO_ISSUER
  | MANAGE_OFFER_NOT_FOUND
  | MANAGE_OFFER_LOW_RESERVE
  | SET_OPTIONS_LOW_RESERVE
  | SET_OPTIONS_TOO_MANY_SIGNERS
  | SET_OPTIONS_BAD_FLAGS
  | SET_OPTIONS_INVALID_INFLATION
  | SET_OPTIONS_CANT_CHANGE
  | SET_OPTIONS_UNKNOWN_FLAG
  | SET_OPTIONS_THRESHOLD_OUT_OF_RANGE
  | SET_OPTIONS_BAD_SIGNER
  | SET_OPTIONS_INVALID_HOME_DOMAIN
  | CHANGE_TRUST_MALFORMED
  | CHANGE_TRUST_NO_ISSUER
  | CHANGE_TRUST_INVALID_LIMIT
  | CHANGE_TRUST_LOW_RESERVE
  | CHANGE_TRUST_SELF_NOT_ALLOWED
  | ALLOW_TRUST_MALFORMED
  | ALLOW_TRUST_NO_TRUST_LINE
  | ALLOW_TRUST_TRUST_NOT_REQUIRED
  | ALLOW_TRUST_CANT_REVOKE
  | ALLOW_TRUST_SELF_NOT_ALLOWED
  | ACCOUNT_MERGE_MALFORMED
  | ACCOUNT_MERGE_NO_ACCOUNT
  | ACCOUNT_MERGE_IMMUTABLE_SET
  | ACCOUNT_MERGE_HAS_SUB_ENTRIES
  | ACCOUNT_MERGE_SEQNUM_TOO_FAR
  | ACCOUNT_MERGE_DEST_FULL
  | INFLATION_NOT_TIME
  | MANAGE_DATA_NOT_SUPPORTED_YET
  | MANAGE_DATA_NAME_NOT_FOUND
  | MANAGE_DATA_LOW_RESERVE
  | MANAGE_DATA_INVALID_NAME
  | BUMP_SEQUENCE_BAD_SEQ
  deriving DecidableEq, Repr

/-- How a call can end other than by returning. -/
inductive TxError where
  /-- the result code is set and `false` returned -/
  | failed (code : InnerResultCode)
  /-- `std::runtime_error` -/
  | runtimeError (what : String)
  /-- an `assert`, or a null entry that is used -/
  | assertion
  /-- a loop of the model was cut off; no call ends so -/
  | outOfFuel
  deriving DecidableEq, Repr

/-- Calls on the ledger. -/
abbrev TxM := EStateM TxError LedgerState

/-- `assert(cond)` -/
def assert (cond : Prop) [Decidable cond] : Except TxError Unit :=
  if cond then pure () else throw .assertion

theorem assert_eq_ok {cond : Prop} [Decidable cond] : assert cond = .ok () ↔ cond := by
  unfold assert
  split
  · rename_i h
    exact ⟨fun _ => h, fun _ => rfl⟩
  · rename_i h
    exact ⟨nofun, fun h' => absurd h' h⟩

/-- What follows an `assert` runs only if it holds. -/
theorem assert_bind_eq_ok {α : Type} {cond : Prop} [Decidable cond] {f : Unit → Except TxError α}
    {a : α} : (assert cond >>= f) = .ok a ↔ cond ∧ f () = .ok a := by
  by_cases h : cond
  · rw [assert_eq_ok.mpr h]
    exact ⟨fun hf => ⟨h, hf⟩, fun hf => hf.2⟩
  · rw [assert, if_neg h]
    exact ⟨nofun, fun hf => absurd hf.1 h⟩

/-- A computation that does not read the ledger. -/
def lift {α : Type} : Except TxError α → TxM α
  | .ok a => pure a
  | .error e => throw e

/-- A child `LedgerTxn` that is committed at the end and rolled back on every other
way out. -/
def nested {α : Type} (x : TxM α) : TxM α := fun s =>
  match x s with
  | .ok a s' => .ok a s'
  | .error e _ => .error e s

end EssaCore.Transactions
