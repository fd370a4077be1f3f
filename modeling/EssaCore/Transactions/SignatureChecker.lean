import EssaCore.Transactions.Operation

/-!
# Signatures

`transactions/SignatureChecker.cpp` and `transactions/SignatureUtils.cpp`, with the branches
of protocol 10: which signers of an account have signed a transaction, and whether their
weights reach a threshold. A checker remembers the signatures and the one-time signers that
were used.
-/

namespace EssaCore.Transactions

open Ledger

/-- `DecoratedSignature`; the hint is the last four bytes of a key. -/
structure DecoratedSignature where
  hint : BitVec 32
  signature : List UInt8
  deriving DecidableEq, Repr

/-- `TimeBounds` -/
structure TimeBounds where
  minTime : Nat
  maxTime : Nat
  deriving DecidableEq, Repr

/-- `Transaction`; the memo is left out. -/
structure Transaction where
  sourceAccount : AccountID
  fee : Nat
  seqNum : SequenceNumber
  timeBounds : Option TimeBounds
  operations : List Operation
  deriving DecidableEq, Repr

/-- `TransactionEnvelope` -/
structure TransactionEnvelope where
  tx : Transaction
  signatures : List DecoratedSignature
  deriving DecidableEq, Repr

/-- Hashes and signatures: `PubKeyUtils::verifySig(key, signature, hash)`, `sha256`, and the hash
of the contents of a transaction -/
structure Crypto where
  verifySig : Uint256 → List UInt8 → Uint256 → Bool
  sha256 : List UInt8 → Uint256
  contentsHash : Transaction → Uint256

/-- `doesHintMatch` -/
def doesHintMatch (key : Uint256) (hint : BitVec 32) : Bool := key.setWidth 32 = hint

/-- `SignatureUtils::verify`, for a key of its own kind -/
def verify (crypto : Crypto) (hash : Uint256) (sig : DecoratedSignature) : SignerKey → Bool
  | .ed25519 key => doesHintMatch key sig.hint && crypto.verifySig key sig.signature hash
  | _ => false

/-- `SignatureUtils::verifyHashX`, for a key of its own kind -/
def verifyHashX (crypto : Crypto) (sig : DecoratedSignature) : SignerKey → Bool
  | .hashX hash => doesHintMatch hash sig.hint && decide (hash = crypto.sha256 sig.signature)
  | _ => false

/-- The members of `SignatureChecker` -/
structure SignatureChecker where
  contentsHash : Uint256
  signatures : List DecoratedSignature
  usedSignatures : List Bool
  usedOneTimeSignerKeys : List (AccountID × List SignerKey)

namespace SignatureChecker

/-- The constructor -/
def new (contentsHash : Uint256) (signatures : List DecoratedSignature) : SignatureChecker where
  contentsHash := contentsHash
  signatures := signatures
  usedSignatures := List.replicate signatures.length false
  usedOneTimeSignerKeys := []

/-- `mUsedOneTimeSignerKeys[accountID].insert(key)` -/
def insertUsed (accountID : AccountID) (key : SignerKey) :
    List (AccountID × List SignerKey) → List (AccountID × List SignerKey)
  | [] => [(accountID, [key])]
  | (id, keys) :: used =>
    if id = accountID then (id, if key ∈ keys then keys else keys ++ [key]) :: used
    else if accountID.toNat < id.toNat then (accountID, [key]) :: (id, keys) :: used
    else (id, keys) :: insertUsed accountID key used

/-- The weight that a signer adds -/
def cappedWeight (signer : Signer) : Nat :=
  if signer.weight > UINT8_MAX then UINT8_MAX else signer.weight

/-- A sum of weights, whether it has reached the weight that is needed, and what was used
for it -/
structure Weighed (α : Type) where
  reached : Bool
  totalWeight : Int
  used : α

/-- The loop over the signers of the transaction itself (49–64) -/
def checkPreAuth (contentsHash : Uint256) (accountID : AccountID) (neededWeight : Int) :
    List Signer → Int → List (AccountID × List SignerKey) →
      Weighed (List (AccountID × List SignerKey))
  | [], totalWeight, used => ⟨false, totalWeight, used⟩
  | signer :: signers, totalWeight, used =>
    if signer.key = .preAuthTx contentsHash then
      let used := insertUsed accountID signer.key used
      let totalWeight := totalWeight + cappedWeight signer
      if totalWeight ≥ neededWeight then ⟨true, totalWeight, used⟩
      else checkPreAuth contentsHash accountID neededWeight signers totalWeight used
    else checkPreAuth contentsHash accountID neededWeight signers totalWeight used

/-- `verifyAll` (68–95): the signatures from the `i`-th one on; a signer that is found is not
looked at again. -/
def verifyAll (verify : DecoratedSignature → Signer → Bool) (neededWeight : Int) :
    List DecoratedSignature → Nat → List Signer → Int → List Bool → Weighed (List Bool)
  | [], _, _, totalWeight, used => ⟨false, totalWeight, used⟩
  | sig :: signatures, i, signers, totalWeight, used =>
    match signers.find? (verify sig) with
    | none => verifyAll verify neededWeight signatures (i + 1) signers totalWeight used
    | some signer =>
      let used := used.set i true
      let totalWeight := totalWeight + cappedWeight signer
      if totalWeight ≥ neededWeight then ⟨true, totalWeight, used⟩
      else verifyAll verify neededWeight signatures (i + 1) (signers.eraseP (verify sig))
        totalWeight used

/-- `checkSignature` (28–118). `split` sorts the signers by their kind; `verify` and `verifyHashX`
fail for signers of another kind. -/
def checkSignature (crypto : Crypto) (checker : SignatureChecker) (accountID : AccountID)
    (signers : List Signer) (neededWeight : Int) : Bool × SignatureChecker :=
  let preAuth := checkPreAuth checker.contentsHash accountID neededWeight signers 0
    checker.usedOneTimeSignerKeys
  let checker := { checker with usedOneTimeSignerKeys := preAuth.used }
  if preAuth.reached then (true, checker)
  else
    let hashX := verifyAll (fun sig signer => verifyHashX crypto sig signer.key) neededWeight
      checker.signatures 0 signers preAuth.totalWeight checker.usedSignatures
    let checker := { checker with usedSignatures := hashX.used }
    if hashX.reached then (true, checker)
    else
      let ed25519 := verifyAll (fun sig signer => verify crypto checker.contentsHash sig signer.key)
        neededWeight checker.signatures 0 signers hashX.totalWeight checker.usedSignatures
      (ed25519.reached, { checker with usedSignatures := ed25519.used })

/-- `checkAllSignaturesUsed` -/
def checkAllSignaturesUsed (checker : SignatureChecker) : Bool := checker.usedSignatures.all id

end SignatureChecker

end EssaCore.Transactions
