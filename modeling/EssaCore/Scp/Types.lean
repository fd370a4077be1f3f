import Mathlib

/-!
# SCP wire types (`xdr/EssaBlockChain-SCP.x`)

- `SCPBallot` with `compareBallots` and the three compatibility tests of
  `BallotProtocol.cpp:1665–1709`, and the linear order they decide;
- `SCPStatement` restricted to the three ballot-protocol pledges (nomination
  statements are dispatched to the nomination protocol by
  `Slot::processEnvelope` and never reach the ballot protocol);
- `SCPQuorumSet`, the nested threshold structure.

Counters are the source's `uint32`, values are opaque byte strings compared
lexicographically, node ids and hashes are 256-bit strings.
-/

namespace EssaCore

/-! ## Opaque data -/

/-- An ed25519 public key. -/
abbrev PublicKey := BitVec 256

abbrev NodeID := PublicKey

abbrev Hash := BitVec 256

abbrev Signature := List UInt8

namespace Scp

scoped instance lawfulBEqNodeID : LawfulBEq NodeID := inferInstance

/-- `opaque Value<>`. -/
abbrev Value := List UInt8

/-- `UINT32_MAX`. -/
def uint32Max : UInt32 := 4294967295

instance linearOrderUInt32 : LinearOrder UInt32 where
  le_refl := UInt32.le_refl
  le_trans _ _ _ := UInt32.le_trans
  le_antisymm _ _ := UInt32.le_antisymm
  le_total := UInt32.le_total
  lt_iff_le_not_ge a b := by
    simp only [UInt32.lt_iff_toNat_lt, UInt32.le_iff_toNat_le]; omega
  toDecidableLE := inferInstance
  toDecidableEq := inferInstance
  toDecidableLT := inferInstance
  min_def a b := by rfl
  max_def a b := by rfl
  compare_eq_compareOfLessAndEq a b := by rfl

/-! ## Ballots -/

/-- A ballot: counter `n` and value `x`. -/
structure SCPBallot where
  counter : UInt32
  value : Value
deriving DecidableEq, Repr, Inhabited

/-- The default-constructed ballot `(0, "")`. -/
def SCPBallot.null : SCPBallot := ⟨0, []⟩

/-- `compareBallots`: by counter, then by value. -/
def compareBallots (b1 b2 : SCPBallot) : Ordering :=
  if b1.counter < b2.counter then .lt
  else if b2.counter < b1.counter then .gt
  -- ballots are also strictly ordered by value
  else if b1.value < b2.value then .lt
  else if b2.value < b1.value then .gt
  else .eq

def areBallotsCompatible (b1 b2 : SCPBallot) : Bool :=
  b1.value == b2.value

def areBallotsLessAndIncompatible (b1 b2 : SCPBallot) : Bool :=
  (compareBallots b1 b2).isLE && !areBallotsCompatible b1 b2

def areBallotsLessAndCompatible (b1 b2 : SCPBallot) : Bool :=
  (compareBallots b1 b2).isLE && areBallotsCompatible b1 b2

/-! ### The ballot order -/

instance : LT SCPBallot where
  lt a b := a.counter < b.counter ∨ (a.counter = b.counter ∧ a.value < b.value)

instance : LE SCPBallot where
  le a b := a.counter < b.counter ∨ (a.counter = b.counter ∧ a.value ≤ b.value)

variable {b a : SCPBallot}

theorem SCPBallot.lt_def : a < b ↔ a.counter < b.counter ∨
      (a.counter = b.counter ∧ a.value < b.value) := Iff.rfl

theorem SCPBallot.le_def : a ≤ b ↔ a.counter < b.counter ∨
      (a.counter = b.counter ∧ a.value ≤ b.value) := Iff.rfl

instance : DecidableLT SCPBallot := fun a b =>
  inferInstanceAs (Decidable (a.counter < b.counter ∨
    (a.counter = b.counter ∧ a.value < b.value)))

instance : DecidableLE SCPBallot := fun a b =>
  inferInstanceAs (Decidable (a.counter < b.counter ∨
    (a.counter = b.counter ∧ a.value ≤ b.value)))

/-- Ballots are linearly ordered by counter, then by value. -/
instance : LinearOrder SCPBallot where
  le_refl a := by grind [SCPBallot.le_def]
  le_trans a b c := by grind [SCPBallot.le_def]
  le_antisymm a b := by
    cases a; cases b
    grind [SCPBallot.le_def]
  le_total a b := by grind [SCPBallot.le_def]
  lt_iff_le_not_ge a b := by grind [SCPBallot.le_def, SCPBallot.lt_def]
  toDecidableLE := inferInstance
  toDecidableEq := inferInstance
  toDecidableLT := inferInstance

theorem compareBallots_lt_iff : compareBallots a b = .lt ↔ a < b := by
  unfold compareBallots
  grind [SCPBallot.lt_def]

theorem compareBallots_gt_iff : compareBallots a b = .gt ↔ b < a := by
  unfold compareBallots
  grind [SCPBallot.lt_def]

theorem compareBallots_eq_iff : compareBallots a b = .eq ↔ a = b := by
  obtain ⟨n, x⟩ := a
  obtain ⟨m, y⟩ := b
  unfold compareBallots
  grind

theorem isLE_compareBallots_iff : (compareBallots a b).isLE = true ↔ a ≤ b := by
  rcases lt_trichotomy a b with h | h | h
  · simp [compareBallots_lt_iff.2 h, h.le]
  · subst h
    simp [compareBallots_eq_iff.2 rfl]
  · simp [compareBallots_gt_iff.2 h, h]

theorem isGE_compareBallots_iff : (compareBallots a b).isGE = true ↔ b ≤ a := by
  rcases lt_trichotomy a b with h | h | h
  · simp [compareBallots_lt_iff.2 h, h]
  · subst h
    simp [compareBallots_eq_iff.2 rfl]
  · simp [compareBallots_gt_iff.2 h, h.le]

@[simp] theorem areBallotsCompatible_iff : areBallotsCompatible a b = true ↔ a.value = b.value := by
  simp [areBallotsCompatible]

@[simp] theorem areBallotsLessAndCompatible_iff :
    areBallotsLessAndCompatible a b = true ↔ a ≤ b ∧ a.value = b.value := by
  simp [areBallotsLessAndCompatible, isLE_compareBallots_iff]

theorem SCPBallot.counter_le_of_le (h : a ≤ b) : a.counter ≤ b.counter := by
  grind [SCPBallot.le_def]

/-! ## Statements -/

inductive SCPStatementType where
  | prepare
  | confirm
  | externalize
deriving DecidableEq, Repr

/-- The enumerator's value: `PREPARE < CONFIRM < EXTERNALIZE`. -/
def SCPStatementType.rank : SCPStatementType → Nat
  | .prepare => 0
  | .confirm => 1
  | .externalize => 2

structure PreparePledge where
  quorumSetHash : Hash
  ballot : SCPBallot
  prepared : Option SCPBallot
  preparedPrime : Option SCPBallot
  nC : UInt32
  nH : UInt32
deriving DecidableEq, Repr

structure ConfirmPledge where
  ballot : SCPBallot
  nPrepared : UInt32
  nCommit : UInt32
  nH : UInt32
  quorumSetHash : Hash
deriving DecidableEq, Repr

structure ExternalizePledge where
  commit : SCPBallot
  nH : UInt32
  commitQuorumSetHash : Hash
deriving DecidableEq, Repr

/-- The union in `SCPStatement`, without its nomination arm. -/
inductive SCPPledges where
  | prepare (p : PreparePledge)
  | confirm (c : ConfirmPledge)
  | externalize (e : ExternalizePledge)
deriving DecidableEq, Repr

def SCPPledges.type : SCPPledges → SCPStatementType
  | .prepare _ => .prepare
  | .confirm _ => .confirm
  | .externalize _ => .externalize

structure SCPStatement where
  nodeID : NodeID
  slotIndex : UInt64
  pledges : SCPPledges
deriving DecidableEq, Repr

structure SCPEnvelope where
  statement : SCPStatement
  signature : Signature
deriving DecidableEq, Repr

/-- `mLatestEnvelopes`: the latest envelope of each node. Nothing the protocol
computes depends on the order in which the source iterates this map. -/
abbrev EnvelopeMap := AList fun _ : NodeID => SCPEnvelope

/-! ## Quorum sets -/

/-- `threshold` out of the validators and inner sets, e.g.
`A,B,C,(D,E,F),(G,H,(I,J,K,L))`. -/
inductive SCPQuorumSet where
  | mk (threshold : UInt32) (validators : List NodeID)
      (innerSets : List SCPQuorumSet)

end Scp
end EssaCore
