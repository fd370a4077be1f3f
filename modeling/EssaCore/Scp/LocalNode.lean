import EssaCore.Scp.Types

/-!
# Slices, blocking sets and quorums (`scp/LocalNode.cpp`, `scp/QuorumSetUtils.cpp`)

- `isQuorumSlice` / `isVBlocking` (`LocalNode.cpp:118–214`): whether a set of
  nodes contains a slice of a quorum set, or meets all of them;
- `isQuorum` (`LocalNode.cpp:237–275`): shrink the nodes that pass a filter
  until every one of them is satisfied by the rest, then test the local set;
- `isQuorumSetSane` (`QuorumSetUtils.cpp:44–94`).

`isQuorum_iff` is what the protocol proofs use: the loop answers `true` exactly
when *some* self-satisfying set of filtered nodes contains a local slice.
-/

open List

namespace EssaCore.Scp

/-! ## Slices -/

/-- The slice loop over validators and inner sets: decrement `thresholdLeft` at
each hit, succeed when it reaches zero. The counter is unsigned and wraps. -/
def thresholdReached : List Bool → UInt32 → Bool
  | [], _ => false
  | hit :: hits, left =>
    if hit then
      if left - 1 = 0 then true else thresholdReached hits (left - 1)
    else thresholdReached hits left

mutual

def isQuorumSliceInternal (nodeSet : List NodeID) : SCPQuorumSet → Bool
  | .mk threshold validators innerSets =>
    thresholdReached
      (validators.map (fun v => decide (v ∈ nodeSet)) ++
        innerSlices nodeSet innerSets)
      threshold

/-- Which of the inner sets have a slice in `nodeSet`. -/
def innerSlices (nodeSet : List NodeID) : List SCPQuorumSet → List Bool
  | [] => []
  | q :: qs => isQuorumSliceInternal nodeSet q :: innerSlices nodeSet qs

end

def isQuorumSlice (qSet : SCPQuorumSet) (nodeSet : List NodeID) : Bool :=
  isQuorumSliceInternal nodeSet qSet

/-! ## Blocking sets -/

/-- The blocking loop: as `thresholdReached`, over a signed counter. -/
def leftReached : List Bool → Int → Bool
  | [], _ => false
  | hit :: hits, left =>
    if hit then
      if left - 1 ≤ 0 then true else leftReached hits (left - 1)
    else leftReached hits left

mutual

def isVBlockingInternal (nodeSet : List NodeID) : SCPQuorumSet → Bool
  | .mk threshold validators innerSets =>
    -- There is no v-blocking set for {\empty}
    if threshold = 0 then false
    else
      leftReached
        (validators.map (fun v => decide (v ∈ nodeSet)) ++
          innerVBlocking nodeSet innerSets)
        (Int.bmod (1 + validators.length + innerSets.length - threshold.toNat)
          (2 ^ 32))

/-- Which of the inner sets are blocked by `nodeSet`. -/
def innerVBlocking (nodeSet : List NodeID) : List SCPQuorumSet → List Bool
  | [] => []
  | q :: qs => isVBlockingInternal nodeSet q :: innerVBlocking nodeSet qs

end

/-- The nodes of `map` whose latest envelope passes `filter`. -/
def nodesWhere {E : Type} (map : AList fun _ : NodeID => E) (filter : E → Bool) : List NodeID :=
  (map.entries.filter fun e => filter e.2).map (·.1)

/-- The nodes of `map` whose latest statement passes `filter`. -/
def filterNodes (map : EnvelopeMap) (filter : SCPStatement → Bool) : List NodeID :=
  nodesWhere map fun e => filter e.statement

def isVBlocking (qSet : SCPQuorumSet) (map : EnvelopeMap)
    (filter : SCPStatement → Bool) : Bool :=
  isVBlockingInternal (filterNodes map filter) qSet

/-! ## Quorums -/

/-- Is the quorum set that `nodeID`'s envelope names satisfied by `pNodes`? -/
def satisfiedBy {E : Type} (map : AList fun _ : NodeID => E) (qfun : E → Option SCPQuorumSet)
    (pNodes : List NodeID) (nodeID : NodeID) : Bool :=
  match (map.lookup nodeID).bind qfun with
  | some qSet => isQuorumSlice qSet pNodes
  | none => false

/-- Is `nodeID`'s own quorum set satisfied by `pNodes`? -/
def quorumFilter (map : EnvelopeMap) (qfun : SCPStatement → Option SCPQuorumSet) :
    List NodeID → NodeID → Bool :=
  satisfiedBy map fun e => qfun e.statement

/-- The `do ... while (count != pNodes.size())` loop, for ballots and for
nominations. Each round but the last drops a node, so `pNodes.length` rounds
are enough. -/
def quorumLoop (satisfied : List NodeID → NodeID → Bool) : Nat → List NodeID → List NodeID
  | 0, pNodes => pNodes
  | n + 1, pNodes =>
    let fNodes := pNodes.filter (satisfied pNodes)
    if pNodes.length = fNodes.length then fNodes
    else quorumLoop satisfied n fNodes

def isQuorum (qSet : SCPQuorumSet) (map : EnvelopeMap)
    (qfun : SCPStatement → Option SCPQuorumSet)
    (filter : SCPStatement → Bool) : Bool :=
  let pNodes := filterNodes map filter
  isQuorumSlice qSet (quorumLoop (quorumFilter map qfun) pNodes.length pNodes)

/-! ## Sanity of quorum sets -/

/-- The fields of `QuorumSetSanityChecker` that `checkSanity` updates. -/
structure SanityChecker where
  mKnownNodes : List NodeID
  mCount : Nat

/-- Record validators one by one, failing at the first repeated one. -/
def insertKnownNodes : List NodeID → SanityChecker → Option SanityChecker
  | [], ck => some ck
  | n :: ns, ck =>
    if n ∈ ck.mKnownNodes then none
    else insertKnownNodes ns { ck with mKnownNodes := n :: ck.mKnownNodes }

mutual

/-- `checkSanity`: `none` is the source's `false`. -/
def checkSanity (extraChecks : Bool) :
    SCPQuorumSet → Nat → SanityChecker → Option SanityChecker
  | .mk threshold v i, depth, ck =>
    if depth > 2 then none
    else if threshold < 1 then none
    else
      let totEntries := v.length + i.length
      let ck := { ck with mCount := ck.mCount + v.length }
      if threshold.toNat > totEntries then none
      -- threshold is within the proper range
      else if extraChecks && threshold.toNat < totEntries - threshold.toNat + 1
      then none
      else
        match insertKnownNodes v ck with
        | none => none
        | some ck => checkSanityInner extraChecks i (depth + 1) ck

def checkSanityInner (extraChecks : Bool) :
    List SCPQuorumSet → Nat → SanityChecker → Option SanityChecker
  | [], _, ck => some ck
  | q :: qs, depth, ck =>
    match checkSanity extraChecks q depth ck with
    | none => none
    | some ck => checkSanityInner extraChecks qs depth ck

end

def isQuorumSetSane (qSet : SCPQuorumSet) (extraChecks : Bool) : Bool :=
  match checkSanity extraChecks qSet 0 ⟨[], 0⟩ with
  | none => false
  | some ck => 1 ≤ ck.mCount && ck.mCount ≤ 1000

def buildSingletonQSet (nodeID : NodeID) : SCPQuorumSet :=
  .mk 1 [nodeID] []

def getSingletonQSet (nodeID : NodeID) : SCPQuorumSet :=
  buildSingletonQSet nodeID

/-! ## Slices are monotone -/

/-- How many hits `thresholdReached` waits for: an unsigned `left = 0` wraps and
waits for `2 ^ 32` of them. -/
def hitsNeeded (left : UInt32) : Nat := (left - 1).toNat + 1

theorem hitsNeeded_pred {left : UInt32} (h : left - 1 ≠ 0) :
    hitsNeeded left = hitsNeeded (left - 1) + 1 := by
  have hpos : (left - 1).toNat ≠ 0 := fun h0 => h (UInt32.toNat_inj.1 h0)
  have hle : 1 ≤ left - 1 := by
    exact Nat.one_le_iff_ne_zero.2 hpos
  have hsub : (left - 1 - 1).toNat = (left - 1).toNat - 1 :=
    UInt32.toNat_sub_of_le _ _ hle
  unfold hitsNeeded
  omega

/-- The slice loop counts hits. -/
theorem thresholdReached_iff (hits : List Bool) (left : UInt32) :
    thresholdReached hits left = true ↔ hitsNeeded left ≤ hits.count true := by
  induction hits generalizing left with
  | nil => simp [thresholdReached, hitsNeeded]
  | cons hit hits ih =>
    cases hit with
    | false => exact ih left
    | true =>
      by_cases h : left - 1 = 0
      · simp [thresholdReached, h, hitsNeeded]
      · rw [thresholdReached, if_pos rfl, if_neg h, ih, hitsNeeded_pred h,
          count_cons_self, Nat.add_le_add_iff_right]

theorem count_true_le_of_forall₂ {hs hs' : List Bool}
    (h : List.Forall₂ (fun a b => a = true → b = true) hs hs') :
    hs.count true ≤ hs'.count true := by
  induction h with
  | nil => exact Nat.le_refl _
  | @cons a b _ _ hab _ ih =>
    cases a with
    | false => exact ih.trans (count_le_count_cons)
    | true =>
      rw [hab rfl, count_cons_self, count_cons_self]
      exact Nat.succ_le_succ ih

theorem thresholdReached_mono {hs hs' : List Bool} {left : UInt32}
    (h : List.Forall₂ (fun a b => a = true → b = true) hs hs')
    (hr : thresholdReached hs left = true) :
    thresholdReached hs' left = true := by
  rw [thresholdReached_iff] at hr ⊢
  exact hr.trans (count_true_le_of_forall₂ h)

section Mono

variable {S T : List NodeID}

theorem validatorHits_mono (hST : ∀ n ∈ S, n ∈ T) (vs : List NodeID) :
    List.Forall₂ (fun a b => a = true → b = true)
      (vs.map fun v => decide (v ∈ S)) (vs.map fun v => decide (v ∈ T)) := by
  induction vs with
  | nil => exact .nil
  | cons v vs ih =>
    refine .cons (fun h => ?_) ih
    exact decide_eq_true (hST v (of_decide_eq_true h))

mutual

theorem isQuorumSliceInternal_mono (hST : ∀ n ∈ S, n ∈ T) : ∀ q : SCPQuorumSet,
    isQuorumSliceInternal S q = true → isQuorumSliceInternal T q = true
  | .mk t vs is => by
    intro h
    rw [isQuorumSliceInternal] at h ⊢
    exact thresholdReached_mono
      (List.rel_append (validatorHits_mono hST vs) (innerSlices_mono hST is)) h

theorem innerSlices_mono (hST : ∀ n ∈ S, n ∈ T) : ∀ qs : List SCPQuorumSet,
    List.Forall₂ (fun a b => a = true → b = true) (innerSlices S qs) (innerSlices T qs)
  | [] => .nil
  | q :: qs => .cons (isQuorumSliceInternal_mono hST q) (innerSlices_mono hST qs)

end

end Mono

/-- A larger set of nodes contains every slice a smaller one contains. -/
theorem isQuorumSlice_mono {q : SCPQuorumSet} {S T : List NodeID}
    (hST : ∀ n ∈ S, n ∈ T) (h : isQuorumSlice q S = true) :
    isQuorumSlice q T = true :=
  isQuorumSliceInternal_mono hST q h

/-! ## Quorums -/

variable {n : NodeID}

theorem mem_filterNodes {map : EnvelopeMap} {filter : SCPStatement → Bool} :
    n ∈ filterNodes map filter ↔ ∃ e, map.lookup n = some e ∧ filter e.statement = true := by
  unfold filterNodes nodesWhere
  simp only [mem_map, mem_filter, Sigma.exists, exists_and_right, exists_eq_right]
  refine exists_congr fun e => and_congr_left fun _ => ?_
  exact AList.mem_lookup_iff.symm

section Loop

variable {map : EnvelopeMap} {qfun : SCPStatement → Option SCPQuorumSet}

theorem quorumFilter_iff {pNodes : List NodeID} :
    quorumFilter map qfun pNodes n = true ↔
      ∃ e q, map.lookup n = some e ∧ qfun e.statement = some q ∧ isQuorumSlice q pNodes = true := by
  unfold quorumFilter satisfiedBy
  cases hn : map.lookup n with
  | none => simp
  | some e =>
    cases hq : qfun e.statement with
    | none => simp [hq]
    | some q => simp [hq]

theorem quorumFilter_mono {S T : List NodeID} (hST : ∀ n ∈ S, n ∈ T)
    (h : quorumFilter map qfun S n = true) :
    quorumFilter map qfun T n = true := by
  obtain ⟨e, q, he, hq, hslice⟩ := quorumFilter_iff.1 h
  exact quorumFilter_iff.2 ⟨e, q, he, hq, isQuorumSlice_mono hST hslice⟩

/-- The loop only drops nodes. -/
theorem quorumLoop_subset (k : Nat) (pNodes : List NodeID) :
    ∀ n ∈ quorumLoop (quorumFilter map qfun) k pNodes, n ∈ pNodes := by
  induction k generalizing pNodes with
  | zero => exact fun n hn => hn
  | succ k ih =>
    intro n hn
    rw [quorumLoop] at hn
    split at hn
    · exact mem_of_mem_filter hn
    · exact mem_of_mem_filter (ih _ n hn)

/-- With enough rounds the loop stops at a set that satisfies all its nodes. -/
theorem quorumLoop_closed (k : Nat) (pNodes : List NodeID) (hk : pNodes.length ≤ k) :
    ∀ n ∈ quorumLoop (quorumFilter map qfun) k pNodes,
      quorumFilter map qfun (quorumLoop (quorumFilter map qfun) k pNodes) n = true := by
  induction k generalizing pNodes with
  | zero =>
    intro n hn
    have hnil : pNodes = [] := length_eq_zero_iff.1 (Nat.le_zero.1 hk)
    rw [hnil] at hn
    exact absurd hn not_mem_nil
  | succ k ih =>
    rw [quorumLoop]
    split
    · -- the last round: nothing was dropped, so the filter was evaluated on
      -- the very set it returns
      rename_i hlen
      have hall : pNodes.filter (quorumFilter map qfun pNodes) = pNodes :=
        length_filter_eq_length_iff.1 hlen.symm |> filter_eq_self.2
      intro n hn
      rw [hall] at hn ⊢
      exact filter_eq_self.1 hall n hn
    · refine ih _ ?_
      have hle := length_filter_le (quorumFilter map qfun pNodes) pNodes
      omega

/-- The loop never drops a node of a self-satisfying set. -/
theorem subset_quorumLoop (k : Nat) {pNodes U : List NodeID}
    (hU : ∀ n ∈ U, quorumFilter map qfun U n = true)
    (hsub : ∀ n ∈ U, n ∈ pNodes) :
    ∀ n ∈ U, n ∈ quorumLoop (quorumFilter map qfun) k pNodes := by
  induction k generalizing pNodes with
  | zero => exact hsub
  | succ k ih =>
    have hkeep : ∀ n ∈ U, n ∈ pNodes.filter (quorumFilter map qfun pNodes) :=
      fun n hn =>
        mem_filter.2 ⟨hsub n hn, quorumFilter_mono hsub (hU n hn)⟩
    rw [quorumLoop]
    split
    · exact hkeep
    · exact ih hkeep

end Loop

/-- `U` is a quorum among the statements of `map` that pass `filter`: each of
its nodes passes, and is satisfied by `U` itself. -/
def QuorumIn (map : EnvelopeMap) (qfun : SCPStatement → Option SCPQuorumSet)
    (filter : SCPStatement → Bool) (U : List NodeID) : Prop :=
  ∀ n ∈ U, ∃ e q, map.lookup n = some e ∧ filter e.statement = true ∧
    qfun e.statement = some q ∧ isQuorumSlice q U = true

/-- **`isQuorum` finds a quorum exactly when there is one**: some
self-satisfying set of filtered nodes contains a slice of the local set. -/
theorem isQuorum_iff {qSet : SCPQuorumSet} {map : EnvelopeMap}
    {qfun : SCPStatement → Option SCPQuorumSet}
    {filter : SCPStatement → Bool} :
    isQuorum qSet map qfun filter = true ↔
      ∃ U, QuorumIn map qfun filter U ∧ isQuorumSlice qSet U = true := by
  constructor
  · intro h
    refine ⟨_, fun n hn => ?_, h⟩
    obtain ⟨e, q, he, hq, hslice⟩ :=
      quorumFilter_iff.1 (quorumLoop_closed _ _ (Nat.le_refl _) n hn)
    obtain ⟨e', he', hfe⟩ := mem_filterNodes.1 (quorumLoop_subset _ _ n hn)
    obtain rfl : e = e' := Option.some.inj (he.symm.trans he')
    exact ⟨e, q, he, hfe, hq, hslice⟩
  · rintro ⟨U, hU, hslice⟩
    refine isQuorumSlice_mono (subset_quorumLoop _ ?_ ?_) hslice
    · intro n hn
      obtain ⟨e, q, he, _, hq, hs⟩ := hU n hn
      exact quorumFilter_iff.2 ⟨e, q, he, hq, hs⟩
    · intro n hn
      obtain ⟨e, _, he, hfe, _, _⟩ := hU n hn
      exact mem_filterNodes.2 ⟨e, he, hfe⟩

/-! ## Blocking sets are monotone -/

/-- The blocking loop counts hits, and needs at least one. -/
theorem leftReached_iff (hits : List Bool) (left : Int) :
    leftReached hits left = true ↔ max 1 left ≤ hits.count true := by
  induction hits generalizing left with
  | nil =>
    have hno : ¬ max 1 left ≤ (0 : Int) := by omega
    simp only [leftReached, Bool.false_eq_true, false_iff]
    exact hno
  | cons hit hits ih =>
    cases hit with
    | false => exact ih left
    | true =>
      rw [leftReached, if_pos rfl, count_cons_self]
      by_cases h : left - 1 ≤ 0
      · rw [if_pos h]
        simp only [true_iff]
        omega
      · rw [if_neg h, ih]
        omega

theorem leftReached_mono {hs hs' : List Bool} {left : Int}
    (h : List.Forall₂ (fun a b => a = true → b = true) hs hs')
    (hr : leftReached hs left = true) : leftReached hs' left = true := by
  rw [leftReached_iff] at hr ⊢
  have hle := count_true_le_of_forall₂ h
  omega

section VBlocking

variable {S T : List NodeID}

mutual

theorem isVBlockingInternal_mono (hST : ∀ n ∈ S, n ∈ T) : ∀ q : SCPQuorumSet,
    isVBlockingInternal S q = true → isVBlockingInternal T q = true
  | .mk t vs is => by
    intro h
    rw [isVBlockingInternal] at h ⊢
    split at h
    · exact Bool.noConfusion h
    · rename_i ht
      rw [if_neg ht]
      exact leftReached_mono
        (List.rel_append (validatorHits_mono hST vs) (innerVBlocking_mono hST is)) h

theorem innerVBlocking_mono (hST : ∀ n ∈ S, n ∈ T) : ∀ qs : List SCPQuorumSet,
    List.Forall₂ (fun a b => a = true → b = true) (innerVBlocking S qs) (innerVBlocking T qs)
  | [] => .nil
  | q :: qs => .cons (isVBlockingInternal_mono hST q) (innerVBlocking_mono hST qs)

end

end VBlocking

end EssaCore.Scp
