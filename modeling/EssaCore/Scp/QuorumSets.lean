import EssaCore.Lib.ThresholdTree
import EssaCore.Scp.LocalNode

/-!
# Quorum sets (`scp/QuorumSetUtils.cpp`)

A quorum set that `isQuorumSetSane` accepts is a threshold tree over distinct
nodes. Slices are the sets of nodes for which the tree holds, blocking sets
those for which its dual does.

- `SCPQuorumSet.tree`, `SCPQuorumSet.nodes` — a quorum set as a tree;
- `isQuorumSetSane_iff` — what is checked about it;
- `isQuorumSlice_iff`, `isVBlocking_iff` — the two counting loops;
- `isVBlocking_dual` — a set blocks when the rest contains no slice;
- `isQuorum_greatest` — `isQuorum` ends, and finds a quorum if there is one.
-/

open List Function

namespace EssaCore.Scp

open Lib (ThresholdTree)

/-! ## Quorum sets as trees -/

/-- Induction over a quorum set, with the statement for all inner sets. -/
@[elab_as_elim, induction_eliminator]
theorem SCPQuorumSet.induct {P : SCPQuorumSet → Prop}
    (mk : ∀ threshold validators innerSets, (∀ q ∈ innerSets, P q) →
      P (.mk threshold validators innerSets)) (q : SCPQuorumSet) : P q :=
  @SCPQuorumSet.rec P (fun qs => ∀ q ∈ qs, P q) mk
    (forall_mem_nil _) (fun _ _ h hs => forall_mem_cons.mpr ⟨h, hs⟩) q

mutual

/-- The threshold tree of a quorum set -/
def SCPQuorumSet.tree : SCPQuorumSet → ThresholdTree NodeID
  | .mk threshold validators innerSets => .node threshold.toNat validators (innerTrees innerSets)

def innerTrees : List SCPQuorumSet → List (ThresholdTree NodeID)
  | [] => []
  | q :: qs => q.tree :: innerTrees qs

end

theorem innerTrees_eq (qs : List SCPQuorumSet) : innerTrees qs = qs.map SCPQuorumSet.tree := by
  induction qs with
  | nil => rfl
  | cons q qs ih => rw [innerTrees, ih, map_cons]

variable {v : List NodeID} {t : UInt32} {i : List SCPQuorumSet} {extraChecks : Bool}
  {q : SCPQuorumSet}

theorem tree_mk : (SCPQuorumSet.mk t v i).tree = .node t.toNat v (i.map SCPQuorumSet.tree) := by
  rw [SCPQuorumSet.tree, innerTrees_eq]

/-- The nodes that `forAllNodes` (`LocalNode.cpp:69–81`) visits -/
def SCPQuorumSet.nodes (q : SCPQuorumSet) : List NodeID := q.tree.allLeaves

theorem nodes_mk : (SCPQuorumSet.mk t v i).nodes = v ++ i.flatMap SCPQuorumSet.nodes := by
  rw [SCPQuorumSet.nodes, tree_mk, ThresholdTree.allLeaves_node, flatMap_map]
  rfl

/-- An inner set has no more nodes than the whole. -/
theorem length_nodes_inner (hq : q ∈ i) :
    q.nodes.length ≤ (SCPQuorumSet.mk t v i).nodes.length := by
  rw [nodes_mk, length_append]
  exact Nat.le_add_left_of_le (sublist_flatten_of_mem (mem_map_of_mem hq)).length_le

/-- One level of a quorum set whose thresholds can be reached -/
theorem fits_mk (h : (SCPQuorumSet.mk t v i).tree.Fits) :
    1 ≤ t.toNat ∧ t.toNat ≤ v.length + i.length ∧
      v.length + i.length ≤ (SCPQuorumSet.mk t v i).nodes.length ∧ ∀ q ∈ i, q.tree.Fits := by
  unfold SCPQuorumSet.nodes
  rw [tree_mk] at h ⊢
  have hlength := h.length_le.2
  obtain ⟨hpos, hle, hchildren⟩ := h
  rw [length_map] at hle hlength
  exact ⟨hpos, hle, hlength, fun q hq => hchildren _ (mem_map_of_mem hq)⟩

/-! ## Sanity -/

/-- What `checkSanity` asks of the thresholds of a quorum set at a depth -/
inductive Shape (extraChecks : Bool) : Nat → SCPQuorumSet → Prop
  | mk {depth : Nat} {t : UInt32} {v : List NodeID} {i : List SCPQuorumSet}
      (hdepth : depth ≤ 2) (hpos : 1 ≤ t.toNat) (hle : t.toNat ≤ v.length + i.length)
      (hextra : extraChecks = true → v.length + i.length - t.toNat + 1 ≤ t.toNat)
      (hinner : ∀ q ∈ i, Shape extraChecks (depth + 1) q) : Shape extraChecks depth (.mk t v i)

theorem shape_mk_iff {depth : Nat} : Shape extraChecks depth (.mk t v i) ↔
      depth ≤ 2 ∧ 1 ≤ t.toNat ∧ t.toNat ≤ v.length + i.length ∧
      (extraChecks = true → v.length + i.length - t.toNat + 1 ≤ t.toNat) ∧
      ∀ q ∈ i, Shape extraChecks (depth + 1) q := by
  constructor
  · rintro ⟨hdepth, hpos, hle, hextra, hinner⟩
    exact ⟨hdepth, hpos, hle, hextra, hinner⟩
  · rintro ⟨hdepth, hpos, hle, hextra, hinner⟩
    exact ⟨hdepth, hpos, hle, hextra, hinner⟩

theorem Shape.fits {depth : Nat} (h : Shape extraChecks depth q) : q.tree.Fits := by
  induction q generalizing depth with
  | mk t v i ih =>
    obtain ⟨-, hpos, _, -, hinner⟩ := h
    rw [tree_mk]
    refine .node hpos (by rwa [length_map]) fun c hc => ?_
    obtain ⟨q, hq, rfl⟩ := mem_map.mp hc
    exact ih q hq (hinner q hq)

/-- Nodes that are recorded: distinct, and none of them known before -/
def Fresh (ck : SanityChecker) (ns : List NodeID) : Prop :=
  ns.Nodup ∧ ∀ n ∈ ns, n ∉ ck.mKnownNodes

/-- The checker after it has recorded nodes -/
def SanityChecker.insert (ck : SanityChecker) (ns : List NodeID) : SanityChecker where
  mKnownNodes := ns.reverse ++ ck.mKnownNodes
  mCount := ck.mCount + ns.length

theorem fresh_append {ck : SanityChecker} {ns ms : List NodeID} :
    Fresh ck (ns ++ ms) ↔ Fresh ck ns ∧ Fresh (ck.insert ns) ms := by
  simp only [Fresh, SanityChecker.insert, nodup_append, mem_append, mem_reverse]
  constructor
  · rintro ⟨⟨hns, hms, hdisjoint⟩, hknown⟩
    exact ⟨⟨hns, fun n hn => hknown n (.inl hn)⟩, hms, fun n hn h => h.elim
      (fun h => hdisjoint n h n hn rfl) (hknown n (.inr hn))⟩
  · rintro ⟨⟨hns, hknown⟩, hms, hfresh⟩
    refine ⟨⟨hns, hms, fun n hn m hm heq => hfresh m hm (.inl (heq ▸ hn))⟩, fun n hn => ?_⟩
    exact hn.elim (hknown n) fun h hk => hfresh n h (.inr hk)

theorem insert_append {ck : SanityChecker} {ns ms : List NodeID} :
    ck.insert (ns ++ ms) = (ck.insert ns).insert ms := by
  simp [SanityChecker.insert, Nat.add_assoc]

theorem insertKnownNodes_eq (ns : List NodeID) (ck ck' : SanityChecker) :
    insertKnownNodes ns ck = some ck' ↔
      Fresh ck ns ∧ ck' = ⟨ns.reverse ++ ck.mKnownNodes, ck.mCount⟩ := by
  induction ns generalizing ck with
  | nil =>
    rw [insertKnownNodes, Option.some.injEq]
    exact ⟨fun h => ⟨⟨nodup_nil, nofun⟩, h.symm⟩, fun h => h.2.symm⟩
  | cons n ns ih =>
    rw [insertKnownNodes]
    split
    · rename_i hknown
      exact ⟨nofun, fun h => absurd hknown (h.1.2 n mem_cons_self)⟩
    · rename_i hknown
      rw [ih]
      simp only [Fresh, nodup_cons, mem_cons, not_or, forall_eq_or_imp, hknown,
        not_false_eq_true, true_and, reverse_cons, append_assoc]
      refine and_congr_left fun _ => ?_
      constructor
      · rintro ⟨hns, hfresh⟩
        exact ⟨⟨fun h => (hfresh n h).1 rfl, hns⟩, fun m hm => (hfresh m hm).2⟩
      · rintro ⟨⟨hn, hns⟩, hfresh⟩
        exact ⟨hns, fun m hm => ⟨fun h => hn (h ▸ hm), hfresh m hm⟩⟩

/-- A quorum set passes when it has the right shape and its nodes are new. -/
def Passes (extraChecks : Bool) (q : SCPQuorumSet) : Prop := ∀ depth ck ck',
  checkSanity extraChecks q depth ck = some ck' ↔
    Shape extraChecks depth q ∧ Fresh ck q.nodes ∧ ck' = ck.insert q.nodes

theorem checkSanityInner_iff {qs : List SCPQuorumSet}
    (hqs : ∀ q ∈ qs, Passes extraChecks q) (depth : Nat) (ck ck' : SanityChecker) :
    checkSanityInner extraChecks qs depth ck = some ck' ↔
      (∀ q ∈ qs, Shape extraChecks depth q) ∧ Fresh ck (qs.flatMap SCPQuorumSet.nodes) ∧
        ck' = ck.insert (qs.flatMap SCPQuorumSet.nodes) := by
  induction qs generalizing ck with
  | nil =>
    rw [checkSanityInner, Option.some.injEq]
    exact ⟨fun h => ⟨nofun, ⟨nodup_nil, nofun⟩, h.symm⟩, fun h => h.2.2.symm⟩
  | cons q qs ih =>
    have hq := hqs q mem_cons_self depth ck
    have hrest := ih fun q hq => hqs q (mem_cons_of_mem _ hq)
    rw [checkSanityInner, flatMap_cons, fresh_append, insert_append, forall_mem_cons]
    cases hcheck : checkSanity extraChecks q depth ck with
    | none =>
      refine ⟨nofun, fun ⟨⟨hshape, _⟩, ⟨hfresh, _⟩, _⟩ => ?_⟩
      have := (hq _).mpr ⟨hshape, hfresh, rfl⟩
      rw [hcheck] at this
      cases this
    | some ck₁ =>
      obtain ⟨hshape, hfresh, rfl⟩ := (hq ck₁).mp hcheck
      rw [hrest]
      exact ⟨fun ⟨h₁, h₂, h₃⟩ => ⟨⟨hshape, h₁⟩, ⟨hfresh, h₂⟩, h₃⟩,
        fun ⟨h₁, h₂, h₃⟩ => ⟨h₁.2, h₂.2, h₃⟩⟩

theorem checkSanity_iff (extraChecks : Bool) (q : SCPQuorumSet) : Passes extraChecks q := by
  induction q with
  | mk t v i ih =>
    intro depth ck ck'
    rw [checkSanity, shape_mk_iff, nodes_mk, fresh_append, insert_append]
    have hpos : t < 1 ↔ ¬ 1 ≤ t.toNat := by
      rw [not_le]
      rfl
    split
    · exact ⟨nofun, fun h => by omega⟩
    · split
      · rename_i hlt
        exact ⟨nofun, fun h => absurd h.1.2.1 (hpos.mp hlt)⟩
      · rename_i hlt
        dsimp only
        split
        · exact ⟨nofun, fun h => by omega⟩
        · split
          · rename_i hextra
            rw [Bool.and_eq_true, decide_eq_true_eq] at hextra
            refine ⟨nofun, fun h => ?_⟩
            have := h.1.2.2.2.1 hextra.1
            omega
          · rename_i hdepth hle hextra
            rw [Bool.and_eq_true, decide_eq_true_eq, not_and, not_lt] at hextra
            have hinsert := insertKnownNodes_eq v { ck with mCount := ck.mCount + v.length }
            split
            · rename_i hnone
              refine ⟨nofun, fun ⟨_, ⟨hfresh, _⟩, _⟩ => ?_⟩
              have := (hinsert _).mpr ⟨hfresh, rfl⟩
              rw [hnone] at this
              cases this
            · rename_i ck₁ hsome
              obtain ⟨hfresh, rfl⟩ := (hinsert ck₁).mp hsome
              have hinner := checkSanityInner_iff ih (depth + 1) (ck.insert v) ck'
              rw [show ⟨v.reverse ++ ck.mKnownNodes, ck.mCount + v.length⟩ =
                ck.insert v from rfl, hinner]
              refine ⟨fun ⟨h₁, h₂, h₃⟩ =>
                ⟨⟨by omega, not_not.mp fun h => hlt (hpos.mpr h), by omega, hextra, h₁⟩,
                  ⟨hfresh, h₂⟩, h₃⟩, fun ⟨h₁, h₂, h₃⟩ => ⟨h₁.2.2.2.2, h₂.2, h₃⟩⟩

/-- What `isQuorumSetSane` accepts: thresholds within range at every level, not too deep, over
distinct nodes, of which there is one but not more than 1000. -/
theorem isQuorumSetSane_iff : isQuorumSetSane q extraChecks = true ↔
      Shape extraChecks 0 q ∧ q.nodes.Nodup ∧ 1 ≤ q.nodes.length ∧ q.nodes.length ≤ 1000 := by
  have hfresh : Fresh ⟨[], 0⟩ q.nodes ↔ q.nodes.Nodup := ⟨fun h => h.1, fun h => ⟨h, nofun⟩⟩
  have hpasses := checkSanity_iff extraChecks q 0 ⟨[], 0⟩
  unfold isQuorumSetSane
  cases hcheck : checkSanity extraChecks q 0 ⟨[], 0⟩ with
  | none =>
    refine ⟨nofun, fun ⟨hshape, hnodup, _⟩ => ?_⟩
    have := (hpasses _).mpr ⟨hshape, hfresh.mpr hnodup, rfl⟩
    rw [hcheck] at this
    cases this
  | some ck =>
    obtain ⟨hshape, hnew, rfl⟩ := (hpasses ck).mp hcheck
    simp only [SanityChecker.insert, Nat.zero_add, Bool.and_eq_true, decide_eq_true_eq]
    exact ⟨fun h => ⟨hshape, hfresh.mp hnew, h⟩, fun h => h.2.2⟩

/-! ## Slices and blocking sets -/

section Counting

variable {S : List NodeID}

theorem innerSlices_eq (qs : List SCPQuorumSet) :
    innerSlices S qs = qs.map (isQuorumSliceInternal S) := by
  induction qs with
  | nil => rfl
  | cons q qs ih => rw [innerSlices, ih, map_cons]

theorem innerVBlocking_eq (qs : List SCPQuorumSet) :
    innerVBlocking S qs = qs.map (isVBlockingInternal S) := by
  induction qs with
  | nil => rfl
  | cons q qs ih => rw [innerVBlocking, ih, map_cons]

/-- The hits of a loop over validators and inner sets -/
theorem count_hits (v : List NodeID) (i : List SCPQuorumSet) (f : SCPQuorumSet → Bool) :
    (v.map (fun n => decide (n ∈ S)) ++ i.map f).count true =
      v.countP (fun n => decide (n ∈ S)) + i.countP f := by
  rw [count_append, count_eq_countP, count_eq_countP, countP_map]
  simp [comp_def]

theorem hitsNeeded_eq {t : UInt32} (h : 1 ≤ t.toNat) : hitsNeeded t = t.toNat := by
  have hsub : (t - 1).toNat = t.toNat - 1 :=
    UInt32.toNat_sub_of_le _ _ (UInt32.le_iff_toNat_le.mpr h)
  unfold hitsNeeded
  omega

/-- Slices are the sets for which the tree holds. -/
theorem isQuorumSlice_iff {q : SCPQuorumSet} (h : q.tree.Fits) :
    isQuorumSlice q S = q.tree.holds fun n => decide (n ∈ S) := by
  unfold isQuorumSlice
  induction q with
  | mk t v i ih =>
    obtain ⟨hpos, -, -, hfits⟩ := fits_mk h
    have hinner : i.countP (isQuorumSliceInternal S) =
        (i.map SCPQuorumSet.tree).countP (ThresholdTree.holds fun n => decide (n ∈ S)) := by
      rw [countP_map]
      exact countP_congr fun q hq => by rw [ih q hq (hfits q hq), comp_apply]
    rw [Bool.eq_iff_iff, isQuorumSliceInternal, innerSlices_eq, thresholdReached_iff, count_hits,
      hitsNeeded_eq hpos, hinner, tree_mk, ThresholdTree.holds_node]

/-- Blocking sets are the sets for which the dual tree holds. -/
theorem isVBlocking_iff {q : SCPQuorumSet} (h : q.tree.Fits) (hsize : q.nodes.length < 2 ^ 31) :
    isVBlockingInternal S q = q.tree.flip.holds fun n => decide (n ∈ S) := by
  induction q with
  | mk t v i ih =>
    obtain ⟨hpos, _, _, hfits⟩ := fits_mk h
    have hinner : i.countP (isVBlockingInternal S) = (i.map SCPQuorumSet.tree).countP
          (fun c => c.flip.holds fun n => decide (n ∈ S)) := by
      rw [countP_map]
      refine countP_congr fun q hq => ?_
      rw [ih q hq (hfits q hq) (lt_of_le_of_lt (length_nodes_inner hq) hsize), comp_apply]
    have hzero : t ≠ 0 := by
      rintro rfl
      exact absurd hpos (by decide)
    have hleft : Int.bmod (1 + v.length + i.length - t.toNat) (2 ^ 32) =
        1 + v.length + i.length - t.toNat := Int.bmod_eq_of_le (by omega) (by omega)
    rw [Bool.eq_iff_iff, isVBlockingInternal, if_neg hzero, innerVBlocking_eq, leftReached_iff,
      count_hits, tree_mk, ThresholdTree.flip_node, ThresholdTree.holds_node,
      length_map, countP_map (p := ThresholdTree.holds _)]
    simp only [comp_def]
    omega

end Counting

/-- A set of nodes blocks a sane quorum set exactly when the other nodes of the quorum set do not
contain a slice, and more nodes are no less a slice, and no less blocking. -/
theorem isVBlocking_dual {q : SCPQuorumSet} {extraChecks : Bool}
    (h : isQuorumSetSane q extraChecks = true) :
    (∀ S : List NodeID, isVBlockingInternal S q = true ↔
      isQuorumSlice q (q.nodes.filter (· ∉ S)) = false) ∧
    (∀ S T : List NodeID, (∀ n ∈ S, n ∈ T) → (isQuorumSlice q S = true → isQuorumSlice q T = true) ∧
      (isVBlockingInternal S q = true → isVBlockingInternal T q = true)) := by
  obtain ⟨hshape, -, -, hsize⟩ := isQuorumSetSane_iff.mp h
  have hfits := hshape.fits
  refine ⟨fun S => ?_, fun S T hST =>
    ⟨isQuorumSlice_mono hST, isVBlockingInternal_mono hST q⟩⟩
  have hrest : q.tree.holds (fun n => decide (n ∈ q.nodes.filter (· ∉ S))) =
      q.tree.holds (fun n => !decide (n ∈ S)) := by
    refine ThresholdTree.holds_congr fun n hn => ?_
    have hn : n ∈ q.nodes := hn
    simp [hn]
  rw [isVBlocking_iff hfits (lt_of_le_of_lt hsize (by decide)), ThresholdTree.holds_flip hfits,
    isQuorumSlice_iff hfits, hrest, Bool.not_eq_true']

/-- Two of two, one of them an inner set of one out of two -/
def twoOfThree : SCPQuorumSet := .mk 2 [1] [.mk 1 [2, 3] []]

theorem isVBlocking_dual_twoOfThree : isQuorumSetSane twoOfThree false = true ∧
    (isVBlockingInternal [2, 3] twoOfThree = true ↔
      isQuorumSlice twoOfThree (twoOfThree.nodes.filter (· ∉ [2, 3])) = false) := by
  have hsane : isQuorumSetSane twoOfThree false = true := by decide
  exact ⟨hsane, (isVBlocking_dual hsane).1 [2, 3]⟩

/-! ## Quorums -/

/-- A run of the loop of `isQuorum` (`LocalNode.cpp:251–270`): the nodes that are not satisfied
are dropped, until none is. -/
inductive QuorumRounds (map : EnvelopeMap) (qfun : SCPStatement → Option SCPQuorumSet) :
    List NodeID → List NodeID → Prop
  | last {pNodes : List NodeID}
      (hcount : pNodes.length = (pNodes.filter (quorumFilter map qfun pNodes)).length) :
      QuorumRounds map qfun pNodes (pNodes.filter (quorumFilter map qfun pNodes))
  | again {pNodes qNodes : List NodeID}
      (hcount : pNodes.length ≠ (pNodes.filter (quorumFilter map qfun pNodes)).length)
      (hrest : QuorumRounds map qfun (pNodes.filter (quorumFilter map qfun pNodes)) qNodes) :
      QuorumRounds map qfun pNodes qNodes

/-- There are enough rounds for the loop to end. -/
theorem quorumLoop_rounds {map : EnvelopeMap} {qfun : SCPStatement → Option SCPQuorumSet}
    (k : Nat) {pNodes : List NodeID} (hk : pNodes.length ≤ k) :
    QuorumRounds map qfun pNodes (quorumLoop (quorumFilter map qfun) k pNodes) := by
  induction k generalizing pNodes with
  | zero =>
    obtain rfl := length_eq_zero_iff.mp (Nat.le_zero.mp hk)
    exact .last rfl
  | succ k ih =>
    rw [quorumLoop]
    split
    · rename_i hcount
      exact .last hcount
    · rename_i hcount
      refine .again hcount (ih ?_)
      have := length_filter_le (quorumFilter map qfun pNodes) pNodes
      omega

/-- `isQuorum` ends, and returns `true` exactly when there is a set of nodes whose statements pass
the filter and which satisfies the quorum sets of all its nodes, and the local one. -/
theorem isQuorum_greatest (qSet : SCPQuorumSet) (map : EnvelopeMap)
    (qfun : SCPStatement → Option SCPQuorumSet) (filter : SCPStatement → Bool) :
    (∃ pNodes, QuorumRounds map qfun (filterNodes map filter) pNodes ∧
      isQuorum qSet map qfun filter = isQuorumSlice qSet pNodes) ∧
    (isQuorum qSet map qfun filter = true ↔
      ∃ U, QuorumIn map qfun filter U ∧ isQuorumSlice qSet U = true) :=
  ⟨⟨_, quorumLoop_rounds _ le_rfl, rfl⟩, isQuorum_iff⟩

end EssaCore.Scp
