import EssaCore.Scp.QuorumSets

/-!
# Normalized quorum sets (`scp/QuorumSetUtils.cpp:96–147`)

`normalizeQSet` merges inner sets of one node into the validators and drops
wrappers around a single inner set, from the inside out.

- `normalizeQSet` — the code, with the node that is to be removed;
- `normalizeQSet_mk` — its loop, when no node is removed;
- `Shape.normalize`, `normalizeQSet_nodes`, `normalizeQSet_holds` — thresholds
  stay within range, nodes stay the same, and so does the meaning;
- `normalizeQSet_idem` — there is nothing left to normalize.
-/

open List Option

namespace EssaCore.Scp

open Lib (ThresholdTree)

/-- The node of an inner set that is to be merged into the validators -/
def singletonNode : SCPQuorumSet → Option NodeID
  | .mk t [n] [] => if t = 1 then some n else none
  | _ => none

/-- Simplify the quorum set if it only wraps an inner set (`QuorumSetUtils.cpp:141–145`). -/
def unwrap : SCPQuorumSet → SCPQuorumSet
  | .mk t [] [q] => if t = 1 then q else .mk t [] [q]
  | q => q

/-- Threshold and validators without a node (`QuorumSetUtils.cpp:113–121`) -/
def removeNode (idToRemove : Option NodeID) (t : UInt32) (v : List NodeID) :
    UInt32 × List NodeID :=
  match idToRemove with
  | none => (t, v)
  | some id =>
    let kept := v.filter (· ≠ id)
    (t - UInt32.ofNat (v.length - kept.length), kept)

mutual

def normalizeQSet (idToRemove : Option NodeID) : SCPQuorumSet → SCPQuorumSet
  | .mk threshold validators innerSets =>
    let tv := removeNode idToRemove threshold validators
    let vi := mergeInner idToRemove innerSets tv.2
    unwrap (.mk tv.1 vi.1 vi.2)

/-- The loop over the inner sets: a normalized set of one node is moved to the end of the
validators, others stay (`QuorumSetUtils.cpp:123–139`). -/
def mergeInner (idToRemove : Option NodeID) :
    List SCPQuorumSet → List NodeID → List NodeID × List SCPQuorumSet
  | [], v => (v, [])
  | q :: qs, v =>
    let q := normalizeQSet idToRemove q
    match singletonNode q with
    | some n => mergeInner idToRemove qs (v ++ [n])
    | none =>
      let vi := mergeInner idToRemove qs v
      (vi.1, q :: vi.2)

end

/-! ## The loop -/

/-- The inner sets that are not merged -/
def unmerged (qs : List SCPQuorumSet) : List SCPQuorumSet :=
  qs.filter fun q => (singletonNode q).isNone

variable {q : SCPQuorumSet} {extraChecks : Bool} {depth : Nat}

theorem mem_unmerged {qs : List SCPQuorumSet} :
    q ∈ unmerged qs ↔ q ∈ qs ∧ singletonNode q = none := by
  rw [unmerged, mem_filter, isNone_iff_eq_none]

theorem mergeInner_eq (qs : List SCPQuorumSet) (v : List NodeID) :
    mergeInner none qs v = (v ++ (qs.map (normalizeQSet none)).filterMap singletonNode,
      unmerged (qs.map (normalizeQSet none))) := by
  induction qs generalizing v with
  | nil => simp [mergeInner, unmerged]
  | cons q qs ih =>
    rw [mergeInner]
    cases hq : singletonNode (normalizeQSet none q) with
    | some n => simp [ih, hq, unmerged]
    | none => simp [ih, hq, unmerged]

theorem normalizeQSet_mk {t : UInt32} {v : List NodeID} {i : List SCPQuorumSet} :
    normalizeQSet none (.mk t v i) =
      unwrap (.mk t (v ++ (i.map (normalizeQSet none)).filterMap singletonNode)
        (unmerged (i.map (normalizeQSet none)))) := by
  rw [normalizeQSet, removeNode, mergeInner_eq]

theorem singletonNode_eq_some {n : NodeID} (h : singletonNode q = some n) : q = .mk 1 [n] [] := by
  unfold singletonNode at h
  split at h
  · split at h
    · rename_i ht
      rw [ht, some.inj h]
    · cases h
  · cases h

/-- A quorum set wraps a single inner set, or is left as it is. -/
theorem unwrap_cases (q : SCPQuorumSet) :
    (∃ q', q = .mk 1 [] [q'] ∧ unwrap q = q') ∨ unwrap q = q := by
  unfold unwrap
  split
  · rename_i t q'
    split
    · rename_i ht
      exact .inl ⟨q', by rw [ht], rfl⟩
    · exact .inr rfl
  · exact .inr rfl

/-- Merging keeps the number of entries. -/
theorem length_merge (qs : List SCPQuorumSet) :
    (qs.filterMap singletonNode).length + (unmerged qs).length = qs.length := by
  induction qs with
  | nil => rfl
  | cons q qs ih =>
    unfold unmerged at *
    cases hq : singletonNode q with
    | some n => simp only [filterMap_cons, filter_cons, hq]; simp; omega
    | none => simp only [filterMap_cons, filter_cons, hq]; simp; omega

/-! ## Sanity -/

variable (h : Shape extraChecks depth q)

include h

theorem Shape.mono {depth' : Nat}
    (hle : depth' ≤ depth) : Shape extraChecks depth' q := by
  induction q generalizing depth depth' with
  | mk t v i ih =>
    obtain ⟨hdepth, hpos, hthreshold, hextra, hinner⟩ := h
    exact ⟨hle.trans hdepth, hpos, hthreshold, hextra, fun q hq =>
      ih q hq (hinner q hq) (Nat.succ_le_succ hle)⟩

theorem Shape.unwrap : Shape extraChecks depth (unwrap q) := by
  rcases unwrap_cases q with ⟨q', rfl, hq⟩ | hq
  · exact ((shape_mk_iff.mp h).2.2.2.2 q' mem_cons_self).mono (Nat.le_succ depth)
  · rwa [hq]

theorem Shape.normalize : Shape extraChecks depth (normalizeQSet none q) := by
  induction q generalizing depth with
  | mk t v i ih =>
    obtain ⟨hdepth, hpos, _, hextra, hinner⟩ := h
    have hlength := length_merge (i.map (normalizeQSet none))
    rw [length_map] at hlength
    rw [normalizeQSet_mk]
    refine Shape.unwrap ⟨hdepth, hpos, ?_, fun h => ?_, fun q' hq' => ?_⟩
    · rw [length_append]
      omega
    · have := hextra h
      rw [length_append]
      omega
    · obtain ⟨q, hq, rfl⟩ := mem_map.mp (mem_unmerged.mp hq').1
      exact ih q hq (hinner q hq)

omit h

theorem nodes_unwrap (q : SCPQuorumSet) : (unwrap q).nodes = q.nodes := by
  rcases unwrap_cases q with ⟨_, rfl, hq⟩ | hq
  · rw [hq, nodes_mk, nil_append, flatMap_cons, flatMap_nil, append_nil]
  · rw [hq]

/-- Merging keeps the nodes. -/
theorem perm_merge (qs : List SCPQuorumSet) :
    (qs.filterMap singletonNode ++ (unmerged qs).flatMap SCPQuorumSet.nodes).Perm
      (qs.flatMap SCPQuorumSet.nodes) := by
  induction qs with
  | nil => exact .nil
  | cons q qs ih =>
    unfold unmerged at *
    cases hq : singletonNode q with
    | some n =>
      obtain rfl := singletonNode_eq_some hq
      simp only [filterMap_cons, filter_cons, hq]
      simpa [nodes_mk] using ih
    | none =>
      simp only [filterMap_cons, filter_cons, hq]
      refine (perm_append_comm_assoc _ _ _).trans ?_
      exact ih.append_left _

theorem normalizeQSet_nodes (q : SCPQuorumSet) : (normalizeQSet none q).nodes.Perm q.nodes := by
  induction q with
  | mk t v i ih =>
    rw [normalizeQSet_mk, nodes_unwrap, nodes_mk, nodes_mk, append_assoc]
    refine Perm.append_left v ((perm_merge _).trans ?_)
    rw [flatMap_map]
    exact Perm.flatMap_left i fun q hq => ih q hq

/-! ## Meaning -/

section Holds

variable {p : NodeID → Bool}

theorem holds_unwrap (q : SCPQuorumSet) : (unwrap q).tree.holds p = q.tree.holds p := by
  rcases unwrap_cases q with ⟨q', rfl, hq⟩ | hq
  · rw [hq, Bool.eq_iff_iff, tree_mk, ThresholdTree.holds_node]
    cases hholds : q'.tree.holds p <;> simp [hholds]
  · rw [hq]

/-- A set of one node holds when the node does, so merging keeps the number of hits. -/
theorem count_merge (qs : List SCPQuorumSet) :
    (qs.filterMap singletonNode).countP p + (unmerged qs).countP (·.tree.holds p) =
      qs.countP (·.tree.holds p) := by
  induction qs with
  | nil => rfl
  | cons q qs ih =>
    unfold unmerged at *
    cases hq : singletonNode q with
    | some n =>
      obtain rfl := singletonNode_eq_some hq
      have hn : (SCPQuorumSet.mk 1 [n] []).tree.holds p = p n := by
        rw [Bool.eq_iff_iff, tree_mk, ThresholdTree.holds_node]
        cases hp : p n <;> simp [hp]
      simp only [filterMap_cons, filter_cons, hq, countP_cons, hn]
      simp only [isNone_some, Bool.false_eq_true, if_false]
      omega
    | none =>
      simp only [filterMap_cons, filter_cons, hq]
      simp only [isNone_none, if_true, countP_cons]
      omega

theorem normalizeQSet_holds (q : SCPQuorumSet) :
    (normalizeQSet none q).tree.holds p = q.tree.holds p := by
  induction q with
  | mk t v i ih =>
    have hinner : (i.map (normalizeQSet none)).countP (·.tree.holds p) =
        i.countP (·.tree.holds p) := by
      rw [countP_map]
      exact countP_congr fun q hq => by rw [Function.comp_apply, ih q hq]
    rw [normalizeQSet_mk, holds_unwrap, Bool.eq_iff_iff, tree_mk, tree_mk, ThresholdTree.holds_node,
      ThresholdTree.holds_node, countP_append, countP_map, countP_map]
    have hmerge := count_merge (p := p) (i.map (normalizeQSet none))
    simp only [Function.comp_def]
    omega

end Holds

/-! ## Normalizing again -/

/-- What was not merged is not merged later either. -/
theorem filterMap_unmerged (qs : List SCPQuorumSet) :
    (unmerged qs).filterMap singletonNode = [] := by
  refine filterMap_eq_nil_iff.mpr fun q hq => ?_
  exact (mem_unmerged.mp hq).2

theorem unmerged_unmerged (qs : List SCPQuorumSet) : unmerged (unmerged qs) = unmerged qs := by
  rw [unmerged, filter_eq_self]
  exact fun q hq => isNone_iff_eq_none.mpr (mem_unmerged.mp hq).2

theorem normalizeQSet_idem (q : SCPQuorumSet) :
    normalizeQSet none (normalizeQSet none q) = normalizeQSet none q := by
  induction q with
  | mk t v i ih =>
    rw [normalizeQSet_mk]
    obtain ⟨v', hv'⟩ : ∃ v', v' = v ++ (i.map (normalizeQSet none)).filterMap singletonNode :=
      ⟨_, rfl⟩
    obtain ⟨i', hi'⟩ : ∃ i', i' = unmerged (i.map (normalizeQSet none)) := ⟨_, rfl⟩
    rw [← hv', ← hi']
    -- the inner sets that stay have been normalized
    have hnormal : ∀ q' ∈ i', normalizeQSet none q' = q' := by
      intro q' hq'
      rw [hi'] at hq'
      obtain ⟨q, hq, rfl⟩ := mem_map.mp (mem_unmerged.mp hq').1
      exact ih q hq
    have hinner : i'.map (normalizeQSet none) = i' :=
      (map_congr_left hnormal).trans (map_id _)
    have hnone : i'.filterMap singletonNode = [] := by rw [hi', filterMap_unmerged]
    have hsame : unmerged i' = i' := by rw [hi', unmerged_unmerged]
    rcases unwrap_cases (.mk t v' i') with ⟨q', hwraps, hunwrap⟩ | hunwrap
    · rw [hunwrap]
      refine hnormal q' ?_
      rw [(SCPQuorumSet.mk.inj hwraps).2.2]
      exact mem_cons_self
    · rw [hunwrap, normalizeQSet_mk, hinner, hnone, hsame, append_nil, hunwrap]

/-- Normalizing a sane quorum set keeps it sane, keeps its slices and its blocking sets, and
leaves nothing to normalize. -/
theorem normalizeQSet_preserves {q : SCPQuorumSet} {extraChecks : Bool}
    (h : isQuorumSetSane q extraChecks = true) :
    isQuorumSetSane (normalizeQSet none q) extraChecks = true ∧
    (∀ S, isQuorumSlice (normalizeQSet none q) S = isQuorumSlice q S ∧
      isVBlockingInternal S (normalizeQSet none q) = isVBlockingInternal S q) ∧
    normalizeQSet none (normalizeQSet none q) = normalizeQSet none q := by
  obtain ⟨hshape, hnodup, _, _⟩ := isQuorumSetSane_iff.mp h
  have hperm := normalizeQSet_nodes q
  have hlength := hperm.length_eq
  have hshape' := hshape.normalize
  refine ⟨isQuorumSetSane_iff.mpr ⟨hshape', hperm.nodup_iff.mpr hnodup, by omega, by omega⟩,
    fun S => ⟨?_, ?_⟩, normalizeQSet_idem q⟩
  · rw [isQuorumSlice_iff hshape'.fits, isQuorumSlice_iff hshape.fits, normalizeQSet_holds]
  · rw [isVBlocking_iff hshape'.fits (by omega), isVBlocking_iff hshape.fits (by omega),
      ThresholdTree.holds_flip hshape'.fits, ThresholdTree.holds_flip hshape.fits,
      normalizeQSet_holds]

/-- Two of two, one of them wrapped twice -/
def wrapped : SCPQuorumSet := .mk 2 [1] [.mk 1 [] [.mk 1 [2] []]]

theorem normalizeQSet_preserves_wrapped : isQuorumSetSane wrapped true = true ∧
    isQuorumSetSane (normalizeQSet none wrapped) true = true := by
  have hsane : isQuorumSetSane wrapped true = true := by decide
  exact ⟨hsane, (normalizeQSet_preserves hsane).1⟩

example : normalizeQSet none wrapped = .mk 2 [1, 2] [] := rfl

end EssaCore.Scp
