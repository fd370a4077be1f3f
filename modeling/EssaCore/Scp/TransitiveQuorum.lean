import EssaCore.Lib.Worklist
import EssaCore.Scp.QuorumSets

/-!
# Transitive quorum membership (`scp/LocalNode.cpp`)

`isNodeInQuorum` (`LocalNode.cpp:409–460`) asks whether a node can be reached from the local one
through the quorum sets of known statements. The sets it keeps are unordered: which node of the
backlog is looked at next is up to the implementation.

- `forAllNodes` — a procedure called for each node of a quorum set;
- `Pick` — the order in which an unordered set yields its nodes. A pick depends on all of the state
  of the loop, and no state is met twice, so this covers orders that depend on the past as well;
- `isNodeInQuorum` — the search, with a number of rounds;
- `isNodeInQuorum_correct` — enough rounds give an answer, whatever the order, and what it means.

The search reads statements only through `qfun`, so they can be of any type.
-/

open List Finset

namespace EssaCore.Scp

open Lib (Worklist)

/-- `SCP::TriBool` -/
inductive TriBool where
  | TB_TRUE
  | TB_FALSE
  | TB_MAYBE
deriving DecidableEq, Repr

/-! ## The code -/

mutual

/-- `LocalNode::forAllNodes`, with a procedure that changes a state -/
def forAllNodes {σ : Type} (proc : NodeID → σ → σ) : SCPQuorumSet → σ → σ
  | .mk _ validators innerSets, s =>
    forAllInner proc innerSets (validators.foldl (fun s n => proc n s) s)

def forAllInner {σ : Type} (proc : NodeID → σ → σ) : List SCPQuorumSet → σ → σ
  | [], s => s
  | q :: qs, s => forAllInner proc qs (forAllNodes proc q s)

end

/-- What `backlog.begin()` is, for each state of the loop -/
abbrev Pick := (visited backlog : Finset NodeID) → backlog.Nonempty → {c : NodeID // c ∈ backlog}

section Search

variable {Statement : Type} (pick : Pick) (node : NodeID)
  (qfun : Statement → Option SCPQuorumSet) (map : AList fun _ : NodeID => List Statement)

/-- The loop over the statements of a node: nodes that were not visited go to the backlog. -/
def exploreStatements (visited : Finset NodeID) :
    List Statement → Finset NodeID → TriBool → Finset NodeID × TriBool
  | [], backlog, res => (backlog, res)
  | st :: sts, backlog, res =>
    match qfun st with
    -- can't find the quorum set
    | none => exploreStatements visited sts backlog .TB_MAYBE
    | some qset =>
      let proc := fun n backlog => if n ∈ visited then backlog else insert n backlog
      exploreStatements visited sts (forAllNodes proc qset backlog) res

/-- The `while` loop -/
def searchLoop : Nat → Finset NodeID → Finset NodeID → TriBool → Option TriBool
  | 0, _, _, _ => none
  | rounds + 1, backlog, visited, res =>
    if h : backlog.Nonempty then
      let c := (pick visited backlog h).1
      if c = node then some .TB_TRUE
      else
        let backlog := backlog.erase c
        let visited := insert c visited
        match map.lookup c with
        -- can't lookup information on this node
        | none => searchLoop rounds backlog visited .TB_MAYBE
        | some sts =>
          let explored := exploreStatements qfun visited sts backlog res
          searchLoop rounds explored.1 visited explored.2
    else some res

/-- `LocalNode::isNodeInQuorum` of the local node `mNodeID`, with a number of rounds -/
def isNodeInQuorum (mNodeID : NodeID) (rounds : Nat) : Option TriBool :=
  searchLoop pick node qfun map rounds {mNodeID} ∅ .TB_FALSE

end Search

/-! ## What the search is for -/

section Spec

variable {Statement : Type} (qfun : Statement → Option SCPQuorumSet)
  (map : AList fun _ : NodeID => List Statement)

/-- A known quorum set of a known statement of `a` has the node `b`. -/
def Follows (a b : NodeID) : Prop :=
  ∃ sts, map.lookup a = some sts ∧ ∃ st ∈ sts, ∃ qset, qfun st = some qset ∧ b ∈ qset.nodes

/-- The node is in the map, with all its quorum sets known. -/
def FullyKnown (a : NodeID) : Prop :=
  ∃ sts, map.lookup a = some sts ∧ ∀ st ∈ sts, qfun st ≠ none

/-- The node can be reached from the local one. -/
def InTransitiveQuorum (mNodeID node : NodeID) : Prop :=
  Relation.ReflTransGen (Follows qfun map) mNodeID node

end Spec

/-! ## One round -/

theorem forAllInner_eq {σ : Type} {proc : NodeID → σ → σ} {qs : List SCPQuorumSet}
    (h : ∀ q ∈ qs, ∀ s, forAllNodes proc q s = q.nodes.foldl (fun s n => proc n s) s) (s : σ) :
    forAllInner proc qs s = (qs.flatMap SCPQuorumSet.nodes).foldl (fun s n => proc n s) s := by
  induction qs generalizing s with
  | nil => rw [forAllInner, flatMap_nil, foldl_nil]
  | cons q qs ih =>
    rw [forAllInner, h q mem_cons_self, ih fun q' hq' => h q' (mem_cons_of_mem q hq'),
      flatMap_cons, foldl_append]

theorem forAllNodes_eq {σ : Type} (proc : NodeID → σ → σ) (q : SCPQuorumSet) (s : σ) :
    forAllNodes proc q s = q.nodes.foldl (fun s n => proc n s) s := by
  induction q generalizing s with
  | mk t v i ih => rw [forAllNodes, forAllInner_eq ih, nodes_mk, foldl_append]

theorem mem_insertNew {visited : Finset NodeID} {b : NodeID} (ns : List NodeID)
    (backlog : Finset NodeID) :
    b ∈ ns.foldl (fun s n => if n ∈ visited then s else insert n s) backlog ↔
      b ∈ backlog ∨ b ∈ ns ∧ b ∉ visited := by
  induction ns generalizing backlog with
  | nil => simp
  | cons n ns ih =>
    rw [foldl_cons, ih]
    by_cases hn : n ∈ visited
    · rw [if_pos hn]
      grind
    · rw [if_neg hn, mem_insert]
      grind

section Rounds

variable {Statement : Type} {pick : Pick} {node mNodeID : NodeID}
  {qfun : Statement → Option SCPQuorumSet} {map : AList fun _ : NodeID => List Statement}
  {visited : Finset NodeID}

theorem mem_exploreStatements {b : NodeID} (sts : List Statement) (backlog : Finset NodeID)
    (res : TriBool) : b ∈ (exploreStatements qfun visited sts backlog res).1 ↔
      b ∈ backlog ∨ (∃ st ∈ sts, ∃ qset, qfun st = some qset ∧ b ∈ qset.nodes) ∧ b ∉ visited := by
  induction sts generalizing backlog res with
  | nil => simp [exploreStatements]
  | cons st sts ih =>
    cases hq : qfun st with
    | none =>
      simp only [exploreStatements, hq, ih, exists_mem_cons_iff]
      simp
    | some qset =>
      simp only [exploreStatements, hq, ih, forAllNodes_eq, mem_insertNew, exists_mem_cons_iff,
        Option.some.injEq, exists_eq_left', or_and_right, or_assoc]

theorem exploreStatements_res (sts : List Statement) (backlog : Finset NodeID) (res : TriBool) :
    (exploreStatements qfun visited sts backlog res).2 =
      if sts.all fun st => (qfun st).isSome then res else .TB_MAYBE := by
  induction sts generalizing backlog res with
  | nil => rfl
  | cons st sts ih =>
    cases hq : qfun st with
    | none => simp [exploreStatements, hq, ih]
    | some qset => simp [exploreStatements, hq, ih]

variable {c : NodeID} {w : Worklist NodeID} {res : TriBool}

theorem fullyKnown_iff {sts : List Statement} (h : map.lookup c = some sts) :
    FullyKnown qfun map c ↔ sts.all (fun st => (qfun st).isSome) = true := by
  rw [FullyKnown, h]
  simp [Option.isSome_iff_ne_none]

/-- What is known of the answer before it is given -/
structure Undecided (qfun : Statement → Option SCPQuorumSet)
    (map : AList fun _ : NodeID => List Statement) (node : NodeID) (visited : Finset NodeID)
    (res : TriBool) : Prop where
  notVisited : node ∉ visited
  ne_true : res ≠ .TB_TRUE
  eq_false_iff : res = .TB_FALSE ↔ ∀ a ∈ visited, FullyKnown qfun map a

theorem Undecided.visit {res' : TriBool} (h : Undecided qfun map node visited res)
    (hc : c ≠ node) (hknown : FullyKnown qfun map c → res' = res)
    (hunknown : ¬ FullyKnown qfun map c → res' = .TB_MAYBE) :
    Undecided qfun map node (insert c visited) res' where
  notVisited hmem := (mem_insert.mp hmem).elim (fun hnode => hc hnode.symm) h.notVisited
  ne_true := by
    by_cases hfull : FullyKnown qfun map c
    · exact hknown hfull ▸ h.ne_true
    · exact hunknown hfull ▸ nofun
  eq_false_iff := by
    rw [forall_mem_insert]
    by_cases hfull : FullyKnown qfun map c
    · rw [hknown hfull, h.eq_false_iff]
      exact (and_iff_right hfull).symm
    · rw [hunknown hfull]
      exact ⟨nofun, fun hall => absurd hall.1 hfull⟩

/-- What the answer means -/
structure Answers (qfun : Statement → Option SCPQuorumSet)
    (map : AList fun _ : NodeID => List Statement) (mNodeID node : NodeID) (res : TriBool) :
    Prop where
  eq_true_iff : res = .TB_TRUE ↔ InTransitiveQuorum qfun map mNodeID node
  eq_false_iff : res = .TB_FALSE ↔ ¬ InTransitiveQuorum qfun map mNodeID node ∧
    ∀ a, InTransitiveQuorum qfun map mNodeID a → FullyKnown qfun map a

theorem answers_found (h : InTransitiveQuorum qfun map mNodeID node) :
    Answers qfun map mNodeID node .TB_TRUE where
  eq_true_iff := iff_of_true rfl h
  eq_false_iff := iff_of_false nofun fun hnot => hnot.1 h

theorem Undecided.answers
    (h : Undecided qfun map node w.visited res) (hs : w.Searches (Follows qfun map) mNodeID)
    (hempty : w.backlog = ∅) : Answers qfun map mNodeID node res where
  eq_true_iff := iff_of_false h.ne_true fun hin => h.notVisited ((hs.visited_iff hempty).mpr hin)
  eq_false_iff := by
    have hnot : ¬ InTransitiveQuorum qfun map mNodeID node := fun hin =>
      h.notVisited ((hs.visited_iff hempty).mpr hin)
    rw [h.eq_false_iff, and_iff_right hnot]
    exact forall_congr' fun a => imp_congr (hs.visited_iff hempty) Iff.rfl

/-- A node without statements in the map is taken. -/
theorem takes_unknown (hc : c ∈ w.backlog) (hlookup : map.lookup c = none) :
    w.Takes (Follows qfun map) c ⟨w.backlog.erase c, insert c w.visited⟩ where
  mem := hc
  visited := rfl
  backlog b := by
    have hfollows : ¬ Follows qfun map c b := fun ⟨_, hsts, _⟩ => nomatch hlookup.symm.trans hsts
    simp [hfollows]

theorem takes_known {sts : List Statement} (hc : c ∈ w.backlog)
    (hlookup : map.lookup c = some sts) (res : TriBool) :
    w.Takes (Follows qfun map) c
      ⟨(exploreStatements qfun (insert c w.visited) sts (w.backlog.erase c) res).1,
        insert c w.visited⟩ where
  mem := hc
  visited := rfl
  backlog b := by
    have hfollows : Follows qfun map c b ↔
        ∃ st ∈ sts, ∃ qset, qfun st = some qset ∧ b ∈ qset.nodes := by
      rw [Follows, hlookup]
      simp
    rw [mem_exploreStatements, hfollows]

/-- The loop ends after each node was taken at most once. -/
theorem searchLoop_answers {U : Finset NodeID} (hroot : mNodeID ∈ U)
    (hU : ∀ a b, Follows qfun map a b → b ∈ U) (rounds : Nat) (w : Worklist NodeID) (res : TriBool)
    (hs : w.Searches (Follows qfun map) mNodeID) (h : Undecided qfun map node w.visited res)
    (hrounds : (U \ w.visited).card < rounds) :
    ∃ answer, searchLoop pick node qfun map rounds w.backlog w.visited res = some answer ∧
      Answers qfun map mNodeID node answer := by
  induction rounds generalizing w res with
  | zero => exact absurd hrounds (Nat.not_lt_zero _)
  | succ rounds ih =>
    rw [searchLoop]
    split
    · rename_i hne
      obtain ⟨c, hc⟩ := pick w.visited w.backlog hne
      dsimp only
      split
      · rename_i hnode
        subst hnode
        exact ⟨_, rfl, answers_found (hs.reachable c (.inl hc))⟩
      · rename_i hnode
        have hcU : c ∈ U := hs.mem_of_found hroot hU (.inl hc)
        cases hlookup : map.lookup c with
        | none =>
          have htakes : w.Takes (Follows qfun map) c _ := takes_unknown hc hlookup
          refine ih ⟨w.backlog.erase c, insert c w.visited⟩ _ (hs.takes htakes)
            (h.visit hnode ?_ fun _ => rfl)
            (lt_of_lt_of_le (htakes.card_lt hs hcU) (Nat.lt_succ_iff.mp hrounds))
          rintro ⟨sts, hsts, -⟩
          rw [hlookup] at hsts
          cases hsts
        | some sts =>
          have htakes : w.Takes (Follows qfun map) c _ := takes_known hc hlookup res
          refine ih ⟨_, insert c w.visited⟩ _ (hs.takes htakes)
            (h.visit hnode (fun hknown => ?_) fun hunknown => ?_)
            (lt_of_lt_of_le (htakes.card_lt hs hcU) (Nat.lt_succ_iff.mp hrounds))
          · rw [exploreStatements_res, if_pos ((fullyKnown_iff hlookup).mp hknown)]
          · rw [exploreStatements_res, if_neg fun h => hunknown ((fullyKnown_iff hlookup).mpr h)]
    · rename_i hne
      exact ⟨res, rfl, h.answers hs (not_nonempty_iff_eq_empty.mp hne)⟩

theorem Answers.unique {res' : TriBool} (h : Answers qfun map mNodeID node res)
    (h' : Answers qfun map mNodeID node res') : res = res' := by
  have htrue := h.eq_true_iff.trans h'.eq_true_iff.symm
  have hfalse := h.eq_false_iff.trans h'.eq_false_iff.symm
  cases res <;> cases res' <;> simp_all

/-- There are finitely many nodes in the quorum sets of a map. -/
theorem exists_allNodes (qfun : Statement → Option SCPQuorumSet)
    (map : AList fun _ : NodeID => List Statement) :
    ∃ U : Finset NodeID, ∀ a b, Follows qfun map a b → b ∈ U := by
  refine ⟨(map.entries.flatMap fun e => e.2.flatMap fun st =>
    (qfun st).elim [] SCPQuorumSet.nodes).toFinset, ?_⟩
  rintro a b ⟨sts, hsts, st, hst, qset, hqset, hb⟩
  rw [mem_toFinset, mem_flatMap]
  refine ⟨⟨a, sts⟩, AList.mem_lookup_iff.mp hsts, mem_flatMap.mpr ⟨st, hst, ?_⟩⟩
  rw [hqset]
  exact hb

end Rounds

/-- `isNodeInQuorum` ends, with the same answer for every order of the sets: yes for the nodes that
can be reached; no for others, if all is known of the nodes that can be reached; maybe else. -/
theorem isNodeInQuorum_correct {Statement : Type} (mNodeID node : NodeID)
    (qfun : Statement → Option SCPQuorumSet) (map : AList fun _ : NodeID => List Statement) :
    ∃ rounds res, (∀ pick, ∀ n ≥ rounds, isNodeInQuorum pick node qfun map mNodeID n = some res) ∧
      (res = .TB_TRUE ↔ InTransitiveQuorum qfun map mNodeID node) ∧
      (res = .TB_FALSE ↔ ¬ InTransitiveQuorum qfun map mNodeID node ∧
        ∀ a, InTransitiveQuorum qfun map mNodeID a → FullyKnown qfun map a) := by
  obtain ⟨U, hU⟩ := exists_allNodes qfun map
  have hanswers (pick : Pick) (n : Nat) (hn : (insert mNodeID U).card + 1 ≤ n) :
      ∃ answer, isNodeInQuorum pick node qfun map mNodeID n = some answer ∧
        Answers qfun map mNodeID node answer := by
    refine searchLoop_answers (mem_insert_self mNodeID U)
      (fun a b h => mem_insert_of_mem (hU a b h)) n (.start mNodeID) .TB_FALSE
      Worklist.searches_start ⟨notMem_empty node, nofun, iff_of_true rfl nofun⟩ ?_
    exact Nat.lt_of_le_of_lt (card_le_card sdiff_subset) hn
  obtain ⟨res, -, hres⟩ := hanswers (fun _ _ h => ⟨h.choose, h.choose_spec⟩) _ le_rfl
  refine ⟨(insert mNodeID U).card + 1, res, fun pick n hn => ?_, hres.eq_true_iff,
    hres.eq_false_iff⟩
  obtain ⟨answer, hanswer, hmeans⟩ := hanswers pick n hn
  rw [hanswer, hmeans.unique hres]

end EssaCore.Scp
