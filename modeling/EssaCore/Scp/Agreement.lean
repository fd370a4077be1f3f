import EssaCore.Lib.Quorum
import EssaCore.Scp.Locking

/-!
# Agreement

One slot, any number of nodes. Each well-behaved node runs the ballot protocol
with its own quorum set; faulty nodes send what they like. The network delivers
a well-behaved node's envelopes in any order, any number of times, to anyone,
or not at all; timers expire and nomination produces values at any moment. A
node that throws stays where it threw, and may or may not be called again.

- `Network.Step` — one call into one well-behaved node;
- `SysInv` — the invariants of `Locking` for every well-behaved node;
- `scp_agreement` — under quorum intersection despite the faulty nodes, no two
  well-behaved nodes externalize different values;
- `decision_rests_on_quorum` — the quorum behind each decision.
-/

open Function

namespace EssaCore.Scp

open EssaCore.Lib

/-! ## The system -/

/-- What is fixed for the slot: who is faulty, and the quorum sets. -/
structure Network where
  slotIndex : UInt64
  faulty : Set NodeID
  isValidator : NodeID → Bool
  qSet : NodeID → SCPQuorumSet
  qSetHash : NodeID → Hash

/-- The ballot protocol of every node. -/
abbrev System := NodeID → State

namespace Network

variable (net : Network)

def localNode (v : NodeID) : LocalNode where
  mNodeID := v
  mIsValidator := net.isValidator v
  mQSet := net.qSet v
  mQSetHash := net.qSetHash v

/-- Quorum sets are looked up by their hash: the answer to a well-behaved
node's hash is that node's quorum set. -/
def Resolves (h : Hash) (q : SCPQuorumSet) : Prop :=
  ∀ w, w ∉ net.faulty → h = net.qSetHash w → q = net.qSet w

/-- Surroundings a well-behaved node `v` may find itself in. -/
structure EnvFor (v : NodeID) (env : Env) : Prop where
  localNode : env.localNode = net.localNode v
  slotIndex : env.slotIndex = net.slotIndex
  getQSet : ∀ h q, env.getQSet h = some q → net.Resolves h q

/-- Signatures cannot be forged: the network only delivers, in the name of a
well-behaved node, an envelope that this node has emitted. -/
def Deliverable (sys : System) (e : SCPEnvelope) : Prop :=
  e.statement.nodeID ∉ net.faulty →
    .emitEnvelope e ∈ (sys e.statement.nodeID).log

/-- A call into a well-behaved node. -/
inductive Step : System → System → Prop where
  | call (sys : System) (v : NodeID) (hv : v ∉ net.faulty) (env : Env)
      (henv : net.EnvFor v env) (c : Call)
      (hc : ∀ e, c = .processEnvelope e → net.Deliverable sys e) :
      Step sys (Function.update sys v (c.after env (sys v)))

def init : System := fun v => State.init (net.isValidator v)

def Reachable (sys : System) : Prop :=
  Relation.ReflTransGen net.Step net.init sys

/-- `S` contains a slice of `v`. -/
def Satisfies (v : NodeID) (S : Set NodeID) : Prop :=
  ∃ nodes : List NodeID, (∀ n ∈ nodes, n ∈ S) ∧
    isQuorumSlice (net.qSet v) nodes = true

theorem Satisfies.mono (v : NodeID) (S T : Set NodeID) (hST : S ⊆ T)
    (h : net.Satisfies v S) : net.Satisfies v T := by
  obtain ⟨nodes, hS, hslice⟩ := h
  exact ⟨nodes, fun n hn => hST (hS n hn), hslice⟩

/-! ## The invariant of the system -/

/-- Statements that exist: a faulty node may have made any. -/
def Made (sys : System) (st : SCPStatement) : Prop :=
  st.nodeID ∈ net.faulty ∨ .created st ∈ (sys st.nodeID).log

def SysInv (sys : System) : Prop :=
  ∀ v, v ∉ net.faulty →
    NodeInv (net.Made sys) net.Resolves (net.localNode v) (sys v)

end Network

/-- What is known grows with what was made. -/
theorem NodeInv.mono {base base' : SCPStatement → Prop}
    {resolve : Hash → SCPQuorumSet → Prop} {node : LocalNode} {s : State}
    (h : NodeInv base resolve node s) (hbase : ∀ st, base st → base' st) :
    NodeInv base' resolve node s := by
  have hknown : ∀ st, Known base node s st → Known base' node s st :=
    fun st hst => hst.imp_left (hbase st)
  refine ⟨h.lock, h.own, fun w e he => ?_, fun hp => ?_⟩
  · obtain ⟨hid, hk⟩ := h.seen.latest w e he
    exact ⟨hid, hknown _ hk⟩
  · obtain ⟨c, hc, U, hslice, hU⟩ := h.seen.decided hp
    refine ⟨c, hc, U, hslice, fun w hw => ?_⟩
    obtain ⟨st, hid, hk, hb⟩ := hU w hw
    exact ⟨st, hid, hknown st hk, hb⟩

/-- A call in a well-behaved node's surroundings keeps its invariants, if what
it delivers was made. -/
theorem Network.EnvFor.safeStep {net : Network} {v : NodeID} {env : Env}
    (henv : net.EnvFor v env) {base : SCPStatement → Prop} {c : Call}
    (hc : ∀ e, c = .processEnvelope e → base e.statement) (s : State) :
    SafeStep base net.Resolves (net.localNode v) s (c.after env s) :=
  after_of_respects <| (safe_rules henv.localNode henv.getQSet).call (fun _ => trivial) c hc
      fun _ _ _ => trivial

namespace Network

variable {net : Network} {sys sys' : System}

variable {v : NodeID} {x : Value} {st : SCPStatement}

/-- Nothing is ever unsaid. -/
theorem Made.update {s : State} (hlog : (sys v).log <:+ s.log) (h : net.Made sys st) :
    net.Made (Function.update sys v s) st := by
  refine h.imp_right fun hmem => ?_
  by_cases hv : st.nodeID = v
  · subst hv
    rw [update_self]
    exact hlog.subset hmem
  · rw [update_of_ne hv]
    exact hmem

/-- What the network delivers was made. -/
theorem SysInv.made_of_deliverable (h : net.SysInv sys) {e : SCPEnvelope}
    (he : net.Deliverable sys e) : net.Made sys e.statement := by
  by_cases hf : e.statement.nodeID ∈ net.faulty
  · exact .inl hf
  · exact .inr ((h _ hf).own.emitted e (he hf))

theorem sysInv_init : net.SysInv net.init := by
  intro v _
  have hlog : ∀ ev, ev ∉ (net.init v).log := fun _ => List.not_mem_nil
  have hunlocked : ∀ x, ¬ Locked (net.init v) x :=
    fun _ ⟨_, _, hmem, _⟩ => hlog _ hmem
  refine ⟨⟨?_, fun _ => hunlocked, fun hp => absurd rfl hp⟩, ⟨?_, ?_, ?_, ?_, ?_⟩, ?_, ?_⟩
  · exact fun x _ hx => absurd hx (hunlocked x)
  · exact fun _ h => absurd h (hlog _)
  · exact fun _ _ h => absurd h (hlog _)
  · exact fun _ _ h => absurd h (hlog _)
  · rintro _ ⟨⟩
  · exact fun _ h => absurd h (hlog _)
  · rintro _ _ ⟨⟩
  · rintro ⟨⟩

/-- One call into one node keeps the invariants of all. -/
theorem SysInv.step (h : net.SysInv sys) (hstep : net.Step sys sys') : net.SysInv sys' := by
  obtain ⟨v, _, env, henv, c, hc⟩ := hstep
  have hsafe := henv.safeStep (fun e he => h.made_of_deliverable (hc e he)) (sys v)
  intro w hw
  have hmade : ∀ st, net.Made sys st → net.Made (update sys v (c.after env (sys v))) st :=
    fun st hst => hst.update hsafe.log_suffix
  refine NodeInv.mono ?_ hmade
  by_cases hwv : w = v
  · subst hwv
    rw [update_self]
    exact hsafe.inv (h w hw)
  · rw [update_of_ne hwv]
    exact h w hw

theorem sysInv_of_reachable (hreach : net.Reachable sys) : net.SysInv sys := by
  induction hreach with
  | refl => exact sysInv_init
  | tail _ hstep ih => exact ih.step hstep

/-! ## Decisions and their support -/

/-- Node `v` has externalized `x`. -/
def Externalized (sys : System) (v : NodeID) (x : Value) : Prop :=
  (sys v).mPhase = .externalize ∧ ∃ c, (sys v).mCommit = some c ∧ c.value = x

/-- A well-behaved node's statement is in its own log. -/
theorem created_of_known (hknown : Known (net.Made sys) (net.localNode v) (sys v) st)
    (hst : st.nodeID ∉ net.faulty) :
    .created st ∈ (sys st.nodeID).log := by
  rcases hknown with hmade | ⟨hid, hmem⟩
  · exact hmade.resolve_left hst
  · rw [hid]
    exact hmem

/-- An externalized value is one the node is locked to. -/
theorem SysInv.locked_of_externalized (h : net.SysInv sys)
    (hv : v ∉ net.faulty) (hx : Externalized sys v x) :
    Locked (sys v) x := by
  obtain ⟨hp, c, hc, rfl⟩ := hx
  have hprep : (sys v).mPhase ≠ .prepare := by rw [hp]; exact fun h => nomatch h
  exact (h v hv).lock.locked_of_votes hprep fun y hy => (hy.commit c hc).symm

/-- A statement that backs `x` binds the node that made it: it is locked to
`x`, and satisfied by the set or itself done. -/
theorem SysInv.bound_of_backs (h : net.SysInv sys)
    (hst : st.nodeID ∉ net.faulty) (hmem : .created st ∈ (sys st.nodeID).log) {U : List NodeID}
    (hb : Backs net.Resolves x U st) :
    Locked (sys st.nodeID) x ∧
      (net.Satisfies st.nodeID { w | w ∈ U } ∨ Externalized sys st.nodeID x) := by
  have hown := (h _ hst).own
  unfold Backs at hb
  cases hp : st.pledges with
  | prepare _ => simp only [hp] at hb
  | confirm c =>
    simp only [hp] at hb
    obtain ⟨rfl, q, hq, hslice⟩ := hb
    obtain ⟨hlocked, hhash⟩ := hown.created_confirm st c hmem hp
    obtain rfl : q = net.qSet st.nodeID := hq st.nodeID hst hhash
    exact ⟨hlocked, .inl ⟨U, fun _ hn => hn, hslice⟩⟩
  | externalize e =>
    simp only [hp] at hb
    subst hb
    obtain ⟨hext, hlocked, hc⟩ := hown.created_externalize st e hmem hp
    exact ⟨hlocked, .inr ⟨hext, hc⟩⟩

/-- Behind every decision stands a set that satisfies the node. -/
theorem SysInv.supported (h : net.SysInv sys) (hv : v ∉ net.faulty) (hx : Externalized sys v x) :
    ∃ U, net.Satisfies v U ∧ Supports net.Satisfies net.faulty
      (fun w y => Locked (sys w) y) (Externalized sys) x U := by
  obtain ⟨hp, c, hc, rfl⟩ := hx
  obtain ⟨c', hc', U, hslice, hU⟩ := (h v hv).seen.decided hp
  obtain rfl : c = c' := Option.some.inj (hc.symm.trans hc')
  refine ⟨{ w | w ∈ U }, ⟨U, fun _ hn => hn, hslice⟩, fun w hw hwf => ?_⟩
  obtain ⟨_, rfl, hknown, hbacks⟩ := hU w hw
  exact h.bound_of_backs hwf (created_of_known hknown hwf) hbacks

end Network

/-- **Agreement.** Under quorum intersection despite the faulty nodes, the
commits of any two well-behaved nodes in `EXTERNALIZE` carry the same value,
whatever the network, the timers and nomination did. -/
theorem scp_agreement (net : Network)
    (hinter : QuorumIntersection net.Satisfies net.faulty) (sys : System)
    (hreach : net.Reachable sys) (v v' : NodeID) (hv : v ∉ net.faulty)
    (hv' : v' ∉ net.faulty) (hext : (sys v).mPhase = .externalize)
    (hext' : (sys v').mPhase = .externalize) :
    ∃ c c', (sys v).mCommit = some c ∧ (sys v').mCommit = some c' ∧ c.value = c'.value := by
  have h := Network.sysInv_of_reachable hreach
  obtain ⟨c, hc, _⟩ := (h v hv).seen.decided hext
  obtain ⟨c', hc', _⟩ := (h v' hv').seen.decided hext'
  refine ⟨c, c', hc, hc', ?_⟩
  exact agreement (Network.Satisfies.mono net) hinter (fun w x y hw => (h w hw).lock.unique x y)
    (fun _ _ => h.locked_of_externalized) (fun _ _ => h.supported) hv hv' ⟨hext, c, hc, rfl⟩ ⟨hext', c', hc', rfl⟩

/-! ## What the nodes have said -/

/-- The value a statement accepts to commit, if any -/
def SCPStatement.accepted (st : SCPStatement) : Option Value :=
  match st.pledges with
  | .prepare _ => none
  | .confirm c => some c.ballot.value
  | .externalize e => some e.commit.value

section Statements

variable {net : Network} {sys : System} {v : NodeID} {x : Value}

theorem Network.SysInv.locked_of_emitted (h : net.SysInv sys) (hv : v ∉ net.faulty)
    {e : SCPEnvelope} (he : .emitEnvelope e ∈ (sys v).log)
    (hx : e.statement.accepted = some x) : Locked (sys v) x := by
  have hown := (h v hv).own
  have hmem := hown.emitted e he
  unfold SCPStatement.accepted at hx
  cases hp : e.statement.pledges with
  | prepare _ => simp [hp] at hx
  | confirm c =>
    obtain rfl : c.ballot.value = x := by simpa [hp] using hx
    exact (hown.created_confirm _ c hmem hp).1
  | externalize c =>
    obtain rfl : c.commit.value = x := by simpa [hp] using hx
    exact (hown.created_externalize _ c hmem hp).2.1

/-- Whoever externalizes belongs to a quorum of well-behaved nodes that have all accepted to commit
the value, and none of them has ever emitted a `CONFIRM` or `EXTERNALIZE` for another. -/
theorem decision_rests_on_quorum (net : Network) (sys : System) (hreach : net.Reachable sys)
    (v : NodeID) (hv : v ∉ net.faulty) (hext : (sys v).mPhase = .externalize) :
    ∃ c Q, (sys v).mCommit = some c ∧ v ∈ Q ∧ IsQuorum net.Satisfies net.faulty Q ∧
      ∀ w ∈ Q, Locked (sys w) c.value ∧
        ∀ e, .emitEnvelope e ∈ (sys w).log → ∀ x, e.statement.accepted = some x → x = c.value := by
  have h := Network.sysInv_of_reachable hreach
  obtain ⟨c, hc, _⟩ := (h v hv).seen.decided hext
  have hd : Network.Externalized sys v c.value := ⟨hext, c, hc, rfl⟩
  have hquorum := isQuorum_backers (Network.Satisfies.mono net) (fun _ _ => h.supported) hv hd
  refine ⟨c, _, hc, ?_, hquorum, fun w hw => ?_⟩
  · exact ⟨hv, .inl hd⟩
  have hlocked : Locked (sys w) c.value := by
    obtain ⟨hwf, hdw | ⟨U, hU, hwU⟩⟩ := hw
    · exact h.locked_of_externalized hwf hdw
    · exact (hU w hwU hwf).1
  exact ⟨hlocked, fun e he x hx =>
    (h w hw.1).lock.unique x _ (h.locked_of_emitted hw.1 he hx) hlocked⟩

end Statements

/-! ## Two nodes that externalize -/

section Schedule

/-- Who is called next, and how. -/
abbrev Schedule := List (NodeID × Call)

/-- A call that delivers only what was emitted. -/
def Call.emitted (sys : System) : Call → Bool
  | .processEnvelope e => .emitEnvelope e ∈ (sys e.statement.nodeID).log
  | .bumpState _ _ | .abandonBallot _ => true

def System.call (env : NodeID → Env) (sys : System) (v : NodeID) (c : Call) :
    System :=
  Function.update sys v (c.after (env v) (sys v))

def System.play (env : NodeID → Env) : System → Schedule → System
  | sys, [] => sys
  | sys, (v, c) :: rest => System.play env (sys.call env v c) rest

def Schedule.valid (env : NodeID → Env) : System → Schedule → Bool
  | _, [] => true
  | sys, (v, c) :: rest =>
    c.emitted sys && Schedule.valid env (sys.call env v c) rest

/-- A valid schedule of well-behaved nodes is a run of the network. -/
theorem Network.Reachable.play {net : Network} {env : NodeID → Env}
    (henv : ∀ v, net.EnvFor v (env v)) {sys : System}
    (hreach : net.Reachable sys) {sched : Schedule}
    (hgood : ∀ a ∈ sched, a.1 ∉ net.faulty)
    (hvalid : sched.valid env sys = true) :
    net.Reachable (sys.play env sched) := by
  induction sched generalizing sys with
  | nil => exact hreach
  | cons a rest ih =>
    obtain ⟨v, c⟩ := a
    simp only [Schedule.valid, Bool.and_eq_true] at hvalid
    refine ih (.tail hreach (.call sys v (hgood (v, c) List.mem_cons_self)
      (env v) (henv v) c ?_)) (fun a ha => hgood a (List.mem_cons_of_mem _ ha))
      hvalid.2
    rintro e rfl _
    exact of_decide_eq_true hvalid.1

end Schedule

/-- Nodes 1 and 2 need each other; everyone else is faulty. -/
def twoNodes : Network where
  slotIndex := 7
  faulty := { v | v ≠ 1 ∧ v ≠ 2 }
  isValidator _ := true
  qSet _ := .mk 2 [1, 2] []
  qSetHash _ := 0

def twoNodesEnv (v : NodeID) : Env where
  localNode := twoNodes.localNode v
  slotIndex := 7
  ndebug := false
  getQSet _ := some (.mk 2 [1, 2] [])
  validateValue _ := .fullyValidatedValue
  latestCompositeCandidate := []
  signEnvelope _ := []

/-- Both nominate the same value and pass each other their envelopes. -/
def twoNodesSchedule : Schedule :=
  let x : Value := [1]
  let b : SCPBallot := ⟨1, x⟩
  let from_ (v : NodeID) (p : SCPPledges) : Call :=
    .processEnvelope ⟨⟨v, 7, p⟩, []⟩
  [(1, .bumpState x false),
   (2, .bumpState x false),
   (2, from_ 1 (.prepare ⟨0, b, none, none, 0, 0⟩)),
   (1, from_ 2 (.prepare ⟨0, b, some b, none, 0, 0⟩)),
   (2, from_ 1 (.prepare ⟨0, b, some b, none, 1, 1⟩)),
   (1, from_ 2 (.confirm ⟨b, 1, 1, 1, 0⟩)),
   (2, from_ 1 (.externalize ⟨b, 1, 0⟩))]

/-- A quorum of the two nodes contains both. -/
theorem twoNodes_intersect : QuorumIntersection twoNodes.Satisfies twoNodes.faulty := by
  have hone : ∀ Q, IsQuorum twoNodes.Satisfies twoNodes.faulty Q → 1 ∈ Q := by
    intro Q hQ
    obtain ⟨v, hv⟩ := hQ.nonempty
    obtain ⟨nodes, hsub, hslice⟩ := hQ.satisfied v hv
    have hmem : 1 ∈ nodes := by
      simp [twoNodes, isQuorumSlice, isQuorumSliceInternal, innerSlices, thresholdReached] at hslice
      exact hslice.1
    exact (hsub 1 hmem).resolve_right fun hf => hf.1 rfl
  intro Q Q' hQ hQ'
  exact ⟨1, hone Q hQ, hone Q' hQ'⟩

abbrev twoNodesEnd : System := twoNodes.init.play twoNodesEnv twoNodesSchedule

theorem twoNodesEnd_reachable : twoNodes.Reachable twoNodesEnd := by
  refine Network.Reachable.play (fun v => ⟨rfl, rfl, ?_⟩) .refl ?_ ?_
  · intro h q hq w _ _
    exact (Option.some.inj hq).symm
  · simp [twoNodesSchedule, twoNodes]
  · decide +kernel

/-- The two nodes of the schedule externalize, and agree. -/
theorem scp_agreement_twoNodes :
    ∃ c c', (twoNodes.init.play twoNodesEnv twoNodesSchedule 1).mCommit = some c ∧
      (twoNodes.init.play twoNodesEnv twoNodesSchedule 2).mCommit = some c' ∧
      c.value = c'.value := by
  exact scp_agreement twoNodes twoNodes_intersect _ twoNodesEnd_reachable 1 2 (by simp [twoNodes])
    (by simp [twoNodes]) (by decide +kernel) (by decide +kernel)

theorem decision_rests_on_quorum_twoNodes :
    ∃ c Q, (twoNodesEnd 2).mCommit = some c ∧ 2 ∈ Q ∧
      IsQuorum twoNodes.Satisfies twoNodes.faulty Q ∧
      ∀ w ∈ Q, Locked (twoNodesEnd w) c.value ∧ ∀ e, .emitEnvelope e ∈ (twoNodesEnd w).log →
        ∀ x, e.statement.accepted = some x → x = c.value :=
  decision_rests_on_quorum twoNodes _ twoNodesEnd_reachable 2 (by simp [twoNodes])
    (by decide +kernel)

end EssaCore.Scp
