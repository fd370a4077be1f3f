import EssaCore.Scp.AttemptBump
import EssaCore.Scp.BallotRules

/-!
# Hearing from a quorum (`scp/BallotProtocol.cpp:2125–2176`)

`checkHeardFromQuorum` looks for a quorum at the local counter or above. Its
comment says why it does not flip flop: other nodes only move to higher
counters. Here that is `heardAtCounter_newer`, and with it a quorum that was
found is found again after any newer statement (`heardFromQuorum_insert`): an
`EXTERNALIZE` counts for every counter and only needs its own node.

- `Fixed` — every node names one quorum set;
- `HeardStep` — what an update does while the counter stays; `heard_rules`
  shows that every update of the protocol is one;
- `heard_from_quorum_stays` — whole runs.
-/

open List Option AList

namespace EssaCore.Scp

open EssaCore.Lib

/-! ## Newer statements -/

/-- `getCompanionQuorumSetHashFromStatement`. -/
def SCPPledges.quorumSetHash : SCPPledges → Hash
  | .prepare p => p.quorumSetHash
  | .confirm c => c.quorumSetHash
  | .externalize e => e.commitQuorumSetHash

/-- The statement names the quorum set of its node. -/
def Fixed (hashes : NodeID → Hash) (st : SCPStatement) : Prop :=
  st.pledges.quorumSetHash = hashes st.nodeID

/-- The type of a node's statements never goes back. -/
theorem type_le_of_newer {old st : SCPStatement} (h : isNewerStatement old st = true) :
    old.pledges.type.rank ≤ st.pledges.type.rank := by
  unfold isNewerStatement at h
  split at h
  · cases h
  · rename_i hold hst
    rw [hold, hst]
    exact le_rfl
  · rename_i hold hst
    rw [hold, hst]
    exact le_rfl
  · exact (of_decide_eq_true h).le

theorem heardAtCounter_newer {old st : SCPStatement} {n : UInt32}
    (hnewer : isNewerStatement old st = true) (h : heardAtCounter n old = true) :
    heardAtCounter n st = true := by
  unfold heardAtCounter at h ⊢
  cases hst : st.pledges with
  | confirm | externalize => rfl
  | prepare prep =>
    cases hold : old.pledges with
    | confirm | externalize =>
      have htype := type_le_of_newer hnewer
      rw [hst, hold] at htype
      exact absurd htype (Nat.not_succ_le_zero _)
    | prepare oldPrep =>
      unfold isNewerStatement at hnewer
      rw [hold] at h
      rw [hst, hold] at hnewer
      have hle : oldPrep.ballot ≤ prep.ballot := by
        rw [← isLE_compareBallots_iff]
        cases hcmp : compareBallots oldPrep.ballot prep.ballot with
        | lt | eq => rfl
        | gt => simp [hcmp] at hnewer
      simp only [decide_eq_true_eq] at h ⊢
      exact h.trans (SCPBallot.counter_le_of_le hle)

variable {hashes : NodeID → Hash}

/-- A node's quorum set stays the one it was, until the node externalizes. -/
theorem getQuorumSet_newer (env : Env) {old st : SCPStatement}
    (hnewer : isNewerStatement old st = true) (hnode : old.nodeID = st.nodeID)
    (hold : Fixed hashes old) (hst : Fixed hashes st) :
    getQuorumSetFromStatement env st = some (getSingletonQSet st.nodeID) ∨
      getQuorumSetFromStatement env st = getQuorumSetFromStatement env old := by
  unfold Fixed at hold hst
  rw [hnode, ← hst] at hold
  unfold getQuorumSetFromStatement
  cases hpl : st.pledges with
  | externalize => exact .inl rfl
  | prepare | confirm =>
    right
    cases hopl : old.pledges with
    | externalize =>
      have htype := type_le_of_newer hnewer
      rw [hpl, hopl] at htype
      exact absurd htype (by simp [SCPPledges.type, SCPStatementType.rank])
    | prepare | confirm =>
      rw [hpl, hopl] at hold
      exact congrArg env.getQSet hold.symm

/-- A set with the node in it contains the slice of its singleton quorum set. -/
theorem isQuorumSlice_singleton {n : NodeID} {U : List NodeID} (h : n ∈ U) :
    isQuorumSlice (getSingletonQSet n) U = true := by
  unfold isQuorumSlice getSingletonQSet buildSingletonQSet
  simp [isQuorumSliceInternal, thresholdReached, h]

/-- What is known of the nodes' quorum sets in a state -/
structure KnownQSets (hashes : NodeID → Hash) (s : State) : Prop where
  latest : ∀ n e, s.mLatestEnvelopes.lookup n = some e →
    e.statement.nodeID = n ∧ Fixed hashes e.statement
  created : ∀ st, .created st ∈ s.log → Fixed hashes st

section Heard

variable {env : Env} {hashes : NodeID → Hash} {s s' : State} {b : SCPBallot}

/-- A newer statement does not undo that a quorum was heard from. -/
theorem heardFromQuorum_insert (hs : KnownQSets hashes s) {e : SCPEnvelope}
    (he : Fixed hashes e.statement)
    (hnewer : isNewerForNode s.mLatestEnvelopes e.statement = true)
    (h : HeardFromQuorum env s.mLatestEnvelopes b) :
    HeardFromQuorum env (s.withLatestEnvelope e).mLatestEnvelopes b := by
  obtain ⟨U, hU, hslice⟩ := isQuorum_iff.mp h
  refine isQuorum_iff.mpr ⟨U, fun n hn => ?_, hslice⟩
  obtain ⟨old, q, hlookup, hfilter, hq, hsat⟩ := hU n hn
  have hmap : (s.withLatestEnvelope e).mLatestEnvelopes =
    s.mLatestEnvelopes.insert e.statement.nodeID e := rfl
  rw [hmap]
  by_cases hne : n = e.statement.nodeID
  · subst hne
    obtain ⟨hnode, hold⟩ := hs.latest _ old hlookup
    have hnewer : isNewerStatement old.statement e.statement = true := by
      simpa [isNewerForNode, hlookup] using hnewer
    rw [lookup_insert]
    refine ⟨e, ?_⟩
    rcases getQuorumSet_newer env hnewer hnode hold he with hsingle | hsame
    · exact ⟨_, rfl, heardAtCounter_newer hnewer hfilter, hsingle, isQuorumSlice_singleton hn⟩
    · exact ⟨q, rfl, heardAtCounter_newer hnewer hfilter, hsame.trans hq, hsat⟩
  · rw [lookup_insert_ne hne]
    exact ⟨old, q, hlookup, hfilter, hq, hsat⟩

/-! ## Steps -/

/-- `checkHeardFromQuorum` would find a quorum. -/
def State.FindsQuorum (env : Env) (s : State) : Prop :=
  ∃ b, s.mCurrentBallot = some b ∧ HeardFromQuorum env s.mLatestEnvelopes b

open Classical in
/-- 1 when a quorum was found and still is, 0 otherwise -/
noncomputable def State.quorate (env : Env) (s : State) : Nat :=
  if s.mHeardFromQuorum = true ∧ s.FindsQuorum env then 1 else 0

theorem State.quorate_le (env : Env) (s : State) : s.quorate env ≤ 1 := by
  unfold State.quorate
  split <;> omega

theorem State.quorate_eq_one (h : s.quorate env = 1) :
    s.mHeardFromQuorum = true ∧ s.FindsQuorum env := by
  unfold State.quorate at h
  split at h
  · assumption
  · cases h

theorem State.quorate_mono (hheard : s.mHeardFromQuorum = true → s'.mHeardFromQuorum = true)
    (hfinds : s.FindsQuorum env → s'.FindsQuorum env) : s.quorate env ≤ s'.quorate env := by
  unfold State.quorate
  split
  · rename_i h
    rw [if_pos ⟨hheard h.1, hfinds h.2⟩]
  · exact Nat.zero_le _

/-- The counter of the local ballot -/
def State.counter? (s : State) : Option UInt32 := s.mCurrentBallot.map (·.counter)

def Event.isDidHear : Event → Bool
  | .ballotDidHearFromQuorum _ => true
  | _ => false

/-- No event moves the ballot to another counter. -/
def AtCounter (n : Option UInt32) (new : List Event) : Prop :=
  ∀ b, .bumpToBallot b ∈ new → n = some b.counter

/-- While the counter stays: a quorum that was found still is, and each call back uses up that
none had been found before. -/
structure HeardStep (env : Env) (hashes : NodeID → Hash) (s s' : State) : Prop where
  suffix : s.log <:+ s'.log
  known : KnownQSets hashes s → KnownQSets hashes s'
  stays : KnownQSets hashes s → ∀ new, s'.log = new ++ s.log → AtCounter s.counter? new →
    s'.counter? = s.counter? ∧ (s.FindsQuorum env → s'.FindsQuorum env) ∧
      new.countP Event.isDidHear + s.quorate env ≤ s'.quorate env

namespace HeardStep

theorem refl (s : State) : HeardStep env hashes s s := by
  refine ⟨suffix_rfl, id, fun _ new hlog _ => ⟨rfl, id, ?_⟩⟩
  rw [self_eq_append_left.mp hlog]
  exact (Nat.zero_add _).le

theorem trans {s₁ s₂ s₃ : State} (h₁ : HeardStep env hashes s₁ s₂)
    (h₂ : HeardStep env hashes s₂ s₃) : HeardStep env hashes s₁ s₃ := by
  refine ⟨h₁.suffix.trans h₂.suffix, fun h => h₂.known (h₁.known h), fun hs new hlog hat => ?_⟩
  obtain ⟨new₁, hlog₁⟩ := h₁.suffix
  obtain ⟨new₂, hlog₂⟩ := h₂.suffix
  obtain rfl : new = new₂ ++ new₁ := by
    rw [← hlog₂, ← hlog₁, ← append_assoc] at hlog
    exact (append_cancel_right hlog).symm
  obtain ⟨hcounter₁, hfinds₁, _⟩ := h₁.stays hs new₁ hlog₁.symm fun b hb =>
    hat b (mem_append_right _ hb)
  obtain ⟨hcounter₂, hfinds₂, _⟩ := h₂.stays (h₁.known hs) new₂ hlog₂.symm fun b hb =>
    hcounter₁ ▸ hat b (mem_append_left _ hb)
  refine ⟨hcounter₂.trans hcounter₁, fun h => hfinds₂ (hfinds₁ h), ?_⟩
  rw [countP_append]
  omega

/-- An update of other data, with events that are neither moves nor call backs nor statements -/
theorem of_quiet (new : List Event) (hlog : s'.log = new ++ s.log)
    (hnew : ∀ ev ∈ new, ev.isDidHear = false ∧ ∀ st, ev ≠ .created st)
    (hcur : s'.mCurrentBallot = s.mCurrentBallot)
    (hlatest : s'.mLatestEnvelopes = s.mLatestEnvelopes)
    (hheard : s'.mHeardFromQuorum = s.mHeardFromQuorum) : HeardStep env hashes s s' := by
  have hfinds : s'.FindsQuorum env ↔ s.FindsQuorum env := by
    unfold State.FindsQuorum
    rw [hcur, hlatest]
  refine ⟨⟨new, hlog.symm⟩, fun hs => ⟨?_, fun st hst => ?_⟩, fun hs new' hlog' _ => ?_⟩
  · rw [hlatest]
    exact hs.latest
  · rw [hlog] at hst
    rcases mem_append.mp hst with hst | hst
    · exact absurd rfl ((hnew _ hst).2 st)
    · exact hs.created st hst
  · obtain rfl : new' = new := append_cancel_right (hlog'.symm.trans hlog)
    have hcount : new'.countP Event.isDidHear = 0 :=
      countP_eq_zero.mpr fun ev hev => by simp [(hnew ev hev).1]
    refine ⟨congrArg (Option.map SCPBallot.counter) hcur, hfinds.mpr, ?_⟩
    rw [hcount, Nat.zero_add]
    exact State.quorate_mono (fun h => hheard.trans h) hfinds.mpr

/-- An update of other data -/
theorem silent (hlog : s'.log = s.log) (hcur : s'.mCurrentBallot = s.mCurrentBallot)
    (hlatest : s'.mLatestEnvelopes = s.mLatestEnvelopes)
    (hheard : s'.mHeardFromQuorum = s.mHeardFromQuorum) : HeardStep env hashes s s' :=
  of_quiet [] hlog (forall_mem_nil _) hcur hlatest hheard

/-- A single event, next to an update of other data -/
theorem event {ev : Event} (hlog : s'.log = ev :: s.log) (hhear : ev.isDidHear = false)
    (hcreated : ∀ st, ev ≠ .created st) (hcur : s'.mCurrentBallot = s.mCurrentBallot)
    (hlatest : s'.mLatestEnvelopes = s.mLatestEnvelopes)
    (hheard : s'.mHeardFromQuorum = s.mHeardFromQuorum) : HeardStep env hashes s s' :=
  of_quiet [ev] hlog (forall_mem_singleton.mpr ⟨hhear, hcreated⟩) hcur hlatest hheard

/-- A move to a ballot forgets the quorum only if the counter is another one. -/
theorem bump (s : State) (b : SCPBallot) : HeardStep env hashes s (s.bump b) := by
  have hlog : (s.bump b).log = (s.bumpNotes b ++ [.bumpToBallot b]) ++ s.log := by
    rw [State.bump_log, append_assoc]
    rfl
  refine ⟨⟨_, hlog.symm⟩, fun hs => ⟨hs.latest, fun st hst => ?_⟩, fun hs new hlog' hat => ?_⟩
  · rw [State.bump_log] at hst
    rcases mem_append.mp hst with hst | hst
    · rcases State.mem_bumpNotes hst with h | h <;> cases h
    · rcases mem_cons.mp hst with h | hst
      · cases h
      · exact hs.created st hst
  · obtain rfl : new = s.bumpNotes b ++ [.bumpToBallot b] :=
      append_cancel_right (hlog'.symm.trans hlog)
    have hcounter := hat b (mem_append_right _ mem_cons_self)
    cases hcur : s.mCurrentBallot with
    | none =>
      rw [State.counter?, hcur] at hcounter
      cases hcounter
    | some cur =>
      rw [State.counter?, hcur] at hcounter
      have hsame : cur.counter = b.counter := some.inj hcounter
      have hheard : (s.bump b).mHeardFromQuorum = s.mHeardFromQuorum := by
        simp [State.bump, State.bumpedTo, State.note, hcur, hsame]
      have hfinds : (s.bump b).FindsQuorum env ↔ s.FindsQuorum env := by
        unfold State.FindsQuorum HeardFromQuorum
        simp [State.bump, State.bumpedTo, State.note, hcur, hsame]
      have hcount : (s.bumpNotes b ++ [Event.bumpToBallot b]).countP Event.isDidHear = 0 := by
        refine countP_eq_zero.mpr fun ev hev => ?_
        rcases mem_append.mp hev with hev | hev
        · rcases State.mem_bumpNotes hev with rfl | rfl <;> exact Bool.false_ne_true
        · rw [mem_singleton.mp hev]
          exact Bool.false_ne_true
      refine ⟨?_, hfinds.mpr, ?_⟩
      · rw [State.counter?, State.counter?, hcur]
        exact congrArg some hsame.symm
      · rw [hcount, Nat.zero_add]
        exact State.quorate_mono (fun h => hheard.trans h) hfinds.mpr

/-- A statement of the node's own quorum set is created. -/
theorem created {st : SCPStatement} (hst : Fixed hashes st) :
    HeardStep env hashes s (s.note (.created st)) := by
  refine ⟨suffix_cons _ _, fun hs => ⟨hs.latest, fun st' hst' => ?_⟩,
    fun hs new hlog _ => ⟨rfl, id, ?_⟩⟩
  · rcases mem_cons.mp hst' with h | h
    · rw [Event.created.inj h]
      exact hst
    · exact hs.created st' h
  · have hlog : [.created st] ++ s.log = new ++ s.log := hlog
    obtain rfl := append_cancel_right hlog
    exact (Nat.zero_add _).le

/-- A newer statement is recorded. -/
theorem latest {e : SCPEnvelope} (he : KnownQSets hashes s → Fixed hashes e.statement)
    (hnewer : isNewerForNode s.mLatestEnvelopes e.statement = true) :
    HeardStep env hashes s (s.withLatestEnvelope e) := by
  refine ⟨suffix_rfl, fun hs => ⟨fun n e' he' => ?_, hs.created⟩, fun hs new hlog _ => ?_⟩
  · have hlookup : (s.mLatestEnvelopes.insert e.statement.nodeID e).lookup n = some e' := he'
    by_cases hne : n = e.statement.nodeID
    · subst hne
      rw [lookup_insert] at hlookup
      cases hlookup
      exact ⟨rfl, he hs⟩
    · rw [lookup_insert_ne hne] at hlookup
      exact hs.latest n e' hlookup
  · have hfinds : s.FindsQuorum env → (s.withLatestEnvelope e).FindsQuorum env :=
      fun ⟨b, hb, hheard⟩ => ⟨b, hb, heardFromQuorum_insert hs (he hs) hnewer hheard⟩
    refine ⟨rfl, hfinds, ?_⟩
    rw [self_eq_append_left.mp hlog, countP_nil, Nat.zero_add]
    exact State.quorate_mono id hfinds

/-- A quorum is found for the first time. -/
theorem didHear (hb : s.mCurrentBallot = some b)
    (hheard : HeardFromQuorum env s.mLatestEnvelopes b) (hold : s.mHeardFromQuorum = false) :
    HeardStep env hashes s ((s.withHeardFromQuorum true).note (.ballotDidHearFromQuorum b)) := by
  refine ⟨suffix_cons _ _, fun hs => ⟨hs.latest, fun st hst => ?_⟩,
    fun hs new hlog _ => ⟨rfl, id, ?_⟩⟩
  · rcases mem_cons.mp hst with h | h
    · cases h
    · exact hs.created st h
  · have hlog : [.ballotDidHearFromQuorum b] ++ s.log = new ++ s.log := hlog
    obtain rfl := append_cancel_right hlog
    unfold State.quorate
    rw [if_neg (by simp [hold]), if_pos ⟨rfl, b, hb, hheard⟩]
    exact le_rfl

/-- No quorum is found. -/
theorem notHeard (hb : s.mCurrentBallot = some b)
    (hheard : ¬ HeardFromQuorum env s.mLatestEnvelopes b) :
    HeardStep env hashes s (s.withHeardFromQuorum false) := by
  refine ⟨suffix_rfl, fun hs => ⟨hs.latest, hs.created⟩, fun hs new hlog _ => ⟨rfl, id, ?_⟩⟩
  rw [self_eq_append_left.mp hlog, countP_nil]
  unfold State.quorate
  rw [if_neg]
  · exact Nat.zero_le _
  · rintro ⟨-, _, hb', h⟩
    rw [some.inj (hb.symm.trans hb')] at hheard
    exact hheard h

end HeardStep

end Heard

/-! ## Every update -/

variable {env : Env}

theorem currentPledges_quorumSetHash {s : State} {pl : SCPPledges}
    (h : currentPledges env s = some pl) : pl.quorumSetHash = env.localNode.mQSetHash := by
  cases pl with
  | prepare prep =>
    obtain ⟨-, rfl⟩ := currentPledges_eq_prepare h
    rfl
  | confirm con =>
    obtain ⟨-, _, _, _, -, -, -, -, hcon⟩ := currentPledges_eq_confirm h
    rw [hcon]
    rfl
  | externalize ext =>
    obtain ⟨-, -, _, -, hext⟩ := currentPledges_eq_externalize h
    rw [hext]
    rfl

/-- The two surroundings have the same quorum sets. -/
structure SameQuorums (env env' : Env) : Prop where
  localNode : env'.localNode = env.localNode
  getQSet : env'.getQSet = env.getQSet

theorem SameQuorums.heardFromQuorum {env' : Env} (h : SameQuorums env env')
    (envs : EnvelopeMap) (b : SCPBallot) :
    HeardFromQuorum env' envs b ↔ HeardFromQuorum env envs b := by
  have hqset : getQuorumSetFromStatement env' = getQuorumSetFromStatement env := by
    unfold getQuorumSetFromStatement
    rw [h.getQSet]
  unfold HeardFromQuorum
  rw [h.localNode, hqset]

/-- **Every update is a `HeardStep`**, while the nodes keep their quorum sets. -/
theorem heard_rules {env' : Env} (henv : SameQuorums env env')
    (hown : hashes env.localNode.mNodeID = env.localNode.mQSetHash) :
    Rules env' (fun e => Fixed hashes e.statement) (fun _ => True) (HeardStep env hashes) where
  refl := HeardStep.refl
  trans _ _ _ := HeardStep.trans
  log_suffix _ _ h := h.suffix
  note s ev hev := by
    refine .event rfl ?_ ?_ rfl rfl rfl
    · cases ev <;> first | rfl | exact Bool.noConfusion hev
    · rintro st rfl
      exact Bool.noConfusion hev
  level _ _ := .silent rfl rfl rfl rfl
  didHear s b hb hheard hold := .didHear hb ((henv.heardFromQuorum _ b).mp hheard) hold
  notHeard s b hb hheard := .notHeard hb fun h => hheard ((henv.heardFromQuorum _ b).mpr h)
  fullyValidated _ := .silent rfl rfl rfl rfl
  latest s e he hnewer := .latest (fun hs => he.elim id fun ho => hs.created _ ho.2.2) hnewer
  createStatement _ := .event rfl rfl (fun _ => Event.noConfusion) rfl rfl rfl
  created s st hst := by
    refine .created ?_
    unfold Fixed
    rw [currentPledges_quorumSetHash hst.2.2, hst.1, henv.localNode, hown]
  lastEnvelope _ _ _ _ _ hcreated h := (hcreated.trans h).trans (.silent rfl rfl rfl rfl)
  emit _ _ _ := .event rfl rfl (fun _ => Event.noConfusion) rfl rfl rfl
  prepared _ _ _ _ := .silent rfl rfl rfl rfl
  clearCommit _ _ _ := .silent rfl rfl rfl rfl
  confirmPrepared _ _ _ := .event rfl rfl (fun _ => Event.noConfusion) rfl rfl rfl
  highBallot _ _ _ _ := .silent rfl rfl rfl rfl
  commit _ _ _ _ := .silent rfl rfl rfl rfl
  bump s b _ := .bump s b
  enterConfirm s c h _ _ := by
    have haccept : HeardStep env hashes s ((s.acceptedCommit c h).withPhase .confirm) :=
      .event rfl rfl (fun _ => Event.noConfusion) rfl rfl rfl
    have hballot : HeardStep env hashes s ((s.acceptedCommit c h).onConfirmBallot h) := by
      unfold State.onConfirmBallot
      split
      · exact haccept.trans (.bump _ h)
      · exact haccept
    exact hballot.trans (.silent rfl rfl rfl rfl)
  acceptCommit _ _ _ _ _ _ _ _ := .event rfl rfl (fun _ => Event.noConfusion) rfl rfl rfl
  confirmCommit _ _ _ _ _ _ _ _ := .event rfl rfl (fun _ => Event.noConfusion) rfl rfl rfl
  externalize _ _ _ _ _ _ _ _ := .silent rfl rfl rfl rfl
  valueExternalized _ _ _ _ h h' :=
    (h.trans h').trans (.event rfl rfl (fun _ => Event.noConfusion) rfl rfl rfl)

/-! ## Whole runs -/

/-- A call in which all nodes have the quorum sets they have in `env` -/
structure FixedCall (env : Env) (hashes : NodeID → Hash) (c : Env × Call) : Prop where
  same : SameQuorums env c.1
  fixed : ∀ e, c.2 = .processEnvelope e → Fixed hashes e.statement

theorem heardStep_runCalls
    (hown : hashes env.localNode.mNodeID = env.localNode.mQSetHash) {calls : List (Env × Call)}
    (hcalls : ∀ c ∈ calls, FixedCall env hashes c) (s : State) :
    HeardStep env hashes s (runCalls calls s) := by
  induction calls generalizing s with
  | nil => exact .refl s
  | cons c calls ih =>
    have hc := hcalls c mem_cons_self
    have hstep : HeardStep env hashes s (c.2.after c.1 s) := after_of_respects <|
      (heard_rules hc.same hown).call (fun _ => trivial) c.2 hc.fixed fun _ _ _ => trivial
    exact hstep.trans (ih (fun c' hc' => hcalls c' (mem_cons_of_mem _ hc')) _)

/-- In a run in which no node changes its quorum set, and from some moment on the local counter
does not change: once a quorum is found one is found ever after, `mHeardFromQuorum` stays set,
and `ballotDidHearFromQuorum` is called at most once, and no more once it is set. -/
theorem heard_from_quorum_stays (env : Env) (hashes : NodeID → Hash)
    (hown : hashes env.localNode.mNodeID = env.localNode.mQSetHash) (isValidator : Bool)
    (pre post : List (Env × Call)) (hpre : ∀ c ∈ pre, FixedCall env hashes c)
    (hpost : ∀ c ∈ post, FixedCall env hashes c) :
    let s := runCalls pre (State.init isValidator)
    let s' := runCalls post s
    ∃ new, s'.log = new ++ s.log ∧ (AtCounter s.counter? new →
      s'.counter? = s.counter? ∧ (s.FindsQuorum env → s'.FindsQuorum env) ∧
      (s.FindsQuorum env → s.mHeardFromQuorum = true →
        s'.mHeardFromQuorum = true ∧ new.countP Event.isDidHear = 0) ∧
      new.countP Event.isDidHear ≤ 1) := by
  intro s s'
  have hinit : KnownQSets hashes (State.init isValidator) :=
    ⟨fun _ _ h => absurd h (some_ne_none _).symm, fun _ h => absurd h not_mem_nil⟩
  have hknown : KnownQSets hashes s := (heardStep_runCalls hown hpre _).known hinit
  have hstep : HeardStep env hashes s s' := heardStep_runCalls hown hpost s
  obtain ⟨new, hlog⟩ := hstep.suffix
  refine ⟨new, hlog.symm, fun hat => ?_⟩
  obtain ⟨hcounter, hfinds, _⟩ := hstep.stays hknown new hlog.symm hat
  refine ⟨hcounter, hfinds, fun hfound hheard => ?_, ?_⟩
  · have hone : s.quorate env = 1 := if_pos ⟨hheard, hfound⟩
    have hle := s'.quorate_le env
    have hone' : s'.quorate env = 1 := by omega
    exact ⟨(State.quorate_eq_one hone').1, by omega⟩
  · have hle := s'.quorate_le env
    omega

/-- A `PREPARE` of node 2 on the ballot of value 1, and what it has accepted -/
def prepareSecond (prepared : Option SCPBallot) : Env × Call :=
  (twoOfThreeEnv false,
    .processEnvelope ⟨⟨2, 1, .prepare ⟨7, ⟨1, [1]⟩, prepared, none, 0, 0⟩⟩, []⟩)

def Event.bumpedTo : Event → Option SCPBallot
  | .bumpToBallot b => some b
  | _ => none

/-- Node 2 makes a quorum. When it accepts the ballot as prepared, the local node confirms it,
without calling back once more. -/
theorem heard_from_quorum_stays_confirming :
    let env := twoOfThreeEnv false
    let s := runCalls [(env, .bumpState [1] false), prepareSecond none] (.init true)
    let s' := runCalls [prepareSecond (some ⟨1, [1]⟩)] s
    s.FindsQuorum env ∧ s.mHeardFromQuorum = true ∧
    ∃ new, s'.log = new ++ s.log ∧ .confirmedBallotPrepared ⟨1, [1]⟩ ∈ new ∧
      s'.counter? = some 1 ∧ s'.FindsQuorum env ∧ s'.mHeardFromQuorum = true ∧
      new.countP Event.isDidHear = 0 := by
  intro env s s'
  have hprepare (prepared) : FixedCall env (fun _ => 7) (prepareSecond prepared) := by
    refine ⟨⟨rfl, rfl⟩, fun e he => ?_⟩
    obtain rfl := Call.processEnvelope.inj he
    rfl
  have hfinds : s.FindsQuorum env := by
    refine ⟨⟨1, [1]⟩, by decide +kernel, ?_⟩
    unfold HeardFromQuorum
    decide +kernel
  have hheard : s.mHeardFromQuorum = true := by decide +kernel
  have hcounter : s.counter? = some 1 := by decide +kernel
  have hbumps : s'.log.filterMap Event.bumpedTo = [⟨1, [1]⟩] := by decide +kernel
  obtain ⟨new, hlog, hstays⟩ := heard_from_quorum_stays env (fun _ => 7) rfl true
    [(env, .bumpState [1] false), prepareSecond none] [prepareSecond (some ⟨1, [1]⟩)]
    (forall_mem_cons.mpr ⟨⟨⟨rfl, rfl⟩, fun e he => Call.noConfusion he⟩,
      forall_mem_singleton.mpr (hprepare none)⟩) (forall_mem_singleton.mpr (hprepare _))
  have hat : AtCounter s.counter? new := by
    intro b hb
    have hmem : b ∈ s'.log.filterMap Event.bumpedTo :=
      mem_filterMap.mpr ⟨_, hlog ▸ mem_append_left _ hb, rfl⟩
    rw [hbumps] at hmem
    rw [hcounter, mem_singleton.mp hmem]
  have hconfirmed : .confirmedBallotPrepared ⟨1, [1]⟩ ∈ new := by
    have hmem : .confirmedBallotPrepared ⟨1, [1]⟩ ∈ s'.log := by decide +kernel
    exact (mem_append.mp (hlog ▸ hmem)).resolve_right (by decide +kernel)
  obtain ⟨hsame, hfinds', hquorate, -⟩ := hstays hat
  exact ⟨hfinds, hheard, new, hlog, hconfirmed, hsame.trans hcounter, hfinds' hfinds,
    hquorate hfinds hheard⟩

end EssaCore.Scp
