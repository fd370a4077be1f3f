import EssaCore.Scp.BallotRules

/-!
# A node commits to one value

The local half of agreement. A node leaves `PREPARE` by accepting a commit of
some value `x` (`setAcceptCommit`, `BallotProtocol.cpp:1291–1335`); from then
on everything it holds and announces carries `x`:

- `LockInv` — all commits a node ever accepted carry one value, and outside
  `PREPARE` so do `b`, `c`, `h` and the value override;
- `OwnInv` — every `CONFIRM` and `EXTERNALIZE` statement the node created
  carries that value, and whatever it emitted it created;
- `SeenInv` — the envelopes it holds come from somewhere, and behind
  `EXTERNALIZE` there is a quorum of statements for its value.

How often a *blocking set* made the node accept plays no role: the argument
never asks why a commit was accepted.
-/

open List Option

namespace EssaCore.Scp

open EssaCore.Lib

/-! ## The lock -/

/-- The node has accepted to commit `x`. -/
def Locked (s : State) (x : Value) : Prop :=
  ∃ c h, .setAcceptCommit c h ∈ s.log ∧ h.value = x

/-- Everything the node votes for carries `x`. -/
structure VotesFor (s : State) (x : Value) : Prop where
  override : s.mValueOverride = some x
  current : ∀ b, s.mCurrentBallot = some b → b.value = x
  high : ∀ h, s.mHighBallot = some h → h.value = x
  commit : ∀ c, s.mCommit = some c → c.value = x

structure LockInv (s : State) : Prop where
  unique : ∀ x y, Locked s x → Locked s y → x = y
  unlocked : s.mPhase = .prepare → ∀ x, ¬ Locked s x
  locked : s.mPhase ≠ .prepare → ∃ x, Locked s x ∧ VotesFor s x

section Lock

variable {s s' : State}

/-- The steps between the two states leave the ballots and the envelopes received alone. -/
structure SameBallots (s s' : State) : Prop where
  phase : s'.mPhase = s.mPhase
  latest : s'.mLatestEnvelopes = s.mLatestEnvelopes
  override : s'.mValueOverride = s.mValueOverride
  current : s'.mCurrentBallot = s.mCurrentBallot
  high : s'.mHighBallot = s.mHighBallot
  commit : s'.mCommit = s.mCommit

theorem SameBallots.votes (h : SameBallots s s') {x : Value} (hv : VotesFor s x) : VotesFor s' x :=
  ⟨h.override.trans hv.override, fun b hb => hv.current b (h.current ▸ hb),
    fun b hb => hv.high b (h.high ▸ hb), fun b hb => hv.commit b (h.commit ▸ hb)⟩

theorem Locked.mono {x : Value} (h : Locked s x) (hlog : s.log <:+ s'.log) : Locked s' x := by
  obtain ⟨c, b, hmem, hv⟩ := h
  exact ⟨c, b, hlog.subset hmem, hv⟩

/-- Updates that accept no commit and keep the phase. -/
theorem LockInv.frame (h : LockInv s)
    (hlog : ∀ x, Locked s' x ↔ Locked s x) (hphase : s'.mPhase = s.mPhase)
    (hvotes : s.mPhase ≠ .prepare → ∀ x, VotesFor s x → VotesFor s' x) :
    LockInv s' where
  unique x y hx hy := h.unique x y ((hlog x).1 hx) ((hlog y).1 hy)
  unlocked hp x hx := h.unlocked (hphase.symm.trans hp) x ((hlog x).1 hx)
  locked hp := by
    have hp' : s.mPhase ≠ .prepare := fun e => hp (hphase.trans e)
    obtain ⟨x, hx, hv⟩ := h.locked hp'
    exact ⟨x, (hlog x).2 hx, hvotes hp' x hv⟩

/-- In `CONFIRM` or `EXTERNALIZE`, any value voted for is the accepted one. -/
theorem LockInv.locked_of_votes (h : LockInv s) (hp : s.mPhase ≠ .prepare)
    {x : Value} (hx : ∀ y, VotesFor s y → y = x) : Locked s x := by
  obtain ⟨y, hy, hv⟩ := h.locked hp
  exact hx y hv ▸ hy

end Lock

/-- Events that accept a commit, create a statement or emit one. -/
def Event.isPledge : Event → Bool
  | .setAcceptCommit _ _ | .created _ | .emitEnvelope _ => true
  | _ => false

section Quiet

variable {s s' : State} {new : List Event}

theorem mem_log_of_quiet (hlog : s'.log = new ++ s.log)
    (hnew : ∀ ev ∈ new, ev.isPledge = false) (ev : Event)
    (hev : ev.isPledge = true) : ev ∈ s'.log ↔ ev ∈ s.log := by
  rw [hlog, mem_append]
  refine ⟨fun h => h.resolve_left fun h => ?_, .inr⟩
  rw [hnew ev h] at hev
  exact Bool.noConfusion hev

theorem locked_iff_of_quiet (hlog : s'.log = new ++ s.log)
    (hnew : ∀ ev ∈ new, ev.isPledge = false) (x : Value) :
    Locked s' x ↔ Locked s x := by
  unfold Locked
  simp [mem_log_of_quiet hlog hnew (.setAcceptCommit _ _) rfl]

end Quiet

/-! ## A node's own statements -/

structure OwnInv (node : LocalNode) (s : State) : Prop where
  created_nodeID : ∀ st, .created st ∈ s.log → st.nodeID = node.mNodeID
  created_confirm : ∀ st c, .created st ∈ s.log → st.pledges = .confirm c →
    Locked s c.ballot.value ∧ c.quorumSetHash = node.mQSetHash
  created_externalize : ∀ st e, .created st ∈ s.log →
    st.pledges = .externalize e →
    s.mPhase = .externalize ∧ Locked s e.commit.value ∧
      ∃ c, s.mCommit = some c ∧ c.value = e.commit.value
  last : ∀ e, s.mLastEnvelope = some e → .created e.statement ∈ s.log
  emitted : ∀ e, .emitEnvelope e ∈ s.log → .created e.statement ∈ s.log

/-- Updates that create and emit nothing and leave `EXTERNALIZE` alone. -/
theorem OwnInv.frame {node : LocalNode} {s s' : State} (h : OwnInv node s)
    (new : List Event) (hlog : s'.log = new ++ s.log)
    (hcreated : ∀ st, .created st ∉ new) (hemit : ∀ e, .emitEnvelope e ∉ new)
    (hlast : s'.mLastEnvelope = s.mLastEnvelope)
    (hext : s.mPhase = .externalize → s'.mPhase = .externalize ∧ s'.mCommit = s.mCommit) :
    OwnInv node s' := by
  have hsuffix : s.log <:+ s'.log := ⟨new, hlog.symm⟩
  have hold : ∀ st, .created st ∈ s'.log → .created st ∈ s.log := by
    intro st hst
    rw [hlog] at hst
    exact (mem_append.1 hst).resolve_left (hcreated st)
  refine ⟨fun st hst => h.created_nodeID st (hold st hst), fun st c hst hc => ?_,
    fun st e hst he => ?_, fun e he => ?_, fun e he => ?_⟩
  · obtain ⟨hl, hq⟩ := h.created_confirm st c (hold st hst) hc
    exact ⟨hl.mono hsuffix, hq⟩
  · obtain ⟨hp, hl, c, hc, hv⟩ := h.created_externalize st e (hold st hst) he
    obtain ⟨hp', hc'⟩ := hext hp
    exact ⟨hp', hl.mono hsuffix, c, hc'.trans hc, hv⟩
  · exact hsuffix.subset (h.last e (hlast ▸ he))
  · rw [hlog] at he
    exact hsuffix.subset (h.emitted e ((mem_append.1 he).resolve_left (hemit e)))

/-! ## What a node has seen -/

variable {env : Env}

section Seen

variable (base : SCPStatement → Prop) (resolve : Hash → SCPQuorumSet → Prop)
  (node : LocalNode)

/-- The statement was made before the current call, or by this node since. -/
def Known (s : State) (st : SCPStatement) : Prop :=
  base st ∨ (st.nodeID = node.mNodeID ∧ .created st ∈ s.log)

/-- `st` accepts to commit `x`, and its node is satisfied by `U` unless it
claims to have externalized. -/
def Backs (x : Value) (U : List NodeID) (st : SCPStatement) : Prop :=
  match st.pledges with
  | .prepare _ => False
  | .confirm c => c.ballot.value = x ∧
    ∃ q, resolve c.quorumSetHash q ∧ isQuorumSlice q U = true
  | .externalize e => e.commit.value = x

/-- A set that satisfies the node accepts to commit `x`. -/
def Decided (s : State) (x : Value) : Prop :=
  ∃ U, isQuorumSlice node.mQSet U = true ∧
    ∀ w ∈ U, ∃ st, st.nodeID = w ∧ Known base node s st ∧ Backs resolve x U st

structure SeenInv (s : State) : Prop where
  latest : ∀ w e, s.mLatestEnvelopes.lookup w = some e →
    e.statement.nodeID = w ∧ Known base node s e.statement
  decided : s.mPhase = .externalize →
    ∃ c, s.mCommit = some c ∧ Decided base resolve node s c.value

variable {base resolve node} {s s' : State}

theorem Known.mono {st : SCPStatement} (h : Known base node s st)
    (hlog : s.log <:+ s'.log) : Known base node s' st :=
  h.imp_right fun ⟨hid, hmem⟩ => ⟨hid, hlog.subset hmem⟩

theorem Decided.mono {x : Value} (h : Decided base resolve node s x)
    (hlog : s.log <:+ s'.log) : Decided base resolve node s' x := by
  obtain ⟨U, hslice, hU⟩ := h
  refine ⟨U, hslice, fun w hw => ?_⟩
  obtain ⟨st, hid, hknown, hbacks⟩ := hU w hw
  exact ⟨st, hid, hknown.mono hlog, hbacks⟩

theorem SeenInv.frame (h : SeenInv base resolve node s) (hlog : s.log <:+ s'.log)
    (hlatest : s'.mLatestEnvelopes = s.mLatestEnvelopes)
    (hext : s'.mPhase = .externalize → s.mPhase = .externalize ∧ s'.mCommit = s.mCommit) :
    SeenInv base resolve node s' where
  latest w e he := by
    obtain ⟨hid, hknown⟩ := h.latest w e (hlatest ▸ he)
    exact ⟨hid, hknown.mono hlog⟩
  decided hp := by
    obtain ⟨hp', hc'⟩ := hext hp
    obtain ⟨c, hc, hd⟩ := h.decided hp'
    exact ⟨c, hc'.trans hc, hd.mono hlog⟩

/-- A ratified commit is a decision: the quorum found in the envelope map. -/
theorem decided_of_ratified (hnode : env.localNode = node)
    (hresolve : ∀ h q, env.getQSet h = some q → resolve h q)
    (h : SeenInv base resolve node s) {x : Value}
    (hr : CommitRatified env s.mLatestEnvelopes x) :
    Decided base resolve node s x := by
  obtain ⟨_, _, hx, hratify⟩ := hr
  obtain ⟨U, hU, hslice⟩ := isQuorum_iff.1 hratify
  refine ⟨U, hnode ▸ hslice, fun w hw => ?_⟩
  obtain ⟨e, q, he, hpred, hq, hsat⟩ := hU w hw
  obtain ⟨hid, hknown⟩ := h.latest w e he
  refine ⟨e.statement, hid, hknown, ?_⟩
  unfold commitPredicate at hpred
  unfold getQuorumSetFromStatement at hq
  unfold Backs
  cases hp : e.statement.pledges with
  | prepare p => simp [hp] at hpred
  | confirm c =>
    simp only [hp, Bool.and_eq_true, areBallotsCompatible_iff] at hpred hq
    exact ⟨hpred.1.symm.trans hx, q, hresolve _ _ hq, hsat⟩
  | externalize ext =>
    simp only [hp, Bool.and_eq_true, areBallotsCompatible_iff] at hpred
    exact hpred.1.symm.trans hx

end Seen

/-! ## Every update keeps the invariants -/

/-- The three invariants of a well-behaved node. -/
structure NodeInv (base : SCPStatement → Prop)
    (resolve : Hash → SCPQuorumSet → Prop) (node : LocalNode) (s : State) :
    Prop where
  lock : LockInv s
  own : OwnInv node s
  seen : SeenInv base resolve node s

/-- A part of a call that keeps the invariants and only appends to the log. -/
structure SafeStep (base : SCPStatement → Prop)
    (resolve : Hash → SCPQuorumSet → Prop) (node : LocalNode) (s s' : State) :
    Prop where
  log_suffix : s.log <:+ s'.log
  inv : NodeInv base resolve node s → NodeInv base resolve node s'

namespace SafeStep

variable {base : SCPStatement → Prop} {resolve : Hash → SCPQuorumSet → Prop}
  {node : LocalNode} {s s' : State}

theorem refl (s : State) : SafeStep base resolve node s s :=
  ⟨suffix_rfl, fun h => h⟩

theorem trans {s₁ s₂ s₃ : State} (h₁ : SafeStep base resolve node s₁ s₂)
    (h₂ : SafeStep base resolve node s₂ s₃) :
    SafeStep base resolve node s₁ s₃ :=
  ⟨h₁.log_suffix.trans h₂.log_suffix, fun h => h₂.inv (h₁.inv h)⟩

/-- Updates that pledge nothing, keep the phase and receive no envelope. -/
theorem of_quiet (new : List Event) (hlog : s'.log = new ++ s.log)
    (hnew : ∀ ev ∈ new, ev.isPledge = false) (hphase : s'.mPhase = s.mPhase)
    (hlast : s'.mLastEnvelope = s.mLastEnvelope)
    (hlatest : s'.mLatestEnvelopes = s.mLatestEnvelopes)
    (hvotes : s.mPhase ≠ .prepare → ∀ x, VotesFor s x → VotesFor s' x)
    (hcommit : s.mPhase = .externalize → s'.mCommit = s.mCommit) :
    SafeStep base resolve node s s' := by
  have hsuffix : s.log <:+ s'.log := ⟨new, hlog.symm⟩
  have hpledge : ∀ ev, ev.isPledge = true → ev ∉ new := by
    intro ev hev hmem
    rw [hnew ev hmem] at hev
    exact Bool.noConfusion hev
  refine ⟨hsuffix, fun h => ⟨?_, ?_, ?_⟩⟩
  · exact h.lock.frame (locked_iff_of_quiet hlog hnew) hphase hvotes
  · exact h.own.frame new hlog (fun st => hpledge _ rfl) (fun e => hpledge _ rfl)
      hlast fun hp => ⟨hphase.trans hp, hcommit hp⟩
  · exact h.seen.frame hsuffix hlatest fun hp =>
      ⟨hphase.symm.trans hp, hcommit (hphase.symm.trans hp)⟩

/-- Quiet updates that touch none of the ballots. -/
theorem of_note (new : List Event) (hlog : s'.log = new ++ s.log)
    (hnew : ∀ ev ∈ new, ev.isPledge = false) (hlast : s'.mLastEnvelope = s.mLastEnvelope)
    (h : SameBallots s s') : SafeStep base resolve node s s' :=
  of_quiet new hlog hnew h.phase hlast h.latest (fun _ _ => h.votes) fun _ => h.commit

/-- A note in the log. -/
theorem note {ev : Event} (hev : ev.isPledge = false) : SafeStep base resolve node s (s.note ev) :=
  of_note [ev] rfl (fun _ h => mem_singleton.1 h ▸ hev) rfl ⟨rfl, rfl, rfl, rfl, rfl, rfl⟩

/-- Updates of fields that no invariant mentions. -/
theorem silent (hlog : s'.log = s.log) (hlast : s'.mLastEnvelope = s.mLastEnvelope)
    (h : SameBallots s s') : SafeStep base resolve node s s' :=
  of_note [] hlog (forall_mem_nil _) hlast h

/-- Recording an envelope whose statement is known. -/
theorem latest {e : SCPEnvelope} (he : Known base node s e.statement) :
    SafeStep base resolve node s (s.withLatestEnvelope e) := by
  refine ⟨suffix_rfl, fun h => ⟨?_, ?_, ?_, ?_⟩⟩
  · exact h.lock.frame (fun _ => Iff.rfl) rfl fun _ _ hv =>
      ⟨hv.override, hv.current, hv.high, hv.commit⟩
  · exact h.own.frame [] rfl (fun _ => not_mem_nil)
      (fun _ => not_mem_nil) rfl fun hp => ⟨hp, rfl⟩
  · intro w e' he'
    by_cases hw : w = e.statement.nodeID
    · subst hw
      rw [State.withLatestEnvelope, AList.lookup_insert] at he'
      cases he'
      exact ⟨rfl, he⟩
    · rw [State.withLatestEnvelope, AList.lookup_insert_ne hw] at he'
      exact h.seen.latest w e' he'
  · exact h.seen.decided

/-- Creating the statement of the current state. -/
theorem created (hnode : env.localNode = node) {st : SCPStatement}
    (hst : StatementOf env s st) :
    SafeStep base resolve node s (s.note (.created st)) := by
  have hsuffix : s.log <:+ (s.note (.created st)).log := suffix_cons _ _
  have hlocked : ∀ x, Locked (s.note (.created st)) x ↔ Locked s x := by
    unfold Locked
    simp [State.note]
  refine ⟨hsuffix, fun h => ⟨?_, ?_, ?_⟩⟩
  · exact h.lock.frame hlocked rfl fun _ _ hv =>
      ⟨hv.override, hv.current, hv.high, hv.commit⟩
  · obtain ⟨hid, _, hpledges⟩ := hst
    refine ⟨fun st' hst' => ?_, fun st' c hst' hc => ?_, fun st' e hst' he => ?_,
      fun e he => mem_cons_of_mem _ (h.own.last e he), fun e he => ?_⟩
    · rcases mem_cons.1 hst' with heq | hmem
      · obtain rfl := Event.created.inj heq
        rw [hid, hnode]
      · exact h.own.created_nodeID st' hmem
    · rcases mem_cons.1 hst' with heq | hmem
      · obtain rfl := Event.created.inj heq
        rw [hc] at hpledges
        obtain ⟨hp, _, _, _, hb, _, _, _, hcon⟩ :=
          currentPledges_eq_confirm hpledges
        refine ⟨(hlocked _).2 (h.lock.locked_of_votes (by simp [hp]) ?_), ?_⟩
        · exact fun y hv => (hv.current _ hb).symm
        · rw [hcon, ← hnode]
      · obtain ⟨hl, hq⟩ := h.own.created_confirm st' c hmem hc
        exact ⟨hl.mono hsuffix, hq⟩
    · rcases mem_cons.1 hst' with heq | hmem
      · obtain rfl := Event.created.inj heq
        rw [he] at hpledges
        obtain ⟨hp, hc, _⟩ := currentPledges_eq_externalize hpledges
        refine ⟨hp, (hlocked _).2 (h.lock.locked_of_votes (by simp [hp]) ?_), e.commit, hc, rfl⟩
        exact fun y hv => (hv.commit _ hc).symm
      · obtain ⟨hp, hl, hc⟩ := h.own.created_externalize st' e hmem he
        exact ⟨hp, hl.mono hsuffix, hc⟩
    · rcases mem_cons.1 he with heq | hmem
      · exact Event.noConfusion heq
      · exact mem_cons_of_mem _ (h.own.emitted e hmem)
  · exact h.seen.frame hsuffix rfl fun hp => ⟨hp, rfl⟩

/-- Remembering or emitting an envelope whose statement was created. -/
theorem ownEnvelope (new : List Event) (hlog : s'.log = new ++ s.log)
    (hnew : ∀ ev ∈ new, ∃ e, ev = .emitEnvelope e ∧ s.mLastEnvelope = some e)
    (hlast : ∀ e, s'.mLastEnvelope = some e →
      s.mLastEnvelope = some e ∨ .created e.statement ∈ s.log) (hsame : SameBallots s s') :
    SafeStep base resolve node s s' := by
  have hsuffix : s.log <:+ s'.log := ⟨new, hlog.symm⟩
  have hold : ∀ ev, (∀ e, ev ≠ .emitEnvelope e) → ev ∈ s'.log → ev ∈ s.log := by
    intro ev hev hmem
    rw [hlog] at hmem
    refine (mem_append.1 hmem).resolve_left fun h => ?_
    obtain ⟨e, rfl, _⟩ := hnew ev h
    exact hev e rfl
  have hlocked : ∀ x, Locked s' x ↔ Locked s x := by
    refine fun x => ⟨fun ⟨c, b, hmem, hv⟩ => ⟨c, b, hold _ ?_ hmem, hv⟩, fun h => h.mono hsuffix⟩
    exact fun e h => Event.noConfusion h
  have hcreated : ∀ st, .created st ∈ s'.log → .created st ∈ s.log :=
    fun st => hold _ fun e h => Event.noConfusion h
  refine ⟨hsuffix, fun h => ⟨?_, ?_, ?_⟩⟩
  · exact h.lock.frame hlocked hsame.phase fun _ _ => hsame.votes
  · refine ⟨fun st hst => h.own.created_nodeID st (hcreated st hst),
      fun st c hst hcon => ?_, fun st e hst he => ?_, fun e he => ?_,
      fun e he => ?_⟩
    · obtain ⟨hl, hq⟩ := h.own.created_confirm st c (hcreated st hst) hcon
      exact ⟨hl.mono hsuffix, hq⟩
    · obtain ⟨hp, hl, c, hcc, hv⟩ :=
        h.own.created_externalize st e (hcreated st hst) he
      exact ⟨hsame.phase.trans hp, hl.mono hsuffix, c, hsame.commit.trans hcc, hv⟩
    · rcases hlast e he with he | he
      · exact hsuffix.subset (h.own.last e he)
      · exact hsuffix.subset he
    · rw [hlog] at he
      rcases mem_append.1 he with he | he
      · obtain ⟨_, heq, hl⟩ := hnew _ he
        obtain rfl := Event.emitEnvelope.inj heq
        exact hsuffix.subset (h.own.last e hl)
      · exact hsuffix.subset (h.own.emitted e he)
  · exact h.seen.frame hsuffix hsame.latest fun hp => ⟨hsame.phase.symm.trans hp, hsame.commit⟩

/-- Leaving `PREPARE` with an accepted commit. -/
theorem enterConfirm {c h : SCPBallot} (hp : s.mPhase = .prepare) (hvalue : c.value = h.value) :
    SafeStep base resolve node s ((s.acceptedCommit c h).enteredConfirm h) := by
  obtain ⟨new, hlog, hnew⟩ := (s.acceptedCommit c h).enteredConfirm_log h
  obtain ⟨hov, hc, hlatest, hlast⟩ :=
    (s.acceptedCommit c h).enteredConfirm_kept h
  have hphase := (s.acceptedCommit c h).enteredConfirm_mPhase h
  have hcur := (s.acceptedCommit c h).enteredConfirm_mCurrentBallot h
  have hhigh := s.enteredConfirm_mHighBallot c h
  -- the rest is about an arbitrary state with these fields
  generalize (s.acceptedCommit c h).enteredConfirm h = s' at *
  have hlog' : s'.log = (new ++ [.setAcceptCommit c h]) ++ s.log := by
    rw [hlog, append_assoc]
    rfl
  have hsuffix : s.log <:+ s'.log := ⟨_, hlog'.symm⟩
  have hne : ∀ ev ∈ new ++ [.setAcceptCommit c h],
      (∀ st, ev ≠ .created st) ∧ ∀ e, ev ≠ .emitEnvelope e := by
    intro ev hev
    rcases mem_append.1 hev with hev | hev
    · rcases hnew ev hev with rfl | rfl | rfl <;> simp
    · obtain rfl := mem_singleton.1 hev
      simp
  refine ⟨hsuffix, fun hinv => ⟨⟨?_, ?_, fun _ => ?_⟩, ?_, ?_⟩⟩
  · -- the only accepted commit is this one
    have honly : ∀ x, Locked s' x → x = h.value := by
      rintro x ⟨c', h', hmem, rfl⟩
      rw [hlog'] at hmem
      rcases mem_append.1 hmem with hmem | hmem
      · rcases mem_append.1 hmem with hmem | hmem
        · rcases hnew _ hmem with h | h | h <;> exact Event.noConfusion h
        · obtain ⟨_, rfl⟩ := Event.setAcceptCommit.inj (mem_singleton.1 hmem)
          rfl
      · exact absurd ⟨c', h', hmem, rfl⟩ (hinv.lock.unlocked hp h'.value)
    exact fun x y hx hy => (honly x hx).trans (honly y hy).symm
  · intro hprep
    rw [hphase] at hprep
    exact SCPPhase.noConfusion hprep
  · refine ⟨h.value, ⟨c, h, ?_, rfl⟩, hov, fun b hb => (hcur b hb).2.symm,
      fun b hb => ?_, fun b hb => ?_⟩
    · rw [hlog', append_assoc]
      exact mem_append_right _ mem_cons_self
    · rw [hhigh] at hb
      exact congrArg _ (some.inj hb).symm
    · rw [hc] at hb
      cases hb
      exact hvalue
  · exact hinv.own.frame _ hlog' (fun st hst => (hne _ hst).1 st rfl)
      (fun e he => (hne _ he).2 e rfl) hlast fun hext => by simp [hp] at hext
  · exact hinv.seen.frame hsuffix hlatest fun hext => by simp [hphase] at hext

/-- Accepting more of the same commit in `CONFIRM`. -/
theorem acceptCommit {c h h₀ : SCPBallot} (hp : s.mPhase = .confirm)
    (hh₀ : s.mHighBallot = some h₀) (hv₀ : h₀.value = h.value)
    (hvalue : c.value = h.value) :
    SafeStep base resolve node s (s.acceptedCommit c h) := by
  have hlog : (s.acceptedCommit c h).log = [.setAcceptCommit c h] ++ s.log := rfl
  have hsuffix : s.log <:+ (s.acceptedCommit c h).log := suffix_cons _ _
  refine ⟨hsuffix, fun hinv => ?_⟩
  obtain ⟨x, hx, hv⟩ := hinv.lock.locked (by simp [hp])
  have hxh : x = h.value := (hv.high h₀ hh₀).symm.trans hv₀
  have hold : ∀ y, Locked (s.acceptedCommit c h) y → Locked s y := by
    rintro y ⟨c', h', hmem, rfl⟩
    rcases mem_cons.1 hmem with heq | hmem
    · obtain ⟨_, rfl⟩ := Event.setAcceptCommit.inj heq
      exact hxh ▸ hx
    · exact ⟨c', h', hmem, rfl⟩
  refine ⟨⟨fun y z hy hz => hinv.lock.unique y z (hold y hy) (hold z hz), ?_,
    fun _ => ⟨x, hx.mono hsuffix, ?_⟩⟩, ?_, ?_⟩
  · intro hprep
    have : s.mPhase = .prepare := hprep
    simp [hp] at this
  · refine ⟨congrArg some hxh.symm, hv.current, fun b hb => ?_, fun b hb => ?_⟩
    · cases hb
      exact hxh.symm
    · cases hb
      exact hvalue.trans hxh.symm
  · exact hinv.own.frame _ hlog (by simp) (by simp) rfl fun hext => by
      simp [hp] at hext
  · refine hinv.seen.frame hsuffix rfl fun hext => ?_
    have : s.mPhase = .externalize := hext
    simp [hp] at this

/-- Moving to `EXTERNALIZE` on a ratified commit. -/
theorem externalize (hnode : env.localNode = node)
    (hresolve : ∀ h q, env.getQSet h = some q → resolve h q) {c : SCPBallot}
    (hp : s.mPhase = .confirm) (hc : s.mCommit = some c)
    (hr : CommitRatified env s.mLatestEnvelopes c.value) :
    SafeStep base resolve node s (s.withPhase .externalize) := by
  refine ⟨suffix_rfl, fun h => ⟨⟨h.lock.unique, fun hprep => ?_, fun _ => ?_⟩,
    ?_, h.seen.latest, fun _ => ⟨c, hc, ?_⟩⟩⟩
  · exact SCPPhase.noConfusion hprep
  · obtain ⟨x, hx, hv⟩ := h.lock.locked (by simp [hp])
    exact ⟨x, hx, hv.override, hv.current, hv.high, hv.commit⟩
  · exact h.own.frame [] rfl (fun _ => not_mem_nil)
      (fun _ => not_mem_nil) rfl fun hext => by simp [hp] at hext
  · exact decided_of_ratified hnode hresolve h.seen hr

end SafeStep

/-- **Every update of the ballot protocol keeps the invariants of a node**,
whatever nomination proposes, if the network delivers known statements only. -/
theorem safe_rules {base : SCPStatement → Prop}
    {resolve : Hash → SCPQuorumSet → Prop} {node : LocalNode}
    (hnode : env.localNode = node)
    (hresolve : ∀ h q, env.getQSet h = some q → resolve h q) :
    Rules env (fun e => base e.statement) (fun _ => True) (SafeStep base resolve node) where
  refl := SafeStep.refl
  trans _ _ _ := SafeStep.trans
  log_suffix _ _ h := h.log_suffix
  note _ ev hev := .note (by cases ev <;> simp_all [Event.isNote, Event.isPledge])
  level _ _ := .silent rfl rfl ⟨rfl, rfl, rfl, rfl, rfl, rfl⟩
  didHear s _ _ _ _ := by
    have hheard : SafeStep base resolve node s (s.withHeardFromQuorum true) :=
      .silent rfl rfl ⟨rfl, rfl, rfl, rfl, rfl, rfl⟩
    exact hheard.trans (.note rfl)
  notHeard _ _ _ _ := .silent rfl rfl ⟨rfl, rfl, rfl, rfl, rfl, rfl⟩
  fullyValidated _ := .silent rfl rfl ⟨rfl, rfl, rfl, rfl, rfl, rfl⟩
  latest _ e he _ := .latest <| he.imp_right fun ho => ⟨hnode ▸ ho.2.1, ho.2.2⟩
  createStatement _ := .note rfl
  created _ _ hst := .created hnode hst
  lastEnvelope s s' st _ _ hcreated h := by
    have hmem : .created st ∈ s'.log := h.log_suffix.subset mem_cons_self
    refine (hcreated.trans h).trans (.ownEnvelope [] rfl
      (forall_mem_nil _) (fun e he => .inr ?_) ⟨rfl, rfl, rfl, rfl, rfl, rfl⟩)
    cases he
    exact hmem
  emit _ e he := .ownEnvelope [.emitEnvelope e] rfl
    (fun _ h => ⟨e, mem_singleton.1 h, he⟩) (fun _ h => .inl h) ⟨rfl, rfl, rfl, rfl, rfl, rfl⟩
  prepared _ _ _ _ := .silent rfl rfl ⟨rfl, rfl, rfl, rfl, rfl, rfl⟩
  clearCommit _ hp _ := .of_quiet [] rfl (forall_mem_nil _)
    rfl rfl rfl
    (fun _ _ hv => ⟨hv.override, hv.current, hv.high, fun _ h => by cases h⟩)
    fun h => absurd h hp
  confirmPrepared _ newH hp := .of_quiet [.setPreparedConfirmed newH] rfl
    (fun _ h => mem_singleton.1 h ▸ rfl) rfl rfl rfl
    (fun h => absurd hp h) fun _ => rfl
  highBallot _ _ hp _ := .of_quiet [] rfl (forall_mem_nil _)
    rfl rfl rfl (fun h => absurd hp h) fun _ => rfl
  commit _ _ hp _ := .of_quiet [] rfl (forall_mem_nil _)
    rfl rfl rfl (fun h => absurd hp h) fun h => by simp [hp] at h
  bump s b hreason := by
    refine .of_quiet (s.bumpNotes b ++ [.bumpToBallot b]) ?_ (fun ev hev => ?_)
      rfl rfl rfl (fun _ x hv => ?_) fun _ => rfl
    · rw [State.bump_log, append_assoc]
      rfl
    · rcases mem_append.1 hev with hev | hev
      · rcases State.mem_bumpNotes hev with rfl | rfl <;> rfl
      · exact mem_singleton.1 hev ▸ rfl
    · have hbx : b.value = x := by
        cases hreason with
        | override _ h => exact some.inj (h.symm.trans hv.override)
        | high _ h => exact hv.high b h
        | value _ h => rw [hv.override] at h; cases h
      refine ⟨hv.override, fun b' hb' => ?_, fun h' hh' => ?_, hv.commit⟩
      · have : some b = some b' := hb'
        exact some.inj this ▸ hbx
      · exact hv.high h' (State.bump_mHighBallot hh')
  enterConfirm _ _ _ hp hvalue := .enterConfirm hp hvalue
  acceptCommit _ _ _ _ hp hh₀ hv₀ hvalue := .acceptCommit hp hh₀ hv₀ hvalue
  confirmCommit s c h c₀ hp hc₀ hc hh := .of_quiet [.setConfirmCommit c h] rfl
    (fun _ h => mem_singleton.1 h ▸ rfl) rfl rfl rfl
    (fun _ x hv => ⟨hv.override, hv.current,
      fun b hb => some.inj hb ▸ hh.trans (hv.commit c₀ hc₀),
      fun b hb => some.inj hb ▸ hc.trans (hv.commit c₀ hc₀)⟩)
    fun h => by simp [hp] at h
  externalize _ _ _ hp hc _ _ hr := .externalize hnode hresolve hp hc hr
  valueExternalized _ _ _ _ hext h := (hext.trans h).trans (.note rfl)

end EssaCore.Scp
