import EssaCore.Scp.Nomination

/-!
# Nomination only grows (`scp/NominationProtocol.cpp:83–182, 328–536`)

Votes, accepted values and candidates are only ever inserted, so every statement
a node makes is made of subsets of what it has now (`Within`). A statement is
created only after something was inserted; it is then larger than any statement
before it, which is what `isNewerStatement` asks for, and so the node's own
`processEnvelope` takes it (`wp_emitNomination`).

The argument needs that statements in the node's name are its own: with a
statement it never made the next one is not newer, and `emitNomination` throws
(`nominate_after_foreign_statement`).

- `Inv`, `Step` — the invariant, and what every part of a call does;
- `Growth` — the updates between two statements, with the flag that something
  was inserted;
- `nomination_grows` — whole runs.
-/

open List

namespace EssaCore.Scp.Nomination

open EssaCore.Lib

/-! ## Comparing nominations -/

def SCPNomination.size (nom : SCPNomination) : Nat := nom.votes.length + nom.accepted.length

/-- The three sets of a node -/
structure Sets where
  votes : ValueSet
  accepted : ValueSet
  candidates : ValueSet

def State.sets (s : State) : Sets := ⟨s.mVotes, s.mAccepted, s.mCandidates⟩

def Sets.size (x : Sets) : Nat := x.votes.card + x.accepted.card

/-- The nomination lists sets that the node has. -/
structure Within (x : Sets) (nom : SCPNomination) : Prop where
  votes_ascending : nom.votes.Pairwise (· < ·)
  accepted_ascending : nom.accepted.Pairwise (· < ·)
  votes : nom.votes ⊆ x.votes.elems
  accepted : nom.accepted ⊆ x.accepted.elems

variable {x y : Sets} {nom : SCPNomination}

theorem Within.size_le (h : Within x nom) : nom.size ≤ x.size :=
  Nat.add_le_add (StdSet.card_le_of_subset (s := ⟨nom.votes, h.votes_ascending⟩) h.votes)
    (StdSet.card_le_of_subset (s := ⟨nom.accepted, h.accepted_ascending⟩) h.accepted)

theorem isSubsetHelper_of_subset {p v : List Value} (hp : p.Pairwise (· < ·))
    (hv : v.Pairwise (· < ·)) (h : p ⊆ v) : isSubsetHelper p v = (true, p.length != v.length) := by
  have hle : p.length ≤ v.length := StdSet.card_le_of_subset (s := ⟨p, hp⟩) (t := ⟨v, hv⟩) h
  rw [isSubsetHelper, if_pos hle, if_pos (includes_of_subset hv hp h)]

variable {s : State}

/-- What the node has now is newer than any smaller statement it made. -/
theorem isNewerStatement_of_within (env : Env)
    (h : Within s.sets nom) (hlt : nom.size < s.sets.size) :
    isNewerStatement nom (currentStatement env s).nominate = true := by
  have hsize : nom.votes.length + nom.accepted.length <
    s.mVotes.elems.length + s.mAccepted.elems.length := hlt
  unfold isNewerStatement currentStatement
  rw [isSubsetHelper_of_subset h.votes_ascending s.mVotes.ascending h.votes,
    isSubsetHelper_of_subset h.accepted_ascending s.mAccepted.ascending h.accepted]
  by_cases hvotes : nom.votes.length = s.mVotes.elems.length
  · have haccepted : nom.accepted.length ≠ s.mAccepted.elems.length := by omega
    simp [haccepted]
  · simp [hvotes]

theorem strictlyAscending_of_pairwise {l : List Value} (h : l.Pairwise (· < ·)) :
    strictlyAscending l = true := by
  fun_induction strictlyAscending l with
  | case1 a b rest ih =>
    obtain ⟨ha, hrest⟩ := pairwise_cons.mp h
    simp [ha b mem_cons_self, ih hrest]
  | case2 => rfl

theorem isSane_currentStatement (env : Env) (h : 0 < s.sets.size) :
    isSane (currentStatement env s).nominate = true := by
  have hne : s.mVotes.elems.length + s.mAccepted.elems.length ≠ 0 := Nat.ne_of_gt h
  unfold isSane currentStatement
  rw [strictlyAscending_of_pairwise s.mVotes.ascending,
    strictlyAscending_of_pairwise s.mAccepted.ascending, Bool.and_true, Bool.and_true]
  exact bne_iff_ne.mpr hne

/-! ## The invariant -/

/-- A statement was sane when it was created, and newer than the last one. -/
structure Orderly (x : Sets) (st : Statement) (last : Option Envelope) : Prop where
  sane : isSane st.nominate = true
  newer : ∀ e, last = some e → isNewerStatement e.statement.nominate st.nominate = true
  within : Within x st.nominate

structure Inv (me : NodeID) (s : State) : Prop where
  candidates : s.mCandidates ⊆ s.mAccepted
  accepted : s.mAccepted ⊆ s.mVotes
  own : ∀ e, s.mLatestNominations.lookup me = some e → Within s.sets e.statement.nominate
  last : ∀ e, s.mLastEnvelope = some e → Within s.sets e.statement.nominate
  created : ∀ st last, .created st last ∈ s.log → Orderly s.sets st last

/-- The three sets only grow. -/
structure Grows (x y : Sets) : Prop where
  votes : x.votes ⊆ y.votes
  accepted : x.accepted ⊆ y.accepted
  candidates : x.candidates ⊆ y.candidates

theorem Grows.refl (x : Sets) : Grows x x :=
  ⟨StdSet.subset_refl _, StdSet.subset_refl _, StdSet.subset_refl _⟩

theorem Grows.trans {z : Sets} (h : Grows x y) (h' : Grows y z) : Grows x z :=
  ⟨StdSet.subset_trans h.votes h'.votes, StdSet.subset_trans h.accepted h'.accepted,
    StdSet.subset_trans h.candidates h'.candidates⟩

theorem Grows.size_le (h : Grows x y) : x.size ≤ y.size :=
  Nat.add_le_add (StdSet.card_le_of_subset h.votes) (StdSet.card_le_of_subset h.accepted)

theorem Within.mono (h : Within x nom) (hxy : Grows x y) : Within y nom :=
  ⟨h.votes_ascending, h.accepted_ascending, Subset.trans h.votes hxy.votes,
    Subset.trans h.accepted hxy.accepted⟩

theorem Orderly.mono {st : Statement} {last : Option Envelope}
    (h : Orderly x st last) (hxy : Grows x y) : Orderly y st last :=
  ⟨h.sane, h.newer, h.within.mono hxy⟩

/-- What every part of a call does -/
structure Step (me : NodeID) (s s' : State) : Prop where
  grows : Grows s.sets s'.sets
  inv : Inv me s → Inv me s'

section Steps

variable {me : NodeID} {s s' : State}

theorem Step.refl (s : State) : Step me s s := ⟨.refl _, id⟩

theorem Step.trans {s₁ s₂ s₃ : State} (h : Step me s₁ s₂) (h' : Step me s₂ s₃) : Step me s₁ s₃ :=
  ⟨h.grows.trans h'.grows, fun hs => h'.inv (h.inv hs)⟩

/-- Updates between two statements; `grew` says that a vote or an accepted value is new. -/
structure Growth (me : NodeID) (grew : Bool) (s s' : State) : Prop where
  step : Step me s s'
  latest : s'.mLatestNominations = s.mLatestNominations
  last : s'.mLastEnvelope = s.mLastEnvelope
  size : grew = true → s.sets.size < s'.sets.size

namespace Growth

theorem refl (s : State) : Growth me false s s :=
  ⟨.refl s, rfl, rfl, fun h => Bool.noConfusion h⟩

variable {grew : Bool}

theorem trans {s₁ s₂ s₃ : State} {grew' : Bool} (h : Growth me grew s₁ s₂)
    (h' : Growth me grew' s₂ s₃) : Growth me (grew || grew') s₁ s₃ := by
  refine ⟨h.step.trans h'.step, h'.latest.trans h.latest, h'.last.trans h.last, fun hgrew => ?_⟩
  rcases (Bool.or_eq_true_iff).mp hgrew with hgrew | hgrew
  · exact (h.size hgrew).trans_le h'.step.grows.size_le
  · exact h.step.grows.size_le.trans_lt (h'.size hgrew)

/-- Insertions that keep the inclusions, with events that are not statements -/
theorem of_grows (hgrows : Grows s.sets s'.sets)
    (hcandidates : s.mCandidates ⊆ s.mAccepted → s'.mCandidates ⊆ s'.mAccepted)
    (haccepted : s.mAccepted ⊆ s.mVotes → s'.mAccepted ⊆ s'.mVotes)
    (hlatest : s'.mLatestNominations = s.mLatestNominations)
    (hlast : s'.mLastEnvelope = s.mLastEnvelope)
    (hlog : ∀ st last, .created st last ∈ s'.log → .created st last ∈ s.log)
    (hsize : grew = true → s.sets.size < s'.sets.size) : Growth me grew s s' := by
  refine ⟨⟨hgrows, fun hs => ⟨hcandidates hs.candidates, haccepted hs.accepted, ?_, ?_, ?_⟩⟩,
    hlatest, hlast, hsize⟩
  · rw [hlatest]
    exact fun e he => (hs.own e he).mono hgrows
  · rw [hlast]
    exact fun e he => (hs.last e he).mono hgrows
  · exact fun st last h => (hs.created st last (hlog st last h)).mono hgrows

/-- An update of other data -/
theorem quiet (hsets : s'.sets = s.sets) (hlatest : s'.mLatestNominations = s.mLatestNominations)
    (hlast : s'.mLastEnvelope = s.mLastEnvelope)
    (hlog : ∀ st last, .created st last ∈ s'.log → .created st last ∈ s.log) :
    Growth me false s s' := by
  obtain ⟨hvotes, haccepted, hcandidates⟩ := Sets.mk.inj hsets
  refine of_grows (hsets ▸ .refl _) ?_ ?_ hlatest hlast hlog fun h => Bool.noConfusion h
  · rw [hcandidates, haccepted]
    exact id
  · rw [haccepted, hvotes]
    exact id

theorem note (s : State) {ev : Event} (hev : ∀ st last, .created st last ≠ ev) :
    Growth me false s (s.note ev) :=
  quiet rfl rfl rfl fun st last h => (mem_cons.mp h).resolve_left (hev st last)

theorem vote (s : State) (v : Value) (hgrew : grew = true → v ∉ s.mVotes) :
    Growth me grew s (s.vote v) := by
  refine of_grows ⟨StdSet.subset_insert _ v, StdSet.subset_refl _, StdSet.subset_refl _⟩ id
    (fun h => StdSet.subset_trans h (StdSet.subset_insert _ v)) rfl rfl (fun _ _ => id)
    fun h => Nat.add_lt_add_right (StdSet.card_lt_insert (hgrew h)) _

theorem accept {v : Value} (h : v ∉ s.mAccepted) : Growth me true s (s.accept v) := by
  refine of_grows ⟨StdSet.subset_insert _ v, StdSet.subset_insert _ v, StdSet.subset_refl _⟩
    (fun hc => StdSet.subset_trans hc (StdSet.subset_insert _ v))
    (fun ha => StdSet.insert_subset (StdSet.mem_insert.mpr (.inl rfl))
      (StdSet.subset_trans ha (StdSet.subset_insert _ v))) rfl rfl (fun _ _ => id) fun _ => ?_
  exact Nat.add_lt_add_of_le_of_lt (StdSet.card_le_of_subset (StdSet.subset_insert _ v))
    (StdSet.card_lt_insert h)

theorem candidate {a : Value} (h : a ∈ s.mAccepted) :
    Growth me false s { s with mCandidates := s.mCandidates.insert a } :=
  of_grows ⟨StdSet.subset_refl _, StdSet.subset_refl _, StdSet.subset_insert _ a⟩
    (StdSet.insert_subset h) id rfl rfl (fun _ _ => id) fun h => Bool.noConfusion h

end Growth

/-! ## The parts of a call -/

variable {env : Env}

theorem growth_promoteVote (env : Env) (s : State) (v : Value) :
    Growth me (promoteVote env s v).2 s (promoteVote env s v).1 := by
  unfold promoteVote
  split
  · exact .refl s
  · rename_i hv
    split
    · split
      · exact .accept hv
      · dsimp only
        split
        · exact .refl s
        · exact .vote s _ fun h => by simpa using h
    · exact .refl s

theorem growth_promoteVotes (env : Env) (votes : List Value) (s : State) :
    Growth me (promoteVotes env votes s).2 s (promoteVotes env votes s).1 := by
  induction votes generalizing s with
  | nil => exact .refl s
  | cons v votes ih => exact (growth_promoteVote env s v).trans (ih _)

theorem growth_promoteAccepted (env : Env) (accepted : List Value) (s : State)
    (h : ∀ a ∈ accepted, a ∈ s.mAccepted) :
    Growth me false s (promoteAccepted env accepted s).1 := by
  induction accepted generalizing s with
  | nil => exact .refl s
  | cons a accepted ih =>
    have hrest : ∀ b ∈ accepted, b ∈ s.mAccepted := fun b hb => h b (mem_cons_of_mem _ hb)
    unfold promoteAccepted
    split
    · exact (Growth.candidate (h a mem_cons_self)).trans (ih _ hrest)
    · exact ih s hrest

/-- A value to nominate is one that the node does not have yet. -/
theorem wp_getNewValueFromNomination (nom : SCPNomination) (s : State) :
    wp (getNewValueFromNomination env nom) (fun v s' => s' = s ∧ (v = [] ∨ v ∉ s.mVotes))
      (fun e s' => e = .dbgAbort ∧ s' = s) s := by
  have hloop : ∀ (values : List Value) (best : Value × UInt64), best.1 = [] ∨ best.1 ∉ s.mVotes →
      wp (values.foldlM (considerValue env) best) (fun r s' => s' = s ∧ (r.1 = [] ∨ r.1 ∉ s.mVotes))
        (fun e s' => e = .dbgAbort ∧ s' = s) s := by
    intro values
    induction values with
    | nil => exact fun best hbest => ⟨rfl, hbest⟩
    | cons v values ih =>
      intro best hbest
      rw [foldlM_cons]
      unfold considerValue hashValue assertPreviousValue
      generalize (if env.validateValue v = .fullyValidatedValue then v
        else env.extractValidValue v) = v'
      simp only [wp_bind, wp_ite]
      refine ⟨fun _ => ih best hbest, fun hnew => ⟨fun _ => ⟨rfl, rfl⟩, fun _ => ih _ ?_⟩⟩
      split
      · exact .inr fun hmem => hnew (.inr hmem)
      · exact hbest
  unfold getNewValueFromNomination
  exact (hloop _ _ (.inl rfl)).bind fun _ _ h => h

theorem wp_takeLeaderVote (st : Statement) (s : State) :
    wp (takeLeaderVote env st) (fun grew s' => Growth me grew s s')
      (fun e s' => e = .dbgAbort ∧ s' = s) s := by
  unfold takeLeaderVote record
  simp only [wp_bind, wp_ite, wp_pure]
  refine ⟨fun _ => ?_, fun _ => .refl s⟩
  refine (wp_getNewValueFromNomination _ s).imp fun v s' h => ?_
  obtain ⟨rfl, hv⟩ := h
  refine ⟨fun _ => .refl s', fun hne => ?_⟩
  have hnote : Growth me false (s'.vote v) ((s'.vote v).note (.nominatingValue v)) :=
    .note _ fun _ _ h => Event.noConfusion h
  have hvote : Growth me true s' (s'.vote v) := .vote s' v fun _ => hv.resolve_left hne
  exact hvote.trans hnote

theorem wp_takeLeaderVotes (leaders : List NodeID) (v : Value) (updated : Bool) (s : State) :
    wp (takeLeaderVotes env leaders v updated)
      (fun r s' => ∃ grew, r.2 = (updated || grew) ∧ Growth me grew s s')
      (fun e s' => e = .dbgAbort ∧ Step me s s') s := by
  induction leaders generalizing v updated s with
  | nil => exact ⟨false, (Bool.or_false _).symm, .refl s⟩
  | cons leader leaders ih =>
    unfold takeLeaderVotes
    simp only [wp_bind, wp_get]
    split
    · exact ih v updated s
    · simp only [wp_bind, wp_ite]
      refine (wp_getNewValueFromNomination _ s).mono (fun v' s' h => ?_)
        fun _ _ h => ⟨h.1, h.2 ▸ .refl _⟩
      obtain ⟨rfl, hv'⟩ := h
      refine ⟨fun _ => ih v' updated s', fun hne => ?_⟩
      have hvote : Growth me true s' (s'.vote v') := .vote s' v' fun _ => hv'.resolve_left hne
      refine (ih v' true (s'.vote v')).mono (fun r s'' hrest => ?_)
        fun _ _ h => ⟨h.1, hvote.step.trans h.2⟩
      obtain ⟨grew, hr, h⟩ := hrest
      exact ⟨true, by rw [hr, Bool.true_or, Bool.or_true], hvote.trans h⟩

end Steps

/-! ## Emitting -/

section Emit

variable {env : Env} {me : NodeID} {s : State}

/-- All statements recorded so far are smaller than the next one. -/
def Fresh (me : NodeID) (s : State) : Prop :=
  ∀ e, s.mLatestNominations.lookup me = some e ∨ s.mLastEnvelope = some e →
    e.statement.nominate.size < s.sets.size

theorem Growth.fresh {s' : State} (hs : Inv me s) (h : Growth me true s s') : Fresh me s' := by
  intro e he
  rw [h.latest, h.last] at he
  have hwithin : Within s.sets e.statement.nominate := he.elim (hs.own e) (hs.last e)
  exact hwithin.size_le.trans_lt (h.size rfl)

/-- The result of a part of a call: a `Step`, and no bad state -/
def Keeps {α : Type} (me : NodeID) (x : M α) (Q : α → Prop) (s : State) : Prop :=
  wp x (fun a s' => Step me s s' ∧ Q a) (fun e s' => e ≠ .movedToABadState ∧ Step me s s') s

/-- What `emitNomination` expects of `processEnvelope` -/
def Processes (me : NodeID) (process : Envelope → M EnvelopeState) : Prop :=
  ∀ e s, Inv me s → (e.statement.nodeID = me → Within s.sets e.statement.nominate) →
    Keeps me (process e) (fun r => isNewerForNode s.mLatestNominations e.statement = true →
      isSane e.statement.nominate = true → r = .valid) s

/-- **A node always takes its own statement.** -/
theorem wp_emitNomination {process : Envelope → M EnvelopeState}
    (hme : env.localNode.mNodeID = me) (hprocess : Processes me process)
    (hs : Inv me s) (hfresh : Fresh me s) (hpos : 0 < s.sets.size) :
    Keeps me (emitNomination env process) (fun _ => True) s := by
  let st := currentStatement env s
  have hwithin : Within s.sets st.nominate :=
    ⟨s.mVotes.ascending, s.mAccepted.ascending, Subset.refl _, Subset.refl _⟩
  have hnewer : ∀ e, s.mLatestNominations.lookup me = some e ∨ s.mLastEnvelope = some e →
      isNewerStatement e.statement.nominate st.nominate = true := fun e he =>
    isNewerStatement_of_within env (he.elim (hs.own e) (hs.last e)) (hfresh e he)
  have hcreate : Step me s (s.note (.created st s.mLastEnvelope)) := by
    refine ⟨.refl _, fun hs => ⟨hs.candidates, hs.accepted, hs.own, hs.last, ?_⟩⟩
    intro st' last' hmem
    rcases mem_cons.mp hmem with heq | hmem
    · obtain ⟨rfl, rfl⟩ := Event.created.inj heq
      exact ⟨isSane_currentStatement env hpos, fun e he => hnewer e (.inr he), hwithin⟩
    · exact hs.created st' last' hmem
  unfold Keeps emitNomination record
  simp only [wp_bind, wp_ite]
  refine (hprocess ⟨st, env.signEnvelope st⟩ _ (hcreate.inv hs) fun _ => hwithin).mono
    (fun r s' h => ⟨fun _ => ?_, fun hinvalid => absurd (h.2 ?_ ?_) hinvalid⟩)
    fun _ _ h => ⟨h.1, hcreate.trans h.2⟩
  · have hs' := hcreate.trans h.1
    have hlast : Step me s' { s' with mLastEnvelope := some ⟨st, env.signEnvelope st⟩ } := by
      refine ⟨.refl _, fun hi => ⟨hi.candidates, hi.accepted, hi.own, fun e he => ?_, hi.created⟩⟩
      cases he
      exact hwithin.mono hs'.grows
    have hnote : Growth me false _ (State.note _ (.emitEnvelope ⟨st, env.signEnvelope st⟩)) :=
      .note { s' with mLastEnvelope := some ⟨st, env.signEnvelope st⟩ } fun _ _ => Event.noConfusion
    unfold updateLastEnvelope onlyIf record
    simp only [wp_bind, wp_ite]
    exact ⟨fun _ => ⟨fun _ => ⟨hs'.trans (hlast.trans hnote.step), trivial⟩,
      fun _ => ⟨hs'.trans hlast, trivial⟩⟩, fun _ => ⟨hs', trivial⟩⟩
  · have hnode : st.nodeID = me := hme
    unfold isNewerForNode
    rw [hnode]
    split
    · rfl
    · rename_i old hold
      exact hnewer old (.inl hold)
  · exact isSane_currentStatement env hpos

theorem wp_bumpCandidates (s : State) : Keeps me (bumpCandidates env) (fun _ => True) s := by
  let v := env.combineCandidates s.mCandidates
  let s₁ : State := { s with mLatestCompositeCandidate := v }
  let s₂ := (s₁.note (.updatedCandidateValue v)).note (.bumpState v)
  have h₁ : Growth me false s s₁ := .quiet rfl rfl rfl fun _ _ => id
  have h₂ : Step me s s₂ := ((h₁.trans (.note s₁ fun _ _ h => Event.noConfusion h)).trans
    (.note _ fun _ _ h => Event.noConfusion h)).step
  have hstop : Growth me false s₂ { s₂ with mNominationStarted := false } :=
    .quiet rfl rfl rfl fun _ _ => id
  unfold Keeps bumpCandidates record
  simp only [wp_bind, wp_get, wp_modify]
  split
  · exact ⟨h₂, trivial⟩
  · exact ⟨h₂.trans hstop.step, trivial⟩
  · exact ⟨Halt.noConfusion, h₂⟩

theorem wp_advance {process : Envelope → M EnvelopeState}
    (hme : env.localNode.mNodeID = me) (hprocess : Processes me process)
    (hs : Inv me s) (st : Statement) :
    Keeps me (advance env (emitNomination env process) st) (fun _ => True) s := by
  have haccepted : Growth me _ s _ := growth_promoteVotes env st.nominate.votes s
  have hcandidates := haccepted.trans (growth_promoteAccepted env _
    (promoteVotes env st.nominate.votes s).1 fun _ ha => ha)
  rw [Bool.or_false] at hcandidates
  unfold Keeps advance onlyIf
  simp only [wp_bind, wp_ite]
  refine (wp_takeLeaderVote st _).mono (fun voted s₁ (hvoted : Growth me voted _ s₁) => ?_)
    fun _ _ h => ⟨h.1 ▸ Halt.noConfusion, h.2 ▸ hcandidates.step⟩
  have hgrowth := hcandidates.trans hvoted
  have hbump : ∀ s₂, Step me s s₂ →
      (((promoteAccepted env (promoteVotes env st.nominate.votes s).1.mAccepted.elems
        (promoteVotes env st.nominate.votes s).1).2 = true →
        wp (bumpCandidates env) (fun _ s' => Step me s s' ∧ True)
          (fun e s' => e ≠ .movedToABadState ∧ Step me s s') s₂) ∧
      (¬ (promoteAccepted env (promoteVotes env st.nominate.votes s).1.mAccepted.elems
        (promoteVotes env st.nominate.votes s).1).2 = true → Step me s s₂ ∧ True)) :=
    fun s₂ h₂ => ⟨fun _ => (wp_bumpCandidates s₂).mono (fun _ _ h => ⟨h₂.trans h.1, trivial⟩)
      fun _ _ h => ⟨h.1, h₂.trans h.2⟩, fun _ => ⟨h₂, trivial⟩⟩
  refine ⟨fun hmodified => ?_, fun _ => hbump s₁ hgrowth.step⟩
  rw [hmodified] at hgrowth
  have hpos : 0 < s₁.sets.size := (Nat.zero_le _).trans_lt (hgrowth.size rfl)
  exact (wp_emitNomination hme hprocess (hgrowth.step.inv hs) (hgrowth.fresh hs) hpos).mono
    (fun _ s₂ h => hbump s₂ (hgrowth.step.trans h.1)) fun _ _ h => ⟨h.1, hgrowth.step.trans h.2⟩

/-- The induction over the nested calls. -/
theorem processes_processEnvelope (hme : env.localNode.mNodeID = me) (depth : Nat) :
    Processes me (processEnvelope env depth) := by
  induction depth with
  | zero => exact fun _ s _ _ => ⟨Halt.noConfusion, .refl s⟩
  | succ depth ih =>
    intro e s hs he
    have hrecord : Step me s (s.withLatest e) := by
      refine ⟨.refl _, fun hi =>
        ⟨hi.candidates, hi.accepted, fun e' he' => ?_, hi.last, hi.created⟩⟩
      have hlookup : (s.mLatestNominations.insert e.statement.nodeID e).lookup me = some e' := he'
      by_cases hnode : me = e.statement.nodeID
      · rw [← hnode, AList.lookup_insert] at hlookup
        cases hlookup
        exact he hnode.symm
      · rw [AList.lookup_insert_ne hnode] at hlookup
        exact hi.own e' hlookup
    unfold Keeps processEnvelope onlyIf
    simp only [wp_bind, wp_ite, wp_pure]
    refine ⟨fun hold => ⟨.refl s, fun hnew => ?_⟩, fun _ =>
      ⟨fun hinsane => ⟨.refl s, fun _ hsane => ?_⟩,
        fun _ => ⟨fun _ => ?_, fun _ => ⟨hrecord, fun _ _ => trivial⟩⟩⟩⟩
    · simp [hnew] at hold
    · simp [hsane] at hinsane
    · exact (wp_advance hme ih (hrecord.inv hs) e.statement).mono
        (fun _ _ h => ⟨hrecord.trans h.1, fun _ _ => trivial⟩) fun _ _ h => ⟨h.1, hrecord.trans h.2⟩

theorem wp_updateRoundLeaders (s : State) :
    wp (updateRoundLeaders env) (fun _ s' => Growth me false s s')
      (fun e s' => e = .dbgAbort ∧ s' = s) s := by
  unfold updateRoundLeaders assertPreviousValue
  simp only [wp_bind, wp_ite, wp_modify]
  exact ⟨fun _ => ⟨rfl, rfl⟩, fun _ => .quiet rfl rfl rfl fun _ _ => id⟩

theorem wp_nominate (hme : env.localNode.mNodeID = me) (hs : Inv me s)
    (value previousValue : Value) (timedout : Bool) :
    Keeps me (nominate env value previousValue timedout) (fun _ => True) s := by
  -- from the round leaders on
  have hvotes : ∀ s₁, Growth me false s s₁ → ∀ leads : Bool, wp (do
        onlyIf leads <| modify (·.vote value)
        let r ← takeLeaderVotes env s₁.mRoundLeaders (if leads then value else [])
          (leads && !decide (value ∈ s₁.mVotes))
        record (.nominatingValue r.1)
        onlyIf r.2 <| emitNomination env (processEnvelope env env.stack)
        pure r.2) (fun _ s' => Step me s s' ∧ True)
        (fun e s' => e ≠ .movedToABadState ∧ Step me s s') s₁ := by
    intro s₁ h₁ leads
    have hown : Growth me (leads && !decide (value ∈ s₁.mVotes)) s
        (if leads then s₁.vote value else s₁) := by
      cases leads with
      | true => exact h₁.trans (.vote s₁ value fun h => by simpa using h)
      | false => exact h₁
    refine wp.bind (Q := fun _ s₂ => s₂ = if leads then s₁.vote value else s₁) ?_
      fun _ s₂ hs₂ => ?_
    · cases leads <;> rfl
    · subst hs₂
      simp only [wp_bind]
      refine (wp_takeLeaderVotes _ _ _ _).mono (fun r s₃ hvotes => ?_)
        fun _ _ h => ⟨h.1 ▸ Halt.noConfusion, hown.step.trans h.2⟩
      obtain ⟨grew, hr, h₃⟩ := hvotes
      have hnote : Growth me false s₃ (s₃.note (.nominatingValue r.1)) :=
        .note s₃ fun _ _ h => Event.noConfusion h
      have hgrowth := (hown.trans h₃).trans hnote
      rw [← hr] at hgrowth
      unfold onlyIf
      simp only [wp_ite]
      refine ⟨fun hupdated => ?_, fun _ => ⟨hgrowth.step, trivial⟩⟩
      rw [hupdated] at hgrowth
      have hpos := (Nat.zero_le _).trans_lt (hgrowth.size rfl)
      exact (wp_emitNomination hme (processes_processEnvelope hme _) (hgrowth.step.inv hs)
        (hgrowth.fresh hs) hpos).mono (fun _ _ h => ⟨hgrowth.step.trans h.1, trivial⟩)
        fun _ _ h => ⟨h.1, hgrowth.step.trans h.2⟩
  unfold Keeps nominate
  rw [wp_bind, wp_get, wp_ite]
  refine ⟨fun _ => ⟨.refl s, trivial⟩, fun _ => ?_⟩
  rw [wp_bind, wp_modify, wp_bind]
  have hstart : Growth me false s { s with
    mNominationStarted := true
    mPreviousValue := previousValue
    mRoundNumber := s.mRoundNumber + 1 } := .quiet rfl rfl rfl fun _ _ => id
  refine (wp_updateRoundLeaders _).mono (fun _ s₁ (h₁ : Growth me false _ s₁) => ?_)
    fun _ _ h => ⟨h.1 ▸ Halt.noConfusion, h.2 ▸ hstart.step⟩
  rw [wp_bind]
  exact hvotes s₁ (hstart.trans h₁) _

end Emit

/-! ## Whole runs -/

/-- A statement in the node's own name is one that it made. -/
def Call.Genuine (me : NodeID) (s : State) : Call → Prop
  | .processEnvelope e => e.statement.nodeID = me → ∃ last, .created e.statement last ∈ s.log
  | _ => True

/-- The calls of a node `me` whose name nobody else uses -/
def Genuine (me : NodeID) : List (Env × Call) → State → Prop
  | [], _ => True
  | c :: calls, s =>
    c.1.localNode.mNodeID = me ∧ c.2.Genuine me s ∧ Genuine me calls (c.2.after c.1 s)

variable {me : NodeID}

theorem keeps_call {env : Env} {c : Call}
    (hme : env.localNode.mNodeID = me) (hs : Inv me s) (hc : c.Genuine me s) :
    Keeps me (c.run env) (fun _ => True) s := by
  cases c with
  | processEnvelope e =>
    have hown : e.statement.nodeID = me → Within s.sets e.statement.nominate := by
      intro hnode
      obtain ⟨last, hcreated⟩ := hc hnode
      exact (hs.created _ last hcreated).within
    unfold Keeps Call.run
    exact (processes_processEnvelope hme env.stack e s hs hown).bind
      fun _ _ h => ⟨h.1, trivial⟩
  | nominate value previousValue timedout =>
    unfold Keeps Call.run
    exact (wp_nominate hme hs value previousValue timedout).bind fun _ _ h => h
  | stopNomination =>
    have hstop : Growth me false s { s with mNominationStarted := false } :=
      .quiet rfl rfl rfl fun _ _ => id
    exact ⟨hstop.step, trivial⟩

theorem step_after {env : Env} {c : Call}
    (h : Keeps me (c.run env) (fun _ => True) s) : Step me s (c.after env s) := by
  unfold Keeps wp at h
  unfold Call.after
  split at h <;> simp_all

theorem Genuine.append {pre post : List (Env × Call)}
    (h : Genuine me (pre ++ post) s) : Genuine me pre s ∧ Genuine me post (runCalls pre s) := by
  induction pre generalizing s with
  | nil => exact ⟨trivial, h⟩
  | cons c pre ih =>
    obtain ⟨hpre, hpost⟩ := ih h.2.2
    exact ⟨⟨h.1, h.2.1, hpre⟩, hpost⟩

theorem step_runCalls {calls : List (Env × Call)}
    (hs : Inv me s) (h : Genuine me calls s) : Step me s (runCalls calls s) := by
  induction calls generalizing s with
  | nil => exact .refl s
  | cons c calls ih =>
    have hstep := step_after (keeps_call h.1 hs h.2.1)
    exact hstep.trans (ih (hstep.inv hs) h.2.2)

theorem inv_init (me : NodeID) : Inv me State.init where
  candidates := StdSet.subset_refl _
  accepted := StdSet.subset_refl _
  own _ h := absurd h (Option.some_ne_none _).symm
  last _ h := absurd h (Option.some_ne_none _).symm
  created _ _ h := absurd h not_mem_nil

/-- In a run of the nomination protocol in which nobody else uses the node's name: the three sets
only grow, candidates are accepted and accepted values are voted for; every statement the node
creates is sane, and newer than the last one it emitted; and `emitNomination` never throws. -/
theorem nomination_grows (me : NodeID) (calls : List (Env × Call))
    (hcalls : Genuine me calls State.init) :
    let s := runCalls calls State.init
    (s.mCandidates ⊆ s.mAccepted ∧ s.mAccepted ⊆ s.mVotes) ∧
    (∀ pre post, calls = pre ++ post → Grows (runCalls pre State.init).sets s.sets) ∧
    (∀ st last, .created st last ∈ s.log → isSane st.nominate = true ∧
      ∀ e, last = some e → isNewerStatement e.statement.nominate st.nominate = true) ∧
    (∀ pre c post, calls = pre ++ c :: post → ∀ e s',
      c.2.run c.1 (runCalls pre State.init) = .error e s' → e ≠ .movedToABadState) := by
  intro s
  have hs : Inv me s := (step_runCalls (inv_init me) hcalls).inv (inv_init me)
  have hinv : ∀ pre, Genuine me pre State.init → Inv me (runCalls pre State.init) :=
    fun pre hpre => (step_runCalls (inv_init me) hpre).inv (inv_init me)
  refine ⟨⟨hs.candidates, hs.accepted⟩, fun pre post hsplit => ?_,
    fun st last h => ⟨(hs.created st last h).sane, (hs.created st last h).newer⟩,
    fun pre c post hsplit e s' hrun => ?_⟩
  · rw [hsplit] at hcalls
    obtain ⟨hpre, hpost⟩ := hcalls.append
    have hrun : s = runCalls post (runCalls pre State.init) := by
      show runCalls calls State.init = _
      rw [hsplit]
      exact foldl_append
    rw [hrun]
    exact (step_runCalls (hinv pre hpre) hpost).grows
  · rw [hsplit] at hcalls
    obtain ⟨hpre, hme, hc, -⟩ := hcalls.append
    have hkeeps := keeps_call hme (hinv pre hpre) hc
    unfold Keeps wp at hkeeps
    rw [hrun] at hkeeps
    exact hkeeps.1

/-- Node 1, which needs node 2 and leads every round; its driver rejects one value. -/
def twoOfTwoEnv : Env where
  localNode := ⟨1, true, .mk 2 [1, 2] [], 7⟩
  slotIndex := 1
  ndebug := false
  stack := 10
  isFullyValidated := true
  getQSet h := if h = 7 then some (.mk 2 [1, 2] []) else none
  validateValue v := if v = [9] then .invalidValue else .fullyValidatedValue
  extractValidValue _ := []
  computeValueHash _ _ _ := 0
  newRoundLeaders _ _ := [1]
  combineCandidates x := x.elems.flatten
  signEnvelope _ := []
  bumpState _ := .returned

def nominates (n : NodeID) (votes accepted : List Value) : Env × Call :=
  (twoOfTwoEnv, .processEnvelope ⟨⟨n, 1, ⟨7, votes, accepted⟩⟩, []⟩)

/-- Node 2 accepts the value that node 1 nominates: it becomes a candidate. -/
theorem nomination_grows_candidate :
    let start : Env × Call := (twoOfTwoEnv, .nominate [1] [9] false)
    let s := runCalls [start, nominates 2 [[1]] [[1]]] State.init
    s.mCandidates.elems = [[1]] ∧ s.mCandidates ⊆ s.mAccepted := by
  have hgenuine : Genuine 1 [(twoOfTwoEnv, .nominate [1] [9] false), nominates 2 [[1]] [[1]]]
      State.init :=
    ⟨rfl, trivial, rfl, fun h => absurd h (by decide), trivial⟩
  exact ⟨by decide +kernel, (nomination_grows 1 _ hgenuine).1.1⟩

/-- A statement in the name of node 1 that it did not make: what node 1 then nominates is not
newer, and `emitNomination` throws. -/
theorem nominate_after_foreign_statement :
    let s := runCalls [nominates 1 [[9]] []] State.init
    ∃ s', (Call.nominate [1] [9] false).run twoOfTwoEnv s = .error .movedToABadState s' := by
  intro s
  exact error_of_halt (by decide +kernel)

end EssaCore.Scp.Nomination
