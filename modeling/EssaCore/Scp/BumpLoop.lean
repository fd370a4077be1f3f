import EssaCore.Scp.BallotRules

/-!
# The bump loop ends

`advanceSlot` ends with `do { didBump = attemptBump(); } while (didBump)`
(`BallotProtocol.cpp:1861–1867`), which the model runs for at most `bumpRounds`
rounds. No call ever uses them up: phase and ballot counter together only climb
(`climbs_rules`), each successful bump raises them, and there are fewer than
`bumpRounds` values for them.

- `State.progress` — the measure;
- `call_haltsIn` — no call halts for want of rounds.
-/

open List

namespace EssaCore.Scp

open EssaCore.Lib

/-! ## The measure -/

/-- The order of the phases. -/
def SCPPhase.rank : SCPPhase → Nat
  | .prepare => 0
  | .confirm => 1
  | .externalize => 2

/-- Phase first, then the counter of the current ballot. -/
def State.progress (s : State) : Nat :=
  s.mPhase.rank * 2 ^ 32 + (s.mCurrentBallot.map (·.counter.toNat)).getD 0

theorem State.counter_lt (s : State) :
    (s.mCurrentBallot.map (·.counter.toNat)).getD 0 < 2 ^ 32 := by
  cases s.mCurrentBallot with
  | none => exact Nat.two_pow_pos 32
  | some b => exact b.counter.toNat_lt

theorem State.progress_lt (s : State) : s.progress < bumpRounds := by
  have hrank : s.mPhase.rank ≤ 2 := by cases s.mPhase <;> decide
  have hcounter := s.counter_lt
  unfold State.progress bumpRounds
  omega

variable {s : State}

/-- A bump to a higher ballot. -/
theorem State.progress_bump {b : SCPBallot} (h : Below s b) :
    s.progress ≤ (s.bump b).progress := by
  have hphase : (s.bump b).mPhase = s.mPhase := rfl
  unfold State.progress
  rw [hphase]
  refine Nat.add_le_add_left ?_ _
  cases hs : s.mCurrentBallot with
  | none => exact Nat.zero_le _
  | some cur => exact UInt32.le_iff_toNat_le.1 (SCPBallot.counter_le_of_le (h cur hs).le)

theorem State.progress_lt_bump {n : UInt32} {v : Value}
    (h : (s.mCurrentBallot.map (·.counter)).getD 0 < n) :
    s.progress < (s.bump ⟨n, v⟩).progress := by
  have hphase : (s.bump ⟨n, v⟩).mPhase = s.mPhase := rfl
  unfold State.progress
  rw [hphase]
  refine Nat.add_lt_add_left ?_ _
  cases hs : s.mCurrentBallot with
  | none =>
    rw [hs] at h
    exact UInt32.lt_iff_toNat_lt.1 h
  | some cur =>
    rw [hs] at h
    exact UInt32.lt_iff_toNat_lt.1 h

/-- A later phase is progress, wherever the ballot goes. -/
theorem State.progress_phase {s' : State} (h : s.mPhase.rank < s'.mPhase.rank) :
    s.progress ≤ s'.progress := by
  have hcounter := s.counter_lt
  unfold State.progress
  omega

/-- The log grows and the protocol does not fall back. -/
def Climbs (s s' : State) : Prop :=
  s.log <:+ s'.log ∧ s.progress ≤ s'.progress

theorem climbs_rules (env : Env) : Rules env (fun _ => True) (fun _ => True) Climbs where
  refl _ := ⟨suffix_rfl, le_rfl⟩
  trans _ _ _ h h' := ⟨h.1.trans h'.1, h.2.trans h'.2⟩
  log_suffix _ _ h := h.1
  note _ _ _ := ⟨suffix_cons _ _, le_rfl⟩
  level _ _ := ⟨suffix_rfl, le_rfl⟩
  didHear _ _ _ _ _ := ⟨suffix_cons _ _, le_rfl⟩
  notHeard _ _ _ _ := ⟨suffix_rfl, le_rfl⟩
  fullyValidated _ := ⟨suffix_rfl, le_rfl⟩
  latest _ _ _ _ := ⟨suffix_rfl, le_rfl⟩
  createStatement _ := ⟨suffix_cons _ _, le_rfl⟩
  created _ _ _ := ⟨suffix_cons _ _, le_rfl⟩
  lastEnvelope _ _ _ _ _ hcreated h := ⟨hcreated.1.trans h.1, hcreated.2.trans h.2⟩
  emit _ _ _ := ⟨suffix_cons _ _, le_rfl⟩
  prepared _ _ _ _ := ⟨suffix_rfl, le_rfl⟩
  clearCommit _ _ _ := ⟨suffix_rfl, le_rfl⟩
  confirmPrepared _ _ _ := ⟨suffix_cons _ _, le_rfl⟩
  highBallot _ _ _ _ := ⟨suffix_rfl, le_rfl⟩
  commit _ _ _ _ := ⟨suffix_rfl, le_rfl⟩
  bump s b hreason := by
    refine ⟨?_, State.progress_bump ?_⟩
    · rw [State.bump_log]
      exact (suffix_cons _ _).trans (suffix_append _ _)
    cases hreason with
    | override _ _ hbelow => exact hbelow
    | high _ _ hbelow => exact hbelow
    | value _ _ _ _ hbelow => exact hbelow
  enterConfirm s c h hp hv := by
    obtain ⟨_, hlog, _⟩ := (s.acceptedCommit c h).enteredConfirm_log h
    refine ⟨?_, State.progress_phase ?_⟩
    · rw [hlog]
      exact (suffix_cons _ _).trans (suffix_append _ _)
    rw [hp, State.enteredConfirm_mPhase]
    decide
  acceptCommit _ _ _ _ _ _ _ _ := ⟨suffix_cons _ _, le_rfl⟩
  confirmCommit _ _ _ _ _ _ _ _ := ⟨suffix_cons _ _, le_rfl⟩
  externalize s c h hp _ _ _ _ := by
    refine ⟨suffix_rfl, State.progress_phase ?_⟩
    rw [hp]
    exact Nat.lt_succ_self 1
  valueExternalized _ _ _ _ h h' :=
    ⟨(h.1.trans h'.1).trans (suffix_cons _ _), h.2.trans h'.2⟩

/-! ## The loop -/

section Loop

variable {env : Env} {adv : SCPStatement → M Unit}

theorem ne_bumpLoop_of_isCommon {e : Halt} (h : e.isCommon = true) : e ≠ .bumpLoop := by
  rintro rfl
  cases h

variable (hadv : ∀ st, Respects (· ≠ .bumpLoop) Climbs (adv st))

include hadv

/-- A bump that is reported is progress. -/
theorem wp_bumpStateTo_progress (v : Value) (n : UInt32) : wp (bumpStateTo env adv v n)
      (fun r s' => r = true → s.localCounter < n → s.progress < s'.progress)
      (fun _ _ => True) s := by
  have H := climbs_rules env
  have hcheck : ∀ (s₀ : State) (Q : Unit → State → Prop), Q () s₀ →
      wp (checkInvariants env) Q (fun _ _ => True) s₀ :=
    fun s₀ Q hQ => readOnly_checkInvariants.wp (fun _ => hQ) fun _ _ => trivial
  unfold bumpStateTo
  simp only [wp_bind, wp_ite, wp_onlyIf]
  refine ⟨fun _ h => (by cases h), fun hphase => ?_⟩
  refine wp_updateCurrentValue (fun h => hphase (by simp [h])) (fun _ _ => ?_)
    (hcheck s _ ⟨fun h => (by cases h), fun _ h => (by cases h)⟩)
    ⟨fun h => (by cases h), fun _ h => (by cases h)⟩ fun _ => trivial
  refine hcheck _ _ ⟨fun _ => ?_, fun h => (by cases h)⟩
  refine (H.respects_emitCurrentStateStatement (fun _ => ne_bumpLoop_of_isCommon) hadv _).mono
    (fun _ s₁ h₁ => ?_) fun _ _ _ => trivial
  refine (H.respects_checkHeardFromQuorum (fun _ => ne_bumpLoop_of_isCommon) _).mono
    (fun _ s₂ h₂ _ hlt => ?_) fun _ _ _ => trivial
  exact (State.progress_lt_bump hlt).trans_le (h₁.2.trans h₂.2)

theorem wp_attemptBump_progress (s : State) :
    wp (attemptBump env adv) (fun r s' => r = true → s.progress < s'.progress)
      (fun _ _ => True) s := by
  unfold attemptBump
  simp only [wp_bind, wp_ite]
  refine ⟨fun _ h => (by cases h), fun _ => ⟨fun _ h => (by cases h), fun _ => ?_⟩⟩
  split
  · rename_i n hn
    have hlt : s.localCounter < n := lt_of_bumpCounter hn
    have hne : n ≠ 0 := by
      rintro rfl
      exact absurd hlt (not_lt.2 (UInt32.le_iff_toNat_le.2 (Nat.zero_le _)))
    unfold abandonBallot
    simp only [wp_bind, wp_ite]
    refine ⟨fun _ h => (by cases h), fun _ => ⟨fun h => absurd h hne, fun _ => ?_⟩⟩
    exact (wp_bumpStateTo_progress hadv _ n).imp fun r s' h hr => h hr hlt
  · exact fun h => (by cases h)

/-- Enough rounds for the progress that is left are enough. -/
theorem stays_attemptBumpLoop (rounds : Nat) (s : State) (h : bumpRounds ≤ s.progress + rounds) :
    Rules.Stays (· ≠ .bumpLoop) Climbs s s (attemptBumpLoop env adv rounds) := by
  have H := climbs_rules env
  induction rounds generalizing s with
  | zero =>
    have hlt := s.progress_lt
    omega
  | succ rounds ih =>
    unfold Rules.Stays attemptBumpLoop
    rw [wp_bind]
    refine ((H.respects_attemptBump (fun _ => ne_bumpLoop_of_isCommon) hadv
      (fun _ => trivial) s).and (wp_attemptBump_progress hadv s)).mono
      (fun r s' ⟨hclimbs, hs'⟩ => ?_) fun _ _ h => h.1
    rw [wp_ite, wp_bind]
    refine ⟨fun hr => ?_, fun _ => hclimbs⟩
    have hlt := hs' hr
    exact (ih s' (by omega)).mono (fun _ _ h => H.trans _ _ _ hclimbs h)
      fun _ _ h => ⟨h.1, H.trans _ _ _ hclimbs h.2⟩

end Loop

/-- **No call halts for want of rounds**: the loop of `attemptBump` ends. -/
theorem call_haltsIn (env : Env) (c : Call) : HaltsIn (· ≠ Halt.bumpLoop) (c.run env) := by
  intro s
  have hstays := (climbs_rules env).stays_call (s := s) (fun _ => ne_bumpLoop_of_isCommon)
    Halt.noConfusion (fun adv hadv s => stays_attemptBumpLoop hadv _ s (Nat.le_add_left _ _))
    (fun _ => trivial) c (fun _ _ => trivial) (fun _ _ _ => trivial) fun _ => Halt.noConfusion
  exact hstays.mono (fun _ _ _ => trivial) fun _ _ h => h.1

end EssaCore.Scp
