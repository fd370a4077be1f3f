import EssaCore.Scp.BallotRules

/-!
# Externalization is final

Once the ballot protocol of a slot is in `EXTERNALIZE`, nothing moves it: not
the calls that follow, and not the nested `advanceSlot` frames that are still
open when the transition happens (`BallotProtocol.cpp:1424–1511`,
`1827–1883`).

- `Final s s'` — what a part of a call may do with respect to
  externalization; `final_rules` shows that every update stays within it;
- `externalize_final` — the theorem for whole runs.
-/

open List

namespace EssaCore.Scp

open EssaCore.Lib

/-! ## What a step may do -/

def Event.isValueExternalized : Event → Bool
  | .valueExternalized _ => true
  | _ => false

/-- How often `valueExternalized` was called. -/
def State.externalizedCount (s : State) : Nat :=
  s.log.countP Event.isValueExternalized

/-- The ballots of two states agree, and so do their phases. -/
def SameVotes (l : LocalState) (s : State) : Prop :=
  s.mPhase = l.mPhase ∧ s.mCommit = l.mCommit ∧
    s.mHighBallot = l.mHighBallot ∧ s.mCurrentBallot = l.mCurrentBallot

/-- Every statement created in `EXTERNALIZE` was created from the current
ballots. The first one is created right at the transition, while all the
`advanceSlot` calls that led to it are still open. -/
def SnapshotsAgree (s : State) : Prop :=
  ∀ l, .createStatement l ∈ s.log → l.mPhase = .externalize → SameVotes l s

structure Final (s s' : State) : Prop where
  log_suffix : s.log <:+ s'.log
  kept : s.mPhase = .externalize →
    SameVotes s.localState s' ∧ s'.externalizedCount = s.externalizedCount
  once : s.mPhase ≠ .externalize →
    s'.externalizedCount ≤
      s.externalizedCount + if s'.mPhase = .externalize then 1 else 0
  snapshots : SnapshotsAgree s → SnapshotsAgree s'

namespace Final

theorem refl (s : State) : Final s s where
  log_suffix := suffix_rfl
  kept _ := ⟨⟨rfl, rfl, rfl, rfl⟩, rfl⟩
  once _ := Nat.le_add_right _ _
  snapshots h := h

theorem trans {s₁ s₂ s₃ : State} (h₁ : Final s₁ s₂) (h₂ : Final s₂ s₃) : Final s₁ s₃ where
  log_suffix := h₁.log_suffix.trans h₂.log_suffix
  kept hp := by
    obtain ⟨⟨hp₂, hc₂, hh₂, hb₂⟩, hn₂⟩ := h₁.kept hp
    have hext : s₂.mPhase = .externalize := hp₂.trans hp
    obtain ⟨⟨hp₃, hc₃, hh₃, hb₃⟩, hn₃⟩ := h₂.kept hext
    exact ⟨⟨hp₃.trans hp₂, hc₃.trans hc₂, hh₃.trans hh₂, hb₃.trans hb₂⟩, hn₃.trans hn₂⟩
  once hp := by
    have hle := h₁.once hp
    by_cases hext : s₂.mPhase = .externalize
    · obtain ⟨⟨hp₃, _⟩, hn₃⟩ := h₂.kept hext
      rw [hn₃, show s₃.mPhase = .externalize from hp₃.trans hext]
      rwa [if_pos hext] at hle
    · have hle₂ := h₂.once hext
      rw [if_neg hext] at hle
      omega
  snapshots h := h₂.snapshots (h₁.snapshots h)

/-- An update that calls back neither `valueExternalized` nor
`createStatement`; in `EXTERNALIZE` it also keeps the ballots. -/
theorem of_quiet {s s' : State} (new : List Event) (hlog : s'.log = new ++ s.log)
    (hnew : ∀ ev ∈ new, ev.isValueExternalized = false ∧ ∀ l, ev ≠ .createStatement l)
    (hkept : s.mPhase = .externalize → SameVotes s.localState s') :
    Final s s' := by
  have hcount : s'.externalizedCount = s.externalizedCount := by
    unfold State.externalizedCount
    rw [hlog, countP_append, countP_eq_zero.2 fun ev hev => by simp [(hnew ev hev).1],
      Nat.zero_add]
  refine ⟨⟨new, hlog.symm⟩, fun hp => ⟨hkept hp, hcount⟩, fun _ => ?_, fun h l hl hext => ?_⟩
  · rw [hcount]
    exact Nat.le_add_right _ _
  · rw [hlog] at hl
    rcases mem_append.1 hl with hl | hl
    · exact absurd rfl ((hnew _ hl).2 l)
    · obtain ⟨hp, hc, hh, hb⟩ := h l hl hext
      obtain ⟨hp', hc', hh', hb'⟩ := hkept (hp.trans hext)
      exact ⟨hp'.trans hp, hc'.trans hc, hh'.trans hh, hb'.trans hb⟩

/-- Updates that leave the log alone. -/
theorem of_silent {s s' : State} (hlog : s'.log = s.log)
    (hkept : s.mPhase = .externalize → SameVotes s.localState s') :
    Final s s' :=
  of_quiet [] hlog (fun _ hev => absurd hev not_mem_nil) hkept

/-- Updates with one log entry. -/
theorem of_event {s s' : State} {ev : Event} (hlog : s'.log = ev :: s.log)
    (hev : ev.isValueExternalized = false) (hev' : ∀ l, ev ≠ .createStatement l)
    (hkept : s.mPhase = .externalize → SameVotes s.localState s') :
    Final s s' :=
  of_quiet [ev] hlog (fun ev' h => by obtain rfl := mem_singleton.1 h; exact ⟨hev, hev'⟩) hkept

end Final

/-- **Every update of the ballot protocol respects `Final`.** -/
theorem final_rules (env : Env) : Rules env (fun _ => True) (fun _ => True) Final where
  refl := Final.refl
  trans _ _ _ := Final.trans
  log_suffix _ _ h := h.log_suffix
  note s ev hev := by
    refine .of_event rfl ?_ ?_ fun _ => ⟨rfl, rfl, rfl, rfl⟩
    · cases ev <;> simp_all [Event.isNote, Event.isValueExternalized]
    · rintro l rfl
      exact Bool.noConfusion hev
  level _ _ := .of_silent rfl fun _ => ⟨rfl, rfl, rfl, rfl⟩
  didHear _ _ _ _ _ :=
    .of_event rfl rfl (fun _ h => Event.noConfusion h) fun _ => ⟨rfl, rfl, rfl, rfl⟩
  notHeard _ _ _ _ := .of_silent rfl fun _ => ⟨rfl, rfl, rfl, rfl⟩
  fullyValidated _ := .of_silent rfl fun _ => ⟨rfl, rfl, rfl, rfl⟩
  latest _ _ _ _ := .of_silent rfl fun _ => ⟨rfl, rfl, rfl, rfl⟩
  createStatement s := by
    refine ⟨suffix_cons _ _, fun _ => ⟨⟨rfl, rfl, rfl, rfl⟩, rfl⟩,
      fun _ => Nat.le_add_right _ _, fun h l hl hext => ?_⟩
    rcases mem_cons.1 hl with hl | hl
    · -- the new snapshot is the current state
      obtain rfl := Event.createStatement.inj hl
      exact ⟨rfl, rfl, rfl, rfl⟩
    · exact h l hl hext
  created _ _ _ :=
    .of_event rfl rfl (fun _ h => Event.noConfusion h) fun _ => ⟨rfl, rfl, rfl, rfl⟩
  lastEnvelope _ _ _ _ _ hcreated h :=
    (hcreated.trans h).trans (.of_silent rfl fun _ => ⟨rfl, rfl, rfl, rfl⟩)
  emit _ _ _ :=
    .of_event rfl rfl (fun _ h => Event.noConfusion h) fun _ => ⟨rfl, rfl, rfl, rfl⟩
  prepared _ _ _ _ := .of_silent rfl fun _ => ⟨rfl, rfl, rfl, rfl⟩
  clearCommit _ hp _ := .of_silent rfl fun h => absurd h hp
  confirmPrepared _ _ hp :=
    .of_event rfl rfl (fun _ h => Event.noConfusion h) fun h => by simp [hp] at h
  highBallot _ _ hp _ := .of_silent rfl fun h => by simp [hp] at h
  commit _ _ hp _ := .of_silent rfl fun h => by simp [hp] at h
  bump s b hreason := by
    have hp : s.mPhase ≠ .externalize := by
      cases hreason with
      | override hp => exact hp
      | high hp => simp [hp]
      | value hp => exact hp
    refine .of_quiet (s.bumpNotes b ++ [.bumpToBallot b]) ?_ (fun ev hev => ?_) fun h => absurd h hp
    · rw [State.bump_log, append_assoc]
      rfl
    · rcases mem_append.1 hev with hev | hev
      · rcases State.mem_bumpNotes hev with rfl | rfl
        · exact ⟨rfl, fun _ h => Event.noConfusion h⟩
        · exact ⟨rfl, fun _ h => Event.noConfusion h⟩
      · obtain rfl := mem_singleton.1 hev
        exact ⟨rfl, fun _ h => Event.noConfusion h⟩
  enterConfirm s c h hp _ := by
    obtain ⟨new, hlog, hnew⟩ := (s.acceptedCommit c h).enteredConfirm_log h
    refine .of_quiet (new ++ [.setAcceptCommit c h]) ?_ (fun ev hev => ?_)
      fun h => by simp [hp] at h
    · rw [hlog, append_assoc]
      rfl
    · rcases mem_append.1 hev with hev | hev
      · rcases hnew ev hev with rfl | rfl | rfl
        · exact ⟨rfl, fun _ h => Event.noConfusion h⟩
        · exact ⟨rfl, fun _ h => Event.noConfusion h⟩
        · exact ⟨rfl, fun _ h => Event.noConfusion h⟩
      · obtain rfl := mem_singleton.1 hev
        exact ⟨rfl, fun _ h => Event.noConfusion h⟩
  acceptCommit _ _ _ _ hp _ _ _ :=
    .of_event rfl rfl (fun _ h => Event.noConfusion h) fun h => by simp [hp] at h
  confirmCommit _ _ _ _ hp _ _ _ :=
    .of_event rfl rfl (fun _ h => Event.noConfusion h) fun h => by simp [hp] at h
  externalize _ _ _ hp _ _ _ _ := .of_silent rfl fun h => by simp [hp] at h
  valueExternalized s s' v hp hext h := by
    obtain ⟨⟨hphase, _⟩, hcount⟩ := h.kept rfl
    have hphase' : s'.mPhase = .externalize := hphase
    refine ⟨(hext.trans h).log_suffix.trans (suffix_cons _ _),
      fun hs => by simp [hp] at hs, fun _ => ?_, fun hsnap l hl hl' => ?_⟩
    · -- the only call back since the state was in `CONFIRM`
      have hc : (s'.note (.valueExternalized v)).externalizedCount = s'.externalizedCount + 1 :=
        countP_cons_of_pos rfl
      have hs : (s.withPhase .externalize).externalizedCount =
          s.externalizedCount := rfl
      rw [hc, hcount, hs, show (s'.note (.valueExternalized v)).mPhase =
        .externalize from hphase', if_pos rfl]
    · rcases mem_cons.1 hl with hl | hl
      · exact Event.noConfusion hl
      · exact h.snapshots (hext.snapshots hsnap) l hl hl'

/-! ## Whole runs -/

/-- **Externalization is final.** In every run of calls, in any surroundings:
once the phase is `EXTERNALIZE`, the phase, `c`, `h` and `b` stay as they are;
every statement created in that phase, the first of them at the transition
itself, was created from these very ballots; and `valueExternalized` is called
at most once. -/
theorem externalize_final (isValidator : Bool) (pre post : List (Env × Call)) :
    let s := runCalls pre (State.init isValidator)
    let s' := runCalls post s
    (s.mPhase = .externalize → SameVotes s.localState s') ∧
    (∀ l, .createStatement l ∈ s'.log → l.mPhase = .externalize → SameVotes l s') ∧
    s'.externalizedCount ≤ 1 := by
  intro s s'
  have hpre : Final (State.init isValidator) s :=
    Rules.runCalls final_rules Final.refl pre _
  have hpost : Final s s' := Rules.runCalls final_rules Final.refl post _
  have hrun := hpre.trans hpost
  refine ⟨fun hp => (hpost.kept hp).1, ?_, ?_⟩
  · exact hrun.snapshots fun l hl => absurd hl not_mem_nil
  · have hle := hrun.once (by simp [State.init])
    have hzero : (State.init isValidator).externalizedCount = 0 := rfl
    split at hle <;> omega

end EssaCore.Scp
