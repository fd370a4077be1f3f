import EssaCore.Catchup.LedgerManager

/-!
# The calls of the ledger manager keep its invariant

The two state variables of the ledger manager determine what its buffer, the
catchup work and the posted callbacks can be. This module states that as an
invariant and proves, for each member function, that a call from a state of the
invariant fails no `assert` and ends in one, also if it throws.

- `Phase` — what the two state variables say about the rest of the state;
- `Inv` — the phase, a contiguous buffer and consecutive moves;
- `Safe` — a call that keeps the invariant and fails no `assert`.
-/

open List

namespace EssaCore.Catchup

open Lib

variable {Hash : Type}

/-! ## Specifications -/

/-- The last closed ledger went from `first` to the given one by closing the
next ledger, on the data for it, or by applying buckets. The moves are listed
from the newest. -/
inductive Consecutive (first : UInt32) : UInt32 → List LedgerMove → Prop where
  | start : Consecutive first first []
  | closed {n : UInt32} {moves : List LedgerMove} (h : Consecutive first n moves) :
      Consecutive first (n + 1) (.closed (n + 1) :: moves)
  | appliedBuckets {n m : UInt32} {moves : List LedgerMove}
      (h : Consecutive first n moves) (hnm : n ≤ m) :
      Consecutive first m (.appliedBuckets m :: moves)

namespace LedgerManagerImpl

/-- A node that was just started, or that is in sync. -/
structure Started (lm : LedgerManagerImpl Hash) : Prop where
  state : lm.mState ≠ .LM_CATCHING_UP_STATE
  catchupState : lm.mCatchupState = .NONE
  syncing : lm.mSyncingLedgers = []
  work : lm.mCatchupWork = none
  posted : lm.mPosted = 0
  closed : lm.mClosed = []

/-- The first buffered ledger, if there is one, is the next to be closed. -/
def Joined (lm : LedgerManagerImpl Hash) : Prop :=
  ∀ front ∈ lm.mSyncingLedgers.head?,
    front.ledgerSeq = lm.mLastClosedLedger.header.ledgerSeq + 1

end LedgerManagerImpl

/-! ## The invariant -/

/-- The network has left this node behind by more than one ledger. -/
def Ahead (lcl seq : UInt32) : Prop := lcl + 1 ≠ seq ∧ ¬ seq ≤ lcl

variable {seq : UInt32}

/-- A ledger that is ahead has a predecessor that catchup can go to. -/
theorem Ahead.pred {lcl : UInt32} (h : Ahead lcl seq) :
    seq - 1 ≠ CatchupConfiguration.CURRENT ∧ ¬ seq - 1 ≤ lcl ∧ seq - 1 + 1 = seq := by
  obtain ⟨hne, hlt⟩ := h
  have hs := seq.toNat_lt
  have hlt' : lcl.toNat < seq.toNat := by
    rw [UInt32.le_iff_toNat_le] at hlt
    omega
  have hne' : lcl.toNat + 1 ≠ seq.toNat := by
    intro heq
    apply hne
    rw [← UInt32.toNat_inj, UInt32.toNat_add, UInt32.toNat_one]
    omega
  have hsub : (seq - 1).toNat = seq.toNat - 1 := by
    rw [UInt32.toNat_sub, UInt32.toNat_one]
    omega
  refine ⟨?_, ?_, by simp⟩
  · intro h0
    have h0' := congrArg UInt32.toNat h0
    rw [CatchupConfiguration.CURRENT, UInt32.toNat_zero] at h0'
    omega
  · rw [UInt32.le_iff_toNat_le]
    omega

/-- What holds of the catchup work while it is running. -/
structure WorkInv (lm : LedgerManagerImpl Hash) (w : CatchupWork Hash) :
    Prop where
  lastApplied : ∀ e ∈ w.mLastApplied, e = lm.mLastClosedLedger
  /-- an automatic catchup goes to the ledger before the buffer -/
  target : w.mCatchupConfiguration.hash ≠ none →
    ∃ front rest, lm.mSyncingLedgers = front :: rest ∧
      w.mCatchupConfiguration.toLedger ≠ CatchupConfiguration.CURRENT ∧
      w.mCatchupConfiguration.toLedger + 1 = front.ledgerSeq

/-- What the two state variables say about the rest. -/
inductive Phase (lm : LedgerManagerImpl Hash) : Prop where
  | idle (hs : lm.mState ≠ .LM_CATCHING_UP_STATE) (hc : lm.mCatchupState = .NONE)
      (hb : lm.mSyncingLedgers = []) (hw : lm.mCatchupWork = none)
      (hp : lm.mPosted = 0)
  | waitingForTrigger (hs : lm.mState = .LM_CATCHING_UP_STATE)
      (hc : lm.mCatchupState = .WAITING_FOR_TRIGGER_LEDGER)
      (front : LedgerCloseData Hash) (rest : List (LedgerCloseData Hash))
      (hb : lm.mSyncingLedgers = front :: rest)
      (ha : Ahead lm.mLastClosedLedger.header.ledgerSeq front.ledgerSeq)
      (hw : lm.mCatchupWork = none) (hp : lm.mPosted = 0)
  | applyingHistory (hs : lm.mState = .LM_CATCHING_UP_STATE)
      (hc : lm.mCatchupState = .APPLYING_HISTORY) (w : CatchupWork Hash)
      (hw : lm.mCatchupWork = some w) (hi : WorkInv lm w) (hp : lm.mPosted = 0)
  /-- without a callback if the last one has thrown -/
  | applyingBuffered (hs : lm.mState = .LM_CATCHING_UP_STATE)
      (hc : lm.mCatchupState = .APPLYING_BUFFERED_LEDGERS)
      (hw : lm.mCatchupWork = none)
      (hp : lm.mPosted = 0 ∨
        lm.mPosted = 1 ∧ lm.mSyncingLedgers ≠ [] ∧ lm.Joined)
  | waitingForClosing (hs : lm.mState = .LM_CATCHING_UP_STATE)
      (hc : lm.mCatchupState = .WAITING_FOR_CLOSING_LEDGER)
      (hb : lm.mSyncingLedgers = []) (hw : lm.mCatchupWork = none)
      (hp : lm.mPosted = 0)

variable {lm : LedgerManagerImpl Hash} {first : UInt32}

theorem Phase.of_not_catchingUp (h : Phase lm) (hs : lm.mState ≠ .LM_CATCHING_UP_STATE) :
    lm.mCatchupState = .NONE ∧ lm.mSyncingLedgers = [] ∧
      lm.mCatchupWork = none ∧ lm.mPosted = 0 := by
  cases h with
  | idle _ hc hb hw hp => exact ⟨hc, hb, hw, hp⟩
  | waitingForTrigger hs' => exact absurd hs' hs
  | applyingHistory hs' => exact absurd hs' hs
  | applyingBuffered hs' => exact absurd hs' hs
  | waitingForClosing hs' => exact absurd hs' hs

theorem Phase.of_posted (h : Phase lm) (hposted : lm.mPosted ≠ 0) :
    lm.mState = .LM_CATCHING_UP_STATE ∧
      lm.mCatchupState = .APPLYING_BUFFERED_LEDGERS ∧ lm.mCatchupWork = none ∧
      lm.mPosted = 1 ∧ lm.mSyncingLedgers ≠ [] ∧ lm.Joined := by
  cases h with
  | idle _ _ _ _ hp => exact absurd hp hposted
  | waitingForTrigger _ _ _ _ _ _ _ hp => exact absurd hp hposted
  | applyingHistory _ _ _ _ _ hp => exact absurd hp hposted
  | applyingBuffered hs hc hw hp => exact ⟨hs, hc, hw, hp.resolve_left hposted⟩
  | waitingForClosing _ _ _ _ hp => exact absurd hp hposted

theorem Phase.of_work {w : CatchupWork Hash} (h : Phase lm) (hwork : lm.mCatchupWork = some w) :
    lm.mState = .LM_CATCHING_UP_STATE ∧ lm.mCatchupState = .APPLYING_HISTORY ∧
      WorkInv lm w ∧ lm.mPosted = 0 := by
  cases h with
  | idle _ _ _ hw => exact nomatch hw.symm.trans hwork
  | waitingForTrigger _ _ _ _ _ _ hw => exact nomatch hw.symm.trans hwork
  | applyingHistory hs hc w' hw hi hp =>
    cases hw.symm.trans hwork
    exact ⟨hs, hc, hi, hp⟩
  | applyingBuffered _ _ hw => exact nomatch hw.symm.trans hwork
  | waitingForClosing _ _ _ hw => exact nomatch hw.symm.trans hwork

/-- The invariant of a run from the last closed ledger `first`. -/
structure Inv (first : UInt32) (lm : LedgerManagerImpl Hash) : Prop where
  phase : Phase lm
  contiguous :
    lm.mSyncingLedgers.IsChain (fun a b => a.ledgerSeq + 1 = b.ledgerSeq)
  consecutive :
    Consecutive first lm.mLastClosedLedger.header.ledgerSeq lm.mClosed

/-- How a call may stop: at an exception, with the invariant. -/
def Thrown (first : UInt32) : Halt → LedgerManagerImpl Hash → Prop
  | .assertion _, _ => False
  | .exception _, lm => Inv first lm

/-- A call that keeps the invariant and fails no `assert`. -/
abbrev Safe (first : UInt32) (x : LmM Hash PUnit) (lm : LedgerManagerImpl Hash) :
    Prop :=
  wp x (fun _ => Inv first) (Thrown first) lm

theorem LedgerManagerImpl.Started.inv
    (h : lm.Started) : Inv lm.mLastClosedLedger.header.ledgerSeq lm where
  phase := .idle h.state h.catchupState h.syncing h.work h.posted
  contiguous := by
    rw [h.syncing]
    exact .nil
  consecutive := by
    rw [h.closed]
    exact .start

/-! ## State changes -/

@[simp] theorem LedgerManagerImpl.setCatchupState_eq (s : CatchupState)
    (lm : LedgerManagerImpl Hash) :
    lm.setCatchupState s = { lm with mState := .LM_CATCHING_UP_STATE, mCatchupState := s } := by
  unfold setCatchupState setState
  by_cases h : State.LM_CATCHING_UP_STATE = lm.mState <;> simp [h]

@[simp] theorem LedgerManagerImpl.setState_mState (s : State)
    (lm : LedgerManagerImpl Hash) : (lm.setState s).mState = s := by
  unfold setState
  split
  · rfl
  · next h => exact (not_not.mp h).symm

/-- Leaving catchup, or not entering it, clears its state. -/
theorem LedgerManagerImpl.setState_eq {s : State} (hs : s ≠ .LM_CATCHING_UP_STATE)
    (h : lm.mState = .LM_CATCHING_UP_STATE ∨ lm.mCatchupState = .NONE) :
    lm.setState s = { lm with mState := s, mCatchupState := .NONE } := by
  unfold setState
  by_cases heq : s = lm.mState
  · have hc : lm.mCatchupState = .NONE := by
      rcases h with h | h
      · exact absurd (heq.trans h) hs
      · exact h
    simp [heq, ← hc]
  · simp [heq, hs]

/-- A node that stops catching up, or never was, with nothing buffered. -/
theorem Inv.setState {s : State} (hs : s ≠ .LM_CATCHING_UP_STATE)
    (h : lm.mState = .LM_CATCHING_UP_STATE ∨ lm.mCatchupState = .NONE)
    (hb : lm.mSyncingLedgers = []) (hw : lm.mCatchupWork = none)
    (hp : lm.mPosted = 0)
    (hl : Consecutive first lm.mLastClosedLedger.header.ledgerSeq lm.mClosed) :
    Inv first (lm.setState s) := by
  rw [LedgerManagerImpl.setState_eq hs h]
  refine ⟨.idle hs rfl hb hw hp, ?_, hl⟩
  rw [hb]
  exact .nil

variable {E : Halt → LedgerManagerImpl Hash → Prop}

@[simp] theorem wp_assert {c : Prop} [Decidable c] {text : String}
    {Q : PUnit → LedgerManagerImpl Hash → Prop} :
    wp (assert c text) Q E lm ↔ (c → Q ⟨⟩ lm) ∧ (¬ c → E (.assertion text) lm) := by
  unfold assert
  rw [wp_ite, wp_pure, wp_throw]

/-! ## The buffer -/

/-- A push adds at the end or drops the ledger. -/
theorem push_eq (l : List (LedgerCloseData Hash)) (d : LedgerCloseData Hash) :
    (SyncingLedgerChain.push l d).1 = l ++ [d] ∨ l ≠ [] ∧ (SyncingLedgerChain.push l d).1 = l := by
  unfold SyncingLedgerChain.push
  cases hl : l.getLast? with
  | none => exact .inl rfl
  | some back =>
    have hne : l ≠ [] := by
      rintro rfl
      cases hl
    dsimp only
    split
    · exact .inl rfl
    · split <;> exact .inr ⟨hne, rfl⟩

theorem push_ne_nil (l : List (LedgerCloseData Hash)) (d : LedgerCloseData Hash) :
    (SyncingLedgerChain.push l d).1 ≠ [] := by
  rcases push_eq l d with h | ⟨_, h⟩
  · simp [h]
  · rwa [h]

theorem push_nil (d : LedgerCloseData Hash) : (SyncingLedgerChain.push [] d).1 = [d] := rfl

/-- A push keeps the first ledger. -/
theorem push_cons (front : LedgerCloseData Hash)
    (rest : List (LedgerCloseData Hash)) (d : LedgerCloseData Hash) :
    ∃ rest', (SyncingLedgerChain.push (front :: rest) d).1 = front :: rest' := by
  rcases push_eq (front :: rest) d with h | ⟨-, h⟩
  · exact ⟨rest ++ [d], h⟩
  · exact ⟨rest, h⟩

theorem push_contiguous {l : List (LedgerCloseData Hash)}
    (h : l.IsChain (fun a b => a.ledgerSeq + 1 = b.ledgerSeq))
    (d : LedgerCloseData Hash) :
    (SyncingLedgerChain.push l d).1.IsChain (fun a b => a.ledgerSeq + 1 = b.ledgerSeq) := by
  unfold SyncingLedgerChain.push
  cases hl : l.getLast? with
  | none =>
    rw [List.getLast?_eq_none_iff.mp hl]
    exact .singleton d
  | some back =>
    dsimp only
    split
    · next hd =>
      refine isChain_append.mpr ⟨h, .singleton d, ?_⟩
      intro x hx y hy
      rw [hl] at hx
      cases hx
      cases hy
      exact hd
    · split <;> exact h

/-! ## Starting catchup -/

/-- A catchup starts if none is running. The state it starts from need not be
one of the phases: `startCatchupIf` has changed `mCatchupState` before. -/
theorem wp_startCatchup {configuration : CatchupConfiguration Hash} {manual : Bool}
    (hb : lm.mSyncingLedgers.IsChain (fun a b => a.ledgerSeq + 1 = b.ledgerSeq))
    (hl : Consecutive first lm.mLastClosedLedger.header.ledgerSeq lm.mClosed)
    (hw : lm.mCatchupWork = none) (hp : lm.mPosted = 0)
    (hm : manual = lm.mSyncingLedgers.isEmpty)
    (htarget : configuration.hash ≠ none → ∃ front rest, lm.mSyncingLedgers = front :: rest ∧
        configuration.toLedger ≠ CatchupConfiguration.CURRENT ∧
        configuration.toLedger + 1 = front.ledgerSeq)
    (hthrow : configuration.toLedger ≠ CatchupConfiguration.CURRENT ∧
      configuration.toLedger ≤ lm.mLastClosedLedger.header.ledgerSeq →
      Inv first lm) :
    Safe first (startCatchup configuration manual) lm := by
  unfold Safe startCatchup catchupHistory
  simp only [wp_bind, wp_ite, wp_assert,
    LedgerManagerImpl.setCatchupState_eq]
  refine ⟨hthrow, fun _ => ⟨fun _ => ⟨fun hsome => ?_, fun _ => ?_⟩, fun hne => absurd hm hne⟩⟩
  · rw [hw] at hsome
    cases hsome
  · refine ⟨.applyingHistory rfl rfl _ rfl ⟨?_, htarget⟩ hp, hb, hl⟩
    intro e he
    cases he

variable (h : Inv first lm)

include h

/-- In all phases but the ones before catchup, `startCatchupIf` looks at the
buffer and does nothing. -/
theorem wp_startCatchupIf_idle (hb : lm.mSyncingLedgers ≠ []) (hc : lm.mCatchupState ≠ .NONE)
    (ht : lm.mCatchupState ≠ .WAITING_FOR_TRIGGER_LEDGER) :
    Safe first (startCatchupIf seq) lm := by
  obtain ⟨_, _, hfront⟩ := exists_cons_of_ne_nil hb
  unfold Safe startCatchupIf
  simp only [wp_bind, wp_get, hfront, List.head?_cons, wp_assert, wp_ite]
  exact ⟨fun _ => ⟨fun _ => h, fun h' => absurd ht h'⟩, fun h' => absurd hc h'⟩

/-- While the trigger ledger is awaited, catchup starts to the ledger before the
buffer, or the wait goes on. -/
theorem wp_startCatchupIf_waiting (hc : lm.mCatchupState = .WAITING_FOR_TRIGGER_LEDGER)
    {front : LedgerCloseData Hash} {rest : List (LedgerCloseData Hash)}
    (hb : lm.mSyncingLedgers = front :: rest)
    (ha : Ahead lm.mLastClosedLedger.header.ledgerSeq front.ledgerSeq)
    (hw : lm.mCatchupWork = none) (hp : lm.mPosted = 0) :
    Safe first (startCatchupIf seq) lm := by
  obtain ⟨hcurrent, hnewer, hsucc⟩ := ha.pred
  have hhead : lm.mSyncingLedgers.head? = some front := by rw [hb, List.head?_cons]
  unfold Safe startCatchupIf
  simp only [wp_bind, wp_get, hhead, wp_assert, wp_ite, LedgerManagerImpl.setCatchupState_eq]
  refine ⟨fun _ => ⟨fun _ => h, fun _ => ⟨fun _ => ?_, fun _ => h⟩⟩, fun h' => ?_⟩
  · refine wp_startCatchup h.contiguous h.consecutive hw hp ?_ ?_ ?_
    · simp [hb]
    · exact fun _ => ⟨front, rest, hb, hcurrent, hsucc⟩
    · exact fun h' => absurd h'.2 hnewer
  · rw [hc] at h'
    exact absurd (by decide) h'

/-- `initializeCatchup` on a ledger that is ahead -/
theorem wp_initializeCatchup {env : LedgerManagerEnv Hash}
    {d : LedgerCloseData Hash}
    (hs : lm.mState ≠ .LM_CATCHING_UP_STATE)
    (ha : Ahead lm.mLastClosedLedger.header.ledgerSeq d.ledgerSeq) :
    Safe first (initializeCatchup env d) lm := by
  obtain ⟨hc, hb, hw, hp⟩ := h.phase.of_not_catchingUp hs
  have hset : lm.setState .LM_CATCHING_UP_STATE = { lm with mState := .LM_CATCHING_UP_STATE } := by
    simp [LedgerManagerImpl.setState, Ne.symm hs]
  have hpush : (SyncingLedgerChain.push lm.mSyncingLedgers d).1 = [d] := by
    rw [hb, push_nil]
  unfold Safe initializeCatchup addToSyncingLedgers
  simp only [wp_bind, wp_get, wp_assert, wp_modify,
    LedgerManagerImpl.setCatchupState_eq, hset, hpush]
  refine ⟨fun _ => ⟨fun _ => ⟨fun _ => ?_, fun h' => ?_⟩, fun h' => ?_⟩, fun h' => ?_⟩
  · refine wp_startCatchupIf_waiting ?_ rfl rfl ha hw hp
    exact ⟨.waitingForTrigger rfl rfl d [] rfl ha hw hp, .singleton d, h.consecutive⟩
  · exact absurd (by simp [hb]) h'
  · exact absurd hc h'
  · exact absurd hs h'

/-- The buffer grows. -/
theorem Inv.push (d : LedgerCloseData Hash)
    (hs : lm.mState = .LM_CATCHING_UP_STATE)
    (hc : lm.mCatchupState ≠ .WAITING_FOR_CLOSING_LEDGER) :
    Inv first { lm with
      mSyncingLedgers := (SyncingLedgerChain.push lm.mSyncingLedgers d).1 } := by
  refine ⟨?_, push_contiguous h.contiguous d, h.consecutive⟩
  cases h.phase with
  | idle hs' => exact absurd hs hs'
  | waitingForTrigger _ hc front rest hb ha hw hp =>
    obtain ⟨rest', hpush⟩ := push_cons front rest d
    rw [hb, hpush]
    exact .waitingForTrigger hs hc front rest' rfl ha hw hp
  | applyingHistory _ hc w hw hi hp =>
    refine .applyingHistory hs hc w hw ⟨hi.lastApplied, fun hauto => ?_⟩ hp
    obtain ⟨front, rest, hb, hcurrent, hsucc⟩ := hi.target hauto
    obtain ⟨rest', hpush⟩ := push_cons front rest d
    exact ⟨front, rest', by rw [hb]; exact hpush, hcurrent, hsucc⟩
  | applyingBuffered _ hc hw hp =>
    refine .applyingBuffered hs hc hw (hp.imp_right ?_)
    rintro ⟨hp, hb, hjoined⟩
    refine ⟨hp, push_ne_nil _ d, ?_⟩
    obtain ⟨front, rest, hfront⟩ := exists_cons_of_ne_nil hb
    obtain ⟨rest', hpush⟩ := push_cons front rest d
    intro front' hfront'
    rw [hfront, hpush] at hfront'
    cases hfront'
    exact hjoined front (by rw [hfront]; rfl)
  | waitingForClosing _ hc' => exact absurd hc' hc

/-- `continueCatchup` -/
theorem wp_continueCatchup {d : LedgerCloseData Hash}
    (hs : lm.mState = .LM_CATCHING_UP_STATE)
    (hc : lm.mCatchupState ≠ .WAITING_FOR_CLOSING_LEDGER) :
    Safe first (continueCatchup d) lm := by
  have hpush := h.push d hs hc
  unfold Safe continueCatchup addToSyncingLedgers
  simp only [wp_bind, wp_assert]
  refine ⟨fun _ => ?_, fun h' => absurd hs h'⟩
  cases hpush.phase with
  | idle hs' => exact absurd hs hs'
  | waitingForTrigger _ hc front rest hb ha hw hp =>
    exact wp_startCatchupIf_waiting hpush hc hb ha hw hp
  | applyingHistory _ hc =>
    refine wp_startCatchupIf_idle hpush (push_ne_nil _ d) ?_ ?_ <;> rw [hc] <;> decide
  | applyingBuffered _ hc =>
    refine wp_startCatchupIf_idle hpush (push_ne_nil _ d) ?_ ?_ <;> rw [hc] <;> decide
  | waitingForClosing _ hc' => exact absurd hc' hc

/-- The `catchup` command -/
theorem wp_catchup {ledger : UInt32} : Safe first (catchup ledger) lm := by
  unfold Safe catchup
  rw [wp_bind, wp_get]
  cases hstate : lm.mState with
  | LM_BOOTING_STATE => exact h
  | LM_CATCHING_UP_STATE => exact h
  | LM_SYNCED_STATE =>
    obtain ⟨-, hb, hw, hp⟩ := h.phase.of_not_catchingUp (by rw [hstate]; decide)
    refine wp_startCatchup h.contiguous h.consecutive hw hp ?_ ?_ fun _ => h
    · simp [hb]
    · exact fun h' => absurd rfl h'

omit h

/-! ## Closing ledgers -/

namespace LedgerManagerImpl

/-- The last closed ledger moves. -/
abbrev moveTo (lm : LedgerManagerImpl Hash) (lcl : LedgerHeaderHistoryEntry Hash)
    (move : LedgerMove) : LedgerManagerImpl Hash :=
  { lm with mLastClosedLedger := lcl, mClosed := move :: lm.mClosed }

end LedgerManagerImpl

variable [DecidableEq Hash] {env : LedgerManagerEnv Hash}

variable {d : LedgerCloseData Hash}

/-- `closeLedger` appends the next header, or throws and changes nothing. -/
theorem wp_closeLedger {Q : PUnit → LedgerManagerImpl Hash → Prop}
    (hQ : ∀ header : LedgerHeader Hash,
      header.ledgerSeq = lm.mLastClosedLedger.header.ledgerSeq + 1 →
      Q ⟨⟩ (lm.moveTo ⟨env.sha256 header, header⟩ (.closed d.ledgerSeq)))
    (hE : ∀ what, E (.exception what) lm) :
    wp (closeLedger env d) Q E lm := by
  unfold closeLedger
  simp only [wp_bind, wp_ite]
  refine ⟨fun _ => hE _, fun _ => ?_⟩
  cases env.applyLedger lm.mLastClosedLedger d with
  | error what => exact hE what
  | ok r => exact hQ _ rfl

/-- `closeLedgerIf` closes the next ledger only. -/
theorem wp_closeLedgerIf {Q : CloseLedgerIfResult → LedgerManagerImpl Hash → Prop}
    (hclosed : ∀ header : LedgerHeader Hash, header.ledgerSeq = d.ledgerSeq →
      d.ledgerSeq = lm.mLastClosedLedger.header.ledgerSeq + 1 →
      Q .CLOSED (lm.moveTo ⟨env.sha256 header, header⟩ (.closed d.ledgerSeq)))
    (hold : Q .TOO_OLD lm)
    (hnew : Ahead lm.mLastClosedLedger.header.ledgerSeq d.ledgerSeq → Q .TOO_NEW lm)
    (hE : ∀ what, E (.exception what) lm) :
    wp (closeLedgerIf env d) Q E lm := by
  unfold closeLedgerIf
  simp only [wp_bind, wp_ite, wp_throw]
  refine ⟨fun hseq => ⟨fun _ => ?_, fun _ => hE _⟩,
    fun hseq => ⟨fun _ => hold, fun hle => hnew ⟨hseq, hle⟩⟩⟩
  exact wp_closeLedger (fun header h => hclosed header (h.trans hseq) hseq.symm) hE

/-- Closing on the data of the next ledger keeps the moves consecutive. -/
theorem Consecutive.close {n m k : UInt32} {moves : List LedgerMove}
    (h : Consecutive first n moves) (hk : k = m) (hm : m = n + 1) :
    Consecutive first k (.closed m :: moves) := by
  subst hk hm
  exact h.closed

/-! ## Externalized values -/

/-- `finalizeCatchup` -/
theorem wp_finalizeCatchup (h : Inv first lm) (hs : lm.mState = .LM_CATCHING_UP_STATE)
    (hc : lm.mCatchupState = .WAITING_FOR_CLOSING_LEDGER)
    (hb : lm.mSyncingLedgers = []) (hw : lm.mCatchupWork = none)
    (hp : lm.mPosted = 0) :
    Safe first (finalizeCatchup env d) lm := by
  unfold Safe finalizeCatchup
  simp only [wp_bind, wp_assert]
  refine ⟨fun _ => ⟨fun _ => ⟨fun _ => ?_, fun h' => ?_⟩, fun h' => ?_⟩, fun h' => ?_⟩
  · refine wp_closeLedgerIf ?_ h ?_ fun _ => h
    · intro header hheader hd
      refine Inv.setState (by decide) (.inl hs) hb hw hp ?_
      exact h.consecutive.close hheader hd
    · intro ha
      have hboot : Inv first (lm.setState .LM_BOOTING_STATE) :=
        .setState (by decide) (.inl hs) hb hw hp h.consecutive
      have hlcl : (lm.setState .LM_BOOTING_STATE).mLastClosedLedger =
          lm.mLastClosedLedger := by
        rw [LedgerManagerImpl.setState_eq (by decide) (.inl hs)]
      rw [wp_bind]
      exact wp_initializeCatchup hboot (by simp) (hlcl ▸ ha)
  · exact absurd (by simp [hb]) h'
  · exact absurd hc h'
  · exact absurd hs h'

/-- `valueExternalized` on a node that is not catching up -/
theorem wp_valueExternalized_idle (env : LedgerManagerEnv Hash)
    (d : LedgerCloseData Hash) (h : Inv first lm)
    (hs : lm.mState ≠ .LM_CATCHING_UP_STATE) :
    Safe first (do
      match ← closeLedgerIf env d with
      | .CLOSED => modify (·.setState .LM_SYNCED_STATE)
      | .TOO_OLD => pure ⟨⟩
      | .TOO_NEW => initializeCatchup env d) lm := by
  obtain ⟨hc, hb, hw, hp⟩ := h.phase.of_not_catchingUp hs
  rw [Safe, wp_bind]
  refine wp_closeLedgerIf ?_ h (fun ha => wp_initializeCatchup h hs ha) fun _ => h
  intro header hheader hd
  refine Inv.setState (by decide) (.inr hc) hb hw hp ?_
  exact h.consecutive.close hheader hd

/-- `valueExternalized` -/
theorem wp_valueExternalized (h : Inv first lm) : Safe first (valueExternalized env d) lm := by
  unfold Safe valueExternalized
  rw [wp_bind, wp_get]
  cases h.phase with
  | idle hs =>
    have hidle := wp_valueExternalized_idle env d h hs
    cases hstate : lm.mState with
    | LM_BOOTING_STATE => exact hidle
    | LM_SYNCED_STATE => exact hidle
    | LM_CATCHING_UP_STATE => exact absurd hstate hs
  | waitingForTrigger hs hc =>
    rw [hs, hc]
    exact wp_continueCatchup h hs (by rw [hc]; decide)
  | applyingHistory hs hc =>
    rw [hs, hc]
    exact wp_continueCatchup h hs (by rw [hc]; decide)
  | applyingBuffered hs hc =>
    rw [hs, hc]
    exact wp_continueCatchup h hs (by rw [hc]; decide)
  | waitingForClosing hs hc hb hw hp =>
    rw [hs, hc]
    exact wp_finalizeCatchup h hs hc hb hw hp

/-! ## Notifications of the catchup work -/

omit [DecidableEq Hash] in
/-- `applyBufferedLedgers` posts its callback in a state that has joined. -/
theorem wp_applyBufferedLedgers (hs : lm.mState = .LM_CATCHING_UP_STATE)
    (hc : lm.mCatchupState = .APPLYING_BUFFERED_LEDGERS)
    (hw : lm.mCatchupWork = none) (hp : lm.mPosted = 0) (hj : lm.Joined)
    (hb : lm.mSyncingLedgers.IsChain (fun a b => a.ledgerSeq + 1 = b.ledgerSeq))
    (hl : Consecutive first lm.mLastClosedLedger.header.ledgerSeq lm.mClosed) :
    Safe first applyBufferedLedgers lm := by
  unfold Safe applyBufferedLedgers
  simp only [wp_bind, wp_get, wp_assert, wp_ite, wp_modify, LedgerManagerImpl.setCatchupState_eq]
  refine ⟨fun _ => ⟨fun hempty => ?_, fun hempty => ?_⟩, fun h' => absurd hc h'⟩
  · have hnil := List.isEmpty_iff.mp hempty
    exact ⟨.waitingForClosing rfl rfl hnil hw hp, hb, hl⟩
  · have hne : lm.mSyncingLedgers ≠ [] := by
      intro hnil
      exact hempty (List.isEmpty_iff.mpr hnil)
    exact ⟨.applyingBuffered hs hc hw (.inr ⟨by rw [hp], hne, hj⟩), hb, hl⟩

/-- The end of a catchup that has joined the buffer. -/
theorem wp_historyCaughtup_finished {e : LedgerHeaderHistoryEntry Hash}
    (h : Inv first lm) (hc : lm.mCatchupState = .APPLYING_HISTORY)
    (hp : lm.mPosted = 0) (hj : lm.Joined) :
    Safe first (historyCaughtup .FINISHED e) lm := by
  unfold Safe historyCaughtup
  simp only [wp_bind, wp_assert, LedgerManagerImpl.setCatchupState_eq]
  refine ⟨fun _ => ?_, fun h' => absurd hc h'⟩
  exact wp_applyBufferedLedgers rfl rfl rfl hp hj h.contiguous h.consecutive

omit [DecidableEq Hash] in
/-- The end of a catchup that has failed. -/
theorem wp_historyCaughtupError (h : Inv first lm) (hs : lm.mState = .LM_CATCHING_UP_STATE)
    (hc : lm.mCatchupState = .APPLYING_HISTORY) (hp : lm.mPosted = 0) :
    Safe first historyCaughtupError lm := by
  have hset : LedgerManagerImpl.setState .LM_BOOTING_STATE { lm with mCatchupWork := none } =
      { lm with
        mState := .LM_BOOTING_STATE, mCatchupState := .NONE
        mCatchupWork := none } :=
    LedgerManagerImpl.setState_eq (by decide) (.inl hs)
  unfold Safe historyCaughtupError
  simp only [wp_bind, wp_get, wp_assert, wp_modify, hset]
  refine ⟨fun _ => ⟨.idle ?_ rfl rfl rfl hp, .nil, h.consecutive⟩, fun h' => absurd hc h'⟩
  simp

/-- The posted callback closes the first buffered ledger. -/
theorem wp_applyBufferedLedger (h : Inv first lm) (hposted : lm.mPosted ≠ 0) :
    Safe first (applyBufferedLedger env) lm := by
  obtain ⟨hs, hc, hw, hp, hne, hj⟩ := h.phase.of_posted hposted
  obtain ⟨front, rest, hfront⟩ := exists_cons_of_ne_nil hne
  have hseq : front.ledgerSeq = lm.mLastClosedLedger.header.ledgerSeq + 1 :=
    hj front (by rw [hfront]; rfl)
  have hcont := h.contiguous
  rw [hfront] at hcont
  unfold Safe applyBufferedLedger
  simp only [wp_bind, wp_get, wp_modify, hfront, wp_assert]
  refine ⟨fun _ => ?_, fun h' => absurd hseq h'⟩
  refine wp_closeLedger ?_ ?_
  · intro header hheader
    refine wp_applyBufferedLedgers hs hc hw (by simp [hp]) ?_ hcont.tail
      (h.consecutive.close (hheader.trans hseq.symm) hseq)
    -- the buffer is contiguous, so the next ledger joins again
    intro next hnext
    cases rest with
    | nil => cases hnext
    | cons _ _ =>
      cases hnext
      exact (isChain_cons_cons.mp hcont).1.symm.trans
        (congrArg (· + 1) (hseq.trans hheader.symm))
  · intro what
    exact ⟨.applyingBuffered hs hc hw (.inl (by simp [hp])), hcont.tail, h.consecutive⟩

end EssaCore.Catchup
