import EssaCore.Scp.BallotSpecs
import EssaCore.Scp.QuorumSets

/-!
# The counter to bump to (`scp/BallotProtocol.cpp:1353–1419`)

When a v-blocking set is ahead of the local counter, `attemptBump` moves to the
least counter that no v-blocking set is ahead of. It only tries counters that
occur in statements; between two of them the nodes that are ahead do not
change, so none is missed.

- `SCPQuorumSet.Blocks` — a set of nodes that meets every slice;
- `BlockingAhead` — such a set, ahead of a counter;
- `exists_counter_le` — the counters of the statements are enough;
- `attemptBump_least` — what `attemptBump` does.
-/

open List

namespace EssaCore.Scp

open Lib (ThresholdTree)

/-! ## Blocking sets -/

/-- A set of nodes is v-blocking when it meets every slice. -/
def SCPQuorumSet.Blocks (q : SCPQuorumSet) (B : List NodeID) : Prop :=
  ∀ S, isQuorumSlice q S = true → ∃ n ∈ S, n ∈ B

variable {q : SCPQuorumSet}

theorem isVBlockingInternal_iff_blocks {extraChecks : Bool}
    (h : isQuorumSetSane q extraChecks = true) (B : List NodeID) :
    isVBlockingInternal B q = true ↔ q.Blocks B := by
  obtain ⟨hshape, -, -, hsize⟩ := isQuorumSetSane_iff.mp h
  have hfits := hshape.fits
  rw [isVBlocking_iff hfits (lt_of_le_of_lt hsize (by decide)), ThresholdTree.holds_flip hfits,
    Bool.not_eq_true', ← Bool.not_eq_true]
  constructor
  · intro hrest S hS
    rw [isQuorumSlice_iff hfits] at hS
    by_contra hmiss
    refine hrest (ThresholdTree.holds_mono (fun n _ hn => ?_) hS)
    rw [Bool.not_eq_true', decide_eq_false_iff_not]
    exact fun hB => hmiss ⟨n, of_decide_eq_true hn, hB⟩
  · intro hblocks hrest
    -- the nodes outside `B` would contain a slice
    have hslice : isQuorumSlice q (q.nodes.filter (· ∉ B)) = true := by
      rw [isQuorumSlice_iff hfits]
      refine ThresholdTree.holds_mono (fun n hn hB => ?_) hrest
      rw [Bool.not_eq_true', decide_eq_false_iff_not] at hB
      exact decide_eq_true (mem_filter.mpr ⟨hn, decide_eq_true hB⟩)
    obtain ⟨n, hn, hB⟩ := hblocks _ hslice
    exact of_decide_eq_true (mem_filter.mp hn).2 hB

/-- No nodes are not v-blocking: there is a slice, of all nodes. -/
theorem SCPQuorumSet.not_blocks_nil {extraChecks : Bool}
    (h : isQuorumSetSane q extraChecks = true) : ¬ q.Blocks [] := by
  have hfits := (isQuorumSetSane_iff.mp h).1.fits
  have hslice : isQuorumSlice q q.nodes = true := by
    rw [isQuorumSlice_iff hfits]
    exact ThresholdTree.holds_mono (fun n hn _ => decide_eq_true hn) hfits.holds_all
  intro hblocks
  obtain ⟨n, -, hn⟩ := hblocks _ hslice
  exact absurd hn not_mem_nil

/-- A v-blocking set of nodes whose latest statements are all above a counter -/
def BlockingAhead (q : SCPQuorumSet) (envs : EnvelopeMap) (n : UInt32) : Prop :=
  ∃ B, q.Blocks B ∧ ∀ v ∈ B, ∃ e, envs.lookup v = some e ∧
    n < statementBallotCounter e.statement.pledges

theorem SCPQuorumSet.Blocks.mono {B B' : List NodeID} (h : q.Blocks B)
    (hsub : ∀ n ∈ B, n ∈ B') : q.Blocks B' := fun S hS =>
  let ⟨n, hn, hB⟩ := h S hS
  ⟨n, hn, hsub n hB⟩

section Counters

variable {env : Env} {envs : EnvelopeMap} {extraChecks : Bool}

theorem hasVBlockingSubsetStrictlyAheadOf_iff
    (h : isQuorumSetSane env.localNode.mQSet extraChecks = true) (n : UInt32) :
    hasVBlockingSubsetStrictlyAheadOf env envs n = true ↔
      BlockingAhead env.localNode.mQSet envs n := by
  unfold hasVBlockingSubsetStrictlyAheadOf isVBlocking
  rw [isVBlockingInternal_iff_blocks h]
  constructor
  · intro hblocks
    refine ⟨_, hblocks, fun v hv => ?_⟩
    obtain ⟨e, he, hn⟩ := mem_filterNodes.mp hv
    exact ⟨e, he, of_decide_eq_true hn⟩
  · rintro ⟨B, hB, hahead⟩
    refine hB.mono fun v hv => mem_filterNodes.mpr ?_
    obtain ⟨e, he, hn⟩ := hahead v hv
    exact ⟨e, he, decide_eq_true hn⟩

/-- A counter that occurs in the statements -/
def Occurs (envs : EnvelopeMap) (c : UInt32) : Prop :=
  ∃ v e, envs.lookup v = some e ∧ statementBallotCounter e.statement.pledges = c

/-- Between two counters with none of the statements' between them, the nodes ahead are the
same. -/
theorem BlockingAhead.of_gap {n m : UInt32} (h : BlockingAhead q envs n)
    (hgap : ∀ c, Occurs envs c → n < c → m < c) : BlockingAhead q envs m := by
  obtain ⟨B, hB, hahead⟩ := h
  refine ⟨B, hB, fun v hv => ?_⟩
  obtain ⟨e, he, hn⟩ := hahead v hv
  exact ⟨e, he, hgap _ ⟨v, e, he, rfl⟩ hn⟩

/-- Some node is ahead when a v-blocking set is. -/
theorem BlockingAhead.occurs (hsane : isQuorumSetSane q extraChecks = true)
    {n : UInt32} (h : BlockingAhead q envs n) : ∃ c, Occurs envs c ∧ n < c := by
  obtain ⟨B, hB, hahead⟩ := h
  cases B with
  | nil => exact absurd hB (SCPQuorumSet.not_blocks_nil hsane)
  | cons v B =>
    obtain ⟨e, he, hn⟩ := hahead v mem_cons_self
    exact ⟨_, ⟨v, e, he, rfl⟩, hn⟩

/-- The counters of the statements, above the local one -/
def countersAbove (envs : EnvelopeMap) (localCounter : UInt32) : List UInt32 :=
  setAscending <| (envs.entries.map fun e =>
    statementBallotCounter e.2.statement.pledges).filter (localCounter < ·)

variable {localCounter : UInt32}

theorem mem_countersAbove {c : UInt32} :
    c ∈ countersAbove envs localCounter ↔ Occurs envs c ∧ localCounter < c := by
  unfold countersAbove setAscending Occurs
  rw [mem_insertionSort, mem_dedup, mem_filter, decide_eq_true_eq, mem_map]
  refine and_congr_left fun _ => ?_
  simp only [Sigma.exists]
  exact exists_congr fun v => exists_congr fun e => and_congr_left fun _ =>
    AList.mem_lookup_iff.symm

theorem countersAbove_sorted (localCounter : UInt32) :
    (countersAbove envs localCounter).Pairwise (· ≤ ·) :=
  pairwise_insertionSort _ _

/-- For a counter that no v-blocking set is ahead of, one that occurs and is no higher will do:
the highest one that is no higher. -/
theorem exists_counter_le {m : UInt32}
    (hlocal : BlockingAhead q envs localCounter) (hm : ¬ BlockingAhead q envs m) :
    ∃ c ∈ countersAbove envs localCounter, c ≤ m ∧ ¬ BlockingAhead q envs c := by
  let below := (countersAbove envs localCounter).toFinset.filter (· ≤ m)
  have hmem : ∀ c, c ∈ below ↔ (Occurs envs c ∧ localCounter < c) ∧ c ≤ m := by
    intro c
    rw [Finset.mem_filter, mem_toFinset, mem_countersAbove]
  have hnonempty : below.Nonempty := by
    rw [Finset.nonempty_iff_ne_empty]
    intro hempty
    refine hm (hlocal.of_gap fun c hc hlt => not_le.mp fun hle => ?_)
    have := (hmem c).mpr ⟨⟨hc, hlt⟩, hle⟩
    rw [hempty] at this
    exact absurd this (Finset.notMem_empty c)
  obtain ⟨c, hc, hmax⟩ := Finset.exists_max_image below id hnonempty
  obtain ⟨⟨hoccurs, hlt⟩, hle⟩ := (hmem c).mp hc
  refine ⟨c, mem_countersAbove.mpr ⟨hoccurs, hlt⟩, hle, fun hahead => hm ?_⟩
  refine hahead.of_gap fun d hd hcd => not_le.mp fun hdm => ?_
  exact absurd (hmax d ((hmem d).mpr ⟨⟨hd, hlt.trans hcd⟩, hdm⟩)) (not_le.mpr hcd)

/-- The loop of `attemptBump` finds the least counter above the local one that no v-blocking set
is ahead of. -/
theorem bumpCounter_least (h : isQuorumSetSane env.localNode.mQSet extraChecks = true)
    (hlocal : BlockingAhead env.localNode.mQSet envs localCounter) :
    ∃ n, bumpCounter env envs localCounter = some n ∧
      IsLeast {n | localCounter < n ∧ ¬ BlockingAhead env.localNode.mQSet envs n} n := by
  have htry : ∀ n, (!hasVBlockingSubsetStrictlyAheadOf env envs n) = true ↔
      ¬ BlockingAhead env.localNode.mQSet envs n := by
    intro n
    rw [Bool.not_eq_true', Bool.eq_false_iff, ne_eq, hasVBlockingSubsetStrictlyAheadOf_iff h]
  have hbump : bumpCounter env envs localCounter = (countersAbove envs localCounter).find?
        fun n => !hasVBlockingSubsetStrictlyAheadOf env envs n := rfl
  -- nobody is ahead of `UINT32_MAX`
  have hmax : ¬ BlockingAhead env.localNode.mQSet envs uint32Max := by
    intro hahead
    obtain ⟨c, -, hc⟩ := hahead.occurs h
    exact absurd c.toNat_lt (not_lt.mpr hc)
  obtain ⟨c, hc, -, hfree⟩ := exists_counter_le hlocal hmax
  cases hfind : bumpCounter env envs localCounter with
  | none =>
    rw [hbump, List.find?_eq_none] at hfind
    exact absurd ((htry c).mpr hfree) (hfind c hc)
  | some n =>
    rw [hbump, List.find?_eq_some_iff_append] at hfind
    obtain ⟨hn, tried, _, hsplit, htried⟩ := hfind
    have hmem : n ∈ countersAbove envs localCounter := by
      rw [hsplit]
      exact mem_append_cons_self
    refine ⟨n, rfl, ⟨(mem_countersAbove.mp hmem).2, (htry n).mp hn⟩, ?_⟩
    rintro m ⟨-, hm⟩
    obtain ⟨d, hd, hdm, hdfree⟩ := exists_counter_le hlocal hm
    refine le_trans ?_ hdm
    -- the counters before `n` were tried and failed
    have hsorted : (countersAbove envs localCounter).Pairwise (· ≤ ·) :=
      countersAbove_sorted localCounter
    rw [hsplit] at hd hsorted
    rcases mem_append.mp hd with hd | hd
    · have := htried d hd
      rw [Bool.not_not] at this
      exact absurd ((hasVBlockingSubsetStrictlyAheadOf_iff h d).mp this) hdfree
    · rcases mem_cons.mp hd with rfl | hd
      · exact le_rfl
      · exact rel_of_pairwise_cons (pairwise_append.mp hsorted).2.1 hd

end Counters

/-! ## `attemptBump` -/

/-- In phase PREPARE or CONFIRM, with a v-blocking set ahead of the local counter, `attemptBump`
abandons the ballot for the least counter that none is ahead of; else it does nothing. -/
theorem attemptBump_least (env : Env) (adv : SCPStatement → M Unit) (s : State)
    {extraChecks : Bool} (h : isQuorumSetSane env.localNode.mQSet extraChecks = true) :
    (((s.mPhase = .prepare ∨ s.mPhase = .confirm) ∧
        BlockingAhead env.localNode.mQSet s.mLatestEnvelopes s.localCounter) →
      ∃ n, IsLeast {n | s.localCounter < n ∧
          ¬ BlockingAhead env.localNode.mQSet s.mLatestEnvelopes n} n ∧
        attemptBump env adv s = abandonBallot env adv n s) ∧
    (¬ ((s.mPhase = .prepare ∨ s.mPhase = .confirm) ∧
        BlockingAhead env.localNode.mQSet s.mLatestEnvelopes s.localCounter) →
      attemptBump env adv s = .ok false s) := by
  have hahead : hasVBlockingSubsetStrictlyAheadOf env s.mLatestEnvelopes s.localCounter = true ↔
      BlockingAhead env.localNode.mQSet s.mLatestEnvelopes s.localCounter :=
    hasVBlockingSubsetStrictlyAheadOf_iff h _
  have hrun : ∃ bump : M Bool, (∀ n, bumpCounter env s.mLatestEnvelopes s.localCounter = some n →
        bump = abandonBallot env adv n) ∧
      attemptBump env adv s = (if s.mPhase ≠ .prepare ∧ s.mPhase ≠ .confirm then pure false
        else if !hasVBlockingSubsetStrictlyAheadOf env s.mLatestEnvelopes s.localCounter
        then pure false else bump : M Bool) s :=
    ⟨_, fun n hn => by rw [State.localCounter] at hn; rw [hn], rfl⟩
  obtain ⟨bump, hbump, hrun⟩ := hrun
  rw [hrun]
  constructor
  · rintro ⟨hphase, hblocking⟩
    obtain ⟨n, hn, hleast⟩ := bumpCounter_least h hblocking
    refine ⟨n, hleast, ?_⟩
    rw [if_neg (by tauto), hahead.mpr hblocking, hbump n hn]
    rfl
  · intro hnot
    by_cases hphase : s.mPhase ≠ .prepare ∧ s.mPhase ≠ .confirm
    · rw [if_pos hphase]
      rfl
    · have hnone : hasVBlockingSubsetStrictlyAheadOf env s.mLatestEnvelopes s.localCounter =
          false := by
        rw [Bool.eq_false_iff, ne_eq, hahead]
        exact fun hblocking => hnot ⟨by tauto, hblocking⟩
      rw [if_neg hphase, hnone]
      rfl

/-- Two of three nodes are a quorum; the driver accepts every value. -/
def twoOfThreeEnv (ndebug : Bool) : Env where
  localNode := ⟨1, true, .mk 2 [1, 2, 3] [], 7⟩
  slotIndex := 1
  ndebug := ndebug
  getQSet h := if h = 7 then some (.mk 2 [1, 2, 3] []) else none
  validateValue _ := .fullyValidatedValue
  latestCompositeCandidate := []
  signEnvelope _ := []

/-- A fresh slot that has heard of counter 5 from node 2, and that node 3 externalized -/
def heardAhead : State :=
  { State.init true with
    mLatestEnvelopes := (AList.singleton 2 ⟨⟨2, 1, .prepare ⟨7, ⟨5, [1]⟩, none, none, 0, 0⟩⟩, []⟩
      : EnvelopeMap).insert 3 ⟨⟨3, 1, .externalize ⟨⟨4, [1]⟩, 4, 7⟩⟩, []⟩ }

theorem attemptBump_least_heardAhead :
    isQuorumSetSane (twoOfThreeEnv false).localNode.mQSet false = true ∧
    BlockingAhead (twoOfThreeEnv false).localNode.mQSet heardAhead.mLatestEnvelopes
      heardAhead.localCounter ∧
    ∀ adv, ∃ n, IsLeast {n | heardAhead.localCounter < n ∧
        ¬ BlockingAhead (twoOfThreeEnv false).localNode.mQSet heardAhead.mLatestEnvelopes n} n ∧
      attemptBump (twoOfThreeEnv false) adv heardAhead =
        abandonBallot (twoOfThreeEnv false) adv n heardAhead := by
  have hsane : isQuorumSetSane (twoOfThreeEnv false).localNode.mQSet false = true := by decide
  have hahead : BlockingAhead (twoOfThreeEnv false).localNode.mQSet heardAhead.mLatestEnvelopes
      heardAhead.localCounter :=
    (hasVBlockingSubsetStrictlyAheadOf_iff hsane _).mp (by decide)
  exact ⟨hsane, hahead, fun adv =>
    (attemptBump_least _ adv heardAhead hsane).1 ⟨.inl rfl, hahead⟩⟩

end EssaCore.Scp
