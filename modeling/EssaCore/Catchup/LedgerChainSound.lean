import EssaCore.Catchup.VerifyLedgerChain
import EssaCore.Lib.Except

/-!
# What a verified ledger chain guarantees

Every file that is accepted is part of a hash chain that ends at the last ledger
of the range (`FullChain`): the files are verified from newest to oldest, and
each accepted file extends the chain of the file ahead of it.

Nothing, however, makes the oldest file begin at or before the first ledger of
the range. A successful run therefore guarantees the chain `[first, last]`
exactly if a header for `first` was read (`verified_chain_iff`);
`success_without_first` is a run without one.
-/

open List Option

namespace EssaCore.Catchup

open EssaCore.Lib

variable {Hash : Type} [DecidableEq Hash] (cfg : VerifyConfig Hash)

/-! ## Chains -/

/-- `b` follows `a` in a hash chain. -/
def Follows (a b : LedgerHeaderHistoryEntry Hash) : Prop :=
  b.header.ledgerSeq = a.header.ledgerSeq + 1 ∧
    b.header.previousLedgerHash = a.hash

/-- What is checked of an entry by itself. -/
structure EntryOK (e : LedgerHeaderHistoryEntry Hash) : Prop where
  version : e.header.ledgerVersion ≤ CURRENT_LEDGER_PROTOCOL_VERSION
  hash : e.hash = cfg.sha256 e.header
  atLastClosed : e.header.ledgerSeq = cfg.lastClosed.1 →
    e.hash = cfg.lastClosed.2
  afterLastClosed : e.header.ledgerSeq = cfg.lastClosed.1 + 1 →
    e.header.previousLedgerHash = cfg.lastClosed.2

/-- The part of a file that the loop reads: up to the last ledger of the
range. -/
def readEntries : List (LedgerHeaderHistoryEntry Hash) →
    List (LedgerHeaderHistoryEntry Hash)
  | [] => []
  | curr :: rest =>
    if curr.header.ledgerSeq = cfg.last then [curr]
    else curr :: readEntries rest

/-- A hash chain that ends at the last ledger of the range. -/
structure FullChain (l : List (LedgerHeaderHistoryEntry Hash)) : Prop where
  links : l.IsChain Follows
  entries : ∀ e ∈ l, EntryOK cfg e
  ends : ∃ e, l.getLast? = some e ∧ e.header.ledgerSeq = cfg.last ∧
    ∀ h, cfg.trustedEndLedger.2 = some h → e.hash = h

/-! ## The loop over one file -/

variable {curr : LedgerHeaderHistoryEntry Hash}

section Loop

variable {cfg}

theorem uint32_succ_ne (n : UInt32) : n ≠ n + 1 := by
  intro h
  have h' := congrArg (· - n) h
  simp at h'

/-- A check has failed: the verification ends with a status. -/
abbrev IsStatus (stop : Stop) : Prop := ∃ s, stop = .status s

theorem settles_verifyLedgerHistoryLink {prev : Hash} {P : Unit → Prop} :
    Settles IsStatus P (verifyLedgerHistoryLink cfg prev curr) ↔
      (curr.hash = cfg.sha256 curr.header → curr.header.previousLedgerHash = prev → P ()) := by
  simp [verifyLedgerHistoryLink, verifyLedgerHistoryEntry, settles_bind, settles_ite,
    eq_comm]

theorem settles_verifyLastClosed {P : Unit → Prop} :
    Settles IsStatus P (verifyLastClosed cfg curr) ↔
      ((curr.header.ledgerSeq = cfg.lastClosed.1 → cfg.sha256 curr.header = cfg.lastClosed.2) →
        (curr.header.ledgerSeq = cfg.lastClosed.1 + 1 → curr.hash = cfg.sha256 curr.header ∧
          curr.header.previousLedgerHash = cfg.lastClosed.2) → P ()) := by
  have hne : cfg.lastClosed.1 ≠ cfg.lastClosed.1 + 1 := uint32_succ_ne _
  unfold verifyLastClosed
  by_cases hat : curr.header.ledgerSeq = cfg.lastClosed.1
  · rw [if_pos hat, hat]
    simp [settles_ite]
  · rw [if_neg hat]
    by_cases hafter : curr.header.ledgerSeq = cfg.lastClosed.1 + 1
    · rw [if_pos hafter, settles_verifyLedgerHistoryLink]
      simp [hafter]
    · simp [hat, hafter]

theorem settles_verifyPrevious {prev : Option (LedgerHeaderHistoryEntry Hash)} {P : Unit → Prop} :
    Settles IsStatus P (verifyPrevious cfg prev curr) ↔
      (curr.hash = cfg.sha256 curr.header → (∀ p ∈ prev, Follows p curr) → P ()) := by
  cases prev with
  | none => simp [verifyPrevious, verifyLedgerHistoryEntry, settles_ite, eq_comm]
  | some p =>
    have hseq : curr.header.ledgerSeq = p.header.ledgerSeq + 1 ↔
        ¬ curr.header.ledgerSeq < p.header.ledgerSeq + 1 ∧
          ¬ curr.header.ledgerSeq > p.header.ledgerSeq + 1 := by
      rw [gt_iff_lt, UInt32.not_lt, UInt32.not_lt]
      exact ⟨fun h => by simp [h], fun h => UInt32.le_antisymm h.2 h.1⟩
    simp only [verifyPrevious, settles_ite, settles_throw, settles_verifyLedgerHistoryLink,
      mem_some, Follows, forall_eq']
    rw [hseq]
    simp
    tauto

/-- A round checks the entry and its link. -/
theorem settles_verifyEntry {prev : Option (LedgerHeaderHistoryEntry Hash)} {P : Unit → Prop} :
    Settles IsStatus P (verifyEntry cfg prev curr) ↔
      (EntryOK cfg curr → (∀ p ∈ prev, Follows p curr) → P ()) := by
  rw [verifyEntry, settles_ite, settles_bind, settles_verifyLastClosed, settles_verifyPrevious]
  constructor
  · intro h hok hfollows
    refine h.2 (UInt32.not_lt.mpr hok.version) (fun hat => ?_)
      (fun hafter => ⟨hok.hash, hok.afterLastClosed hafter⟩) hok.hash hfollows
    rw [← hok.hash]
    exact hok.atLastClosed hat
  · intro h
    refine ⟨fun _ => ⟨_, rfl⟩, fun hversion hat hafter hhash => ?_⟩
    exact h ⟨UInt32.not_lt.mp hversion, hhash, fun hseq => hhash.trans (hat hseq),
      fun hseq => (hafter hseq).2⟩

/-- What the loop over a file comes to: a check fails, or the entries that it reads are checked
and linked, and it ends at the last of them or at bytes that do not parse. -/
theorem settles_verifyEntries {malformed : Bool} (l : List (LedgerHeaderHistoryEntry Hash))
    (prev : Option (LedgerHeaderHistoryEntry Hash))
    {P : Option (LedgerHeaderHistoryEntry Hash) → Prop} :
    Settles IsStatus P (verifyEntries cfg malformed l prev) ↔
      ((prev.toList ++ readEntries cfg l).IsChain Follows →
        (∀ e ∈ readEntries cfg l, EntryOK cfg e) →
        (malformed = true → ∃ e ∈ l, e.header.ledgerSeq = cfg.last) ∧
          P (prev.toList ++ readEntries cfg l).getLast?) := by
  induction l generalizing prev with
  | nil =>
    rw [verifyEntries, settles_ite]
    cases prev <;> cases malformed <;> simp [readEntries]
  | cons c rest ih =>
    obtain ⟨r, hr⟩ : ∃ r, readEntries cfg (c :: rest) = c :: r := by
      rw [readEntries]
      split <;> exact ⟨_, rfl⟩
    have hchain : (prev.toList ++ c :: r).IsChain Follows ↔
        (∀ p ∈ prev, Follows p c) ∧ (c :: r).IsChain Follows := by
      cases prev <;> simp [isChain_cons]
    have hend : (prev.toList ++ c :: r).getLast? = (c :: r).getLast? := by
      simp [getLast?_append, getLast?_cons]
    rw [verifyEntries, settles_bind, settles_verifyEntry, settles_ite, ih, hr, hchain, hend]
    rw [readEntries] at hr
    by_cases hlast : c.header.ledgerSeq = cfg.last
    · obtain rfl : r = [] := by simpa [hlast] using hr.symm
      constructor
      · intro h hlinks hall
        exact ⟨fun _ => ⟨c, mem_cons_self, hlast⟩, (h (hall c mem_cons_self) hlinks.1).1 hlast⟩
      · intro h hc hp
        exact ⟨fun _ => (h ⟨hp, isChain_singleton c⟩ (by simpa using hc)).2,
          fun hne => absurd hlast hne⟩
    · obtain rfl : r = readEntries cfg rest := by simpa [hlast] using hr.symm
      constructor
      · intro h hlinks hall
        obtain ⟨hparse, hP⟩ := (h (hall c mem_cons_self) hlinks.1).2 hlast hlinks.2
          fun e he => hall e (mem_cons_of_mem c he)
        exact ⟨fun hm => (hparse hm).imp fun e he => ⟨mem_cons_of_mem c he.1, he.2⟩, hP⟩
      · intro h hc hp
        refine ⟨fun hyes => absurd hyes hlast, fun _ hlinks hall => ?_⟩
        obtain ⟨hparse, hP⟩ := h ⟨hp, hlinks⟩ (forall_mem_cons.mpr ⟨hc, hall⟩)
        refine ⟨fun hm => ?_, hP⟩
        obtain ⟨e, he, hseq⟩ := hparse hm
        rcases mem_cons.mp he with rfl | he
        · exact absurd hseq hlast
        · exact ⟨e, he, hseq⟩

/-- A file that is passed is a chain of checked entries. -/
theorem verifyEntries_ok {malformed : Bool} {l : List (LedgerHeaderHistoryEntry Hash)}
    {curr : Option (LedgerHeaderHistoryEntry Hash)}
    (h : verifyEntries cfg malformed l none = .ok curr) :
    (readEntries cfg l).IsChain Follows ∧ (∀ e ∈ readEntries cfg l, EntryOK cfg e) ∧
      curr = (readEntries cfg l).getLast? := by
  have hspec (P : Option (LedgerHeaderHistoryEntry Hash) → Prop) :
      Settles IsStatus P (verifyEntries cfg malformed l none) ↔ _ := settles_verifyEntries l none
  rw [h] at hspec
  -- a file that is not in order does not return
  have hno := mt (hspec fun _ => False).mpr id
  push Not at hno
  have hend := (hspec (· = curr)).mp rfl hno.1 hno.2.1
  exact ⟨hno.1, hno.2.1, hend.2.symm⟩

end Loop

/-! ## One checkpoint -/

/-- An entry that was read from the file of one of the checkpoints. -/
def WasRead (checkpoints : List UInt32) (e : LedgerHeaderHistoryEntry Hash) :
    Prop :=
  ∃ c ∈ checkpoints, ∃ file, cfg.files c = some file ∧
    e ∈ readEntries cfg file.entries

/-- What the files verified so far leave for the next one: nothing yet, or the
link into a chain that ends at the last ledger. -/
def AheadOK (P : LedgerHeaderHistoryEntry Hash → Prop)
    (ahead : LedgerNumHashPair Hash) : Prop :=
  ahead.2 = none ∨
    ∃ e l, FullChain cfg (e :: l) ∧ (∀ e' ∈ e :: l, P e') ∧
      ahead = (e.header.ledgerSeq - 1, some e.header.previousLedgerHash)

variable {e : LedgerHeaderHistoryEntry Hash}

section Checkpoint

variable {cfg} {P : LedgerHeaderHistoryEntry Hash → Prop}

omit [DecidableEq Hash] in
theorem readEntries_eq_cons {entries : List (LedgerHeaderHistoryEntry Hash)}
    {r : List (LedgerHeaderHistoryEntry Hash)}
    (h : readEntries cfg entries = e :: r) : ∃ rest, entries = e :: rest := by
  cases entries with
  | nil => cases h
  | cons c rest =>
    unfold readEntries at h
    split at h
    · cases h
      exact ⟨rest, rfl⟩
    · cases h
      exact ⟨rest, rfl⟩

omit [DecidableEq Hash] in
theorem mem_of_mem_readEntries {l : List (LedgerHeaderHistoryEntry Hash)}
    (h : e ∈ readEntries cfg l) : e ∈ l := by
  induction l with
  | nil => exact h
  | cons a l ih =>
    unfold readEntries at h
    split at h
    · exact mem_cons.mpr (.inl (mem_singleton.mp h))
    · rcases mem_cons.mp h with rfl | h
      · exact mem_cons_self
      · exact mem_cons_of_mem a (ih h)

omit [DecidableEq Hash] in
/-- Two chains that link up are one. -/
theorem FullChain.append {r l : List (LedgerHeaderHistoryEntry Hash)}
    (hr : r.IsChain Follows)
    (hrok : ∀ e ∈ r, EntryOK cfg e) (hcurr : r.getLast? = some curr)
    (h : FullChain cfg (e :: l)) (hlink : Follows curr e) :
    FullChain cfg (r ++ e :: l) := by
  refine ⟨?_, ?_, ?_⟩
  · rw [List.isChain_append]
    refine ⟨hr, h.links, fun x hx y hy => ?_⟩
    rw [hcurr] at hx
    cases hx
    cases hy
    exact hlink
  · intro e' he'
    rcases List.mem_append.mp he' with he' | he'
    · exact hrok e' he'
    · exact h.entries e' he'
  · obtain ⟨z, hz, hend⟩ := h.ends
    refine ⟨z, ?_, hend⟩
    rw [List.getLast?_append, hz]
    rfl

/-- An accepted file begins a chain to the last ledger, and links the next
file to it. -/
theorem verifyHistoryOfSingleCheckpoint_ok {st st' : VerifyState Hash}
    (h : verifyHistoryOfSingleCheckpoint cfg st = .ok st')
    (hahead : AheadOK cfg P st.mVerifiedAhead) :
    ∃ file e r l, cfg.files st.mCurrCheckpoint = some file ∧ readEntries cfg file.entries = e :: r ∧
      FullChain cfg (e :: r ++ l) ∧ (∀ e' ∈ l, P e') ∧
      st'.mVerifiedAhead = (e.header.ledgerSeq - 1, some e.header.previousLedgerHash) := by
  unfold verifyHistoryOfSingleCheckpoint at h
  cases hfile : cfg.files st.mCurrCheckpoint with
  | none => rw [hfile] at h; cases h
  | some file =>
    rw [hfile] at h
    obtain ⟨curr, hloop, h⟩ := bind_eq_ok.mp h
    obtain ⟨hchain, hok, hcurr⟩ := verifyEntries_ok hloop
    cases curr with
    | none => cases h
    | some curr =>
      obtain ⟨-, h⟩ := ite_throw_eq_ok.mp h
      obtain ⟨next, hnext, h⟩ := bind_eq_ok.mp h
      obtain ⟨⟨⟩, hlast, h⟩ := bind_eq_ok.mp h
      obtain ⟨hseq, hlast⟩ := ite_throw_eq_ok.mp hlast
      obtain ⟨hhash, -⟩ := ite_throw_eq_ok.mp hlast
      have hseq := not_not.mp hseq
      cases hread : readEntries cfg file.entries with
      | nil => rw [hread] at hcurr; cases hcurr
      | cons e r =>
        obtain ⟨_, hentries⟩ := readEntries_eq_cons hread
        have hstate : st'.mVerifiedAhead =
            (e.header.ledgerSeq - 1, some e.header.previousLedgerHash) := by
          rw [← Except.ok.inj h]
          rw [hentries]
          rfl
        rw [hread] at hchain hok hcurr
        unfold expectedEnd at hnext
        by_cases hend : curr.header.ledgerSeq = cfg.last
        · -- the end of the range: only the trusted hash pins it
          rw [if_pos hend] at hnext
          obtain ⟨-, hnext⟩ := ite_throw_eq_ok.mp hnext
          obtain rfl : cfg.trustedEndLedger = next := Except.ok.inj hnext
          refine ⟨file, e, r, [], rfl, hread, ?_, fun _ he => (by cases he), hstate⟩
          rw [append_nil]
          refine ⟨hchain, hok, curr, hcurr.symm, hend, fun t ht => ?_⟩
          rw [ht] at hhash
          have heq : t = curr.hash := by simpa using hhash
          exact heq.symm
        · -- an older file: its end is the link of the file ahead
          rw [if_neg hend] at hnext
          obtain ⟨hsome, hnext⟩ := ite_throw_eq_ok.mp hnext
          obtain rfl : st.mVerifiedAhead = next := Except.ok.inj hnext
          rcases hahead with hnone | ⟨e', l, hfull, hP, hahead⟩
          · rw [hnone] at hsome
            exact absurd (.inl rfl) hsome
          · rw [hahead] at hseq hhash
            refine ⟨file, e, r, e' :: l, rfl, hread, ?_, hP, hstate⟩
            refine FullChain.append hchain hok hcurr.symm hfull ⟨?_, ?_⟩
            · rw [hseq]
              simp
            · simpa using hhash

end Checkpoint

/-! ## Runs -/

section Runs

variable {cfg}

theorem onSuccess_ok {st st' : VerifyState Hash} {w : WorkState}
    (h : onSuccess cfg st = .ok (w, st')) (hw : w ≠ .WORK_FAILURE_FATAL) :
    ∃ st₁, verifyHistoryOfSingleCheckpoint cfg st = .ok st₁ ∧
      st'.mVerifiedAhead = st₁.mVerifiedAhead := by
  obtain ⟨-, h⟩ := ite_throw_eq_ok.mp h
  split at h
  · rename_i st₁ hverify
    refine ⟨st₁, hverify, ?_⟩
    split at h
    · cases h
      rfl
    · cases h
      rfl
  · cases h
    exact absurd rfl hw
  · cases h

/-- Everything that a successful run has read is part of a chain to the last
ledger, made of headers the run has read. -/
theorem EndsInSuccess.covered {all checkpoints : List UInt32}
    {st : VerifyState Hash} (h : EndsInSuccess cfg st checkpoints)
    (hsub : ∀ c ∈ checkpoints, c ∈ all)
    (hahead : AheadOK cfg (WasRead cfg all) st.mVerifiedAhead) :
    ∀ e, WasRead cfg checkpoints e →
      ∃ l, FullChain cfg l ∧ e ∈ l ∧ ∀ e' ∈ l, WasRead cfg all e' := by
  have hfile : ∀ {st st' : VerifyState Hash} {w : WorkState},
      onSuccess cfg st = .ok (w, st') → w ≠ .WORK_FAILURE_FATAL →
      st.mCurrCheckpoint ∈ all →
      AheadOK cfg (WasRead cfg all) st.mVerifiedAhead →
      AheadOK cfg (WasRead cfg all) st'.mVerifiedAhead ∧ ∀ e, WasRead cfg [st.mCurrCheckpoint] e →
          ∃ l, FullChain cfg l ∧ e ∈ l ∧ ∀ e' ∈ l, WasRead cfg all e' := by
    intro st st' w hsuccess hw hmem hahead
    obtain ⟨_, hverify, hst'⟩ := onSuccess_ok hsuccess hw
    obtain ⟨file, e, r, l, hfile, hread, hfull, hl, hst₁⟩ :=
      verifyHistoryOfSingleCheckpoint_ok hverify hahead
    have hall : ∀ e' ∈ e :: r ++ l, WasRead cfg all e' := by
      intro e' he'
      rcases mem_append.mp he' with he' | he'
      · refine ⟨st.mCurrCheckpoint, hmem, file, hfile, ?_⟩
        rw [hread]
        exact he'
      · exact hl e' he'
    constructor
    · exact .inr ⟨e, r ++ l, hfull, hall, by rw [hst', hst₁]⟩
    · rintro e' ⟨c, hc, file', hfile', he'⟩
      rw [mem_singleton.mp hc, hfile] at hfile'
      obtain rfl : file = file' := Option.some.inj hfile'
      refine ⟨e :: r ++ l, hfull, ?_, hall⟩
      rw [hread] at he'
      exact mem_append_left l he'
  induction h with
  | success hsuccess =>
    exact (hfile hsuccess (by simp) (hsub _ mem_cons_self) hahead).2
  | running hrunning hrest ih =>
    have hhead := hsub _ mem_cons_self
    obtain ⟨hahead', hcovered⟩ := hfile hrunning (by simp) hhead hahead
    rintro e ⟨c, hc, hread⟩
    rcases mem_cons.mp hc with rfl | hc
    · exact hcovered e ⟨_, mem_singleton.mpr rfl, hread⟩
    · exact ih (fun c hc => hsub c (mem_cons_of_mem _ hc)) hahead' e ⟨c, hc, hread⟩

end Runs

/-! ## The chain of a range -/

section Range

variable {cfg}

variable {l : List (LedgerHeaderHistoryEntry Hash)}

omit [DecidableEq Hash] in
/-- Counting back from the end of a chain. -/
theorem seq_add_of_chain {z : LedgerHeaderHistoryEntry Hash} (hl : l.IsChain Follows)
    (hz : l.getLast? = some z) (i : Nat) (hi : i < l.length) :
    (l[i].header.ledgerSeq.toNat + (l.length - 1 - i)) % 4294967296 =
      z.header.ledgerSeq.toNat := by
  induction l generalizing i with
  | nil => cases hz
  | cons a l ih =>
    cases l with
    | nil =>
      cases hz
      obtain rfl : i = 0 := by simpa using hi
      exact Nat.mod_eq_of_lt a.header.ledgerSeq.toNat_lt
    | cons b l =>
      obtain ⟨hab, hl⟩ := List.isChain_cons_cons.mp hl
      have ih := ih hl (by rwa [List.getLast?_cons_cons] at hz)
      cases i with
      | zero =>
        have hb := ih 0 (by simp)
        have hseq : b.header.ledgerSeq.toNat = (a.header.ledgerSeq.toNat + 1) % 4294967296 := by
          rw [hab.1, UInt32.toNat_add]
          rfl
        simp only [List.getElem_cons_zero, List.length_cons] at hb ⊢
        omega
      | succ i =>
        have hb := ih i (by simpa using hi)
        simp only [List.getElem_cons_succ, List.length_cons] at hb ⊢
        rw [← hb]
        congr 2
        omega

/-- The header chain of the range: what is claimed of a successful run. -/
def RangeVerified (cfg : VerifyConfig Hash) (checkpoints : List UInt32) :
    Prop :=
  ∃ l : List (LedgerHeaderHistoryEntry Hash),
    (∀ e ∈ l, WasRead cfg checkpoints e) ∧
    l.map (·.header.ledgerSeq.toNat) =
      List.range' cfg.first.toNat (cfg.last.toNat - cfg.first.toNat + 1) ∧
    (∀ e ∈ l, e.hash = cfg.sha256 e.header) ∧
    l.IsChain (fun a b => b.header.previousLedgerHash = a.hash) ∧
    (∀ h, cfg.trustedEndLedger.2 = some h →
      ∃ e, l.getLast? = some e ∧ e.hash = h) ∧
    (cfg.first ≤ cfg.lastClosed.1 ∧ cfg.lastClosed.1 ≤ cfg.last →
      ∃ e ∈ l, e.header.ledgerSeq = cfg.lastClosed.1 ∧
        e.hash = cfg.lastClosed.2) ∧
    (cfg.lastClosed.1.toNat + 1 = cfg.first.toNat →
      ∃ e, l.head? = some e ∧
        e.header.previousLedgerHash = cfg.lastClosed.2)

omit [DecidableEq Hash] in
/-- The last part of a full chain that contains the first ledger is the chain
of the range. -/
theorem FullChain.suffix_of_mem (h : FullChain cfg l) (he : e ∈ l)
    (hfirst : e.header.ledgerSeq = cfg.first) :
    ∃ r, r <:+ l ∧ r.map (·.header.ledgerSeq.toNat) = List.range' cfg.first.toNat
        (cfg.last.toNat - cfg.first.toNat + 1) := by
  obtain ⟨z, hz, hend, -⟩ := h.ends
  have hle : cfg.first.toNat ≤ cfg.last.toNat :=
    UInt32.le_iff_toNat_le.mp cfg.first_le_last
  have hlt : cfg.last.toNat < 4294967296 := cfg.last.toNat_lt
  have hback := seq_add_of_chain h.links hz
  rw [hend] at hback
  -- the first ledger is at least as far from the end as the range is long
  have hlen : cfg.last.toNat - cfg.first.toNat < l.length := by
    obtain ⟨i, hi, rfl⟩ := List.mem_iff_getElem.mp he
    have := hback i hi
    rw [hfirst] at this
    by_contra hge
    rw [Nat.mod_eq_of_lt (by omega)] at this
    omega
  refine ⟨l.drop (l.length - (cfg.last.toNat - cfg.first.toNat + 1)), List.drop_suffix _ _, ?_⟩
  apply List.ext_getElem
  · simp only [List.length_map, List.length_drop, List.length_range']
    omega
  · intro i h₁ h₂
    simp only [List.length_map, List.length_drop, List.length_range'] at h₁ h₂
    rw [List.getElem_map, List.getElem_range', List.getElem_drop]
    have hbound : l.length - (cfg.last.toNat - cfg.first.toNat + 1) + i <
        l.length := by omega
    have hi := hback _ hbound
    have hseq := l[l.length - (cfg.last.toNat - cfg.first.toNat + 1) + i].header.ledgerSeq.toNat_lt
    omega

omit [DecidableEq Hash] in
/-- The chain of the range, found in a full chain with the first ledger. -/
theorem FullChain.rangeVerified {checkpoints : List UInt32} (h : FullChain cfg l)
    (hread : ∀ e ∈ l, WasRead cfg checkpoints e)
    (he : e ∈ l)
    (hfirst : e.header.ledgerSeq = cfg.first) :
    RangeVerified cfg checkpoints := by
  obtain ⟨r, hr, hseqs⟩ := h.suffix_of_mem he hfirst
  have hok : ∀ e ∈ r, EntryOK cfg e :=
    fun e he => h.entries e (hr.subset he)
  have hle : cfg.first.toNat ≤ cfg.last.toNat :=
    UInt32.le_iff_toNat_le.mp cfg.first_le_last
  have hpos : 0 < cfg.first.toNat := UInt32.lt_iff_toNat_lt.mp cfg.first_pos
  refine ⟨r, fun e he => hread e (hr.subset he), hseqs, fun e he => (hok e he).hash, ?_, ?_, ?_, ?_⟩
  · exact (h.links.suffix hr).imp fun _ _ hab => hab.2
  · -- the two chains end at the same header
    intro t ht
    obtain ⟨z, hz, -, htrusted⟩ := h.ends
    refine ⟨z, ?_, htrusted t ht⟩
    obtain ⟨front, rfl⟩ := hr
    cases hlast : r.getLast? with
    | none =>
      rw [List.getLast?_eq_none_iff.mp hlast] at hseqs
      cases hseqs
    | some z' =>
      rw [List.getLast?_append, hlast] at hz
      exact hz
  · rintro ⟨hge, hle'⟩
    have hmem : cfg.lastClosed.1.toNat ∈ r.map (·.header.ledgerSeq.toNat) := by
      rw [hseqs, List.mem_range'_1]
      have := UInt32.le_iff_toNat_le.mp hge
      have := UInt32.le_iff_toNat_le.mp hle'
      omega
    obtain ⟨e', he', hseq⟩ := List.mem_map.mp hmem
    have hseq' : e'.header.ledgerSeq = cfg.lastClosed.1 :=
      UInt32.toNat_inj.mp hseq
    exact ⟨e', he', hseq', (hok e' he').atLastClosed hseq'⟩
  · intro hlcl
    cases r with
    | nil => cases hseqs
    | cons e' r =>
      refine ⟨e', rfl, (hok e' List.mem_cons_self).afterLastClosed ?_⟩
      have hseq : e'.header.ledgerSeq.toNat = cfg.first.toNat := by
        rw [List.map_cons, List.range'_succ] at hseqs
        exact (List.cons.inj hseqs).1
      apply UInt32.toNat_inj.mp
      rw [UInt32.toNat_add, hseq, ← hlcl]
      have := cfg.first.toNat_lt
      exact (Nat.mod_eq_of_lt (by omega)).symm

end Range

/-! ## Soundness -/

/-- A successful run vouches for the whole range exactly if it has read a
header for the first ledger of the range. -/
theorem verified_chain_iff (cfg : VerifyConfig Hash) (checkpoints : List UInt32)
    (h : EndsInSuccess cfg (onReset cfg) checkpoints) :
    RangeVerified cfg checkpoints ↔
      ∃ e, WasRead cfg checkpoints e ∧ e.header.ledgerSeq = cfg.first := by
  constructor
  · rintro ⟨l, hread, hseqs, -⟩
    cases l with
    | nil => cases hseqs
    | cons e l =>
      refine ⟨e, hread e mem_cons_self, UInt32.toNat_inj.mp ?_⟩
      rw [map_cons] at hseqs
      exact (List.cons.inj hseqs).1
  · rintro ⟨e, hread, hfirst⟩
    obtain ⟨l, hfull, he, hall⟩ :=
      h.covered (fun _ hc => hc) (.inl rfl) e hread
    exact hfull.rangeVerified hall he hfirst

/-- Headers with an injective hash. -/
def pairHash (h : LedgerHeader Nat) : Nat :=
  Nat.pair h.ledgerVersion.toNat
    (Nat.pair h.ledgerSeq.toNat (Nat.pair h.previousLedgerHash h.other))

theorem pairHash_injective : Function.Injective pairHash := by
  rintro ⟨v, s, p, o⟩ ⟨_, _, _, _⟩ h
  simp only [pairHash, Nat.pair_eq_pair, UInt32.toNat_inj] at h
  obtain ⟨rfl, rfl, rfl, rfl⟩ := h
  rfl

/-- A header of ledger `seq`, with its hash. -/
def chainEntry (seq : UInt32) (prev : Nat) : LedgerHeaderHistoryEntry Nat :=
  let header : LedgerHeader Nat :=
    { ledgerVersion := 10, ledgerSeq := seq, previousLedgerHash := prev,
      other := 0 }
  { hash := pairHash header, header := header }

/-- Verify `[first, 127]` against one downloaded file. -/
def oneFileConfig (first : UInt32) (hpos : 0 < first) (hle : first ≤ 127)
    (entries : List (LedgerHeaderHistoryEntry Nat)) : VerifyConfig Nat where
  sha256 := pairHash
  files c := if c = 127 then some { entries := entries, malformed := false }
    else none
  accelerated := false
  first := first
  last := 127
  lastClosed := (63, 5)
  trustedEndLedger := (127, none)
  first_pos := hpos
  first_le_last := hle
  trustedEndLedger_fst := rfl

/-- The work succeeds on the first file. -/
def succeedsAt (cfg : VerifyConfig Hash) : Bool :=
  match onSuccess cfg (onReset cfg) with
  | .ok (.WORK_SUCCESS, _) => true
  | _ => false

theorem endsInSuccess_of_first {cfg : VerifyConfig Hash} {c : UInt32}
    (h : succeedsAt cfg = true) (hc : (onReset cfg).mCurrCheckpoint = c) :
    EndsInSuccess cfg (onReset cfg) [c] := by
  unfold succeedsAt at h
  split at h
  · rename_i st' hst'
    rw [← hc]
    exact .success hst'
  · cases h

theorem verified_chain_two :
    let cfg := oneFileConfig 126 (by decide) (by decide)
      [chainEntry 126 9, chainEntry 127 (chainEntry 126 9).hash]
    EndsInSuccess cfg (onReset cfg) [127] ∧ (RangeVerified cfg [127] ↔
        ∃ e, WasRead cfg [127] e ∧ e.header.ledgerSeq = cfg.first) := by
  intro cfg
  have hrun : EndsInSuccess cfg (onReset cfg) [127] :=
    endsInSuccess_of_first (by decide +kernel) (by decide +kernel)
  exact ⟨hrun, verified_chain_iff cfg [127] hrun⟩

/-- The range `[64, 127]` is accepted although the only file, that of its
checkpoint, holds nothing but ledger 127. -/
theorem success_without_first :
    let cfg := oneFileConfig 64 (by decide) (by decide) [chainEntry 127 9]
    Function.Injective cfg.sha256 ∧ EndsInSuccess cfg (onReset cfg) [127] ∧
      (∀ c file e, cfg.files c = some file → e ∈ file.entries → e.header.ledgerSeq ≠ 64) ∧
      ¬ RangeVerified cfg [127] := by
  intro cfg
  have hnone : ∀ c file e, cfg.files c = some file → e ∈ file.entries →
      e.header.ledgerSeq ≠ 64 := by
    intro c file e hfile he
    have hfile : (if c = 127 then
        some (LedgerFile.mk [chainEntry 127 9] false) else none) =
        some file := hfile
    split at hfile
    · cases hfile
      rw [mem_singleton.mp he]
      decide
    · cases hfile
  refine ⟨pairHash_injective, endsInSuccess_of_first (by decide +kernel) (by decide +kernel), hnone,
    ?_⟩
  rintro ⟨l, hread, hseqs, -⟩
  cases l with
  | nil => cases hseqs
  | cons e l =>
    obtain ⟨c, -, file, hfile, he⟩ := hread e mem_cons_self
    refine hnone c file e hfile (mem_of_mem_readEntries he) (UInt32.toNat_inj.mp ?_)
    rw [map_cons] at hseqs
    exact (List.cons.inj hseqs).1

end EssaCore.Catchup
