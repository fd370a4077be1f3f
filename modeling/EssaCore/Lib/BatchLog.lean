import Mathlib

/-!
# Runs over a log of batches

A log is a sequence of batches, numbered from one; a batch mentions some keys,
each with a value. A *run* stores, for the batches of a range `(lo, hi]`, at most
one value for each key. It need not store everything: a key may be left out
if a later batch mentions it again, and in the run over the oldest batches a
value may be left out if it says that the key is gone.

- `lastIn` — the last mention of a key in a range;
- `Represents` — what a run may contain, and what it must contain;
- `Represents.merge` — merging the runs of two adjacent ranges;
- `Tiles.scan_eq` — searching runs that tile the log, the newest first, finds the
  last mention.
-/

open Option

namespace EssaCore.Lib

variable {K V : Type*}

/-- A log: what batch `n` says about a key. -/
abbrev BatchLog (K V : Type*) := ℕ → K → Option V

namespace BatchLog

variable (log : BatchLog K V)

/-- The last mention of a key in the batches of `(lo, hi]`, with its batch. -/
def lastIn (lo : ℕ) (k : K) : ℕ → Option (ℕ × V)
  | 0 => none
  | hi + 1 =>
    if lo ≤ hi then ((log (hi + 1) k).map (hi + 1, ·)).or (lastIn lo k hi) else none

variable {log} {lo mid hi n n' m : ℕ} {k : K} {v : V}

theorem lastIn_of_le (h : hi ≤ lo) : log.lastIn lo k hi = none := by
  cases hi with
  | zero => rfl
  | succ hi => rw [lastIn, if_neg (by omega)]

/-- The last mention: the key is mentioned there, and not after. -/
theorem lastIn_eq_some_iff : log.lastIn lo k hi = some (m, v) ↔
      lo < m ∧ m ≤ hi ∧ log m k = some v ∧ ∀ i, m < i → i ≤ hi → log i k = none := by
  induction hi with
  | zero =>
    constructor
    · rintro ⟨⟩
    · omega
  | succ hi ih =>
    rw [lastIn]
    by_cases hle : lo ≤ hi
    · rw [if_pos hle]
      cases hlog : log (hi + 1) k with
      | some w =>
        rw [map_some]
        constructor
        · rintro ⟨⟩
          exact ⟨by omega, Nat.le_refl _, hlog, fun i h1 h2 => by omega⟩
        · rintro ⟨h1, h2, h3, h4⟩
          by_cases hm : m = hi + 1
          · subst hm
            rw [hlog] at h3
            cases h3
            rfl
          · have := h4 (hi + 1) (by omega) (Nat.le_refl _)
            rw [hlog] at this
            cases this
      | none =>
        rw [map_none, none_or, ih]
        constructor
        · rintro ⟨h1, h2, h3, h4⟩
          refine ⟨h1, by omega, h3, fun i hi1 hi2 => ?_⟩
          by_cases hi3 : i = hi + 1
          · rw [hi3, hlog]
          · exact h4 i hi1 (by omega)
        · rintro ⟨h1, h2, h3, h4⟩
          have hm : m ≠ hi + 1 := by
            rintro rfl
            rw [hlog] at h3
            cases h3
          exact ⟨h1, by omega, h3, fun i hi1 hi2 => h4 i hi1 (by omega)⟩
    · rw [if_neg hle]
      constructor
      · rintro ⟨⟩
      · omega

/-- A key that has a mention in a range has a last one. -/
theorem exists_lastIn (hlo : lo < m) (hhi : m ≤ hi) (h : log m k ≠ none) :
    ∃ m' v, m ≤ m' ∧ log.lastIn lo k hi = some (m', v) := by
  induction hi with
  | zero => omega
  | succ hi ih =>
    rw [lastIn, if_pos (by omega)]
    cases hlog : log (hi + 1) k with
    | some w => exact ⟨hi + 1, w, hhi, rfl⟩
    | none =>
      have hm : m ≠ hi + 1 := by
        rintro rfl
        exact h hlog
      obtain ⟨m', v, hm', hlast⟩ := ih (by omega)
      exact ⟨m', v, hm', by exact hlast⟩

/-- The last mention in a range that is split in two. -/
theorem lastIn_split (h₁ : lo ≤ mid) (h₂ : mid ≤ hi) :
    log.lastIn lo k hi = (log.lastIn mid k hi).or (log.lastIn lo k mid) := by
  cases hnew : log.lastIn mid k hi with
  | some x =>
    obtain ⟨_, hm2, hm3, hm4⟩ := lastIn_eq_some_iff.mp hnew
    exact lastIn_eq_some_iff.mpr ⟨by omega, hm2, hm3, hm4⟩
  | none =>
    have hnone : ∀ i, mid < i → i ≤ hi → log i k = none := by
      intro i hi1 hi2
      by_contra hne
      obtain ⟨_, v, -, hlast⟩ := exists_lastIn hi1 hi2 hne
      rw [hnew] at hlast
      cases hlast
    rw [none_or]
    refine ext fun x => ?_
    obtain ⟨m, v⟩ := x
    rw [lastIn_eq_some_iff, lastIn_eq_some_iff]
    constructor
    · rintro ⟨h1, h2, h3, h4⟩
      have hmid : m ≤ mid := by
        by_contra hlt
        rw [hnone m (by omega) h2] at h3
        cases h3
      exact ⟨h1, hmid, h3, fun i hi1 hi2 => h4 i hi1 (by omega)⟩
    · rintro ⟨h1, h2, h3, h4⟩
      refine ⟨h1, by omega, h3, fun i hi1 hi2 => ?_⟩
      by_cases him : i ≤ mid
      · exact h4 i hi1 him
      · exact hnone i (by omega) hi2

/-- No mention in a range. -/
theorem lastIn_eq_none_iff : log.lastIn lo k hi = none ↔ ∀ i, lo < i → i ≤ hi → log i k = none := by
  constructor
  · intro h i h1 h2
    by_contra hne
    obtain ⟨_, v, -, hlast⟩ := exists_lastIn h1 h2 hne
    rw [h] at hlast
    cases hlast
  · intro h
    cases hlast : log.lastIn lo k hi with
    | none => rfl
    | some x =>
      obtain ⟨m, v⟩ := x
      obtain ⟨h1, h2, h3, -⟩ := lastIn_eq_some_iff.mp hlast
      rw [h m h1 h2] at h3
      cases h3

variable (log) in
/-- The key is mentioned in `(lo, hi]`. -/
def MentionedIn (lo hi : ℕ) (k : K) : Prop := ∃ i, lo < i ∧ i ≤ hi ∧ log i k ≠ none

theorem MentionedIn.mono (h : log.MentionedIn lo hi k) (hn : hi ≤ n) : log.MentionedIn lo n k := by
  obtain ⟨i, h1, _, h3⟩ := h
  exact ⟨i, h1, by omega, h3⟩

theorem mentionedIn_iff : log.MentionedIn lo hi k ↔ log.lastIn lo k hi ≠ none := by
  rw [Ne, lastIn_eq_none_iff]
  constructor
  · rintro ⟨i, h1, h2, h3⟩ h
    exact h3 (h i h1 h2)
  · intro h
    by_contra hno
    refine h fun i h1 h2 => ?_
    by_contra hne
    exact hno ⟨i, h1, h2, hne⟩

/-- A mention after `mid` is one up to `hi` or one after it. -/
theorem MentionedIn.split (h : log.MentionedIn mid n k) :
    log.MentionedIn mid hi k ∨ log.MentionedIn hi n k := by
  obtain ⟨i, h1, h2, h3⟩ := h
  by_cases hi' : i ≤ hi
  · exact .inl ⟨i, h1, hi', h3⟩
  · exact .inr ⟨i, by omega, h2, h3⟩

/-! ## Runs -/

/-- The run `b` over the batches of `(lo, hi]`, at the time of batch `n`. A value
in it may be outdated, and a value may be missing, if the key is mentioned after
the range. Values with `gone` may also be missing if `bottom`. -/
structure Represents (log : BatchLog K V) (gone : V → Prop) (lo hi n : ℕ)
    (bottom : Prop) (b : K → Option V) : Prop where
  mentioned : ∀ k v, b k = some v → ∃ m, lo < m ∧ m ≤ hi ∧ log m k = some v
  sound : ∀ k v, b k = some v →
    (∃ m, log.lastIn lo k hi = some (m, v)) ∨ log.MentionedIn hi n k
  complete : ∀ k m v, log.lastIn lo k hi = some (m, v) →
    b k = some v ∨ log.MentionedIn hi n k ∨ (bottom ∧ gone v)

namespace Represents

variable {gone : V → Prop} {bottom bottom' : Prop} {b old new : K → Option V}

/-- The run over no batches. -/
theorem empty : Represents log gone lo lo n bottom fun _ => none where
  mentioned := nofun
  sound := nofun
  complete k m v h := by
    rw [lastIn_of_le (Nat.le_refl _)] at h
    cases h

/-- Time passes. -/
theorem mono (h : Represents log gone lo hi n bottom b) (hn : n ≤ n') :
    Represents log gone lo hi n' bottom b where
  mentioned := h.mentioned
  sound k v hb := (h.sound k v hb).imp_right (·.mono hn)
  complete k m v hlast := (h.complete k m v hlast).imp_right (·.imp_left (·.mono hn))

/-- The run of a single batch. -/
theorem batch (h : ∀ k, b k = log (n + 1) k) : Represents log gone n (n + 1) (n + 1) bottom b where
  mentioned k v hb := ⟨n + 1, by omega, Nat.le_refl _, by rw [← h, hb]⟩
  sound k v hb := by
    refine .inl ⟨n + 1, lastIn_eq_some_iff.mpr ⟨by omega, Nat.le_refl _, ?_, ?_⟩⟩
    · rw [← h, hb]
    · omega
  complete k m v hlast := by
    obtain ⟨_, _, h3, -⟩ := lastIn_eq_some_iff.mp hlast
    have hm : m = n + 1 := by omega
    exact .inl (by rw [h, ← hm, h3])

/-- A key in a run is mentioned in its range. -/
theorem mentionedIn (h : Represents log gone lo hi n bottom b) (hb : b k ≠ none) :
    log.MentionedIn lo hi k := by
  obtain ⟨v, hv⟩ := ne_none_iff_exists'.mp hb
  obtain ⟨m, h1, h2, h3⟩ := h.mentioned k v hv
  exact ⟨m, h1, h2, by rw [h3]; nofun⟩

/-- Merging the runs of adjacent ranges. A key may be left out if it is
shadowed, which means that a later batch mentions it, and so may a value that is
gone if the result is at the bottom. -/
theorem merge {out : K → Option V} {shadowed : K → Prop} {keep : V → Bool}
    [DecidablePred shadowed] (h₁ : lo ≤ mid) (h₂ : mid ≤ hi)
    (hold : Represents log gone lo mid n bottom old)
    (hnew : Represents log gone mid hi n False new)
    (hshadow : ∀ k, shadowed k → log.MentionedIn hi n k)
    (hbottom : bottom → bottom') (hkeep : ∀ v, keep v = false → bottom' ∧ gone v)
    (hout : ∀ k, out k =
      if shadowed k then none else ((new k).or (old k)).filter keep) :
    Represents log gone lo hi n bottom' out := by
  -- the value of an unshadowed key comes from the new run, else from the old one
  have hcases : ∀ k v, out k = some v → new k = some v ∨ new k = none ∧ old k = some v := by
    intro k v hv
    rw [hout] at hv
    split at hv
    · cases hv
    · obtain ⟨hv, -⟩ := filter_eq_some_iff.mp hv
      exact or_eq_some_iff.mp hv
  -- a value that is taken is kept, unless it is gone
  have htaken : ∀ k v, ¬ shadowed k → (new k).or (old k) = some v →
      out k = some v ∨ log.MentionedIn hi n k ∨ (bottom' ∧ gone v) := by
    intro k v hk hv
    rw [hout, if_neg hk, hv, filter_some]
    cases hkv : keep v with
    | true => exact .inl rfl
    | false => exact .inr (.inr (hkeep v hkv))
  constructor
  · intro k v hv
    rcases hcases k v hv with hv | ⟨-, hv⟩
    · obtain ⟨m, h1, h2, h3⟩ := hnew.mentioned k v hv
      exact ⟨m, by omega, h2, h3⟩
    · obtain ⟨m, h1, h2, h3⟩ := hold.mentioned k v hv
      exact ⟨m, h1, by omega, h3⟩
  · intro k v hv
    rw [lastIn_split h₁ h₂]
    rcases hcases k v hv with hv | ⟨hnone, hv⟩
    · refine (hnew.sound k v hv).imp_left ?_
      rintro ⟨m, hm⟩
      exact ⟨m, by rw [hm, some_or]⟩
    · -- the new run has no value: it does not mention the key, or a later batch does
      cases hlast : log.lastIn mid k hi with
      | some x =>
        rcases hnew.complete k x.1 x.2 hlast with h | h | h
        · rw [hnone] at h
          cases h
        · exact .inr h
        · exact h.1.elim
      | none =>
        rcases hold.sound k v hv with ⟨m, hm⟩ | h
        · exact .inl ⟨m, by rw [hm, none_or]⟩
        · refine .inr (h.split.resolve_left ?_)
          rw [mentionedIn_iff, hlast]
          exact fun h => h rfl
  · intro k m v hlast
    by_cases hk : shadowed k
    · exact .inr (.inl (hshadow k hk))
    rw [lastIn_split h₁ h₂] at hlast
    rcases or_eq_some_iff.mp hlast with hlast | ⟨hnone, hlast⟩
    · rcases hnew.complete k m v hlast with h | h | h
      · exact htaken k v hk (by rw [h, some_or])
      · exact .inr (.inl h)
      · exact h.1.elim
    · have hno : ¬ log.MentionedIn mid hi k := by
        rw [mentionedIn_iff, hnone]
        exact fun h => h rfl
      have hnewk : new k = none := by
        by_contra hne
        exact hno (hnew.mentionedIn hne)
      rcases hold.complete k m v hlast with h | h | h
      · exact htaken k v hk (by rw [hnewk, none_or, h])
      · exact .inr (.inl (h.split.resolve_left hno))
      · exact .inr (.inr ⟨hbottom h.1, h.2⟩)

end Represents

/-! ## Searching runs that tile the log -/

/-- Runs, the newest first, that tile the batches of `(base, hi]` at the time of
batch `n`. Only a run that reaches down to the first batch is at the bottom. -/
inductive Tiles (log : BatchLog K V) (gone : V → Prop) (n base : ℕ) :
    ℕ → List (K → Option V) → Prop where
  | nil : Tiles log gone n base base []
  | cons {lo hi : ℕ} {bottom : Prop} {b : K → Option V} {bs : List (K → Option V)}
      (hle : lo ≤ hi) (hb : Represents log gone lo hi n bottom b)
      (hbottom : bottom → lo = 0) (hbs : Tiles log gone n base lo bs) :
      Tiles log gone n base hi (b :: bs)

namespace Tiles

variable {gone : V → Prop} {bs : List (K → Option V)} {base : ℕ} {v : V}

theorem base_le (h : Tiles log gone n base hi bs) : base ≤ hi := by
  induction h with
  | nil => exact Nat.le_refl _
  | cons hle _ _ _ ih => exact Nat.le_trans ih hle

/-- Adjacent tilings. -/
theorem append {mid : ℕ} {bs' : List (K → Option V)} (h : Tiles log gone n mid hi bs)
    (h' : Tiles log gone n base mid bs') : Tiles log gone n base hi (bs ++ bs') := by
  induction h with
  | nil => exact h'
  | cons hle hb hbottom _ ih => exact .cons hle hb hbottom ih

variable (h : Tiles log gone n base hi bs)

include h

/-- Searching for a key that is not mentioned finds nothing. -/
theorem scan_of_not_mentioned (hk : ¬ log.MentionedIn base hi k) : bs.findSome? (· k) = none := by
  induction h with
  | nil => rfl
  | @cons lo hi _ b bs hle hb _ hbs ih =>
    have hbase := hbs.base_le
    have hbk : b k = none := by
      by_contra hne
      obtain ⟨i, _, h2, h3⟩ := hb.mentionedIn hne
      exact hk ⟨i, by omega, h2, h3⟩
    rw [List.findSome?_cons, hbk]
    exact ih fun h => hk (h.mono hle)

/-- What a search finds is mentioned. -/
theorem mentioned_of_scan
    (hv : bs.findSome? (· k) = some v) : ∃ m, base < m ∧ m ≤ hi ∧ log m k = some v := by
  induction h with
  | nil => cases hv
  | @cons lo hi _ b bs hle hb _ hbs ih =>
    rw [List.findSome?_cons] at hv
    cases hbk : b k with
    | none =>
      rw [hbk] at hv
      obtain ⟨m, hlo, hhi, hlog⟩ := ih hv
      exact ⟨m, hlo, by omega, hlog⟩
    | some w =>
      rw [hbk] at hv
      cases hv
      have hbase := hbs.base_le
      obtain ⟨m, hlo, hhi, hlog⟩ := hb.mentioned k v hbk
      exact ⟨m, by omega, hhi, hlog⟩

/-- Searching for a key that is not mentioned after `hi` finds its last mention
up to `hi`, or nothing if that says the key is gone and the runs reach down to
the first batch. -/
theorem scan_eq (hlater : ¬ log.MentionedIn hi n k) (hlast : log.lastIn base k hi = some (m, v)) :
    bs.findSome? (· k) = some v ∨ bs.findSome? (· k) = none ∧ gone v ∧ base = 0 := by
  induction h with
  | nil =>
    rw [lastIn_of_le (Nat.le_refl _)] at hlast
    cases hlast
  | @cons lo hi _ b bs hle hb hbottom hbs ih =>
    rw [lastIn_split hbs.base_le hle] at hlast
    rcases or_eq_some_iff.mp hlast with hlast | ⟨hnone, hlast⟩
    · -- the last mention is in the range of this run
      rcases hb.complete k m v hlast with h | h | ⟨hbot, hgone⟩
      · exact .inl (by rw [List.findSome?_cons, h])
      · exact absurd h hlater
      · have hlo := hbottom hbot
        have hbase := hbs.base_le
        cases hbk : b k with
        | none =>
          refine .inr ⟨?_, hgone, by omega⟩
          rw [List.findSome?_cons, hbk]
          refine hbs.scan_of_not_mentioned ?_
          rintro ⟨i, _, _, -⟩
          omega
        | some w =>
          rcases hb.sound k w hbk with ⟨_, hm'⟩ | h
          · rw [hlast] at hm'
            cases hm'
            exact .inl (by rw [List.findSome?_cons, hbk])
          · exact absurd h hlater
    · -- this run does not mention the key
      have hno : ¬ log.MentionedIn lo hi k := by
        rw [mentionedIn_iff, hnone]
        exact fun h => h rfl
      have hbk : b k = none := by
        by_contra hne
        exact hno (hb.mentionedIn hne)
      rw [List.findSome?_cons, hbk]
      refine ih (fun h => ?_) hlast
      rcases h.split with h | h
      · exact hno h
      · exact hlater h

end Tiles

end BatchLog

end EssaCore.Lib
