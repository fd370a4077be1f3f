import EssaCore.Buckets.Bucket

/-!
# What merges and new buckets hold

The functions of `Buckets/Bucket.lean` on files that are strictly sorted by the comparisons of
`bucket/LedgerCmp.h`: which entries they write, and in which order.

- `mem_mergeEntries_iff`, `mem_filter_kept`, `mem_freshChecked` — the entries;
- `merge_fresh_spec` — merges, new buckets and the comparisons.
-/

namespace EssaCore.Buckets

open Ledger Lib

variable {es : List BucketEntry} {e : BucketEntry} {shadows : List (List BucketEntry)}

/-! ## What is written -/

/-- The entries of a bucket's file are in strict order. -/
def StrictlySorted (es : List BucketEntry) : Prop :=
  es.Pairwise fun a b => BucketEntryIdCmp a b = true

theorem strictlySorted_iff : StrictlySorted es ↔ Sorted es := by
  simp [StrictlySorted, bucketEntryIdCmp_iff]

theorem mem_mergeEntries_iff {oi ni : List BucketEntry} (ho : Sorted oi) (hn : Sorted ni) :
    e ∈ mergeEntries oi ni ↔ e ∈ ni ∨ e ∈ oi ∧ ∀ n ∈ ni, n.key ≠ e.key := by
  have hne {l : List BucketEntry} (h : Sorted l) : l.Pairwise fun a b => a.key ≠ b.key :=
    h.imp fun hlt => hlt.ne
  have hfind := find_mergeEntries ho hn e.key
  have hmem {l : List BucketEntry} (h : Sorted l) : e ∈ l ↔ lookup l e.key = some e := by
    rw [lookup_eq_some_iff (hne h), and_iff_left rfl]
  rw [hmem (sorted_mergeEntries ho hn), hfind, Option.or_eq_some_iff, ← hmem hn, ← hmem ho,
    and_comm]
  simp [lookup]

theorem mem_filter_kept {old new : List BucketEntry}
    (ho : Sorted old) (hn : Sorted new) {keep : Bool} :
    e ∈ (mergeEntries old new).filter (Kept keep shadows) ↔
      (∀ si ∈ shadows, ∀ s ∈ si, s.key ≠ e.key) ∧ (keep = true ∨ e.isLive = true) ∧
        (e ∈ new ∨ e ∈ old ∧ ∀ n ∈ new, n.key ≠ e.key) := by
  have hkept : Kept keep shadows e = true ↔
      (∀ si ∈ shadows, ∀ s ∈ si, s.key ≠ e.key) ∧ (keep = true ∨ e.isLive = true) := by
    rw [Kept, Bool.and_eq_true, Bool.not_eq_true', decide_eq_false_iff_not]
    simp [Shadowed]
  rw [List.mem_filter, mem_mergeEntries_iff ho hn, hkept, and_comm, and_assoc]

/-- A new bucket has what it is given: no key is both live and dead. -/
theorem mem_freshChecked (std : StdSort) {liveEntries : List LedgerEntry}
    {deadEntries : List LedgerKey} (h : (liveEntries.map LedgerEntryKey ++ deadEntries).Nodup) :
    ∃ out, freshChecked std liveEntries deadEntries = .ok out ∧ Sorted out ∧
      ∀ e, e ∈ out ↔ (∃ l ∈ liveEntries, e = .LIVEENTRY l) ∨
        ∃ k ∈ deadEntries, e = .DEADENTRY k := by
  obtain ⟨hlive, hdead, hdisjoint⟩ := List.nodup_append.mp h
  obtain ⟨live, dead, hfresh, hsl, hsd, hpl, hpd⟩ :=
    freshChecked_eq std (List.pairwise_map.mp hlive) hdead
  refine ⟨_, hfresh, sorted_mergeEntries hsl hsd, fun e => ?_⟩
  rw [mem_mergeEntries_iff hsl hsd, hpl.mem_iff, hpd.mem_iff, List.mem_map, List.mem_map]
  constructor
  · rintro (⟨k, hk, rfl⟩ | ⟨⟨l, hl, rfl⟩, -⟩)
    · exact Or.inr ⟨k, hk, rfl⟩
    · exact Or.inl ⟨l, hl, rfl⟩
  · rintro (⟨l, hl, rfl⟩ | ⟨k, hk, rfl⟩)
    · refine Or.inr ⟨⟨l, hl, rfl⟩, fun n hn => ?_⟩
      obtain ⟨k, hk, rfl⟩ := List.mem_map.mp (hpd.mem_iff.mp hn)
      exact (hdisjoint _ (List.mem_map_of_mem hl) k hk).symm
    · exact Or.inl ⟨k, hk, rfl⟩

instance {T U : Type} [Identified T] [Identified U] : Identified (T ⊕ U) :=
  ⟨Sum.elim Identified.identity Identified.identity⟩

/-- Merges write, for each key that is in no shadow, the new entry or else the old one, except for
tombstones that are not kept; new buckets have the entries they are given; both are strictly sorted,
and the writer's assertion holds. The comparisons are strict weak orders, of entries and keys alike,
in which exactly what has the same key is tied. -/
theorem merge_fresh_spec :
    (∀ (old new : List BucketEntry) (shadows : List (List BucketEntry)) (keep : Bool),
      StrictlySorted old → StrictlySorted new → (∀ si ∈ shadows, StrictlySorted si) →
      ∃ out, mergeChecked old new shadows keep = .ok out ∧ StrictlySorted out ∧
        ∀ e, e ∈ out ↔ (∀ si ∈ shadows, ∀ s ∈ si, s.key ≠ e.key) ∧
          (keep = true ∨ e.isLive = true) ∧ (e ∈ new ∨ e ∈ old ∧ ∀ n ∈ new, n.key ≠ e.key)) ∧
    (∀ (std : StdSort) (live : List LedgerEntry) (dead : List LedgerKey),
      (live.map LedgerEntryKey ++ dead).Nodup →
      ∃ out, freshChecked std live dead = .ok out ∧ StrictlySorted out ∧
        ∀ e, e ∈ out ↔ (∃ l ∈ live, e = .LIVEENTRY l) ∨ ∃ k ∈ dead, e = .DEADENTRY k) ∧
    (StrictWeak
        (LedgerEntryIdCmp : LedgerEntryData ⊕ LedgerKey → LedgerEntryData ⊕ LedgerKey → Bool) ∧
      ∀ a b : LedgerEntryData ⊕ LedgerKey, Tied LedgerEntryIdCmp a b ↔
        Sum.elim LedgerEntryData.key id a = Sum.elim LedgerEntryData.key id b) ∧
    (StrictWeak BucketEntryIdCmp ∧ ∀ a b, Tied BucketEntryIdCmp a b ↔ a.key = b.key) := by
  simp only [strictlySorted_iff]
  refine ⟨fun old new shadows keep ho hn hs => ?_, fun std live dead h => mem_freshChecked std h,
    ⟨strictWeak_of_key fun _ _ => ledgerEntryIdCmp_iff,
      fun _ _ => tied_iff fun a b => ledgerEntryIdCmp_iff (a := a)⟩,
    ⟨strictWeak_bucketEntryIdCmp,
      fun _ _ => tied_iff fun a b => bucketEntryIdCmp_iff (a := a)⟩⟩
  exact ⟨_, mergeChecked_eq ho hn hs keep, (sorted_mergeEntries ho hn).filter _,
    fun e => mem_filter_kept ho hn⟩

/-- Account 1 has a new entry over an old one, account 2 an old one, account 3 only a tombstone,
and account 4 is shadowed; a new bucket sorts its two live entries and its tombstone. -/
theorem merge_fresh_spec_accounts :
    (∃ out, mergeChecked
        [.LIVEENTRY (dataEntry 1 5), .LIVEENTRY (dataEntry 2 5), .DEADENTRY (.data 3 "a")]
        [.LIVEENTRY (dataEntry 1 7), .LIVEENTRY (dataEntry 4 7)]
        [[.DEADENTRY (.account 9), .LIVEENTRY (dataEntry 4 8)]] false = .ok out ∧
      StrictlySorted out ∧
      ∀ e, e ∈ out ↔ e = .LIVEENTRY (dataEntry 1 7) ∨ e = .LIVEENTRY (dataEntry 2 5)) ∧
    ∃ out, freshChecked .stable [dataEntry 2 5, dataEntry 1 5] [.account 7] = .ok out ∧
      StrictlySorted out ∧
      ∀ e, e ∈ out ↔ e = .LIVEENTRY (dataEntry 1 5) ∨ e = .LIVEENTRY (dataEntry 2 5) ∨
        e = .DEADENTRY (.account 7) := by
  obtain ⟨hmerge, hfresh, -⟩ := merge_fresh_spec
  constructor
  · obtain ⟨out, hout, hsorted, hmem⟩ := hmerge
      [.LIVEENTRY (dataEntry 1 5), .LIVEENTRY (dataEntry 2 5), .DEADENTRY (.data 3 "a")]
      [.LIVEENTRY (dataEntry 1 7), .LIVEENTRY (dataEntry 4 7)]
      [[.DEADENTRY (.account 9), .LIVEENTRY (dataEntry 4 8)]] false
      (by unfold StrictlySorted; decide) (by unfold StrictlySorted; decide)
      (by unfold StrictlySorted; decide)
    refine ⟨out, hout, hsorted, fun e => ?_⟩
    rw [hmem]
    constructor
    · simp only [List.mem_cons, List.not_mem_nil, or_false]
      rintro ⟨hshadow, hlive, (rfl | rfl) | ⟨rfl | rfl | rfl, hnew⟩⟩
      · exact .inl rfl
      · exact absurd rfl (hshadow _ rfl (.LIVEENTRY (dataEntry 4 8)) (by simp))
      · exact absurd rfl (hnew (.LIVEENTRY (dataEntry 1 7)) (.inl rfl))
      · exact .inr rfl
      · rcases hlive with h | h <;> cases h
    · rintro (rfl | rfl)
      · decide
      · decide
  · obtain ⟨out, hout, hsorted, hmem⟩ :=
      hfresh .stable [dataEntry 2 5, dataEntry 1 5] [.account 7] (by decide)
    refine ⟨out, hout, hsorted, fun e => ?_⟩
    simp only [hmem, List.mem_cons, List.not_mem_nil, or_false, exists_eq_or_imp, exists_eq_left]
    tauto

end EssaCore.Buckets
