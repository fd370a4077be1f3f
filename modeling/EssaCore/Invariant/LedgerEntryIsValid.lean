import EssaCore.Ledger.LedgerTxnChanges
import EssaCore.Transactions.Atomicity

/-!
# Entries that are valid

`invariant/LedgerEntryIsValid.cpp`: after each operation the entries that it has recorded are
checked one by one. A check returns the first thing that is wrong, as a text, and the empty text
when there is none.

- `AccountEntry.checkIsValid` and its like, `checkOnOperationApply` — the checks;
- `AccountEntry.IsValid` and its like — what an entry is like that passes;
- `checkOnOperationApply_eq_empty` — nothing is reported of entries that are all valid.
-/

namespace EssaCore.Transactions

open Ledger

/-! ## Parts of the checks -/

/-- The masks of the flags of an account, a trust line and an offer -/
def MASK_ACCOUNT_FLAGS : Nat := 0x7

def MASK_TRUSTLINE_FLAGS : Nat := 1

def MASK_OFFERENTRY_FLAGS : Nat := 1

/-- `signerCompare` (15–19) -/
def signerCompare (s1 s2 : Signer) : Bool :=
  (signerRank s1.key).1 < (signerRank s2.key).1 ∨
    ((signerRank s1.key).1 = (signerRank s2.key).1 ∧ (signerRank s1.key).2 < (signerRank s2.key).2)

/-- Whether `std::adjacent_find` finds two neighbours -/
def adjacentFind {α : Type} (p : α → α → Bool) : List α → Bool
  | a :: b :: l => p a b || adjacentFind p (b :: l)
  | _ => false

theorem adjacentFind_eq_false {α : Type} {p : α → α → Bool} {l : List α} :
    adjacentFind p l = false ↔ l.IsChain fun a b => p a b = false := by
  fun_induction adjacentFind p l with
  | case1 a b l ih => rw [Bool.or_eq_false_iff, ih, List.isChain_cons_cons]
  | case2 l hshort =>
    refine iff_of_true rfl ?_
    match l, hshort with
    | [], _ => exact .nil
    | [a], _ => exact .singleton a
    | a :: b :: l, hshort => exact absurd rfl (hshort a b l)

theorem signerRank_injective {k₁ k₂ : SignerKey} (h₁ : (signerRank k₁).1 = (signerRank k₂).1)
    (h₂ : (signerRank k₁).2 = (signerRank k₂).2) : k₁ = k₂ := by
  cases k₁ <;> cases k₂ <;> first | exact congrArg _ (BitVec.eq_of_toNat_eq h₂) | cases h₁

theorem signerCompare_iff {a b : Signer} :
    signerCompare a b = true ↔ signerLe a b = true ∧ a.key ≠ b.key := by
  simp only [signerCompare, signerLe, decide_eq_true_eq]
  refine ⟨fun h => ⟨?_, fun hkey => ?_⟩, fun ⟨hle, hne⟩ => ?_⟩
  · omega
  · rw [hkey] at h
    omega
  · have : ¬ ((signerRank a.key).1 = (signerRank b.key).1 ∧
        (signerRank a.key).2 = (signerRank b.key).2) :=
      fun h => hne (signerRank_injective h.1 h.2)
    omega

instance : Trans (signerCompare · · = true) (signerCompare · · = true)
    (signerCompare · · = true) where
  trans := by
    intro a b c hab hbc
    simp only [signerCompare, decide_eq_true_eq] at *
    omega

/-- Neighbours are compared, and so all signers are. -/
theorem adjacentFind_signers {signers : List Signer} :
    adjacentFind (fun s1 s2 => !signerCompare s1 s2) signers = false ↔ SortedSigners signers := by
  have hcompare (a b : Signer) : (!signerCompare a b) = false ↔ signerCompare a b = true := by
    rw [Bool.not_eq_false']
  rw [adjacentFind_eq_false]
  simp only [hcompare]
  rw [List.isChain_iff_pairwise, SortedSigners]
  simp [signerCompare_iff]

end EssaCore.Transactions

namespace EssaCore.Ledger

open Transactions Lib

variable {version : Nat}

/-! ## The checks -/

/-- `checkIsValid` of an account (109–151) -/
def AccountEntry.checkIsValid (ae : AccountEntry) (version : Nat) : String :=
  if ae.balance < 0 then s!"Account balance ({ae.balance}) is negative"
  else if ae.seqNum < 0 then s!"Account seqNum ({ae.seqNum}) is negative"
  else if ae.numSubEntries > INT32_MAX then
    s!"Account numSubEntries ({ae.numSubEntries}) exceeds limit ({INT32_MAX})"
  else if ae.flags &&& complement32 MASK_ACCOUNT_FLAGS ≠ 0 then "Account flags are invalid"
  else if isString32Valid ae.homeDomain = false then "Account homeDomain is invalid"
  else if adjacentFind (fun s1 s2 => !signerCompare s1 s2) ae.signers = true then
    "Account signers are not strictly increasing"
  else if version > 9 ∧ ae.signers.all (fun s => s.weight ≤ UINT8_MAX && s.weight ≠ 0) = false then
    "Account signers have invalid weights"
  else ""

/-- `checkIsValid` of a trust line (153–182) -/
def TrustLineEntry.checkIsValid (tl : TrustLineEntry) : String :=
  if tl.asset = .native then "TrustLine asset is native"
  else if isAssetValid tl.asset = false then "TrustLine asset is invalid"
  else if tl.balance < 0 then s!"TrustLine balance ({tl.balance}) is negative"
  else if tl.limit ≤ 0 then s!"TrustLine balance ({tl.limit}) is not positive"
  else if tl.balance > tl.limit then
    s!"TrustLine balance ({tl.balance}) exceeds limit ({tl.limit})"
  else if tl.flags &&& complement32 MASK_TRUSTLINE_FLAGS ≠ 0 then "TrustLine flags are invalid"
  else ""

/-- `checkIsValid` of an offer (184–214) -/
def OfferEntry.checkIsValid (oe : OfferEntry) : String :=
  if oe.offerID > INT64_MAX then s!"Offer offerID ({oe.offerID}) exceeds limit ({INT64_MAX})"
  else if isAssetValid oe.selling = false then "Offer selling asset is invalid"
  else if isAssetValid oe.buying = false then "Offer buying asset is invalid"
  else if oe.amount ≤ 0 then "Offer amount is not positive"
  else if oe.price.n ≤ 0 ∨ oe.price.d < 1 then
    s!"Offer price ({oe.price.n} / {oe.price.d}) is invalid"
  else if oe.flags &&& complement32 MASK_OFFERENTRY_FLAGS ≠ 0 then "Offer flags are invalid"
  else ""

/-- `checkIsValid` of data (216–228) -/
def DataEntry.checkIsValid (de : DataEntry) : String :=
  if de.dataName.utf8ByteSize = 0 then "Data dataName is empty"
  else if isString32Valid de.dataName = false then "Data dataName is invalid"
  else ""

/-- What is checked of an entry besides the ledger it was modified in -/
def LedgerEntryData.checkIsValid (version : Nat) : LedgerEntryData → String
  | .account ae => ae.checkIsValid version
  | .trustLine tl => tl.checkIsValid
  | .offer oe => oe.checkIsValid
  | .data de => de.checkIsValid

/-- `checkIsValid` of an entry (84–107) -/
def LedgerEntry.checkIsValid (le : LedgerEntry) (ledgerSeq version : Nat) : String :=
  if le.lastModifiedLedgerSeq ≠ ledgerSeq then
    s!"LedgerEntry lastModifiedLedgerSeq ({le.lastModifiedLedgerSeq}) does not" ++
      s!" equal LedgerHeader ledgerSeq ({ledgerSeq})"
  else le.data.checkIsValid version

/-- The loop of `checkOnOperationApply` (50–62), with the printer of entries -/
def checkEntries (xdrToString : LedgerEntry → String) (ledgerSeq version : Nat) :
    List (Σ _ : LedgerKey, EntryDelta) → String
  | [] => ""
  | entryDelta :: entries =>
    match entryDelta.2.current with
    | none => checkEntries xdrToString ledgerSeq version entries
    | some current =>
      if current.checkIsValid ledgerSeq version ≠ "" then
        current.checkIsValid ledgerSeq version ++ ": " ++ xdrToString current
      else checkEntries xdrToString ledgerSeq version entries

/-- `checkOnOperationApply` (37–64) -/
def checkOnOperationApply (xdrToString : LedgerEntry → String) (ltxDelta : LedgerTxnDelta) :
    String :=
  let currLedgerSeq := ltxDelta.header.current.ledgerSeq
  if currLedgerSeq > INT32_MAX then
    s!"LedgerHeader ledgerSeq ({currLedgerSeq}) exceeds limits ({INT32_MAX})"
  else
    checkEntries xdrToString currLedgerSeq ltxDelta.header.current.ledgerVersion
      ltxDelta.entry.entries

/-! ## Entries that pass -/

/-- An account that passes, since protocol 10 -/
structure AccountEntry.IsValid (ae : AccountEntry) : Prop where
  balance : 0 ≤ ae.balance
  seqNum : 0 ≤ ae.seqNum
  numSubEntries : ae.numSubEntries ≤ INT32_MAX
  flags : ae.flags &&& complement32 MASK_ACCOUNT_FLAGS = 0
  homeDomain : isString32Valid ae.homeDomain = true
  signers : SortedSigners ae.signers
  weights : ∀ s ∈ ae.signers, s.weight ≤ UINT8_MAX ∧ s.weight ≠ 0

/-- A trust line that passes -/
structure TrustLineEntry.IsValid (tl : TrustLineEntry) : Prop where
  notNative : tl.asset ≠ .native
  asset : isAssetValid tl.asset = true
  balance : 0 ≤ tl.balance
  limit : 0 < tl.limit
  within : tl.balance ≤ tl.limit
  flags : tl.flags &&& complement32 MASK_TRUSTLINE_FLAGS = 0

/-- An offer that passes -/
structure OfferEntry.IsValid (oe : OfferEntry) : Prop where
  offerID : oe.offerID ≤ INT64_MAX
  selling : isAssetValid oe.selling = true
  buying : isAssetValid oe.buying = true
  amount : 0 < oe.amount
  price : 0 < oe.price.n ∧ 0 < oe.price.d
  flags : oe.flags &&& complement32 MASK_OFFERENTRY_FLAGS = 0

/-- Data that passes -/
structure DataEntry.IsValid (de : DataEntry) : Prop where
  nonempty : 0 < de.dataName.utf8ByteSize
  dataName : isString32Valid de.dataName = true

/-- An entry that passes, but for the ledger it was modified in -/
def LedgerEntryData.IsValid : LedgerEntryData → Prop
  | .account ae => ae.IsValid
  | .trustLine tl => tl.IsValid
  | .offer oe => oe.IsValid
  | .data de => de.IsValid

theorem append_ne_empty {a b : String} (h : a ≠ "") : a ++ b ≠ "" := by
  rw [Ne, String.append_eq_empty_iff]
  exact fun hab => h hab.1

/-- A check that reports something, before other checks -/
theorem report_eq_empty {cond : Prop} [Decidable cond] {message rest : String}
    (h : message ≠ "") : (if cond then message else rest) = "" ↔ ¬ cond ∧ rest = "" := by
  split
  · rename_i hcond
    exact iff_of_false h fun hnot => hnot.1 hcond
  · rename_i hcond
    exact (and_iff_right hcond).symm

theorem AccountEntry.checkIsValid_eq_empty {ae : AccountEntry} (hversion : 10 ≤ version) :
    ae.checkIsValid version = "" ↔ ae.IsValid := by
  have hweights : (version > 9 ∧
      ae.signers.all (fun s => s.weight ≤ UINT8_MAX && s.weight ≠ 0) = false) ↔
      ¬ ∀ s ∈ ae.signers, s.weight ≤ UINT8_MAX ∧ s.weight ≠ 0 := by
    rw [and_iff_right (Nat.lt_of_succ_le hversion), ← Bool.not_eq_true]
    simp
  rw [checkIsValid]
  repeat rw [report_eq_empty (by simp [toString])]
  rw [Bool.not_eq_true, adjacentFind_signers, Bool.not_eq_false, hweights, not_not, not_not,
    not_lt, not_lt, not_lt]
  exact ⟨fun ⟨h₁, h₂, h₃, h₄, h₅, h₆, h₇, _⟩ => ⟨h₁, h₂, h₃, h₄, h₅, h₆, h₇⟩,
    fun h => ⟨h.balance, h.seqNum, h.numSubEntries, h.flags, h.homeDomain, h.signers, h.weights,
      rfl⟩⟩

theorem TrustLineEntry.checkIsValid_eq_empty {tl : TrustLineEntry} :
    tl.checkIsValid = "" ↔ tl.IsValid := by
  rw [checkIsValid]
  repeat rw [report_eq_empty (by simp [toString])]
  rw [Bool.not_eq_false, not_not, not_lt, not_lt, not_le]
  exact ⟨fun ⟨h₁, h₂, h₃, h₄, h₅, h₆, _⟩ => ⟨h₁, h₂, h₃, h₄, h₅, h₆⟩,
    fun h => ⟨h.notNative, h.asset, h.balance, h.limit, h.within, h.flags, rfl⟩⟩

theorem OfferEntry.checkIsValid_eq_empty {oe : OfferEntry} : oe.checkIsValid = "" ↔ oe.IsValid := by
  rw [checkIsValid]
  repeat rw [report_eq_empty (by simp [toString])]
  rw [Bool.not_eq_false, Bool.not_eq_false, not_not, not_lt, not_le, not_or, not_le, not_lt]
  exact ⟨fun ⟨h₁, h₂, h₃, h₄, h₅, h₆, _⟩ => ⟨h₁, h₂, h₃, h₄, h₅, h₆⟩,
    fun h => ⟨h.offerID, h.selling, h.buying, h.amount, h.price, h.flags, rfl⟩⟩

theorem DataEntry.checkIsValid_eq_empty {de : DataEntry} : de.checkIsValid = "" ↔ de.IsValid := by
  rw [checkIsValid, report_eq_empty (by decide), report_eq_empty (by decide), Bool.not_eq_false,
    ← ne_eq, ← Nat.pos_iff_ne_zero]
  exact ⟨fun ⟨h₁, h₂, _⟩ => ⟨h₁, h₂⟩, fun h => ⟨h.nonempty, h.dataName, rfl⟩⟩

theorem LedgerEntryData.checkIsValid_eq_empty {d : LedgerEntryData} (hversion : 10 ≤ version) :
    d.checkIsValid version = "" ↔ d.IsValid := by
  cases d with
  | account => exact AccountEntry.checkIsValid_eq_empty hversion
  | trustLine => exact TrustLineEntry.checkIsValid_eq_empty
  | offer => exact OfferEntry.checkIsValid_eq_empty
  | data => exact DataEntry.checkIsValid_eq_empty

theorem checkEntries_eq_empty {xdrToString : LedgerEntry → String} {ledgerSeq : Nat}
    {entries : List (Σ _ : LedgerKey, EntryDelta)} :
    checkEntries xdrToString ledgerSeq version entries = "" ↔
      ∀ entryDelta ∈ entries, ∀ current, entryDelta.2.current = some current →
        current.checkIsValid ledgerSeq version = "" := by
  induction entries with
  | nil => exact iff_of_true rfl (List.forall_mem_nil _)
  | cons entryDelta entries ih =>
    rw [checkEntries, List.forall_mem_cons, ← ih]
    split
    · rename_i hnone
      rw [hnone]
      exact (and_iff_right fun _ h => by cases h).symm
    · rename_i current hcurrent
      simp only [hcurrent, Option.some.injEq, forall_eq']
      split
      · rename_i hreport
        exact iff_of_false (append_ne_empty (append_ne_empty hreport)) fun h => hreport h.1
      · rename_i hnone
        exact (and_iff_right (not_not.mp hnone)).symm

/-- Nothing is reported when every entry is valid and was modified in this ledger. -/
theorem checkOnOperationApply_eq_empty {xdrToString : LedgerEntry → String}
    {ltxDelta : LedgerTxnDelta} (hversion : 10 ≤ ltxDelta.header.current.ledgerVersion)
    (hseq : ltxDelta.header.current.ledgerSeq ≤ INT32_MAX)
    (h : ∀ key entryDelta, ltxDelta.entry.lookup key = some entryDelta →
      ∀ current, entryDelta.current = some current →
        current.lastModifiedLedgerSeq = ltxDelta.header.current.ledgerSeq ∧ current.data.IsValid) :
    checkOnOperationApply xdrToString ltxDelta = "" := by
  unfold checkOnOperationApply
  rw [if_neg (not_lt.mpr hseq)]
  refine checkEntries_eq_empty.mpr fun entryDelta hmem current hcurrent => ?_
  obtain ⟨hmodified, hvalid⟩ := h _ _ (AList.mem_lookup_iff.mpr hmem) current hcurrent
  rw [LedgerEntry.checkIsValid, if_neg (not_not.mpr hmodified)]
  exact (LedgerEntryData.checkIsValid_eq_empty hversion).mpr hvalid

end EssaCore.Ledger
