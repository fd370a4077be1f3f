import EssaCore.Ledger.Entries

/-!
# The order of ledger keys

`bucket/LedgerCmp.h`: entries are compared by identity, not by content. Entries
of different types are ordered by type, entries of one type by the fields of
their key, one after the other; assets are ordered by type, code and issuer.

`LedgerKey.fields` lists what is compared, in order, so that the comparison is
the lexicographic one and distinct keys are never tied. `LedgerEntryIdCmp` is the
code's comparison, between entries and keys alike, and `ledgerEntryIdCmp_iff`
says that it is this order.
-/

namespace EssaCore.Ledger

/-- What is compared of an asset. -/
def Asset.fields : Asset → List ℕ
  | .native => [0]
  | .alphaNum4 assetCode issuer =>
    1 :: (assetCode.toList.map UInt8.toNat ++ [issuer.toNat])
  | .alphaNum12 assetCode issuer =>
    2 :: (assetCode.toList.map UInt8.toNat ++ [issuer.toNat])

theorem code_inj {n : ℕ} {c c' : Vector UInt8 n} {i i' : AccountID}
    (h : c.toList.map UInt8.toNat ++ [i.toNat] =
      c'.toList.map UInt8.toNat ++ [i'.toNat]) : c = c' ∧ i = i' := by
  obtain ⟨hc, hi⟩ := List.append_inj' h rfl
  constructor
  · have hinj : Function.Injective UInt8.toNat := fun _ _ => UInt8.toNat_inj.mp
    exact Vector.toList_inj.mp (List.map_injective_iff.mpr hinj hc)
  · exact BitVec.eq_of_toNat_eq (List.cons.inj hi).1

theorem Asset.fields_injective : Function.Injective Asset.fields := by
  intro a b h
  cases a with
  | native => cases b <;> simp_all [fields]
  | alphaNum4 c i =>
    cases b with
    | native => simp [fields] at h
    | alphaNum4 c' i' =>
      obtain ⟨rfl, rfl⟩ := code_inj (List.cons.inj h).2
      rfl
    | alphaNum12 c' i' => simp [fields] at h
  | alphaNum12 c i =>
    cases b with
    | native => simp [fields] at h
    | alphaNum4 c' i' => simp [fields] at h
    | alphaNum12 c' i' =>
      obtain ⟨rfl, rfl⟩ := code_inj (List.cons.inj h).2
      rfl

/-- What is compared of a key: numbers first, the name of a data entry last. -/
def LedgerKey.fields : LedgerKey → List ℕ ×ₗ String
  | .account accountID => toLex ([0, accountID.toNat], "")
  | .trustLine accountID asset => toLex (1 :: accountID.toNat :: asset.fields, "")
  | .offer sellerID offerID => toLex ([2, sellerID.toNat, offerID], "")
  | .data accountID dataName => toLex ([3, accountID.toNat], dataName)

theorem LedgerKey.fields_injective : Function.Injective LedgerKey.fields := by
  intro a b h
  have hinj : ∀ {x y : AccountID}, x.toNat = y.toNat → x = y :=
    fun h => BitVec.eq_of_toNat_eq h
  cases a with
  | account x =>
    cases b <;> simp_all [fields]
    exact hinj h
  | trustLine x asset =>
    cases b <;> simp_all [fields]
    exact ⟨hinj h.1, Asset.fields_injective h.2⟩
  | offer x id =>
    cases b <;> simp_all [fields]
    exact hinj h.1
  | data x name =>
    cases b <;> simp_all [fields]
    exact hinj h.1

/-- `LedgerEntryIdCmp` is a linear order of the keys. -/
instance : LinearOrder LedgerKey :=
  LinearOrder.lift' LedgerKey.fields LedgerKey.fields_injective

end EssaCore.Ledger

namespace EssaCore.Buckets

open Ledger

/-! ## The comparisons -/

/-- The discriminant of the union `Asset` -/
def assetType : Asset → Nat
  | .native => 0
  | .alphaNum4 _ _ => 1
  | .alphaNum12 _ _ => 2

/-- `operator<` of the structs `alphaNum4` and `alphaNum12`: field by field -/
def codeLess {n : Nat} (code : Vector UInt8 n) (issuer : AccountID) (code' : Vector UInt8 n)
    (issuer' : AccountID) : Bool :=
  if code.toList < code'.toList then true
  else if code'.toList < code.toList then false
  else issuer < issuer'

/-- `operator<` of the union `Asset`: by type, and then by what the type has -/
def assetLess (a b : Asset) : Bool :=
  if assetType a < assetType b then true
  else if assetType b < assetType a then false
  else
    match a, b with
    | .alphaNum4 code issuer, .alphaNum4 code' issuer' => codeLess code issuer code' issuer'
    | .alphaNum12 code issuer, .alphaNum12 code' issuer' => codeLess code issuer code' issuer'
    | _, _ => false

/-- The values of the enumeration `LedgerEntryType` -/
def entryTypeValue : LedgerEntryType → Nat
  | .ACCOUNT => 0
  | .TRUSTLINE => 1
  | .OFFER => 2
  | .DATA => 3

/-- What can be compared with `LedgerEntryIdCmp`: it has a type, and for each type the fields that
identify an entry. -/
class Identified (T : Type) where
  identity : T → LedgerKey

instance : Identified LedgerKey := ⟨id⟩

instance : Identified LedgerEntryData := ⟨LedgerEntryData.key⟩

/-- `LedgerEntryIdCmp::operator()` -/
def LedgerEntryIdCmp {T U : Type} [Identified T] [Identified U] (a : T) (b : U) : Bool :=
  let a := Identified.identity a
  let b := Identified.identity b
  if entryTypeValue a.type < entryTypeValue b.type then true
  else if entryTypeValue a.type > entryTypeValue b.type then false
  else
    match a, b with
    | .account accountID, .account accountID' => accountID < accountID'
    | .trustLine accountID asset, .trustLine accountID' asset' =>
      if accountID < accountID' then true
      else if accountID' < accountID then false
      else assetLess asset asset'
    | .offer sellerID offerID, .offer sellerID' offerID' =>
      if sellerID < sellerID' then true
      else if sellerID' < sellerID then false
      else offerID < offerID'
    | .data accountID dataName, .data accountID' dataName' =>
      if accountID < accountID' then true
      else if accountID' < accountID then false
      else dataName < dataName'
    | _, _ => false

/-- Comparing first by one field and then by the rest -/
theorem ite_ite_eq_true_iff {less greater : Prop} [Decidable less] [Decidable greater]
    {rest : Bool} :
    (if less then true else if greater then false else rest) = true ↔
      less ∨ ¬ greater ∧ rest = true := by
  by_cases hless : less
  · simp
  · by_cases hgreater : greater <;> simp

theorem fields_append_lt {l l' : List UInt8} (hlen : l.length = l'.length) {x x' : Nat} :
    l.map UInt8.toNat ++ [x] < l'.map UInt8.toNat ++ [x'] ↔ l < l' ∨ ¬ l' < l ∧ x < x' := by
  induction l generalizing l' with
  | nil =>
    obtain rfl := List.length_eq_zero_iff.mp hlen.symm
    simp [List.cons_lt_cons_iff]
  | cons c l ih =>
    cases l' with
    | nil => cases hlen
    | cons c' l' =>
      have ih := ih (Nat.succ.inj hlen)
      simp only [List.map_cons, List.cons_append, List.cons_lt_cons_iff, ih]
      by_cases hc : c = c'
      · subst hc
        simp
      · have hne : c' ≠ c := fun h => hc h.symm
        simp only [hc, false_and, or_false]
        rw [UInt8.lt_iff_toNat_lt, UInt8.lt_iff_toNat_lt]
        have hnat : c.toNat ≠ c'.toNat := fun h => hc (UInt8.toNat_inj.mp h)
        omega

theorem codeLess_iff {n : Nat} {code code' : Vector UInt8 n} {issuer issuer' : AccountID} :
    codeLess code issuer code' issuer' = true ↔ code.toList.map UInt8.toNat ++ [issuer.toNat] <
        code'.toList.map UInt8.toNat ++ [issuer'.toNat] := by
  rw [codeLess, ite_ite_eq_true_iff, fields_append_lt (by simp), decide_eq_true_iff, BitVec.lt_def]

theorem assetLess_iff {a b : Asset} : assetLess a b = true ↔ a.fields < b.fields := by
  unfold assetLess
  rw [ite_ite_eq_true_iff]
  cases a <;> cases b <;>
    simp only [assetType, Asset.fields, codeLess_iff, List.cons_lt_cons_iff] <;> simp

/-- Comparing first by a number: ties are equal numbers. -/
theorem lt_or_not_lt_and_iff {a b : Nat} {rest : Prop} :
    a < b ∨ ¬ b < a ∧ rest ↔ a < b ∨ a = b ∧ rest := by
  rcases Nat.lt_trichotomy a b with h | h | h
  · simp [h]
  · simp [h]
  · simp [h, h.ne']

theorem ledgerEntryIdCmp_iff {T U : Type} [Identified T] [Identified U] {a : T} {b : U} :
    LedgerEntryIdCmp a b = true ↔ Identified.identity a < Identified.identity b := by
  rw [LedgerEntryIdCmp]
  generalize Identified.identity a = x
  generalize Identified.identity b = y
  have hfields : x < y ↔ x.fields < y.fields := Iff.rfl
  rw [hfields]
  cases x <;> cases y <;>
    simp only [entryTypeValue, LedgerKey.type, LedgerKey.fields, ite_ite_eq_true_iff, assetLess_iff,
      List.cons_lt_cons_iff, BitVec.lt_def, Prod.Lex.toLex_lt_toLex, lt_or_not_lt_and_iff]
  all_goals simp

end EssaCore.Buckets
