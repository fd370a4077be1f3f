import EssaCore.Ledger.Entries
import EssaCore.Lib.Tally

/-!
# The state of the ledger

What a transaction works on: the header and the entries, each under its own key. This
is the map that the innermost `LedgerTxn` stands for; a child that is rolled back is a
state that is forgotten, and a commit is a state that is kept.

- `LedgerState` — the header and the entries;
- `put`, `erase`, `setHeader` — the three ways to change it;
- `account`, `trustLine`, `offer`, `data` — the entry of a kind;
- `offers` — all offers;
- `sum_put`, `sum_erase` — what a write does to a sum over all entries.
-/

open AList

namespace EssaCore.Ledger

open Lib (tally weightAt)

/-- The header and the entries of a ledger. -/
structure LedgerState where
  header : LedgerHeader
  entries : AList fun _ : LedgerKey => LedgerEntryData
  keyed : ∀ k d, entries.lookup k = some d → d.key = k

namespace LedgerState

variable {s : LedgerState} {k : LedgerKey} {d : LedgerEntryData}

/-- The entry under a key -/
def lookup (s : LedgerState) (k : LedgerKey) : Option LedgerEntryData := s.entries.lookup k

theorem key_of_lookup (h : s.lookup k = some d) : d.key = k := s.keyed k d h

/-- Write an entry under its key. -/
def put (d : LedgerEntryData) (s : LedgerState) : LedgerState where
  header := s.header
  entries := s.entries.insert d.key d
  keyed k d' h := by
    by_cases hk : k = d.key
    · subst hk
      rw [AList.lookup_insert] at h
      rw [← Option.some.inj h]
    · rw [AList.lookup_insert_ne hk] at h
      exact s.keyed k d' h

/-- Delete the entry under a key. -/
def erase (k : LedgerKey) (s : LedgerState) : LedgerState where
  header := s.header
  entries := s.entries.erase k
  keyed k' d h := by
    by_cases hk : k' = k
    · subst hk
      rw [AList.lookup_erase] at h
      cases h
    · rw [AList.lookup_erase_ne hk] at h
      exact s.keyed k' d h

/-- Replace the header. -/
def setHeader (h : LedgerHeader) (s : LedgerState) : LedgerState := { s with header := h }

/-- The state with the given entries -/
def ofEntries (header : LedgerHeader) : List LedgerEntryData → LedgerState
  | [] => ⟨header, ∅, fun _ _ h => by cases h⟩
  | d :: ds => (ofEntries header ds).put d

/-! ## Reading what was written -/

@[simp] theorem header_put : (s.put d).header = s.header := rfl

@[simp] theorem header_erase : (s.erase k).header = s.header := rfl

@[simp] theorem header_setHeader (h : LedgerHeader) : (s.setHeader h).header = h := rfl

@[simp] theorem lookup_setHeader (h : LedgerHeader) : (s.setHeader h).lookup k = s.lookup k := rfl

theorem lookup_put (s : LedgerState) (d : LedgerEntryData) (k : LedgerKey) :
    (s.put d).lookup k = if k = d.key then some d else s.lookup k := by
  unfold lookup put
  split
  · rename_i hk
    rw [hk, lookup_insert]
  · rename_i hk
    rw [lookup_insert_ne hk]

@[simp] theorem lookup_put_self : (s.put d).lookup d.key = some d := by
  rw [lookup_put, if_pos rfl]

theorem lookup_put_of_ne (h : k ≠ d.key) : (s.put d).lookup k = s.lookup k := by
  rw [lookup_put, if_neg h]

theorem lookup_erase (s : LedgerState) (k k' : LedgerKey) :
    (s.erase k).lookup k' = if k' = k then none else s.lookup k' := by
  unfold lookup erase
  split
  · rename_i hk
    rw [hk, AList.lookup_erase]
  · rename_i hk
    rw [lookup_erase_ne hk]

@[simp] theorem lookup_erase_self : (s.erase k).lookup k = none := by
  rw [lookup_erase, if_pos rfl]

theorem lookup_erase_of_ne {k' : LedgerKey} (h : k' ≠ k) : (s.erase k).lookup k' = s.lookup k' := by
  rw [lookup_erase, if_neg h]

/-! ## Entries of one kind -/

/-- The account entry of `id` -/
def account (s : LedgerState) (id : AccountID) : Option AccountEntry :=
  match s.lookup (.account id) with
  | some (.account a) => some a
  | _ => none

/-- The trust line of `id` for an asset -/
def trustLine (s : LedgerState) (id : AccountID) (asset : Asset) : Option TrustLineEntry :=
  match s.lookup (.trustLine id asset) with
  | some (.trustLine tl) => some tl
  | _ => none

/-- The offer of `id` with a number -/
def offer (s : LedgerState) (id : AccountID) (offerID : Nat) : Option OfferEntry :=
  match s.lookup (.offer id offerID) with
  | some (.offer o) => some o
  | _ => none

/-- The data entry of `id` with a name -/
def data (s : LedgerState) (id : AccountID) (dataName : String) : Option DataEntry :=
  match s.lookup (.data id dataName) with
  | some (.data d) => some d
  | _ => none

variable {id : AccountID} {asset : Asset} {offerID : Nat} {dataName : String}
  {a : AccountEntry} {tl : TrustLineEntry} {o : OfferEntry} {e : DataEntry}

theorem account_eq_some_iff :
    s.account id = some a ↔ s.lookup (.account id) = some (.account a) := by
  unfold account
  split <;> simp_all

theorem trustLine_eq_some_iff :
    s.trustLine id asset = some tl ↔ s.lookup (.trustLine id asset) = some (.trustLine tl) := by
  unfold trustLine
  split <;> simp_all

theorem offer_eq_some_iff :
    s.offer id offerID = some o ↔ s.lookup (.offer id offerID) = some (.offer o) := by
  unfold offer
  split <;> simp_all

theorem data_eq_some_iff :
    s.data id dataName = some e ↔ s.lookup (.data id dataName) = some (.data e) := by
  unfold data
  split <;> simp_all

theorem accountID_of_account (h : s.account id = some a) : a.accountID = id :=
  LedgerKey.account.inj (key_of_lookup (account_eq_some_iff.mp h))

theorem key_of_trustLine (h : s.trustLine id asset = some tl) :
    tl.accountID = id ∧ tl.asset = asset :=
  LedgerKey.trustLine.inj (key_of_lookup (trustLine_eq_some_iff.mp h))

theorem key_of_offer (h : s.offer id offerID = some o) : o.sellerID = id ∧ o.offerID = offerID :=
  LedgerKey.offer.inj (key_of_lookup (offer_eq_some_iff.mp h))

theorem key_of_data (h : s.data id dataName = some e) : e.accountID = id ∧ e.dataName = dataName :=
  LedgerKey.data.inj (key_of_lookup (data_eq_some_iff.mp h))

/-- Under the key of an account there is an account or nothing. -/
theorem account_eq_none_iff : s.account id = none ↔ s.lookup (.account id) = none := by
  unfold account
  split
  · rename_i a h
    simp [h]
  · rename_i hne
    cases h : s.lookup (.account id) with
    | none => simp
    | some d =>
      have hkey := key_of_lookup h
      cases d with
      | account a => exact absurd h (hne a)
      | trustLine tl => cases hkey
      | offer o => cases hkey
      | data e => cases hkey

/-- Under the key of a trust line there is a trust line or nothing. -/
theorem trustLine_eq_none_iff :
    s.trustLine id asset = none ↔ s.lookup (.trustLine id asset) = none := by
  unfold trustLine
  split
  · rename_i tl h
    simp [h]
  · rename_i hne
    cases h : s.lookup (.trustLine id asset) with
    | none => simp
    | some d =>
      have hkey := key_of_lookup h
      cases d with
      | account a => cases hkey
      | trustLine tl => exact absurd h (hne tl)
      | offer o => cases hkey
      | data e => cases hkey

/-! ### Reading what was written -/

theorem account_put_account (s : LedgerState) (a : AccountEntry) (id : AccountID) :
    (s.put (.account a)).account id = if id = a.accountID then some a else s.account id := by
  by_cases h : id = a.accountID
  · subst h
    rw [if_pos rfl, account_eq_some_iff]
    exact lookup_put_self
  · unfold account
    rw [if_neg h, lookup_put_of_ne fun hkey => h (LedgerKey.account.inj hkey)]

theorem account_put_of_type (h : d.key.type ≠ .ACCOUNT) : (s.put d).account id = s.account id := by
  unfold account
  rw [lookup_put_of_ne]
  rintro hkey
  exact h (hkey ▸ rfl)

theorem account_erase (s : LedgerState) (k : LedgerKey) (id : AccountID) :
    (s.erase k).account id = if .account id = k then none else s.account id := by
  unfold account
  rw [lookup_erase]
  by_cases h : .account id = k
  · rw [if_pos h, if_pos h]
  · rw [if_neg h, if_neg h]

/-- All offers -/
def offers (s : LedgerState) : List OfferEntry :=
  s.entries.entries.filterMap fun e =>
    match e.2 with
    | .offer o => some o
    | _ => none

theorem mem_offers : o ∈ s.offers ↔ s.offer o.sellerID o.offerID = some o := by
  rw [offer_eq_some_iff, offers, List.mem_filterMap]
  constructor
  · rintro ⟨⟨k, d⟩, hmem, hd⟩
    have hlookup : s.lookup k = some d := mem_lookup_iff.mpr hmem
    cases d with
    | offer o' =>
      cases hd
      rwa [← key_of_lookup hlookup] at hlookup
    | account a => cases hd
    | trustLine tl => cases hd
    | data e => cases hd
  · intro h
    exact ⟨⟨_, _⟩, mem_lookup_iff.mp h, rfl⟩

/-- No two offers have one key. -/
theorem offers_pairwise (s : LedgerState) :
    s.offers.Pairwise fun o o' => ¬ (o.sellerID = o'.sellerID ∧ o.offerID = o'.offerID) := by
  have hkey {e : Sigma fun _ : LedgerKey => LedgerEntryData} (he : e ∈ s.entries.entries) :
      e.2.key = e.1 := key_of_lookup (mem_lookup_iff.mpr he)
  rw [offers, List.pairwise_filterMap]
  refine List.Pairwise.imp_of_mem (fun {e e'} he he' hne o ho o' ho' hsame => hne ?_)
    (List.nodupKeys_iff_pairwise.mp s.entries.nodupKeys)
  rw [← hkey he, ← hkey he']
  cases hd : e.2 <;> rw [hd] at ho <;> cases ho
  cases hd' : e'.2 <;> rw [hd'] at ho' <;> cases ho'
  rw [LedgerEntryData.key, LedgerEntryData.key, hsame.1, hsame.2]

/-! ## Sums over all entries -/

variable {w : LedgerEntryData → Int}

/-- The weight of the entry under a key -/
def weight (w : LedgerEntryData → Int) (s : LedgerState) (k : LedgerKey) : Int :=
  weightAt w s.entries k

/-- The sum of a weight over all entries -/
def sum (w : LedgerEntryData → Int) (s : LedgerState) : Int := tally w s.entries

theorem weight_of_some (h : s.lookup k = some d) : s.weight w k = w d :=
  Lib.weightAt_of_some h

theorem weight_of_none (h : s.lookup k = none) : s.weight w k = 0 :=
  Lib.weightAt_of_none h

@[simp] theorem sum_setHeader (h : LedgerHeader) : (s.setHeader h).sum w = s.sum w := rfl

theorem sum_put (s : LedgerState) (w : LedgerEntryData → Int) (d : LedgerEntryData) :
    (s.put d).sum w = s.sum w - s.weight w d.key + w d :=
  Lib.tally_insert w s.entries d.key d

theorem sum_erase (s : LedgerState) (w : LedgerEntryData → Int) (k : LedgerKey) :
    (s.erase k).sum w = s.sum w - s.weight w k :=
  Lib.tally_erase w s.entries k

theorem sum_sub (s : LedgerState) (w w' : LedgerEntryData → Int) :
    s.sum (fun d => w d - w' d) = s.sum w - s.sum w' := Lib.tally_sub w w' s.entries

theorem sum_nonneg (h : ∀ d, 0 ≤ w d) : 0 ≤ s.sum w := Lib.tally_nonneg h

/-- An entry weighs no more than all of them. -/
theorem le_sum (h : ∀ d, 0 ≤ w d) (hd : s.lookup k = some d) : w d ≤ s.sum w :=
  weight_of_some (w := w) hd ▸ Lib.weightAt_le_tally h

variable (h : ∀ k' d', s.lookup k' = some d' → 0 ≤ w d')

include h

/-- Only the weights of the entries matter. -/
theorem sum_eq_sum_max : s.sum w = s.sum fun d => max 0 (w d) :=
  Lib.tally_congr fun e he => (max_eq_right (h e.1 e.2 (mem_lookup_iff.mpr he))).symm

theorem sum_nonneg_of_lookup : 0 ≤ s.sum w := by
  rw [sum_eq_sum_max h]
  exact sum_nonneg fun d => le_max_left 0 (w d)

theorem le_sum_of_lookup (hd : s.lookup k = some d) : w d ≤ s.sum w := by
  rw [sum_eq_sum_max h]
  exact (le_max_right 0 (w d)).trans (le_sum (fun d => le_max_left 0 (w d)) hd)

omit h

/-- Replacing an entry -/
theorem sum_put_of_some {d' : LedgerEntryData} (h : s.lookup d'.key = some d) :
    (s.put d').sum w = s.sum w - w d + w d' := by
  rw [sum_put, weight_of_some h]

/-- Only the entry under one key weighs something. -/
theorem sum_eq_weight (h : ∀ d, s.lookup d.key = some d → d.key ≠ k → w d = 0) :
    s.sum w = s.weight w k := by
  refine Lib.tally_eq_weightAt fun k' d hlookup hk => ?_
  obtain rfl := s.keyed k' d hlookup
  exact h d hlookup hk

end LedgerState

end EssaCore.Ledger
