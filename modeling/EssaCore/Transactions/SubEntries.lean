import EssaCore.Transactions.Exceptions
import EssaCore.Transactions.TransactionChanges

/-!
# Sub-entries

Every account is charged for its signers, trust lines, offers and data entries, and each of
these belongs to an account. While an operation runs an account may be charged for more than it
has, but never for less.

- `ownedBy` — the entries that belong to an account;
- `RightCounts`, `Owned` — the numbers are right, and every entry has an owner;
- `excess_eq_zero_iff` — both at once, as sums over the ledger;
- `Charged` — what holds while an operation runs;
- `wp_removeErased_harmless`, `wp_addEntry_harmless` — counting entries throws nothing.
-/

open Option

namespace EssaCore.Transactions

open Ledger Lib AccountEntry

variable {s s' : LedgerState} {id : AccountID}

/-! ## Counting -/

/-- An entry belongs to an account. -/
def ownedOf (id : AccountID) (d : LedgerEntryData) : Int := if d.owner = some id then 1 else 0

/-- The number of trust lines, offers and data entries of an account -/
def ownedBy (s : LedgerState) (id : AccountID) : Int := s.sum (ownedOf id)

/-- The number of sub-entries of every account is that of its signers, trust lines, offers and
data entries. -/
def RightCounts (s : LedgerState) : Prop :=
  ∀ id acc, s.account id = some acc → (acc.numSubEntries : Int) = acc.signers.length + ownedBy s id

/-- Trust lines, offers and data entries belong to accounts. -/
def Owned (s : LedgerState) : Prop :=
  ∀ d id, s.lookup d.key = some d → d.owner = some id → ∃ acc, s.account id = some acc

/-- What an account is charged for beyond its signers -/
def chargedOf (id : AccountID) : LedgerEntryData → Int
  | .account acc => if acc.accountID = id then acc.numSubEntries - acc.signers.length else 0
  | _ => 0

theorem excessOf_eq (id : AccountID) : excessOf id = fun d => chargedOf id d - ownedOf id d := by
  funext d
  cases d with
  | account => simp [excessOf, chargedOf, ownedOf, LedgerEntryData.owner]
  | _ =>
    simp only [excessOf, ownedOf]
    split <;> rfl

theorem charged_eq (s : LedgerState) (id : AccountID) : s.sum (chargedOf id) =
    ((s.account id).map fun acc => (acc.numSubEntries : Int) - acc.signers.length).getD 0 := by
  rw [s.sum_eq_weight]
  · cases hacc : s.account id with
    | none => exact s.weight_of_none (s.account_eq_none_iff.mp hacc)
    | some acc =>
      rw [s.weight_of_some (s.account_eq_some_iff.mp hacc), chargedOf,
        if_pos (s.accountID_of_account hacc)]
      rfl
  · intro d _ hkey
    cases d with
    | account acc => exact if_neg fun hid => hkey (congrArg LedgerKey.account hid)
    | _ => rfl

/-- The excess of an account is what it is charged for, without what belongs to it. -/
theorem excess_eq (s : LedgerState) (id : AccountID) : s.sum (excessOf id) =
    ((s.account id).map fun acc => (acc.numSubEntries : Int) - acc.signers.length).getD 0 -
      ownedBy s id := by
  rw [excessOf_eq, s.sum_sub, charged_eq]
  rfl

theorem ownedOf_nonneg (id : AccountID) (d : LedgerEntryData) : 0 ≤ ownedOf id d := by
  unfold ownedOf
  split <;> decide

theorem ownedBy_nonneg (s : LedgerState) (id : AccountID) : 0 ≤ ownedBy s id :=
  s.sum_nonneg (ownedOf_nonneg id)

/-- An entry of an account is counted. -/
theorem ownedBy_pos {d : LedgerEntryData} (hd : s.lookup d.key = some d) (hid : d.owner = some id) :
    0 < ownedBy s id := by
  have hle := s.le_sum (ownedOf_nonneg id) hd
  rw [ownedOf, if_pos hid] at hle
  exact hle

/-- Without entries there is none to own. -/
theorem exists_owned (h : ownedBy s id ≠ 0) : ∃ d, s.lookup d.key = some d ∧ d.owner = some id := by
  by_contra hnone
  refine h ?_
  rw [ownedBy, s.sum_eq_weight fun d hd _ => ?_]
  · cases hlookup : s.lookup (.account id) with
    | none => exact s.weight_of_none hlookup
    | some d =>
      rw [s.weight_of_some hlookup]
      refine if_neg fun howner => hnone ⟨d, ?_, howner⟩
      rwa [s.key_of_lookup hlookup]
  · exact if_neg fun howner => hnone ⟨d, hd, howner⟩

/-- The numbers are right and every entry has an owner when no account has an excess. -/
theorem excess_eq_zero_iff : (∀ id, s.sum (excessOf id) = 0) ↔ RightCounts s ∧ Owned s := by
  constructor
  · intro h
    refine ⟨fun id acc hacc => ?_, fun d id hd hid => ?_⟩
    · have hzero := h id
      rw [excess_eq, hacc, map_some, getD_some] at hzero
      omega
    · have hzero := h id
      have hpos := ownedBy_pos hd hid
      cases hacc : s.account id with
      | some acc => exact ⟨acc, rfl⟩
      | none =>
        rw [excess_eq, hacc, map_none, getD_none] at hzero
        omega
  · rintro ⟨hcounts, howned⟩ id
    rw [excess_eq]
    cases hacc : s.account id with
    | some acc =>
      have := hcounts id acc hacc
      rw [map_some, getD_some]
      omega
    | none =>
      have hzero : ownedBy s id = 0 := by
        by_contra hne
        obtain ⟨d, hd, hid⟩ := exists_owned hne
        obtain ⟨acc, hacc'⟩ := howned d id hd hid
        rw [hacc] at hacc'
        cases hacc'
      rw [hzero]
      rfl

theorem Moves.rightCounts (h : Moves s s') (hfew : FewEntries s) (hs : RightCounts s ∧ Owned s) :
    RightCounts s' ∧ Owned s' := by
  obtain ⟨_, hneutral, hjournal, -⟩ := h
  rw [← excess_eq_zero_iff] at *
  intro id
  rw [(journal_excess hjournal hneutral.small hfew id).1, hs id, hneutral.excess]
  rfl

/-! ## While an operation runs -/

/-- No account is charged for as many entries as a bound. -/
def Below (bound : Nat) (s : LedgerState) : Prop :=
  ∀ id acc, s.account id = some acc → acc.numSubEntries < bound

/-- No account is charged for too few entries, or for too many. -/
structure Charged (bound : Nat) (s : LedgerState) : Prop where
  below : Below bound s
  excess : ∀ id, 0 ≤ s.sum (excessOf id)

/-- A routine change that does not charge for an entry -/
def Change.Removes : Change → Prop
  | .numEntries _ count => count = -1
  | .createAccount _ => False
  | _ => True

variable {bound : Nat} {c : Change} {cs : List Change}

theorem Change.Removes.small (h : c.Removes) : c.SmallCount := by
  cases c with
  | numEntries id count =>
    obtain rfl := h
    exact ⟨by decide, by decide⟩
  | _ => trivial

theorem Below.few (h : Below bound s) (hbound : bound ≤ 2 ^ 31) : FewEntries s :=
  fun id acc hacc => (h id acc hacc).trans_le hbound

theorem Step.below (h : Step s c s') (hc : c.Removes) (hbound : bound ≤ 2 ^ 31)
    (hs : Below bound s) : Below bound s' := by
  intro id acc hacc
  rcases h.account hacc with ⟨acc₀, hacc₀, hupdates⟩ | rfl
  · have hlt := hs id acc₀ hacc₀
    cases hupdates with
    | same => exact hlt
    | native hadd =>
      rw [(mk.inj (add_core hadd)).2.2.2.1]
      exact hlt
    | numEntries hadd =>
      obtain rfl := hc
      obtain ⟨hcount, -, rfl⟩ := addNumEntries_eq_some.mp hadd
      have := (newEntriesCount_eq (hlt.trans_le hbound) ⟨by decide, by decide⟩ hcount).1
      dsimp only
      omega
    | settings _ _ _ hentries => exact hentries ▸ hlt
  · exact hc.elim

theorem Charged.journal (hs : Charged bound s) (hbound : bound ≤ 2 ^ 31) (h : Journal s cs s')
    (hcs : ∀ c ∈ cs, c.Removes) (hsum : ∀ id, 0 ≤ (cs.map (Change.excess id)).sum) :
    Charged bound s' where
  below := h.preserves_of_mem (fun _ _ _ hstep hc => hstep.below hc hbound) hcs hs.below
  excess id := by
    rw [(journal_excess h (fun c hc => (hcs c hc).small) (hs.below.few hbound) id).1]
    exact Int.add_nonneg (hs.excess id) (hsum id)

theorem amounts_removes (h : ∀ c ∈ cs, ∃ q id asset delta, c = .amount q id asset delta) :
    ∀ c ∈ cs, c.Removes := by
  intro c hc
  obtain ⟨_, _, _, _, rfl⟩ := h c hc
  trivial

/-- Amounts are not counted. -/
theorem Charged.amounts (hs : Charged bound s) (hbound : bound ≤ 2 ^ 31) (h : Journal s cs s')
    (hcs : ∀ c ∈ cs, ∃ q id asset delta, c = .amount q id asset delta) : Charged bound s' :=
  hs.journal hbound h (amounts_removes hcs) fun _ => (amounts_excess hcs).ge

theorem TradeChanges.removes {rounds : List (OfferEntry × CrossOfferResult)}
    (h : TradeChanges rounds cs) : ∀ c ∈ cs, c.Removes := by
  intro c hc
  rcases h.mem hc with ⟨_, _, _, _, rfl⟩ | ⟨_, rfl⟩ | ⟨_, _, rfl⟩ | ⟨_, rfl⟩
  · trivial
  · trivial
  · trivial
  · rfl

theorem Charged.trade (hs : Charged bound s) (hbound : bound ≤ 2 ^ 31)
    {rounds : List (OfferEntry × CrossOfferResult)} (htrade : TradeChanges rounds cs)
    (h : Journal s cs s') : Charged bound s' :=
  hs.journal hbound h htrade.removes fun _ => htrade.excess.ge

/-- An account that is charged for something is charged for one entry less. -/
theorem wp_removeEntry_harmless (hbelow : Below bound s) (hbound : bound ≤ 2 ^ 31)
    (h : 0 < s.sum (excessOf id) + ownedBy s id) :
    wp (addNumEntries id (-1)) (fun _ _ => True) (fun e _ => Harmless e) s := by
  simp only [addNumEntries, wp_bind, wp_current, wp_lift_harmless,
    storeAccount_harmless.wp_iff, implies_true, and_true, true_and, harmless_assertion]
  intro acc hacc
  have hlt := hbelow id acc hacc
  rw [excess_eq, hacc, map_some, getD_some] at h
  have hcount : ¬ acc.newEntriesCount (-1) < 0 := by
    rw [newEntriesCount, Int.bmod_eq_of_le (by omega) (by omega)]
    omega
  rw [AccountEntry.addNumEntries, if_neg hcount]
  split <;> exact failsIn_pure _

/-- An account is charged for an entry that was erased until it is counted. -/
theorem wp_removeErased_harmless (hs : Charged bound s) (hbound : bound ≤ 2 ^ 31)
    (herase : Step s c s') (hc : c.Removes) (hone : c.excess id = 1) :
    wp (addNumEntries id (-1)) (fun _ _ => True) (fun e _ => Harmless e) s' := by
  refine wp_removeEntry_harmless (herase.below hc hbound hs.below) hbound ?_
  have hsum := (journal_excess (.single herase) (by simpa using hc.small) (hs.below.few hbound)
    id).1
  have hexcess := hs.excess id
  have hnonneg := ownedBy_nonneg s' id
  rw [List.map_singleton, List.sum_singleton] at hsum
  omega

/-- An account that is not charged for the most that fits is charged for one entry more. -/
theorem addNumEntries_one_harmless {header : LedgerHeader} {acc : AccountEntry}
    (h : acc.numSubEntries + 1 < 2 ^ 31) : FailsIn Harmless (acc.addNumEntries header 1) := by
  have hcount : ¬ acc.newEntriesCount 1 < 0 := by
    rw [newEntriesCount, Int.bmod_eq_of_le (by omega) (by omega)]
    omega
  rw [AccountEntry.addNumEntries, if_neg hcount, failsIn_ite]
  exact ⟨fun _ => failsIn_pure _, fun _ => failsIn_pure _⟩

theorem wp_addEntry_harmless (h : Below bound s) (hbound : bound < 2 ^ 31) :
    wp (addNumEntries id 1) (fun _ _ => True) (fun e _ => Harmless e) s := by
  rw [addNumEntries, wp_bind, wp_loadHeader, wp_bind, wp_loadAccount, wp_bind, wp_current]
  refine ⟨fun acc hacc => ?_, fun _ => harmless_assertion⟩
  have hlt := h id acc hacc
  rw [wp_bind, wp_lift_harmless]
  exact ⟨fun _ _ => storeAccount_harmless s, addNumEntries_one_harmless (by omega)⟩

end EssaCore.Transactions
