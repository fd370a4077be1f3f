import EssaCore.Transactions.LedgerChanges

/-!
# Holdings

What an account keeps of an asset: a balance, and the liabilities of its offers. A change
of one of these amounts leaves the others and every other entry alone, and the code makes
it only within what reserve, limit and liabilities leave.

- `addAmount_eq_some` — when a change of an entry is made;
- `AccountEntry.add_core`, `AccountEntry.add_amount` — what it changes;
- `Step.lookup_of_ne` — what a change of the ledger leaves alone;
- `kept` — the amount that is kept for an account and an asset;
- `Step.kept` — how a change moves it.
-/

open Option

namespace EssaCore.Transactions

open Ledger Lib AccountEntry TrustLineEntry

/-! ## Additions to one entry -/

theorem addBalance_eq_some {balance delta maxBalance b : Int} :
    addBalance balance delta maxBalance = .ok (some b) ↔
      0 ≤ balance ∧ 0 ≤ maxBalance ∧ b = balance + delta ∧
        (delta ≠ 0 → 0 ≤ balance + delta ∧ balance + delta ≤ maxBalance) := by
  unfold addBalance
  rw [assert_bind_eq_ok, assert_bind_eq_ok]
  refine and_congr_right fun _ => and_congr_right fun _ => ?_
  split
  · rename_i hdelta
    subst hdelta
    constructor
    · rintro ⟨⟩
      exact ⟨(Int.add_zero _).symm, fun h => absurd rfl h⟩
    · rintro ⟨rfl, -⟩
      rw [Int.add_zero]
      rfl
  · split
    · exact ⟨nofun, fun ⟨_, h⟩ => by omega⟩
    · split
      · exact ⟨nofun, fun ⟨_, h⟩ => by omega⟩
      · constructor
        · rintro ⟨⟩
          exact ⟨rfl, fun _ => by omega⟩
        · rintro ⟨rfl, -⟩
          rfl

/-- An entry is changed if there is nothing to add, or if nothing blocks the change, the new
amount is in range, and it is accepted. -/
theorem addAmount_eq_some {α : Type} {entry entry' : α} {delta : Int} {blocked : Bool}
    {amount maxAmount : Int} {accept : Int → Option α} :
    addAmount entry delta blocked amount maxAmount accept = .ok (some entry') ↔
      (delta = 0 ∧ entry' = entry) ∨ (delta ≠ 0 ∧ blocked = false ∧ 0 ≤ amount ∧
        0 ≤ maxAmount ∧ 0 ≤ amount + delta ∧ amount + delta ≤ maxAmount ∧
        accept (amount + delta) = some entry') := by
  unfold addAmount
  by_cases hdelta : delta = 0
  · rw [if_pos hdelta]
    constructor
    · intro h
      exact .inl ⟨hdelta, (some.inj (Except.ok.inj h)).symm⟩
    · rintro (⟨-, rfl⟩ | ⟨h, -⟩)
      · rfl
      · exact absurd hdelta h
  · rw [if_neg hdelta, or_iff_right fun h => hdelta h.1]
    cases blocked with
    | true => exact ⟨nofun, fun h => nomatch h.2.1⟩
    | false =>
      rw [if_neg Bool.false_ne_true, bind_eq_ok]
      constructor
      · rintro ⟨b, hb, h⟩
        cases b with
        | none => cases h
        | some b =>
          obtain ⟨h₀, hmax, rfl, hrange⟩ := addBalance_eq_some.mp hb
          exact ⟨hdelta, rfl, h₀, hmax, (hrange hdelta).1, (hrange hdelta).2, Except.ok.inj h⟩
      · rintro ⟨-, -, h₀, hmax, h₁, h₂, haccept⟩
        exact ⟨_, addBalance_eq_some.mpr ⟨h₀, hmax, rfl, fun _ => ⟨h₁, h₂⟩⟩,
          congrArg Except.ok haccept⟩

end EssaCore.Transactions

namespace EssaCore.Ledger

open Transactions

section Account

variable {header : LedgerHeader} {acc acc' : AccountEntry} {delta : Int} {q : Quantity}

/-- The account without its amounts -/
def AccountEntry.core (acc : AccountEntry) : AccountEntry := { acc with balance := 0, ext := none }

/-- The account with another amount -/
def AccountEntry.setAmount (acc : AccountEntry) (x : Int) : Quantity → AccountEntry
  | .balance => { acc with balance := x }
  | .buying => acc.setBuying x
  | .selling => acc.setSelling x

variable (h : acc.add header delta q = .ok (some acc'))

include h

/-- What an addition makes of an account -/
theorem AccountEntry.add_eq :
    acc' = acc ∧ delta = 0 ∨ acc' = acc.setAmount (acc.amountOf q + delta) q := by
  cases q <;> rcases addAmount_eq_some.mp h with ⟨hdelta, rfl⟩ | ⟨-, -, -, -, -, -, haccept⟩
  case balance.inr =>
    split at haccept
    · exact .inr (some.inj haccept).symm
    · cases haccept
  all_goals first
  | exact .inl ⟨rfl, hdelta⟩
  | exact .inr (some.inj haccept).symm

theorem AccountEntry.add_core : acc'.core = acc.core := by
  rcases add_eq h with ⟨rfl, -⟩ | rfl
  · rfl
  · cases q <;> rfl

theorem AccountEntry.add_amount (q' : Quantity) :
    acc'.amountOf q' = acc.amountOf q' + if q' = q then delta else 0 := by
  rcases add_eq h with ⟨rfl, rfl⟩ | rfl
  · simp
  · by_cases hq : q' = q
    · subst hq
      cases q' <;> rfl
    · rw [if_neg hq, Int.add_zero]
      cases q <;> cases q' <;> first | rfl | exact absurd rfl hq

end Account

section TrustLine

variable {tl tl' : TrustLineEntry} {delta : Int} {q : Quantity}

/-- The trust line without its amounts -/
def TrustLineEntry.core (tl : TrustLineEntry) : TrustLineEntry :=
  { tl with balance := 0, ext := none }

/-- The trust line with another amount -/
def TrustLineEntry.setAmount (tl : TrustLineEntry) (x : Int) : Quantity → TrustLineEntry
  | .balance => { tl with balance := x }
  | .buying => tl.setBuying x
  | .selling => tl.setSelling x

variable (h : tl.add delta q = .ok (some tl'))

include h

/-- What an addition makes of a trust line -/
theorem TrustLineEntry.add_eq :
    tl' = tl ∧ delta = 0 ∨ tl' = tl.setAmount (tl.amountOf q + delta) q := by
  cases q <;> rcases addAmount_eq_some.mp h with ⟨hdelta, rfl⟩ | ⟨-, -, -, -, -, -, haccept⟩
  case balance.inr =>
    split at haccept
    · cases haccept
    · exact .inr (some.inj haccept).symm
  all_goals first
  | exact .inl ⟨rfl, hdelta⟩
  | exact .inr (some.inj haccept).symm

theorem TrustLineEntry.add_core : tl'.core = tl.core := by
  rcases add_eq h with ⟨rfl, -⟩ | rfl
  · rfl
  · cases q <;> rfl

theorem TrustLineEntry.add_amount (q' : Quantity) :
    tl'.amountOf q' = tl.amountOf q' + if q' = q then delta else 0 := by
  rcases add_eq h with ⟨rfl, rfl⟩ | rfl
  · simp
  · by_cases hq : q' = q
    · subst hq
      cases q' <;> rfl
    · rw [if_neg hq, Int.add_zero]
      cases q <;> cases q' <;> first | rfl | exact absurd rfl hq

end TrustLine

section NumEntries

variable {header : LedgerHeader} {acc acc' : AccountEntry} {count : Int}

theorem AccountEntry.addNumEntries_eq_some : acc.addNumEntries header count = .ok (some acc') ↔
      0 ≤ acc.newEntriesCount count ∧
      ¬ (count > 0 ∧ acc.balance < int64 (getMinBalance header (acc.newEntriesCount count).toNat +
        (if header.ledgerVersion ≥ 10 then acc.getSellingLiabilities else 0))) ∧
      acc' = { acc with numSubEntries := (acc.newEntriesCount count).toNat } := by
  unfold addNumEntries
  by_cases hcount : acc.newEntriesCount count < 0
  · rw [if_pos hcount]
    exact ⟨nofun, fun h => absurd h.1 (not_le.mpr hcount)⟩
  · rw [if_neg hcount]
    by_cases hlow : count > 0 ∧ acc.balance <
        int64 (getMinBalance header (acc.newEntriesCount count).toNat +
          (if header.ledgerVersion ≥ 10 then acc.getSellingLiabilities else 0))
    · rw [if_pos hlow]
      exact ⟨nofun, fun h => absurd hlow h.2.1⟩
    · rw [if_neg hlow]
      exact ⟨fun h => ⟨not_lt.mp hcount, hlow, (some.inj (Except.ok.inj h)).symm⟩,
        fun h => h.2.2 ▸ rfl⟩

end NumEntries

end EssaCore.Ledger

/-! ## What a change leaves alone -/

namespace EssaCore.Transactions

open Ledger Lib

section Frame

variable {s s' : LedgerState} {c : Change} {cs : List Change} {k : LedgerKey}

theorem accountID_of_core {acc acc' : AccountEntry} (h : acc'.core = acc.core) :
    acc'.accountID = acc.accountID := (AccountEntry.mk.inj h).1

theorem key_of_core {tl tl' : TrustLineEntry} (h : tl'.core = tl.core) :
    tl'.accountID = tl.accountID ∧ tl'.asset = tl.asset :=
  ⟨(TrustLineEntry.mk.inj h).1, (TrustLineEntry.mk.inj h).2.1⟩

/-- A change writes no other entry than its own. -/
theorem Step.lookup_of_ne (h : Step s c s') (hk : c.key ≠ some k) : s'.lookup k = s.lookup k := by
  cases h with
  | native hacc hadd =>
    refine s.lookup_put_of_ne fun hkey => hk ?_
    rw [hkey, Change.key, assetKey, if_pos rfl, LedgerEntryData.key,
      accountID_of_core (AccountEntry.add_core hadd), s.accountID_of_account hacc]
  | line hasset hissuer htl hadd =>
    refine s.lookup_put_of_ne fun hkey => hk ?_
    obtain ⟨hid, hasset'⟩ := key_of_core (TrustLineEntry.add_core hadd)
    rw [hkey, Change.key, assetKey, if_neg hasset, LedgerEntryData.key, hid, hasset',
      (s.key_of_trustLine htl).1, (s.key_of_trustLine htl).2]
  | issuer => rfl
  | numEntries hacc hadd =>
    refine s.lookup_put_of_ne fun hkey => hk ?_
    obtain ⟨-, -, rfl⟩ := AccountEntry.addNumEntries_eq_some.mp hadd
    rw [hkey, Change.key, LedgerEntryData.key, s.accountID_of_account hacc]
  | settings hacc hid =>
    refine s.lookup_put_of_ne fun hkey => hk ?_
    rw [hkey, Change.key, LedgerEntryData.key, hid]
  | createAccount => exact s.lookup_put_of_ne fun hkey => hk (hkey ▸ rfl)
  | eraseAccount => exact s.lookup_erase_of_ne fun hkey => hk (hkey ▸ rfl)
  | createTrustLine => exact s.lookup_put_of_ne fun hkey => hk (hkey ▸ rfl)
  | setLimit => exact s.lookup_put_of_ne fun hkey => hk (hkey ▸ rfl)
  | setAuthorized => exact s.lookup_put_of_ne fun hkey => hk (hkey ▸ rfl)
  | eraseTrustLine => exact s.lookup_erase_of_ne fun hkey => hk (hkey ▸ rfl)
  | createOffer => exact s.lookup_put_of_ne fun hkey => hk (hkey ▸ rfl)
  | setAmount => exact s.lookup_put_of_ne fun hkey => hk (hkey ▸ rfl)
  | eraseOffer => exact s.lookup_erase_of_ne fun hkey => hk (hkey ▸ rfl)
  | createData => exact s.lookup_put_of_ne fun hkey => hk (hkey ▸ rfl)
  | setData hd hid hname =>
    refine s.lookup_put_of_ne fun hkey => hk ?_
    rw [hkey, Change.key, LedgerEntryData.key, hid, hname]
  | eraseData => exact s.lookup_erase_of_ne fun hkey => hk (hkey ▸ rfl)
  | header => rfl

theorem lookup_of_journal (h : Journal s cs s') (hk : ∀ c ∈ cs, c.key ≠ some k) :
    s'.lookup k = s.lookup k := by
  induction h with
  | nil => rfl
  | cons hstep _ ih =>
    rw [ih fun c hc => hk c (List.mem_cons_of_mem _ hc),
      hstep.lookup_of_ne (hk _ List.mem_cons_self)]

end Frame

/-! ## What a change does to a sum -/

/-- The entries that a change takes away and puts in place -/
inductive Effect : Change → Option LedgerEntryData → Option LedgerEntryData → Prop
  | native {q : Quantity} {delta : Int} {acc acc' : AccountEntry}
      (hcore : acc'.core = acc.core)
      (hamount : ∀ q', acc'.amountOf q' = acc.amountOf q' + if q' = q then delta else 0) :
      Effect (.amount q acc.accountID .native delta) (some (.account acc)) (some (.account acc'))
  | line {q : Quantity} {delta : Int} {tl tl' : TrustLineEntry} (hasset : tl.asset ≠ .native)
      (hissuer : getIssuer tl.asset ≠ tl.accountID) (hcore : tl'.core = tl.core)
      (hamount : ∀ q', tl'.amountOf q' = tl.amountOf q' + if q' = q then delta else 0) :
      Effect (.amount q tl.accountID tl.asset delta) (some (.trustLine tl))
        (some (.trustLine tl'))
  | issuer {q : Quantity} {id : AccountID} {asset : Asset} {delta : Int}
      (hissues : issues id asset) : Effect (.amount q id asset delta) none none
  | numEntries {count : Int} {acc : AccountEntry} (hcount : 0 ≤ acc.newEntriesCount count) :
      Effect (.numEntries acc.accountID count) (some (.account acc))
        (some (.account { acc with numSubEntries := (acc.newEntriesCount count).toNat }))
  | settings {acc acc' : AccountEntry} (hid : acc'.accountID = acc.accountID)
      (hbalance : acc'.balance = acc.balance) (hext : acc'.ext = acc.ext)
      (hentries : acc'.numSubEntries = acc.numSubEntries) :
      Effect (.settings acc acc') (some (.account acc)) (some (.account acc'))
  | createAccount {acc : AccountEntry} (hext : acc.ext = none)
      (hentries : acc.numSubEntries = 0) (hsigners : acc.signers = []) :
      Effect (.createAccount acc) none (some (.account acc))
  | eraseAccount {acc : AccountEntry} (hentries : acc.numSubEntries = acc.signers.length) :
      Effect (.eraseAccount acc) (some (.account acc)) none
  | createTrustLine {tl : TrustLineEntry} (hbalance : tl.balance = 0) (hext : tl.ext = none) :
      Effect (.createTrustLine tl) none (some (.trustLine tl))
  | setLimit {tl : TrustLineEntry} {limit : Int} :
      Effect (.setLimit tl limit) (some (.trustLine tl))
        (some (.trustLine { tl with limit := limit }))
  | setAuthorized {tl : TrustLineEntry} {authorize : Bool} :
      Effect (.setAuthorized tl authorize) (some (.trustLine tl))
        (some (.trustLine (tl.setAuthorized authorize)))
  | eraseTrustLine {tl : TrustLineEntry} : Effect (.eraseTrustLine tl) (some (.trustLine tl)) none
  | createOffer {o : OfferEntry} : Effect (.createOffer o) none (some (.offer o))
  | setAmount {o : OfferEntry} {amount : Int} :
      Effect (.setAmount o amount) (some (.offer o)) (some (.offer { o with amount := amount }))
  | eraseOffer {o : OfferEntry} : Effect (.eraseOffer o) (some (.offer o)) none
  | createData {d : DataEntry} : Effect (.createData d) none (some (.data d))
  | setData {d d' : DataEntry} (hid : d'.accountID = d.accountID)
      (hname : d'.dataName = d.dataName) :
      Effect (.setData d d') (some (.data d)) (some (.data d'))
  | eraseData {d : DataEntry} : Effect (.eraseData d) (some (.data d)) none
  | header {h h' : LedgerHeader} : Effect (.header h h') none none

/-- The weight of an entry that may be missing -/
def weightOf (w : LedgerEntryData → Int) (d : Option LedgerEntryData) : Int := (d.map w).getD 0

section Sums

variable {s s' : LedgerState} {c : Change} {cs : List Change} {w : LedgerEntryData → Int}

/-- One entry is replaced, created or erased. -/
structure Replaces (s : LedgerState) (old new : Option LedgerEntryData) (s' : LedgerState) :
    Prop where
  sum : ∀ w, s'.sum w = s.sum w - weightOf w old + weightOf w new
  old : ∀ d, old = some d → s.lookup d.key = some d

variable {d : LedgerEntryData}

theorem replaces_put {d' : LedgerEntryData} (h : s.lookup d'.key = some d) :
    Replaces s (some d) (some d') (s.put d') where
  sum _ := s.sum_put_of_some h
  old := by
    rintro _ ⟨⟩
    rwa [s.key_of_lookup h]

theorem replaces_create (h : s.lookup d.key = none) :
    Replaces s none (some d) (s.put d) where
  sum w := by
    rw [s.sum_put, s.weight_of_none h]
    rfl
  old := nofun

theorem replaces_erase {k : LedgerKey} (h : s.lookup k = some d) :
    Replaces s (some d) none (s.erase k) where
  sum w := by
    rw [s.sum_erase, s.weight_of_some h]
    exact (Int.add_zero _).symm
  old := by
    rintro _ ⟨⟩
    rwa [s.key_of_lookup h]

theorem replaces_refl (s : LedgerState) : Replaces s none none s where
  sum w := by rw [weightOf, map_none, getD_none, Int.sub_zero, Int.add_zero]
  old := nofun

theorem Step.effect (h : Step s c s') : ∃ old new, Effect c old new ∧ Replaces s old new s' := by
  cases h with
  | native hacc hadd =>
    have hcore := AccountEntry.add_core hadd
    obtain rfl := s.accountID_of_account hacc
    refine ⟨_, _, .native hcore (AccountEntry.add_amount hadd), replaces_put ?_⟩
    rw [LedgerEntryData.key, accountID_of_core hcore]
    exact s.account_eq_some_iff.mp hacc
  | line hasset hissuer htl hadd =>
    have hcore := TrustLineEntry.add_core hadd
    obtain ⟨rfl, rfl⟩ := s.key_of_trustLine htl
    refine ⟨_, _, .line hasset hissuer hcore (TrustLineEntry.add_amount hadd), replaces_put ?_⟩
    rw [LedgerEntryData.key, (key_of_core hcore).1, (key_of_core hcore).2]
    exact s.trustLine_eq_some_iff.mp htl
  | issuer hissues => exact ⟨_, _, .issuer hissues, replaces_refl s⟩
  | numEntries hacc hadd =>
    obtain ⟨hcount, -, rfl⟩ := AccountEntry.addNumEntries_eq_some.mp hadd
    obtain rfl := s.accountID_of_account hacc
    exact ⟨_, _, .numEntries hcount, replaces_put (s.account_eq_some_iff.mp hacc)⟩
  | settings hacc hid hbalance hext hentries =>
    refine ⟨_, _, .settings hid hbalance hext hentries, replaces_put ?_⟩
    rw [LedgerEntryData.key, hid]
    exact s.account_eq_some_iff.mp hacc
  | createAccount hnone hext hentries hsigners =>
    exact ⟨_, _, .createAccount hext hentries hsigners, replaces_create hnone⟩
  | eraseAccount hacc hentries =>
    exact ⟨_, _, .eraseAccount hentries, replaces_erase (s.account_eq_some_iff.mp hacc)⟩
  | createTrustLine hnone _ hbalance hext =>
    exact ⟨_, _, .createTrustLine hbalance hext, replaces_create hnone⟩
  | setLimit htl => exact ⟨_, _, .setLimit, replaces_put (s.trustLine_eq_some_iff.mp htl)⟩
  | setAuthorized htl => exact ⟨_, _, .setAuthorized, replaces_put (s.trustLine_eq_some_iff.mp htl)⟩
  | eraseTrustLine htl =>
    exact ⟨_, _, .eraseTrustLine, replaces_erase (s.trustLine_eq_some_iff.mp htl)⟩
  | createOffer hnone => exact ⟨_, _, .createOffer, replaces_create hnone⟩
  | setAmount ho => exact ⟨_, _, .setAmount, replaces_put (s.offer_eq_some_iff.mp ho)⟩
  | eraseOffer ho => exact ⟨_, _, .eraseOffer, replaces_erase (s.offer_eq_some_iff.mp ho)⟩
  | createData hnone => exact ⟨_, _, .createData, replaces_create hnone⟩
  | setData hd hid hname =>
    refine ⟨_, _, .setData hid hname, replaces_put ?_⟩
    rw [LedgerEntryData.key, hid, hname]
    exact s.data_eq_some_iff.mp hd
  | eraseData hd => exact ⟨_, _, .eraseData, replaces_erase (s.data_eq_some_iff.mp hd)⟩
  | header => exact ⟨_, _, .header, (replaces_refl s).sum, by simp⟩

/-- A sum over all entries changes by what the labels say. -/
theorem journal_sum {f : Change → Int}
    (hf : ∀ c old new, Effect c old new → weightOf w new = weightOf w old + f c)
    (h : Journal s cs s') : s'.sum w = s.sum w + (cs.map f).sum := by
  refine h.sum (fun s c s' hstep => ?_)
  obtain ⟨old, new, heffect, hreplaces⟩ := hstep.effect
  rw [hreplaces.sum w, hf c old new heffect]
  omega

end Sums

end EssaCore.Transactions
