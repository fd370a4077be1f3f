import EssaCore.Transactions.LiveOffers
import EssaCore.Transactions.SubEntries

/-!
# Liabilities

The liabilities of accounts and trust lines are those of the offers in the book, and balances,
limits and reserves cover them. Every change keeps what it can keep on its own: coverage, and
that offers are live. That the stored liabilities match the offers holds again whenever the
changes to both add up to the same.

- `Good` — the liabilities match the offers and are covered;
- `Sound` — the same for every account there could be, with offers in the range of their types;
- `Step.trustLine`, `Step.mem_offers` — the lines and offers that are there after a change;
- `Step.covered` — what a change keeps on its own;
- `Sound.journal` — changes that add up keep a state sound.
-/

open List Option

namespace EssaCore.Ledger

open Transactions LedgerState AccountEntry LedgerKey TrustLineEntry

/-- The balance of an account leaves room for its buying liabilities, and covers its selling
liabilities beyond the reserve. -/
def AccountEntry.Covered (header : LedgerHeader) (acc : AccountEntry) : Prop :=
  acc.balance + acc.getBuyingLiabilities ≤ INT64_MAX ∧
    (0 < acc.getSellingLiabilities →
      getMinBalance header acc.numSubEntries + acc.getSellingLiabilities ≤ acc.balance)

/-- The balance of a trust line covers its selling liabilities, and its limit the buying ones. -/
def TrustLineEntry.Covered (tl : TrustLineEntry) : Prop :=
  tl.getSellingLiabilities ≤ tl.balance ∧ tl.balance ≤ tl.limit - tl.getBuyingLiabilities

end EssaCore.Ledger

namespace EssaCore.Transactions

open Ledger Lib

open ManageOfferOp (MayHold)

/-! ## Good states -/

/-- The offer is backed, and its seller may hold what it sells and buys. -/
structure Live (s : LedgerState) (o : OfferEntry) : Prop where
  backed : o.Backed
  seller : ∃ acc, s.account o.sellerID = some acc
  selling : MayHold s o.sellerID o.selling
  buying : MayHold s o.sellerID o.buying

/-- Liabilities match offers, offers are live, and liabilities are covered. -/
structure Good (s : LedgerState) : Prop where
  matched : ∀ id acc, s.account id = some acc → ∀ q ≠ .balance, ∀ asset, ¬ issues id asset →
    kept s q id asset = offered s q id asset
  live : ∀ o ∈ s.offers, Live s o
  lines : ∀ id asset tl, s.trustLine id asset = some tl → tl.Covered
  accounts : ∀ id acc, s.account id = some acc → acc.Covered s.header

/-- The offers have values of their types. -/
def OffersFit (s : LedgerState) : Prop := ∀ o ∈ s.offers, o.Fits

/-- What single changes keep -/
structure Covered (s : LedgerState) : Prop where
  version : 10 ≤ s.header.ledgerVersion
  live : ∀ o ∈ s.offers, Live s o
  fits : OffersFit s
  lines : ∀ id asset tl, s.trustLine id asset = some tl → tl.Covered
  accounts : ∀ id acc, s.account id = some acc → acc.Covered s.header

/-- Liabilities match offers, for every account that there is or could be. -/
structure Sound (s : LedgerState) : Prop extends Covered s where
  matched : ∀ q ≠ .balance, ∀ id asset, ¬ issues id asset →
    kept s q id asset = offered s q id asset

variable {s s' : LedgerState} {c : Change} {cs : List Change}

/-- Nothing is kept for an account that does not exist, and none of the offers is its own. -/
theorem Good.sound (h : Good s) (howned : Owned s) (hfits : OffersFit s)
    (hversion : 10 ≤ s.header.ledgerVersion) : Sound s where
  version := hversion
  live := h.live
  fits := hfits
  lines := h.lines
  accounts := h.accounts
  matched q hq id asset hissues := by
    cases hacc : s.account id with
    | some acc => exact h.matched id acc hacc q hq asset hissues
    | none =>
      have hnoline : s.trustLine id asset = none := by
        by_contra hline
        obtain ⟨tl, htl⟩ := ne_none_iff_exists'.mp hline
        have hlookup := s.trustLine_eq_some_iff.mp htl
        have hkey := s.key_of_lookup hlookup
        obtain ⟨acc, hacc'⟩ := howned (.trustLine tl) id (hkey ▸ hlookup)
          (congrArg some (s.key_of_trustLine htl).1)
        rw [hacc] at hacc'
        cases hacc'
      have hnooffer : offered s q id asset = 0 := by
        refine sum_eq_zero fun x hx => ?_
        obtain ⟨o, ho, rfl⟩ := mem_map.mp hx
        refine if_neg fun hseller => ?_
        obtain ⟨acc, hacc'⟩ := (h.live o ho).seller
        rw [hseller.1, hacc] at hacc'
        cases hacc'
      rw [hnooffer, kept, hacc, hnoline]
      split <;> rfl

/-! ## Lines and offers after a change -/

/-- What a change makes of a trust line that stays -/
inductive LineUpdates : Change → TrustLineEntry → TrustLineEntry → Prop
  | same {c : Change} {tl : TrustLineEntry} : LineUpdates c tl tl
  | amount {q : Quantity} {delta : Int} {tl tl' : TrustLineEntry}
      (hadd : tl.add delta q = .ok (some tl')) :
      LineUpdates (.amount q tl.accountID tl.asset delta) tl tl'
  | setLimit {tl : TrustLineEntry} {limit : Int} (hlimit : tl.getMinimumLimit ≤ limit) :
      LineUpdates (.setLimit tl limit) tl { tl with limit := limit }
  | setAuthorized {tl : TrustLineEntry} {authorize : Bool} :
      LineUpdates (.setAuthorized tl authorize) tl (tl.setAuthorized authorize)

theorem assetKey_trustLine {id id' : AccountID} {asset asset' : Asset}
    (h : assetKey id asset = .trustLine id' asset') : id = id' ∧ asset = asset' := by
  unfold assetKey at h
  split at h
  · cases h
  · exact LedgerKey.trustLine.inj h

/-- A trust line that is there after a change was there before, or is new. -/
theorem Step.trustLine (h : Step s c s') {id : AccountID} {asset : Asset} {tl : TrustLineEntry}
    (htl : s'.trustLine id asset = some tl) :
    (∃ tl₀, s.trustLine id asset = some tl₀ ∧ LineUpdates c tl₀ tl) ∨ c = .createTrustLine tl := by
  have hlookup := s'.trustLine_eq_some_iff.mp htl
  by_cases hkey : c.key = some (.trustLine id asset)
  · have hput {d : TrustLineEntry}
        (hlookup : (s.put (.trustLine d)).lookup (.trustLine id asset) = some (.trustLine tl))
        (hd : d.accountID = id ∧ d.asset = asset) : tl = d := by
      obtain ⟨rfl, rfl⟩ := hd
      exact LedgerEntryData.trustLine.inj
        (Option.some.inj (hlookup.symm.trans (LedgerState.lookup_put_self)))
    cases h with
    | @line q id' asset' delta tl₀ tl' _ _ htl₀ hadd =>
      obtain ⟨rfl, rfl⟩ := assetKey_trustLine (some.inj hkey)
      obtain ⟨rfl, rfl⟩ := s.key_of_trustLine htl₀
      obtain rfl := hput hlookup (key_of_core (TrustLineEntry.add_core hadd))
      exact .inl ⟨tl₀, htl₀, .amount hadd⟩
    | createTrustLine =>
      obtain ⟨rfl, rfl⟩ := LedgerKey.trustLine.inj (Option.some.inj hkey)
      exact .inr (congrArg _ (hput hlookup ⟨rfl, rfl⟩).symm)
    | setLimit htl₀ hlimit =>
      obtain ⟨rfl, rfl⟩ := LedgerKey.trustLine.inj (Option.some.inj hkey)
      obtain rfl := hput hlookup ⟨rfl, rfl⟩
      exact .inl ⟨_, htl₀, .setLimit hlimit⟩
    | setAuthorized htl₀ =>
      obtain ⟨rfl, rfl⟩ := LedgerKey.trustLine.inj (Option.some.inj hkey)
      obtain rfl := hput hlookup ⟨rfl, rfl⟩
      exact .inl ⟨_, htl₀, .setAuthorized⟩
    | eraseTrustLine =>
      obtain ⟨rfl, rfl⟩ := LedgerKey.trustLine.inj (Option.some.inj hkey)
      rw [LedgerState.lookup_erase_self] at hlookup
      cases hlookup
    | issuer => exact .inl ⟨tl, htl, .same⟩
    | native =>
      exact absurd (assetKey_trustLine (some.inj hkey)) (by
        cases hkey)
    | _ => cases hkey
  · rw [h.lookup_of_ne hkey] at hlookup
    exact .inl ⟨tl, s.trustLine_eq_some_iff.mpr hlookup, .same⟩

/-- An offer that is there after a change was there before, is new, or has a new amount. -/
theorem Step.mem_offers (h : Step s c s') {o : OfferEntry} (ho : o ∈ s'.offers) :
    o ∈ s.offers ∨ c = .createOffer o ∨
      ∃ o₀ ∈ s.offers, ∃ amount, c = .setAmount o₀ amount ∧ o = { o₀ with amount := amount } := by
  rw [LedgerState.mem_offers, LedgerState.offer_eq_some_iff] at ho
  by_cases hkey : c.key = some (.offer o.sellerID o.offerID)
  · have hput {d : OfferEntry} (hd : d.sellerID = o.sellerID ∧ d.offerID = o.offerID)
        (hlookup : (s.put (.offer d)).lookup (.offer o.sellerID o.offerID) = some (.offer o)) :
        o = d := by
      rw [← hd.1, ← hd.2] at hlookup
      exact LedgerEntryData.offer.inj
        (Option.some.inj (hlookup.symm.trans (LedgerState.lookup_put_self)))
    cases h with
    | createOffer =>
      exact .inr (.inl (congrArg _ (hput (LedgerKey.offer.inj (Option.some.inj hkey)) ho).symm))
    | setAmount ho₀ =>
      refine .inr (.inr ⟨_, s.mem_offers.mpr ho₀, _, rfl, ?_⟩)
      exact hput (LedgerKey.offer.inj (Option.some.inj hkey)) ho
    | eraseOffer =>
      obtain ⟨hseller, hofferID⟩ := LedgerKey.offer.inj (Option.some.inj hkey)
      rw [hseller, hofferID, LedgerState.lookup_erase_self] at ho
      cases ho
    | native => exact absurd (some.inj hkey) assetKey_ne_offer
    | line => exact absurd (some.inj hkey) assetKey_ne_offer
    | issuer => exact absurd (some.inj hkey) assetKey_ne_offer
    | _ => cases hkey
  · rw [h.lookup_of_ne hkey] at ho
    exact .inl (s.mem_offers.mpr (s.offer_eq_some_iff.mpr ho))

/-! ## Coverage -/

end EssaCore.Transactions

namespace EssaCore.Ledger

open Transactions

section Account

variable {header : LedgerHeader} {acc acc' : AccountEntry} {q : Quantity} {delta count : Int}

variable (hversion : 10 ≤ header.ledgerVersion)

include hversion

theorem AccountEntry.Covered.add (h : acc.Covered header)
    (hadd : acc.add header delta q = .ok (some acc')) : acc'.Covered header := by
  obtain ⟨hbuying, hselling⟩ := h
  cases q with
  | balance =>
    rcases addAmount_eq_some.mp hadd with ⟨-, rfl⟩ | ⟨-, -, -, -, -, -, haccept⟩
    · exact ⟨hbuying, hselling⟩
    · split at haccept
      · rename_i hallowed
        cases haccept
        simp only [balanceAllowed, Bool.or_eq_true, Bool.not_eq_true',
          Bool.or_eq_false_iff, decide_eq_true_eq, decide_eq_false_iff_not] at hallowed
        unfold AccountEntry.Covered
        simp only [getBuyingLiabilities, getSellingLiabilities] at *
        omega
      · cases haccept
  | buying =>
    rcases addAmount_eq_some.mp hadd with ⟨-, rfl⟩ | ⟨-, -, -, -, -, hmax, haccept⟩
    · exact ⟨hbuying, hselling⟩
    · cases haccept
      refine ⟨?_, hselling⟩
      simp only [setBuying, getBuyingLiabilities, map_some,
        getD_some] at *
      omega
  | selling =>
    rcases addAmount_eq_some.mp hadd with ⟨-, rfl⟩ | ⟨-, -, -, -, -, hmax, haccept⟩
    · exact ⟨hbuying, hselling⟩
    · cases haccept
      refine ⟨hbuying, fun _ => ?_⟩
      simp only [setSelling, getSellingLiabilities, map_some,
        getD_some] at *
      omega

omit hversion in
theorem getMinBalance_nonneg {n : Nat} : 0 ≤ getMinBalance header n := by
  unfold getMinBalance
  split
  · exact Int.natCast_nonneg _
  · exact Int.mul_nonneg (Int.natCast_nonneg _) (Int.natCast_nonneg _)

/-- An entry less does not raise the reserve. -/
theorem AccountEntry.getMinBalance_le (hcount : 0 ≤ acc.newEntriesCount (-1)) :
    getMinBalance header (acc.newEntriesCount (-1)).toNat ≤
      getMinBalance header acc.numSubEntries := by
  have hmod : (2 + (acc.newEntriesCount (-1)).toNat) % 2 ^ 32 ≤
      (2 + acc.numSubEntries) % 2 ^ 32 := by
    unfold newEntriesCount at *
    rw [Int.bmod_def] at *
    split at hcount <;> omega
  rw [getMinBalance, getMinBalance, if_neg (by omega), if_neg (by omega)]
  exact Int.mul_le_mul_of_nonneg_right (Int.ofNat_le.mpr hmod) (Int.natCast_nonneg _)

/-- The reserve of an account with one entry more -/
theorem AccountEntry.getMinBalance_succ (hcount : 0 ≤ acc.newEntriesCount 1) :
    getMinBalance header (acc.newEntriesCount 1).toNat =
      getMinBalance header (acc.numSubEntries + 1) := by
  have hmod : (2 + (acc.newEntriesCount 1).toNat) % 2 ^ 32 =
      (2 + (acc.numSubEntries + 1)) % 2 ^ 32 := by
    unfold newEntriesCount at *
    rw [Int.bmod_def] at *
    split at hcount <;> omega
  rw [getMinBalance, getMinBalance, if_neg (by omega), if_neg (by omega), hmod]

omit hversion in
/-- With selling liabilities the reserve for one entry more is added to them; the sum is an
`int64`. -/
def AccountEntry.ReserveFits (acc : AccountEntry) (header : LedgerHeader) : Prop :=
  0 < acc.getSellingLiabilities → getMinBalance header (acc.numSubEntries + 1) +
    acc.getSellingLiabilities ≤ INT64_MAX

theorem AccountEntry.Covered.addNumEntries (h : acc.Covered header)
    (hone : count = -1 ∨ count = 1 ∧ acc.ReserveFits header)
    (hadd : acc.addNumEntries header count = .ok (some acc')) : acc'.Covered header := by
  obtain ⟨hbuying, hselling⟩ := h
  obtain ⟨hcount, hreserve, rfl⟩ := addNumEntries_eq_some.mp hadd
  refine ⟨hbuying, fun hpos => ?_⟩
  replace hpos : 0 < acc.getSellingLiabilities := hpos
  have hold := hselling hpos
  rw [if_pos hversion] at hreserve
  show getMinBalance header (acc.newEntriesCount count).toNat + acc.getSellingLiabilities ≤
    acc.balance
  rcases hone with rfl | ⟨rfl, hfits⟩
  · have hmin := getMinBalance_le hversion hcount
    omega
  · rw [getMinBalance_succ hversion hcount] at hreserve ⊢
    have hmin : 0 ≤ getMinBalance header (acc.numSubEntries + 1) := getMinBalance_nonneg
    rw [int64_eq (by omega) (hfits hpos)] at hreserve
    exact not_lt.mp fun hlow => hreserve ⟨Int.one_pos, hlow⟩

end Account

section TrustLine

variable {tl tl' : TrustLineEntry} {q : Quantity} {delta : Int}

theorem TrustLineEntry.Covered.add (h : tl.Covered) (hadd : tl.add delta q = .ok (some tl')) :
    tl'.Covered := by
  obtain ⟨hselling, hbuying⟩ := h
  cases q with
  | balance =>
    rcases addAmount_eq_some.mp hadd with ⟨-, rfl⟩ | ⟨-, -, -, -, -, -, haccept⟩
    · exact ⟨hselling, hbuying⟩
    · split at haccept
      · cases haccept
      · rename_i hallowed
        cases haccept
        obtain ⟨hlow, hhigh⟩ := not_or.mp hallowed
        exact ⟨not_lt.mp hlow, not_lt.mp hhigh⟩
  | buying =>
    rcases addAmount_eq_some.mp hadd with ⟨-, rfl⟩ | ⟨-, -, -, -, -, hmax, haccept⟩
    · exact ⟨hselling, hbuying⟩
    · cases haccept
      refine ⟨hselling, ?_⟩
      simp only [setBuying, getBuyingLiabilities, map_some,
        getD_some] at *
      omega
  | selling =>
    rcases addAmount_eq_some.mp hadd with ⟨-, rfl⟩ | ⟨-, -, -, -, -, hmax, haccept⟩
    · exact ⟨hselling, hbuying⟩
    · cases haccept
      exact ⟨hmax, hbuying⟩

end TrustLine

end EssaCore.Ledger

namespace EssaCore.Transactions

open Ledger Lib

open ManageOfferOp (MayHold)

variable {s s' : LedgerState} {c : Change} {cs : List Change}

theorem Step.header_congr (h : Step s c s') : s'.header.ledgerVersion = s.header.ledgerVersion ∧
      ∀ n, getMinBalance s'.header n = getMinBalance s.header n := by
  cases h with
  | header hversion _ hreserve =>
    refine ⟨hversion, fun n => ?_⟩
    rw [LedgerState.header_setHeader, getMinBalance, getMinBalance, hversion, hreserve]
  | _ => exact ⟨rfl, fun _ => rfl⟩

/-- A change that can be made without a look at the offers: it takes nothing away that an offer
needs, and a new offer has what it needs in a state `s`. -/
def Change.Allowed (s : LedgerState) : Change → Prop
  | .createOffer o => o.Fits ∧ Live s o
  | .setAmount o newAmount =>
    OfferEntry.Backed { o with amount := newAmount } ∧ newAmount ≤ INT64_MAX
  | .createAccount acc => acc.balance ≤ INT64_MAX
  | .numEntries _ count => count = -1
  | .eraseAccount _ | .eraseTrustLine _ | .setAuthorized _ _ => False
  | _ => True

/-- An account can be charged for one entry more. -/
def ReserveFits (s : LedgerState) (id : AccountID) : Prop :=
  ∀ acc, s.account id = some acc → acc.ReserveFits s.header

theorem Step.covered_accounts (h : Step s c s') (hversion : 10 ≤ s.header.ledgerVersion)
    (hc : ∀ acc, c = .createAccount acc → acc.balance ≤ INT64_MAX)
    (hcount : ∀ id count, c = .numEntries id count → count = -1 ∨ count = 1 ∧ ReserveFits s id)
    (hs : ∀ id acc, s.account id = some acc → acc.Covered s.header) :
    ∀ id acc, s'.account id = some acc → acc.Covered s'.header := by
  intro id acc hacc
  have hcongr : acc.Covered s.header → acc.Covered s'.header := by
    unfold AccountEntry.Covered
    rw [h.header_congr.2]
    exact fun h => h
  refine hcongr ?_
  rcases h.account hacc with ⟨acc₀, hacc₀, hupdates⟩ | rfl
  · have hcovered := hs id acc₀ hacc₀
    cases hupdates with
    | same => exact hcovered
    | native hadd => exact hcovered.add hversion hadd
    | numEntries hadd =>
      refine hcovered.addNumEntries hversion ((hcount _ _ rfl).imp_right ?_) hadd
      exact And.imp_right fun hfits => hfits acc₀ (s.accountID_of_account hacc₀ ▸ hacc₀)
    | settings _ hbalance hext hentries =>
      unfold AccountEntry.Covered AccountEntry.getBuyingLiabilities
        AccountEntry.getSellingLiabilities at *
      rw [hbalance, hext, hentries]
      exact hcovered
  · have hmax := hc acc rfl
    cases h with
    | createAccount _ hext =>
      unfold AccountEntry.Covered AccountEntry.getBuyingLiabilities
        AccountEntry.getSellingLiabilities
      rw [hext]
      exact ⟨by simpa using hmax, fun h => absurd h (lt_irrefl _)⟩

theorem Step.covered_lines (h : Step s c s')
    (hs : ∀ id asset tl, s.trustLine id asset = some tl → tl.Covered) :
    ∀ id asset tl, s'.trustLine id asset = some tl → tl.Covered := by
  intro id asset tl htl
  rcases h.trustLine htl with ⟨tl₀, htl₀, hupdates⟩ | rfl
  · have hcovered := hs id asset tl₀ htl₀
    cases hupdates with
    | same => exact hcovered
    | amount hadd => exact hcovered.add hadd
    | setLimit hlimit =>
      refine ⟨hcovered.1, ?_⟩
      unfold TrustLineEntry.getMinimumLimit at hlimit
      simp only [TrustLineEntry.getBuyingLiabilities] at *
      omega
    | setAuthorized => exact hcovered
  · cases h with
    | createTrustLine _ _ hbalance hext hlimit =>
      unfold TrustLineEntry.Covered TrustLineEntry.getBuyingLiabilities
        TrustLineEntry.getSellingLiabilities
      rw [hbalance, hext]
      exact ⟨le_rfl, by simpa using hlimit⟩

/-! ## What offers rest on -/

/-- Accounts are still there, and what they may hold they still may. -/
structure Retains (s s' : LedgerState) : Prop where
  account : ∀ id acc, s.account id = some acc → ∃ acc', s'.account id = some acc'
  mayHold : ∀ id asset, MayHold s id asset → MayHold s' id asset

theorem Retains.refl (s : LedgerState) : Retains s s := ⟨fun _ _ h => ⟨_, h⟩, fun _ _ h => h⟩

theorem Retains.trans {s'' : LedgerState} (h : Retains s s') (h' : Retains s' s'') :
    Retains s s'' where
  account id acc hacc := by
    obtain ⟨acc', hacc'⟩ := h.account id acc hacc
    exact h'.account id acc' hacc'
  mayHold id asset hold := h'.mayHold id asset (h.mayHold id asset hold)

theorem Live.retains {o : OfferEntry} (h : Live s o) (hretains : Retains s s') : Live s' o where
  backed := h.backed
  seller := by
    obtain ⟨acc, hacc⟩ := h.seller
    exact hretains.account _ acc hacc
  selling := hretains.mayHold _ _ h.selling
  buying := hretains.mayHold _ _ h.buying

/-- An entry is not lost. -/
theorem Step.lookup_ne_none {k : LedgerKey} (h : Step s c s')
    (hacc : ∀ acc, c = .eraseAccount acc → k ≠ .account acc.accountID)
    (htl : ∀ tl, c = .eraseTrustLine tl → k ≠ .trustLine tl.accountID tl.asset)
    (hoffer : ∀ id offerID, k ≠ .offer id offerID) (hdata : ∀ id name, k ≠ .data id name)
    (hk : s.lookup k ≠ none) : s'.lookup k ≠ none := by
  have hput (d : LedgerEntryData) : (s.put d).lookup k ≠ none := by
    rw [s.lookup_put]
    split
    · exact nofun
    · exact hk
  cases h with
  | eraseAccount => rwa [s.lookup_erase_of_ne (hacc _ rfl)]
  | eraseTrustLine => rwa [s.lookup_erase_of_ne (htl _ rfl)]
  | eraseOffer => rwa [s.lookup_erase_of_ne (hoffer _ _)]
  | eraseData => rwa [s.lookup_erase_of_ne (hdata _ _)]
  | issuer => exact hk
  | header => exact hk
  | _ => exact hput _

theorem mayHold_iff {id : AccountID} {asset : Asset} :
    MayHold s id asset ↔ asset = .native ∨ getIssuer asset = id ∨
      ∃ tl, s.trustLine id asset = some tl ∧ tl.isAuthorized = true := by
  refine or_congr_right ?_
  unfold trustLineOf
  by_cases hissuer : getIssuer asset = id
  · rw [if_pos hissuer]
    exact ⟨fun _ => .inl hissuer, fun _ => ⟨_, rfl, rfl⟩⟩
  · rw [if_neg hissuer, or_iff_right hissuer]
    constructor
    · rintro ⟨_, hline, hauth⟩
      obtain ⟨tl, htl, rfl⟩ := map_eq_some_iff.mp hline
      exact ⟨tl, htl, hauth⟩
    · rintro ⟨tl, htl, hauth⟩
      exact ⟨_, map_eq_some_iff.mpr ⟨tl, htl, rfl⟩, hauth⟩

theorem isAuthorized_setAuthorized_true (tl : TrustLineEntry) :
    (tl.setAuthorized true).isAuthorized = true := by
  simp [TrustLineEntry.isAuthorized, TrustLineEntry.setAuthorized, AUTHORIZED_FLAG]

theorem Step.mayHold (h : Step s c s') {id : AccountID} {asset : Asset}
    (herase : ∀ tl, c = .eraseTrustLine tl → ¬ (tl.accountID = id ∧ tl.asset = asset))
    (hauth : ∀ tl b, c = .setAuthorized tl b →
      tl.isAuthorized = true → b = false → ¬ (tl.accountID = id ∧ tl.asset = asset))
    (hold : MayHold s id asset) : MayHold s' id asset := by
  rw [mayHold_iff] at hold ⊢
  rcases hold with hnative | hissuer | ⟨tl, htl, hauthorized⟩
  · exact .inl hnative
  · exact .inr (.inl hissuer)
  · refine .inr (.inr ?_)
    obtain ⟨tl', htl'⟩ : ∃ tl', s'.trustLine id asset = some tl' := by
      rw [← ne_none_iff_exists', Ne, s'.trustLine_eq_none_iff]
      refine h.lookup_ne_none nofun (fun tl₀ hc hkey => herase tl₀ hc ?_) nofun nofun ?_
      · exact ⟨(LedgerKey.trustLine.inj hkey).1.symm, (LedgerKey.trustLine.inj hkey).2.symm⟩
      · rw [s.trustLine_eq_some_iff.mp htl]
        exact nofun
    refine ⟨tl', htl', ?_⟩
    rcases h.trustLine htl' with ⟨tl₀, htl₀, hupdates⟩ | rfl
    · rw [htl] at htl₀
      cases htl₀
      cases hupdates with
      | same => exact hauthorized
      | amount hadd =>
        have hflags := (TrustLineEntry.mk.inj (TrustLineEntry.add_core hadd)).2.2.2.2.1
        unfold TrustLineEntry.isAuthorized at *
        rwa [hflags]
      | setLimit => exact hauthorized
      | @setAuthorized _ authorize =>
        cases authorize with
        | true => exact isAuthorized_setAuthorized_true tl
        | false => exact absurd (s.key_of_trustLine htl) (hauth _ _ rfl hauthorized rfl)
    · cases h with
      | createTrustLine hnone =>
        obtain ⟨rfl, rfl⟩ := LedgerState.key_of_trustLine htl'
        rw [s.trustLine_eq_some_iff.mp htl] at hnone
        cases hnone

theorem Step.exists_account (h : Step s c s') {id : AccountID}
    (herase : ∀ acc, c = .eraseAccount acc → acc.accountID ≠ id)
    (hacc : ∃ acc, s.account id = some acc) : ∃ acc, s'.account id = some acc := by
  rw [← Option.ne_none_iff_exists', Ne, LedgerState.account_eq_none_iff] at hacc ⊢
  exact h.lookup_ne_none (fun acc hc hkey => herase acc hc (LedgerKey.account.inj hkey).symm) nofun
    nofun nofun hacc

theorem Step.retains (h : Step s c s') {s₀ : LedgerState} (hc : c.Allowed s₀) : Retains s s' where
  account id acc hacc := by
    refine h.exists_account ?_ ⟨acc, hacc⟩
    rintro acc' rfl
    exact hc.elim
  mayHold id asset := by
    refine h.mayHold ?_ ?_
    · rintro tl rfl
      exact hc.elim
    · rintro tl b rfl
      exact hc.elim

theorem Change.Allowed.retains (hc : c.Allowed s) (h : Retains s s') : c.Allowed s' := by
  cases c with
  | createOffer o => exact ⟨hc.1, hc.2.retains h⟩
  | _ => exact hc

/-! ## Changes that keep a state sound -/

/-- What is left to show about a change is that the offers stay live. -/
theorem Covered.of_step (hs : Covered s) (hstep : Step s c s')
    (hc : ∀ acc, c = .createAccount acc → acc.balance ≤ INT64_MAX)
    (hcount : ∀ id count, c = .numEntries id count → count = -1 ∨ count = 1 ∧ ReserveFits s id)
    (hoffers : ∀ o ∈ s'.offers, Live s' o ∧ o.Fits) : Covered s' where
  version := hstep.header_congr.1.symm ▸ hs.version
  live o ho := (hoffers o ho).1
  fits o ho := (hoffers o ho).2
  lines := hstep.covered_lines hs.lines
  accounts := hstep.covered_accounts hs.version hc hcount hs.accounts

theorem Covered.step (hs : Covered s) (hstep : Step s c s') (hc : c.Allowed s) : Covered s' := by
  have hretains := hstep.retains hc
  refine hs.of_step hstep ?_ ?_ fun o ho => ?_
  · rintro acc rfl
    exact hc
  · rintro id count rfl
    exact .inl hc
  · rcases hstep.mem_offers ho with hmem | rfl | ⟨o₀, hmem, _, rfl, rfl⟩
    · exact ⟨(hs.live o hmem).retains hretains, hs.fits o hmem⟩
    · exact ⟨hc.2.retains hretains, hc.1⟩
    · have hlive := hs.live o₀ hmem
      have hfits := hs.fits o₀ hmem
      exact ⟨Live.retains ⟨hc.1, hlive.seller, hlive.selling, hlive.buying⟩ hretains,
        hfits.1, hfits.2.1, hc.2⟩

theorem Covered.journal (hs : Covered s) (h : Journal s cs s') (hcs : ∀ c ∈ cs, c.Allowed s) :
    Covered s' ∧ Retains s s' := by
  induction h with
  | nil => exact ⟨hs, .refl _⟩
  | @cons s s₁ s' c cs hstep _ ih =>
    have hretains := hstep.retains (hcs c mem_cons_self)
    obtain ⟨hs', hretains'⟩ := ih (hs.step hstep (hcs c mem_cons_self))
      fun c hc => (hcs c (mem_cons_of_mem _ hc)).retains hretains
    exact ⟨hs', hretains.trans hretains'⟩

/-- The changes of liabilities and of offers add up to the same. -/
def Balanced (cs : List Change) : Prop := ∀ q ≠ .balance, ∀ id asset, ¬ issues id asset →
  (cs.map (Change.delta q id asset)).sum = (cs.map (Change.offered q id asset)).sum

theorem Balanced.append {cs' : List Change} (h : Balanced cs) (h' : Balanced cs') :
    Balanced (cs ++ cs') := by
  intro q hq id asset hissues
  rw [map_append, sum_append, map_append, sum_append, h q hq id asset hissues,
    h' q hq id asset hissues]

/-- A change of neither -/
def Change.Unrelated : Change → Prop
  | .amount q _ _ _ => q = .balance
  | .createAccount acc => acc.ext = none
  | .createOffer _ | .setAmount _ _ | .eraseOffer _ | .eraseAccount _ | .eraseTrustLine _ => False
  | _ => True

theorem balanced_of_unrelated (h : ∀ c ∈ cs, c.Unrelated) : Balanced cs := by
  intro q hq id asset _
  refine congrArg List.sum (map_congr_left fun c hc => ?_)
  have hc := h c hc
  cases c with
  | amount q' id' asset' delta =>
    obtain rfl : q' = .balance := hc
    exact if_neg fun h => hq h.1.symm
  | createAccount acc =>
    have hext : acc.ext = none := hc
    show keptOf q id asset (.account acc) = 0
    unfold keptOf
    split
    · cases q with
      | balance => exact absurd rfl hq
      | buying => simp [amountOf, AccountEntry.amountOf, AccountEntry.getBuyingLiabilities, hext]
      | selling => simp [amountOf, AccountEntry.amountOf, AccountEntry.getSellingLiabilities, hext]
    · rfl
  | createOffer => exact hc.elim
  | setAmount => exact hc.elim
  | eraseOffer => exact hc.elim
  | eraseAccount => exact hc.elim
  | eraseTrustLine => exact hc.elim
  | _ => rfl

theorem matched_of_journal (hs : Sound s) (h : Journal s cs s') (hcs : Balanced cs) :
    ∀ q ≠ .balance, ∀ id asset, ¬ issues id asset → kept s' q id asset = offered s' q id asset := by
  intro q hq id asset hissues
  rw [journal_kept h hissues, journal_offered h, hs.matched q hq id asset hissues,
    hcs q hq id asset hissues]

/-- Changes that are allowed and add up keep a state sound. -/
theorem Sound.journal (hs : Sound s) (h : Journal s cs s') (hcs : ∀ c ∈ cs, c.Allowed s)
    (hsum : Balanced cs) : Sound s' ∧ Retains s s' := by
  obtain ⟨hcovered, hretains⟩ := hs.toCovered.journal h hcs
  exact ⟨⟨hcovered, matched_of_journal hs h hsum⟩, hretains⟩

/-- An account is charged for one entry more. -/
theorem Sound.addEntry (hs : Sound s) {id : AccountID} (hstep : Step s (.numEntries id 1) s')
    (hfits : ReserveFits s id) : Sound s' ∧ Retains s s' := by
  have hretains : Retains s s' := ⟨fun _ acc hacc => hstep.exists_account (by simp) ⟨acc, hacc⟩,
    fun _ _ => hstep.mayHold (by simp) (by simp)⟩
  refine ⟨⟨hs.toCovered.of_step hstep (by simp) ?_ fun o ho => ?_,
    matched_of_journal hs (.single hstep) (balanced_of_unrelated fun c hc => ?_)⟩, hretains⟩
  · rintro _ _ ⟨⟩
    exact .inr ⟨rfl, hfits⟩
  · rcases hstep.mem_offers ho with hmem | hc | ⟨_, _, _, hc, _⟩
    · exact ⟨(hs.live o hmem).retains hretains, hs.fits o hmem⟩
    · cases hc
    · cases hc
  · rw [mem_singleton.mp hc]
    trivial

/-- A change that leaves the sub-entries and the selling liabilities of an account alone -/
def Change.Spares (id : AccountID) : Change → Prop
  | .amount q id' _ _ => id' = id → q ≠ .selling
  | .numEntries id' _ => id' ≠ id
  | _ => True

theorem Step.reserveFits (hstep : Step s c s') {id : AccountID} (hc : c.Spares id)
    (hs : ReserveFits s id) : ReserveFits s' id := by
  intro acc hacc
  unfold AccountEntry.ReserveFits
  rw [hstep.header_congr.2]
  rcases hstep.account hacc with ⟨acc₀, hacc₀, hupdates⟩ | rfl
  · have hfits := hs acc₀ hacc₀
    have hid := s.accountID_of_account hacc₀
    cases hupdates with
    | same => exact hfits
    | native hadd =>
      have hselling := AccountEntry.add_amount hadd .selling
      rw [if_neg (hc hid).symm, Int.add_zero] at hselling
      have hentries := (AccountEntry.mk.inj (AccountEntry.add_core hadd)).2.2.2.1
      simp only [AccountEntry.amountOf] at hselling
      rw [hselling, hentries]
      exact hfits
    | numEntries => exact absurd hid hc
    | settings _ _ hext hentries =>
      unfold AccountEntry.getSellingLiabilities
      rw [hext, hentries]
      exact hfits
  · cases hstep with
    | createAccount _ hext =>
      unfold AccountEntry.getSellingLiabilities
      rw [hext]
      exact fun h => absurd h (lt_irrefl _)

/-! ## Changes of what offers rest on -/

section Offered

variable {q : Quantity} {id : AccountID} {asset : Asset} {o : OfferEntry}

theorem liability_pos {o : OfferEntry} (h : o.Backed) (hq : q ≠ .balance) : 0 < o.liability q := by
  cases q with
  | balance => exact absurd rfl hq
  | buying => exact h.1
  | selling => exact h.2

theorem liabilityIn_nonneg (h : o.Backed) (hq : q ≠ .balance) : 0 ≤ liabilityIn q id asset o := by
  unfold liabilityIn
  split
  · exact (liability_pos h hq).le
  · exact le_rfl

theorem Covered.offered_nonneg (hs : Covered s) (hq : q ≠ .balance) : 0 ≤ offered s q id asset := by
  refine sum_nonneg fun x hx => ?_
  obtain ⟨o, ho, rfl⟩ := mem_map.mp hx
  exact liabilityIn_nonneg (hs.live o ho).backed hq

/-- The liability of an offer is one of those that add up. -/
theorem Covered.le_offered (hs : Covered s) (hq : q ≠ .balance)
    (ho : o ∈ s.offers) (hseller : o.sellerID = id) (hasset : o.asset q = asset) :
    o.liability q ≤ offered s q id asset := by
  have hle : liabilityIn q id asset o ≤ offered s q id asset := by
    refine single_le_sum (fun x hx => ?_) _ (mem_map_of_mem ho)
    obtain ⟨o', ho', rfl⟩ := mem_map.mp hx
    exact liabilityIn_nonneg (hs.live o' ho').backed hq
  rwa [liabilityIn, if_pos ⟨hseller, hasset⟩] at hle

theorem Covered.offered_pos (hs : Covered s) (hq : q ≠ .balance)
    (ho : o ∈ s.offers) (hseller : o.sellerID = id) (hasset : o.asset q = asset) :
    0 < offered s q id asset :=
  (liability_pos (hs.live o ho).backed hq).trans_le (hs.le_offered hq ho hseller hasset)

/-- An account has no less than no liabilities. -/
theorem Sound.kept_nonneg (hs : Sound s) (hq : q ≠ .balance) (hissues : ¬ issues id asset) :
    0 ≤ kept s q id asset := by
  rw [hs.matched q hq id asset hissues]
  exact hs.offered_nonneg hq

end Offered

theorem Live.step {o : OfferEntry} (h : Live s o) (hstep : Step s c s')
    (hacc : ∀ acc, c = .eraseAccount acc → acc.accountID ≠ o.sellerID)
    (hline : ∀ q ≠ .balance, MayHold s o.sellerID (o.asset q) → MayHold s' o.sellerID (o.asset q)) :
    Live s' o where
  backed := h.backed
  seller := hstep.exists_account hacc h.seller
  selling := hline .selling nofun h.selling
  buying := hline .buying nofun h.buying

/-- An account without offers has no liabilities. -/
theorem Sound.amountOf_eq_zero (hs : Sound s) {acc : AccountEntry}
    (hacc : s.account acc.accountID = some acc)
    (hnone : ∀ o ∈ s.offers, o.sellerID ≠ acc.accountID) {q : Quantity} (hq : q ≠ .balance) :
    acc.amountOf q = 0 := by
  rw [← kept_native hacc, hs.matched q hq _ _ fun h => h.1 rfl]
  refine sum_eq_zero fun x hx => ?_
  obtain ⟨o, ho, rfl⟩ := mem_map.mp hx
  exact if_neg fun h => hnone o ho h.1

theorem Sound.eraseAccount (hs : Sound s) {acc : AccountEntry}
    (hstep : Step s (.eraseAccount acc) s')
    (hnone : ∀ o ∈ s.offers, o.sellerID ≠ acc.accountID) : Sound s' := by
  have hacc : s.account acc.accountID = some acc := by
    cases hstep with
    | eraseAccount hacc => exact hacc
  refine ⟨hs.toCovered.of_step hstep nofun nofun fun o ho => ?_,
    matched_of_journal hs (.single hstep)
    fun q hq id asset _ => ?_⟩
  · rcases hstep.mem_offers ho with hmem | hc | ⟨_, _, _, hc, _⟩
    · refine ⟨(hs.live o hmem).step hstep ?_ fun _ _ => hstep.mayHold nofun nofun, hs.fits o hmem⟩
      rintro _ ⟨⟩
      exact (hnone o hmem).symm
    · cases hc
    · cases hc
  · have hzero : keptOf q id asset (.account acc) = 0 := by
      unfold keptOf
      split
      · exact hs.amountOf_eq_zero hacc hnone hq
      · rfl
    simp [Change.delta, Change.offered, hzero]

/-- A line that can be erased stands behind no offer. -/
theorem Sound.line_unused (hs : Sound s) {tl : TrustLineEntry}
    (htl : s.trustLine tl.accountID tl.asset = some tl) (hmin : tl.getMinimumLimit ≤ 0)
    (hasset : tl.asset ≠ .native) (hissuer : getIssuer tl.asset ≠ tl.accountID) {q : Quantity}
    (hq : q ≠ .balance) :
    tl.amountOf q = 0 ∧ ∀ o ∈ s.offers, ¬ (o.sellerID = tl.accountID ∧ o.asset q = tl.asset) := by
  have hissues : ¬ issues tl.accountID tl.asset := fun h => hissuer h.2
  have hbuying := hs.kept_nonneg (q := .buying) nofun hissues
  have hselling := hs.kept_nonneg (q := .selling) nofun hissues
  rw [kept_line hasset htl] at hbuying hselling
  have hzero : tl.amountOf q = 0 := by
    have hcovered := (hs.lines _ _ tl htl).1
    unfold TrustLineEntry.getMinimumLimit at hmin
    cases q with
    | balance => exact absurd rfl hq
    | buying => simp only [TrustLineEntry.amountOf] at *; omega
    | selling => simp only [TrustLineEntry.amountOf] at *; omega
  refine ⟨hzero, fun o ho h => ?_⟩
  have hpos := hs.offered_pos hq ho h.1 h.2
  rw [← hs.matched q hq _ _ hissues, kept_line hasset htl, hzero] at hpos
  exact lt_irrefl _ hpos

theorem Sound.eraseTrustLine (hs : Sound s) {tl : TrustLineEntry}
    (hstep : Step s (.eraseTrustLine tl) s') (hasset : tl.asset ≠ .native)
    (hissuer : getIssuer tl.asset ≠ tl.accountID) : Sound s' := by
  have hunused {q : Quantity} (hq : q ≠ .balance) : tl.amountOf q = 0 ∧
      ∀ o ∈ s.offers, ¬ (o.sellerID = tl.accountID ∧ o.asset q = tl.asset) := by
    cases hstep with
    | eraseTrustLine htl hmin => exact hs.line_unused htl hmin hasset hissuer hq
  refine ⟨hs.toCovered.of_step hstep nofun nofun fun o ho => ?_,
    matched_of_journal hs (.single hstep)
    fun q hq id asset _ => ?_⟩
  · rcases hstep.mem_offers ho with hmem | hc | ⟨_, _, _, hc, _⟩
    · refine ⟨(hs.live o hmem).step hstep nofun fun q hq => hstep.mayHold ?_ nofun, hs.fits o hmem⟩
      rintro _ ⟨⟩ ⟨hid, hline⟩
      exact (hunused hq).2 o hmem ⟨hid.symm, hline.symm⟩
    · cases hc
    · cases hc
  · have hzero : keptOf q id asset (.trustLine tl) = 0 := by
      unfold keptOf
      split
      · exact (hunused hq).1
      · rfl
    simp [Change.delta, Change.offered, hzero]

theorem Sound.setAuthorized (hs : Sound s) {tl : TrustLineEntry} {authorize : Bool}
    (hstep : Step s (.setAuthorized tl authorize) s') : Sound s' := by
  refine ⟨hs.toCovered.of_step hstep nofun nofun fun o ho => ?_,
    matched_of_journal hs (.single hstep)
    (balanced_of_unrelated ?_)⟩
  · rcases hstep.mem_offers ho with hmem | hc | ⟨_, _, _, hc, _⟩
    · refine ⟨(hs.live o hmem).step hstep nofun fun q hq => hstep.mayHold nofun ?_, hs.fits o hmem⟩
      rintro _ _ ⟨⟩ hauth hrevoke ⟨hid, hline⟩
      cases hstep with
      | setAuthorized _ hoffers =>
        obtain ⟨hbuying, hselling⟩ := hoffers hauth hrevoke o hmem hid.symm
        cases q with
        | balance => exact hq rfl
        | buying => exact hbuying hline.symm
        | selling => exact hselling hline.symm
    · cases hc
    · cases hc
  · intro c hc
    rw [mem_singleton.mp hc]
    trivial

end EssaCore.Transactions
