import EssaCore.Transactions.Holdings

/-!
# Accounting

Sums over the entries of a ledger, and what the changes add to them: the coins, the amounts
that are kept for an account and an asset, the liabilities of the offers that stand behind
them, and the sub-entries that an account is charged for.

- `coinsOf`, `keptOf`, `offeredOf`, `excessOf`, `offersOf` — the weights;
- `Change.coins`, `Change.delta`, ... — what a change adds;
- `journal_coins`, `journal_kept`, ... — what a list of changes adds.
-/

open List Option

namespace EssaCore.Transactions

open Ledger Lib LedgerState AccountEntry TrustLineEntry

variable {s s' : LedgerState} {c : Change} {cs : List Change} {old new : Option LedgerEntryData}

/-! ## Coins -/

/-- The coins of an entry -/
def coinsOf : LedgerEntryData → Int
  | .account acc => acc.balance
  | _ => 0

theorem coinsOf_nonneg (hs : ∀ id acc, s.account id = some acc → 0 ≤ acc.balance) :
    ∀ k d, s.lookup k = some d → 0 ≤ coinsOf d := by
  intro k d hd
  cases d with
  | account acc =>
    obtain rfl : LedgerKey.account acc.accountID = k := s.key_of_lookup hd
    exact hs _ _ (s.account_eq_some_iff.mpr hd)
  | trustLine tl => exact le_rfl
  | offer o => exact le_rfl
  | data e => exact le_rfl

/-- The coins that a change adds -/
def Change.coins : Change → Int
  | .amount .balance _ .native delta => delta
  | .createAccount acc => acc.balance
  | .eraseAccount acc => -acc.balance
  | _ => 0

theorem Effect.coins (h : Effect c old new) :
    weightOf coinsOf new = weightOf coinsOf old + c.coins := by
  cases h with
  | @native q delta acc acc' hcore hamount =>
    have := hamount .balance
    cases q <;> simp_all [weightOf, coinsOf, Change.coins, AccountEntry.amountOf]
  | @line q delta tl tl' hasset => cases q <;> simp_all [weightOf, coinsOf, Change.coins]
  | @issuer q id asset delta hissues => cases q <;> simp_all [weightOf, Change.coins, issues]
  | settings _ hbalance => simp [weightOf, coinsOf, Change.coins, hbalance]
  | _ => simp [weightOf, coinsOf, Change.coins]

theorem journal_coins (h : Journal s cs s') :
    s'.sum coinsOf = s.sum coinsOf + (cs.map Change.coins).sum :=
  journal_sum (fun _ _ _ heffect => heffect.coins) h

/-- A wrapped sum differs from the sum by a multiple of `2 ^ 64`. -/
theorem int64_dvd (x : Int) : 2 ^ 64 ∣ int64 x - x := by
  rw [int64]
  exact Int.dvd_bmod_sub_self

theorem int64_bounds (x : Int) : -2 ^ 63 ≤ int64 x ∧ int64 x ≤ INT64_MAX := by
  have hmin := Int.le_bmod (x := x) (m := 2 ^ 64) (by decide)
  have hmax := Int.bmod_lt (x := x) (m := 2 ^ 64) (by decide)
  unfold int64 INT64_MAX
  omega

theorem int64_eq {x : Int} (hmin : -2 ^ 63 ≤ x) (hmax : x ≤ INT64_MAX) : int64 x = x := by
  unfold INT64_MAX at hmax
  rw [int64, Int.bmod_eq_of_le (by omega) (by omega)]

theorem int64_int64 (x : Int) : int64 (int64 x) = int64 x :=
  int64_eq (int64_bounds x).1 (int64_bounds x).2

/-- The coins that are nowhere: those in existence, without those of accounts and of the fee
pool -/
def missingCoins (s : LedgerState) : Int :=
  s.header.totalCoins - s.header.feePool - s.sum coinsOf

/-- The coins in existence are those of the accounts and of the fee pool. -/
def Conserved (s : LedgerState) : Prop :=
  s.header.totalCoins = s.sum coinsOf + s.header.feePool

instance (s : LedgerState) : Decidable (Conserved s) :=
  inferInstanceAs (Decidable (s.header.totalCoins = s.sum coinsOf + s.header.feePool))

/-- The coins that a change makes or loses -/
def Change.missingCoins : Change → Int
  | .header h h' => (h'.totalCoins - h'.feePool) - (h.totalCoins - h.feePool)
  | c => -c.coins

theorem journal_missingCoins (h : Journal s cs s') :
    missingCoins s' = missingCoins s + (cs.map Change.missingCoins).sum := by
  refine h.sum fun s c s' hstep => ?_
  have hcoins : s'.sum coinsOf = s.sum coinsOf + c.coins := by
    simpa using journal_coins (.single hstep)
  unfold missingCoins
  rw [hcoins]
  cases hstep with
  | header => simp only [Change.missingCoins, Change.coins, header_setHeader]; omega
  | _ => simp only [Change.missingCoins, header_put, header_erase]; omega

/-- Without a change of the header, coins are missing that were taken away. -/
theorem sum_missingCoins {cs : List Change} (h : ∀ c ∈ cs, ∀ h₁ h₂, c ≠ .header h₁ h₂) :
    (cs.map Change.missingCoins).sum = -(cs.map Change.coins).sum := by
  induction cs with
  | nil => rfl
  | cons c cs ih =>
    have hc : c.missingCoins = -c.coins := by
      cases c with
      | header h₁ h₂ => exact absurd rfl (h _ mem_cons_self _ _)
      | _ => rfl
    rw [map_cons, sum_cons, map_cons, sum_cons,
      ih fun c hc => h c (mem_cons_of_mem _ hc)]
    omega

/-! ## Amounts -/

/-- An entry keeps an asset for an account. -/
def keeps (id : AccountID) (asset : Asset) : LedgerEntryData → Bool
  | .account acc => asset = .native ∧ acc.accountID = id
  | .trustLine tl => asset ≠ .native ∧ tl.accountID = id ∧ tl.asset = asset
  | _ => false

/-- The amount of an entry -/
def amountOf (q : Quantity) : LedgerEntryData → Int
  | .account acc => acc.amountOf q
  | .trustLine tl => tl.amountOf q
  | _ => 0

/-- The amount that an entry keeps for an account and an asset -/
def keptOf (q : Quantity) (id : AccountID) (asset : Asset) (d : LedgerEntryData) : Int :=
  if keeps id asset d then amountOf q d else 0

/-- What a change adds to the amount that is kept for an account and an asset -/
def Change.delta (q : Quantity) (id : AccountID) (asset : Asset) : Change → Int
  | .amount q' id' asset' delta => if q' = q ∧ id' = id ∧ asset' = asset then delta else 0
  | .createAccount acc => keptOf q id asset (.account acc)
  | .eraseAccount acc => -keptOf q id asset (.account acc)
  | .eraseTrustLine tl => -keptOf q id asset (.trustLine tl)
  | _ => 0

variable {q : Quantity} {id : AccountID} {asset : Asset}

theorem Effect.kept (hissues : ¬ issues id asset) (h : Effect c old new) :
    weightOf (keptOf q id asset) new = weightOf (keptOf q id asset) old + c.delta q id asset := by
  cases h with
  | @native q' delta acc acc' hcore hamount =>
    have hid := accountID_of_core hcore
    simp only [weightOf, keptOf, keeps, amountOf, Change.delta, map_some,
      eq_comm]
    split <;> split <;> simp_all
  | @line q' delta tl tl' hasset _ hcore hamount =>
    obtain ⟨hid, hasset'⟩ := key_of_core hcore
    simp only [weightOf, keptOf, keeps, amountOf, Change.delta, map_some, eq_comm]
    split <;> split <;> simp_all
  | issuer hissues' =>
    simp only [weightOf, Change.delta, map_none, getD_none, Int.zero_add]
    rw [if_neg]
    rintro ⟨-, rfl, rfl⟩
    exact hissues hissues'
  | settings hid hbalance hext =>
    simp only [weightOf, keptOf, keeps, amountOf, Change.delta, hid, Option.map_some,
      Option.getD_some]
    cases q <;> simp [AccountEntry.amountOf, AccountEntry.getBuyingLiabilities,
      AccountEntry.getSellingLiabilities, hbalance, hext]
  | createTrustLine hbalance hext =>
    cases q <;> simp [weightOf, keptOf, amountOf, Change.delta, TrustLineEntry.amountOf,
      TrustLineEntry.getBuyingLiabilities, TrustLineEntry.getSellingLiabilities, hbalance, hext]
  | numEntries | setLimit | setAuthorized =>
    cases q <;> exact (Int.add_zero _).symm
  | createAccount => exact (Int.zero_add _).symm
  | eraseAccount => exact (Int.add_right_neg _).symm
  | eraseTrustLine => exact (Int.add_right_neg _).symm
  | _ => simp [weightOf, keptOf, keeps, Change.delta]

/-- The amount that is kept for an account and an asset -/
def kept (s : LedgerState) (q : Quantity) (id : AccountID) (asset : Asset) : Int :=
  if asset = .native then ((s.account id).map (·.amountOf q)).getD 0
  else ((s.trustLine id asset).map (·.amountOf q)).getD 0

theorem kept_native {acc : AccountEntry}
    (h : s.account id = some acc) : kept s q id .native = acc.amountOf q := by
  rw [kept, h]
  rfl

theorem kept_line {tl : TrustLineEntry}
    (hasset : asset ≠ .native) (h : s.trustLine id asset = some tl) :
    kept s q id asset = tl.amountOf q := by
  rw [kept, if_neg hasset, h]
  rfl

theorem kept_eq_sum (s : LedgerState) (q : Quantity) (id : AccountID) (asset : Asset) :
    kept s q id asset = s.sum (keptOf q id asset) := by
  have hsum : s.sum (keptOf q id asset) = s.weight (keptOf q id asset) (assetKey id asset) := by
    refine s.sum_eq_weight fun d _ hkey => if_neg fun hkeeps => hkey ?_
    unfold assetKey
    cases d with
    | account acc =>
      obtain ⟨rfl, rfl⟩ := of_decide_eq_true hkeeps
      rfl
    | trustLine tl =>
      obtain ⟨hasset, rfl, rfl⟩ := of_decide_eq_true hkeeps
      rw [if_neg hasset]
      rfl
    | offer => cases hkeeps
    | data => cases hkeeps
  rw [hsum]
  unfold kept assetKey
  split
  · rename_i hasset
    cases hacc : s.account id with
    | none => exact (s.weight_of_none (s.account_eq_none_iff.mp hacc)).symm
    | some acc =>
      have hid := s.accountID_of_account hacc
      rw [s.weight_of_some (s.account_eq_some_iff.mp hacc), keptOf, keeps,
        if_pos (decide_eq_true ⟨hasset, hid⟩)]
      rfl
  · rename_i hasset
    cases htl : s.trustLine id asset with
    | none => exact (s.weight_of_none (s.trustLine_eq_none_iff.mp htl)).symm
    | some tl =>
      have hkey := s.key_of_trustLine htl
      rw [s.weight_of_some (s.trustLine_eq_some_iff.mp htl), keptOf, keeps,
        if_pos (decide_eq_true ⟨hasset, hkey.1, hkey.2⟩)]
      rfl

theorem journal_kept (h : Journal s cs s') (hissues : ¬ issues id asset) :
    kept s' q id asset = kept s q id asset + (cs.map (Change.delta q id asset)).sum := by
  rw [kept_eq_sum, kept_eq_sum]
  exact journal_sum (fun _ _ _ heffect => heffect.kept hissues) h

/-! ## Liabilities of offers -/

end EssaCore.Transactions

namespace EssaCore.Ledger

open Transactions

/-- The asset that an offer has a liability in -/
def OfferEntry.asset (o : OfferEntry) : Quantity → Asset
  | .buying => o.buying
  | _ => o.selling

end EssaCore.Ledger

namespace EssaCore.Transactions

open Ledger Lib

variable {s s' : LedgerState} {c : Change} {cs : List Change} {old new : Option LedgerEntryData}

/-- The liability of an offer of an account in an asset -/
def liabilityIn (q : Quantity) (id : AccountID) (asset : Asset) (o : OfferEntry) : Int :=
  if o.sellerID = id ∧ o.asset q = asset then o.liability q else 0

/-- The liability that an entry stands for -/
def offeredOf (q : Quantity) (id : AccountID) (asset : Asset) : LedgerEntryData → Int
  | .offer o => liabilityIn q id asset o
  | _ => 0

/-- What a change adds to the liabilities of the offers of an account in an asset -/
def Change.offered (q : Quantity) (id : AccountID) (asset : Asset) : Change → Int
  | .createOffer o => liabilityIn q id asset o
  | .setAmount o newAmount =>
    liabilityIn q id asset { o with amount := newAmount } - liabilityIn q id asset o
  | .eraseOffer o => -liabilityIn q id asset o
  | _ => 0

theorem Effect.offered {q : Quantity} {id : AccountID} {asset : Asset} (h : Effect c old new) :
    weightOf (offeredOf q id asset) new =
      weightOf (offeredOf q id asset) old + c.offered q id asset := by
  cases h <;> simp [weightOf, offeredOf, Change.offered]

/-- The liabilities of the offers of an account in an asset -/
def offered (s : LedgerState) (q : Quantity) (id : AccountID) (asset : Asset) : Int :=
  (s.offers.map (liabilityIn q id asset)).sum

/-- A sum over the offers -/
theorem sum_offers (s : LedgerState) {f : OfferEntry → Int} {w : LedgerEntryData → Int}
    (hoffer : ∀ o, w (.offer o) = f o) (haccount : ∀ acc, w (.account acc) = 0)
    (hline : ∀ tl, w (.trustLine tl) = 0) (hdata : ∀ d, w (.data d) = 0) :
    (s.offers.map f).sum = s.sum w := by
  unfold LedgerState.offers LedgerState.sum tally
  induction s.entries.entries with
  | nil => rfl
  | cons e es ih =>
    rw [map_cons, sum_cons, ← ih]
    obtain ⟨k, d⟩ := e
    cases d <;> simp [hoffer, haccount, hline, hdata]

theorem offered_eq_sum (s : LedgerState) (q : Quantity) (id : AccountID) (asset : Asset) :
    offered s q id asset = s.sum (offeredOf q id asset) :=
  sum_offers s (fun _ => rfl) (fun _ => rfl) (fun _ => rfl) fun _ => rfl

theorem journal_offered (h : Journal s cs s') {q : Quantity} {id : AccountID} {asset : Asset} :
    offered s' q id asset = offered s q id asset + (cs.map (Change.offered q id asset)).sum := by
  rw [offered_eq_sum, offered_eq_sum]
  exact journal_sum (fun _ _ _ heffect => heffect.offered) h

/-! ## Sub-entries -/

end EssaCore.Transactions

namespace EssaCore.Ledger

/-- The account that a trust line, an offer or a data entry belongs to -/
def LedgerEntryData.owner : LedgerEntryData → Option AccountID
  | .account _ => none
  | .trustLine tl => some tl.accountID
  | .offer o => some o.sellerID
  | .data d => some d.accountID

end EssaCore.Ledger

namespace EssaCore.Transactions

open Ledger Lib

variable {s s' : LedgerState} {c : Change} {cs : List Change} {old new : Option LedgerEntryData}

/-- The number of entries that an account is charged for, beyond its signers, trust lines, offers
and data entries -/
def excessOf (id : AccountID) : LedgerEntryData → Int
  | .account acc => if acc.accountID = id then acc.numSubEntries - acc.signers.length else 0
  | d => if d.owner = some id then -1 else 0

/-- What a change adds to the excess of an account -/
def Change.excess (id : AccountID) : Change → Int
  | .numEntries id' count => if id' = id then count else 0
  | .settings acc acc' =>
    if acc.accountID = id then (acc.signers.length : Int) - acc'.signers.length else 0
  | .createTrustLine tl => if tl.accountID = id then -1 else 0
  | .eraseTrustLine tl => if tl.accountID = id then 1 else 0
  | .createOffer o => if o.sellerID = id then -1 else 0
  | .eraseOffer o => if o.sellerID = id then 1 else 0
  | .createData d => if d.accountID = id then -1 else 0
  | .eraseData d => if d.accountID = id then 1 else 0
  | _ => 0

/-- What a change makes of an account that stays -/
inductive Updates (header : LedgerHeader) : Change → AccountEntry → AccountEntry → Prop
  | same {c : Change} {acc : AccountEntry} : Updates header c acc acc
  | native {q : Quantity} {delta : Int} {acc acc' : AccountEntry}
      (hadd : acc.add header delta q = .ok (some acc')) :
      Updates header (.amount q acc.accountID .native delta) acc acc'
  | numEntries {count : Int} {acc acc' : AccountEntry}
      (hadd : acc.addNumEntries header count = .ok (some acc')) :
      Updates header (.numEntries acc.accountID count) acc acc'
  | settings {acc acc' : AccountEntry} (hid : acc'.accountID = acc.accountID)
      (hbalance : acc'.balance = acc.balance) (hext : acc'.ext = acc.ext)
      (hentries : acc'.numSubEntries = acc.numSubEntries) (hseq : acc.seqNum ≤ acc'.seqNum) :
      Updates header (.settings acc acc') acc acc'

/-- An account that is there after a change was there before, or is new. -/
theorem Step.account (h : Step s c s') {id : AccountID} {acc : AccountEntry}
    (hacc : s'.account id = some acc) :
    (∃ acc₀, s.account id = some acc₀ ∧ Updates s.header c acc₀ acc) ∨ c = .createAccount acc := by
  have hput {a : AccountEntry} (hhit : a.accountID = id → a = acc → (∃ acc₀,
      s.account id = some acc₀ ∧ Updates s.header c acc₀ acc) ∨ c = .createAccount acc)
      (hacc : (s.put (.account a)).account id = some acc) : (∃ acc₀,
      s.account id = some acc₀ ∧ Updates s.header c acc₀ acc) ∨ c = .createAccount acc := by
    rw [s.account_put_account] at hacc
    split at hacc
    · rename_i hid
      exact hhit hid.symm (some.inj hacc)
    · exact .inl ⟨acc, hacc, .same⟩
  cases h with
  | native hacc₀ hadd =>
    refine hput (fun hid heq => ?_) hacc
    obtain rfl := s.accountID_of_account hacc₀
    rw [accountID_of_core (AccountEntry.add_core hadd)] at hid
    exact .inl ⟨_, hid ▸ hacc₀, heq ▸ .native hadd⟩
  | numEntries hacc₀ hadd =>
    refine hput (fun hid heq => ?_) hacc
    obtain rfl := s.accountID_of_account hacc₀
    obtain ⟨-, -, rfl⟩ := AccountEntry.addNumEntries_eq_some.mp hadd
    exact .inl ⟨_, hid ▸ hacc₀, heq ▸ .numEntries hadd⟩
  | settings hacc₀ hid₀ hbalance hext hentries hseq =>
    refine hput (fun hid heq => ?_) hacc
    rw [hid₀] at hid
    exact .inl ⟨_, hid ▸ hacc₀, heq ▸ .settings hid₀ hbalance hext hentries hseq⟩
  | createAccount => exact hput (fun _ heq => .inr (heq ▸ rfl)) hacc
  | eraseAccount =>
    rw [s.account_erase] at hacc
    split at hacc
    · cases hacc
    · exact .inl ⟨acc, hacc, .same⟩
  | eraseTrustLine | eraseOffer | eraseData =>
    rw [s.account_erase] at hacc
    exact .inl ⟨acc, hacc, .same⟩
  | issuer => exact .inl ⟨acc, hacc, .same⟩
  | header => exact .inl ⟨acc, hacc, .same⟩
  | _ =>
    rw [s.account_put_of_type (by simp [LedgerEntryData.key, LedgerKey.type])] at hacc
    exact .inl ⟨acc, hacc, .same⟩

/-- No account has so many sub-entries that their number cannot be read as an `int`. -/
def FewEntries (s : LedgerState) : Prop :=
  ∀ id acc, s.account id = some acc → acc.numSubEntries < 2 ^ 31

/-- A count that does not leave the range of an `int` more than once -/
def Change.SmallCount : Change → Prop
  | .numEntries _ count => -2 ^ 31 ≤ count ∧ count ≤ 2 ^ 31
  | _ => True

/-- A small number of sub-entries is counted without overflow. -/
theorem newEntriesCount_eq {acc : AccountEntry} {count : Int} (hacc : acc.numSubEntries < 2 ^ 31)
    (hcount : -2 ^ 31 ≤ count ∧ count ≤ 2 ^ 31) (h : 0 ≤ acc.newEntriesCount count) :
    acc.newEntriesCount count = acc.numSubEntries + count ∧ acc.newEntriesCount count < 2 ^ 31 := by
  unfold AccountEntry.newEntriesCount at *
  by_cases hneg : acc.numSubEntries + count < 0
  · rw [Int.bmod_eq_of_le (by omega) (by omega)] at h
    omega
  · by_cases hbig : acc.numSubEntries + count < 2 ^ 31
    · rw [Int.bmod_eq_of_le (by omega) (by omega)]
      omega
    · have hmod : (acc.numSubEntries + count).bmod (2 ^ 32) =
          acc.numSubEntries + count - 2 ^ 32 := by
        rw [← Int.sub_bmod_right, Int.bmod_eq_of_le (by omega) (by omega)]
        rfl
      omega

theorem Step.few (h : Step s c s') (hc : c.SmallCount) (hs : FewEntries s) : FewEntries s' := by
  intro id acc hacc
  rcases h.account hacc with ⟨acc₀, hacc₀, hupdates⟩ | rfl
  · have hfew := hs id acc₀ hacc₀
    cases hupdates with
    | same => exact hfew
    | native hadd =>
      rw [(AccountEntry.mk.inj (AccountEntry.add_core hadd)).2.2.2.1]
      exact hfew
    | numEntries hadd =>
      obtain ⟨hcount, -, rfl⟩ := AccountEntry.addNumEntries_eq_some.mp hadd
      have := (newEntriesCount_eq hfew hc hcount).2
      dsimp only
      omega
    | settings _ _ _ hentries => exact hentries ▸ hfew
  · cases h with
    | createAccount _ _ hentries =>
      rw [hentries]
      decide

theorem Effect.excess (id : AccountID) (h : Effect c old new) (hc : c.SmallCount)
    (hold : ∀ acc, old = some (.account acc) → acc.numSubEntries < 2 ^ 31) :
    weightOf (excessOf id) new = weightOf (excessOf id) old + c.excess id := by
  cases h with
  | @native q delta acc acc' hcore =>
    obtain ⟨hid, -, -, hentries, -, -, -, -, hsigners, -⟩ := AccountEntry.mk.inj hcore
    simp only [weightOf, excessOf, Change.excess, map_some, Int.add_zero]
    rw [hid, hentries, hsigners]
  | line _ _ hcore =>
    simp [weightOf, excessOf, Change.excess, LedgerEntryData.owner, (key_of_core hcore).1]
  | @numEntries count acc hcount =>
    have hexact := (newEntriesCount_eq (hold acc rfl) hc hcount).1
    simp only [weightOf, excessOf, Change.excess, map_some, getD_some]
    split
    · rw [Int.toNat_of_nonneg hcount]
      omega
    · rfl
  | settings hid _ _ hentries =>
    simp only [weightOf, excessOf, Change.excess, map_some, getD_some]
    rw [hid]
    split <;> omega
  | createAccount _ hentries hsigners =>
    simp [weightOf, excessOf, Change.excess, hentries, hsigners]
  | eraseAccount hentries => simp [weightOf, excessOf, Change.excess, hentries]
  | setData hid => simp [weightOf, excessOf, Change.excess, LedgerEntryData.owner, hid]
  | eraseTrustLine | eraseOffer | eraseData =>
    simp only [weightOf, excessOf, Change.excess, LedgerEntryData.owner, Option.map_some,
      Option.some.injEq]
    split <;> rfl
  | _ => simp [weightOf, excessOf, Change.excess, LedgerEntryData.owner,
      TrustLineEntry.setAuthorized]

/-- As long as counts are small, the excess of an account changes by what the labels say. -/
theorem journal_excess (h : Journal s cs s') (hcs : ∀ c ∈ cs, c.SmallCount) (hs : FewEntries s)
    (id : AccountID) :
    s'.sum (excessOf id) = s.sum (excessOf id) + (cs.map (Change.excess id)).sum ∧
      FewEntries s' := by
  induction h with
  | nil => exact ⟨(Int.add_zero _).symm, hs⟩
  | @cons s s₁ s' c cs hstep _ ih =>
    have hc := hcs c mem_cons_self
    obtain ⟨hrest, hfew⟩ := ih (fun c hc => hcs c (mem_cons_of_mem _ hc)) (hstep.few hc hs)
    obtain ⟨old, _, heffect, hreplaces⟩ := hstep.effect
    have hexcess := heffect.excess id hc fun acc hacc =>
      hs acc.accountID acc (s.account_eq_some_iff.mpr (hreplaces.old _ hacc))
    refine ⟨?_, hfew⟩
    rw [hrest, hreplaces.sum, map_cons, sum_cons]
    omega

/-! ## The number of offers -/

/-- An offer counts. -/
def offersOf : LedgerEntryData → Int
  | .offer _ => 1
  | _ => 0

/-- What a change adds to the number of offers -/
def Change.offers : Change → Int
  | .createOffer _ => 1
  | .eraseOffer _ => -1
  | _ => 0

theorem journal_offers (h : Journal s cs s') :
    (s'.offers.length : Int) = s.offers.length + (cs.map Change.offers).sum := by
  have hlength (s : LedgerState) : s.offers.length = s.sum offersOf := by
    rw [← sum_offers s (f := fun _ => 1) (fun _ => rfl) (fun _ => rfl) (fun _ => rfl) fun _ => rfl]
    simp
  rw [hlength, hlength]
  refine journal_sum (fun c old new heffect => ?_) h
  cases heffect <;> simp [weightOf, offersOf, Change.offers]

end EssaCore.Transactions
