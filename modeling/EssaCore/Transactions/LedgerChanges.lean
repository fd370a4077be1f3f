import EssaCore.Lib.Except
import EssaCore.Lib.Trace
import EssaCore.Transactions.TransactionUtils

/-!
# Changes of the ledger

An operation that succeeds takes the ledger from one state to the next by a list of
changes, each one allowed by what the code checks before it makes it. The operations
are related to these lists once; what holds after an operation is read off the list.

- `Quantity` — balance, buying and selling liabilities;
- `Change` — one change, with what it says about amounts and entries;
- `Step` — what a change does, and under which conditions the code makes it;
- `Journal` — the changes from one state to another;
- `wp_addBalanceTo` and its like — the calls that change the ledger, as steps.
-/

namespace EssaCore.Transactions

open Ledger Lib

/-- What is kept for an account and an asset -/
inductive Quantity where
  | balance
  | buying
  | selling
  deriving DecidableEq

end EssaCore.Transactions

namespace EssaCore.Ledger

open Transactions

/-- The amount an account keeps of the native asset -/
def AccountEntry.amountOf (acc : AccountEntry) : Quantity → Int
  | .balance => acc.balance
  | .buying => acc.getBuyingLiabilities
  | .selling => acc.getSellingLiabilities

/-- The amount a trust line keeps -/
def TrustLineEntry.amountOf (tl : TrustLineEntry) : Quantity → Int
  | .balance => tl.balance
  | .buying => tl.getBuyingLiabilities
  | .selling => tl.getSellingLiabilities

/-- `addBalance`, `addBuyingLiabilities` or `addSellingLiabilities` of an account -/
def AccountEntry.add (header : LedgerHeader) (acc : AccountEntry) (delta : Int) :
    Quantity → Except TxError (Option AccountEntry)
  | .balance => acc.addBalance header delta
  | .buying => acc.addBuyingLiabilities delta
  | .selling => acc.addSellingLiabilities header delta

/-- `addBalance`, `addBuyingLiabilities` or `addSellingLiabilities` of a trust line -/
def TrustLineEntry.add (tl : TrustLineEntry) (delta : Int) :
    Quantity → Except TxError (Option TrustLineEntry)
  | .balance => tl.addBalance delta
  | .buying => tl.addBuyingLiabilities delta
  | .selling => tl.addSellingLiabilities delta

end EssaCore.Ledger

namespace EssaCore.Transactions

open Ledger Lib

/-! ## Changes -/

/-- One change of the ledger -/
inductive Change where
  /-- an amount that an account keeps of an asset moves -/
  | amount (q : Quantity) (id : AccountID) (asset : Asset) (delta : Int)
  /-- `addNumEntries` -/
  | numEntries (id : AccountID) (count : Int)
  /-- what an account keeps besides amounts and its number of entries -/
  | settings (old new : AccountEntry)
  | createAccount (acc : AccountEntry)
  | eraseAccount (acc : AccountEntry)
  | createTrustLine (tl : TrustLineEntry)
  | setLimit (tl : TrustLineEntry) (limit : Int)
  | setAuthorized (tl : TrustLineEntry) (authorize : Bool)
  | eraseTrustLine (tl : TrustLineEntry)
  | createOffer (o : OfferEntry)
  | setAmount (o : OfferEntry) (amount : Int)
  | eraseOffer (o : OfferEntry)
  | createData (d : DataEntry)
  | setData (old new : DataEntry)
  | eraseData (d : DataEntry)
  | header (old new : LedgerHeader)

/-- An asset is kept by its owner's account, by a trust line, or not at all. -/
def issues (id : AccountID) (asset : Asset) : Prop := asset ≠ .native ∧ getIssuer asset = id

instance (id : AccountID) (asset : Asset) : Decidable (issues id asset) :=
  inferInstanceAs (Decidable (_ ∧ _))

/-- A change that the code makes. -/
inductive Step : LedgerState → Change → LedgerState → Prop
  | native {s : LedgerState} {q : Quantity} {id : AccountID} {delta : Int}
      {acc acc' : AccountEntry} (hacc : s.account id = some acc)
      (hadd : acc.add s.header delta q = .ok (some acc')) :
      Step s (.amount q id .native delta) (s.put (.account acc'))
  | line {s : LedgerState} {q : Quantity} {id : AccountID} {asset : Asset} {delta : Int}
      {tl tl' : TrustLineEntry} (hasset : asset ≠ .native) (hissuer : getIssuer asset ≠ id)
      (htl : s.trustLine id asset = some tl) (hadd : tl.add delta q = .ok (some tl')) :
      Step s (.amount q id asset delta) (s.put (.trustLine tl'))
  | issuer {s : LedgerState} {q : Quantity} {id : AccountID} {asset : Asset} {delta : Int}
      (hissues : issues id asset) : Step s (.amount q id asset delta) s
  | numEntries {s : LedgerState} {id : AccountID} {count : Int} {acc acc' : AccountEntry}
      (hacc : s.account id = some acc)
      (hadd : acc.addNumEntries s.header count = .ok (some acc')) :
      Step s (.numEntries id count) (s.put (.account acc'))
  | settings {s : LedgerState} {acc acc' : AccountEntry}
      (hacc : s.account acc.accountID = some acc) (hid : acc'.accountID = acc.accountID)
      (hbalance : acc'.balance = acc.balance) (hext : acc'.ext = acc.ext)
      (hentries : acc'.numSubEntries = acc.numSubEntries) (hseq : acc.seqNum ≤ acc'.seqNum) :
      Step s (.settings acc acc') (s.put (.account acc'))
  | createAccount {s : LedgerState} {acc : AccountEntry}
      (hnone : s.lookup (.account acc.accountID) = none) (hext : acc.ext = none)
      (hentries : acc.numSubEntries = 0) (hsigners : acc.signers = [])
      (hbalance : 0 ≤ acc.balance) (hseq : acc.seqNum = getStartingSequenceNumber s.header) :
      Step s (.createAccount acc) (s.put (.account acc))
  | eraseAccount {s : LedgerState} {acc : AccountEntry}
      (hacc : s.account acc.accountID = some acc)
      (hentries : acc.numSubEntries = acc.signers.length)
      (hseq : 10 ≤ s.header.ledgerVersion → acc.seqNum < getStartingSequenceNumber s.header) :
      Step s (.eraseAccount acc) (s.erase (.account acc.accountID))
  | createTrustLine {s : LedgerState} {tl : TrustLineEntry}
      (hnone : s.lookup (.trustLine tl.accountID tl.asset) = none) (hasset : tl.asset ≠ .native)
      (hbalance : tl.balance = 0) (hext : tl.ext = none) (hlimit : 0 ≤ tl.limit) :
      Step s (.createTrustLine tl) (s.put (.trustLine tl))
  | setLimit {s : LedgerState} {tl : TrustLineEntry} {limit : Int}
      (htl : s.trustLine tl.accountID tl.asset = some tl) (hlimit : tl.getMinimumLimit ≤ limit) :
      Step s (.setLimit tl limit) (s.put (.trustLine { tl with limit := limit }))
  | setAuthorized {s : LedgerState} {tl : TrustLineEntry} {authorize : Bool}
      (htl : s.trustLine tl.accountID tl.asset = some tl)
      (hoffers : tl.isAuthorized = true → authorize = false → ∀ o ∈ s.offers,
        o.sellerID = tl.accountID → o.buying ≠ tl.asset ∧ o.selling ≠ tl.asset) :
      Step s (.setAuthorized tl authorize) (s.put (.trustLine (tl.setAuthorized authorize)))
  | eraseTrustLine {s : LedgerState} {tl : TrustLineEntry}
      (htl : s.trustLine tl.accountID tl.asset = some tl) (hlimit : tl.getMinimumLimit ≤ 0) :
      Step s (.eraseTrustLine tl) (s.erase (.trustLine tl.accountID tl.asset))
  | createOffer {s : LedgerState} {o : OfferEntry}
      (hnone : s.lookup (.offer o.sellerID o.offerID) = none) :
      Step s (.createOffer o) (s.put (.offer o))
  | setAmount {s : LedgerState} {o : OfferEntry} {amount : Int}
      (ho : s.offer o.sellerID o.offerID = some o) :
      Step s (.setAmount o amount) (s.put (.offer { o with amount := amount }))
  | eraseOffer {s : LedgerState} {o : OfferEntry} (ho : s.offer o.sellerID o.offerID = some o) :
      Step s (.eraseOffer o) (s.erase (.offer o.sellerID o.offerID))
  | createData {s : LedgerState} {d : DataEntry}
      (hnone : s.lookup (.data d.accountID d.dataName) = none) :
      Step s (.createData d) (s.put (.data d))
  | setData {s : LedgerState} {d d' : DataEntry} (hd : s.data d.accountID d.dataName = some d)
      (hid : d'.accountID = d.accountID) (hname : d'.dataName = d.dataName) :
      Step s (.setData d d') (s.put (.data d'))
  | eraseData {s : LedgerState} {d : DataEntry} (hd : s.data d.accountID d.dataName = some d) :
      Step s (.eraseData d) (s.erase (.data d.accountID d.dataName))
  | header {s : LedgerState} {h : LedgerHeader}
      (hversion : h.ledgerVersion = s.header.ledgerVersion)
      (hseq : h.ledgerSeq = s.header.ledgerSeq) (hreserve : h.baseReserve = s.header.baseReserve) :
      Step s (.header s.header h) (s.setHeader h)

/-- The changes from one state to another -/
abbrev Journal : LedgerState → List Change → LedgerState → Prop := Trace Step

/-! ## Calls that read or stop -/

section Reads

variable {α : Type} {s : LedgerState} {E : TxError → LedgerState → Prop}
  {Q : Unit → LedgerState → Prop}

@[simp] theorem wp_failIf {cond : Prop} [Decidable cond] {code : InnerResultCode} :
    wp (failIf cond code) Q E s ↔ (cond → E (.failed code) s) ∧ (¬ cond → Q () s) := by
  rw [failIf, wp_ite, wp_throw, wp_pure]

@[simp] theorem wp_throwIf {cond : Prop} [Decidable cond] {what : String} :
    wp (throwIf cond what) Q E s ↔ (cond → E (.runtimeError what) s) ∧ (¬ cond → Q () s) := by
  rw [throwIf, wp_ite, wp_throw, wp_pure]

@[simp] theorem wp_loadHeader {Q : LedgerHeader → LedgerState → Prop} :
    wp loadHeader Q E s ↔ Q s.header s := Iff.rfl

variable {id : AccountID}

@[simp] theorem wp_loadAccount {Q : Option AccountEntry → LedgerState → Prop} :
    wp (loadAccount id) Q E s ↔ Q (s.account id) s := Iff.rfl

@[simp] theorem wp_loadOffer {offerID : Nat}
    {Q : Option OfferEntry → LedgerState → Prop} :
    wp (loadOffer id offerID) Q E s ↔ Q (s.offer id offerID) s := Iff.rfl

@[simp] theorem wp_loadData {dataName : String}
    {Q : Option DataEntry → LedgerState → Prop} :
    wp (loadData id dataName) Q E s ↔ Q (s.data id dataName) s := Iff.rfl

@[simp] theorem wp_loadTrustLine {asset : Asset}
    {Q : Option TrustLineWrapper → LedgerState → Prop} :
    wp (loadTrustLine id asset) Q E s ↔
      (asset = .native → E (.runtimeError "trustline for native asset") s) ∧
      (asset ≠ .native → Q (trustLineOf s id asset) s) := by
  simp only [loadTrustLine, wp_bind, wp_throwIf, wp_get, wp_pure]

@[simp] theorem wp_current {o : Option α} {Q : α → LedgerState → Prop} :
    wp (current o) Q E s ↔ (∀ a, o = some a → Q a s) ∧ (o = none → E .assertion s) := by
  cases o <;> simp [current]

@[simp] theorem wp_orThrow {o : Option α} {what : String} {Q : α → LedgerState → Prop} :
    wp (orThrow what o) Q E s ↔
      (∀ a, o = some a → Q a s) ∧ (o = none → E (.runtimeError what) s) := by
  cases o <;> simp [orThrow]

@[simp] theorem wp_orFail {o : Option α} {code : InnerResultCode} {Q : α → LedgerState → Prop} :
    wp (orFail code o) Q E s ↔ (∀ a, o = some a → Q a s) ∧ (o = none → E (.failed code) s) := by
  cases o <;> simp [orFail]

@[simp] theorem wp_lift {x : Except TxError α} {Q : α → LedgerState → Prop} :
    wp (lift x) Q E s ↔ (∀ a, x = .ok a → Q a s) ∧ (∀ e, x = .error e → E e s) := by
  cases x <;> simp [lift]

@[simp] theorem wp_store {d : LedgerEntryData} : wp (store d) Q E s ↔ Q () (s.put d) := Iff.rfl

@[simp] theorem wp_eraseEntry {k : LedgerKey} :
    wp (eraseEntry k) Q E s ↔ Q () (s.erase k) := Iff.rfl

@[simp] theorem wp_storeHeader {h : LedgerHeader} :
    wp (storeHeader h) Q E s ↔ Q () (s.setHeader h) := Iff.rfl

@[simp] theorem wp_create {d : LedgerEntryData} :
    wp (create d) Q E s ↔ (s.lookup d.key ≠ none → E (.runtimeError "Key already exists") s) ∧
      (s.lookup d.key = none → Q () (s.put d)) := by
  simp [create]

/-- A child that returns is committed. -/
theorem wp_nested {x : TxM α} {Q : α → LedgerState → Prop}
    (h : wp x Q (fun e _ => E e s) s) : wp (nested x) Q E s := by
  unfold wp nested at *
  cases hx : x s with
  | ok a s' =>
    rw [hx] at h
    exact h
  | error e s' =>
    rw [hx] at h
    exact h

end Reads

/-! ## Calls that change an amount -/

section Amounts

variable {s : LedgerState} {q : Quantity} {id : AccountID} {asset : Asset} {delta : Int}
  {E : TxError → LedgerState → Prop} {Q : Bool → LedgerState → Prop}

/-- A change is possible. -/
def Can (s : LedgerState) (c : Change) : Prop := ∃ s', Step s c s'

/-- What a call that makes the change `c`, if it can, has to end in. -/
structure Tries (s : LedgerState) (c : Change) (Q : Bool → LedgerState → Prop)
    (E : TxError → LedgerState → Prop) : Prop where
  step : ∀ s', Step s c s' → Q true s'
  reject : ¬ Can s c → Q false s ∧ ∀ e, E e s

theorem can_native_iff {acc : AccountEntry} (hacc : s.account id = some acc) :
    Can s (.amount q id .native delta) ↔ ∃ acc', acc.add s.header delta q = .ok (some acc') := by
  constructor
  · rintro ⟨_, hstep⟩
    cases hstep with
    | native hacc' hadd =>
      rw [hacc] at hacc'
      cases hacc'
      exact ⟨_, hadd⟩
    | line hasset => exact absurd rfl hasset
    | issuer hissues => exact absurd rfl hissues.1
  · rintro ⟨acc', hadd⟩
    exact ⟨_, .native hacc hadd⟩

theorem can_line_iff (hasset : asset ≠ .native) (hissuer : getIssuer asset ≠ id)
    {tl : TrustLineEntry} (htl : s.trustLine id asset = some tl) :
    Can s (.amount q id asset delta) ↔ ∃ tl', tl.add delta q = .ok (some tl') := by
  constructor
  · rintro ⟨_, hstep⟩
    cases hstep with
    | native => exact absurd rfl hasset
    | line _ _ htl' hadd =>
      rw [htl] at htl'
      cases htl'
      exact ⟨_, hadd⟩
    | issuer hissues => exact absurd hissues.2 hissuer
  · rintro ⟨tl', hadd⟩
    exact ⟨_, .line hasset hissuer htl hadd⟩

theorem exists_of_can_native (h : Can s (.amount q id .native delta)) :
    ∃ acc, s.account id = some acc := by
  obtain ⟨_, hstep⟩ := h
  cases hstep with
  | native hacc => exact ⟨_, hacc⟩
  | line hasset => exact absurd rfl hasset
  | issuer hissues => exact absurd rfl hissues.1

theorem exists_of_can_line (hasset : asset ≠ .native) (h : Can s (.amount q id asset delta)) :
    trustLineOf s id asset ≠ none := by
  obtain ⟨_, hstep⟩ := h
  unfold trustLineOf
  cases hstep with
  | native => exact absurd rfl hasset
  | line _ hissuer htl =>
    rw [if_neg hissuer, htl]
    exact nofun
  | issuer hissues =>
    rw [if_pos hissues.2]
    exact nofun

/-- Write the account that a call has computed. -/
theorem wp_storeAccount {x : Except TxError (Option AccountEntry)}
    (hok : ∀ acc, x = .ok (some acc) → Q true (s.put (.account acc)))
    (hnot : (¬ ∃ acc, x = .ok (some acc)) → Q false s ∧ ∀ e, E e s) :
    wp (do let acc ← lift x; storeAccount acc) Q E s := by
  simp only [wp_bind, wp_lift]
  rcases x with e | _ | acc
  · exact ⟨by simp, fun e' _ => (hnot (by simp)).2 e'⟩
  · refine ⟨?_, by simp⟩
    rintro _ ⟨⟩
    exact (hnot (by simp)).1
  · refine ⟨?_, by simp⟩
    rintro _ ⟨⟩
    exact hok acc rfl

/-- Change an account entry, which has to be there. -/
theorem wp_native (h : Tries s (.amount q id .native delta) Q E) :
    (∀ acc, s.account id = some acc →
      wp (lift (acc.add s.header delta q)) (fun acc' => wp (storeAccount acc') Q E) E s) ∧
    (s.account id = none → ∀ e, E e s) := by
  refine ⟨fun acc hacc => ?_, fun hnone => (h.reject fun hcan => ?_).2⟩
  · rw [← wp_bind]
    refine wp_storeAccount (fun acc' hadd => h.step _ (.native hacc hadd)) fun hadd => h.reject ?_
    rwa [can_native_iff hacc]
  · obtain ⟨acc, hacc⟩ := exists_of_can_native hcan
    rw [hacc] at hnone
    cases hnone

/-- Change the line of an account, which has to be there, or nothing for the issuer. -/
theorem wp_line (hasset : asset ≠ .native)
    (h : Tries s (.amount q id asset delta) Q E) :
    (∀ line, trustLineOf s id asset = some line → wp (line.change (·.add delta q)) Q E s) ∧
    (trustLineOf s id asset = none → ∀ e, E e s) := by
  refine ⟨fun line hline => ?_, fun hnone => (h.reject (exists_of_can_line hasset · hnone)).2⟩
  unfold trustLineOf at hline
  split at hline
  · rename_i hissuer
    cases hline
    exact h.step s (.issuer ⟨hasset, hissuer⟩)
  · rename_i hissuer
    obtain ⟨tl, htl, rfl⟩ := Option.map_eq_some_iff.mp hline
    have hcan : Can s (.amount q id asset delta) ↔ _ := can_line_iff hasset hissuer htl
    simp only [TrustLineWrapper.change, wp_bind, wp_lift]
    rcases hadd : tl.add delta q with e | _ | _
    · rw [hadd] at hcan
      refine ⟨by simp, fun e' _ => (h.reject fun h => ?_).2 e'⟩
      obtain ⟨_, ⟨⟩⟩ := hcan.mp h
    · rw [hadd] at hcan
      refine ⟨?_, by simp⟩
      rintro _ ⟨⟩
      refine (h.reject fun h => ?_).1
      obtain ⟨_, ⟨⟩⟩ := hcan.mp h
    · refine ⟨?_, by simp⟩
      rintro _ ⟨⟩
      exact h.step _ (.line hasset hissuer htl hadd)

theorem wp_addAccountBalance (h : Tries s (.amount .balance id .native delta) Q E) :
    wp (addAccountBalance id delta) Q E s := by
  simp only [addAccountBalance, wp_bind, wp_current]
  exact ⟨(wp_native h).1, fun hnone => (wp_native h).2 hnone _⟩

/-- A line that is loaded and changed -/
theorem wp_loadedLine {what : String} (hasset : asset ≠ .native)
    (h : Tries s (.amount q id asset delta) Q E) :
    wp (do
      let line ← loadTrustLine id asset
      let line ← orThrow what line
      line.change (·.add delta q)) Q E s := by
  simp only [wp_bind, wp_loadTrustLine, wp_orThrow]
  exact ⟨fun hnative => absurd hnative hasset, fun _ => ⟨(wp_line hasset h).1, fun hnone =>
    (wp_line hasset h).2 hnone _⟩⟩

theorem wp_addTrustLineBalance (hasset : asset ≠ .native)
    (h : Tries s (.amount .balance id asset delta) Q E) :
    wp (addTrustLineBalance id asset delta) Q E s :=
  wp_loadedLine hasset h

theorem wp_addBalanceTo (h : Tries s (.amount .balance id asset delta) Q E) :
    wp (addBalanceTo id asset delta) Q E s := by
  rw [addBalanceTo, wp_ite]
  refine ⟨?_, fun hasset => wp_loadedLine hasset h⟩
  rintro rfl
  exact wp_addAccountBalance h

theorem wp_addBuyingLiabilitiesTo (h : Tries s (.amount .buying id asset delta) Q E) :
    wp (addBuyingLiabilitiesTo id asset delta) Q E s := by
  rw [addBuyingLiabilitiesTo, wp_ite]
  refine ⟨?_, fun hasset => wp_loadedLine hasset h⟩
  rintro rfl
  simp only [wp_bind, wp_orThrow]
  exact ⟨(wp_native h).1, fun hnone => (wp_native h).2 hnone _⟩

theorem wp_addSellingLiabilitiesTo (h : Tries s (.amount .selling id asset delta) Q E) :
    wp (addSellingLiabilitiesTo id asset delta) Q E s := by
  rw [addSellingLiabilitiesTo, wp_ite]
  refine ⟨?_, fun hasset => wp_loadedLine hasset h⟩
  rintro rfl
  simp only [wp_bind, wp_orThrow]
  exact ⟨(wp_native h).1, fun hnone => (wp_native h).2 hnone _⟩

variable {count : Int}

theorem can_numEntries_iff {acc : AccountEntry} (hacc : s.account id = some acc) :
    Can s (.numEntries id count) ↔ ∃ acc', acc.addNumEntries s.header count = .ok (some acc') := by
  constructor
  · rintro ⟨_, hstep⟩
    cases hstep with
    | numEntries hacc' hadd =>
      rw [hacc] at hacc'
      cases hacc'
      exact ⟨_, hadd⟩
  · rintro ⟨acc', hadd⟩
    exact ⟨_, .numEntries hacc hadd⟩

theorem not_can_numEntries (hnone : s.account id = none) : ¬ Can s (.numEntries id count) := by
  rintro ⟨_, hstep⟩
  cases hstep with
  | numEntries hacc =>
    rw [hnone] at hacc
    cases hacc

theorem wp_addNumEntries (h : Tries s (.numEntries id count) Q E) :
    wp (addNumEntries id count) Q E s := by
  simp only [addNumEntries, wp_bind, wp_current]
  refine ⟨fun acc hacc => ?_, fun hnone => (h.reject (not_can_numEntries hnone)).2 _⟩
  rw [← wp_bind]
  refine wp_storeAccount (fun acc' hadd => h.step _ (.numEntries hacc hadd)) fun hadd =>
    h.reject ?_
  rwa [can_numEntries_iff hacc]

/-- Removing an entry does not fail without an exception. -/
theorem wp_removeEntry {Q : Bool → LedgerState → Prop}
    (hok : ∀ s', Step s (.numEntries id (-1)) s' → Q true s')
    (hnot : ¬ Can s (.numEntries id (-1)) → ∀ e, E e s) :
    wp (addNumEntries id (-1)) Q E s := by
  simp only [addNumEntries, wp_bind, wp_current]
  refine ⟨fun acc hacc => ?_, fun hnone => hnot (not_can_numEntries hnone) _⟩
  rw [wp_lift]
  refine ⟨fun acc' hadd => ?_, fun e herr => hnot ?_ _⟩
  · cases acc' with
    | some acc' => exact hok _ (.numEntries hacc hadd)
    | none =>
      unfold AccountEntry.addNumEntries at hadd
      split at hadd <;> cases hadd
  · rw [can_numEntries_iff hacc, herr]
    simp

end Amounts

/-! ## Liabilities of offers -/

end EssaCore.Transactions

namespace EssaCore.Ledger

open Transactions

/-- The liabilities of an offer, if they can be computed -/
def OfferEntry.liability (o : OfferEntry) : Quantity → Int
  | .balance => 0
  | .buying => (getOfferBuyingLiabilities o).toOption.getD 0
  | .selling => (getOfferSellingLiabilities o).toOption.getD 0

end EssaCore.Ledger

namespace EssaCore.Transactions

open Ledger Lib

/-- What taking up or releasing the liabilities of an offer changes -/
def liabilityChanges (o : OfferEntry) (isAcquire : Bool) : List Change :=
  let change (q : Quantity) := if isAcquire then o.liability q else -o.liability q
  [.amount .buying o.sellerID o.buying (change .buying),
    .amount .selling o.sellerID o.selling (change .selling)]

/-- All changes of a list are possible, one after the other. -/
def CanAll : LedgerState → List Change → Prop
  | _, [] => True
  | s, c :: cs => Can s c ∧ ∀ s', Step s c s' → CanAll s' cs

variable {o : OfferEntry}

theorem offerExchange_of_buying {x : Int}
    (h : getOfferBuyingLiabilities o = .ok x) :
    o.liability .buying = x ∧ ∃ r, offerExchange o = .ok r := by
  rw [OfferEntry.liability, h]
  refine ⟨rfl, ?_⟩
  obtain ⟨r, hr, -⟩ := bind_eq_ok.mp h
  exact ⟨r, hr⟩

theorem liability_of_selling {x : Int}
    (h : getOfferSellingLiabilities o = .ok x) : o.liability .selling = x := by
  rw [OfferEntry.liability, h]
  rfl

/-- The liabilities of an offer can be taken up or released. -/
structure CanChangeLiabilities (s : LedgerState) (o : OfferEntry) (isAcquire : Bool) : Prop where
  assets_ne : o.buying ≠ o.selling
  computed : ∃ r, offerExchange o = .ok r
  canAll : CanAll s (liabilityChanges o isAcquire)

theorem wp_acquireOrReleaseLiabilities {s : LedgerState} {isAcquire : Bool}
    {E : TxError → LedgerState → Prop} {Q : Unit → LedgerState → Prop}
    (hok : ∀ s', o.buying ≠ o.selling → (∃ r, offerExchange o = .ok r) →
      Journal s (liabilityChanges o isAcquire) s' → Q () s')
    (hnot : ¬ CanChangeLiabilities s o isAcquire → ∀ e s', E e s') :
    wp (acquireOrReleaseLiabilities o isAcquire) Q E s := by
  simp only [acquireOrReleaseLiabilities, wp_bind, wp_throwIf, wp_lift]
  refine ⟨fun h => hnot (fun hcan => hcan.assets_ne h) _ _, fun hassets => ⟨?_, ?_⟩⟩
  · intro buying hbuying
    obtain ⟨rfl, hcomputed⟩ := offerExchange_of_buying hbuying
    have hfirst : (hcan : CanChangeLiabilities s o isAcquire) → Can s (.amount .buying o.sellerID
        o.buying (if isAcquire then o.liability .buying else -o.liability .buying)) :=
      fun hcan => hcan.canAll.1
    refine wp_addBuyingLiabilitiesTo ⟨fun s₁ hstep₁ => ?_, fun h =>
      ⟨⟨fun _ => hnot (h ∘ hfirst) _ _, by simp⟩, fun e => hnot (h ∘ hfirst) _ _⟩⟩
    refine ⟨by simp, fun _ => ⟨fun selling hselling => ?_, ?_⟩⟩
    · obtain rfl := liability_of_selling hselling
      have hsecond : (hcan : CanChangeLiabilities s o isAcquire) → Can s₁ (.amount .selling
          o.sellerID o.selling
          (if isAcquire then o.liability .selling else -o.liability .selling)) :=
        fun hcan => (hcan.canAll.2 s₁ hstep₁).1
      refine wp_addSellingLiabilitiesTo ⟨fun s₂ hstep₂ => ?_, fun h =>
        ⟨⟨fun _ => hnot (h ∘ hsecond) _ _, by simp⟩, fun e => hnot (h ∘ hsecond) _ _⟩⟩
      exact ⟨by simp, fun _ => hok s₂ hassets hcomputed (.cons hstep₁ (.single hstep₂))⟩
    · intro e herr
      refine hnot (fun hcan => ?_) _ _
      obtain ⟨r, hr⟩ := hcan.computed
      rw [getOfferSellingLiabilities, hr] at herr
      cases herr
  · intro e herr
    refine hnot (fun hcan => ?_) _ _
    obtain ⟨r, hr⟩ := hcan.computed
    rw [getOfferBuyingLiabilities, hr] at herr
    cases herr

/-! ## What a change leaves alone -/

/-- The key under which an account keeps an asset -/
def assetKey (id : AccountID) (asset : Asset) : LedgerKey :=
  if asset = .native then .account id else .trustLine id asset

/-- The key that a change writes -/
def Change.key : Change → Option LedgerKey
  | .amount _ id asset _ => some (assetKey id asset)
  | .numEntries id _ => some (.account id)
  | .settings acc _ => some (.account acc.accountID)
  | .createAccount acc => some (.account acc.accountID)
  | .eraseAccount acc => some (.account acc.accountID)
  | .createTrustLine tl => some (.trustLine tl.accountID tl.asset)
  | .setLimit tl _ => some (.trustLine tl.accountID tl.asset)
  | .setAuthorized tl _ => some (.trustLine tl.accountID tl.asset)
  | .eraseTrustLine tl => some (.trustLine tl.accountID tl.asset)
  | .createOffer o => some (.offer o.sellerID o.offerID)
  | .setAmount o _ => some (.offer o.sellerID o.offerID)
  | .eraseOffer o => some (.offer o.sellerID o.offerID)
  | .createData d => some (.data d.accountID d.dataName)
  | .setData d _ => some (.data d.accountID d.dataName)
  | .eraseData d => some (.data d.accountID d.dataName)
  | .header _ _ => none

end EssaCore.Transactions
