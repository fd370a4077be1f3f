import EssaCore.Transactions.OperationChanges
import EssaCore.Transactions.TransactionFrame

/-!
# What transactions change

Coins and sub-entries are only moved: the changes of an operation, of the signatures and the
sequence number of a transaction, and so of a transaction, add up to nothing.

- `Neutral` — changes that add up to nothing;
- `Changes.neutral` — the changes of an operation;
- `applyTransactions_keeps` — what all transactions of a ledger keep.
-/

open List

namespace EssaCore.Transactions

open Ledger Lib LedgerState AccountEntry TransactionFrame

/-- Changes that make no coins, unless a sum wraps, and count every entry they make and erase -/
structure Neutral (cs : List Change) : Prop where
  coins : 2 ^ 64 ∣ (cs.map Change.missingCoins).sum
  excess : ∀ id, (cs.map (Change.excess id)).sum = 0
  small : ∀ c ∈ cs, c.SmallCount

/-- A change that makes no account, counts one entry, and leaves a total of coins that is an
`int64` -/
def Change.Routine : Change → Prop
  | .numEntries _ count => count = 1 ∨ count = -1
  | .createAccount _ => False
  | .header h h' => h'.totalCoins = h.totalCoins ∨ int64 h'.totalCoins = h'.totalCoins
  | _ => True

theorem Change.Routine.small {c : Change} (h : c.Routine) : c.SmallCount := by
  cases c with
  | numEntries id count => rcases h with rfl | rfl <;> exact ⟨by decide, by decide⟩
  | _ => trivial

namespace Neutral

variable {cs cs' : List Change}

theorem nil : Neutral [] := ⟨dvd_zero _, fun _ => rfl, forall_mem_nil _⟩

theorem append (h : Neutral cs) (h' : Neutral cs') : Neutral (cs ++ cs') where
  coins := by rw [map_append, sum_append]; exact dvd_add h.coins h'.coins
  excess id := by rw [map_append, sum_append, h.excess, h'.excess]; rfl
  small c hc := (mem_append.mp hc).elim (h.small c) (h'.small c)

end Neutral

/-! ## Operations -/

section Sums

variable {cs : List Change} {sourceID : AccountID}

/-- Nothing is added. -/
theorem sum_eq_zero_of_mem {f : Change → Int} (h : ∀ c ∈ cs, f c = 0) : (cs.map f).sum = 0 := by
  refine sum_eq_zero fun x hx => ?_
  obtain ⟨c, hc, rfl⟩ := mem_map.mp hx
  exact h c hc

variable {o : OfferEntry} {id : AccountID}

theorem amounts_excess (h : ∀ c ∈ cs, ∃ q id asset delta, c = .amount q id asset delta) :
    (cs.map (Change.excess id)).sum = 0 :=
  sum_eq_zero_of_mem fun c hc => by
    obtain ⟨q, _, asset, delta, rfl⟩ := h c hc
    rfl

/-- An offer that is taken, and the entry it was charged for -/
theorem finishChanges_excess {amount : Int} :
    ((finishChanges o amount).map (Change.excess id)).sum = 0 := by
  unfold finishChanges
  split
  · simp only [map_cons, Change.excess]
    split <;> rfl
  · rw [map_cons, sum_cons]
    rfl

variable {old : List OfferEntry} {rounds : List (OfferEntry × CrossOfferResult)}
  {left : List Change}

theorem TradeChanges.excess (h : TradeChanges rounds cs) : (cs.map (Change.excess id)).sum = 0 := by
  induction h with
  | nil => rfl
  | cons _ ih =>
    rw [map_append, sum_append, ih, crossChanges, map_append, sum_append,
      map_append, sum_append, amounts_excess settleChanges_amounts, finishChanges_excess]
    rfl

/-- What is missing after a balance has changed -/
theorem missingCoins_balance (id : AccountID) (asset : Asset) (delta : Int) :
    (Change.amount .balance id asset delta).missingCoins =
      -(if asset = .native then delta else 0) := by
  cases asset <;> rfl

theorem TradeChanges.missingCoins (h : TradeChanges rounds cs) :
    (cs.map Change.missingCoins).sum = -flow .native rounds := by
  rw [← h.coins]
  refine sum_missingCoins fun c hc h₁ h₂ => ?_
  rcases h.mem hc with ⟨_, _, _, _, rfl⟩ | ⟨_, rfl⟩ | ⟨_, _, rfl⟩ | ⟨_, rfl⟩ <;> exact nofun

theorem TradeChanges.routine (h : TradeChanges rounds cs) : ∀ c ∈ cs, c.Routine := by
  intro c hc
  rcases h.mem hc with ⟨_, _, _, _, rfl⟩ | ⟨_, rfl⟩ | ⟨_, _, rfl⟩ | ⟨_, rfl⟩
  · trivial
  · trivial
  · trivial
  · exact .inr rfl

open ManageOfferOp (withdrawal placement settlement)

theorem settlement_missingCoins {newOffer : OfferEntry} {c : Converted}
    (hzero : c.wheatReceived ≤ 0 → c.wheatReceived = 0 ∧ c.sheepSend = 0) :
    ((settlement newOffer c).map Change.missingCoins).sum =
      (if newOffer.selling = .native then c.sheepSend else 0) -
        (if newOffer.buying = .native then c.wheatReceived else 0) := by
  unfold settlement
  split
  · simp only [map_cons, map_nil, sum_cons, sum_nil, missingCoins_balance]
    split <;> split <;> omega
  · rename_i hwheat
    obtain ⟨hwheat, hsheep⟩ := hzero (not_lt.mp hwheat)
    simp [hwheat, hsheep]

theorem settlement_amounts {newOffer : OfferEntry} {c : Converted} :
    ∀ c' ∈ settlement newOffer c, ∃ q id asset delta, c' = .amount q id asset delta := by
  unfold settlement
  split
  · intro c' hc'
    simp only [mem_cons, not_mem_nil, or_false] at hc'
    rcases hc' with rfl | rfl
    · exact ⟨_, _, _, _, rfl⟩
    · exact ⟨_, _, _, _, rfl⟩
  · exact fun _ hc' => absurd hc' not_mem_nil

/-- The entry of an offer that is managed is counted. -/
theorem Remains.excess
    (hold : ∀ o ∈ old, o.sellerID = sourceID) (h : Remains sourceID old left) (id : AccountID) :
    ((old.flatMap withdrawal).map (Change.excess id)).sum +
      (left.map (Change.excess id)).sum = 0 := by
  cases h with
  | created hseller =>
    simp only [placement, map_cons, Change.excess, hseller]
    split <;> rfl
  | nothing => rfl
  | updated hseller =>
    have hseller' := hold _ mem_cons_self
    simp only [placement, withdrawal, flatMap_cons, map_append, map_cons,
      Change.excess, hseller, hseller']
    split <;> rfl
  | deleted =>
    have hseller' := hold _ mem_cons_self
    simp only [withdrawal, flatMap_cons, map_append, map_cons, Change.excess,
      hseller']
    split <;> rfl

theorem withdrawal_missingCoins : ((old.flatMap withdrawal).map Change.missingCoins).sum = 0 := by
  induction old with
  | nil => rfl
  | cons o old ih =>
    rw [flatMap_cons, map_append, sum_append, ih]
    rfl

theorem Remains.missingCoins
    (h : Remains sourceID old left) : (left.map Change.missingCoins).sum = 0 := by
  cases h with
  | created _ htotal hpool =>
    simp only [placement, liabilityChanges, map_cons, map_nil, sum_cons,
      sum_nil, Change.missingCoins, Change.coins]
    omega
  | nothing => rfl
  | updated => rfl
  | deleted => rfl

theorem Remains.routine
    (h : Remains sourceID old left) : ∀ c ∈ old.flatMap withdrawal ++ left, c.Routine := by
  cases h with
  | created _ htotal => simp [placement, liabilityChanges, Change.Routine, htotal]
  | _ => simp [placement, withdrawal, liabilityChanges, Change.Routine]

end Sums

open AllowTrustOp (deletion deletions)

variable (os : List OfferEntry)

theorem deletions_cons (o : OfferEntry) :
    deletions (o :: os) = deletion o ++ deletions os := rfl

theorem deletions_missingCoins : ((deletions os).map Change.missingCoins).sum = 0 := by
  induction os with
  | nil => rfl
  | cons o os ih =>
    rw [deletions_cons, map_append, sum_append, ih]
    rfl

theorem deletions_excess (id : AccountID) :
    ((deletions os).map (Change.excess id)).sum = 0 := by
  induction os with
  | nil => rfl
  | cons o os ih =>
    rw [deletions_cons, map_append, sum_append, ih]
    simp only [deletion, map_append, map_cons, Change.excess]
    split <;> rfl

theorem deletions_routine : ∀ c ∈ deletions os, c.Routine := by
  induction os with
  | nil => exact fun _ hc => absurd hc not_mem_nil
  | cons o os ih =>
    rw [deletions_cons, forall_mem_append]
    exact ⟨by simp [deletion, liabilityChanges, Change.Routine], ih⟩

section Changes

variable {sourceID : AccountID} {body : OperationBody} {cs : List Change}

/-- An operation makes no coins. Inflation accounts for what it makes, modulo `2 ^ 64`. -/
theorem Changes.missingCoins (h : Changes sourceID body cs) :
    (cs.map Change.missingCoins).sum = 0 ∨
      body = .inflation ∧ 2 ^ 64 ∣ (cs.map Change.missingCoins).sum := by
  cases h with
  | createAccount hbalance => simp [Change.missingCoins, Change.coins, hbalance]
  | payment htrade hflow =>
    rw [map_cons, sum_cons, map_append, sum_append, htrade.missingCoins,
      hflow .native, missingCoins_balance, map_singleton, sum_singleton,
      missingCoins_balance]
    refine .inl ?_
    split <;> split <;> omega
  | offer hold hseller htrade hflow hzero hleft =>
    rw [map_append, sum_append, map_append, sum_append, map_append,
      sum_append, withdrawal_missingCoins, htrade.missingCoins, hflow,
      settlement_missingCoins hzero, hleft.missingCoins]
    exact .inl (by omega)
  | setOptions =>
    rw [map_cons, sum_cons, map_map, sum_eq_zero]
    · exact .inl rfl
    · intro x hx
      obtain ⟨-, -, rfl⟩ := mem_map.mp hx
      rfl
  | allowTrust =>
    rw [map_append, sum_append, deletions_missingCoins]
    exact .inl rfl
  | accountMerge => simp [Change.missingCoins, Change.coins]
  | inflation hcs hcoins =>
    have hheader := sum_missingCoins fun c hc h₁ h₂ heq => by
      obtain ⟨_, _, rfl⟩ := hcs c hc
      cases heq
    rw [map_cons, sum_cons, map_append, sum_append, map_singleton,
      sum_singleton, Change.missingCoins, Change.missingCoins]
    exact .inr ⟨rfl, by omega⟩
  | _ => exact .inl rfl

/-- The sum of the counts of an account's entries -/
theorem numEntries_excess (sourceID id : AccountID) (counts : List Int) :
    ((counts.map (Change.numEntries sourceID)).map (Change.excess id)).sum =
      if sourceID = id then counts.sum else 0 := by
  induction counts with
  | nil => simp
  | cons count counts ih =>
    rw [map_cons, map_cons, sum_cons, ih, Change.excess]
    split <;> rfl

variable (h : Changes sourceID body cs)

include h

/-- An operation counts the entries it makes and erases. -/
theorem Changes.excess (id : AccountID) :
    (cs.map (Change.excess id)).sum = 0 := by
  cases h with
  | payment htrade =>
    rw [map_cons, sum_cons, map_append, sum_append, htrade.excess]
    rfl
  | offer hold _ htrade _ _ hleft =>
    have := hleft.excess hold id
    rw [map_append, sum_append, map_append, sum_append, map_append,
      sum_append, htrade.excess, amounts_excess settlement_amounts]
    omega
  | setOptions hid _ hsigners =>
    rw [map_cons, sum_cons, numEntries_excess, Change.excess, hid]
    split <;> omega
  | allowTrust =>
    rw [map_append, sum_append, deletions_excess]
    rfl
  | inflation hcs =>
    rw [map_cons, sum_cons, map_append, sum_append,
      amounts_excess fun c hc => ?_]
    · rfl
    · obtain ⟨id, _, rfl⟩ := hcs c hc
      exact ⟨_, _, _, _, rfl⟩
  | bumpSequence hsigners => simp [Change.excess, hsigners]
  | eraseTrustLine hid | createTrustLine hid | createData hid | eraseData hid =>
    simp only [map_cons, Change.excess, hid]
    split <;> rfl
  | _ => rfl

/-- Only one kind of operation makes an account. -/
theorem Changes.routine : (∀ c ∈ cs, c.Routine) ∨
    ∃ acc, cs = [.amount .balance sourceID .native (-acc.balance), .createAccount acc] := by
  cases h with
  | @createAccount op acc hbalance => exact .inr ⟨acc, by rw [hbalance]⟩
  | payment htrade =>
    refine .inl fun c hc => ?_
    rcases mem_cons.mp hc with rfl | hc
    · trivial
    · rcases mem_append.mp hc with hc | hc
      · exact htrade.routine c hc
      · rw [mem_singleton.mp hc]
        trivial
  | offer _ _ htrade _ _ hleft =>
    refine .inl fun c hc => ?_
    have hroutine := hleft.routine
    simp only [mem_append] at hc hroutine
    rcases hc with hc | hc | hc | hc
    · exact hroutine c (.inl hc)
    · exact htrade.routine c hc
    · obtain ⟨_, _, _, _, rfl⟩ := settlement_amounts c hc
      trivial
    · exact hroutine c (.inr hc)
  | setOptions _ hone =>
    refine .inl fun c hc => ?_
    rcases mem_cons.mp hc with rfl | hc
    · trivial
    · obtain ⟨count, hcount, rfl⟩ := mem_map.mp hc
      rcases hone with rfl | hone
      · exact .inl (mem_singleton.mp hcount)
      · exact .inr (hone count hcount)
  | allowTrust =>
    refine .inl fun c hc => ?_
    rcases mem_append.mp hc with hc | hc
    · exact deletions_routine _ c hc
    · rw [mem_singleton.mp hc]
      trivial
  | inflation hcs _ htotal =>
    refine .inl fun c hc => ?_
    rcases mem_cons.mp hc with rfl | hc
    · exact .inl htotal.1
    · rcases mem_append.mp hc with hc | hc
      · obtain ⟨_, -, rfl⟩ := hcs c hc
        trivial
      · rw [mem_singleton.mp hc]
        exact .inr htotal.2
  | _ => exact .inl (by simp [Change.Routine])

/-- The changes of an operation add up to nothing. -/
theorem Changes.neutral : Neutral cs where
  coins := h.missingCoins.elim (fun hzero => hzero ▸ dvd_zero _) And.right
  excess := h.excess
  small c hc := by
    rcases h.routine with hroutine | ⟨_, rfl⟩
    · exact (hroutine c hc).small
    · revert c
      simp [Change.SmallCount]

end Changes

/-! ## Balances -/

/-- The balances of accounts and the total of coins are values of an `int64_t`. -/
structure BalancesFit (s : LedgerState) : Prop where
  balance : ∀ id acc, s.account id = some acc → acc.balance ≤ INT64_MAX
  total : int64 s.header.totalCoins = s.header.totalCoins

variable {header : LedgerHeader}

theorem add_balance_le {acc acc' : AccountEntry} {q : Quantity}
    {delta : Int}
    (h : acc.add header delta q = .ok (some acc')) (hacc : acc.balance ≤ INT64_MAX) :
    acc'.balance ≤ INT64_MAX := by
  have hamount := add_amount h .balance
  simp only [AccountEntry.amountOf] at hamount
  cases q with
  | balance =>
    rcases addAmount_eq_some.mp h with ⟨-, rfl⟩ | ⟨-, -, -, -, -, hle, -⟩
    · exact hacc
    · rw [hamount]
      exact hle
  | buying => simpa [hamount] using hacc
  | selling => simpa [hamount] using hacc

theorem Step.balancesFit {s s' : LedgerState} {c : Change} (h : Step s c s')
    (hc : c.Routine ∨ ∃ acc, c = .createAccount acc ∧ acc.balance ≤ INT64_MAX)
    (hs : BalancesFit s) : BalancesFit s' where
  balance id acc hacc := by
    rcases h.account hacc with ⟨acc₀, hacc₀, hupdates⟩ | rfl
    · have hfit := hs.balance id acc₀ hacc₀
      cases hupdates with
      | same => exact hfit
      | native hadd => exact add_balance_le hadd hfit
      | numEntries hadd => exact (addNumEntries_keeps hadd).1.balance ▸ hfit
      | settings _ hbalance => exact hbalance ▸ hfit
    · rcases hc with hc | ⟨_, ⟨⟩, hmax⟩
      · exact hc.elim
      · exact hmax
  total := by
    by_cases hheader : ∃ h₁ h₂, c = .header h₁ h₂
    · obtain ⟨h₁, h₂, rfl⟩ := hheader
      cases h with
      | header =>
        rcases hc with hc | ⟨_, ⟨⟩, -⟩
        rcases hc with htotal | htotal
        · exact htotal ▸ hs.total
        · exact htotal
    · rw [header_of_step h fun h₁ h₂ heq => hheader ⟨h₁, h₂, heq⟩]
      exact hs.total

theorem Changes.balancesFit {sourceID : AccountID} {body : OperationBody} {cs : List Change}
    {s s' : LedgerState} (h : Changes sourceID body cs) (hjournal : Journal s cs s')
    (hs : BalancesFit s) : BalancesFit s' := by
  rcases h.routine with hroutine | ⟨acc, rfl⟩
  · exact hjournal.preserves_of_mem (fun s c s' hstep hc => hstep.balancesFit (.inl hc))
      hroutine hs
  · -- the new balance was one of the source
    obtain _ | ⟨hpaid, _ | ⟨hcreate, _ | _⟩⟩ := hjournal
    refine hcreate.balancesFit (.inr ⟨acc, rfl, ?_⟩) (hpaid.balancesFit (.inl trivial) hs)
    cases hpaid with
    | native hacc₀ hadd =>
      have hfit := hs.balance _ _ hacc₀
      rcases addAmount_eq_some.mp hadd with ⟨_, -⟩ | ⟨-, -, -, -, _, -⟩
      · unfold INT64_MAX
        omega
      · omega
    | line hasset => exact absurd rfl hasset
    | issuer hissues => exact absurd rfl hissues.1

/-! ## Transactions -/

/-- One state is reached from another by changes that add up to nothing. -/
def Moves (s s' : LedgerState) : Prop :=
  ∃ cs, Neutral cs ∧ Journal s cs s' ∧ (BalancesFit s → BalancesFit s')

theorem Moves.refl (s : LedgerState) : Moves s s := ⟨[], .nil, .nil s, id⟩

theorem Moves.trans {s s' s'' : LedgerState} (h : Moves s s') (h' : Moves s' s'') :
    Moves s s'' := by
  obtain ⟨cs, hneutral, hjournal, hfit⟩ := h
  obtain ⟨cs', hneutral', hjournal', hfit'⟩ := h'
  exact ⟨cs ++ cs', hneutral.append hneutral', hjournal.append hjournal', hfit' ∘ hfit⟩

/-- A change of the settings of an account, or one entry less -/
def Change.Clerical : Change → Prop
  | .settings _ _ => True
  | .numEntries _ count => count = -1
  | _ => False

theorem Change.Clerical.routine {c : Change} (h : c.Clerical) : c.Routine := by
  cases c with
  | numEntries => exact .inr h
  | settings => trivial
  | _ => exact h.elim

/-- One state is reached from another by such changes, which add up to nothing. -/
def Clerks (s s' : LedgerState) : Prop :=
  ∃ cs, Neutral cs ∧ Journal s cs s' ∧ ∀ c ∈ cs, c.Clerical

namespace Clerks

variable {s s' s'' : LedgerState} {cs : List Change}

theorem refl (s : LedgerState) : Clerks s s := ⟨[], .nil, .nil s, forall_mem_nil _⟩

theorem trans (h : Clerks s s') (h' : Clerks s' s'') : Clerks s s'' := by
  obtain ⟨cs, hneutral, hjournal, hcs⟩ := h
  obtain ⟨cs', hneutral', hjournal', hcs'⟩ := h'
  exact ⟨cs ++ cs', hneutral.append hneutral', hjournal.append hjournal',
    forall_mem_append.mpr ⟨hcs, hcs'⟩⟩

theorem of_journal (hjournal : Journal s cs s') (hcs : ∀ c ∈ cs, c.Clerical)
    (hcoins : (cs.map Change.missingCoins).sum = 0)
    (hexcess : ∀ id, (cs.map (Change.excess id)).sum = 0) : Clerks s s' :=
  ⟨cs, ⟨hcoins ▸ dvd_zero _, hexcess, fun c hc => (hcs c hc).routine.small⟩, hjournal, hcs⟩

theorem moves (h : Clerks s s') : Moves s s' := by
  obtain ⟨cs, hneutral, hjournal, hcs⟩ := h
  exact ⟨cs, hneutral, hjournal, fun hs => hjournal.preserves_of_mem
    (fun s c s' hstep hc => hstep.balancesFit (.inl hc.routine)) hcs hs⟩

end Clerks

section Transactions

variable {env : TxEnv} {crypto : Crypto} {s : LedgerState}

theorem doApply_moves {body : OperationBody} {sourceID : AccountID}
    (hvalid : body.doCheckValid sourceID = .ok ()) :
    wlp (body.doApply env sourceID) (fun _ s' => Moves s s') s := by
  refine (doApply_changes hvalid).imp ?_
  rintro _ s' ⟨cs, hchanges, hjournal⟩
  exact ⟨cs, hchanges.neutral, hjournal, hchanges.balancesFit hjournal⟩

theorem wp_succeeds {x : TxM Unit} {Q : Bool → LedgerState → Prop}
    (h : wlp x (fun _ s' => Q true s') s) (hfailed : ∀ s', Q false s') : wlp (succeeds x) Q s := by
  rw [wlp_iff] at *
  intro ok s' hrun
  unfold succeeds at hrun
  split at hrun
  · rename_i hx
    cases hrun
    exact h () _ hx
  · cases hrun
    exact hfailed _
  · cases hrun

/-- An operation that passes its check keeps a predicate. -/
def Operation.Keeps (env : TxEnv) (P : LedgerState → Prop) (tx : Transaction) (s : LedgerState)
    (op : Operation) : Prop :=
  op.body.doCheckValid (op.getSourceID tx) = .ok () → P s →
    wlp (op.body.doApply env (op.getSourceID tx)) (fun _ => P) s

/-- What an operation keeps of a predicate, its call keeps if it succeeds. -/
theorem Operation.apply_keeps {P : LedgerState → Prop} {checker : SignatureChecker}
    {op : Operation} {tx : Transaction} (hop : op.Keeps env P tx s) :
    wlp (op.apply env crypto checker tx) (fun ok s' => ok = true → P s → P s') s := by
  rw [Operation.apply, wlp, wp_bind, wp_get, wp_ite]
  refine ⟨by simp, fun hvalid => wp_succeeds ?_ (by simp)⟩
  have hok : op.body.doCheckValid (op.getSourceID tx) = .ok () := by
    unfold checkValid at hvalid
    split at hvalid
    · exact absurd rfl hvalid
    · simp only [↓reduceIte] at hvalid
      split at hvalid
      · rename_i hchecked
        exact absurd hchecked hvalid
      · cases hcheck : op.body.doCheckValid (op.getSourceID tx) with
        | ok => rfl
        | error code =>
          rw [hcheck] at hvalid
          exact absurd rfl hvalid
  rw [wlp_iff]
  exact fun _ s' hrun _ hs => (hop hok hs).of_ok hrun

theorem Operation.apply_moves {checker : SignatureChecker} {op : Operation} {tx : Transaction} :
    wlp (op.apply env crypto checker tx) (fun ok s' => ok = true → Moves s s') s :=
  (Operation.apply_keeps fun hvalid _ => doApply_moves hvalid).imp
    fun _ _ h hok => h hok (.refl s)

/-- An operation other than inflation conserves coins. -/
theorem Operation.apply_conserved {checker : SignatureChecker} {op : Operation}
    {tx : Transaction} (hbody : op.body ≠ .inflation) :
    wlp (op.apply env crypto checker tx)
      (fun ok s' => ok = true → missingCoins s = 0 → missingCoins s' = 0) s := by
  refine Operation.apply_keeps (P := fun s => missingCoins s = 0) fun hvalid hs =>
    (doApply_changes hvalid).imp ?_
  rintro _ s' ⟨cs, hchanges, hjournal⟩
  rw [journal_missingCoins hjournal, hs,
    hchanges.missingCoins.resolve_right fun h => hbody h.1, Int.add_zero]

variable {envelope : TransactionEnvelope}

namespace TransactionFrame

variable {tx : Transaction} {checker : SignatureChecker}

theorem processSeqNum_clerks : wlp (processSeqNum tx) (fun _ s' => Clerks s s') s := by
  simp only [processSeqNum, wp_bind, wp_current, wp_throwIf, implies_true, and_true, true_and]
  intro acc hacc hseq
  obtain hid := s.accountID_of_account hacc
  have hstep : Step s (.settings acc { acc with seqNum := tx.seqNum })
      (s.put (.account { acc with seqNum := tx.seqNum })) :=
    .settings (hid ▸ hacc) rfl rfl rfl rfl (not_lt.mp hseq)
  refine .of_journal (.single hstep) ?_ rfl fun id => ?_
  · simp [Change.Clerical]
  · simp [Change.excess]

/-- Removing a signer is counted. -/
theorem removeAccountSigner_eq_ok {acc acc' : AccountEntry}
    {key : SignerKey}
    (h : removeAccountSigner header acc key = .ok (some acc')) :
    ∃ acc₁, acc.addNumEntries header (-1) = .ok (some acc₁) ∧ acc₁.Keeps acc' ∧
      acc'.numSubEntries = acc₁.numSubEntries ∧
      (acc'.signers.length : Int) = acc.signers.length - 1 := by
  unfold removeAccountSigner at h
  split at h
  · rename_i hany
    obtain ⟨removed, hadd, h⟩ := bind_eq_ok.mp h
    cases removed with
    | none => cases h
    | some acc₁ =>
      obtain rfl := Option.some.inj (Except.ok.inj h)
      refine ⟨acc₁, hadd, ⟨rfl, rfl, rfl, rfl⟩, rfl, ?_⟩
      obtain ⟨_, hmem, -⟩ := any_eq_true.mp hany
      have hlength := length_pos_of_mem hmem
      rw [(addNumEntries_keeps hadd).2, length_eraseP, if_pos hany]
      omega
  · cases h

theorem removeFirst_eq_ok {acc acc' : AccountEntry} {keys : List SignerKey}
    (h : removeFirst header acc keys = .ok (some acc')) :
    ∃ key ∈ keys, removeAccountSigner header acc key = .ok (some acc') := by
  induction keys with
  | nil => cases h
  | cons key keys ih =>
    obtain ⟨removed, hremove, h⟩ := bind_eq_ok.mp h
    cases removed with
    | some acc₁ =>
      obtain rfl := Option.some.inj (Except.ok.inj h)
      exact ⟨key, mem_cons_self, hremove⟩
    | none =>
      obtain ⟨key', hmem, hremove'⟩ := ih h
      exact ⟨key', mem_cons_of_mem _ hmem, hremove'⟩

theorem removeUsedFrom_clerks {accountID : AccountID} {keys : List SignerKey} :
    wlp (removeUsedFrom accountID keys) (fun _ s' => Clerks s s') s := by
  rw [removeUsedFrom, wlp, wp_bind, wp_loadAccount]
  cases hacc : s.account accountID with
  | none => exact .refl s
  | some acc =>
    rw [wp_bind, wp_loadHeader, wp_bind, wp_lift]
    refine ⟨fun changed hchanged => ?_, fun _ _ => trivial⟩
    cases changed with
    | none => exact .refl s
    | some acc' =>
      obtain ⟨_, -, hremove⟩ := removeFirst_eq_ok hchanged
      obtain ⟨acc₁, hadd, hkeeps, hentries, hlength⟩ := removeAccountSigner_eq_ok hremove
      obtain ⟨⟨hid, -, -, -⟩, hsigners⟩ := addNumEntries_keeps hadd
      obtain rfl := s.accountID_of_account hacc
      have hput : (s.put (.account acc₁)).put (.account (normalizeSigners acc')) =
          s.put (.account (normalizeSigners acc')) := s.put_put_account hkeeps.accountID.symm
      have hstep : Step (s.put (.account acc₁)) (.settings acc₁ (normalizeSigners acc'))
          ((s.put (.account acc₁)).put (.account (normalizeSigners acc'))) := by
        refine .settings ?_ hkeeps.accountID hkeeps.balance hkeeps.ext hentries
          (le_of_eq hkeeps.seqNum.symm)
        exact account_eq_some_iff.mpr lookup_put_self
      rw [hput] at hstep
      refine .of_journal (.cons (.numEntries hacc hadd) (.single hstep)) ?_ rfl fun id => ?_
      · simp [Change.Clerical]
      · simp only [map_cons, map_nil, sum_cons, sum_nil, Change.excess, hid,
          normalizeSigners, length_mergeSort, hsigners]
        split <;> omega

theorem removeUsedFrom_moves {accountID : AccountID} {keys : List SignerKey} :
    wlp (removeUsedFrom accountID keys) (fun _ s' => Moves s s') s :=
  removeUsedFrom_clerks.imp fun _ _ h => h.moves

theorem removeUsedOneTimeSignerKeys_clerks (used : List (AccountID × List SignerKey))
    (s : LedgerState) :
    wlp (removeUsedOneTimeSignerKeys used) (fun _ s' => Clerks s s') s := by
  induction used generalizing s with
  | nil => exact .refl s
  | cons u used ih =>
    rw [removeUsedOneTimeSignerKeys]
    refine removeUsedFrom_clerks.bind fun _ s₁ hfirst => ?_
    exact (ih s₁).imp fun _ s₂ hrest => hfirst.trans hrest

theorem removeUsedOneTimeSignerKeys_moves (used : List (AccountID × List SignerKey))
    (s : LedgerState) :
    wlp (removeUsedOneTimeSignerKeys used) (fun _ s' => Moves s s') s :=
  (removeUsedOneTimeSignerKeys_clerks used s).imp fun _ _ h => h.moves

theorem processSignatures_clerks :
    wlp (processSignatures crypto checker tx) (fun _ s' => Clerks s s') s := by
  rw [processSignatures, wlp, wp_bind, wp_get]
  exact (removeUsedOneTimeSignerKeys_clerks _ s).bind fun _ _ h => h

theorem wp_prepare :
    wp (prepare crypto envelope) (fun _ s' => Clerks s s') (fun _ s' => s' = s) s := by
  refine wp_nested ?_
  rw [wp_bind, wp_get]
  rw [wp_ite]
  simp only [wp_ite, wp_bind]
  have hsignatures (checker : SignatureChecker) {s₁ : LedgerState} (hfirst : Clerks s s₁) :
      wlp (processSignatures crypto checker envelope.tx) (fun _ s' => Clerks s s') s₁ :=
    processSignatures_clerks.imp fun _ s₂ hrest => hfirst.trans hrest
  refine ⟨fun _ => ?_, fun _ => ⟨fun _ => hsignatures _ (.refl s), fun _ => .refl s⟩⟩
  refine processSeqNum_clerks.imp fun _ s₁ hfirst => ?_
  exact ⟨fun _ => hsignatures _ hfirst, fun _ => hfirst⟩

/-! What the operations of a transaction and the changes before them keep, it keeps, also if it
throws. -/

variable {P : LedgerState → Prop} (hclerks : ∀ s s', Clerks s s' → P s → P s')

theorem applyLoop_keeps {ops : List Operation} (hops : ∀ op ∈ ops, ∀ s, op.Keeps env P tx s)
    (s : LedgerState) :
    wlp (applyLoop env crypto checker tx ops) (fun ok s' => ok = true → P s → P s') s := by
  induction ops generalizing s with
  | nil => exact fun _ hs => hs
  | cons op ops ih =>
    rw [forall_mem_cons] at hops
    rw [applyLoop, wlp]
    refine (Operation.apply_keeps (hops.1 s)).bind fun ok s₁ hfirst => ?_
    refine (ih hops.2 s₁).bind fun rest s₂ hrest => ?_
    intro hboth hs
    obtain ⟨hok, hrest'⟩ := Bool.and_eq_true_iff.mp hboth
    exact hrest hrest' (hfirst hok hs)

include hclerks

theorem wp_apply_keeps
    (hops : ∀ op ∈ envelope.tx.operations, ∀ s, op.Keeps env P envelope.tx s) (hs : P s) :
    wp (apply env crypto envelope) (fun _ => P) (fun _ => P) s := by
  rw [apply, wp_bind]
  refine wp_prepare.mono (fun prepared s₁ hfirst => ?_) fun _ s' hs' => hs' ▸ hs
  have hs₁ := hclerks s s₁ hfirst hs
  rw [wp_ite]
  refine ⟨fun _ => ?_, fun _ => hs₁⟩
  have hloop : wlp (applyLoop env crypto prepared.2 envelope.tx envelope.tx.operations)
      (fun ok s' => ok = true → P s₁ → P s') s₁ := applyLoop_keeps hops s₁
  rw [wlp_iff] at hloop
  unfold wp applyOperations
  cases hrun : applyLoop env crypto prepared.2 envelope.tx envelope.tx.operations s₁ with
  | ok ok s' =>
    cases ok with
    | true => exact hloop true s' hrun rfl hs₁
    | false => exact hs₁
  | error => exact hs₁

end TransactionFrame

/-- What operations and the changes before them keep, the transactions of a ledger keep. -/
theorem applyTransactions_keeps {P : LedgerState → Prop}
    (hclerks : ∀ s s', Clerks s s' → P s → P s') {txs : List TransactionEnvelope}
    (hops : ∀ envelope ∈ txs, ∀ op ∈ envelope.tx.operations, ∀ s,
      op.Keeps env P envelope.tx s) (hs : P s) :
    wlp (applyTransactions env crypto txs) (fun _ => P) s := by
  induction txs generalizing s with
  | nil => exact hs
  | cons envelope txs ih =>
    rw [forall_mem_cons] at hops
    rw [applyTransactions]
    have happly : wp (apply env crypto envelope) (fun _ => P) (fun _ => P) s :=
      wp_apply_keeps hclerks hops.1 hs
    refine wp.bind (Q := fun _ => P) ?_ fun _ _ hs₁ => ih hops.2 hs₁
    unfold wp applyTransaction at *
    cases hrun : apply env crypto envelope s with
    | ok a s' =>
      rw [hrun] at happly
      exact happly
    | error e s' =>
      rw [hrun] at happly
      cases e with
      | assertion => trivial
      | _ => exact happly

theorem applyTransactions_moves (txs : List TransactionEnvelope) (s : LedgerState) :
    wlp (applyTransactions env crypto txs) (fun _ s' => Moves s s') s :=
  applyTransactions_keeps (fun _ _ h hs => hs.trans h.moves)
    (fun _ _ _ _ _ hvalid hs => (doApply_moves hvalid).imp fun _ _ h => hs.trans h) (.refl s)

end Transactions

end EssaCore.Transactions
