import EssaCore.Transactions.InflationPayouts
import EssaCore.Transactions.TransactionChanges

/-!
# Coins

The coins in existence are those of the accounts and of the fee pool: charging fees moves
coins into the pool, operations move them between accounts, and inflation makes as many as
it pays out or adds to the pool. The totals are `int64`s: what is kept in any case is the equality
modulo `2 ^ 64`, which is the equality itself as long as the coins fit.

- `CoinsFit` — the coins of the accounts and of the pool are a value of an `int64`;
- `wp_processFeeSeqNum` — what charging a fee does;
- `coins_conserved` — fees, operations and whole ledgers conserve coins.
-/

namespace EssaCore.Transactions

open Ledger Lib LedgerState TransactionFrame

variable {s s' : LedgerState}

/-- The coins of the accounts and of the fee pool are together a value of an `int64`. -/
def CoinsFit (s : LedgerState) : Prop :=
  int64 (s.sum coinsOf + s.header.feePool) = s.sum coinsOf + s.header.feePool

theorem conserved_iff : Conserved s ↔ missingCoins s = 0 := by
  unfold Conserved missingCoins
  omega

/-- Coins are missing only by a multiple of `2 ^ 64`. -/
structure Accounted (s : LedgerState) : Prop extends BalancesFit s where
  coins : 2 ^ 64 ∣ missingCoins s

theorem Conserved.accounted (hs : Conserved s) (hfit : BalancesFit s) : Accounted s :=
  ⟨hfit, conserved_iff.mp hs ▸ dvd_zero _⟩

/-- Both sides are `int64`s that differ by a multiple of `2 ^ 64`. -/
theorem Accounted.conserved_iff (hs : Accounted s) : Conserved s ↔ CoinsFit s := by
  have hdvd := hs.coins
  have htotal := int64_bounds s.header.totalCoins
  rw [hs.total] at htotal
  have hheld := int64_bounds (s.sum coinsOf + s.header.feePool)
  unfold Conserved CoinsFit missingCoins INT64_MAX at *
  constructor
  · intro h
    rw [← h, hs.total]
  · intro h
    rw [h] at hheld
    omega

theorem Moves.accounted (h : Moves s s') (hs : Accounted s) : Accounted s' := by
  obtain ⟨_, hneutral, hjournal, hfit⟩ := h
  refine ⟨hfit hs.toBalancesFit, ?_⟩
  rw [journal_missingCoins hjournal]
  exact dvd_add hs.coins hneutral.coins

/-! ## Fees -/

namespace TransactionFrame

variable {tx : Transaction} {acc : AccountEntry}

/-- A fee that is charged leaves a balance. -/
theorem addBalance_feeCharged (hfee : (tx.fee : Int) > 0)
    (hpos : 0 ≤ acc.balance) (hmax : acc.balance ≤ INT64_MAX) :
    addBalance acc.balance (-feeCharged tx acc) INT64_MAX =
      .ok (some (acc.balance - feeCharged tx acc)) := by
  rw [feeCharged]
  refine addBalance_eq_some.mpr ⟨hpos, by decide, by omega, fun _ => ⟨by omega, by omega⟩⟩

variable (hacc : s.account tx.sourceAccount = some acc)

include hacc

/-- Charging a fee moves it from an account into the pool. -/
theorem charged_missingCoins : missingCoins ((s.put (.account { acc with
      balance := acc.balance - feeCharged tx acc })).setHeader
        { s.header with feePool := int64 (s.header.feePool + feeCharged tx acc) }) =
    missingCoins s - (int64 (s.header.feePool + feeCharged tx acc) -
      (s.header.feePool + feeCharged tx acc)) := by
  obtain hid := s.accountID_of_account hacc
  have hlookup : s.lookup (LedgerEntryData.account { acc with
      balance := acc.balance - feeCharged tx acc }).key = some (.account acc) := by
    rw [hid]
    exact s.account_eq_some_iff.mp hacc
  unfold missingCoins
  rw [sum_setHeader, s.sum_put_of_some hlookup]
  simp only [header_setHeader, coinsOf]
  omega

theorem charged_accounted (hpos : 0 ≤ acc.balance) (hs : Accounted s) :
    Accounted ((s.put (.account { acc with
      balance := acc.balance - feeCharged tx acc })).setHeader
        { s.header with feePool := int64 (s.header.feePool + feeCharged tx acc) }) where
  balance id acc' hacc' := by
    rw [account, lookup_setHeader, ← account, s.account_put_account] at hacc'
    split at hacc'
    · cases hacc'
      have hmax := hs.balance _ _ hacc
      dsimp only
      unfold feeCharged
      split <;> omega
    · exact hs.balance id acc' hacc'
  total := hs.total
  coins := by
    rw [charged_missingCoins hacc]
    exact dvd_sub hs.coins (int64_dvd _)

/-- The pool has room for the fee if no account and no pool is in debt. -/
theorem charged_conserved (hfee : (tx.fee : Int) > 0) (hs : Conserved s) (hfit : BalancesFit s)
    (hpool : 0 ≤ s.header.feePool)
    (hpos : ∀ id acc, s.account id = some acc → 0 ≤ acc.balance) :
    Conserved ((s.put (.account { acc with
      balance := acc.balance - feeCharged tx acc })).setHeader
        { s.header with feePool := int64 (s.header.feePool + feeCharged tx acc) }) := by
  have hle : acc.balance ≤ s.sum coinsOf :=
    s.le_sum_of_lookup (coinsOf_nonneg hpos) (s.account_eq_some_iff.mp hacc)
  have htotal := int64_bounds s.header.totalCoins
  rw [hfit.total, hs] at htotal
  have hcharged : 0 ≤ feeCharged tx acc ∧ feeCharged tx acc ≤ acc.balance := by
    have := hpos _ _ hacc
    rw [feeCharged, if_pos hfee]
    omega
  rw [conserved_iff, charged_missingCoins hacc, conserved_iff.mp hs,
    int64_eq (by omega) (by omega)]
  omega

/-- Charging a fee only fails for a balance that is negative. -/
theorem wp_processFeeSeqNum (hs : Accounted s) :
    wp (processFeeSeqNum tx) (fun _ s' => Accounted s' ∧ (Conserved s → 0 ≤ s.header.feePool →
        (∀ id acc, s.account id = some acc → 0 ≤ acc.balance) → Conserved s'))
      (fun e _ => e = .assertion ∧ acc.balance < 0) s := by
  rw [processFeeSeqNum, wp_bind, wp_loadHeader, wp_bind, wp_loadAccount, hacc, wp_bind, wp_orThrow]
  refine ⟨?_, by simp⟩
  rintro _ ⟨⟩
  rw [wp_ite]
  refine ⟨fun hfee => ?_, fun _ => ⟨hs, fun h _ _ => h⟩⟩
  rw [wp_bind, wp_lift]
  by_cases hpos : 0 ≤ acc.balance
  · rw [addBalance_feeCharged hfee hpos (hs.balance _ _ hacc)]
    refine ⟨?_, by simp⟩
    rintro _ ⟨⟩
    exact ⟨charged_accounted hacc hpos hs, fun h =>
      charged_conserved hacc hfee h hs.toBalancesFit⟩
  · have hassert : addBalance acc.balance (-feeCharged tx acc) INT64_MAX = .error .assertion := by
      rw [addBalance, assert, if_neg hpos]
      rfl
    rw [hassert]
    refine ⟨by simp, ?_⟩
    rintro _ ⟨⟩
    exact ⟨rfl, not_le.mp hpos⟩

end TransactionFrame

theorem processFeesSeqNums_accounted (txs : List TransactionEnvelope) (hs : Accounted s) :
    wlp (processFeesSeqNums txs) (fun _ s' => Accounted s') s := by
  induction txs generalizing s with
  | nil => exact hs
  | cons envelope txs ih =>
    rw [processFeesSeqNums, wlp, wp_bind]
    cases hacc : s.account envelope.tx.sourceAccount with
    | none =>
      rw [processFeeSeqNum, wp_bind, wp_loadHeader, wp_bind, wp_loadAccount, hacc,
        wp_bind, wp_orThrow]
      exact ⟨by simp, fun _ => trivial⟩
    | some acc =>
      exact (wp_processFeeSeqNum hacc hs).mono (fun _ s₁ h => ih h.1) fun _ _ _ => trivial

/-! ## Ledgers -/

/-- **Coins**: after charging the fee of any transaction whose source exists, after any operation
that succeeds, and after all the transactions of a ledger, the coins are conserved if and only if
those of the accounts and of the pool fit an `int64`. This needs no condition for an operation
other than inflation, nor for fees if nobody is in debt; for an inflation it is enough that the
coins in existence fit after it, if the winners have no more votes than there are coins. -/
theorem coins_conserved (s : LedgerState) (hs : Conserved s) (hfit : BalancesFit s) :
    (∀ tx acc, s.account tx.sourceAccount = some acc →
      wp (TransactionFrame.processFeeSeqNum tx) (fun _ s' => (Conserved s' ↔ CoinsFit s') ∧
          (0 ≤ s.header.feePool → (∀ id acc, s.account id = some acc → 0 ≤ acc.balance) →
            Conserved s'))
        (fun _ _ => acc.balance < 0) s) ∧
    (∀ env crypto checker op tx, wlp (Operation.apply env crypto checker op tx)
      (fun ok s' => ok = true → (Conserved s' ↔ CoinsFit s') ∧
        (op.body ≠ .inflation → Conserved s')) s) ∧
    (∀ env, 10 ≤ s.header.ledgerVersion → 0 ≤ s.header.feePool → 0 < s.header.totalCoins →
      Inflation.RoomToReceive s →
      s.header.totalCoins + Inflation.inflationAmount s.header ≤ INT64_MAX →
      (∀ w ∈ Inflation.winners env s, 0 ≤ w.votes) →
      ((Inflation.winners env s).map InflationWinner.votes).sum ≤ s.header.totalCoins →
      wlp (Inflation.doApply env) (fun _ s' => Conserved s') s) ∧
    (∀ env crypto txs, wlp (closeTransactions env crypto txs)
      (fun _ s' => Conserved s' ↔ CoinsFit s') s) := by
  have hacct := hs.accounted hfit
  refine ⟨fun tx acc hacc => ?_, fun env crypto checker op tx => ?_,
    fun env hversion hpool hpos hroom hmax hvotes hsum => ?_, fun env crypto txs => ?_⟩
  · exact (wp_processFeeSeqNum hacc hacct).mono
      (fun _ _ h => ⟨h.1.conserved_iff, h.2 hs⟩) fun _ _ h => h.2
  · rw [wlp_iff]
    intro ok s' hrun hok
    have hmoves := Operation.apply_moves.of_ok hrun hok
    refine ⟨(hmoves.accounted hacct).conserved_iff, fun hbody => ?_⟩
    exact conserved_iff.mpr
      ((Operation.apply_conserved hbody).of_ok hrun hok (conserved_iff.mp hs))
  · refine (Inflation.wp_doApply env hversion hs hpool hpos hroom hmax hvotes hsum).mono ?_
      fun _ _ _ => trivial
    rintro _ s' ⟨_, _, h⟩
    exact h.conserved
  · rw [closeTransactions, wlp, wp_bind]
    refine wp_nested ((processFeesSeqNums_accounted txs hacct).imp fun _ s₁ h => ?_)
    exact (applyTransactions_moves txs s₁).imp fun _ _ hmoves => (hmoves.accounted h).conserved_iff

/-- A ledger with one account that has all coins but the pool's -/
def soleHolder (totalCoins feePool : Int) : LedgerState :=
  .ofEntries ⟨10, 2000000000, 2, totalCoins, feePool, 0, 0, 100, 5⟩
    [.account ⟨1, totalCoins - feePool, 0, 0, none, 0, "", ⟨1, 0, 0, 0⟩, [], none⟩]

theorem soleHolder_balancesFit {totalCoins feePool : Int}
    (hbalance : totalCoins - feePool ≤ INT64_MAX) (htotal : int64 totalCoins = totalCoins) :
    BalancesFit (soleHolder totalCoins feePool) where
  balance id acc hacc := by
    rw [soleHolder, ofEntries, account_put_account] at hacc
    split at hacc
    · cases hacc
      exact hbalance
    · cases hacc
  total := htotal

theorem coins_conserved_soleHolder : Conserved (soleHolder 500 100) ∧
    ∀ env crypto txs, wlp (closeTransactions env crypto txs)
      (fun _ s' => Conserved s' ↔ CoinsFit s') (soleHolder 500 100) :=
  ⟨by decide, (coins_conserved _ (by decide)
    (soleHolder_balancesFit (by decide) (by decide +kernel))).2.2.2⟩

/-- If all coins that an `int64` can count exist, inflation without winners makes more: the total
wraps, and the new coins are in the pool. -/
theorem coins_overflow : Conserved (soleHolder INT64_MAX 0) ∧
    BalancesFit (soleHolder INT64_MAX 0) ∧
    (match OperationBody.inflation.doApply ⟨fun _ _ => false, fun _ _ _ => []⟩ 1
      (soleHolder INT64_MAX 0) with
    | .ok _ s' => some (decide (Conserved s'))
    | .error _ _ => none) = some false :=
  ⟨by decide, soleHolder_balancesFit (by decide) (by decide +kernel), by decide +kernel⟩

end EssaCore.Transactions
