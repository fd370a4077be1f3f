import EssaCore.Transactions.Conservation
import EssaCore.Transactions.Liabilities

/-!
# Closing ledgers

`LedgerManagerImpl::closeLedger` and what holds after any number of ledgers: each operation and
each part of a transaction keeps it, so the loops over transactions and ledgers do.

- `closeLedger`, `closeLedgers` — one ledger after the other;
- `seqNums_never_fall` — sequence numbers, also of accounts that are merged and created again.
-/

open List

namespace EssaCore.Transactions

open Ledger Lib LedgerState TransactionFrame

variable {env : TxEnv} {crypto : Crypto} {s s' : LedgerState} {c : Change}
  {id : AccountID} {n : SequenceNumber}

/-- `LedgerManagerImpl::closeLedger` (747–860) with a value that has no upgrades: the header of the
next ledger, the fees and the transactions. Hashes, history and metrics are left out. -/
def closeLedger (env : TxEnv) (crypto : Crypto) (closeTime : Nat)
    (txs : List TransactionEnvelope) : TxM Unit := do
  let header ← loadHeader
  storeHeader { header with ledgerSeq := (header.ledgerSeq + 1) % 2 ^ 32, closeTime := closeTime }
  closeTransactions env crypto txs

/-- Ledgers that are closed one after the other, each with its close time -/
def closeLedgers (env : TxEnv) (crypto : Crypto) : List (Nat × List TransactionEnvelope) → TxM Unit
  | [] => pure ()
  | (closeTime, txs) :: ledgers => do
    closeLedger env crypto closeTime txs
    closeLedgers env crypto ledgers

/-! ## Sequence numbers -/

/-- The sequence number of an account has got to `n`; if the account is gone, one that is created
now starts beyond it. -/
structure SeqFrom (id : AccountID) (n : SequenceNumber) (s : LedgerState) : Prop where
  version : 10 ≤ s.header.ledgerVersion
  there : ∀ acc, s.account id = some acc → n ≤ acc.seqNum
  gone : s.account id = none → n < getStartingSequenceNumber s.header

theorem Step.header_eq (h : Step s c s') : s'.header.ledgerSeq = s.header.ledgerSeq := by
  cases h with
  | header _ hseq => exact hseq
  | _ => rfl

theorem Step.seqFrom (h : Step s c s') (hs : SeqFrom id n s) : SeqFrom id n s' := by
  have hstart : getStartingSequenceNumber s'.header = getStartingSequenceNumber s.header := by
    unfold getStartingSequenceNumber
    rw [h.header_eq]
  refine ⟨h.header_congr.1.symm ▸ hs.version, fun acc hacc => ?_, fun hnone => ?_⟩
  · rcases h.account hacc with ⟨acc₀, hacc₀, hupdates⟩ | rfl
    · have hle := hs.there acc₀ hacc₀
      cases hupdates with
      | same => exact hle
      | native hadd => exact (AccountEntry.mk.inj (AccountEntry.add_core hadd)).2.2.1 ▸ hle
      | numEntries hadd => exact (addNumEntries_keeps hadd).1.seqNum ▸ hle
      | settings _ _ _ _ hseq => exact hle.trans hseq
    · obtain rfl := s'.accountID_of_account hacc
      cases h with
      | createAccount hnone _ _ _ _ hseq =>
        rw [hseq]
        exact (hs.gone (s.account_eq_none_iff.mpr hnone)).le
  · rw [hstart]
    by_contra hle
    -- a merge takes an account away only before its number reaches the next start
    have hkeeps : ∀ acc, c = .eraseAccount acc → acc.accountID ≠ id := by
      rintro acc rfl rfl
      cases h with
      | eraseAccount hacc _ hseq => exact hle ((hs.there acc hacc).trans_lt (hseq hs.version))
    have hsome : ∃ acc, s.account id = some acc :=
      Option.ne_none_iff_exists'.mp fun hacc => hle (hs.gone hacc)
    obtain ⟨acc', hacc'⟩ := h.exists_account hkeeps hsome
    rw [hnone] at hacc'
    cases hacc'

/-- Charging fees leaves sequence numbers alone. -/
theorem processFeesSeqNums_seqFrom (txs : List TransactionEnvelope) (hs : SeqFrom id n s) :
    wlp (processFeesSeqNums txs)
      (fun _ s' => SeqFrom id n s' ∧ s'.header.ledgerSeq = s.header.ledgerSeq) s := by
  induction txs generalizing s with
  | nil => exact ⟨hs, rfl⟩
  | cons envelope txs ih =>
    rw [processFeesSeqNums, processFeeSeqNum]
    simp only [wlp, wp_bind, wp_loadHeader, wp_loadAccount, wp_orThrow, wp_ite, wp_lift, wp_store,
      wp_storeHeader, wp_pure, implies_true, and_true]
    refine fun acc hacc => ⟨fun _ balance _ => ?_, fun _ => ih hs⟩
    refine ih ⟨hs.version, fun acc' hacc' => ?_, fun hnone => ?_⟩
    · rw [account, lookup_setHeader, ← account, s.account_put_account] at hacc'
      split at hacc'
      · rename_i hid
        cases hacc'
        refine hs.there acc ?_
        rw [hid]
        exact s.accountID_of_account hacc ▸ hacc
      · exact hs.there acc' hacc'
    · rw [account, lookup_setHeader, ← account, s.account_put_account] at hnone
      split at hnone
      · cases hnone
      · exact hs.gone hnone

theorem closeTransactions_seqFrom (txs : List TransactionEnvelope) (hs : SeqFrom id n s) :
    wlp (closeTransactions env crypto txs)
      (fun _ s' => SeqFrom id n s' ∧ s'.header.ledgerSeq = s.header.ledgerSeq) s := by
  rw [closeTransactions, wlp, wp_bind]
  refine wp_nested ((processFeesSeqNums_seqFrom txs hs).imp fun _ s₁ h => ?_)
  refine (applyTransactions_moves txs s₁).imp fun _ s₂ hmoves => ?_
  obtain ⟨_, -, hjournal, -⟩ := hmoves
  refine hjournal.preserves (P := fun s' => SeqFrom id n s' ∧
    s'.header.ledgerSeq = s.header.ledgerSeq) (fun s c s' hstep hs => ?_) h
  exact ⟨hstep.seqFrom hs.1, hstep.header_eq.trans hs.2⟩

theorem getStartingSequenceNumber_eq {header : LedgerHeader} (h : header.ledgerSeq < 2 ^ 31) :
    getStartingSequenceNumber header = header.ledgerSeq * 2 ^ 32 := by
  refine Int.bmod_eq_of_le ?_ ?_ <;> omega

theorem closeLedger_seqFrom {closeTime : Nat} {txs : List TransactionEnvelope}
    (hseq : s.header.ledgerSeq + 1 < 2 ^ 31) (hs : SeqFrom id n s) :
    wlp (closeLedger env crypto closeTime txs)
      (fun _ s' => SeqFrom id n s' ∧ s'.header.ledgerSeq = s.header.ledgerSeq + 1) s := by
  rw [closeLedger, wlp, wp_bind, wp_loadHeader, wp_bind, wp_storeHeader,
    Nat.mod_eq_of_lt (hseq.trans (by decide))]
  refine closeTransactions_seqFrom txs ⟨hs.version, hs.there, fun hnone => ?_⟩
  have hbefore := hs.gone hnone
  rw [getStartingSequenceNumber_eq (by omega)] at hbefore
  rw [getStartingSequenceNumber_eq hseq]
  refine hbefore.trans (Int.mul_lt_mul_of_pos_right ?_ (by decide))
  exact Int.ofNat_lt.mpr (Nat.lt_succ_self _)

/-- **Sequence numbers**: at protocol 10 and later, over any number of ledgers, the sequence number
of an account never falls, also if the account is merged and created again. -/
theorem seqNums_never_fall (env : TxEnv) (crypto : Crypto)
    (ledgers : List (Nat × List TransactionEnvelope)) (s : LedgerState)
    (hversion : 10 ≤ s.header.ledgerVersion)
    (hseq : s.header.ledgerSeq + ledgers.length < 2 ^ 31) :
    wlp (closeLedgers env crypto ledgers) (fun _ s' => ∀ id acc acc', s.account id = some acc →
      s'.account id = some acc' → acc.seqNum ≤ acc'.seqNum) s := by
  have hrun : ∀ id n, SeqFrom id n s →
      wlp (closeLedgers env crypto ledgers) (fun _ s' => SeqFrom id n s') s := by
    intro id n hs
    clear hversion
    induction ledgers generalizing s with
    | nil => exact hs
    | cons ledger ledgers ih =>
      rw [length_cons] at hseq
      refine (closeLedger_seqFrom (by omega) hs).bind fun _ s₁ h => ih s₁ ?_ h.1
      omega
  rw [wlp_iff]
  intro _ s' hclose id acc acc' hacc
  refine ((hrun id acc.seqNum ⟨hversion, fun _ h => ?_, fun hnone => ?_⟩).of_ok hclose).there acc'
  · rw [hacc] at h
    exact (congrArg AccountEntry.seqNum (Option.some.inj h)).le
  · rw [hacc] at hnone
    cases hnone

theorem seqNums_never_fall_soleHolder : (soleHolder 500 100).header.ledgerSeq + 2 < 2 ^ 31 ∧
    ∀ env crypto txs txs', wlp (closeLedgers env crypto [(105, txs), (110, txs')])
      (fun _ s' => ∀ acc, s'.account 1 = some acc → 0 ≤ acc.seqNum) (soleHolder 500 100) := by
  have hseq : (soleHolder 500 100).header.ledgerSeq + 2 < 2 ^ 31 := by decide
  refine ⟨hseq, fun env crypto txs txs' => ?_⟩
  exact (seqNums_never_fall env crypto [(105, txs), (110, txs')] _ (by decide) hseq).imp
    fun _ _ h acc hacc => h 1 _ acc rfl hacc

end EssaCore.Transactions
