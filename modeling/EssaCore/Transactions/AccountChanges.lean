import EssaCore.Transactions.AccountOps
import EssaCore.Transactions.CrossOffer
import EssaCore.Transactions.TrustOps

/-!
# What operations on accounts and trust lines change

The changes that the operations of `AccountOps` and `TrustOps` make when they succeed. They
are lists that can be read off the operation, but for the offers that `AllowTrustOp` deletes
and the winners of the inflation.

- `CreateAccountOp.doApply_journal`, ... — the changes of an operation;
- `deletions` — the changes by which offers are deleted;
- `Doles` — what the winners of the inflation get.
-/

open List Option

namespace EssaCore.Transactions

open Ledger Lib LedgerState AccountEntry

variable {s s' : LedgerState} {sourceID : AccountID}

/-! ## Accounts -/

theorem header_of_step {c : Change} (h : Step s c s')
    (hc : ∀ h₁ h₂, c ≠ .header h₁ h₂) : s'.header = s.header := by
  cases h with
  | header => exact absurd rfl (hc _ _)
  | _ => rfl

theorem header_of_journal {cs : List Change} (h : Journal s cs s')
    (hcs : ∀ c ∈ cs, ∀ h₁ h₂, c ≠ .header h₁ h₂) : s'.header = s.header := by
  refine h.preserves_of_mem (P := fun s' => s'.header = s.header)
    (fun s₁ c s₂ hstep hc hs₁ => ?_) hcs rfl
  rw [header_of_step hstep hc, hs₁]

theorem CreateAccountOp.doApply_journal {op : CreateAccountOp} (hpos : 0 < op.startingBalance) :
    wlp (op.doApply sourceID) (fun _ s' => Journal s
      [.amount .balance sourceID .native (-op.startingBalance),
        .createAccount (op.newAccount s.header)] s') s := by
  simp only [doApply, wp_bind, wp_failIf, wp_current, implies_true,
    and_true, true_and]
  intro hnone hreserve acc hacc hfunds
  refine wp_addAccountBalance ⟨fun s₁ hpaid => ?_, fun _ => ⟨?_, fun _ => trivial⟩⟩
  · simp only [wp_lift, wp_create, implies_true, and_true, true_and]
    intro _ _ hlookup
    refine .cons hpaid (.single ?_)
    have hheader := header_of_step hpaid (by simp)
    rw [← hheader] at hlookup ⊢
    exact .createAccount hlookup rfl rfl rfl hpos.le (by simp [newAccount])
  · simp only [wp_lift, implies_true, and_true]
    exact fun _ h => absurd (assert_eq_ok.mp h) Bool.false_ne_true

theorem account_of_step_ne {q : Quantity} {id id' : AccountID} {asset : Asset}
    {delta : Int} (h : Step s (.amount q id asset delta) s') (hid : id' ≠ id) :
    s'.account id' = s.account id' := by
  unfold account
  rw [h.lookup_of_ne]
  intro hkey
  have hkey := some.inj hkey
  unfold assetKey at hkey
  split at hkey
  · exact hid (LedgerKey.account.inj hkey).symm
  · cases hkey

theorem MergeOp.doApply_journal {op : MergeOp} (hne : sourceID ≠ op.destination) :
    wlp (op.doApply sourceID) (fun _ s' => ∃ acc, s.account sourceID = some acc ∧ Journal s
      [.amount .balance op.destination .native acc.balance, .eraseAccount acc] s') s := by
  simp only [doApply, wp_bind, wp_failIf, wp_current, implies_true,
    and_true, true_and]
  intro _ acc hacc _ hentries hseq
  refine wp_addAccountBalance ⟨fun s₁ hpaid => ?_, fun _ => ⟨?_, fun _ => trivial⟩⟩
  · intro _
    refine ⟨acc, hacc, .cons hpaid (.single ?_)⟩
    obtain rfl := s.accountID_of_account hacc
    refine .eraseAccount ?_ (not_not.mp hentries) ?_
    · rw [account_of_step_ne hpaid hne, hacc]
    · rw [header_of_step hpaid (by simp)]
      exact fun hversion => not_le.mp fun hle => hseq ⟨hversion, hle⟩
  · exact fun h => absurd rfl h

/-! ## Options -/

end EssaCore.Transactions

namespace EssaCore.Ledger

open Transactions

/-- The account with another number of sub-entries -/
def AccountEntry.withEntries (acc : AccountEntry) (numSubEntries : Nat) : AccountEntry :=
  { acc with numSubEntries := numSubEntries }

/-- An account whose amounts, sequence number and owner are kept -/
structure AccountEntry.Keeps (acc acc' : AccountEntry) : Prop where
  accountID : acc'.accountID = acc.accountID
  balance : acc'.balance = acc.balance
  ext : acc'.ext = acc.ext
  seqNum : acc'.seqNum = acc.seqNum

theorem AccountEntry.Keeps.trans {acc acc' acc'' : AccountEntry} (h : acc.Keeps acc')
    (h' : acc'.Keeps acc'') : acc.Keeps acc'' :=
  ⟨h'.1.trans h.1, h'.2.trans h.2, h'.3.trans h.3, h'.4.trans h.4⟩

/-- Two writes of one account -/
theorem LedgerState.put_put_account (s : LedgerState) {a b : AccountEntry}
    (h : a.accountID = b.accountID) :
    (s.put (.account a)).put (.account b) = s.put (.account b) := by
  unfold put
  simp [LedgerEntryData.key, h]

end EssaCore.Ledger

namespace EssaCore.Transactions

open Ledger Lib

variable {s s' : LedgerState} {sourceID : AccountID}

section Counts

variable {header : LedgerHeader} {acc acc' : AccountEntry} {n m : Nat} {counts : List Int}

/-- The number of sub-entries of an account changes by one count after the other. -/
inductive Counts (header : LedgerHeader) (acc : AccountEntry) : Nat → List Int → Nat → Prop
  | nil (n : Nat) : Counts header acc n [] n
  | cons {n n' m : Nat} {count : Int} {counts : List Int}
      (hadd : (acc.withEntries n).addNumEntries header count = .ok (some (acc.withEntries n')))
      (h : Counts header acc n' counts m) : Counts header acc n (count :: counts) m

theorem addNumEntries_keeps {count : Int} (h : acc.addNumEntries header count = .ok (some acc')) :
    acc.Keeps acc' ∧ acc'.signers = acc.signers := by
  obtain ⟨-, -, rfl⟩ := AccountEntry.addNumEntries_eq_some.mp h
  exact ⟨⟨rfl, rfl, rfl, rfl⟩, rfl⟩

/-- Adding to the sub-entries is a question of balance and selling liabilities. -/
theorem addNumEntries_congr {acc₁ : AccountEntry} {count : Int}
    (h : acc.addNumEntries header count = .ok (some acc₁)) (hbalance : acc'.balance = acc.balance)
    (hext : acc'.ext = acc.ext) (hentries : acc'.numSubEntries = acc.numSubEntries) :
    acc'.addNumEntries header count = .ok (some (acc'.withEntries acc₁.numSubEntries)) := by
  obtain ⟨_, _, rfl⟩ := AccountEntry.addNumEntries_eq_some.mp h
  have hnew : acc'.newEntriesCount count = acc.newEntriesCount count := by
    simp [AccountEntry.newEntriesCount, hentries]
  have hliabilities : acc'.getSellingLiabilities = acc.getSellingLiabilities := by
    simp [AccountEntry.getSellingLiabilities, hext]
  refine AccountEntry.addNumEntries_eq_some.mpr ⟨?_, ?_, ?_⟩
  · rwa [hnew]
  · rwa [hnew, hbalance, hliabilities]
  · rw [hnew]
    rfl

theorem Counts.congr (h : Counts header acc n counts m) (hbalance : acc'.balance = acc.balance)
    (hext : acc'.ext = acc.ext) : Counts header acc' n counts m := by
  induction h with
  | nil n => exact .nil n
  | cons hadd _ ih => exact .cons (addNumEntries_congr hadd hbalance hext rfl) ih

theorem Counts.journal (h : Counts s.header acc n counts m) :
    Journal (s.put (.account (acc.withEntries n))) (counts.map (.numEntries acc.accountID))
      (s.put (.account (acc.withEntries m))) := by
  induction h with
  | nil n => exact .nil _
  | @cons n n' m count counts hadd _ ih =>
    have hput : (s.put (.account (acc.withEntries n))).put (.account (acc.withEntries n')) =
        s.put (.account (acc.withEntries n')) := s.put_put_account rfl
    refine .cons ?_ ih
    rw [← hput]
    exact .numEntries ((LedgerState.account_eq_some_iff).mpr LedgerState.lookup_put_self) hadd

theorem removeNumEntry_eq_ok (h : removeNumEntry header acc = .ok acc') :
    acc.addNumEntries header (-1) = .ok (some acc') := by
  obtain ⟨removed, hadd, hremoved⟩ := bind_eq_ok.mp h
  obtain rfl : removed.getD acc = acc' := Except.ok.inj hremoved
  cases removed with
  | some => exact hadd
  | none =>
    unfold AccountEntry.addNumEntries at hadd
    split at hadd <;> cases hadd

/-- The loop that deletes a signer drops the signers with its key, and counts them. -/
theorem eraseSigners_counts {key : SignerKey} {signers kept : List Signer}
    (h : eraseSigners header key signers kept acc = .ok acc') :
    ∃ n m, acc' = { acc with
        signers := kept ++ signers.filter (·.key ≠ key), numSubEntries := m } ∧
      Counts header acc acc.numSubEntries (List.replicate n (-1)) m ∧
      signers.length = (signers.filter (·.key ≠ key)).length + n := by
  induction signers generalizing kept acc with
  | nil =>
    obtain rfl := Except.ok.inj h
    exact ⟨0, _, by simp, .nil _, rfl⟩
  | cons oldSigner signers ih =>
    unfold eraseSigners at h
    split at h
    · rename_i hkey
      obtain ⟨_, hremove, h⟩ := bind_eq_ok.mp h
      have hadd := removeNumEntry_eq_ok hremove
      obtain ⟨-, -, rfl⟩ := AccountEntry.addNumEntries_eq_some.mp hadd
      obtain ⟨n, m, rfl, hcounts, hlength⟩ := ih h
      have hfirst : (acc.withEntries acc.numSubEntries).addNumEntries header (-1) =
          .ok (some (acc.withEntries (acc.newEntriesCount (-1)).toNat)) :=
        addNumEntries_congr hadd rfl rfl rfl
      have hfilter : (oldSigner :: signers).filter (·.key ≠ key) =
          signers.filter (·.key ≠ key) := filter_cons_of_neg (by simp [hkey])
      have hrest : Counts header acc (acc.newEntriesCount (-1)).toNat (List.replicate n (-1)) m :=
        hcounts.congr rfl rfl
      refine ⟨n + 1, m, by rw [hfilter], .cons hfirst hrest, ?_⟩
      rw [hfilter, length_cons, hlength, Nat.add_assoc]
    · rename_i hkey
      obtain ⟨n, m, rfl, hcounts, hlength⟩ := ih h
      have hfilter : (oldSigner :: signers).filter (·.key ≠ key) =
          oldSigner :: signers.filter (·.key ≠ key) := filter_cons_of_pos (by simp [hkey])
      refine ⟨n, m, by rw [hfilter]; simp, hcounts, ?_⟩
      rw [hfilter, length_cons, length_cons]
      omega

end Counts

namespace SetOptionsOp

variable {op : SetOptionsOp} {acc : AccountEntry}

/-- An account whose flags, thresholds and the like are set -/
structure Tunes (acc acc' : AccountEntry) : Prop where
  keeps : acc.Keeps acc'
  entries : acc'.numSubEntries = acc.numSubEntries
  signers : acc'.signers = acc.signers

theorem Tunes.refl (acc : AccountEntry) : Tunes acc acc := ⟨⟨rfl, rfl, rfl, rfl⟩, rfl, rfl⟩

theorem Tunes.trans {acc acc' acc'' : AccountEntry} (h : Tunes acc acc') (h' : Tunes acc' acc'') :
    Tunes acc acc'' :=
  ⟨h.keeps.trans h'.keeps, h'.entries.trans h.entries, h'.signers.trans h.signers⟩

theorem wlp_setInflationDest : wlp (op.setInflationDest sourceID acc)
    (fun acc' s' => s' = s ∧ Tunes acc acc') s := by
  unfold setInflationDest
  split
  · exact ⟨rfl, .refl acc⟩
  · simp only [wp_bind, wp_loadAccount, wp_failIf, wp_pure, implies_true, true_and]
    exact fun _ => ⟨⟨rfl, rfl, rfl, rfl⟩, rfl, rfl⟩

theorem wlp_changeFlags {flags : Option Nat} {change : Nat → Nat → Nat} :
    wlp (changeFlags flags change acc) (fun acc' s' => s' = s ∧ Tunes acc acc') s := by
  unfold changeFlags
  split
  · exact ⟨rfl, .refl acc⟩
  · simp only [wp_bind, wp_failIf, wp_pure, implies_true, true_and]
    exact fun _ => ⟨⟨rfl, rfl, rfl, rfl⟩, rfl, rfl⟩

/-- Signers are set, and the sub-entries count them. -/
structure Signs (header : LedgerHeader) (acc : AccountEntry) (counts : List Int)
    (acc' : AccountEntry) : Prop where
  keeps : acc.Keeps acc'
  entries : Counts header acc acc.numSubEntries counts acc'.numSubEntries
  one : counts = [1] ∨ ∀ count ∈ counts, count = -1
  signers : (acc'.signers.length : Int) = acc.signers.length + counts.sum

variable {header : LedgerHeader}

theorem Signs.normalize {acc' : AccountEntry} {counts : List Int}
    (h : Signs header acc counts acc') : Signs header acc counts (normalizeSigners acc') where
  keeps := ⟨h.keeps.1, h.keeps.2, h.keeps.3, h.keeps.4⟩
  entries := h.entries
  one := h.one
  signers := by
    rw [← h.signers, normalizeSigners, length_mergeSort]

theorem wlp_addSigner {signer : Signer} : wlp (addSigner header signer acc)
      (fun acc' s' => s' = s ∧ ∃ counts, Signs header acc counts acc') s := by
  rw [addSigner, wlp, wp_ite]
  refine ⟨fun _ => ⟨rfl, [], ⟨rfl, rfl, rfl, rfl⟩, .nil _, by simp, by simp⟩, fun _ => ?_⟩
  rw [wp_bind, wp_failIf]
  refine ⟨fun _ => trivial, fun _ => ?_⟩
  rw [wp_bind, wp_lift]
  refine ⟨fun added hadd => ?_, fun _ _ => trivial⟩
  rw [wp_bind, wp_orFail]
  refine ⟨fun acc' hadded => ?_, fun _ => trivial⟩
  rw [hadded] at hadd
  have hcounts : Counts header acc acc.numSubEntries [1] acc'.numSubEntries :=
    .cons (addNumEntries_congr hadd rfl rfl rfl) (.nil _)
  obtain ⟨hkeeps, hsigners⟩ := addNumEntries_keeps hadd
  exact ⟨rfl, [1], ⟨hkeeps.1, hkeeps.2, hkeeps.3, hkeeps.4⟩, hcounts, by simp, by simp [hsigners]⟩

theorem wlp_setSigner : wlp (op.setSigner header acc)
    (fun acc' s' => s' = s ∧ ∃ counts, Signs header acc counts acc') s := by
  unfold setSigner
  split
  · exact ⟨rfl, [], ⟨rfl, rfl, rfl, rfl⟩, .nil _, by simp, by simp⟩
  · split
    · refine wlp_addSigner.bind ?_
      rintro acc' s' ⟨rfl, counts, hsigns⟩
      exact ⟨rfl, counts, hsigns.normalize⟩
    · simp only [wp_bind, wp_lift, wp_pure, implies_true, and_true, true_and]
      intro acc' herase
      obtain ⟨n, m, rfl, hcounts, hlength⟩ := eraseSigners_counts herase
      refine ⟨List.replicate n (-1), Signs.normalize ⟨⟨rfl, rfl, rfl, rfl⟩, hcounts, ?_, ?_⟩⟩
      · exact .inr fun count hcount => eq_of_mem_replicate hcount
      simp only [hlength]
      simp

theorem doApply_journal : wlp (op.doApply sourceID) (fun _ s' => ∃ (acc acc' : AccountEntry)
    (counts : List Int), acc.accountID = sourceID ∧ (counts = [1] ∨ ∀ count ∈ counts, count = -1) ∧
    (acc'.signers.length : Int) = acc.signers.length + counts.sum ∧ Journal s
      (.settings acc acc' :: counts.map (.numEntries sourceID)) s') s := by
  simp only [doApply, wp_bind, wp_current, implies_true, and_true]
  intro acc hacc
  refine wlp_setInflationDest.imp ?_
  rintro acc₁ _ ⟨rfl, htunes₁⟩
  refine wlp_changeFlags.imp ?_
  rintro acc₂ _ ⟨rfl, htunes₂⟩
  refine wlp_changeFlags.imp ?_
  rintro acc₃ s ⟨rfl, htunes₃⟩
  refine wlp_setSigner.imp ?_
  rintro acc' s ⟨rfl, counts, hsigns⟩
  have htunes : Tunes acc (op.setPlain acc₃) :=
    ((htunes₁.trans htunes₂).trans htunes₃).trans ⟨⟨rfl, rfl, rfl, rfl⟩, rfl, rfl⟩
  have hkeeps := htunes.keeps.trans hsigns.keeps
  have hid := s.accountID_of_account hacc
  refine ⟨acc, acc'.withEntries acc.numSubEntries, counts, hid, hsigns.one, ?_,
    .cons (.settings ?_ hkeeps.accountID
    hkeeps.balance hkeeps.ext rfl hkeeps.seqNum.ge) ?_⟩
  · rw [← htunes.signers]
    exact hsigns.signers
  · rw [hid, hacc]
  · have hcounts := hsigns.entries.congr hsigns.keeps.balance hsigns.keeps.ext
    rw [htunes.entries] at hcounts
    rw [← hid, ← hkeeps.accountID]
    exact hcounts.journal

end SetOptionsOp

/-! ## Data and sequence numbers -/

theorem ManageDataOp.doApply_journal {op : ManageDataOp} :
    wlp (op.doApply sourceID) (fun _ s' => ∃ d : DataEntry, d.accountID = sourceID ∧
      d.dataName = op.dataName ∧ (Journal s [.numEntries sourceID 1, .createData d] s' ∨
        (∃ d', Journal s [.setData d d'] s') ∨
        Journal s [.eraseData d, .numEntries sourceID (-1)] s')) s := by
  simp only [doApply, wp_bind, wp_loadData]
  split
  · simp only [createData, wp_bind]
    refine wp_addNumEntries ⟨fun s₁ hstep => ?_, fun _ => ⟨?_, fun _ => trivial⟩⟩
    · simp only [wp_failIf, wp_create, implies_true, true_and]
      intro _ hnone
      exact ⟨_, rfl, rfl, .inl (.cons hstep (.single (.createData hnone)))⟩
    · rw [wp_failIf]
      exact ⟨fun _ => trivial, fun h => absurd rfl h⟩
  · rename_i value data _ hdata
    obtain ⟨rfl, hname⟩ := s.key_of_data hdata
    refine ⟨data, rfl, hname, .inr (.inl ⟨_, .single (.setData ?_ rfl rfl)⟩)⟩
    rw [hname, hdata]
  · trivial
  · rename_i data _ hdata
    simp only [wp_bind]
    obtain ⟨rfl, hname⟩ := s.key_of_data hdata
    refine wp_removeEntry (fun s' hstep => ?_) fun _ _ => trivial
    refine ⟨data, rfl, hname, .inr (.inr (.cons ?_ (.single hstep)))⟩
    rw [← hname] at hdata ⊢
    exact .eraseData hdata

theorem BumpSequenceOp.doApply_journal {op : BumpSequenceOp} :
    wlp (op.doApply sourceID) (fun _ s' => Journal s [] s' ∨
      ∃ acc : AccountEntry, acc.seqNum < op.bumpTo ∧
        Journal s [.settings acc { acc with seqNum := op.bumpTo }] s') s := by
  simp only [doApply, wp_bind, wp_current, implies_true, and_true]
  intro acc hacc
  split
  · rename_i hbump
    obtain rfl := s.accountID_of_account hacc
    have hstep : Step s (.settings acc { acc with seqNum := op.bumpTo }) _ :=
      .settings hacc rfl rfl rfl rfl (le_of_lt hbump)
    exact .inr ⟨acc, hbump, .single hstep⟩
  · exact .inl (.nil s)

/-! ## Inflation -/

namespace Inflation

/-- Balances of accounts change. -/
def Credits (cs : List Change) : Prop := ∀ c ∈ cs, ∃ id delta, c = .amount .balance id .native delta

theorem wlp_doleWinner {w : InflationWinner} {amountToDole totalVotes left : Int} :
    wlp (doleWinner w amountToDole totalVotes left) (fun left' s' => ∃ cs, Credits cs ∧
      2 ^ 64 ∣ left' + (cs.map Change.coins).sum - left ∧ Journal s cs s') s := by
  have hnothing : ∃ cs, Credits cs ∧ 2 ^ 64 ∣ left + (cs.map Change.coins).sum - left ∧
      Journal s cs s := ⟨[], forall_mem_nil _, by simp, .nil s⟩
  unfold doleWinner
  rw [wlp, wp_bind, wp_lift]
  refine ⟨fun toDole _ => ?_, fun _ _ => trivial⟩
  split
  · exact hnothing
  · simp only [wp_bind, wp_loadHeader, wp_loadAccount]
    split
    · exact hnothing
    · unfold creditWinner
      split
      · exact hnothing
      · rw [wp_bind]
        refine wp_addAccountBalance ⟨fun s' hstep => ?_, fun _ => ⟨?_, fun _ => trivial⟩⟩
        · rw [wp_bind, wp_throwIf]
          refine ⟨by simp, fun _ => ⟨_, ?_, ?_, .single hstep⟩⟩
          · intro c hc
            exact ⟨_, _, mem_singleton.mp hc⟩
          · simpa [Change.coins, sub_add_eq_sub_sub, sub_sub_eq_add_sub] using int64_dvd (left - _)
        · rw [wp_bind, wp_throwIf]
          exact ⟨fun _ => trivial, fun h => absurd rfl h⟩

theorem wlp_dole {amountToDole totalVotes left : Int} {winners : List InflationWinner} :
    wlp (dole amountToDole totalVotes winners left) (fun left' s' => ∃ cs, Credits cs ∧
      2 ^ 64 ∣ left' + (cs.map Change.coins).sum - left ∧ Journal s cs s') s := by
  induction winners generalizing s left with
  | nil => exact ⟨[], forall_mem_nil _, by simp, .nil s⟩
  | cons w winners ih =>
    rw [dole]
    refine wlp_doleWinner.bind ?_
    rintro left₁ s₁ ⟨cs₁, hcs₁, hleft₁, hjournal₁⟩
    refine ih.imp ?_
    rintro left₂ s₂ ⟨cs₂, hcs₂, hleft₂, hjournal₂⟩
    refine ⟨cs₁ ++ cs₂, ?_, ?_, hjournal₁.append hjournal₂⟩
    · exact fun c hc => (mem_append.mp hc).elim (hcs₁ c) (hcs₂ c)
    · rw [map_append, sum_append]
      omega

theorem header_of_credits {cs : List Change} (hcs : Credits cs)
    (h : Journal s cs s') : s'.header = s.header := by
  refine header_of_journal h fun c hc => ?_
  obtain ⟨-, -, rfl⟩ := hcs c hc
  exact nofun

/-- Inflation empties the fee pool, credits accounts, and then adds what it has made to the coins
and what is left to the pool. Sums may wrap, so the coins only add up modulo `2 ^ 64`. -/
theorem doApply_journal {env : TxEnv} {a : Unit}
    (h : doApply env s = .ok a s') : ∃ cs h₁ h₂, Credits cs ∧
    (2 ^ 64 ∣ h₂.totalCoins - h₂.feePool -
      (s.header.totalCoins - s.header.feePool + (cs.map Change.coins).sum)) ∧
    (h₁.totalCoins = s.header.totalCoins ∧ int64 h₂.totalCoins = h₂.totalCoins) ∧
    Journal s (.header s.header h₁ :: (cs ++ [.header h₁ h₂])) s' := by
  revert s'
  revert a
  rw [← wlp_iff]
  unfold doApply
  rw [wlp, wp_bind, wp_loadHeader, wp_bind, wp_failIf]
  refine ⟨fun _ => trivial, fun _ => ?_⟩
  rw [wp_bind, wp_lift]
  refine ⟨fun minBalance _ => ?_, fun _ _ => trivial⟩
  rw [wp_bind, wp_get, wp_bind, wp_lift]
  refine ⟨fun inflationAmount _ => ?_, fun _ _ => trivial⟩
  rw [wp_bind, wp_storeHeader, wp_bind]
  generalize hh₁ : ({ s.header with
    feePool := 0, inflationSeq := (s.header.inflationSeq + 1) % 2 ^ 32 }) = h₁
  have hfirst : Step s (.header s.header h₁) (s.setHeader h₁) := by
    subst hh₁
    exact .header rfl rfl rfl
  refine wlp_dole.imp ?_
  rintro left s₁ ⟨cs, hcs, hleft, hjournal⟩
  have hheader : s₁.header = h₁ := header_of_credits hcs hjournal
  rw [wp_bind, wp_loadHeader, hheader]
  generalize hh₂ : ({ h₁ with
    feePool := int64 (h₁.feePool + left)
    totalCoins := int64 (h₁.totalCoins + inflationAmount) }) = h₂
  have hlast : Step s₁ (.header h₁ h₂) (s₁.setHeader h₂) := by
    subst hh₂ hheader
    exact .header rfl rfl rfl
  refine ⟨cs, h₁, h₂, hcs, ?_, ?_, .cons hfirst (hjournal.append (.single hlast))⟩
  · have hpool := int64_dvd (h₁.feePool + left)
    have htotal := int64_dvd (h₁.totalCoins + inflationAmount)
    have hdole := int64_dvd (inflationAmount + s.header.feePool)
    subst hh₂ hh₁
    simp only at *
    omega
  · subst hh₂ hh₁
    exact ⟨rfl, int64_int64 _⟩

end Inflation

/-! ## Trust lines -/

theorem ChangeTrustOp.doApply_journal {op : ChangeTrustOp} (hline : op.line ≠ .native)
    (hlimit : 0 ≤ op.limit) :
    wlp (op.doApply sourceID) (fun _ s' => ∃ tl : TrustLineEntry,
      tl.accountID = sourceID ∧ tl.asset = op.line ∧ getIssuer op.line ≠ sourceID ∧
      (Journal s [.eraseTrustLine tl, .numEntries sourceID (-1)] s' ∨
        (op.limit ≠ 0 ∧ Journal s [.setLimit tl op.limit] s') ∨
        (op.limit ≠ 0 ∧ (∃ issuer, tl = op.newLine sourceID issuer) ∧
          Journal s [.numEntries sourceID 1, .createTrustLine tl] s'))) s := by
  simp only [doApply, wp_bind, wp_failIf, wp_get, implies_true, true_and]
  intro hissuer
  split
  · rename_i tl htl
    obtain ⟨hid, hasset⟩ := s.key_of_trustLine htl
    simp only [modifyLine, wp_bind, wp_failIf, implies_true, true_and]
    intro hmin
    split
    · rename_i hzero
      rw [wp_bind, wp_eraseEntry, wp_bind]
      refine wp_removeEntry (fun s' hstep => ?_) fun _ _ => trivial
      refine ⟨tl, hid, hasset, hissuer, .inl (.cons ?_ (.single hstep))⟩
      rw [← hid, ← hasset] at htl ⊢
      exact .eraseTrustLine htl (hzero ▸ not_lt.mp hmin)
    · rename_i hzero
      simp only [wp_bind, wp_failIf, implies_true, true_and]
      intro _
      refine ⟨tl, hid, hasset, hissuer, .inr (.inl ⟨hzero, .single ?_⟩)⟩
      rw [← hid, ← hasset] at htl
      exact .setLimit htl (not_lt.mp hmin)
  · simp only [createLine, wp_bind, wp_failIf, wp_orFail, implies_true, true_and,
      and_true]
    intro hzero issuer _
    refine wp_addNumEntries ⟨fun s₁ hstep => ?_, fun _ => ⟨?_, fun _ => trivial⟩⟩
    · simp only [wp_create, implies_true, true_and]
      intro _ hnone
      exact ⟨_, rfl, rfl, hissuer, .inr (.inr ⟨hzero, ⟨issuer, rfl⟩, .cons hstep (.single
        (.createTrustLine hnone hline rfl rfl hlimit))⟩)⟩
    · exact fun h => absurd rfl h

namespace AllowTrustOp

/-- The changes by which an offer is deleted -/
def deletion (o : OfferEntry) : List Change :=
  liabilityChanges o false ++ [.numEntries o.sellerID (-1), .eraseOffer o]

/-- The changes by which offers are deleted, one after the other -/
def deletions (os : List OfferEntry) : List Change := os.flatMap deletion

/-- An offer can be deleted. -/
structure CanDelete (s : LedgerState) (o : OfferEntry) : Prop where
  release : CanChangeLiabilities s o false
  remove : ∀ s', Journal s (liabilityChanges o false) s' → Can s' (.numEntries o.sellerID (-1))

variable {Q : Unit → LedgerState → Prop}

section Delete

variable {trustor : AccountID} {ci : Asset} {o : OfferEntry} {os : List OfferEntry}
  {E : TxError → LedgerState → Prop}

theorem wp_deleteOffer (ho : s.offer o.sellerID o.offerID = some o) (hseller : o.sellerID = trustor)
    (hasset : o.buying = ci ∨ o.selling = ci) (hok : ∀ s', Journal s (deletion o) s' → Q () s')
    (hnot : ¬ CanDelete s o → ∀ e s', E e s') : wp (deleteOffer trustor ci o) Q E s := by
  subst hseller
  simp only [deleteOffer, wp_bind, wp_throwIf]
  refine ⟨fun h => absurd rfl h, fun _ => ⟨fun h => absurd hasset h, fun _ => ?_⟩⟩
  refine wp_acquireOrReleaseLiabilities (fun s₁ _ _ hrelease => ?_) fun h => hnot fun hcan =>
    h hcan.release
  refine wp_removeEntry (fun s₂ hremove => ?_) fun h => ?_
  · refine hok _ (hrelease.append (.cons hremove (.single (.eraseOffer ?_))))
    have hlookup : s₂.lookup (.offer o.sellerID o.offerID) =
        s₁.lookup (.offer o.sellerID o.offerID) := hremove.lookup_of_ne (by rintro ⟨⟩)
    rw [LedgerState.offer, hlookup]
    exact (offer_of_amounts hrelease liabilityChanges_amounts _ _).trans ho
  · exact fun e => hnot (fun hcan => h (hcan.remove s₁ hrelease)) e s₁

theorem deletion_key {c : Change} (hc : c ∈ deletion o) {sellerID : AccountID} {offerID : Nat}
    (hkey : c.key = some (.offer sellerID offerID)) :
    c = .eraseOffer o ∧ o.sellerID = sellerID ∧ o.offerID = offerID := by
  rcases mem_append.mp hc with hc | hc
  · obtain ⟨q, _, _, _, rfl⟩ := liabilityChanges_amounts c hc
    exact absurd (some.inj hkey) assetKey_ne_offer
  · simp only [mem_cons, not_mem_nil, or_false] at hc
    rcases hc with rfl | rfl
    · cases hkey
    · exact ⟨rfl, LedgerKey.offer.inj (some.inj hkey)⟩

/-- Deleting an offer leaves the other offers alone. -/
theorem offer_of_deletion (h : Journal s (deletion o) s') {id : AccountID}
    {offerID : Nat} (hne : ¬ (o.sellerID = id ∧ o.offerID = offerID)) :
    s'.offer id offerID = s.offer id offerID := by
  unfold LedgerState.offer
  rw [lookup_of_journal h fun c hc hkey => hne (deletion_key hc hkey).2]

theorem wp_deleteOffers {I : LedgerState → Prop} (hI : I s)
    (hos : ∀ o ∈ os, s.offer o.sellerID o.offerID = some o ∧ o.sellerID = trustor ∧
      (o.buying = ci ∨ o.selling = ci))
    (hdistinct : os.Pairwise fun o o' => ¬ (o.sellerID = o'.sellerID ∧ o.offerID = o'.offerID))
    (hstep : ∀ s o s', I s → s.offer o.sellerID o.offerID = some o → Journal s (deletion o) s' →
      I s')
    (hok : ∀ s', I s' → Journal s (deletions os) s' → Q () s')
    (hnot : ∀ s o, I s → s.offer o.sellerID o.offerID = some o → ¬ CanDelete s o → ∀ e s', E e s') :
    wp (deleteOffers trustor ci os) Q E s := by
  induction os generalizing s with
  | nil => exact hok s hI (.nil s)
  | cons o os ih =>
    obtain ⟨ho, hseller, hasset⟩ := hos o mem_cons_self
    obtain ⟨hfirst, hdistinct⟩ := pairwise_cons.mp hdistinct
    rw [deleteOffers, wp_bind]
    refine wp_deleteOffer ho hseller hasset (fun s₁ hdelete => ?_) (hnot s o hI ho)
    refine ih (hstep s o s₁ hI ho hdelete) (fun o' ho' => ?_) hdistinct fun s' hI' hrest => ?_
    · rw [offer_of_deletion hdelete (hfirst o' ho')]
      exact hos o' (mem_cons_of_mem _ ho')
    · exact hok s' hI' (hdelete.append hrest)

end Delete

variable {o : OfferEntry}

theorem offer_eq_none_of_deletion
    (h : Journal s (deletion o) s') : s'.offer o.sellerID o.offerID = none := by
  obtain ⟨_, -, hrest⟩ := h.split
  cases hrest with
  | cons _ hrest =>
    cases hrest with
    | cons herase hnil =>
      cases hnil
      cases herase
      rw [LedgerState.offer, LedgerState.lookup_erase_self]

/-- An offer that is left after deletions was there, and none of those that were deleted. -/
theorem mem_offers_of_deletions {s : LedgerState} {os : List OfferEntry}
    (h : Journal s (deletions os) s') (ho : o ∈ s'.offers) :
    o ∈ s.offers ∧ o ∉ os := by
  induction os generalizing s with
  | nil =>
    cases h
    exact ⟨ho, not_mem_nil⟩
  | cons o₁ os ih =>
    obtain ⟨s₁, hdelete, hrest⟩ : ∃ s₁, Journal s (deletion o₁) s₁ ∧ Journal s₁ (deletions os) s' :=
      Trace.split h
    obtain ⟨ho₁, hos⟩ := ih hrest
    have hoffer := s₁.mem_offers.mp ho₁
    by_cases hkey : o₁.sellerID = o.sellerID ∧ o₁.offerID = o.offerID
    · have hnone := offer_eq_none_of_deletion hdelete
      rw [hkey.1, hkey.2, hoffer] at hnone
      cases hnone
    · rw [offer_of_deletion hdelete hkey] at hoffer
      refine ⟨s.mem_offers.mpr hoffer, fun hmem => ?_⟩
      rcases mem_cons.mp hmem with rfl | hmem
      · exact hkey ⟨rfl, rfl⟩
      · exact hos hmem

variable {op : AllowTrustOp}

theorem mem_offersByAccountAndAsset {id : AccountID} {asset : Asset} :
    o ∈ offersByAccountAndAsset s id asset ↔
      o ∈ s.offers ∧ o.sellerID = id ∧ (o.buying = asset ∨ o.selling = asset) := by
  rw [offersByAccountAndAsset, mem_filter, decide_eq_true_eq]

/-- The offers that a revocation deletes -/
def revoked (op : AllowTrustOp) (sourceID : AccountID) (s : LedgerState) (trust : TrustLineEntry) :
    List OfferEntry :=
  if trust.isAuthorized = true ∧ op.authorize = false then
    offersByAccountAndAsset s op.trustor (op.ci sourceID)
  else []

theorem wp_revokeOffers {E : TxError → LedgerState → Prop}
    {I : LedgerState → Prop} {trust : TrustLineEntry} (hI : I s)
    (hstep : ∀ s o s', I s → s.offer o.sellerID o.offerID = some o → Journal s (deletion o) s' →
      I s')
    (hok : ∀ s', I s' → Journal s (deletions (op.revoked sourceID s trust)) s' → Q () s')
    (hnot : ∀ s o, I s → s.offer o.sellerID o.offerID = some o → ¬ CanDelete s o → ∀ e s', E e s') :
    wp (op.revokeOffers (op.ci sourceID) trust) Q E s := by
  unfold revoked at hok
  rw [revokeOffers, wp_bind, wp_get, wp_ite]
  refine ⟨fun h => ?_, fun h => ?_⟩
  · rw [if_pos h] at hok
    refine wp_deleteOffers hI (fun o ho => ?_) (s.offers_pairwise.filter _) hstep hok hnot
    obtain ⟨hmem, hseller, hasset⟩ := mem_offersByAccountAndAsset.mp ho
    exact ⟨s.mem_offers.mp hmem, hseller, hasset⟩
  · rw [if_neg h] at hok
    exact hok s hI (.nil s)

theorem doApply_journal : wlp (op.doApply sourceID) (fun _ s' => ∃ trust tl,
    s.trustLine op.trustor (op.ci sourceID) = some trust ∧
    Journal s
      (deletions (op.revoked sourceID s trust) ++ [.setAuthorized tl op.authorize]) s') s := by
  simp only [doApply, checkSource, wp_bind, wp_failIf, wp_current, wp_orFail, implies_true,
    true_and, and_true]
  intro _ source _ _ _ trust htrust
  refine wp_revokeOffers trivial (fun _ _ _ _ _ _ => trivial) ?_
    fun _ _ _ _ _ _ _ => trivial
  intro s₁ _ hdelete tl htl
  refine ⟨trust, tl, htrust, hdelete.snoc ?_⟩
  obtain ⟨hid, hasset⟩ := s₁.key_of_trustLine htl
  refine .setAuthorized ?_ fun hauth hrevoke o ho hseller => ?_
  · rw [hid, hasset, htl]
  · -- an authorization that is revoked leaves no offer for the line
    obtain ⟨hmem, hos⟩ := mem_offers_of_deletions hdelete ho
    have htrusted : trust.isAuthorized = true ∧ op.authorize = false := by
      refine ⟨?_, hrevoke⟩
      by_contra hnot
      rw [revoked, if_neg fun h => hnot h.1] at hdelete
      cases hdelete
      rw [htrust] at htl
      exact hnot (some.inj htl ▸ hauth)
    rw [revoked, if_pos htrusted, mem_offersByAccountAndAsset, ← hasset, ← hid] at hos
    exact not_or.mp fun h => hos ⟨hmem, hseller, h⟩

end AllowTrustOp

end EssaCore.Transactions
