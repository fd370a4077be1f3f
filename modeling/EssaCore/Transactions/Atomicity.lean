import EssaCore.Transactions.TransactionChanges
import EssaCore.Transactions.SignatureWeights

/-!
# Transactions are atomic

A transaction that fails has consumed its sequence number, once that was found to be the next
one, and its one-time signers, once the source was found to have signed. Nothing else of it
remains.

- `SortedSigners`, `Regular` — accounts as `normalizeSigners` leaves them;
- `MapsAccounts` — a state in which only accounts differ;
- `Marked` — the one-time signers that a checker has found;
- `consume` — an account after the transaction was validated;
- `prepare_consumes` — what `apply` does before the operations;
- `apply_atomic` — what a transaction leaves behind.
-/

open List

namespace EssaCore.Transactions

open Ledger Lib LedgerState AccountEntry TransactionFrame SignatureChecker

/-! ## Accounts -/

/-- The signers have different keys, in their order. -/
def SortedSigners (signers : List Signer) : Prop :=
  signers.Pairwise fun a b => signerLe a b = true ∧ a.key ≠ b.key

/-- The number of sub-entries is a `uint32`, and the signers are sorted. -/
def Regular (s : LedgerState) : Prop := ∀ id acc, s.account id = some acc →
  acc.numSubEntries < 2 ^ 32 ∧ SortedSigners acc.signers

/-- The account without the one-time signer for a hash -/
def withoutPreAuth (hash : Uint256) (acc : AccountEntry) : AccountEntry :=
  { acc with
    signers := acc.signers.filter (·.key ≠ .preAuthTx hash)
    numSubEntries := acc.numSubEntries - acc.signers.countP (·.key = .preAuthTx hash) }

variable {hash : Uint256} {acc acc' : AccountEntry}

theorem withoutPreAuth_of_not_any (h : ¬ acc.signers.any (·.key = .preAuthTx hash) = true) :
    withoutPreAuth hash acc = acc := by
  have hnone : ∀ signer ∈ acc.signers, signer.key ≠ .preAuthTx hash := by
    simpa using h
  rw [withoutPreAuth, filter_eq_self.mpr (by simpa using hnone),
    countP_eq_zero.mpr (by simpa using hnone), Nat.sub_zero]

theorem withoutPreAuth_idem : withoutPreAuth hash (withoutPreAuth hash acc) =
    withoutPreAuth hash acc :=
  withoutPreAuth_of_not_any (by simp [withoutPreAuth])

/-- A key is found once, and its signer taken out. -/
theorem eraseP_of_sorted {signers : List Signer} (h : SortedSigners signers) (key : SignerKey) :
    signers.eraseP (·.key = key) = signers.filter (·.key ≠ key) ∧
      signers.countP (·.key = key) ≤ 1 := by
  induction signers with
  | nil => exact ⟨rfl, Nat.zero_le _⟩
  | cons signer signers ih =>
    obtain ⟨hfirst, hrest⟩ := pairwise_cons.mp h
    obtain ⟨herase, hcount⟩ := ih hrest
    by_cases hkey : signer.key = key
    · have hnone : ∀ other ∈ signers, other.key ≠ key := fun other hother =>
        hkey ▸ (hfirst other hother).2.symm
      rw [eraseP_cons_of_pos (by simpa using hkey),
        filter_cons_of_neg (by simpa using hkey),
        countP_cons_of_pos (by simpa using hkey),
        filter_eq_self.mpr (by simpa using hnone),
        countP_eq_zero.mpr (by simpa using hnone)]
      exact ⟨rfl, le_rfl⟩
    · rw [eraseP_cons_of_neg (by simpa using hkey),
        filter_cons_of_pos (by simpa using hkey),
        countP_cons_of_neg (by simpa using hkey), herase]
      exact ⟨rfl, hcount⟩

theorem SortedSigners.filter {signers : List Signer} (h : SortedSigners signers)
    (p : Signer → Bool) : SortedSigners (signers.filter p) := Pairwise.filter p h

theorem normalizeSigners_of_sorted (h : SortedSigners acc.signers) :
    normalizeSigners acc = acc := by
  rw [normalizeSigners, mergeSort_of_pairwise (h.imp And.left)]

theorem newEntriesCount_pred (hacc : acc.numSubEntries < 2 ^ 32)
    (h : 0 ≤ acc.newEntriesCount (-1)) :
    (acc.newEntriesCount (-1)).toNat = acc.numSubEntries - 1 := by
  unfold newEntriesCount at *
  by_cases hsmall : acc.numSubEntries + (-1 : Int) < 2 ^ 31
  · rw [Int.bmod_eq_of_le (by omega) (by omega)] at h ⊢
    omega
  · rw [← Int.sub_bmod_right, Int.bmod_eq_of_le (by omega) (by omega)] at h
    omega

/-- The one-time signer is taken out of an account that has it. -/
theorem removeFirst_preAuth {header : LedgerHeader} {changed : Option AccountEntry}
    (hentries : acc.numSubEntries < 2 ^ 32) (hsorted : SortedSigners acc.signers)
    (h : TransactionFrame.removeFirst header acc [.preAuthTx hash] = .ok changed) :
    (changed.map normalizeSigners).getD acc = withoutPreAuth hash acc := by
  obtain ⟨removed, hremoved, h⟩ := bind_eq_ok.mp h
  have hchanged : changed = removed := by
    cases removed <;> exact (Except.ok.inj h).symm
  subst hchanged
  unfold removeAccountSigner at hremoved
  split at hremoved
  · rename_i hany
    obtain ⟨acc₁, hadd, hremoved⟩ := bind_eq_ok.mp hremoved
    cases acc₁ with
    | none => cases hremoved
    | some acc₁ =>
      obtain rfl := Except.ok.inj hremoved
      obtain ⟨hcount, -, rfl⟩ := addNumEntries_eq_some.mp hadd
      obtain ⟨herase, _⟩ := eraseP_of_sorted hsorted (.preAuthTx hash)
      have hpos : 0 < acc.signers.countP (·.key = .preAuthTx hash) := by
        obtain ⟨signer, hmem, hkey⟩ := any_eq_true.mp hany
        exact countP_pos_iff.mpr ⟨signer, hmem, hkey⟩
      have heq : acc.signers.countP (·.key = .preAuthTx hash) = 1 := by omega
      rw [Option.map_some, Option.getD_some, normalizeSigners_of_sorted, withoutPreAuth, heq,
        newEntriesCount_pred hentries hcount]
      · rw [herase]
      · rw [herase]
        exact hsorted.filter _
  · rename_i hany
    obtain rfl := Except.ok.inj hremoved
    exact (withoutPreAuth_of_not_any hany).symm

/-! ## States -/

/-- Every account is replaced by what `f` makes of it, and nothing else differs. -/
structure MapsAccounts (f : AccountID → AccountEntry → AccountEntry) (s s' : LedgerState) :
    Prop where
  header : s'.header = s.header
  account : ∀ id, s'.account id = (s.account id).map (f id)
  other : ∀ k, k.type ≠ .ACCOUNT → s'.lookup k = s.lookup k

section MapsAccounts

variable {f g : AccountID → AccountEntry → AccountEntry} {s s' s'' : LedgerState}

theorem MapsAccounts.congr (h : MapsAccounts f s s')
    (hfg : ∀ id acc, s.account id = some acc → f id acc = g id acc) : MapsAccounts g s s' where
  header := h.header
  account id := by
    rw [h.account]
    exact Option.map_congr fun acc hacc => hfg id acc hacc
  other := h.other

theorem MapsAccounts.refl (hf : ∀ id acc, s.account id = some acc → f id acc = acc) :
    MapsAccounts f s s where
  header := rfl
  account id := by
    cases hacc : s.account id with
    | none => rfl
    | some acc => rw [Option.map_some, hf id acc hacc]
  other _ _ := rfl

theorem MapsAccounts.trans (h : MapsAccounts f s s') (h' : MapsAccounts g s' s'') :
    MapsAccounts (fun id acc => g id (f id acc)) s s'' where
  header := h'.header.trans h.header
  account id := by
    rw [h'.account, h.account, Option.map_map]
    rfl
  other k hk := (h'.other k hk).trans (h.other k hk)

/-- One account is written. -/
theorem mapsAccounts_put {id : AccountID} (hacc : s.account id = some acc) (acc' : AccountEntry)
    (hid : acc'.accountID = id) :
    MapsAccounts (fun id' acc => if id' = id then acc' else acc) s (s.put (.account acc')) where
  header := rfl
  account id' := by
    rw [s.account_put_account, hid]
    split
    · rename_i heq
      rw [heq, hacc]
      rfl
    · rw [Option.map_id']
  other k hk := lookup_put_of_ne fun hkey => hk (hkey ▸ rfl)

/-- A map of accounts that keeps them regular -/
theorem Regular.maps (hs : Regular s) (h : MapsAccounts f s s')
    (hf : ∀ id acc, acc.numSubEntries < 2 ^ 32 ∧ SortedSigners acc.signers →
      (f id acc).numSubEntries < 2 ^ 32 ∧ SortedSigners (f id acc).signers) : Regular s' := by
  intro id acc hacc
  rw [h.account] at hacc
  obtain ⟨acc₀, hacc₀, rfl⟩ := Option.map_eq_some_iff.mp hacc
  exact hf id acc₀ (hs id acc₀ hacc₀)

end MapsAccounts

theorem withoutPreAuth_regular (h : acc.numSubEntries < 2 ^ 32 ∧ SortedSigners acc.signers) :
    (withoutPreAuth hash acc).numSubEntries < 2 ^ 32 ∧
      SortedSigners (withoutPreAuth hash acc).signers :=
  ⟨lt_of_le_of_lt (Nat.sub_le _ _) h.1, h.2.filter _⟩

/-! ## One-time signers -/

namespace TransactionFrame

variable {s s' : LedgerState} {id : AccountID}

theorem removeUsedFrom_maps (hs : Regular s) : wlp (removeUsedFrom id [.preAuthTx hash])
    (fun _ s' => MapsAccounts
      (fun id' acc => if id' = id then withoutPreAuth hash acc else acc) s s') s := by
  rw [removeUsedFrom, wlp, wp_bind, wp_loadAccount]
  cases hacc : s.account id with
  | none =>
    refine MapsAccounts.refl fun id' acc' hacc' => if_neg ?_
    rintro rfl
    rw [hacc] at hacc'
    cases hacc'
  | some acc =>
    obtain ⟨hentries, hsorted⟩ := hs id acc hacc
    rw [wp_bind, wp_loadHeader, wp_bind, wp_lift]
    refine ⟨fun changed hchanged => ?_, fun _ _ => trivial⟩
    have heq := removeFirst_preAuth hentries hsorted hchanged
    have hsame : ∀ id' acc₀, s.account id' = some acc₀ → id' = id → acc₀ = acc := by
      rintro id' acc₀ hacc₀ rfl
      exact Option.some.inj (hacc₀.symm.trans hacc)
    cases changed with
    | none =>
      refine MapsAccounts.refl fun id' acc₀ hacc₀ => ?_
      split
      · rename_i hid
        rw [hsame id' acc₀ hacc₀ hid]
        exact heq.symm
      · rfl
    | some acc' =>
      have heq : normalizeSigners acc' = withoutPreAuth hash acc := heq
      dsimp only
      rw [heq]
      refine (mapsAccounts_put hacc (withoutPreAuth hash acc)
        (accountID_of_account (a := acc) hacc)).congr fun id' acc₀ hacc₀ => ?_
      split
      · rename_i hid
        rw [hsame id' acc₀ hacc₀ hid]
      · rfl

/-- The one-time signers that were found: always the one for the same hash -/
structure Marked (hash : Uint256) (P : AccountID → Prop)
    (used : List (AccountID × List SignerKey)) : Prop where
  keys : ∀ u ∈ used, u.2 = [.preAuthTx hash]
  mem : ∀ id, id ∈ used.map Prod.fst ↔ P id

theorem removeUsedOneTimeSignerKeys_maps (used : List (AccountID × List SignerKey))
    (hkeys : ∀ u ∈ used, u.2 = [.preAuthTx hash]) (hs : Regular s) :
    wlp (removeUsedOneTimeSignerKeys used) (fun _ s' => MapsAccounts
      (fun id acc => if id ∈ used.map Prod.fst then withoutPreAuth hash acc else acc) s s') s := by
  induction used generalizing s with
  | nil => exact MapsAccounts.refl fun _ _ _ => if_neg not_mem_nil
  | cons u used ih =>
    obtain ⟨id, keys⟩ := u
    obtain rfl : keys = [.preAuthTx hash] := hkeys _ mem_cons_self
    rw [removeUsedOneTimeSignerKeys]
    refine (removeUsedFrom_maps hs).bind fun _ s₁ hfirst => ?_
    have hs₁ : Regular s₁ := hs.maps hfirst fun id' acc h => by
      split
      · exact withoutPreAuth_regular h
      · exact h
    refine (ih (fun u hu => hkeys u (mem_cons_of_mem _ hu)) hs₁).imp fun _ s₂ hrest => ?_
    refine (hfirst.trans hrest).congr fun id' acc _ => ?_
    by_cases hid : id' = id
    · simp [hid, withoutPreAuth_idem]
    · have hmem : id' ∈ ((id, [SignerKey.preAuthTx hash]) :: used).map Prod.fst ↔
          id' ∈ used.map Prod.fst := mem_cons.trans (or_iff_right hid)
      simp only [if_neg hid, hmem]

/-! ## What the checker has found -/

variable {used : List (AccountID × List SignerKey)} {tx : Transaction}

theorem mem_insertUsed {key : SignerKey}
    {id' : AccountID} : id' ∈ (SignatureChecker.insertUsed id key used).map Prod.fst ↔
      id' = id ∨ id' ∈ used.map Prod.fst := by
  induction used with
  | nil => simp [insertUsed]
  | cons u used ih =>
    rw [insertUsed]
    split
    · rename_i hid
      rw [map_cons, map_cons, hid, mem_cons, ← or_assoc, or_self]
    · split
      · rw [map_cons, mem_cons]
      · rw [map_cons, map_cons, mem_cons, mem_cons, ih]
        exact or_left_comm

theorem insertUsed_keys (h : ∀ u ∈ used, u.2 = [.preAuthTx hash]) :
    ∀ u ∈ SignatureChecker.insertUsed id (.preAuthTx hash) used, u.2 = [.preAuthTx hash] := by
  induction used with
  | nil =>
    intro u hu
    rw [mem_singleton.mp hu]
  | cons u used ih =>
    obtain ⟨_, keys⟩ := u
    obtain ⟨hfirst, hrest⟩ := forall_mem_cons.mp h
    obtain rfl : keys = [.preAuthTx hash] := hfirst
    rw [insertUsed, if_pos mem_cons_self]
    split
    · exact h
    · split
      · exact forall_mem_cons.mpr ⟨rfl, h⟩
      · exact forall_mem_cons.mpr ⟨rfl, ih hrest⟩

variable {P : AccountID → Prop}

theorem Marked.insert (h : Marked hash P used) (id : AccountID) :
    Marked hash (fun id' => id' = id ∨ P id')
      (SignatureChecker.insertUsed id (.preAuthTx hash) used) where
  keys := insertUsed_keys h.keys
  mem id' := by rw [mem_insertUsed, h.mem]

theorem Marked.congr {P' : AccountID → Prop}
    (h : Marked hash P used) (hP : ∀ id, P id ↔ P' id) : Marked hash P' used :=
  ⟨h.keys, fun id => (h.mem id).trans (hP id)⟩

/-- Is there a one-time signer for a hash? -/
def hasPreAuth (hash : Uint256) (signers : List Signer) : Bool :=
  signers.any (·.key = .preAuthTx hash)

theorem checkPreAuth_marked (id : AccountID) (neededWeight : Int)
    (signers : List Signer) (totalWeight : Int)
    (h : Marked hash P used) :
    Marked hash (fun id' => (id' = id ∧ hasPreAuth hash signers = true) ∨ P id')
      (SignatureChecker.checkPreAuth hash id neededWeight signers totalWeight used).used := by
  induction signers generalizing totalWeight used P with
  | nil => exact h.congr fun id' => by simp [hasPreAuth]
  | cons signer signers ih =>
    rw [checkPreAuth]
    split
    · rename_i hkey
      dsimp only
      rw [hkey]
      split
      · exact (h.insert id).congr fun id' => by simp [hasPreAuth, hkey]
      · refine (ih _ (h.insert id)).congr fun id' => ?_
        simp only [hasPreAuth, any_cons, hkey, decide_true, Bool.true_or, and_true]
        exact ⟨fun h => h.elim (fun h => .inl h.1) fun h => h, .inr⟩
    · rename_i hkey
      exact (ih _ h).congr fun id' => by simp [hasPreAuth, hkey]

variable {crypto : Crypto} {checker : SignatureChecker} {P : AccountID → Prop}

/-- The contents of a checker, and the one-time signers that it has found -/
def Found (checker : SignatureChecker) (hash : Uint256) (P : AccountID → Prop) : Prop :=
  checker.contentsHash = hash ∧ Marked hash P checker.usedOneTimeSignerKeys

theorem checkSignature_found (crypto : Crypto) (id : AccountID) (signers : List Signer)
    (neededWeight : Int) (h : Found checker hash P) :
    Found (checker.checkSignature crypto id signers neededWeight).2 hash
      fun id' => (id' = id ∧ hasPreAuth hash signers = true) ∨ P id' := by
  obtain ⟨rfl, hmarked⟩ := h
  have hused := checkPreAuth_marked id neededWeight signers 0 hmarked
  unfold SignatureChecker.checkSignature
  dsimp only
  split
  · exact ⟨rfl, hused⟩
  · split
    · exact ⟨rfl, hused⟩
    · exact ⟨rfl, hused⟩

/-- The account of `id` is there, and has the one-time signer. -/
def HasPreAuth (hash : Uint256) (s : LedgerState) (id : AccountID) : Prop :=
  ∃ acc, s.account id = some acc ∧ hasPreAuth hash acc.signers = true

theorem hasPreAuth_accountSigners :
    hasPreAuth hash (accountSigners acc) = hasPreAuth hash acc.signers := by
  unfold accountSigners hasPreAuth
  split <;> simp

theorem accountSignature_found (crypto : Crypto) (neededWeight : Nat)
    (hacc : s.account id = some acc)
    (h : Found checker hash P) :
    Found (checkSignature crypto checker acc neededWeight).2 hash
      fun id' => (id' = id ∧ HasPreAuth hash s id) ∨ P id' := by
  obtain rfl := s.accountID_of_account hacc
  obtain ⟨hhash, hmarked⟩ :=
    checkSignature_found crypto acc.accountID (accountSigners acc) neededWeight h
  refine ⟨hhash, hmarked.congr fun id' => or_congr_left (and_congr_right fun _ => ?_)⟩
  rw [hasPreAuth_accountSigners]
  constructor
  · exact fun hany => ⟨acc, hacc, hany⟩
  · rintro ⟨_, hacc', hany⟩
    rwa [Option.some.inj (hacc.symm.trans hacc')]

/-- The source of an operation is looked at if it exists. -/
theorem operationSignature_found (crypto : Crypto) (op : Operation) (tx : Transaction)
    (s : LedgerState) (forApply : Bool) (h : Found checker hash P) :
    Found (op.checkSignature crypto checker tx s forApply).2 hash
      fun id' => (id' = op.getSourceID tx ∧ HasPreAuth hash s (op.getSourceID tx)) ∨ P id' := by
  unfold Operation.checkSignature
  cases hacc : s.account (op.getSourceID tx) with
  | some acc => exact accountSignature_found crypto _ hacc h
  | none =>
    have hnone : ¬ HasPreAuth hash s (op.getSourceID tx) := by
      rintro ⟨acc, hacc', -⟩
      rw [hacc] at hacc'
      cases hacc'
    have hsame (checker' : SignatureChecker) (h' : Found checker' hash P) : Found checker' hash
        fun id' => (id' = op.getSourceID tx ∧ HasPreAuth hash s (op.getSourceID tx)) ∨ P id' :=
      ⟨h'.1, h'.2.congr fun id' => (or_iff_right fun h => hnone h.2).symm⟩
    dsimp only
    split
    · exact hsame checker h
    · split
      · exact hsame checker h
      · refine hsame _ ?_
        obtain ⟨hhash, hmarked⟩ := checkSignature_found crypto _ [⟨.ed25519 _, 1⟩] 0 h
        refine ⟨hhash, hmarked.congr fun id' => or_iff_right fun hany => ?_⟩
        simp [hasPreAuth] at hany

/-- The operations of a transaction, after some accounts were looked at -/
theorem operationSignatures_found (crypto : Crypto) (tx : Transaction) (s : LedgerState)
    (ops : List Operation) (h : Found checker hash P) :
    Found (checkOperationSignatures crypto tx s ops checker).2 hash
      fun id' => ((∃ op ∈ ops, op.getSourceID tx = id') ∧ HasPreAuth hash s id') ∨ P id' := by
  induction ops generalizing checker P with
  | nil => exact ⟨h.1, h.2.congr fun id' => by simp⟩
  | cons op ops ih =>
    obtain ⟨hhash, hmarked⟩ := ih (operationSignature_found crypto op tx s false h)
    refine ⟨hhash, hmarked.congr fun id' => ?_⟩
    rw [exists_mem_cons_iff]
    constructor
    · rintro (⟨hop, hhas⟩ | ⟨rfl, hhas⟩ | hP)
      · exact .inl ⟨.inr hop, hhas⟩
      · exact .inl ⟨.inl rfl, hhas⟩
      · exact .inr hP
    · rintro (⟨rfl | hop, hhas⟩ | hP)
      · exact .inr (.inl ⟨rfl, hhas⟩)
      · exact .inl ⟨hop, hhas⟩
      · exact .inr (.inr hP)

/-- How far the validation of a transaction gets (336–391) -/
inductive Validated (crypto : Crypto) (checker : SignatureChecker) (tx : Transaction)
    (s : LedgerState) (current : SequenceNumber) (applying : Bool) :
    ValidationType × SignatureChecker → Prop
  | invalid : Validated crypto checker tx s current applying (.kInvalid, checker)
  | badAuth {acc : AccountEntry} (hacc : s.account tx.sourceAccount = some acc)
      (hseq : checkSeqNum tx acc current = true)
      (hsignature : (checkSignature crypto checker acc acc.thresholds.low).1 = false) :
      Validated crypto checker tx s current applying
        (.kInvalidUpdateSeqNum, (checkSignature crypto checker acc acc.thresholds.low).2)
  | signed {acc : AccountEntry} {cv : ValidationType} (hacc : s.account tx.sourceAccount = some acc)
      (hseq : checkSeqNum tx acc current = true)
      (hsignature : (checkSignature crypto checker acc acc.thresholds.low).1 = true)
      (hcv : cv = .kInvalidPostAuth ∨ cv = .kFullyValid) :
      Validated crypto checker tx s current applying
        (cv, (checkSignature crypto checker acc acc.thresholds.low).2)

theorem commonValid_validated (crypto : Crypto) (checker : SignatureChecker) (tx : Transaction)
    (s : LedgerState) (current : SequenceNumber) (applying : Bool) :
    Validated crypto checker tx s current applying
      (commonValid crypto checker tx s current applying) := by
  unfold commonValid
  split
  · exact .invalid
  · split
    · exact .invalid
    · rename_i acc hacc
      split
      · exact .invalid
      · rename_i hseq
        rw [Bool.not_eq_false] at hseq
        dsimp only
        split
        · rename_i hsignature
          exact .badAuth hacc hseq hsignature
        · rename_i hsignature
          rw [Bool.not_eq_false] at hsignature
          by_cases hbalance : acc.getAvailableBalance s.header <
              (if applying = true then 0 else tx.fee)
          · rw [if_pos hbalance]
            exact .signed hacc hseq hsignature (.inl rfl)
          · rw [if_neg hbalance]
            exact .signed hacc hseq hsignature (.inr rfl)

/-- A source that has signed was looked at. -/
theorem Validated.found {current : SequenceNumber} {applying : Bool}
    {cv : ValidationType × SignatureChecker}
    (hcv : Validated crypto checker tx s current applying cv)
    (h : Found checker hash fun _ => False)
    (hsigned : cv.1.toNat ≥ ValidationType.kInvalidPostAuth.toNat) :
    Found cv.2 hash fun id' => id' = tx.sourceAccount ∧ HasPreAuth hash s id' := by
  cases hcv with
  | invalid => exact absurd hsigned (Nat.not_le_of_lt (Nat.zero_lt_succ _))
  | badAuth => exact absurd hsigned (Nat.not_le_of_lt (Nat.lt_succ_self _))
  | signed hacc =>
    obtain ⟨hhash, hmarked⟩ := accountSignature_found crypto _ hacc h
    refine ⟨hhash, hmarked.congr fun id' => ?_⟩
    rw [or_false]
    exact and_congr_right fun hid => by rw [hid]

/-! ## Validation -/

/-- The account is the source of the transaction or of one of its operations. -/
def isSource (tx : Transaction) (id : AccountID) : Bool :=
  decide (id = tx.sourceAccount) || tx.operations.any fun op => op.getSourceID tx = id

/-- An account after the transaction was validated: the source has the sequence number of the
transaction, if that was found to be the next one; and the sources do not have the one-time signer
for the transaction any more, if the source was found to have signed. -/
def consume (crypto : Crypto) (tx : Transaction) (cv : ValidationType) (id : AccountID)
    (acc : AccountEntry) : AccountEntry :=
  let acc :=
    if id = tx.sourceAccount ∧ cv.toNat ≥ ValidationType.kInvalidUpdateSeqNum.toNat then
      { acc with seqNum := tx.seqNum }
    else acc
  if isSource tx id = true ∧ cv.toNat ≥ ValidationType.kInvalidPostAuth.toNat then
    withoutPreAuth (crypto.contentsHash tx) acc
  else acc

theorem processSeqNum_maps : wlp (processSeqNum tx)
    (fun _ s' => MapsAccounts (fun id acc => if id = tx.sourceAccount then
      { acc with seqNum := tx.seqNum } else acc) s s') s := by
  simp only [processSeqNum, wp_bind, wp_current, wp_throwIf, implies_true, and_true, true_and]
  intro acc hacc _
  refine (mapsAccounts_put hacc { acc with seqNum := tx.seqNum }
    (accountID_of_account (a := acc) hacc)).congr fun id' acc₀ hacc₀ => ?_
  split
  · rename_i hid
    rw [hid] at hacc₀
    rw [Option.some.inj (hacc₀.symm.trans hacc)]
  · rfl

theorem processSignatures_maps (hs : Regular s)
    (hfound : Found checker hash fun id' => id' = tx.sourceAccount ∧ HasPreAuth hash s id') :
    wlp (processSignatures crypto checker tx) (fun _ s' => MapsAccounts (fun id acc =>
      if isSource tx id = true then withoutPreAuth hash acc else acc) s s') s := by
  obtain ⟨-, hkeys, hmem⟩ := operationSignatures_found crypto tx s tx.operations hfound
  rw [processSignatures, wlp, wp_bind, wp_get]
  refine (removeUsedOneTimeSignerKeys_maps _ hkeys hs).bind fun _ s' hmaps => ?_
  refine hmaps.congr fun id acc hacc => ?_
  by_cases hhas : hasPreAuth hash acc.signers = true
  · have hiff : id ∈ (checkOperationSignatures crypto tx s tx.operations
        checker).2.usedOneTimeSignerKeys.map Prod.fst ↔ isSource tx id = true := by
      have hstate : HasPreAuth hash s id := ⟨acc, hacc, hhas⟩
      rw [hmem, isSource, or_comm]
      simp [hstate]
    simp [hiff]
  · rw [withoutPreAuth_of_not_any hhas, ite_self, ite_self]

theorem HasPreAuth.maps {f : AccountID → AccountEntry → AccountEntry}
    (hmaps : MapsAccounts f s s') (hf : ∀ id acc, (f id acc).signers = acc.signers) :
    HasPreAuth hash s' id ↔ HasPreAuth hash s id := by
  unfold HasPreAuth
  rw [hmaps.account]
  constructor
  · rintro ⟨_, hacc', hany⟩
    obtain ⟨acc, hacc, rfl⟩ := Option.map_eq_some_iff.mp hacc'
    exact ⟨acc, hacc, hf id acc ▸ hany⟩
  · rintro ⟨acc, hacc, hany⟩
    exact ⟨f id acc, by rw [hacc, Option.map_some], (hf id acc).symm ▸ hany⟩

/-- Validation consumes the sequence number and the one-time signers, or throws and leaves
everything as it was. -/
theorem prepare_consumes {envelope : TransactionEnvelope} (hs : Regular s) :
    wp (prepare crypto envelope) (fun _ s' => MapsAccounts (consume crypto envelope.tx
      (commonValid crypto (.new (crypto.contentsHash envelope.tx) envelope.signatures)
        envelope.tx s 0 true).1) s s') (fun _ s' => s' = s) s := by
  refine wp_nested ?_
  have hnew : Found (.new (crypto.contentsHash envelope.tx) envelope.signatures)
      (crypto.contentsHash envelope.tx) fun _ => False :=
    ⟨rfl, forall_mem_nil _, fun id => by simp [new]⟩
  have hvalidated := commonValid_validated crypto
    (.new (crypto.contentsHash envelope.tx) envelope.signatures) envelope.tx s 0 true
  rw [wp_bind, wp_get]
  dsimp only
  generalize commonValid crypto (.new (crypto.contentsHash envelope.tx) envelope.signatures)
    envelope.tx s 0 true = cv at hvalidated ⊢
  have hfound := hvalidated.found hnew
  rw [wp_ite]
  simp only [wp_ite, wp_bind]
  refine ⟨fun hseq => ?_, fun hseq => ⟨fun hsigned => ?_, fun hsigned => ?_⟩⟩
  · refine processSeqNum_maps.imp fun _ s₁ hmaps => ⟨fun hsigned => ?_, fun hsigned => ?_⟩
    · have hs₁ : Regular s₁ := hs.maps hmaps fun id acc h => by split <;> exact h
      obtain ⟨hhash, hmarked⟩ := hfound hsigned
      have hfound₁ : Found cv.2 (crypto.contentsHash envelope.tx) fun id' =>
          id' = envelope.tx.sourceAccount ∧
            HasPreAuth (crypto.contentsHash envelope.tx) s₁ id' := by
        refine ⟨hhash, hmarked.congr fun id' => and_congr_right fun _ => ?_⟩
        exact (HasPreAuth.maps hmaps fun id acc => by split <;> rfl).symm
      refine (processSignatures_maps hs₁ hfound₁).imp fun _ s₂ hmaps' => ?_
      refine (hmaps.trans hmaps').congr fun id acc _ => ?_
      simp [consume, hseq, hsigned]
    · refine hmaps.congr fun id acc _ => ?_
      simp [consume, hseq, hsigned]
  · exact absurd (Nat.le_of_succ_le hsigned) hseq
  · refine MapsAccounts.refl fun id acc _ => ?_
    simp [consume, hseq, hsigned]

/-! ## Transactions -/

/-- The operations are applied in order, and all of them succeed. -/
abbrev AppliesAll (env : TxEnv) (crypto : Crypto) (checker : SignatureChecker)
    (tx : Transaction) : LedgerState → List Operation → LedgerState → Prop :=
  Trace fun s op s' => op.apply env crypto checker tx s = .ok true s'

theorem applyLoop_appliesAll (env : TxEnv) (crypto : Crypto) (checker : SignatureChecker)
    (tx : Transaction) (ops : List Operation) (s : LedgerState) :
    wlp (applyLoop env crypto checker tx ops)
      (fun ok s' => ok = true → AppliesAll env crypto checker tx s ops s') s := by
  induction ops generalizing s with
  | nil => exact fun _ => .nil s
  | cons op ops ih =>
    rw [applyLoop, wlp, wp_bind]
    have hrun : wlp (op.apply env crypto checker tx)
        (fun ok s' => op.apply env crypto checker tx s = .ok ok s') s :=
      wlp_iff.mpr fun _ _ h => h
    refine hrun.imp fun ok s₁ hfirst => ?_
    refine (ih s₁).bind fun rest s₂ hrest => ?_
    intro hboth
    obtain ⟨rfl, hrest'⟩ := Bool.and_eq_true_iff.mp hboth
    exact .cons hfirst (hrest hrest')

/-- The state after validation -/
abbrev Consumed (crypto : Crypto) (envelope : TransactionEnvelope) (s s' : LedgerState) : Prop :=
  MapsAccounts (consume crypto envelope.tx
    (commonValid crypto (.new (crypto.contentsHash envelope.tx) envelope.signatures)
      envelope.tx s 0 true).1) s s'

/-- A program does what it does. -/
theorem wp_run {α : Type} (x : TxM α) (s : LedgerState) :
    wp x (fun a s' => x s = .ok a s') (fun e s' => x s = .error e s') s := by
  unfold wp
  split
  · assumption
  · assumption

theorem applyOperations_atomic {env : TxEnv} : wp (applyOperations env crypto checker tx)
      (fun ok s' => (ok = false → s' = s) ∧
        (ok = true → AppliesAll env crypto checker tx s tx.operations s'))
      (fun _ s' => s' = s) s := by
  have hloop := applyLoop_appliesAll env crypto checker tx tx.operations s
  unfold wp applyOperations
  cases hrun : applyLoop env crypto checker tx tx.operations s with
  | ok ok s' =>
    cases ok with
    | true => exact ⟨by simp, hloop.of_ok hrun⟩
    | false => exact ⟨fun _ => rfl, by simp⟩
  | error => rfl

/-- A transaction that returns `false`, or in which an operation throws, has only been validated;
one that returns `true` has then applied all its operations in order. If validation throws, nothing
has changed. -/
theorem apply_atomic (env : TxEnv) (crypto : Crypto) (envelope : TransactionEnvelope)
    {s : LedgerState} (hs : Regular s) :
    wp (apply env crypto envelope) (fun ok s' => (ok = false → Consumed crypto envelope s s') ∧
        (ok = true → ∃ checker s₁, Consumed crypto envelope s s₁ ∧
          AppliesAll env crypto checker envelope.tx s₁ envelope.tx.operations s'))
      (fun e s' => (prepare crypto envelope s = .error e s' ∧ s' = s) ∨
        ((∃ prepared s₁, prepare crypto envelope s = .ok prepared s₁) ∧
          Consumed crypto envelope s s')) s := by
  rw [apply, wp_bind]
  refine ((wp_run (prepare crypto envelope) s).and (prepare_consumes hs)).mono ?_
    fun _ _ h => .inl h
  rintro prepared s₁ ⟨hrun, hconsumed⟩
  rw [wp_ite]
  refine ⟨fun _ => ?_, fun _ => ⟨fun _ => hconsumed, by simp⟩⟩
  refine applyOperations_atomic.mono (fun ok s₂ h => ⟨fun hok => ?_, fun hok => ?_⟩)
    fun e s₂ h => .inr ⟨⟨prepared, s₁, hrun⟩, ?_⟩
  · rw [h.1 hok]
    exact hconsumed
  · exact ⟨prepared.2, s₁, hconsumed, h.2 hok⟩
  · rw [h]
    exact hconsumed

end TransactionFrame

/-! ## Signers that are not sorted -/

/-- The hash of every transaction is zero, and nothing is signed. -/
def hashCrypto : Crypto where
  verifySig _ _ _ := false
  sha256 _ := 0
  contentsHash _ := 0

/-- An account with the same one-time signer twice -/
def doubled : AccountEntry :=
  ⟨1, 100, 0, 2, none, 0, "", ⟨1, 0, 0, 0⟩, [⟨.preAuthTx 0, 1⟩, ⟨.preAuthTx 0, 1⟩], none⟩

def doubledLedger : LedgerState := .ofEntries ⟨10, 0, 2, 100, 0, 0, 0, 0, 0⟩ [.account doubled]

/-- An operation that is not valid -/
def badBump : TransactionEnvelope := ⟨⟨1, 0, 1, none, [⟨none, .bumpSequence ⟨-1⟩⟩]⟩, []⟩

/-- What remains of it: one of the two signers -/
def halved : AccountEntry :=
  normalizeSigners { doubled with
    seqNum := 1, numSubEntries := 1, signers := [⟨.preAuthTx 0, 1⟩] }

/-- Neither offers nor votes -/
def emptyEnv : TxEnv := ⟨fun _ _ => false, fun _ _ _ => []⟩

theorem apply_leaves_duplicate : ∃ s',
    TransactionFrame.apply emptyEnv hashCrypto badBump doubledLedger = .ok false s' ∧
    ¬ TransactionFrame.Consumed hashCrypto badBump doubledLedger s' := by
  refine ⟨(doubledLedger.put (.account { doubled with seqNum := 1 })).put (.account halved), rfl,
    fun h => ?_⟩
  have haccount := h.account 1
  rw [account_put_account, if_pos (show 1 = halved.accountID from rfl)]
    at haccount
  have hsigners : halved.signers = [] := congrArg signers (Option.some.inj haccount)
  have hlength : halved.signers.length = 1 := length_mergeSort _
  rw [hsigners] at hlength
  cases hlength

/-- An account with one one-time signer -/
def single : AccountEntry :=
  ⟨1, 100, 0, 1, none, 0, "", ⟨1, 0, 0, 0⟩, [⟨.preAuthTx 0, 1⟩], none⟩

def singleLedger : LedgerState := .ofEntries ⟨10, 0, 2, 100, 0, 0, 0, 0, 0⟩ [.account single]

theorem apply_atomic_singleLedger : ∃ s',
    TransactionFrame.apply emptyEnv hashCrypto badBump singleLedger = .ok false s' ∧
    TransactionFrame.Consumed hashCrypto badBump singleLedger s' := by
  have hs : Regular singleLedger := by
    intro id acc hacc
    rw [singleLedger, ofEntries, account_put_account] at hacc
    split at hacc
    · cases hacc
      exact ⟨by decide, pairwise_singleton _ _⟩
    · cases hacc
  have hrun : apply emptyEnv hashCrypto badBump singleLedger = .ok false
      ((singleLedger.put (.account { single with seqNum := 1 })).put
        (.account (normalizeSigners { single with
          seqNum := 1, numSubEntries := 0, signers := [] }))) := rfl
  exact ⟨_, hrun, ((apply_atomic emptyEnv hashCrypto badBump hs).of_ok hrun).1 rfl⟩

end EssaCore.Transactions
