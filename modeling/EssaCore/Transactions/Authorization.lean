import EssaCore.Transactions.Atomicity

/-!
# Authorization

The operations of a transaction are only applied if its source has signed, the sources of all
operations have, and no signature is left over. Nothing is assumed about which signatures verify
for which keys.

- `checkSignature_reaches` — what `checkSignature` succeeding means;
- `Explained` — the signatures that a checker has marked as used;
- `Authorized` — who has to have signed;
- `prepare_authorized`, `apply_authorized` — without it, no operation is applied.
-/

open List

namespace EssaCore.Transactions

open Ledger Lib SignatureChecker

namespace SignatureChecker

/-! ## Weights -/

variable {crypto : Crypto} {contentsHash : Uint256} {accountID : AccountID} {needed : Int}
  {signatures : List DecoratedSignature} {signers : List Signer}

variable {checker : SignatureChecker}

/-- Some of the signers have signed, and those that have are worth enough. -/
def Reaches (crypto : Crypto) (contentsHash : Uint256) (signatures : List DecoratedSignature)
    (signers : List Signer) (needed : Int) : Prop :=
  (∃ s ∈ signers, matched crypto contentsHash signatures s = true) ∧
    needed ≤ matchedWeight crypto contentsHash signatures signers

theorem checkSignature_reaches
    (h : (checker.checkSignature crypto accountID signers needed).1 = true) :
    Reaches crypto checker.contentsHash checker.signatures signers needed := by
  obtain ⟨r, ws, hr, hweighs, hsub, -⟩ := @checkSignature_weighs crypto accountID needed signers
    checker
  obtain ⟨hne, hle⟩ := hweighs.reached.mp (hr.trans h)
  have hsum : ws.sum ≤
      (weights (matched crypto checker.contentsHash checker.signatures) signers).sum := by
    obtain ⟨l, hperm, hsublist⟩ := hsub
    rw [← hperm.sum_eq]
    exact hsublist.sum_le_sum fun _ _ => Nat.zero_le _
  refine ⟨?_, by unfold matchedWeight; omega⟩
  obtain ⟨w, hw⟩ := exists_mem_of_ne_nil ws hne
  obtain ⟨s, hs, -⟩ := mem_map.mp (hsub.subset hw)
  exact ⟨s, mem_filter.mp hs⟩

/-! ## Used signatures -/

/-- A signature verifies for a signer with a key or a hash. -/
def Verifies (crypto : Crypto) (contentsHash : Uint256) (sig : DecoratedSignature)
    (signer : Signer) : Prop :=
  verifyHashX crypto sig signer.key = true ∨ verify crypto contentsHash sig signer.key = true

/-- Only signatures of a kind are marked as used. -/
def UsedOnly (P : DecoratedSignature → Prop) (signatures : List DecoratedSignature)
    (used : List Bool) : Prop :=
  used.length = signatures.length ∧
    ∀ (j : Nat) (sig : DecoratedSignature),
      signatures[j]? = some sig → used[j]? = some true → P sig

theorem verifyAll_usedOnly {verifies : DecoratedSignature → Signer → Bool}
    {P : DecoratedSignature → Prop} {all sigs : List DecoratedSignature} {i : Nat} (needed : Int)
    (total : Int) {used : List Bool} (hsigs : all.drop i = sigs) (h : UsedOnly P all used)
    (hP : ∀ sig, ∀ signer ∈ signers, verifies sig signer = true → P sig) :
    UsedOnly P all (verifyAll verifies needed sigs i signers total used).used := by
  induction sigs generalizing i signers total used with
  | nil => exact h
  | cons sig sigs ih =>
    have hsig : all[i]? = some sig := by
      rw [← List.head?_drop, hsigs, List.head?_cons]
    have hrest : all.drop (i + 1) = sigs := by
      rw [← tail_drop, hsigs, tail_cons]
    rw [verifyAll]
    split
    · exact ih total hrest h hP
    · rename_i signer hsome
      have hset : UsedOnly P all (used.set i true) := by
        refine ⟨by rw [length_set, h.1], fun j sig' hsig' hused => ?_⟩
        by_cases hj : i = j
        · subst hj
          rw [hsig] at hsig'
          cases hsig'
          exact hP sig signer (mem_of_find?_eq_some hsome) (List.find?_some hsome)
        · rw [List.getElem?_set_ne hj] at hused
          exact h.2 j sig' hsig' hused
      dsimp only
      split
      · exact hset
      · exact ih _ hrest hset fun sig signer hsigner =>
          hP sig signer (mem_of_mem_eraseP hsigner)

/-- The signatures that a checker has marked as used were verified for one of some signers. -/
structure Explained (crypto : Crypto) (contentsHash : Uint256)
    (signatures : List DecoratedSignature) (checked : Signer → Prop)
    (checker : SignatureChecker) : Prop where
  hash_eq : checker.contentsHash = contentsHash
  signatures_eq : checker.signatures = signatures
  used : UsedOnly (fun sig => ∃ signer, checked signer ∧ Verifies crypto contentsHash sig signer)
    signatures checker.usedSignatures

theorem Explained.checkSignature {checked : Signer → Prop}
    (h : Explained crypto contentsHash signatures checked checker)
    (hsigners : ∀ signer ∈ signers, checked signer) :
    Explained crypto contentsHash signatures checked
      (checker.checkSignature crypto accountID signers needed).2 := by
  obtain ⟨rfl, rfl, hused⟩ := h
  unfold checkSignature
  dsimp only
  split
  · exact ⟨rfl, rfl, hused⟩
  · have hhashX (total : Int) := verifyAll_usedOnly needed total drop_zero hused
      fun sig signer hsigner hverified =>
        ⟨signer, hsigners signer hsigner, .inl hverified⟩
    split
    · exact ⟨rfl, rfl, hhashX _⟩
    · exact ⟨rfl, rfl, verifyAll_usedOnly _ _ drop_zero (hhashX _)
        fun sig signer hsigner hverified =>
          ⟨signer, hsigners signer hsigner, .inr hverified⟩⟩

theorem Explained.all {checked : Signer → Prop}
    (h : Explained crypto contentsHash signatures checked checker)
    (hall : checker.checkAllSignaturesUsed = true) :
    ∀ sig ∈ signatures, ∃ signer, checked signer ∧ Verifies crypto contentsHash sig signer := by
  intro sig hsig
  obtain ⟨j, hj⟩ := mem_iff_getElem?.mp hsig
  obtain ⟨hlt, -⟩ := List.getElem?_eq_some_iff.mp hj
  rw [← h.used.1] at hlt
  have hget := List.getElem?_eq_getElem hlt
  have htrue : checker.usedSignatures[j] = true := all_eq_true.mp hall _ (getElem_mem hlt)
  exact h.used.2 j sig hj (by rw [hget, htrue])

end SignatureChecker

/-! ## Who has to have signed -/

open SignatureChecker (Reaches Verifies Explained)

/-- The signers that are looked at for an account: its key alone if it does not exist -/
def signersOf (s : LedgerState) (id : AccountID) : List Signer :=
  match s.account id with
  | some acc => accountSigners acc
  | none => [⟨.ed25519 id, 1⟩]

/-- The source of an operation has signed with the weight that the operation needs, or it is given
and does not exist, and its key has signed. -/
def OperationSigned (crypto : Crypto) (hash : Uint256) (signatures : List DecoratedSignature)
    (s : LedgerState) (tx : Transaction) (op : Operation) : Prop :=
  (∃ acc, s.account (op.getSourceID tx) = some acc ∧
    Reaches crypto hash signatures (accountSigners acc)
      (getNeededThreshold acc op.body.getThresholdLevel)) ∨
  ∃ id, op.sourceAccount = some id ∧ s.account id = none ∧
    ∃ sig ∈ signatures, verify crypto hash sig (.ed25519 id) = true

/-- Everybody has signed who has to, and nobody else. -/
structure Authorized (crypto : Crypto) (envelope : TransactionEnvelope) (s : LedgerState) :
    Prop where
  source : ∃ acc, s.account envelope.tx.sourceAccount = some acc ∧
    Reaches crypto (crypto.contentsHash envelope.tx) envelope.signatures (accountSigners acc)
      acc.thresholds.low
  operations : ∀ op ∈ envelope.tx.operations, OperationSigned crypto
    (crypto.contentsHash envelope.tx) envelope.signatures s envelope.tx op
  signatures : ∀ sig ∈ envelope.signatures, ∃ id, TransactionFrame.isSource envelope.tx id = true ∧
    ∃ signer ∈ signersOf s id, Verifies crypto (crypto.contentsHash envelope.tx) sig signer

variable {crypto : Crypto} {hash : Uint256} {signatures : List DecoratedSignature}
  {checked : Signer → Prop} {checker : SignatureChecker} {s s₁ : LedgerState} {tx : Transaction}

theorem operationSignature_signed {op : Operation}
    (h : Explained crypto hash signatures checked checker)
    (hchecked : ∀ signer ∈ signersOf s (op.getSourceID tx), checked signer) :
    Explained crypto hash signatures checked (op.checkSignature crypto checker tx s false).2 ∧
    ((op.checkSignature crypto checker tx s false).1 = true →
      OperationSigned crypto hash signatures s tx op) := by
  obtain ⟨rfl, rfl, -⟩ := id h
  unfold Operation.checkSignature
  unfold signersOf at hchecked
  cases hacc : s.account (op.getSourceID tx) with
  | some acc =>
    rw [hacc] at hchecked
    exact ⟨h.checkSignature hchecked, fun hsigned =>
      .inl ⟨acc, hacc, checkSignature_reaches hsigned⟩⟩
  | none =>
    rw [hacc] at hchecked
    cases hsource : op.sourceAccount with
    | none => exact ⟨h, nofun⟩
    | some id =>
      have hid : op.getSourceID tx = id := by rw [Operation.getSourceID, hsource, Option.getD_some]
      rw [hid] at hchecked hacc
      dsimp only
      rw [if_neg Bool.false_ne_true]
      refine ⟨h.checkSignature hchecked, fun hsigned => .inr ⟨id, hsource, hacc, ?_⟩⟩
      obtain ⟨⟨signer, hsigner, hmatched⟩, -⟩ := checkSignature_reaches hsigned
      obtain rfl := mem_singleton.mp hsigner
      simpa [matched, verifyHashX] using hmatched

theorem operationSignatures_signed (ops : List Operation)
    (h : Explained crypto hash signatures checked checker)
    (hchecked : ∀ op ∈ ops, ∀ signer ∈ signersOf s (op.getSourceID tx), checked signer) :
    Explained crypto hash signatures checked (checkOperationSignatures crypto tx s ops checker).2 ∧
    ((checkOperationSignatures crypto tx s ops checker).1 = true →
      ∀ op ∈ ops, OperationSigned crypto hash signatures s tx op) := by
  induction ops generalizing checker with
  | nil => exact ⟨h, fun _ => forall_mem_nil _⟩
  | cons op ops ih =>
    obtain ⟨hfirst, hrest⟩ := forall_mem_cons.mp hchecked
    obtain ⟨hexplained, hsigned⟩ := operationSignature_signed h hfirst
    obtain ⟨hexplained', hsigned'⟩ := ih hexplained hrest
    refine ⟨hexplained', fun hall => ?_⟩
    obtain ⟨hop, hops⟩ := Bool.and_eq_true_iff.mp hall
    exact forall_mem_cons.mpr ⟨hsigned hop, hsigned' hops⟩

/-! ## Sequence numbers do not matter -/

section SeqNum

variable {f : AccountID → AccountEntry → AccountEntry}

theorem signersOf_maps (hmaps : MapsAccounts f s s₁)
    (hf : ∀ id acc, accountSigners (f id acc) = accountSigners acc) (id : AccountID) :
    signersOf s₁ id = signersOf s id := by
  unfold signersOf
  rw [hmaps.account]
  cases s.account id with
  | none => rfl
  | some acc => exact hf id acc

theorem OperationSigned.maps {op : Operation} (hmaps : MapsAccounts f s s₁)
    (hf : ∀ id acc, accountSigners (f id acc) = accountSigners acc ∧
      (f id acc).thresholds = acc.thresholds)
    (h : OperationSigned crypto hash signatures s₁ tx op) :
    OperationSigned crypto hash signatures s tx op := by
  rcases h with ⟨_, hacc₁, hreaches⟩ | ⟨id, hid, hnone, hsig⟩
  · rw [hmaps.account] at hacc₁
    obtain ⟨acc, hacc, rfl⟩ := Option.map_eq_some_iff.mp hacc₁
    obtain ⟨hsigners, hthresholds⟩ := hf (op.getSourceID tx) acc
    have hneeded (level : ThresholdLevel) : getNeededThreshold (f (op.getSourceID tx) acc) level =
        getNeededThreshold acc level := by
      unfold getNeededThreshold
      rw [hthresholds]
    rw [hsigners, hneeded] at hreaches
    exact .inl ⟨acc, hacc, hreaches⟩
  · rw [hmaps.account, Option.map_eq_none_iff] at hnone
    exact .inr ⟨id, hid, hnone, hsig⟩

end SeqNum

namespace TransactionFrame

theorem processSignatures_signed (h : Explained crypto hash signatures checked checker)
    (hchecked : ∀ op ∈ tx.operations, ∀ signer ∈ signersOf s (op.getSourceID tx), checked signer) :
    wlp (processSignatures crypto checker tx) (fun r _ => r.1 = true →
      (∀ op ∈ tx.operations, OperationSigned crypto hash signatures s tx op) ∧
      ∀ sig ∈ signatures, ∃ signer, checked signer ∧ Verifies crypto hash sig signer) s := by
  obtain ⟨hexplained, hsigned⟩ := operationSignatures_signed tx.operations h hchecked
  rw [processSignatures, wlp, wp_bind, wp_get]
  refine (removeUsedOneTimeSignerKeys_moves _ s).bind fun _ _ _ => ?_
  intro hall
  obtain ⟨hops, hused⟩ := Bool.and_eq_true_iff.mp hall
  exact ⟨hsigned hops, hexplained.all hused⟩

theorem accountSigners_seqNum {seqNum : SequenceNumber} {acc : AccountEntry} {p : Prop}
    [Decidable p] :
    accountSigners (if p then { acc with seqNum := seqNum } else acc) = accountSigners acc ∧
      (if p then { acc with seqNum := seqNum } else acc).thresholds = acc.thresholds := by
  split
  · exact ⟨rfl, rfl⟩
  · exact ⟨rfl, rfl⟩

/-- A transaction whose operations are to be applied is authorized. -/
theorem prepare_authorized {envelope : TransactionEnvelope} :
    wlp (prepare crypto envelope) (fun prepared _ => prepared.1 = true →
      Authorized crypto envelope s) s := by
  refine wp_nested ?_
  let checked (signer : Signer) : Prop :=
    ∃ id, isSource envelope.tx id = true ∧ signer ∈ signersOf s id
  have hnew : Explained crypto (crypto.contentsHash envelope.tx) envelope.signatures checked
      (.new (crypto.contentsHash envelope.tx) envelope.signatures) := by
    refine ⟨rfl, rfl, length_replicate, fun j sig _ hused => ?_⟩
    rw [new, List.getElem?_replicate] at hused
    split at hused
    · cases hused
    · cases hused
  have hvalidated := commonValid_validated crypto
    (.new (crypto.contentsHash envelope.tx) envelope.signatures) envelope.tx s 0 true
  rw [wp_bind, wp_get]
  dsimp only
  generalize commonValid crypto (.new (crypto.contentsHash envelope.tx) envelope.signatures)
    envelope.tx s 0 true = cv at hvalidated ⊢
  rw [wp_ite]
  simp only [wp_ite, wp_bind]
  refine ⟨fun hseq => ?_, fun hseq => ⟨fun hsigned => ?_, fun hsigned => by simp⟩⟩
  · refine processSeqNum_maps.imp fun _ s₁ hmaps => ⟨fun hsigned => ?_, fun hsigned => by simp⟩
    have hsigners := signersOf_maps hmaps fun id acc => accountSigners_seqNum.1
    have hsource : ∀ op ∈ envelope.tx.operations,
        ∀ signer ∈ signersOf s₁ (op.getSourceID envelope.tx), checked signer := by
      intro op hop signer hsigner
      rw [hsigners] at hsigner
      refine ⟨_, ?_, hsigner⟩
      simp only [isSource, Bool.or_eq_true, any_eq_true, decide_eq_true_eq]
      exact .inr ⟨op, hop, rfl⟩
    cases hvalidated with
    | invalid => exact absurd hsigned (Nat.not_le_of_lt (Nat.zero_lt_succ _))
    | badAuth => exact absurd hsigned (Nat.not_le_of_lt (Nat.lt_succ_self _))
    | @signed acc _ hacc _ hsignature =>
      have hexplained : Explained crypto (crypto.contentsHash envelope.tx) envelope.signatures
          checked (checkSignature crypto (.new (crypto.contentsHash envelope.tx)
            envelope.signatures) acc acc.thresholds.low).2 := by
        refine hnew.checkSignature fun signer hsigner => ⟨envelope.tx.sourceAccount, ?_, ?_⟩
        · simp [isSource]
        · rwa [signersOf, hacc]
      refine (processSignatures_signed hexplained hsource).imp fun r s₂ h hprepared => ?_
      obtain ⟨hops, hsigs⟩ := h (Bool.and_eq_true_iff.mp hprepared).1
      refine ⟨⟨acc, hacc, checkSignature_reaches hsignature⟩, fun op hop => ?_, ?_⟩
      · exact (hops op hop).maps hmaps fun id acc => accountSigners_seqNum
      · intro sig hsig
        obtain ⟨signer, ⟨id, hid, hsigner⟩, hverifies⟩ := hsigs sig hsig
        exact ⟨id, hid, signer, hsigner, hverifies⟩
  · exact absurd (Nat.le_of_succ_le hsigned) hseq

/-- Without authorization, no operation of a transaction is applied: the transaction is validated,
and that is all. -/
theorem apply_authorized (crypto : Crypto) (envelope : TransactionEnvelope) (s : LedgerState) :
    Authorized crypto envelope s ∨ ∀ env, apply env crypto envelope s =
      (do let _ ← prepare crypto envelope; pure false : TxM Bool) s := by
  by_cases hauthorized : Authorized crypto envelope s
  · exact .inl hauthorized
  · refine .inr fun env => ?_
    have hprepare : wlp (prepare crypto envelope) (fun prepared _ => prepared.1 = true →
      Authorized crypto envelope s) s := prepare_authorized
    unfold apply
    simp only [bind, EStateM.bind]
    cases hrun : prepare crypto envelope s with
    | error => rfl
    | ok prepared s₁ =>
      have hfalse : ¬ prepared.1 = true := fun h => hauthorized (hprepare.of_ok hrun h)
      simp [if_neg hfalse]

end TransactionFrame

end EssaCore.Transactions
