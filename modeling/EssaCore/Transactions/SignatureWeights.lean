import EssaCore.Transactions.SignatureChecker

/-!
# The weight of signatures

`checkSignature` looks for signers in three phases that share a sum of weights; each stops once
the sum is large enough, and takes the signers it has found off the list. If no signature
verifies for two signers of a kind, neither the order nor the stopping matters.

- `SignatureChecker.matched` — has a signer signed?
- `Weighs` — a phase that adds weights to a sum until it is enough;
- `checkPreAuth_weighs`, `verifyAll_weighs` — the phases;
- `checkSignature_weighs` — all of them, over the signers that have signed;
- `checkSignature_matched` — the result, and what further signatures change about it.
-/

open List

namespace EssaCore.Transactions.SignatureChecker

open Ledger

/-- Whether a signer has signed contents of a hash: as the one-time signer for it, or with one of
the signatures -/
def matched (crypto : Crypto) (contentsHash : Uint256) (signatures : List DecoratedSignature)
    (signer : Signer) : Bool :=
  decide (signer.key = .preAuthTx contentsHash) ||
    (signatures.any fun sig => verifyHashX crypto sig signer.key) ||
    signatures.any fun sig => verify crypto contentsHash sig signer.key

/-- The weights of the signers that `p` holds of -/
def weights (p : Signer → Bool) (signers : List Signer) : List Nat :=
  (signers.filter p).map cappedWeight

/-- The sum of the weights of the signers that have signed -/
def matchedWeight (crypto : Crypto) (contentsHash : Uint256)
    (signatures : List DecoratedSignature) (signers : List Signer) : Nat :=
  (weights (matched crypto contentsHash signatures) signers).sum

/-- No two signers are verified by one signature. -/
def VerifiesOne (verifies : DecoratedSignature → Signer → Bool)
    (signatures : List DecoratedSignature) (signers : List Signer) : Prop :=
  ∀ sig ∈ signatures, ∀ s ∈ signers, ∀ s' ∈ signers,
    verifies sig s = true → verifies sig s' = true → s = s'

instance (verifies : DecoratedSignature → Signer → Bool) (signatures : List DecoratedSignature)
    (signers : List Signer) : Decidable (VerifiesOne verifies signatures signers) :=
  inferInstanceAs (Decidable (∀ sig ∈ signatures, ∀ s ∈ signers, ∀ s' ∈ signers,
    verifies sig s = true → verifies sig s' = true → s = s'))

/-- A signature verifies for at most one signer of each kind. -/
structure Unambiguous (crypto : Crypto) (contentsHash : Uint256)
    (signatures : List DecoratedSignature) (signers : List Signer) : Prop where
  hashX : VerifiesOne (fun sig signer => verifyHashX crypto sig signer.key) signatures signers
  ed25519 : VerifiesOne (fun sig signer => verify crypto contentsHash sig signer.key)
    signatures signers

variable {signatures' : List DecoratedSignature}

theorem Unambiguous.subset {crypto : Crypto} {contentsHash : Uint256}
    {signatures : List DecoratedSignature} {signers : List Signer}
    (h : Unambiguous crypto contentsHash signatures' signers)
    (hsub : ∀ sig ∈ signatures, sig ∈ signatures') :
    Unambiguous crypto contentsHash signatures signers :=
  ⟨fun sig hsig => h.hashX sig (hsub sig hsig), fun sig hsig => h.ed25519 sig (hsub sig hsig)⟩

theorem Unambiguous.append {crypto : Crypto} {contentsHash : Uint256}
    {signatures more : List DecoratedSignature} {signers : List Signer}
    (h : Unambiguous crypto contentsHash signatures signers)
    (h' : Unambiguous crypto contentsHash more signers) :
    Unambiguous crypto contentsHash (signatures ++ more) signers :=
  ⟨fun sig hsig => (mem_append.mp hsig).elim (h.hashX sig) (h'.hashX sig),
    fun sig hsig => (mem_append.mp hsig).elim (h.ed25519 sig) (h'.ed25519 sig)⟩

/-! ## Phases -/

/-- A loop that adds weights to a total: it has reached what is needed if it did so with one of
them, and otherwise it has added all. -/
structure Weighs {α : Type} (needed total : Int) (ws : List Nat) (r : Weighed α) : Prop where
  reached : r.reached = true ↔ ws ≠ [] ∧ needed ≤ total + ws.sum
  total : r.reached = false → r.totalWeight = total + ws.sum

section Weighs

variable {α β : Type} {needed total : Int} {w : Nat} {ws ws' : List Nat} {r : Weighed α}

theorem Weighs.nil {used : α} : Weighs needed total [] ⟨false, total, used⟩ :=
  ⟨by simp, fun _ => by simp⟩

/-- The weight is enough, whatever would follow. -/
theorem Weighs.stop {totalWeight : Int} {used : α} (h : total + w ≥ needed) :
    Weighs needed total (w :: ws) ⟨true, totalWeight, used⟩ := by
  refine ⟨⟨fun _ => ⟨cons_ne_nil _ _, ?_⟩, fun _ => rfl⟩, nofun⟩
  rw [sum_cons]
  omega

/-- The weight is not enough, and the loop goes on. -/
theorem Weighs.cons (hless : ¬ total + w ≥ needed) (h : Weighs needed (total + w) ws r) :
    Weighs needed total (w :: ws) r := by
  constructor
  · rw [h.reached, sum_cons]
    constructor
    · rintro ⟨-, hle⟩
      exact ⟨cons_ne_nil _ _, by omega⟩
    · rintro ⟨-, hle⟩
      refine ⟨?_, by omega⟩
      rintro rfl
      rw [sum_nil] at hle
      omega
  · intro hfalse
    rw [h.total hfalse, sum_cons]
    omega

variable (h : Weighs needed total ws r)

include h

theorem Weighs.perm (hperm : ws.Perm ws') :
    Weighs needed total ws' r := by
  constructor
  · rw [h.reached, hperm.sum_eq, ← length_pos_iff, hperm.length_eq, length_pos_iff]
  · intro hfalse
    rw [h.total hfalse, hperm.sum_eq]

/-- A phase that has reached the weight stands for those that it spares. -/
theorem Weighs.spare {r' : Weighed β} (hreached : r.reached = true)
    (hr' : r'.reached = true) : Weighs needed total (ws ++ ws') r' := by
  obtain ⟨hne, _⟩ := h.reached.mp hreached
  refine ⟨⟨fun _ => ⟨append_ne_nil_of_left_ne_nil hne _, ?_⟩, fun _ => hr'⟩, ?_⟩
  · rw [sum_append]
    omega
  · rw [hr']
    nofun

/-- Two phases, the second with the total of the first -/
theorem Weighs.append {r' : Weighed β} (hreached : r.reached = false)
    (h' : Weighs needed r.totalWeight ws' r') : Weighs needed total (ws ++ ws') r' := by
  have hless : ws ≠ [] → ¬ needed ≤ total + ws.sum := fun hne hle =>
    Bool.false_ne_true (hreached.symm.trans (h.reached.mpr ⟨hne, hle⟩))
  have htotal := h.total hreached
  constructor
  · rw [h'.reached, sum_append]
    constructor
    · rintro ⟨hne, hle⟩
      exact ⟨append_ne_nil_of_right_ne_nil _ hne, by omega⟩
    · rintro ⟨hne, hle⟩
      refine ⟨?_, by omega⟩
      rintro rfl
      rw [append_nil] at hne
      exact hless hne (by exact hle)
  · intro hfalse
    rw [h'.total hfalse, sum_append]
    omega

end Weighs

variable {crypto : Crypto} {contentsHash : Uint256} {accountID : AccountID} {needed : Int}
  {signatures : List DecoratedSignature} {signers : List Signer}

theorem checkPreAuth_weighs (total : Int) (used : List (AccountID × List SignerKey)) :
    Weighs needed total
      (weights (fun signer => decide (signer.key = .preAuthTx contentsHash)) signers)
      (checkPreAuth contentsHash accountID needed signers total used) := by
  induction signers generalizing total used with
  | nil => exact .nil
  | cons signer signers ih =>
    rw [checkPreAuth, weights, filter_cons]
    by_cases hkey : signer.key = .preAuthTx contentsHash
    · rw [if_pos hkey, if_pos (decide_eq_true hkey)]
      dsimp only
      split
      · rename_i henough
        exact .stop henough
      · rename_i hless
        exact .cons hless (ih _ _)
    · rw [if_neg hkey, if_neg (by simpa using hkey)]
      exact ih total used

theorem find?_perm {α : Type} {p : α → Bool} {l : List α} {a : α} (h : l.find? p = some a) :
    l.Perm (a :: l.eraseP p) := by
  obtain ⟨ha, _, -, rfl, has⟩ := List.find?_eq_some_iff_append.mp h
  rw [eraseP_append_right _ (by simpa using has), eraseP_cons_of_pos ha]
  exact perm_middle

variable {verifies : DecoratedSignature → Signer → Bool}

/-- Some of the signers are weighed that a signature verifies for, and all of them where each
signature verifies for one only. -/
theorem verifyAll_weighs (signatures : List DecoratedSignature) (signers : List Signer) (i : Nat)
    (total : Int) (used : List Bool) :
    ∃ ws, Weighs needed total ws (verifyAll verifies needed signatures i signers total used) ∧
      ws.Subperm (weights (fun signer => signatures.any (verifies · signer)) signers) ∧
      (VerifiesOne verifies signatures signers → signers.Nodup →
        ws.Perm (weights (fun signer => signatures.any (verifies · signer)) signers)) := by
  induction signatures generalizing i signers total used with
  | nil =>
    rw [weights, filter_eq_nil_iff.mpr (by simp)]
    exact ⟨[], .nil, .refl _, fun _ _ => .refl _⟩
  | cons sig signatures ih =>
    -- one signature more verifies for more signers
    have hmore (signers : List Signer) :
        (weights (fun signer => signatures.any (verifies · signer)) signers).Subperm
          (weights (fun signer => (sig :: signatures).any (verifies · signer)) signers) := by
      refine ((monotone_filter_right signers fun signer h => ?_).map cappedWeight).subperm
      rw [any_cons, h, Bool.or_true]
    have hsame {signers : List Signer} (h : ∀ signer ∈ signers, ¬ verifies sig signer = true) :
        weights (fun signer => signatures.any (verifies · signer)) signers =
          weights (fun signer => (sig :: signatures).any (verifies · signer)) signers := by
      refine congrArg (List.map cappedWeight) (filter_congr fun signer hsigner => ?_)
      rw [any_cons, Bool.eq_false_iff.mpr (h signer hsigner), Bool.false_or]
    have hrest {signers : List Signer} (h : VerifiesOne verifies (sig :: signatures) signers) :
        VerifiesOne verifies signatures signers := fun sig hsig => h sig (mem_cons_of_mem _ hsig)
    rw [verifyAll]
    split
    · rename_i hnone
      obtain ⟨ws, hws, hsub, hall⟩ := ih signers (i + 1) total used
      refine ⟨ws, hws, hsub.trans (hmore _), fun hone hnodup => ?_⟩
      rw [← hsame (List.find?_eq_none.mp hnone)]
      exact hall (hrest hone) hnodup
    · rename_i signer hsome
      have hverified : verifies sig signer = true := List.find?_some hsome
      have hperm : (weights (fun signer => (sig :: signatures).any (verifies · signer))
          signers).Perm (cappedWeight signer ::
            weights (fun signer => (sig :: signatures).any (verifies · signer))
              (signers.eraseP (verifies sig))) := by
        refine (((find?_perm hsome).filter _).map cappedWeight).trans (Perm.of_eq ?_)
        rw [filter_cons_of_pos (by simp [hverified])]
        rfl
      dsimp only
      split
      · rename_i henough
        exact ⟨_, .stop henough, hperm.symm.subperm, fun _ _ => hperm.symm⟩
      · rename_i hless
        obtain ⟨ws, hws, hsub, hall⟩ := ih (signers.eraseP (verifies sig)) (i + 1) _ _
        have hsub' := (subperm_cons (cappedWeight signer)).mpr (hsub.trans (hmore _))
        refine ⟨_, .cons hless hws, hsub'.trans hperm.symm.subperm, fun hone hnodup =>
          (Perm.cons _ ?_).trans hperm.symm⟩
        obtain ⟨hnot, hnodup'⟩ := nodup_cons.mp ((find?_perm hsome).nodup_iff.mp hnodup)
        -- the others are verified by the other signatures
        rw [← hsame fun s hs hs' => hnot ?_]
        · exact hall (fun sig hsig s hs s' hs' => hrest hone sig hsig s (mem_of_mem_eraseP hs) s'
            (mem_of_mem_eraseP hs')) hnodup'
        · rwa [← hone sig mem_cons_self s (mem_of_mem_eraseP hs) signer
            (mem_of_find?_eq_some hsome) hs' hverified]

/-! ## The three phases together -/

theorem filter_or_perm {α : Type} {p q : α → Bool} {l : List α}
    (h : ∀ a ∈ l, p a = true → q a = false) :
    (l.filter p ++ l.filter q).Perm (l.filter fun a => p a || q a) := by
  induction l with
  | nil => exact Perm.refl _
  | cons a l ih =>
    have hrest := ih fun b hb => h b (mem_cons_of_mem _ hb)
    rw [filter_cons, filter_cons, filter_cons]
    cases hp : p a with
    | true =>
      simpa [h a mem_cons_self hp] using hrest.cons a
    | false =>
      cases hq : q a with
      | false => exact hrest
      | true => exact perm_middle.trans (hrest.cons a)

theorem weights_matched : (weights (fun signer => decide (signer.key = .preAuthTx contentsHash))
      signers ++ weights (fun signer => signatures.any fun sig =>
        verifyHashX crypto sig signer.key) signers ++
      weights (fun signer => signatures.any fun sig =>
        verify crypto contentsHash sig signer.key) signers).Perm
    (weights (matched crypto contentsHash signatures) signers) := by
  have hhashX (signer : Signer) (h : signer.key = .preAuthTx contentsHash) :
      (signatures.any fun sig => verifyHashX crypto sig signer.key) = false := by
    simp [h, verifyHashX]
  have hed25519 (signer : Signer) (h : signer.key = .preAuthTx contentsHash ∨
      (signatures.any fun sig => verifyHashX crypto sig signer.key) = true) :
      (signatures.any fun sig => verify crypto contentsHash sig signer.key) = false := by
    cases hkey : signer.key with
    | ed25519 => simp [hkey, verifyHashX] at h
    | preAuthTx => simp [verify]
    | hashX => simp [verify]
  unfold weights matched
  rw [← map_append, ← map_append]
  refine Perm.map _ (((filter_or_perm fun s _ hs => ?_).append_right _).trans
    (filter_or_perm fun s _ hs => ?_))
  · exact hhashX s (of_decide_eq_true hs)
  · rw [Bool.or_eq_true, decide_eq_true_eq] at hs
    exact hed25519 s hs

variable {checker : SignatureChecker}

/-- The phases that were run have weighed some of the signers that have signed, and all of them
where each signature verifies for one only. -/
theorem checkSignature_weighs : ∃ (r : Weighed Unit) (ws : List Nat),
    r.reached = (checker.checkSignature crypto accountID signers needed).1 ∧
      Weighs needed 0 ws r ∧
      ws.Subperm (weights (matched crypto checker.contentsHash checker.signatures) signers) ∧
      (signers.Nodup → Unambiguous crypto checker.contentsHash checker.signatures signers →
        ws.Perm (weights (matched crypto checker.contentsHash checker.signatures) signers)) := by
  have hpreAuth := @checkPreAuth_weighs checker.contentsHash accountID needed signers 0
    checker.usedOneTimeSignerKeys
  have hmatched := @weights_matched crypto checker.contentsHash checker.signatures signers
  rw [checkSignature]
  dsimp only
  split
  · rename_i hreached
    rw [append_assoc] at hmatched
    exact ⟨⟨true, 0, ()⟩, _, rfl, hpreAuth.spare hreached rfl, hmatched.subperm,
      fun _ _ => hmatched⟩
  · rename_i hreached
    obtain ⟨ws, hws, hsub, hall⟩ := verifyAll_weighs checker.signatures signers 0 _
      checker.usedSignatures
    have hhashX := hpreAuth.append (Bool.eq_false_iff.mpr hreached) hws
    split
    · rename_i hreached
      exact ⟨⟨true, 0, ()⟩, _, rfl, hhashX.spare hreached rfl,
        (((Subperm.refl _).append hsub).append (.refl _)).trans hmatched.subperm,
        fun hnodup hone => (((hall hone.hashX hnodup).append_left _).append_right _).trans hmatched⟩
    · rename_i hreached
      obtain ⟨ws', hws', hsub', hall'⟩ := verifyAll_weighs checker.signatures signers 0 _ _
      have hed25519 := hhashX.append (Bool.eq_false_iff.mpr hreached) hws'
      exact ⟨⟨_, _, ()⟩, _, rfl, ⟨hed25519.reached, hed25519.total⟩,
        (((Subperm.refl _).append hsub).append hsub').trans hmatched.subperm,
        fun hnodup hone => (((hall hone.hashX hnodup).append_left _).append
          (hall' hone.ed25519 hnodup)).trans hmatched⟩

variable (accountID needed) in
theorem checkSignature_iff (hkeys : (signers.map Signer.key).Nodup)
    (hone : Unambiguous crypto checker.contentsHash checker.signatures signers) :
    (checker.checkSignature crypto accountID signers needed).1 = true ↔
      (∃ s ∈ signers, matched crypto checker.contentsHash checker.signatures s = true) ∧
      needed ≤ matchedWeight crypto checker.contentsHash checker.signatures signers := by
  obtain ⟨r, ws, hr, hweighs, -, hall⟩ := @checkSignature_weighs crypto accountID needed signers
    checker
  rw [← hr, (hweighs.perm (hall (.of_map _ hkeys) hone)).reached, Int.zero_add]
  refine and_congr_left fun _ => ?_
  rw [weights, ne_eq, List.map_eq_nil_iff, List.filter_eq_nil_iff]
  push Not
  rfl

/-! ## More signatures -/

theorem matched_mono (hsub : ∀ sig ∈ signatures, sig ∈ signatures') {signer : Signer}
    (h : matched crypto contentsHash signatures signer = true) :
    matched crypto contentsHash signatures' signer = true := by
  simp only [matched, Bool.or_eq_true, any_eq_true] at h ⊢
  refine h.imp (fun h => h.imp_right ?_) ?_
  · rintro ⟨sig, hsig, hverified⟩
    exact ⟨sig, hsub sig hsig, hverified⟩
  · rintro ⟨sig, hsig, hverified⟩
    exact ⟨sig, hsub sig hsig, hverified⟩

theorem matchedWeight_mono (hsub : ∀ sig ∈ signatures, sig ∈ signatures') :
    matchedWeight crypto contentsHash signatures signers ≤
      matchedWeight crypto contentsHash signatures' signers := by
  have hfilter : (signers.filter (matched crypto contentsHash signatures)).Sublist
      (signers.filter (matched crypto contentsHash signatures')) :=
    monotone_filter_right _ fun _ h => matched_mono hsub h
  exact (hfilter.map cappedWeight).sum_le_sum fun _ _ => Nat.zero_le _

variable (accountID needed) in
/-- More signatures do no harm. -/
theorem checkSignature_mono {checker' : SignatureChecker} (hkeys : (signers.map Signer.key).Nodup)
    (hhash : checker'.contentsHash = checker.contentsHash)
    (hsub : ∀ sig ∈ checker.signatures, sig ∈ checker'.signatures)
    (hone : Unambiguous crypto checker.contentsHash checker'.signatures signers)
    (h : (checker.checkSignature crypto accountID signers needed).1 = true) :
    (checker'.checkSignature crypto accountID signers needed).1 = true := by
  rw [checkSignature_iff accountID needed hkeys (hone.subset hsub)] at h
  rw [checkSignature_iff accountID needed hkeys (hhash.symm ▸ hone), hhash]
  obtain ⟨⟨s, hs, hmatched⟩, hweight⟩ := h
  exact ⟨⟨s, hs, matched_mono hsub hmatched⟩,
    hweight.trans (Int.ofNat_le.mpr (matchedWeight_mono hsub))⟩

/-- With signers of different keys, none of which share a signature with one of their kind,
`checkSignature` succeeds exactly when one of them has signed and the weights of those that have
are enough. More signatures do not make it fail, and one that is repeated changes nothing. -/
theorem checkSignature_matched (crypto : Crypto) (checker : SignatureChecker)
    (accountID : AccountID) {signers : List Signer} (hkeys : (signers.map Signer.key).Nodup)
    (neededWeight : Int)
    (hone : Unambiguous crypto checker.contentsHash checker.signatures signers) :
    ((checker.checkSignature crypto accountID signers neededWeight).1 = true ↔
      (∃ s ∈ signers, matched crypto checker.contentsHash checker.signatures s = true) ∧
      neededWeight ≤ matchedWeight crypto checker.contentsHash checker.signatures signers) ∧
    (∀ checker' : SignatureChecker, ∀ more, checker'.contentsHash = checker.contentsHash →
      checker'.signatures = checker.signatures ++ more →
      Unambiguous crypto checker.contentsHash more signers →
      (checker.checkSignature crypto accountID signers neededWeight).1 = true →
      (checker'.checkSignature crypto accountID signers neededWeight).1 = true) ∧
    ∀ checker' : SignatureChecker, ∀ sig ∈ checker.signatures,
      checker'.contentsHash = checker.contentsHash →
      checker'.signatures = checker.signatures ++ [sig] →
      matchedWeight crypto checker.contentsHash checker'.signatures signers =
        matchedWeight crypto checker.contentsHash checker.signatures signers ∧
      (checker'.checkSignature crypto accountID signers neededWeight).1 =
        (checker.checkSignature crypto accountID signers neededWeight).1 := by
  refine ⟨checkSignature_iff accountID neededWeight hkeys hone, ?_, ?_⟩
  · intro checker' more hhash hsignatures hmore
    refine checkSignature_mono accountID neededWeight hkeys hhash (fun sig hsig => ?_) ?_
    · rw [hsignatures]
      exact mem_append_left _ hsig
    · rw [hsignatures]
      exact hone.append hmore
  · intro checker' sig hsig hhash hsignatures
    have hmem : ∀ sig', sig' ∈ checker'.signatures ↔ sig' ∈ checker.signatures := by
      intro sig'
      rw [hsignatures, mem_append, mem_singleton, or_iff_left_iff_imp]
      rintro rfl
      exact hsig
    have hone' := hone.subset fun sig' => (hmem sig').mp
    refine ⟨Nat.le_antisymm (matchedWeight_mono fun sig' => (hmem sig').mp)
      (matchedWeight_mono fun sig' => (hmem sig').mpr), Bool.eq_iff_iff.mpr ⟨?_, ?_⟩⟩
    · exact checkSignature_mono accountID neededWeight hkeys hhash.symm
        (fun sig' => (hmem sig').mp) (hhash.symm ▸ hone)
    · exact checkSignature_mono accountID neededWeight hkeys hhash
        (fun sig' => (hmem sig').mpr) hone'

/-- A signer for contents of hash zero, and a master key of weight 300 -/
def twoSigners : List Signer := [⟨.preAuthTx 0, 1⟩, ⟨.ed25519 7, 300⟩]

/-- A key signs by its last byte. -/
def byteCrypto : Crypto where
  verifySig key sig _ := sig = [UInt8.ofNat key.toNat]
  sha256 _ := 0
  contentsHash _ := 0

theorem checkSignature_matched_twoSigners :
    ((SignatureChecker.new 0 [⟨7, [7]⟩]).checkSignature byteCrypto 7 twoSigners 256).1 = true := by
  have hkeys : (twoSigners.map Signer.key).Nodup := by decide
  have hone : Unambiguous byteCrypto 0 [⟨7, [7]⟩] twoSigners := by
    constructor <;> decide
  exact (checkSignature_matched byteCrypto (.new 0 [⟨7, [7]⟩]) 7 hkeys 256 hone).1.mpr
    ⟨by decide, by decide⟩

end EssaCore.Transactions.SignatureChecker
