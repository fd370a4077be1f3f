import EssaCore.Invariant.LedgerEntryIsValid
import EssaCore.Transactions.SoundOperations

/-!
# Operations leave valid entries

Each operation relies on what `doCheckValid` has refused, on the functions that refuse to make a
balance negative, and on the signers being sorted again. What a change of the ledger brings in is
valid, and so are all entries after an operation.

- `AllValid` — every entry passes the checks;
- `Change.Brings` — what a change brings in is valid;
- `AllValid.journal` — such changes keep all entries valid;
- `SetOptionsOp.doApply_valid` and its like — the operations make no others;
- `valid_after_operation` — nothing is reported after an operation.
-/

open List Option AList

namespace EssaCore.Ledger

open Transactions Lib LedgerState AccountEntry TrustLineEntry ManageOfferOp

/-! ## Entries that are changed -/

theorem flags_or {f g mask : Nat} (hf : f &&& mask = 0) (hg : g &&& mask = 0) :
    (f ||| g) &&& mask = 0 := by
  rw [Nat.and_or_distrib_right, hf, hg, Nat.or_zero]

theorem flags_and {f mask : Nat} (hf : f &&& mask = 0) (g : Nat) : (f &&& g) &&& mask = 0 := by
  rw [Nat.and_assoc, Nat.and_comm g, ← Nat.and_assoc, hf, Nat.zero_and]

section Account

variable {header : LedgerHeader} {acc acc' : AccountEntry} {q : Quantity} {delta count : Int}

theorem AccountEntry.IsValid.add (h : acc.IsValid)
    (hadd : acc.add header delta q = .ok (some acc')) : acc'.IsValid := by
  cases q with
  | balance =>
    rcases addAmount_eq_some.mp hadd with ⟨-, rfl⟩ | ⟨-, -, -, -, hnonneg, -, haccept⟩
    · exact h
    · split at haccept
      · cases haccept
        exact { h with balance := hnonneg }
      · cases haccept
  | buying =>
    rcases add_eq hadd with ⟨rfl, -⟩ | rfl
    · exact h
    · exact { h with }
  | selling =>
    rcases add_eq hadd with ⟨rfl, -⟩ | rfl
    · exact h
    · exact { h with }

theorem AccountEntry.newEntriesCount_le (h : 0 ≤ acc.newEntriesCount count) :
    ((acc.newEntriesCount count).toNat : Int) ≤ INT32_MAX := by
  have hlt : acc.newEntriesCount count < (2 ^ 32 + 1) / 2 := Int.bmod_lt (by decide)
  unfold INT32_MAX
  omega

theorem AccountEntry.IsValid.addNumEntries (h : acc.IsValid)
    (hadd : acc.addNumEntries header count = .ok (some acc')) : acc'.IsValid := by
  obtain ⟨hcount, -, rfl⟩ := addNumEntries_eq_some.mp hadd
  exact { h with numSubEntries := newEntriesCount_le hcount }

end Account

section TrustLine

variable {tl tl' : TrustLineEntry} {q : Quantity} {delta limit : Int}

theorem TrustLineEntry.IsValid.add (h : tl.IsValid) (hadd : tl.add delta q = .ok (some tl')) :
    tl'.IsValid := by
  cases q with
  | balance =>
    rcases addAmount_eq_some.mp hadd with ⟨-, rfl⟩ | ⟨-, -, -, -, hnonneg, hle, haccept⟩
    · exact h
    · split at haccept
      · cases haccept
      · cases haccept
        exact { h with balance := hnonneg, within := hle }
  | buying =>
    rcases add_eq hadd with ⟨rfl, -⟩ | rfl
    · exact h
    · exact { h with }
  | selling =>
    rcases add_eq hadd with ⟨rfl, -⟩ | rfl
    · exact h
    · exact { h with }

theorem TrustLineEntry.IsValid.setAuthorized (h : tl.IsValid) (authorize : Bool) :
    (tl.setAuthorized authorize).IsValid := by
  refine { h with flags := ?_ }
  cases authorize with
  | true => exact flags_or h.flags (by decide)
  | false => exact flags_and h.flags _

end TrustLine

end EssaCore.Ledger

namespace EssaCore.Transactions

open Ledger Lib

variable {env : TxEnv} {s s' : LedgerState} {c : Change} {cs : List Change}
  {sourceID : AccountID}

/-! ## Changes -/

/-- Every entry passes the checks, but for the ledger it was modified in. -/
def AllValid (s : LedgerState) : Prop := ∀ key d, s.lookup key = some d → d.IsValid

theorem AllValid.put (hs : AllValid s) {d : LedgerEntryData} (hd : d.IsValid) :
    AllValid (s.put d) := by
  intro key d' h
  rw [LedgerState.lookup_put] at h
  split at h
  · cases h
    exact hd
  · exact hs key d' h

theorem AllValid.erase (hs : AllValid s) (key : LedgerKey) : AllValid (s.erase key) := by
  intro key' d h
  rw [LedgerState.lookup_erase] at h
  split at h
  · cases h
  · exact hs key' d h

variable {id : AccountID}

theorem AllValid.account (hs : AllValid s) {acc : AccountEntry}
    (h : s.account id = some acc) : acc.IsValid := hs _ _ (s.account_eq_some_iff.mp h)

theorem AllValid.trustLine (hs : AllValid s) {asset : Asset} {tl : TrustLineEntry}
    (h : s.trustLine id asset = some tl) : tl.IsValid := hs _ _ (s.trustLine_eq_some_iff.mp h)

variable {o : OfferEntry}

theorem AllValid.offer (hs : AllValid s) {offerID : Nat}
    (h : s.offer id offerID = some o) : o.IsValid := hs _ _ (s.offer_eq_some_iff.mp h)

/-- What a change brings in is valid. -/
def Change.Brings : Change → Prop
  | .settings acc acc' => acc.IsValid → acc'.IsValid
  | .createAccount acc => acc.IsValid
  | .createTrustLine tl => tl.IsValid
  | .setLimit tl limit => 0 < limit ∧ 0 ≤ tl.getBuyingLiabilities
  | .createOffer o => o.IsValid
  | .setAmount _ newAmount => 0 < newAmount
  | .createData d => d.IsValid
  | _ => True

theorem AllValid.step (hs : AllValid s) (h : Step s c s') (hc : c.Brings) : AllValid s' := by
  cases h with
  | native hacc hadd => exact hs.put ((hs.account hacc).add hadd)
  | line _ _ htl hadd => exact hs.put ((hs.trustLine htl).add hadd)
  | issuer => exact hs
  | numEntries hacc hadd => exact hs.put ((hs.account hacc).addNumEntries hadd)
  | settings hacc => exact hs.put (hc (hs.account hacc))
  | createAccount => exact hs.put hc
  | eraseAccount => exact hs.erase _
  | createTrustLine => exact hs.put hc
  | @setLimit tl limit htl hmin =>
    have hwithin : tl.balance ≤ limit := by
      have hbuying := hc.2
      unfold TrustLineEntry.getMinimumLimit at hmin
      omega
    exact hs.put { hs.trustLine htl with limit := hc.1, within := hwithin }
  | setAuthorized htl => exact hs.put ((hs.trustLine htl).setAuthorized _)
  | eraseTrustLine => exact hs.erase _
  | createOffer => exact hs.put hc
  | setAmount ho => exact hs.put { hs.offer ho with amount := hc }
  | eraseOffer => exact hs.erase _
  | createData => exact hs.put hc
  | @setData d d' hd _ hname =>
    have hvalid : d.IsValid := hs _ _ (s.data_eq_some_iff.mp hd)
    exact hs.put ⟨hname ▸ hvalid.nonempty, hname ▸ hvalid.dataName⟩
  | eraseData => exact hs.erase _
  | header => exact hs

theorem AllValid.journal (hs : AllValid s) (h : Journal s cs s') (hcs : ∀ c ∈ cs, c.Brings) :
    AllValid s' :=
  h.preserves_of_mem (C := Change.Brings) (fun _ _ _ hstep hc hs => AllValid.step hs hstep hc) hcs
    hs

theorem brings_of_amounts (h : ∀ c ∈ cs, ∃ q id asset delta, c = .amount q id asset delta) :
    ∀ c ∈ cs, c.Brings := by
  intro c hc
  obtain ⟨q, id, asset, delta, rfl⟩ := h c hc
  trivial

/-! ## Offers that are taken -/

variable {amount : Int}

theorem brings_finish (h : amount ≠ 0 → 0 < amount) :
    ∀ c ∈ finishChanges o amount, c.Brings := by
  intro c hc
  unfold finishChanges at hc
  split at hc
  · simp only [mem_cons, not_mem_nil, or_false] at hc
    rcases hc with rfl | rfl <;> trivial
  · rename_i hne
    rcases mem_cons.mp hc with rfl | hc
    · exact h hne
    · exact brings_of_amounts liabilityChanges_amounts c hc

/-- An offer that is adjusted and stays has an amount. -/
theorem adjustOffer_pos {price : Price} {maxWheatSend maxSheepReceive : Int}
    (h : adjustOffer price maxWheatSend maxSheepReceive = .ok amount) (hne : amount ≠ 0) :
    0 < amount := (adjustOffer_eq_ok h hne).1

section Crosses

variable {o : OfferEntry} {maxWheatReceive maxSheepSend : Int} {isPathPayment : Bool}
  {r : CrossOfferResult}

theorem Crosses.valid (h : Crosses s o maxWheatReceive maxSheepSend isPathPayment r s')
    (hs : AllValid s) : AllValid s' := by
  obtain @⟨_, _, _, _, _, -, ex, -, -, hrelease, -, -, -, hsettle,
    htaken, hstays, hfinish⟩ := h
  have hreleased := hs.journal hrelease (brings_of_amounts liabilityChanges_amounts)
  have hsettled := hreleased.journal hsettle (brings_of_amounts settleChanges_amounts)
  refine hsettled.journal hfinish (brings_finish fun hne => ?_)
  have hwheat : ex.wheatStays = true := by
    by_contra hnot
    exact hne (htaken (Bool.eq_false_of_not_eq_true hnot))
  obtain ⟨_, -, hadjust⟩ := hstays hwheat
  exact adjustOffer_pos hadjust hne

theorem Crosses.header (h : Crosses s o maxWheatReceive maxSheepSend isPathPayment r s') :
    s'.header = s.header := by
  obtain ⟨ex, amount, -, hjournal⟩ := h.journal
  refine header_of_journal hjournal fun c hc => ?_
  have htrade : TradeChanges [(o, crossResult o ex amount)] (crossChanges o ex amount ++ []) :=
    .cons .nil
  rcases htrade.mem (mem_append_left _ hc) with
    ⟨_, _, _, _, rfl⟩ | ⟨_, rfl⟩ | ⟨_, _, rfl⟩ | ⟨_, rfl⟩ <;> exact nofun

end Crosses

/-- Balances move and offers are taken: all entries stay valid, under the same header. -/
theorem keptByCrossing_valid (header : LedgerHeader) :
    KeptByCrossing fun s => AllValid s ∧ s.header = header :=
  fun _ _ _ _ _ _ _ _ h hs => ⟨h.valid hs.1, h.header.trans hs.2⟩

theorem balance_valid (header : LedgerHeader) : ∀ s s' id asset delta,
    Step s (.amount .balance id asset delta) s' → AllValid s ∧ s.header = header →
      AllValid s' ∧ s'.header = header :=
  fun _ _ _ _ _ hstep hs => ⟨hs.1.step hstep trivial, (header_of_step hstep nofun).trans hs.2⟩

theorem PathPaymentOp.Applies.valid {op : PathPaymentOp} {hops : List Hop} {w : Walked}
    (h : op.Applies env sourceID s hops w s') (hs : AllValid s) : AllValid s' :=
  (h.invariant (keptByCrossing_valid s.header) (balance_valid s.header) ⟨hs, rfl⟩).1

/-! ## Offers that are managed -/

namespace ManageOfferOp

variable {op : ManageOfferOp} {passive : Bool} {newOffer : OfferEntry}

theorem Prepares.valid {old : List OfferEntry} (h : Prepares op sourceID passive s newOffer old s')
    (hs : AllValid s) : AllValid s' ∧ s'.header = s.header := by
  cases h with
  | create => exact ⟨hs, rfl⟩
  | @update o _ _ _ _ hjournal =>
    have hcases : ∀ c ∈ withdrawal o,
        (∃ q id asset delta, c = .amount q id asset delta) ∨ c = .eraseOffer o := by
      intro c hc
      rcases mem_append.mp hc with hc | hc
      · exact .inl (liabilityChanges_amounts c hc)
      · exact .inr (mem_singleton.mp hc)
    refine ⟨hs.journal hjournal fun c hc => ?_, header_of_journal hjournal fun c hc => ?_⟩
    · rcases hcases c hc with ⟨_, _, _, _, rfl⟩ | rfl <;> trivial
    · rcases hcases c hc with ⟨_, _, _, _, rfl⟩ | rfl <;> exact nofun

/-- The new offer is valid, but for its amount. -/
theorem Prepares.newOffer_valid {old : List OfferEntry}
    (h : Prepares op sourceID passive s newOffer old s') (hvalid : op.doCheckValid = .ok ())
    (hs : AllValid s) (hamount : 0 < amount) :
    OfferEntry.IsValid { newOffer with amount := amount } := by
  unfold doCheckValid at hvalid
  rw [ite_throw_eq_ok, ite_throw_eq_ok, ite_throw_eq_ok, not_or, Bool.not_eq_false,
    Bool.not_eq_false] at hvalid
  obtain ⟨⟨hselling, hbuying⟩, -, _, -⟩ := hvalid
  have hprice : 0 < op.price.n ∧ 0 < op.price.d := by omega
  cases h with
  | create hid =>
    refine ⟨?_, hselling, hbuying, hamount, hprice, ?_⟩
    · show op.offerID ≤ INT64_MAX
      rw [hid]
      decide
    · show (if passive then PASSIVE_FLAG else 0) &&& _ = 0
      cases passive <;> decide
  | update _ ho =>
    have hold := hs.offer ho
    refine ⟨?_, hselling, hbuying, hamount, hprice, hold.flags⟩
    obtain ⟨-, hid⟩ := s.key_of_offer ho
    show op.offerID ≤ INT64_MAX
    rw [← hid]
    exact hold.offerID

theorem Leaves.valid {creatingNewOffer : Bool} {effect : ManageOfferEffect} {cs : List Change}
    (h : Leaves newOffer s creatingNewOffer effect cs s') (hs : AllValid s)
    (hid : s.header.idPool < INT64_MAX) (hnew : 0 < newOffer.amount → newOffer.IsValid) :
    AllValid s' := by
  have hplacement {o : OfferEntry} (ho : o.IsValid) : ∀ c ∈ placement o, c.Brings := by
    intro c hc
    rcases mem_cons.mp hc with rfl | hc
    · exact ho
    · exact brings_of_amounts liabilityChanges_amounts c hc
  cases h with
  | created hamount _ hjournal =>
    have hnext : ((nextID s.header).idPool) ≤ INT64_MAX := by
      unfold nextID
      push_cast
      omega
    refine hs.journal hjournal fun c hc => ?_
    rcases mem_cons.mp hc with rfl | hc
    · trivial
    · rcases mem_cons.mp hc with rfl | hc
      · trivial
      · refine hplacement ?_ c hc
        exact { hnew hamount with offerID := hnext }
  | updated hamount _ hjournal => exact hs.journal hjournal (hplacement (hnew hamount))
  | nothing => exact hs
  | deleted _ hjournal =>
    refine hs.journal hjournal fun c hc => ?_
    rw [mem_singleton.mp hc]
    trivial

theorem Applies.valid {r : ManageOfferSuccessResult} (h : op.Applies env sourceID passive s r s')
    (hs : AllValid s) (hid : s.header.idPool < INT64_MAX) (hvalid : op.doCheckValid = .ok ()) :
    AllValid s' := by
  cases h with
  | delete hamount hprepare hleave =>
    obtain ⟨-, hnew, -⟩ := hprepare.newOffer_eq
    obtain ⟨hs₁, hheader⟩ := hprepare.valid hs
    refine hleave.valid hs₁ (hheader ▸ hid) fun hpos => absurd ?_ hamount
    rwa [hnew] at hpos
  | cross _ _ _ hprepare hcross hleave =>
    obtain ⟨hs₁, hheader₁⟩ := hprepare.valid hs
    obtain ⟨hs₂, hheader₂⟩ := hcross.invariant (keptByCrossing_valid s.header)
      (balance_valid s.header) ⟨hs₁, hheader₁⟩
    exact hleave.valid hs₂ (hheader₂ ▸ hid) (hprepare.newOffer_valid hvalid hs)

end ManageOfferOp

/-! ## Options -/

theorem Counts.le {header : LedgerHeader} {acc : AccountEntry} {n m : Nat} {counts : List Int}
    (h : Counts header acc n counts m) (hn : n ≤ INT32_MAX) : m ≤ INT32_MAX := by
  induction h with
  | nil => exact hn
  | cons hadd _ ih =>
    obtain ⟨hcount, -, heq⟩ := AccountEntry.addNumEntries_eq_some.mp hadd
    refine ih ?_
    have hentries := congrArg AccountEntry.numSubEntries heq
    simp only [AccountEntry.withEntries] at hentries
    rw [hentries]
    exact AccountEntry.newEntriesCount_le hcount

theorem signerLe_trans (a b c : Signer) (hab : signerLe a b = true) (hbc : signerLe b c = true) :
    signerLe a c = true := by
  simp only [signerLe, decide_eq_true_eq] at *
  omega

theorem signerLe_total (a b : Signer) : (signerLe a b || signerLe b a) = true := by
  simp only [signerLe, Bool.or_eq_true, decide_eq_true_eq]
  omega

/-- Signers with different keys are strictly increasing once they are sorted. -/
theorem sortedSigners_mergeSort {signers : List Signer}
    (h : signers.Pairwise fun a b => a.key ≠ b.key) :
    SortedSigners (signers.mergeSort signerLe) := by
  have hle := pairwise_mergeSort signerLe_trans signerLe_total signers
  have hne := (mergeSort_perm signers signerLe).symm.pairwise h fun hab => Ne.symm hab
  exact hle.and hne

namespace SetOptionsOp

variable {op : SetOptionsOp} {acc acc' : AccountEntry} {header : LedgerHeader}

/-- What `doCheckValid` has seen to -/
structure Checked (op : SetOptionsOp) : Prop where
  setFlags : ∀ flags, op.setFlags = some flags → flags &&& complement32 MASK_ACCOUNT_FLAGS = 0
  weight : ∀ signer, op.signer = some signer → signer.weight ≤ UINT8_MAX
  homeDomain : ∀ domain, op.homeDomain = some domain → isString32Valid domain = true

theorem checked (h : op.doCheckValid sourceID = .ok ()) : op.Checked := by
  unfold doCheckValid at h
  rw [ite_throw_eq_ok, ite_throw_eq_ok, ite_throw_eq_ok] at h
  obtain ⟨hset, -, -, h⟩ := h
  obtain ⟨_, -, h⟩ := bind_eq_ok.mp h
  obtain ⟨_, -, h⟩ := bind_eq_ok.mp h
  obtain ⟨_, -, h⟩ := bind_eq_ok.mp h
  obtain ⟨_, -, h⟩ := bind_eq_ok.mp h
  rw [ite_throw_eq_ok, ite_throw_eq_ok, ite_throw_eq_ok] at h
  obtain ⟨-, hweight, hdomain, -⟩ := h
  refine ⟨fun flags hflags => ?_, fun signer hsigner => ?_, fun domain hhome => ?_⟩
  · rw [hflags] at hset
    have hmask : flags &&& complement32 allAccountFlags = 0 := by simpa using hset
    exact hmask
  · rw [hsigner] at hweight
    simpa using hweight
  · rw [hhome] at hdomain
    simpa using hdomain

variable (h : acc.IsValid)

include h

/-- The account with other signers, in their order -/
theorem normalize_valid {signers : List Signer} {n : Nat}
    (hn : n ≤ INT32_MAX) (hkeys : signers.Pairwise fun a b => a.key ≠ b.key)
    (hweights : ∀ signer ∈ signers, signer.weight ≤ UINT8_MAX ∧ signer.weight ≠ 0) :
    (normalizeSigners { acc with signers := signers, numSubEntries := n }).IsValid where
  balance := h.balance
  seqNum := h.seqNum
  numSubEntries := hn
  flags := h.flags
  homeDomain := h.homeDomain
  signers := sortedSigners_mergeSort hkeys
  weights signer hsigner := hweights signer (mem_mergeSort.mp hsigner)

theorem wlp_setInflationDest_valid : wlp (op.setInflationDest sourceID acc)
    (fun acc' s' => s' = s ∧ acc'.IsValid) s := by
  unfold setInflationDest
  split
  · exact ⟨rfl, h⟩
  · simp only [wp_bind, wp_loadAccount, wp_failIf, wp_pure, implies_true, true_and]
    exact fun _ => { h with }

theorem wlp_changeFlags_valid {flags : Option Nat} {change : Nat → Nat → Nat}
    (hchange : ∀ x, flags = some x → change acc.flags x &&& complement32 MASK_ACCOUNT_FLAGS = 0) :
    wlp (changeFlags flags change acc) (fun acc' s' => s' = s ∧ acc'.IsValid) s := by
  unfold changeFlags
  split
  · exact ⟨rfl, h⟩
  · simp only [wp_bind, wp_failIf, wp_pure, implies_true, true_and]
    exact fun _ => { h with flags := hchange _ rfl }

theorem setPlain_valid (hop : op.Checked) : (op.setPlain acc).IsValid := by
  refine { h with homeDomain := ?_ }
  unfold setPlain
  cases hhome : op.homeDomain with
  | none => exact h.homeDomain
  | some domain => exact hop.homeDomain domain hhome

theorem wlp_addSigner_valid {signer : Signer}
    (hweight : signer.weight ≤ UINT8_MAX) (hne : signer.weight ≠ 0) :
    wlp (addSigner header signer acc)
      (fun acc' s' => s' = s ∧ (normalizeSigners acc').IsValid) s := by
  have hkeys : acc.signers.Pairwise fun a b => a.key ≠ b.key := h.signers.imp And.right
  rw [addSigner, wlp, wp_ite]
  refine ⟨fun _ => ⟨rfl, normalize_valid h h.numSubEntries ?_ ?_⟩, fun hnot => ?_⟩
  · rw [pairwise_map]
    refine hkeys.imp fun hab => ?_
    split <;> split <;> exact hab
  · intro new hnew
    obtain ⟨old, hold, rfl⟩ := mem_map.mp hnew
    split
    · exact ⟨hweight, hne⟩
    · exact h.weights old hold
  · rw [wp_bind, wp_failIf]
    refine ⟨fun _ => trivial, fun _ => ?_⟩
    rw [wp_bind, wp_lift]
    refine ⟨fun added hadd => ?_, fun _ _ => trivial⟩
    rw [wp_bind, wp_orFail]
    refine ⟨fun acc' hadded => ?_, fun _ => trivial⟩
    rw [hadded] at hadd
    obtain ⟨hcount, -, rfl⟩ := AccountEntry.addNumEntries_eq_some.mp hadd
    have hle := AccountEntry.newEntriesCount_le hcount
    generalize (acc.newEntriesCount 1).toNat = n at hle
    refine ⟨rfl, normalize_valid h hle ?_ ?_⟩
    · have hnew : ∀ old ∈ acc.signers, old.key ≠ signer.key := by simpa using hnot
      exact pairwise_append.mpr ⟨hkeys, pairwise_singleton _ _, by simpa using hnew⟩
    · intro new hnew
      rcases mem_append.mp hnew with hold | hnew
      · exact h.weights new hold
      · rw [mem_singleton.mp hnew]
        exact ⟨hweight, hne⟩

theorem wlp_setSigner_valid (hop : op.Checked) :
    wlp (op.setSigner header acc) (fun acc' s' => s' = s ∧ acc'.IsValid) s := by
  unfold setSigner
  split
  · exact ⟨rfl, h⟩
  · rename_i signer hsigner
    split
    · rename_i hne
      exact (wlp_addSigner_valid h (hop.weight signer hsigner) hne).bind fun _ _ h => h
    · simp only [wp_bind, wp_lift, wp_pure, implies_true, and_true, true_and]
      intro acc' herase
      obtain ⟨_, m, rfl, hcounts, -⟩ := eraseSigners_counts herase
      refine normalize_valid h (hcounts.le h.numSubEntries) ?_ fun other hother => ?_
      · exact Pairwise.filter _ (h.signers.imp And.right)
      · exact h.weights other (mem_of_mem_filter hother)

omit h

theorem doApply_valid (hvalid : op.doCheckValid sourceID = .ok ()) (hs : AllValid s) :
    wlp (op.doApply sourceID) (fun _ s' => AllValid s') s := by
  have hop := checked hvalid
  simp only [doApply, wp_bind, wp_current, implies_true, and_true]
  intro acc hacc
  refine (wlp_setInflationDest_valid (hs.account hacc)).imp ?_
  rintro acc₁ _ ⟨rfl, h₁⟩
  refine (wlp_changeFlags_valid h₁ ?_).imp ?_
  · exact fun clear _ => flags_and h₁.flags _
  rintro acc₂ _ ⟨rfl, h₂⟩
  refine (wlp_changeFlags_valid h₂ ?_).imp ?_
  · exact fun set hset => flags_or h₂.flags (hop.setFlags set hset)
  rintro acc₃ _ ⟨rfl, h₃⟩
  refine (wlp_setSigner_valid (setPlain_valid h₃ hop) hop).imp ?_
  rintro acc' _ ⟨rfl, h'⟩
  exact hs.put h'

end SetOptionsOp

/-! ## Other operations -/

theorem getStartingSequenceNumber_nonneg {header : LedgerHeader}
    (hseq : header.ledgerSeq ≤ INT32_MAX) : 0 ≤ getStartingSequenceNumber header := by
  unfold getStartingSequenceNumber
  unfold INT32_MAX at hseq
  rw [Int.bmod_eq_of_le (by omega) (by omega)]
  exact Int.mul_nonneg (Int.natCast_nonneg _) (by decide)

theorem CreateAccountOp.doApply_valid {op : CreateAccountOp}
    (hvalid : op.doCheckValid sourceID = .ok ()) (hseq : s.header.ledgerSeq ≤ INT32_MAX)
    (hs : AllValid s) : wlp (op.doApply sourceID) (fun _ s' => AllValid s') s := by
  rw [CreateAccountOp.doCheckValid, ite_throw_eq_ok, not_le] at hvalid
  have hpos := hvalid.1
  have hstart := getStartingSequenceNumber_nonneg hseq
  have hnew : (op.newAccount s.header).IsValid :=
    { balance := hpos.le
      seqNum := by simpa only [CreateAccountOp.newAccount] using hstart
      numSubEntries := (by decide : 0 ≤ INT32_MAX)
      flags := Nat.zero_and _
      homeDomain := rfl
      signers := .nil
      weights := forall_mem_nil _ }
  refine (CreateAccountOp.doApply_journal hpos).imp fun _ s' hjournal => ?_
  refine hs.journal hjournal fun c hc => ?_
  simp only [mem_cons, not_mem_nil, or_false] at hc
  rcases hc with rfl | rfl
  · trivial
  · exact hnew

/-- Liabilities of accounts and trust lines are what the offers add up to; an issuer's offers of
its own asset are not counted. -/
def LiabilitiesMatch (s : LedgerState) : Prop := ∀ q ≠ .balance,
  (∀ id acc, s.account id = some acc → acc.amountOf q = offered s q id .native) ∧
    ∀ id asset tl, s.trustLine id asset = some tl → ¬ issues id asset →
      tl.amountOf q = offered s q id asset

theorem buying_nonneg_of_valid (h : o.IsValid) (hfits : o.Fits) :
    0 ≤ o.liability .buying := by
  have hp : ValidPrice o.price := ⟨h.price.1, hfits.1, h.price.2, hfits.2.1⟩
  have heq : o.liability .buying = (offerAmounts o.price o.amount INT64_MAX).2 := by
    unfold OfferEntry.liability
    rw [getOfferBuyingLiabilities_eq hp ⟨h.amount.le, hfits.2.2⟩]
    rfl
  rw [heq]
  exact (offerAmounts_within hp h.amount.le INT64_MAX_pos.le).sheep_nonneg

theorem AllValid.offered_nonneg (hs : AllValid s) (hfits : OffersFit s) (id : AccountID)
    (asset : Asset) : 0 ≤ offered s .buying id asset := by
  refine sum_nonneg fun x hx => ?_
  obtain ⟨o, ho, rfl⟩ := mem_map.mp hx
  unfold liabilityIn
  split
  · exact buying_nonneg_of_valid (hs.offer (s.mem_offers.mp ho)) (hfits o ho)
  · exact le_rfl

theorem ChangeTrustOp.doApply_valid {op : ChangeTrustOp} (hvalid : op.doCheckValid = .ok ())
    (hmatch : LiabilitiesMatch s) (hfits : OffersFit s) (hs : AllValid s) :
    wlp (op.doApply sourceID) (fun _ s' => AllValid s') s := by
  rw [ChangeTrustOp.doCheckValid, ite_throw_eq_ok, ite_throw_eq_ok, ite_throw_eq_ok, not_lt,
    Bool.not_eq_false] at hvalid
  obtain ⟨hlimit, hasset, hline, -⟩ := hvalid
  refine (ChangeTrustOp.doApply_journal hline hlimit).imp ?_
  rintro _ s' ⟨tl, rfl, htlasset, hissuer,
    hjournal | ⟨hne, hjournal⟩ | ⟨hne, ⟨issuer, hnew⟩, hjournal⟩⟩
  · refine hs.journal hjournal fun c hc => ?_
    simp only [mem_cons, not_mem_nil, or_false] at hc
    rcases hc with rfl | rfl <;> trivial
  · refine hs.journal hjournal fun c hc => ?_
    rw [mem_singleton.mp hc]
    refine ⟨by omega, ?_⟩
    cases hjournal with
    | cons hstep _ =>
      cases hstep with
      | setLimit htl =>
        have hbuying := (hmatch .buying (by simp)).2 _ _ tl htl fun h =>
          hissuer (htlasset ▸ h.2)
        show 0 ≤ tl.amountOf .buying
        rw [hbuying]
        exact hs.offered_nonneg hfits _ _
  · refine hs.journal hjournal fun c hc => ?_
    simp only [mem_cons, not_mem_nil, or_false] at hc
    rcases hc with rfl | rfl
    · trivial
    · have hpos : 0 < op.limit := by omega
      rw [hnew]
      refine ⟨hline, hasset, le_rfl, hpos, hpos.le, ?_⟩
      show (if issuer.isAuthRequired then 0 else AUTHORIZED_FLAG) &&& _ = 0
      split <;> decide

theorem AllowTrustOp.doApply_valid {op : AllowTrustOp} (hs : AllValid s) :
    wlp (op.doApply sourceID) (fun _ s' => AllValid s') s := by
  refine AllowTrustOp.doApply_journal.imp ?_
  rintro _ s' ⟨trust, tl, -, hjournal⟩
  refine hs.journal hjournal fun c hc => ?_
  rcases mem_append.mp hc with hc | hc
  · obtain ⟨o, -, hc⟩ := mem_flatMap.mp hc
    rcases mem_append.mp hc with hc | hc
    · exact brings_of_amounts liabilityChanges_amounts c hc
    · simp only [mem_cons, not_mem_nil, or_false] at hc
      rcases hc with rfl | rfl <;> trivial
  · rw [mem_singleton.mp hc]
    trivial

theorem ManageDataOp.doApply_valid {op : ManageDataOp} (hvalid : op.doCheckValid = .ok ())
    (hs : AllValid s) : wlp (op.doApply sourceID) (fun _ s' => AllValid s') s := by
  rw [ManageDataOp.doCheckValid, ite_throw_eq_ok, not_or, Bool.not_eq_false, not_lt] at hvalid
  refine ManageDataOp.doApply_journal.imp ?_
  rintro _ s' ⟨d, -, hname, hjournal | ⟨d', hjournal⟩ | hjournal⟩
  · refine hs.journal hjournal fun c hc => ?_
    simp only [mem_cons, not_mem_nil, or_false] at hc
    rcases hc with rfl | rfl
    · trivial
    · exact ⟨hname ▸ hvalid.1.1, hname ▸ hvalid.1.2⟩
  · refine hs.journal hjournal fun c hc => ?_
    rw [mem_singleton.mp hc]
    trivial
  · refine hs.journal hjournal fun c hc => ?_
    simp only [mem_cons, not_mem_nil, or_false] at hc
    rcases hc with rfl | rfl <;> trivial

theorem BumpSequenceOp.doApply_valid {op : BumpSequenceOp} (hs : AllValid s) :
    wlp (op.doApply sourceID) (fun _ s' => AllValid s') s := by
  refine BumpSequenceOp.doApply_journal.imp ?_
  rintro _ s' (hjournal | ⟨acc, hbump, hjournal⟩)
  · exact hs.journal hjournal (forall_mem_nil _)
  · refine hs.journal hjournal fun c hc => ?_
    rw [mem_singleton.mp hc]
    exact fun h => { h with seqNum := h.seqNum.trans hbump.le }

theorem Inflation.doApply_valid {a : Unit} (h : Inflation.doApply env s = .ok a s')
    (hs : AllValid s) : AllValid s' := by
  obtain ⟨_, _, _, hcs, -, -, hjournal⟩ := Inflation.doApply_journal h
  refine hs.journal hjournal fun c hc => ?_
  rcases mem_cons.mp hc with rfl | hc
  · trivial
  · rcases mem_append.mp hc with hc | hc
    · obtain ⟨_, -, rfl⟩ := hcs c hc
      trivial
    · rw [mem_singleton.mp hc]
      trivial

theorem MergeOp.doApply_valid {op : MergeOp} (hvalid : op.doCheckValid sourceID = .ok ())
    (hs : AllValid s) : wlp (op.doApply sourceID) (fun _ s' => AllValid s') s := by
  rw [MergeOp.doCheckValid, ite_throw_eq_ok] at hvalid
  refine (MergeOp.doApply_journal hvalid.1).imp ?_
  rintro _ s' ⟨acc, -, hjournal⟩
  refine hs.journal hjournal fun c hc => ?_
  simp only [mem_cons, not_mem_nil, or_false] at hc
  rcases hc with rfl | rfl <;> trivial

/-! ## Every operation -/

theorem doApply_valid {body : OperationBody} (hvalid : body.doCheckValid sourceID = .ok ())
    (hseq : s.header.ledgerSeq ≤ INT32_MAX) (hid : s.header.idPool < INT64_MAX)
    (hmatch : LiabilitiesMatch s) (hfits : OffersFit s) (hs : AllValid s) :
    wlp (body.doApply env sourceID) (fun _ s' => AllValid s') s := by
  cases body with
  | createAccount op => exact CreateAccountOp.doApply_valid hvalid hseq hs
  | payment op =>
    refine PaymentOp.doApply_applies.imp ?_
    rintro _ s' (rfl | ⟨hops, w, happlies⟩)
    · exact hs
    · exact happlies.valid hs
  | pathPayment op =>
    rw [OperationBody.doApply, wlp]
    refine PathPaymentOp.doApply_applies.bind ?_
    rintro w s' ⟨hops, happlies⟩
    exact happlies.valid hs
  | manageOffer op =>
    rw [OperationBody.doApply, wlp]
    exact ManageOfferOp.doApply_applies.bind fun _ _ h => h.valid hs hid hvalid
  | createPassiveOffer op =>
    rw [OperationBody.doApply, wlp]
    exact ManageOfferOp.doApply_applies.bind fun _ _ h => h.valid hs hid hvalid
  | setOptions op => exact SetOptionsOp.doApply_valid hvalid hs
  | changeTrust op => exact ChangeTrustOp.doApply_valid hvalid hmatch hfits hs
  | allowTrust op => exact AllowTrustOp.doApply_valid hs
  | accountMerge op => exact MergeOp.doApply_valid hvalid hs
  | inflation =>
    rw [wlp_iff]
    exact fun _ _ hrun => Inflation.doApply_valid hrun hs
  | manageData op => exact ManageDataOp.doApply_valid hvalid hs
  | bumpSequence op => exact BumpSequenceOp.doApply_valid hs

/-- An operation stays in its ledger, and in its protocol. -/
theorem doApply_header {body : OperationBody} (hvalid : body.doCheckValid sourceID = .ok ()) :
    wlp (body.doApply env sourceID) (fun _ s' => s'.header.ledgerSeq = s.header.ledgerSeq ∧
      s'.header.ledgerVersion = s.header.ledgerVersion) s := by
  refine (doApply_changes hvalid).imp ?_
  rintro _ s' ⟨cs, -, hjournal⟩
  refine hjournal.preserves (P := fun s' => s'.header.ledgerSeq = s.header.ledgerSeq ∧
    s'.header.ledgerVersion = s.header.ledgerVersion) (fun s₁ c s₂ hstep hs₁ => ?_) ⟨rfl, rfl⟩
  cases hstep with
  | header hversion hseq _ => exact ⟨hseq.trans hs₁.1, hversion.trans hs₁.2⟩
  | _ => exact hs₁

/-- An open ledger transaction that has recorded entries of a state, which it will mark as
modified in this ledger -/
structure Records (t : LedgerTxnImpl) (s : LedgerState) : Prop where
  isOpen : t.mIsSealed = false
  marks : t.mShouldUpdateLastModified = true
  header : t.mHeader = s.header
  entries : ∀ key entry, t.mEntry.lookup key = some entry →
    entry.map (·.data) = s.lookup key

/-- The checks of an operation's delta report nothing, if entries were valid before, liabilities
match the offers, and there are identifiers left. -/
theorem valid_after_operation (env : TxEnv) (body : OperationBody) (sourceID : AccountID)
    (s s' : LedgerState) (hversion : 10 ≤ s.header.ledgerVersion)
    (hseq : s.header.ledgerSeq ≤ INT32_MAX) (hid : s.header.idPool < INT64_MAX)
    (hentries : ∀ key d, s.lookup key = some d → d.checkIsValid s.header.ledgerVersion = "")
    (hmatch : LiabilitiesMatch s) (hfits : OffersFit s)
    (hvalid : body.doCheckValid sourceID = .ok ()) (hrun : body.doApply env sourceID s = .ok () s')
    (ltxEnv : LtxEnv) (stack stack' : Stack ltxEnv) (level : Nat) (t : LedgerTxnImpl)
    (ht : stack.txns[level]? = some t) (hrecords : Records t s') (o : IterationOrder)
    (delta : LedgerTxnDelta) (hdelta : getDelta level o stack = .ok delta stack')
    (xdrToString : LedgerEntry → String) : checkOnOperationApply xdrToString delta = "" := by
  have hs : AllValid s := fun key d h =>
    (LedgerEntryData.checkIsValid_eq_empty hversion).mp (hentries key d h)
  have hs' := (doApply_valid hvalid hseq hid hmatch hfits hs).of_ok hrun
  obtain ⟨hsameSeq, hsameVersion⟩ := (doApply_header hvalid).of_ok hrun
  obtain ⟨hheader, hcurrent⟩ := (wlp_getDelta ht hrecords.isOpen o).of_ok hdelta
  rw [hrecords.header] at hheader
  refine checkOnOperationApply_eq_empty ?_ ?_ fun key d hd current hsome => ?_
  · rw [hheader, hsameVersion]
    exact hversion
  · rw [hheader, hsameSeq]
    exact hseq
  · have hmarked := hcurrent key d hd
    rw [maybeUpdateLastModified, Overlay.lookup_mapValues, hsome] at hmarked
    obtain ⟨_, hrecorded, hmarked⟩ := map_eq_some_iff.mp hmarked
    obtain ⟨entry, rfl, hentry⟩ := map_eq_some_iff.mp hmarked
    rw [if_pos hrecords.marks] at hentry
    subst hentry
    refine ⟨congrArg LedgerHeader.ledgerSeq (hrecords.header.trans hheader.symm), ?_⟩
    exact hs' key entry.data (hrecords.entries key _ hrecorded).symm

/-! ## The identifiers of offers -/

/-- An account, with a number of sub-entries and liabilities -/
def sellerAccount (numSubEntries : Nat) (ext : Option Liabilities) : AccountEntry :=
  ⟨1, 100, 0, numSubEntries, none, 0, "", ⟨1, 0, 0, 0⟩, [], ext⟩

def sellerHeader (idPool : Nat) : LedgerHeader := ⟨10, 0, 2, 500, 100, 0, idPool, 100, 5⟩

/-- A ledger with this account only, in which a number of identifiers are used up -/
def sellerOnly (idPool : Nat) : LedgerState :=
  .ofEntries (sellerHeader idPool) [.account (sellerAccount 0 none)]

/-- The account offers an asset that it issues. -/
def offerOwn : OfferEntry :=
  ⟨1, 0, .alphaNum4 (.replicate 4 65) 1, .native, 10, ⟨1, 1⟩, 0⟩

def sellOwn : OperationBody :=
  .manageOffer ⟨offerOwn.selling, offerOwn.buying, offerOwn.amount, offerOwn.price, 0⟩

/-- The transaction in which the operation has recorded the account and its offer -/
def sellOwnTxn (offerID : Nat) : LedgerTxnImpl :=
  { newImpl (sellerHeader offerID) true with
    mEntry := AList.insert (.account 1) (some ⟨1, .account (sellerAccount 1 (some ⟨10, 0⟩))⟩)
      (AList.insert (.offer 1 offerID) (some ⟨0, .offer { offerOwn with offerID := offerID }⟩) ∅) }

def sellOwnStack (offerID : Nat) : Stack smallEnv where
  txns := [sellOwnTxn offerID]
  root := (Stack.initial (sellerHeader offerID) ∅ [] [] : Stack smallEnv).root

theorem lookup_sellerOnly {idPool : Nat} {key : LedgerKey} {d : LedgerEntryData}
    (h : (sellerOnly idPool).lookup key = some d) :
    key = .account 1 ∧ d = .account (sellerAccount 0 none) := by
  rw [sellerOnly, LedgerState.ofEntries, LedgerState.lookup_put] at h
  split at h
  · rename_i hkey
    exact ⟨hkey, (some.inj h).symm⟩
  · cases h

theorem sellerOnly_valid (idPool : Nat) : ∀ key d, (sellerOnly idPool).lookup key = some d →
    d.checkIsValid (sellerOnly idPool).header.ledgerVersion = "" := by
  intro key d h
  obtain ⟨-, rfl⟩ := lookup_sellerOnly h
  rfl

theorem sellerOnly_match (idPool : Nat) : LiabilitiesMatch (sellerOnly idPool) := by
  intro q hq
  refine ⟨fun id acc hacc => ?_, fun id asset tl htl => ?_⟩
  · obtain ⟨-, hd⟩ := lookup_sellerOnly (LedgerState.account_eq_some_iff.mp hacc)
    obtain rfl := LedgerEntryData.account.inj hd
    cases q with
    | balance => exact absurd rfl hq
    | buying => rfl
    | selling => rfl
  · obtain ⟨-, hd⟩ := lookup_sellerOnly (LedgerState.trustLine_eq_some_iff.mp htl)
    cases hd

theorem sellerOnly_fits (idPool : Nat) : OffersFit (sellerOnly idPool) := by
  intro o ho
  cases ho

/-- The account stands behind its new offer. -/
abbrev Offers (offerID : Nat) (s' : LedgerState) : Prop :=
  s'.header = sellerHeader offerID ∧
  s'.lookup (.account 1) = some (.account (sellerAccount 1 (some ⟨10, 0⟩))) ∧
  s'.lookup (.offer 1 offerID) = some (.offer { offerOwn with offerID := offerID })

theorem records_sellOwn {offerID : Nat} {s' : LedgerState} (hs' : Offers offerID s') :
    Records (sellOwnTxn offerID) s' where
  isOpen := rfl
  marks := rfl
  header := hs'.1.symm
  entries key entry h := by
    unfold sellOwnTxn at h
    by_cases hkey : key = .account 1
    · subst hkey
      cases h
      exact hs'.2.1.symm
    · rw [lookup_insert_ne hkey] at h
      by_cases hkey' : key = .offer 1 offerID
      · subst hkey'
        rw [lookup_insert] at h
        cases h
        exact hs'.2.2.symm
      · rw [lookup_insert_ne hkey'] at h
        cases h

/-- With the eighth identifier, the account and its new offer pass. -/
theorem valid_after_sellOwn : ∃ s' delta stack',
    sellOwn.doApply ⟨fun _ _ => false, fun _ _ _ => []⟩ 1 (sellerOnly 7) = .ok () s' ∧
    Records (sellOwnTxn 8) s' ∧
    getDelta 0 .recorded (sellOwnStack 8) = .ok delta stack' ∧
    checkOnOperationApply (fun _ => "") delta = "" := by
  obtain ⟨s', hrun, hs'⟩ : ∃ s', sellOwn.doApply ⟨fun _ _ => false, fun _ _ _ => []⟩ 1
      (sellerOnly 7) = .ok () s' ∧ Offers 8 s' := ⟨_, by with_unfolding_all rfl, by decide +kernel⟩
  obtain ⟨delta, stack', hdelta⟩ : ∃ delta stack',
      getDelta 0 .recorded (sellOwnStack 8) = .ok delta stack' := ⟨_, _, rfl⟩
  have hrecords := records_sellOwn hs'
  refine ⟨s', delta, stack', hrun, hrecords, hdelta, ?_⟩
  exact valid_after_operation _ sellOwn 1 _ _ (by decide) (by decide) (by decide)
    (sellerOnly_valid 7) (sellerOnly_match 7) (sellerOnly_fits 7) rfl hrun smallEnv _ stack' 0 _ rfl
    hrecords .recorded delta hdelta _

/-- When all identifiers that an `int64` can hold are used up, an offer still gets one, and is
reported. -/
theorem invalid_after_sellOwn :
    (∀ key d, (sellerOnly (2 ^ 63 - 1)).lookup key = some d → d.checkIsValid 10 = "") ∧
    LiabilitiesMatch (sellerOnly (2 ^ 63 - 1)) ∧ OffersFit (sellerOnly (2 ^ 63 - 1)) ∧
    RightCounts (sellerOnly (2 ^ 63 - 1)) ∧ sellOwn.doCheckValid 1 = .ok () ∧
    ∃ s' delta stack',
      sellOwn.doApply ⟨fun _ _ => false, fun _ _ _ => []⟩ 1 (sellerOnly (2 ^ 63 - 1)) = .ok () s' ∧
      Records (sellOwnTxn (2 ^ 63)) s' ∧
      getDelta 0 .recorded (sellOwnStack (2 ^ 63)) = .ok delta stack' ∧
      ∀ xdrToString, checkOnOperationApply xdrToString delta ≠ "" := by
  obtain ⟨s', hrun, hs'⟩ : ∃ s', sellOwn.doApply ⟨fun _ _ => false, fun _ _ _ => []⟩ 1
      (sellerOnly (2 ^ 63 - 1)) = .ok () s' ∧ Offers (2 ^ 63) s' :=
    ⟨_, by with_unfolding_all rfl, by decide +kernel⟩
  obtain ⟨delta, stack', hdelta, hheader', d, hmem, hcurrent⟩ : ∃ delta stack',
      getDelta 0 .recorded (sellOwnStack (2 ^ 63)) = .ok delta stack' ∧
      delta.header.current = sellerHeader (2 ^ 63) ∧
      ∃ d, ⟨.offer 1 (2 ^ 63), d⟩ ∈ delta.entry.entries ∧
        d.current = some ⟨2, .offer { offerOwn with offerID := 2 ^ 63 }⟩ :=
    ⟨_, _, rfl, rfl, _, mem_cons_self, rfl⟩
  refine ⟨sellerOnly_valid _, sellerOnly_match _, sellerOnly_fits _, ?_, rfl, s', delta, stack',
    hrun, records_sellOwn hs', hdelta, fun xdrToString h => ?_⟩
  · intro id acc hacc
    obtain ⟨_, hd⟩ := lookup_sellerOnly (LedgerState.account_eq_some_iff.mp hacc)
    obtain rfl := LedgerEntryData.account.inj hd
    rfl
  · unfold checkOnOperationApply at h
    rw [hheader'] at h
    have hpasses := checkEntries_eq_empty.mp h _ hmem _ hcurrent
    rw [LedgerEntry.checkIsValid, if_neg fun hne => hne rfl] at hpasses
    have hid := (OfferEntry.checkIsValid_eq_empty.mp hpasses).offerID
    exact absurd hid (by decide)

end EssaCore.Transactions
