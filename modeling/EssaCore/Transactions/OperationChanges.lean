import EssaCore.Transactions.OfferChanges
import EssaCore.Transactions.Operation
import EssaCore.Transactions.PathPayments

/-!
# What operations change

The lists of changes that the twelve kinds of operations make when they succeed, and what
these lists add up to.

- `flow` — what the sellers of offers gain of an asset;
- `Changes` — the changes of an operation;
- `doApply_changes` — a successful operation makes one of these lists of changes.
-/

open List

namespace EssaCore.Transactions

open Ledger Lib ManageOfferOp

/-! ## The flow of an asset -/

/-- What the sellers of the offers that are taken gain of an asset -/
def flow (asset : Asset) (rounds : List (OfferEntry × CrossOfferResult)) : Int :=
  (rounds.map fun p => (if p.1.buying = asset then p.2.numSheepSend else 0) -
    (if p.1.selling = asset then p.2.numWheatReceived else 0)).sum

section Flow

variable {rounds : List (OfferEntry × CrossOfferResult)} {cs : List Change}

theorem flow_append (asset : Asset) (rounds rounds' : List (OfferEntry × CrossOfferResult)) :
    flow asset (rounds ++ rounds') = flow asset rounds + flow asset rounds' := by
  rw [flow, flow, flow, map_append, sum_append]

/-- Offers that sell wheat for sheep -/
theorem flow_eq {sheep wheat : Asset}
    (h : ∀ p ∈ rounds, p.1.buying = sheep ∧ p.1.selling = wheat) (asset : Asset) :
    flow asset rounds = (if sheep = asset then totalSheep rounds else 0) -
      (if wheat = asset then totalWheat rounds else 0) := by
  induction rounds with
  | nil => simp [flow, totalSheep, totalWheat]
  | cons p rounds ih =>
    have hrest := ih fun p hp => h p (mem_cons_of_mem _ hp)
    obtain ⟨hbuying, hselling⟩ := h p mem_cons_self
    simp only [flow, totalSheep, totalWheat, map_cons, sum_cons, hbuying,
      hselling] at hrest ⊢
    rw [hrest]
    split <;> split <;> omega

theorem crossChanges_coins {o : OfferEntry} {ex : ExchangeResultV10} {amount : Int} :
    ((crossChanges o ex amount).map Change.coins).sum =
      flow .native [(o, crossResult o ex amount)] := by
  have hfinish : ((finishChanges o amount).map Change.coins).sum = 0 := by
    unfold finishChanges
    split <;> rfl
  have hzero (asset : Asset) : (Change.amount .balance o.sellerID asset 0).coins = 0 := by
    cases asset <;> rfl
  have hcoins (asset : Asset) (delta : Int) :
      (Change.amount .balance o.sellerID asset delta).coins =
        if asset = .native then delta else 0 := by
    cases asset <;> rfl
  rw [crossChanges, settleChanges, map_append, sum_append, map_append,
    sum_append, map_append, sum_append, settleChange_sum (hzero _),
    settleChange_sum (hzero _), hcoins, hcoins]
  simp only [flow, crossResult, liabilityChanges, map_cons, map_nil, sum_cons,
    Change.coins]
  split <;> split <;> omega

theorem TradeChanges.coins (h : TradeChanges rounds cs) :
    (cs.map Change.coins).sum = flow .native rounds := by
  induction h with
  | nil => rfl
  | cons _ ih =>
    rw [map_append, sum_append, crossChanges_coins, ih, ← flow_append]
    rfl

end Flow

namespace PathPaymentOp

variable {env : TxEnv} {sourceID : AccountID} {s s' : LedgerState} {path : List Asset}
  {w w' : Walked} {hops : List Hop}

/-- What is needed of one asset is exchanged for what is needed of another. -/
theorem Walks.flow (h : Walks env sourceID s path w hops w' s') (asset : Asset) :
    flow asset (hops.flatMap (·.rounds)) = (if w'.curB = asset then w'.curBReceived else 0) -
      (if w.curB = asset then w.curBReceived else 0) := by
  induction h with
  | done => exact (Int.sub_self _).symm
  | same _ _ ih => exact ih
  | hop _ hspec hidle _ hwheat _ ih =>
    have hkept := hspec.kept hidle
    obtain ⟨hsheep, hwheat'⟩ := hspec.totals hidle
    rw [flatMap_cons, flow_append, ih,
      flow_eq (fun p hp => ⟨(hkept p hp).1, (hkept p hp).2.1⟩), hsheep, hwheat, hwheat']
    dsimp only
    omega

end PathPaymentOp

/-! ## The changes of an operation -/

open ManageOfferOp (withdrawal placement settlement)

/-- What happens to an offer that is managed: the offer that was taken out of the book, and the
changes that leave a new one -/
inductive Remains (sourceID : AccountID) : List OfferEntry → List Change → Prop
  | created {o : OfferEntry} {h h' : LedgerHeader} (hseller : o.sellerID = sourceID)
      (htotal : h'.totalCoins = h.totalCoins) (hpool : h'.feePool = h.feePool) :
      Remains sourceID [] (.numEntries sourceID 1 :: .header h h' :: placement o)
  | nothing : Remains sourceID [] []
  | updated {o old : OfferEntry} (hseller : o.sellerID = sourceID) :
      Remains sourceID [old] (placement o)
  | deleted {old : OfferEntry} : Remains sourceID [old] [.numEntries sourceID (-1)]

/-- The changes that an operation makes when it succeeds -/
inductive Changes (sourceID : AccountID) : OperationBody → List Change → Prop
  | nothing {body : OperationBody} : Changes sourceID body []
  | createAccount {op : CreateAccountOp} {acc : AccountEntry}
      (hbalance : acc.balance = op.startingBalance) :
      Changes sourceID (.createAccount op)
        [.amount .balance sourceID .native (-op.startingBalance), .createAccount acc]
  | payment {body : OperationBody} {destination : AccountID} {asset asset' : Asset}
      {amount amount' : Int} {rounds : List (OfferEntry × CrossOfferResult)} {cs : List Change}
      (htrade : TradeChanges rounds cs)
      (hflow : ∀ a, flow a rounds =
        (if asset' = a then amount' else 0) - (if asset = a then amount else 0)) :
      Changes sourceID body (.amount .balance destination asset amount ::
        (cs ++ [.amount .balance sourceID asset' (-amount')]))
  | offer {body : OperationBody} {old : List OfferEntry} {newOffer : OfferEntry} {c : Converted}
      {rounds : List (OfferEntry × CrossOfferResult)} {cs left : List Change}
      (hold : ∀ o ∈ old, o.sellerID = sourceID) (hseller : newOffer.sellerID = sourceID)
      (htrade : TradeChanges rounds cs)
      (hflow : ∀ a, flow a rounds = (if newOffer.selling = a then c.sheepSend else 0) -
        (if newOffer.buying = a then c.wheatReceived else 0))
      (hzero : c.wheatReceived ≤ 0 → c.wheatReceived = 0 ∧ c.sheepSend = 0)
      (hleft : Remains sourceID old left) :
      Changes sourceID body (old.flatMap withdrawal ++ (cs ++ (settlement newOffer c ++ left)))
  | setOptions {op : SetOptionsOp} {acc acc' : AccountEntry} {counts : List Int}
      (hid : acc.accountID = sourceID) (hone : counts = [1] ∨ ∀ count ∈ counts, count = -1)
      (hsigners : (acc'.signers.length : Int) = acc.signers.length + counts.sum) :
      Changes sourceID (.setOptions op)
        (.settings acc acc' :: counts.map (.numEntries sourceID))
  | eraseTrustLine {op : ChangeTrustOp} {tl : TrustLineEntry} (hid : tl.accountID = sourceID) :
      Changes sourceID (.changeTrust op) [.eraseTrustLine tl, .numEntries sourceID (-1)]
  | setLimit {op : ChangeTrustOp} {tl : TrustLineEntry} (hid : tl.accountID = sourceID) :
      Changes sourceID (.changeTrust op) [.setLimit tl op.limit]
  | createTrustLine {op : ChangeTrustOp} {tl : TrustLineEntry} (hid : tl.accountID = sourceID)
      (hissuer : ¬ issues sourceID tl.asset) :
      Changes sourceID (.changeTrust op) [.numEntries sourceID 1, .createTrustLine tl]
  | allowTrust {op : AllowTrustOp} {os : List OfferEntry} {tl : TrustLineEntry} :
      Changes sourceID (.allowTrust op)
        (AllowTrustOp.deletions os ++ [.setAuthorized tl op.authorize])
  | accountMerge {op : MergeOp} {acc : AccountEntry} :
      Changes sourceID (.accountMerge op)
        [.amount .balance op.destination .native acc.balance, .eraseAccount acc]
  | inflation {cs : List Change} {h h₁ h₂ : LedgerHeader} (hcs : Inflation.Credits cs)
      (hcoins : 2 ^ 64 ∣ h₂.totalCoins - h₂.feePool -
        (h.totalCoins - h.feePool + (cs.map Change.coins).sum))
      (htotal : h₁.totalCoins = h.totalCoins ∧ int64 h₂.totalCoins = h₂.totalCoins) :
      Changes sourceID .inflation (.header h h₁ :: (cs ++ [.header h₁ h₂]))
  | createData {op : ManageDataOp} {d : DataEntry} (hid : d.accountID = sourceID) :
      Changes sourceID (.manageData op) [.numEntries sourceID 1, .createData d]
  | setData {op : ManageDataOp} {d d' : DataEntry} :
      Changes sourceID (.manageData op) [.setData d d']
  | eraseData {op : ManageDataOp} {d : DataEntry} (hid : d.accountID = sourceID) :
      Changes sourceID (.manageData op) [.eraseData d, .numEntries sourceID (-1)]
  | bumpSequence {op : BumpSequenceOp} {acc acc' : AccountEntry}
      (hsigners : acc'.signers = acc.signers) :
      Changes sourceID (.bumpSequence op) [.settings acc acc']

section Changes

variable {env : TxEnv} {sourceID : AccountID} {s : LedgerState}

variable {passive : Bool} {op : ManageOfferOp} {body : OperationBody} {s' : LedgerState}

theorem changes_of_pathPayment {op : PathPaymentOp}
    {hops : List PathPaymentOp.Hop} {w : PathPaymentOp.Walked}
    (h : op.Applies env sourceID s hops w s') :
    ∃ cs, Changes sourceID body cs ∧ Journal s cs s' := by
  obtain @⟨_, _, _, _, _, hcredit, hwalk, -, hdebit⟩ := h
  obtain ⟨cs, htrade, hjournal⟩ := hwalk.journal
  have hsend : w.curB = op.sendAsset := by
    rw [hwalk.curB]
    simp
  refine ⟨_, .payment htrade fun a => ?_, hcredit.append (hjournal.append hdebit)⟩
  rw [hwalk.flow, hsend]

theorem remains_of_leaves {creating : Bool}
    {newOffer offer : OfferEntry} {old : List OfferEntry} {s₁ s₂ : LedgerState}
    {effect : ManageOfferEffect} {cs : List Change}
    (hprepare : op.Prepares sourceID passive s newOffer old s₁)
    (hleave : ManageOfferOp.Leaves offer s₂ creating effect cs s')
    (hcreating : creating = decide (op.offerID = 0)) (hseller : offer.sellerID = sourceID) :
    Remains sourceID old cs := by
  subst hseller
  cases hprepare with
  | create hid =>
    rw [decide_eq_true hid] at hcreating
    cases hleave with
    | created => exact .created rfl rfl rfl
    | nothing => exact .nothing
    | updated => cases hcreating
    | deleted => cases hcreating
  | update hid =>
    rw [decide_eq_false hid] at hcreating
    cases hleave with
    | created => cases hcreating
    | nothing => cases hcreating
    | updated => exact .updated rfl
    | deleted => exact .deleted

theorem Prepares.journal {newOffer : OfferEntry} {old : List OfferEntry} {s₁ : LedgerState}
    (h : op.Prepares sourceID passive s newOffer old s₁) :
    newOffer.sellerID = sourceID ∧ (∀ o ∈ old, o.sellerID = sourceID) ∧
      Journal s (old.flatMap withdrawal) s₁ := by
  cases h with
  | create => exact ⟨rfl, nofun, .nil s⟩
  | update hid ho _ hjournal =>
    refine ⟨rfl, fun o hmem => ?_, ?_⟩
    · rw [mem_singleton.mp hmem, (s.key_of_offer ho).1]
    · exact hjournal

theorem changes_of_manageOffer {r : ManageOfferSuccessResult}
    (h : op.Applies env sourceID passive s r s') :
    ∃ cs, Changes sourceID body cs ∧ Journal s cs s' := by
  cases h with
  | @delete newOffer old s₁ _ effect cs _ hprepare hleave =>
    obtain ⟨hseller, hold, hjournal⟩ := Prepares.journal hprepare
    have hremains := remains_of_leaves hprepare hleave rfl hseller
    refine ⟨_, .offer (c := ⟨.eOK, 0, 0, []⟩) hold hseller .nil (fun a => ?_)
      (fun _ => ⟨rfl, rfl⟩) hremains, hjournal.append hleave.journal⟩
    simp [flow]
  | @cross newOffer old s₁ s₂ _ amount claimed effect cs _ _ _ hprepare hcross hleave =>
    obtain ⟨hseller, hold, hjournal⟩ := Prepares.journal hprepare
    obtain @⟨_, c, _, _, _, _, _, -, -, hspec, hidle, -, hsettle, -, -⟩ := hcross
    obtain ⟨hsheep, hwheat⟩ := hspec.totals hidle
    have hkept := hspec.kept hidle
    obtain ⟨_, htrade, htrades⟩ := hspec.journal hidle
    have hremains := remains_of_leaves hprepare hleave rfl hseller
    refine ⟨_, .offer hold hseller htrade (fun a => ?_) (fun h => ?_) hremains,
      hjournal.append (htrades.append (hsettle.append hleave.journal))⟩
    · rw [flow_eq (fun p hp => ⟨(hkept p hp).1, (hkept p hp).2.1⟩), hsheep, hwheat]
    · have hzero := le_antisymm h hspec.wheat_le.1
      exact ⟨hzero, hspec.sheep_eq_zero hidle hzero⟩

/-- A successful operation makes the changes of its kind. -/
theorem doApply_changes (hvalid : body.doCheckValid sourceID = .ok ()) :
    wlp (body.doApply env sourceID)
      (fun _ s' => ∃ cs, Changes sourceID body cs ∧ Journal s cs s') s := by
  cases body with
  | createAccount op =>
    have hpos : 0 < op.startingBalance := by
      by_contra h
      rw [OperationBody.doCheckValid, CreateAccountOp.doCheckValid, if_pos (not_lt.mp h)] at hvalid
      cases hvalid
    exact (CreateAccountOp.doApply_journal hpos).imp fun _ _ h => ⟨_, .createAccount rfl, h⟩
  | payment op =>
    refine PaymentOp.doApply_applies.imp ?_
    rintro _ s' (rfl | ⟨hops, w, happlies⟩)
    · exact ⟨[], .nothing, .nil _⟩
    · exact changes_of_pathPayment happlies
  | pathPayment op =>
    rw [OperationBody.doApply, wlp]
    refine PathPaymentOp.doApply_applies.bind ?_
    rintro w s' ⟨hops, happlies⟩
    exact changes_of_pathPayment happlies
  | manageOffer op =>
    rw [OperationBody.doApply, wlp]
    exact doApply_applies.bind fun _ _ h => changes_of_manageOffer h
  | createPassiveOffer op =>
    rw [OperationBody.doApply, wlp]
    exact doApply_applies.bind fun _ _ h => changes_of_manageOffer h
  | setOptions op =>
    refine SetOptionsOp.doApply_journal.imp ?_
    rintro _ s' ⟨acc, acc', counts, hid, hone, hsigners, hjournal⟩
    exact ⟨_, .setOptions hid hone hsigners, hjournal⟩
  | changeTrust op =>
    have hline : 0 ≤ op.limit ∧ op.line ≠ .native := by
      rw [OperationBody.doCheckValid, ChangeTrustOp.doCheckValid] at hvalid
      split at hvalid
      · cases hvalid
      · rename_i hlimit
        split at hvalid
        · cases hvalid
        · split at hvalid
          · cases hvalid
          · rename_i hline
            exact ⟨not_lt.mp hlimit, hline⟩
    refine (ChangeTrustOp.doApply_journal hline.2 hline.1).imp ?_
    rintro _ s' ⟨tl, hid, hasset, hissuer, hjournal | ⟨-, hjournal⟩ | ⟨-, -, hjournal⟩⟩
    · exact ⟨_, .eraseTrustLine hid, hjournal⟩
    · exact ⟨_, .setLimit hid, hjournal⟩
    · exact ⟨_, .createTrustLine hid fun h => hissuer (hasset ▸ h.2), hjournal⟩
  | allowTrust op =>
    refine AllowTrustOp.doApply_journal.imp ?_
    rintro _ s' ⟨trust, tl, -, hjournal⟩
    exact ⟨_, .allowTrust, hjournal⟩
  | accountMerge op =>
    have hne : sourceID ≠ op.destination := by
      intro h
      rw [OperationBody.doCheckValid, MergeOp.doCheckValid, if_pos h] at hvalid
      cases hvalid
    refine (MergeOp.doApply_journal hne).imp ?_
    rintro _ s' ⟨acc, -, hjournal⟩
    exact ⟨_, .accountMerge, hjournal⟩
  | inflation =>
    rw [wlp_iff]
    intro _ s' hrun
    obtain ⟨cs, _, _, hcs, hcoins, htotal, hjournal⟩ := Inflation.doApply_journal hrun
    exact ⟨_, .inflation hcs hcoins htotal, hjournal⟩
  | manageData op =>
    refine ManageDataOp.doApply_journal.imp ?_
    rintro _ s' ⟨d, hid, -, hjournal | ⟨d', hjournal⟩ | hjournal⟩
    · exact ⟨_, .createData hid, hjournal⟩
    · exact ⟨_, .setData, hjournal⟩
    · exact ⟨_, .eraseData hid, hjournal⟩
  | bumpSequence op =>
    refine BumpSequenceOp.doApply_journal.imp ?_
    rintro _ s' (hjournal | ⟨acc, -, hjournal⟩)
    · exact ⟨_, .nothing, hjournal⟩
    · exact ⟨_, .bumpSequence (by rfl), hjournal⟩

end Changes

end EssaCore.Transactions
