import EssaCore.Transactions.OperationChanges
import EssaCore.Transactions.ExchangeRounding

/-!
# Payouts of inflation

Inflation divides the new coins and the fee pool among the winners, by their votes and rounded
down. What is left goes back into the pool.

- `Payout`, `Pays` — the payouts of a run, with the accounts they are made to;
- `bigDivide_share` — the share of a winner;
- `DoleInv` — coins are left for the winners that are still to come;
- `wp_doleWinner`, `wp_dole` — one winner, and all of them;
- `wp_doApply`, `doApply_pays` — the operation does not throw, and nothing is lost or made up.
-/

open List

namespace EssaCore.Transactions.Inflation

open Ledger Lib LedgerState AccountEntry

/-- `inflationAmount` -/
def inflationAmount (header : LedgerHeader) : Int :=
  header.totalCoins * INFLATION_RATE_TRILLIONTHS / TRILLION

/-- The winners that `doApply` asks for -/
def winners (env : TxEnv) (s : LedgerState) : List InflationWinner :=
  env.queryInflationWinners s INFLATION_NUM_WINNERS
    (s.header.totalCoins * INFLATION_WIN_MIN_PERCENT / TRILLION)

/-- An element of `innerResult().payouts()`, with the account as it is before -/
structure Payout where
  winner : InflationWinner
  account : AccountEntry
  amount : Int

/-- One payout is credited. -/
def PaysOne (s : LedgerState) (p : Payout) (s' : LedgerState) : Prop :=
  s.account p.winner.accountID = some p.account ∧
    s' = s.put (.account { p.account with balance := p.account.balance + p.amount })

/-- Payouts are credited in turn. -/
abbrev Pays : LedgerState → List Payout → LedgerState → Prop := Trace PaysOne

/-- What payouts amount to -/
def paid (ps : List Payout) : Int := (ps.map Payout.amount).sum

/-- A payout is at most the share of the winner, and at most what its account can receive. -/
structure Payout.Within (p : Payout) (header : LedgerHeader) (amountToDole totalVotes : Int) :
    Prop where
  pos : 0 < p.amount
  share : p.amount ≤ amountToDole * p.winner.votes / totalVotes
  receives : p.amount ≤ p.account.getMaxAmountReceive header

/-- Balances are not negative, and leave room for what their accounts may buy. -/
def RoomToReceive (s : LedgerState) : Prop := ∀ id acc, s.account id = some acc →
  0 ≤ acc.balance ∧ acc.balance + acc.getBuyingLiabilities ≤ INT64_MAX

/-- What is left is enough for the shares of the winners that are still to come, and together with
the balances it stays what it was, `held`, which fits an `int64`. -/
structure DoleInv (held amountToDole totalVotes : Int) (ws : List InflationWinner)
    (s : LedgerState) (left : Int) : Prop where
  version : 10 ≤ s.header.ledgerVersion
  room : RoomToReceive s
  coins : s.sum coinsOf + left = held
  max : held ≤ INT64_MAX
  votes : ∀ w ∈ ws, 0 ≤ w.votes ∧ w.votes ≤ totalVotes
  shares : amountToDole * (ws.map InflationWinner.votes).sum ≤ left * totalVotes

variable {s s' : LedgerState} {C A T left : Int} {w : InflationWinner} {ws : List InflationWinner}

theorem int64_of_isAmount {x : Int} (h : IsAmount x) : int64 x = x :=
  int64_eq (by have := h.1; omega) h.2

/-! ## Shares -/

/-- A share is rounded down, and no more than everything. -/
theorem bigDivide_share {v : Int} (hA : IsAmount A) (hT : 0 < T) (hTmax : T ≤ INT64_MAX)
    (hv : 0 ≤ v ∧ v ≤ T) : bigDivide A v T .ROUND_DOWN = .ok (A * v / T) := by
  have hmul : A * v ≤ A * T := Int.mul_le_mul_of_nonneg_left hv.2 hA.1
  have hmax : A * T ≤ UINT128_MAX :=
    (Int.mul_le_mul hA.2 hTmax hT.le INT64_MAX_pos.le).trans (by decide)
  rw [bigDivide, assert_eq_ok.mpr ⟨hA.1, hv.1, hT⟩, divide128,
    uint128_eq (Int.mul_nonneg hA.1 hv.1) (hmul.trans hmax)]
  exact checkQuotient_eq ((Int.ediv_le_of_le_mul hT hmul).trans hA.2)

theorem RoomToReceive.coins_nonneg (hs : RoomToReceive s) :
    ∀ k d, s.lookup k = some d → 0 ≤ coinsOf d :=
  coinsOf_nonneg fun id acc hacc => (hs id acc hacc).1

variable {acc : AccountEntry}

/-- No account has more coins than there are. -/
theorem balance_le_coins (hs : RoomToReceive s) {id : AccountID}
    (hacc : s.account id = some acc) : acc.balance ≤ s.sum coinsOf :=
  s.le_sum_of_lookup hs.coins_nonneg (s.account_eq_some_iff.mp hacc)

/-! ## Payouts -/

theorem header_of_pays {ps : List Payout} (h : Pays s ps s') : s'.header = s.header :=
  h.preserves (P := fun s' => s'.header = s.header) (fun _ _ _ hp hs => by rw [hp.2]; exact hs) rfl

theorem DoleInv.left_nonneg (h : DoleInv C A T ws s left) (hA : 0 ≤ A) (hT : 0 < T) : 0 ≤ left := by
  have hsum : 0 ≤ (ws.map InflationWinner.votes).sum := sum_nonneg fun v hv => by
    obtain ⟨w, hw, rfl⟩ := mem_map.mp hv
    exact (h.votes w hw).1
  exact Int.nonneg_of_mul_nonneg_left ((Int.mul_nonneg hA hsum).trans h.shares) hT

theorem DoleInv.left_le (h : DoleInv C A T ws s left) : left ≤ INT64_MAX := by
  have := s.sum_nonneg_of_lookup h.room.coins_nonneg
  have := h.coins
  have := h.max
  omega

/-- A winner is passed over. -/
theorem DoleInv.skip (h : DoleInv C A T (w :: ws) s left) (hA : 0 ≤ A) :
    DoleInv C A T ws s left where
  version := h.version
  room := h.room
  coins := h.coins
  max := h.max
  votes w' hw' := h.votes w' (mem_cons_of_mem _ hw')
  shares := by
    have hvotes := Int.mul_nonneg hA (h.votes w mem_cons_self).1
    have hshares := h.shares
    rw [map_cons, sum_cons, Int.mul_add] at hshares
    omega

/-- A payout leaves enough for the winners that follow. -/
theorem DoleInv.pay (h : DoleInv C A T (w :: ws) s left) (hT : 0 < T)
    {amount : Int} (hacc : s.account w.accountID = some acc)
    (hwithin : Payout.Within ⟨w, acc, amount⟩ s.header A T) :
    DoleInv C A T ws (s.put (.account { acc with balance := acc.balance + amount }))
      (left - amount) where
  version := h.version
  room id acc' hacc' := by
    rw [s.account_put_account] at hacc'
    split at hacc'
    · cases hacc'
      have hroom := h.room _ _ hacc
      have hreceives := hwithin.receives
      have hpos := hwithin.pos
      rw [getMaxAmountReceive, if_pos h.version] at hreceives
      have hbuying : ({ acc with balance := acc.balance + amount }).getBuyingLiabilities =
        acc.getBuyingLiabilities := rfl
      dsimp only at *
      omega
    · exact h.room _ _ hacc'
  coins := by
    have hlookup : s.lookup (LedgerEntryData.account { acc with
        balance := acc.balance + amount }).key = some (.account acc) := by
      rw [s.accountID_of_account hacc]
      exact s.account_eq_some_iff.mp hacc
    have hcoins := h.coins
    rw [s.sum_put_of_some hlookup]
    simp only [coinsOf]
    omega
  max := h.max
  votes w' hw' := h.votes w' (mem_cons_of_mem _ hw')
  shares := by
    have hmul : amount * T ≤ A * w.votes :=
      (Int.mul_le_mul_of_nonneg_right hwithin.share hT.le).trans (Int.ediv_mul_le _ hT.ne')
    have hshares := h.shares
    rw [map_cons, sum_cons, Int.mul_add] at hshares
    rw [Int.sub_mul]
    omega

/-- Payouts are made to some of the winners, from what is left. -/
structure Doles (A T : Int) (ws : List InflationWinner) (s : LedgerState) (left : Int)
    (ps : List Payout) (left' : Int) (s' : LedgerState) : Prop where
  pays : Pays s ps s'
  winners : (ps.map Payout.winner).Sublist ws
  within : ∀ p ∈ ps, p.Within s.header A T
  left : left' + paid ps = left

theorem Doles.nothing : Doles A T ws s left [] left s :=
  ⟨.nil s, nil_sublist _, forall_mem_nil _, Int.add_zero _⟩

theorem Doles.append {ws' : List InflationWinner} {s'' : LedgerState} {left' left'' : Int}
    {ps ps' : List Payout} (h : Doles A T ws s left ps left' s')
    (h' : Doles A T ws' s' left' ps' left'' s'') :
    Doles A T (ws ++ ws') s left (ps ++ ps') left'' s'' where
  pays := h.pays.append h'.pays
  winners := by
    rw [map_append]
    exact h.winners.append h'.winners
  within p hp := by
    have hwithin := h'.within p
    rw [header_of_pays h.pays] at hwithin
    exact (mem_append.mp hp).elim (h.within p) hwithin
  left := by
    have hleft := h.left
    have hleft' := h'.left
    rw [paid, map_append, sum_append]
    unfold paid at *
    omega

/-- A payout fits the balance of the winner. -/
theorem DoleInv.addBalance_eq (h : DoleInv C A T (w :: ws) s left) (hA : 0 ≤ A) (hT : 0 < T)
    {amount : Int} (hacc : s.account w.accountID = some acc)
    (hwithin : Payout.Within ⟨w, acc, amount⟩ s.header A T) :
    acc.addBalance s.header amount = .ok (some { acc with balance := acc.balance + amount }) := by
  have hpay := h.pay hT hacc hwithin
  have hroom := h.room _ _ hacc
  have hpos : 0 < amount := hwithin.pos
  -- all coins together fit, with those that are left to pay
  have hmax : acc.balance + amount ≤ INT64_MAX := by
    have hle := balance_le_coins hpay.room
      (show _ = some { acc with balance := acc.balance + amount } by
        rw [s.account_put_account, if_pos (s.accountID_of_account hacc).symm])
    have hleft := hpay.left_nonneg hA hT
    have hcoins := hpay.coins
    have hheld := hpay.max
    dsimp only at hle
    omega
  have hallowed : acc.balanceAllowed s.header amount (acc.balance + amount) = true := by
    have hreceives : amount ≤ acc.getMaxAmountReceive s.header := hwithin.receives
    rw [getMaxAmountReceive, if_pos h.version] at hreceives
    simp only [balanceAllowed, Bool.or_eq_true, Bool.not_eq_true',
      Bool.or_eq_false_iff, decide_eq_false_iff_not]
    exact .inr ⟨by omega, by omega⟩
  refine addAmount_eq_some.mpr
    (.inr ⟨hpos.ne', rfl, hroom.1, INT64_MAX_pos.le, by omega, hmax, ?_⟩)
  rw [if_pos hallowed]

theorem wp_doleWinner (hA : IsAmount A) (hT : 0 < T) (hTmax : T ≤ INT64_MAX)
    (h : DoleInv C A T (w :: ws) s left) :
    wp (doleWinner w A T left) (fun left' s' => ∃ ps, Doles A T [w] s left ps left' s' ∧
      DoleInv C A T ws s' left') (fun _ _ => False) s := by
  have hnothing : ∃ ps, Doles A T [w] s left ps left s ∧ DoleInv C A T ws s left :=
    ⟨[], .nothing, h.skip hA.1⟩
  have hvotes := h.votes w mem_cons_self
  rw [doleWinner, wp_bind, wp_lift, bigDivide_share hA hT hTmax hvotes]
  refine ⟨?_, by simp⟩
  rintro _ ⟨⟩
  rw [wp_ite]
  refine ⟨fun _ => hnothing, fun hshare => ?_⟩
  rw [wp_bind, wp_loadHeader, wp_bind, wp_loadAccount, wp_ite]
  refine ⟨fun _ => hnothing, fun hpayout => ?_⟩
  cases hacc : s.account w.accountID with
  | none => exact hnothing
  | some acc =>
    rw [hacc] at hpayout
    have hpayout : payout s.header (some acc) (A * w.votes / T) ≠ 0 := fun hzero =>
      hpayout ⟨by simp, hzero⟩
    generalize hamount : payout s.header (some acc) (A * w.votes / T) = amount at hpayout ⊢
    have hwithin : Payout.Within ⟨w, acc, amount⟩ s.header A T := by
      have hroom := h.room _ _ hacc
      have hnonneg : 0 ≤ A * w.votes / T := Int.ediv_nonneg (Int.mul_nonneg hA.1 hvotes.1) hT.le
      have hreceives : acc.getMaxAmountReceive s.header =
          INT64_MAX - (acc.balance + acc.getBuyingLiabilities) := if_pos h.version
      rw [payout] at hamount
      refine ⟨?_, ?_, ?_⟩ <;> dsimp only <;> omega
    have hadd := h.addBalance_eq hA.1 hT hacc hwithin
    rw [creditWinner, wp_bind, addAccountBalance, wp_bind, wp_loadHeader, wp_bind, wp_loadAccount,
      hacc, wp_bind, wp_current]
    refine ⟨?_, by simp⟩
    rintro _ ⟨⟩
    rw [wp_bind, wp_lift, hadd]
    refine ⟨?_, by simp⟩
    rintro _ ⟨⟩
    rw [storeAccount, wp_bind, wp_store, wp_pure, wp_bind, wp_throwIf]
    refine ⟨by simp, fun _ => ?_⟩
    have hleft : int64 (left - amount) = left - amount := by
      have hpay := h.pay hT hacc hwithin
      exact int64_of_isAmount ⟨hpay.left_nonneg hA.1 hT, hpay.left_le⟩
    rw [hleft]
    refine ⟨[⟨w, acc, amount⟩], ?_, h.pay hT hacc hwithin⟩
    refine ⟨.single ⟨hacc, rfl⟩, Sublist.refl _, ?_, ?_⟩
    · intro p hp
      rwa [mem_singleton.mp hp]
    · simp [paid]

theorem wp_dole (hA : IsAmount A) (hT : 0 < T) (hTmax : T ≤ INT64_MAX)
    (h : DoleInv C A T ws s left) :
    wp (dole A T ws left) (fun left' s' => ∃ ps, Doles A T ws s left ps left' s' ∧
      DoleInv C A T [] s' left') (fun _ _ => False) s := by
  induction ws generalizing s left with
  | nil => exact ⟨[], .nothing, h⟩
  | cons w ws ih =>
    rw [dole]
    refine (wp_doleWinner hA hT hTmax h).bind ?_
    rintro left₁ s₁ ⟨ps₁, hdoles₁, hinv₁⟩
    refine (ih hinv₁).imp ?_
    rintro left₂ s₂ ⟨ps₂, hdoles₂, hinv₂⟩
    exact ⟨ps₁ ++ ps₂, hdoles₁.append hdoles₂, hinv₂⟩

/-! ## The operation -/

theorem bigDivide_rate {x rate : Int} (hx : IsAmount x) (hrate : 0 ≤ rate ∧ rate ≤ TRILLION) :
    bigDivide x rate TRILLION .ROUND_DOWN = .ok (x * rate / TRILLION) :=
  bigDivide_share hx (by decide) (by decide) hrate

/-- The header while payouts are made -/
def startHeader (header : LedgerHeader) : LedgerHeader :=
  { header with feePool := 0, inflationSeq := (header.inflationSeq + 1) % 2 ^ 32 }

theorem feePool_startHeader {header : LedgerHeader} : (startHeader header).feePool = 0 := rfl

/-- The header afterwards -/
def endHeader (header : LedgerHeader) (leftAfterDole : Int) : LedgerHeader :=
  { startHeader header with
    feePool := leftAfterDole
    totalCoins := header.totalCoins + inflationAmount header }

theorem votes_le_sum {ws : List InflationWinner} (hvotes : ∀ w ∈ ws, 0 ≤ w.votes) :
    ∀ w ∈ ws, w.votes ≤ (ws.map InflationWinner.votes).sum := fun w hw =>
  single_le_sum (fun v hv => by
    obtain ⟨w, hw, rfl⟩ := mem_map.mp hv
    exact hvotes w hw) _ (mem_map_of_mem hw)

/-- At the start, everything is left. -/
theorem doleInv_start (env : TxEnv) {s : LedgerState} (hversion : 10 ≤ s.header.ledgerVersion)
    (hroom : RoomToReceive s) (hvotes : ∀ w ∈ winners env s, 0 ≤ w.votes)
    (hsum : ((winners env s).map InflationWinner.votes).sum ≤ s.header.totalCoins)
    (hA : 0 ≤ A) (hcoins : s.sum coinsOf + A ≤ INT64_MAX) :
    DoleInv (s.sum coinsOf + A) A s.header.totalCoins (winners env s)
      (s.setHeader (startHeader s.header)) A where
  version := hversion
  room := hroom
  coins := by rw [s.sum_setHeader]
  max := hcoins
  votes w hw := ⟨hvotes w hw, (votes_le_sum hvotes w hw).trans hsum⟩
  shares := Int.mul_le_mul_of_nonneg_left hsum hA

/-- It is time for inflation. -/
def Due (header : LedgerHeader) : Prop :=
  INFLATION_START_TIME + header.inflationSeq * INFLATION_FREQUENCY ≤ int64 header.closeTime

/-- What an inflation has done when it succeeds -/
structure Distributes (env : TxEnv) (s : LedgerState) (ps : List Payout) (leftAfterDole : Int)
    (s' : LedgerState) : Prop where
  due : Due s.header
  pays : ∃ s₁, Pays (s.setHeader (startHeader s.header)) ps s₁ ∧
    s' = s₁.setHeader (endHeader s.header leftAfterDole)
  winners : (ps.map Payout.winner).Sublist (winners env s)
  within : ∀ p ∈ ps, p.Within s.header (inflationAmount s.header + s.header.feePool)
    s.header.totalCoins
  paid_le : paid ps ≤ inflationAmount s.header + s.header.feePool
  left_nonneg : 0 ≤ leftAfterDole
  feePool : s'.header.feePool + paid ps = inflationAmount s.header + s.header.feePool
  conserved : Conserved s'

section DoApply

variable (env : TxEnv) {s : LedgerState} (hversion : 10 ≤ s.header.ledgerVersion)
  (hcoins : Conserved s) (hpool : 0 ≤ s.header.feePool) (hpos : 0 < s.header.totalCoins)
  (hroom : RoomToReceive s)
  (hmax : s.header.totalCoins + inflationAmount s.header ≤ INT64_MAX)
  (hvotes : ∀ w ∈ winners env s, 0 ≤ w.votes)
  (hsum : ((winners env s).map InflationWinner.votes).sum ≤ s.header.totalCoins)

include hversion hcoins hpool hpos hroom hmax hvotes hsum

theorem wp_doApply : wp (doApply env) (fun _ s' => ∃ ps left, Distributes env s ps left s')
    (fun e s' => (e = .failed .INFLATION_NOT_TIME ∧ s' = s) ∧ ¬ Due s.header) s := by
  have hamount : 0 ≤ inflationAmount s.header :=
    Int.ediv_nonneg (Int.mul_nonneg hpos.le (by decide)) (by decide)
  have htotal : IsAmount s.header.totalCoins := ⟨hpos.le, by omega⟩
  have hcoinsOf : 0 ≤ s.sum coinsOf := s.sum_nonneg_of_lookup hroom.coins_nonneg
  have hheld := hcoins
  unfold Conserved at hheld
  have hA : IsAmount (inflationAmount s.header + s.header.feePool) := by
    constructor <;> omega
  have hinv := doleInv_start env hversion hroom hvotes hsum hA.1 (by omega)
  rw [doApply, wp_bind, wp_loadHeader, wp_bind, wp_failIf]
  refine ⟨fun hearly => ⟨⟨rfl, rfl⟩, not_le.mpr hearly⟩, fun hdue => ?_⟩
  rw [wp_bind, wp_lift, bigDivide_rate htotal (by decide)]
  refine ⟨?_, by simp⟩
  rintro _ ⟨⟩
  rw [wp_bind, wp_get, wp_bind, wp_lift, bigDivide_rate htotal (by decide)]
  refine ⟨?_, by simp⟩
  rintro _ ⟨⟩
  have hdole : int64 (s.header.totalCoins * INFLATION_RATE_TRILLIONTHS / TRILLION +
      s.header.feePool) = inflationAmount s.header + s.header.feePool := int64_of_isAmount hA
  rw [wp_bind, wp_storeHeader, wp_bind, hdole]
  refine (wp_dole hA hpos htotal.2 hinv).mono ?_ fun _ _ h => h.elim
  rintro left s₁ ⟨ps, hdoles, hleft⟩
  have hnonneg := hleft.left_nonneg hA.1 hpos
  have hpaid := hdoles.left
  have hrest : s₁.sum coinsOf + left = _ := hleft.coins
  have hsum₁ : 0 ≤ s₁.sum coinsOf := s₁.sum_nonneg_of_lookup hleft.room.coins_nonneg
  have hheader : s₁.header = startHeader s.header := header_of_pays hdoles.pays
  have hend : ({ startHeader s.header with
      feePool := int64 ((startHeader s.header).feePool + left)
      totalCoins := int64 ((startHeader s.header).totalCoins + s.header.totalCoins *
        INFLATION_RATE_TRILLIONTHS / TRILLION) }) = endHeader s.header left := by
    rw [feePool_startHeader, Int.zero_add, int64_of_isAmount ⟨hnonneg, by omega⟩]
    exact congrArg (fun total => ({ startHeader s.header with
      feePool := left, totalCoins := total } : LedgerHeader))
      (int64_of_isAmount (x := s.header.totalCoins + inflationAmount s.header) ⟨by omega, hmax⟩)
  rw [wp_bind, wp_loadHeader, hheader, hend]
  refine ⟨ps, left, ⟨not_lt.mp hdue, ⟨s₁, hdoles.pays, rfl⟩, hdoles.winners, fun p hp => ?_,
    ?_, hnonneg, hpaid, ?_⟩⟩
  · exact ⟨(hdoles.within p hp).pos, (hdoles.within p hp).share, (hdoles.within p hp).receives⟩
  · omega
  · unfold Conserved
    rw [s₁.sum_setHeader]
    simp only [header_setHeader, endHeader]
    omega

/-- **Payouts**: an inflation that is due succeeds, and one that is not fails and leaves the state.
It makes payouts to winners, each at most the winner's share rounded down and what its account can
receive. They do not amount to more than the new coins and the fee pool, and the rest is the new
fee pool. -/
theorem doApply_pays : wp (doApply env) (fun _ s' => ∃ ps left, Distributes env s ps left s')
    (fun e s' => (e = .failed .INFLATION_NOT_TIME ∧ s' = s) ∧ ¬ Due s.header) s :=
  wp_doApply env hversion hcoins hpool hpos hroom hmax hvotes hsum

end DoApply

/-- A ledger with one account, for which inflation is due -/
def dueLedger : LedgerState :=
  .ofEntries ⟨10, 2000000000, 2, 500, 100, 0, 0, 100, 5⟩
    [.account ⟨1, 400, 0, 0, none, 0, "", ⟨1, 0, 0, 0⟩, [], none⟩]

/-- The account has all votes. -/
def singleWinner : TxEnv where
  isBetterOffer _ _ := false
  queryInflationWinners _ _ _ := [⟨1, 400⟩]

/-- Of the fee pool of 100 the account, with 400 of 500 votes, is paid 80. -/
theorem doApply_pays_dueLedger : ∃ ps left s', doApply singleWinner dueLedger = .ok () s' ∧
    Distributes singleWinner dueLedger ps left s' ∧ s'.header.feePool = 20 ∧ paid ps = 80 := by
  have hroom : RoomToReceive dueLedger := by
    intro id acc hacc
    rw [dueLedger, ofEntries, account_put_account] at hacc
    split at hacc
    · cases hacc
      decide
    · cases hacc
  have hpays := doApply_pays singleWinner (s := dueLedger) (by decide) (by decide) (by decide)
    (by decide) hroom (by decide) (by decide) (by decide)
  have hpool : (match doApply singleWinner dueLedger with
      | .ok _ s' => s'.header.feePool
      | .error _ _ => 0) = 20 := by decide +kernel
  cases hrun : doApply singleWinner dueLedger with
  | error e s' =>
    rw [hrun] at hpool
    cases hpool
  | ok a s' =>
    have hpool : s'.header.feePool = 20 := by rwa [hrun] at hpool
    obtain ⟨ps, left, h⟩ := hpays.of_ok hrun
    have hsum : s'.header.feePool + paid ps = 100 := h.feePool
    exact ⟨ps, left, s', rfl, h, hpool, by omega⟩

end EssaCore.Transactions.Inflation
