import EssaCore.Transactions.Results

/-!
# Exchanging offers

The arithmetic of crossing offers since protocol 10 (`util/numeric.cpp`,
`transactions/OfferExchange.cpp` 168–745): how much wheat and sheep change hands at a
price, within what both sides can send and receive, and how an offer is cut back to
what it can deliver.

- `bigDivide`, `bigMultiply` — as the code has them, with their overflows;
- `exchangeV10WithoutPriceErrorThresholds`, `exchangeV10` — what is exchanged;
- `adjustOffer` — the amount of an offer that a buyer without limits would take.
-/

namespace EssaCore.Transactions

open Ledger

/-! ## Numbers -/

def INT32_MAX : Int := 2147483647

def INT64_MAX : Int := 9223372036854775807

def UINT128_MAX : Int := 340282366920938463463374607431768211455

theorem INT64_MAX_pos : 0 < INT64_MAX := by decide

/-- `Rounding` -/
inductive Rounding where
  | ROUND_DOWN
  | ROUND_UP
  deriving DecidableEq

/-- A `uint128_t` -/
def uint128 (x : Int) : Int := x % 2 ^ 128

/-- A quotient of two `uint128_t` -/
def divide128 (a b : Int) : Rounding → Int
  | .ROUND_DOWN => uint128 a / b
  | .ROUND_UP => uint128 (a + b - 1) / b

/-- The result of a division that has to fit an `int64` -/
def checkQuotient (x : Int) : Except TxError Int :=
  if x ≤ INT64_MAX then pure x
  else throw (.runtimeError "overflow while performing bigDivide")

/-- `bigDivide(A, B, C, rounding)` -/
def bigDivide (A B C : Int) (rounding : Rounding) : Except TxError Int := do
  assert (0 ≤ A ∧ 0 ≤ B ∧ 0 < C)
  checkQuotient (divide128 (A * B) C rounding)

/-- `bigDivide(a, B, rounding)` of a `uint128_t` -/
def bigDivide128 (a B : Int) (rounding : Rounding) : Except TxError Int := do
  assert (0 < B)
  if rounding = .ROUND_UP ∧ a > UINT128_MAX - (B - 1) then
    throw (.runtimeError "overflow while performing bigDivide")
  else checkQuotient (divide128 a B rounding)

/-- `bigMultiply` -/
def bigMultiply (a b : Int) : Except TxError Int := do
  assert (0 ≤ a ∧ 0 ≤ b)
  pure (uint128 (a * b))

/-! ## Exchange -/

/-- `ExchangeResultV10` -/
structure ExchangeResultV10 where
  numWheatReceived : Int
  numSheepSend : Int
  wheatStays : Bool
  deriving DecidableEq

/-- `checkPriceErrorBound` (173–203) -/
def checkPriceErrorBound (price : Price) (wheatReceive sheepSend : Int)
    (canFavorWheat : Bool) : Except TxError Bool := do
  let errN := 100 * price.n
  let errD := 100 * price.d
  let lhs ← bigMultiply errN wheatReceive
  let rhs ← bigMultiply errD sheepSend
  let cap ← bigMultiply price.n wheatReceive
  let absDiff := if lhs > rhs then lhs - rhs else rhs - lhs
  pure ((canFavorWheat && decide (rhs > lhs)) || decide (absDiff ≤ cap))

/-- `calculateOfferValue` (205–212) -/
def calculateOfferValue (priceN priceD maxSend maxReceive : Int) : Except TxError Int := do
  let sendValue ← bigMultiply maxSend priceN
  let receiveValue ← bigMultiply maxReceive priceD
  pure (min sendValue receiveValue)

/-- Wheat and sheep of an exchange, before they are checked (494–519) -/
def exchangeAmounts (price : Price) (wheatValue sheepValue : Int) (isPathPayment : Bool) :
    Except TxError (Int × Int) :=
  if wheatValue > sheepValue then
    if price.n > price.d ∨ isPathPayment then do
      let wheatReceive ← bigDivide128 sheepValue price.n .ROUND_DOWN
      let sheepSend ← bigDivide wheatReceive price.n price.d .ROUND_UP
      pure (wheatReceive, sheepSend)
    else do
      let sheepSend ← bigDivide128 sheepValue price.d .ROUND_DOWN
      let wheatReceive ← bigDivide sheepSend price.d price.n .ROUND_DOWN
      pure (wheatReceive, sheepSend)
  else
    if price.n > price.d then do
      let wheatReceive ← bigDivide128 wheatValue price.n .ROUND_DOWN
      let sheepSend ← bigDivide wheatReceive price.n price.d .ROUND_DOWN
      pure (wheatReceive, sheepSend)
    else do
      let sheepSend ← bigDivide128 wheatValue price.d .ROUND_DOWN
      let wheatReceive ← bigDivide sheepSend price.d price.n .ROUND_UP
      pure (wheatReceive, sheepSend)

/-- `exchangeV10WithoutPriceErrorThresholds` (480–538) -/
def exchangeV10WithoutPriceErrorThresholds (price : Price) (maxWheatSend maxWheatReceive
    maxSheepSend maxSheepReceive : Int) (isPathPayment : Bool) :
    Except TxError ExchangeResultV10 := do
  let wheatValue ← calculateOfferValue price.n price.d maxWheatSend maxSheepReceive
  let sheepValue ← calculateOfferValue price.d price.n maxSheepSend maxWheatReceive
  let amounts ← exchangeAmounts price wheatValue sheepValue isPathPayment
  if amounts.1 < 0 ∨ amounts.1 > min maxWheatReceive maxWheatSend then
    throw (.runtimeError "wheatReceive out of bounds")
  else if amounts.2 < 0 ∨ amounts.2 > min maxSheepReceive maxSheepSend then
    throw (.runtimeError "sheepSend out of bounds")
  else pure ⟨amounts.1, amounts.2, wheatValue > sheepValue⟩

/-- The thresholds for an exchange that is not empty (545–586) -/
def applyThresholds (price : Price) (wheatReceive sheepSend : Int)
    (wheatStays isPathPayment : Bool) : Except TxError ExchangeResultV10 := do
  let wheatReceiveValue ← bigMultiply wheatReceive price.n
  let sheepSendValue ← bigMultiply sheepSend price.d
  let bounded ← checkPriceErrorBound price wheatReceive sheepSend isPathPayment
  if wheatStays ∧ sheepSendValue < wheatReceiveValue then
    throw (.runtimeError "favored sheep when wheat stays")
  else if !wheatStays ∧ sheepSendValue > wheatReceiveValue then
    throw (.runtimeError "favored wheat when sheep stays")
  else if bounded then pure ⟨wheatReceive, sheepSend, wheatStays⟩
  else if isPathPayment then throw (.runtimeError "exceeded price error bound")
  else pure ⟨0, 0, wheatStays⟩

/-- `applyPriceErrorThresholds` (541–599) -/
def applyPriceErrorThresholds (price : Price) (wheatReceive sheepSend : Int)
    (wheatStays isPathPayment : Bool) : Except TxError ExchangeResultV10 :=
  if wheatReceive > 0 ∧ sheepSend > 0 then
    applyThresholds price wheatReceive sheepSend wheatStays isPathPayment
  else pure ⟨0, 0, wheatStays⟩

/-- `exchangeV10` (467–477) -/
def exchangeV10 (price : Price) (maxWheatSend maxWheatReceive maxSheepSend
    maxSheepReceive : Int) (isPathPayment : Bool) : Except TxError ExchangeResultV10 := do
  let beforeThresholds ← exchangeV10WithoutPriceErrorThresholds price maxWheatSend
    maxWheatReceive maxSheepSend maxSheepReceive isPathPayment
  applyPriceErrorThresholds price beforeThresholds.numWheatReceived
    beforeThresholds.numSheepSend beforeThresholds.wheatStays isPathPayment

/-- `adjustOffer(price, maxWheatSend, maxSheepReceive)` (739–745) -/
def adjustOffer (price : Price) (maxWheatSend maxSheepReceive : Int) : Except TxError Int := do
  let res ← exchangeV10 price maxWheatSend INT64_MAX INT64_MAX maxSheepReceive false
  pure res.numWheatReceived

end EssaCore.Transactions
