import AmmState.V3.Math

/-! One step of a swap in the contract (`SwapMath`, `SqrtPriceMath`, `FullMath`). Quantities are natural numbers, a
    `uint256` product that is not checked wraps, and a revert is `none`. -/

namespace AmmState.Canonical
open V3

/-! ### Quotients -/

def mulDiv (a b denominator : Nat) : Option Nat := do
  guard (0 < denominator ∧ a * b / denominator < 2 ^ 256)
  return a * b / denominator

def mulDivRoundingUp (a b denominator : Nat) : Option Nat := do
  let result ← mulDiv a b denominator
  if 0 < a * b % denominator then
    guard (result < 2 ^ 256 - 1)
    return result + 1
  else return result

/-- `UnsafeMath`: no check of the divisor. -/
def divRoundingUp (x y : Nat) : Nat := x / y + if 0 < x % y then 1 else 0

/-! ### Amounts between two prices -/

def getAmount0Delta (sqrtA sqrtB liquidity : Nat) (roundUp : Bool) : Option Nat := do
  let (lower, upper) := if sqrtB < sqrtA then (sqrtB, sqrtA) else (sqrtA, sqrtB)
  let numerator := liquidity * Q96
  guard (0 < lower)
  if roundUp then return divRoundingUp (← mulDivRoundingUp numerator (upper - lower) upper) lower
  else return (← mulDiv numerator (upper - lower) upper) / lower

def getAmount1Delta (sqrtA sqrtB liquidity : Nat) (roundUp : Bool) : Option Nat :=
  let (lower, upper) := if sqrtB < sqrtA then (sqrtB, sqrtA) else (sqrtA, sqrtB)
  if roundUp then mulDivRoundingUp liquidity (upper - lower) Q96 else mulDiv liquidity (upper - lower) Q96

/-! ### The price after an amount -/

/-- `toUint160`. -/
def toUint160 (value : Nat) : Option Nat := do
  guard (value < 2 ^ 160)
  return value

def getNextSqrtPriceFromAmount0RoundingUp (sqrt liquidity amount : Nat) (add : Bool) : Option Nat := do
  if amount = 0 then return sqrt
  else
    let numerator := liquidity * Q96
    let product := amount * sqrt % 2 ^ 256
    if add then
      let denominator := (numerator + product) % 2 ^ 256
      if product / amount = sqrt ∧ numerator ≤ denominator then
        return (← mulDivRoundingUp numerator sqrt denominator) % 2 ^ 160
      else
        guard (numerator / sqrt + amount < 2 ^ 256)
        return divRoundingUp numerator (numerator / sqrt + amount) % 2 ^ 160
    else
      guard (product / amount = sqrt ∧ product < numerator)
      toUint160 (← mulDivRoundingUp numerator sqrt (numerator - product))

def getNextSqrtPriceFromAmount1RoundingDown (sqrt liquidity amount : Nat) (add : Bool) : Option Nat := do
  if add then
    let quotient ← (if amount < 2 ^ 160 then some (amount * Q96 / liquidity) else mulDiv amount Q96 liquidity)
    guard (sqrt + quotient < 2 ^ 256)
    toUint160 (sqrt + quotient)
  else
    let quotient ← (if amount < 2 ^ 160 then some (divRoundingUp (amount * Q96) liquidity)
      else mulDivRoundingUp amount Q96 liquidity)
    guard (quotient < sqrt)
    return (sqrt - quotient) % 2 ^ 160

def getNextSqrtPriceFromInput (sqrt liquidity amountIn : Nat) (zeroForOne : Bool) : Option Nat := do
  guard (0 < sqrt ∧ 0 < liquidity)
  if zeroForOne then getNextSqrtPriceFromAmount0RoundingUp sqrt liquidity amountIn true
  else getNextSqrtPriceFromAmount1RoundingDown sqrt liquidity amountIn true

def getNextSqrtPriceFromOutput (sqrt liquidity amountOut : Nat) (zeroForOne : Bool) : Option Nat := do
  guard (0 < sqrt ∧ 0 < liquidity)
  if zeroForOne then getNextSqrtPriceFromAmount1RoundingDown sqrt liquidity amountOut false
  else getNextSqrtPriceFromAmount0RoundingUp sqrt liquidity amountOut false

/-! ### The step -/

structure SwapStep where
  sqrtRatioNext : Nat
  amountIn : Nat
  amountOut : Nat
  feeAmount : Nat
  deriving DecidableEq

/-- The input that moves the price from `current` to `price`, rounded up. -/
def inputTo (zeroForOne : Bool) (current liquidity price : Nat) : Option Nat :=
  if zeroForOne then getAmount0Delta price current liquidity true else getAmount1Delta current price liquidity true

/-- The output of the same move, rounded down. -/
def outputTo (zeroForOne : Bool) (current liquidity price : Nat) : Option Nat :=
  if zeroForOne then getAmount1Delta price current liquidity false else getAmount0Delta current price liquidity false

/-- A nonnegative amount is an exact input, a negative one an exact output. -/
def computeSwapStep (current target liquidity : Nat) (amountRemaining : Int) (feePips : Nat) : Option SwapStep := do
  let zeroForOne := decide (target ≤ current)
  if 0 ≤ amountRemaining then
    let remaining := amountRemaining.toNat
    let lessFee ← mulDiv remaining (1000000 - feePips) 1000000
    let amountIn ← inputTo zeroForOne current liquidity target
    let next ← (if amountIn ≤ lessFee then some target
      else getNextSqrtPriceFromInput current liquidity lessFee zeroForOne)
    let amountIn ← (if next = target then some amountIn else inputTo zeroForOne current liquidity next)
    let amountOut ← outputTo zeroForOne current liquidity next
    -- short of the target, the remainder of the input is the fee
    let feeAmount ← (if next ≠ target then some ((2 ^ 256 + remaining - amountIn) % 2 ^ 256)
      else mulDivRoundingUp amountIn feePips (1000000 - feePips))
    return ⟨next, amountIn, amountOut, feeAmount⟩
  else
    let remaining := (-amountRemaining).toNat
    let amountOut ← outputTo zeroForOne current liquidity target
    let next ← (if amountOut ≤ remaining then some target
      else getNextSqrtPriceFromOutput current liquidity remaining zeroForOne)
    let amountIn ← inputTo zeroForOne current liquidity next
    let amountOut ← (if next = target then some amountOut else outputTo zeroForOne current liquidity next)
    let feeAmount ← mulDivRoundingUp amountIn feePips (1000000 - feePips)
    return ⟨next, amountIn, min amountOut remaining, feeAmount⟩

end AmmState.Canonical
