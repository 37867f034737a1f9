import AmmState.V3.TickMath

/-! Amounts, fees and next prices of one swap step (`v3_transition.rs`). Quantities are natural numbers; every
    operation that the source checks against `uint256` is checked here. -/

namespace AmmState.V3
open Checked

def FEE_DENOMINATOR : Nat := 1000000

def SLOT0_SQRT_MASK : Nat := 2 ^ 160 - 1
def WORD_128_MASK : Nat := 2 ^ 128 - 1

/-- `U256::checked_add`. -/
def checkedAdd (a b : Nat) (e : AdapterEventError) : Result Nat := do
  ensure (a + b < 2 ^ 256) e
  return a + b

/-- `U256::checked_sub`. -/
def checkedSub (a b : Nat) (e : AdapterEventError) : Result Nat := do
  ensure (b ≤ a) e
  return a - b

/-- A 512-bit quotient that must fit `uint256`. -/
def div512 (numerator denominator : Nat) (roundUp : Bool) : Result Nat := do
  ensure (denominator ≠ 0) (arithmetic "division by zero")
  let rounded := numerator / denominator + if roundUp = true ∧ numerator % denominator ≠ 0 then 1 else 0
  ensure (rounded < 2 ^ 256) (arithmetic "value exceeds uint256")
  return rounded

def mulDiv (a b denominator : Nat) : Result Nat := div512 (a * b) denominator false

def mulDivRoundUp (a b denominator : Nat) : Result Nat := div512 (a * b) denominator true

def checkedSum (values : List Nat) : Result Nat :=
  values.foldlM (fun sum value => checkedAdd sum value (arithmetic "amount sum overflow")) 0

def amount0Delta (lower upper liquidity : Nat) (roundUp : Bool) : Result Nat :=
  div512 (liquidity * (upper - lower) * Q96) (upper * lower) roundUp

def amount1Delta (lower upper liquidity : Nat) (roundUp : Bool) : Result Nat :=
  div512 (liquidity * (upper - lower)) Q96 roundUp

/-- Input and output of a move between two prices. -/
def segmentAmounts (sqrtA sqrtB liquidity : Nat) (zeroForOne : Bool) : Result (Nat × Nat) := do
  ensure (sqrtA ≠ 0 ∧ sqrtB ≠ 0) (contradiction "segment has zero price")
  let lower := if sqrtA < sqrtB then sqrtA else sqrtB
  let upper := if sqrtA < sqrtB then sqrtB else sqrtA
  if zeroForOne then
    let amountIn ← amount0Delta lower upper liquidity true
    let amountOut ← amount1Delta lower upper liquidity false
    return (amountIn, amountOut)
  else
    let amountIn ← amount1Delta lower upper liquidity true
    let amountOut ← amount0Delta lower upper liquidity false
    return (amountIn, amountOut)

def feeForFullStep (amountIn fee : Nat) : Result Nat := mulDivRoundUp amountIn fee (FEE_DENOMINATOR - fee)

def nextSqrtFromOutput (sqrt liquidity amount : Nat) (zeroForOne : Bool) : Result Nat := do
  ensure (sqrt ≠ 0 ∧ liquidity ≠ 0) (arithmetic "next price requires positive price and liquidity")
  let exhausted := arithmetic "output exhausts virtual reserves"
  if zeroForOne then
    let quotient ← mulDivRoundUp amount Q96 liquidity
    ensure (quotient < sqrt) exhausted
    let next := sqrt - quotient
    ensure (next ≤ SLOT0_SQRT_MASK) (arithmetic "next price exceeds uint160 bounds")
    return next
  else if amount = 0 then return sqrt
  else
    let numerator := liquidity * Q96
    ensure (amount * sqrt < 2 ^ 256 ∧ amount * sqrt < numerator) exhausted
    let next ← mulDivRoundUp numerator sqrt (numerator - amount * sqrt)
    ensure (next ≤ SLOT0_SQRT_MASK) (arithmetic "next price exceeds uint160 bounds")
    return next

def nextSqrtFromInput (sqrt liquidity amount : Nat) (zeroForOne : Bool) : Result Nat := do
  ensure (sqrt ≠ 0 ∧ liquidity ≠ 0) (arithmetic "next price requires positive price and liquidity")
  let bounded (next : Nat) : Result Nat := do
    ensure (next ≠ 0 ∧ next ≤ SLOT0_SQRT_MASK) (arithmetic "next price exceeds uint160 bounds")
    return next
  if zeroForOne then
    if amount = 0 then return sqrt
    else
      let numerator := liquidity * Q96
      if amount * sqrt < 2 ^ 256 ∧ numerator + amount * sqrt < 2 ^ 256 then
        bounded (← mulDivRoundUp numerator sqrt (numerator + amount * sqrt))
      else
        -- the `uint256`-overflow fallback of `SqrtPriceMath`, with its inner floor
        let denominator ← checkedAdd (numerator / sqrt) amount (arithmetic "next-price denominator overflow")
        bounded (← div512 numerator denominator true)
  else
    let quotient ← mulDiv amount Q96 liquidity
    bounded (← checkedAdd sqrt quotient (arithmetic "next-price addition overflow"))

/-- The largest exact input whose price does not pass the end. -/
def maximumInputBudget (sqrtStart sqrtEnd liquidity : Nat) (zeroForOne : Bool) : Result Nat := do
  if liquidity = 0 then return 0
  else
    let firstPast ← (if zeroForOne then do
        ensure (1 < sqrtEnd) (arithmetic "input budget price underflow")
        let past := sqrtEnd - 1
        let exact ← amount0Delta past sqrtStart liquidity true
        let numerator := liquidity * Q96
        let fullMathLimit := (2 ^ 256 - 1 - numerator) / sqrtStart
        if exact ≤ fullMathLimit then return exact
        else
          -- the inverse of the overflow fallback of `nextSqrtFromInput`
          let quotient ← div512 numerator past true
          checkedSub quotient (numerator / sqrtStart) (arithmetic "input budget fallback underflow")
      else amount1Delta sqrtStart (sqrtEnd + 1) liquidity true)
    checkedSub firstPast 1 (arithmetic "input budget underflow")

/-- Whether the last step ended an exact-output request below what its price move yields. -/
def outputIsCapped (sqrtStart sqrtEnd liquidity finalOutput derivedOutput actualOutput : Nat) (zeroForOne : Bool) :
    Result Bool := do
  if actualOutput = derivedOutput then return false
  else
    let preceding ← checkedSub derivedOutput finalOutput (arithmetic "output path underflow")
    let mismatch := finalMismatch "signed output" derivedOutput actualOutput
    if preceding < actualOutput ∧ actualOutput - preceding < finalOutput then
      let next ← nextSqrtFromOutput sqrtStart liquidity (actualOutput - preceding) zeroForOne
      ensure (next = sqrtEnd) mismatch
      return true
    else throw mismatch

/-- Whether a fee of the last step is that of a full move, or what an exact input leaves over. -/
def validFinalStepFee (sqrtStart sqrtEnd liquidity amountIn feeAmount fee : Nat) (zeroForOne : Bool) : Result Bool := do
  let minimumFee ← feeForFullStep amountIn fee
  if feeAmount < minimumFee then return false
  else if feeAmount = minimumFee then return true
  else
    let gross ← checkedAdd amountIn feeAmount (arithmetic "final-step input overflow")
    let budget ← mulDiv gross (FEE_DENOMINATOR - fee) FEE_DENOMINATOR
    let next ← nextSqrtFromInput sqrtStart liquidity budget zeroForOne
    return next = sqrtEnd

end AmmState.V3
