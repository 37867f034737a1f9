import AmmState.Lib.Bisect
import AmmState.V3.Swap

/-! Replay of a Slipstream `Swap` event (`derive_slipstream_swap_inner` of `v3_transition.rs`): the price path with its
    staked liquidity, the fee that the event's input implies, and the fee of each step. The fee is not stored in the pool:
    it is inferred from the total by two binary searches and then validated step by step. -/

namespace AmmState.V3
open Checked

def SLIPSTREAM_STAKED_LAST_SPACING_SLOT : U256 := 15

/-- Slipstream has no `protocolFees` word. -/
def SLIPSTREAM_SURFACE : SwapStorageSurface := ⟨7, 8, 0, 20⟩

/-- The highest fee that the searches consider. -/
def MAX_SLIPSTREAM_FEE : Nat := 100000

structure SlipstreamInitializedTick where
  keys : List U256
  /-- Six words. -/
  words : List U256
  liquidityNet : Int
  stakedLiquidityNet : Int

/-- One step of the price path. -/
structure SlipstreamSegment where
  sqrtStart : Nat
  sqrtEnd : Nat
  liquidity : Nat
  stakedLiquidity : Nat
  amountIn : Nat
  amountOut : Nat
  reachedBoundary : Bool
  crossedTick : Option SlipstreamInitializedTick

/-- The walk so far. Each consumed step has pushed one segment. -/
structure SlipstreamPath where
  sqrt : Nat
  tick : Int
  liquidity : Nat
  stakedLiquidity : Nat
  segments : List SlipstreamSegment

/-- A step that moves no price. -/
def emptySlipstreamSegment (sqrt liquidity stakedLiquidity : Nat) : SlipstreamSegment :=
  ⟨sqrt, sqrt, liquidity, stakedLiquidity, 0, 0, false, none⟩

def validateSlipstreamLiquidity (liquidity stakedLiquidity : Nat) : Result Unit :=
  ensure (stakedLiquidity ≤ liquidity) (contradiction "staked liquidity exceeds active liquidity")

/-! ### The path -/

section Replay
variable (keccak : Keccak) (address : Address) (layout : V3StorageLayout) (state : StateView)

def nextSlipstreamStepBoundary (currentTick : Int) (zeroForOne : Bool) : Result StepBoundary :=
  nextStepBoundary keccak address layout state currentTick zeroForOne

def loadSlipstreamInitializedTick (tick : Int) : Result SlipstreamInitializedTick := do
  let keys := slipstreamTickInfoStorageKeysWithBase keccak tick layout.ticksBaseSlot
  let words ← keys.mapM (required state address)
  ensure (tickFlag (words.getD 5 0) = 1)
    (.v3Transition (.initializedTick tick "bitmap is set but Slipstream Tick.Info.initialized is false"))
  ensure (tickGross (words.getD 0 0) ≠ 0)
    (.v3Transition (.initializedTick tick "bitmap is set but Slipstream Tick.Info.liquidityGross is zero"))
  return ⟨keys, words, tickNet (words.getD 0 0), signedField (words.getD 1 0) 0 128⟩

/-- The tick at a boundary that was reached, and both liquidities beyond it. -/
def crossSlipstreamBoundary (boundary : StepBoundary) (reached : Bool) (liquidity stakedLiquidity : Nat)
    (zeroForOne : Bool) : Result (Option SlipstreamInitializedTick × Nat × Nat) := do
  if reached = true ∧ boundary.initialized = true then
    let initialized ← loadSlipstreamInitializedTick keccak address layout state boundary.tick
    let liquidity ← applyLiquidityNet liquidity initialized.liquidityNet zeroForOne
    let stakedLiquidity ← applyLiquidityNet stakedLiquidity initialized.stakedLiquidityNet zeroForOne
    validateSlipstreamLiquidity liquidity stakedLiquidity
    return (some initialized, liquidity, stakedLiquidity)
  else return (none, liquidity, stakedLiquidity)

/-- A downward swap that ends where it starts still traverses a boundary it stands on. -/
def enterSlipstreamBoundary (path : SlipstreamPath) : Result SlipstreamPath := do
  let boundary ← nextSlipstreamStepBoundary keccak address layout state path.tick true
  let boundarySqrt ← sqrtRatioAtTick boundary.tick
  if boundarySqrt = path.sqrt then
    let (crossedTick, liquidity, stakedLiquidity) ←
      crossSlipstreamBoundary keccak address layout state boundary true path.liquidity path.stakedLiquidity true
    return {
      sqrt := path.sqrt
      tick := boundary.tick - 1
      liquidity
      stakedLiquidity
      segments := path.segments ++
        [⟨path.sqrt, path.sqrt, path.liquidity, path.stakedLiquidity, 0, 0, true, crossedTick⟩] }
  else return path

/-- One step towards the event price: to the next boundary, or to the price if it comes first. -/
def slipstreamStep (swap : DecodedSwap) (zeroForOne : Bool) (path : SlipstreamPath) : Result SlipstreamPath := do
  let boundary ← nextSlipstreamStepBoundary keccak address layout state path.tick zeroForOne
  let boundarySqrt ← sqrtRatioAtTick boundary.tick
  let target := if zeroForOne then max boundarySqrt swap.sqrtPriceX96 else min boundarySqrt swap.sqrtPriceX96
  let reached := decide (target = boundarySqrt)
  let (amountIn, amountOut) ← segmentAmounts path.sqrt target path.liquidity zeroForOne
  let (crossedTick, liquidity, stakedLiquidity) ←
    crossSlipstreamBoundary keccak address layout state boundary reached path.liquidity path.stakedLiquidity zeroForOne
  return {
    sqrt := target
    tick := if reached then (if zeroForOne then boundary.tick - 1 else boundary.tick) else swap.tick
    liquidity
    stakedLiquidity
    segments := path.segments ++
      [⟨path.sqrt, target, path.liquidity, path.stakedLiquidity, amountIn, amountOut, reached, crossedTick⟩] }

/-- The walk to the event price, within the steps that are left. -/
def slipstreamWalk (swap : DecodedSwap) (zeroForOne : Bool) : Nat → SlipstreamPath → Result SlipstreamPath
  | 0, path =>
    if path.sqrt = swap.sqrtPriceX96 then return path
    else throw (.v3Transition (.workLimitExceeded MAX_SWAP_STEPS))
  | steps + 1, path => do
    if path.sqrt = swap.sqrtPriceX96 then return path
    else
      let path ← slipstreamStep keccak address layout state swap zeroForOne path
      slipstreamWalk swap zeroForOne steps path

def replaySlipstreamPath (swap : DecodedSwap) (zeroForOne : Bool) (start : SlipstreamPath) : Result SlipstreamPath := do
  let path ← (if zeroForOne = true ∧ start.sqrt = swap.sqrtPriceX96
    then enterSlipstreamBoundary keccak address layout state start else pure start)
  slipstreamWalk keccak address layout state swap zeroForOne (MAX_SWAP_STEPS - path.segments.length) path

end Replay

/-- The fixed cells of the parent that the path needs. -/
structure SlipstreamParent where
  slot0 : Slot0
  liquidity : Nat
  stakedLiquidity : Nat

def loadSlipstreamParent (address : Address) (layout : V3StorageLayout) (state : StateView) : Result SlipstreamParent := do
  let raw ← required state address layout.slot0Slot
  let slot0 := Slot0.decode raw
  ensure (field slot0.raw 232 8 = 1) (contradiction "parent Slipstream slot0 is locked")
  validateParentSlot0 slot0
  let liquidityWord ← required state address layout.liquiditySlot
  let stakedWord ← required state address SLIPSTREAM_STAKED_LAST_SPACING_SLOT
  let liquidity := field liquidityWord 0 128
  let stakedLiquidity := field stakedWord 0 128
  ensure (stakedLiquidity ≤ liquidity) (contradiction "parent staked liquidity exceeds active liquidity")
  ensure (signedField stakedWord 160 24 = layout.tickSpacing)
    (.v3Transition (.slipstreamFeeEvidence "registration tick spacing does not match pool storage"))
  return ⟨slot0, liquidity, stakedLiquidity⟩

/-- The path to the event, which must end at its liquidity and tick. -/
def replaySlipstreamSegments (keccak : Keccak) (address : Address) (layout : V3StorageLayout) (state : StateView)
    (parent : SlipstreamParent) (swap : DecodedSwap) (zeroForOne : Bool) :
    Result (SlipstreamPath × List SlipstreamSegment) := do
  let path ← replaySlipstreamPath keccak address layout state swap zeroForOne
    ⟨parent.slot0.sqrtPriceX96, parent.slot0.tick, parent.liquidity, parent.stakedLiquidity, []⟩
  let segments ← (if path.segments = [] then
      if unchangedTinySwap parent.slot0 swap zeroForOne then
        pure [emptySlipstreamSegment path.sqrt path.liquidity path.stakedLiquidity]
      else throw (contradiction "swap did not move the square-root price")
    else pure path.segments)
  ensure (path.liquidity = swap.liquidity) (finalMismatch "liquidity" path.liquidity swap.liquidity)
  ensure (path.tick = swap.tick)
    (finalMismatch "tick" (BitVec.ofInt 24 path.tick).toNat (BitVec.ofInt 24 swap.tick).toNat)
  return (path, segments)

/-- The reviewed pool of a chain. -/
def reviewedSlipstreamPool : SlipstreamRuntimeFamily → Address
  | .aerodromeBaseBifi => 0xb378137c90444bbcecd44a1f766851fbf53d2a9e
  | .velodromeOptimismBifi => 0x173cdc71e29d5cffa6d090ad99f555a24b8831f9

/-- Only the reviewed pools, with their deployed layout and tick spacing, are replayed; the timestamp of the context. -/
def validateReviewedSlipstreamEvent (address : Address) (layout : V3StorageLayout) (context : AdapterEventContext) :
    Result Nat := do
  let timestamp ← validateContext context
  ensure (layout = V3StorageLayout.slipstream layout.tickSpacing)
    (contradiction "exact Slipstream event transition requires the deployed core storage layout")
  ensure (0 < layout.tickSpacing) (contradiction "Slipstream tick spacing must be positive")
  let reviewed ← (match context.chainId with
    | some 8453 => pure (reviewedSlipstreamPool .aerodromeBaseBifi)
    | some 10 => pure (reviewedSlipstreamPool .velodromeOptimismBifi)
    | _ => throw (contradiction "unreviewed Slipstream chain identity"))
  ensure (address = reviewed) (contradiction "unreviewed Slipstream pool identity")
  ensure (layout.tickSpacing = 200) (contradiction "reviewed Slipstream pool tick spacing does not match registration")
  return timestamp

/-- The direction and the path of an event, without fee evidence. -/
def slipstreamReplay (keccak : Keccak) (address : Address) (layout : V3StorageLayout) (swap : DecodedSwap)
    (state : StateView) (context : AdapterEventContext) :
    Result (Bool × SlipstreamPath × List SlipstreamSegment) := do
  let timestamp ← validateReviewedSlipstreamEvent address layout context
  ensure (swap.sqrtPriceX96 ≤ SLOT0_SQRT_MASK ∧ swap.liquidity ≤ WORD_128_MASK)
    (.malformedLog "Slipstream Swap final value exceeds its ABI width")
  let parent ← loadSlipstreamParent address layout state
  let zeroForOne ← checkSwapEvent parent.slot0 swap
  if parent.slot0.tick ≠ swap.tick then
    let _ ← advanceOracle address SLIPSTREAM_SURFACE parent.slot0 parent.liquidity state timestamp
  let (path, segments) ← replaySlipstreamSegments keccak address layout state parent swap zeroForOne
  return (zeroForOne, path, segments)

/-! ### Fee inference -/

def maximumPartialFee (amountIn maximumBudget fee : Nat) : Result Nat := do
  let nextAfterFee ← checkedAdd maximumBudget 1 (arithmetic "partial-fee input overflow")
  let firstInvalidTotal ← mulDivRoundUp nextAfterFee FEE_DENOMINATOR (FEE_DENOMINATOR - fee)
  let total ← checkedSub firstInvalidTotal 1 (arithmetic "partial-fee maximum underflow")
  return total - amountIn

/-- The full-step fees of a path. -/
def slipstreamStepFees (segments : List SlipstreamSegment) (fee : Nat) : Result Nat := do
  let fees ← segments.mapM fun segment => feeForFullStep segment.amountIn fee
  checkedSum fees

/-- The largest fee of the last step. -/
def slipstreamLastMaximum (last : SlipstreamSegment) (lastMinimum fee maximumFinalBudget : Nat) (cappedOutput : Bool) :
    Result Nat := do
  if cappedOutput then return lastMinimum
  else if last.reachedBoundary then
    let partialFee ← maximumPartialFee 0 maximumFinalBudget fee
    checkedAdd lastMinimum partialFee (arithmetic "fee inference boundary maximum overflow")
  else
    let partialFee ← maximumPartialFee last.amountIn maximumFinalBudget fee
    return max partialFee lastMinimum

/-- The totals that a fee explains. -/
def slipstreamFeeInterval (segments : List SlipstreamSegment) (fee maximumFinalBudget : Nat) (cappedOutput : Bool) :
    Result (Nat × Nat) := do
  let last ← orError segments.getLast? (contradiction "fee inference requires at least one swap step")
  let precedingFee ← slipstreamStepFees segments.dropLast fee
  let lastMinimum ← feeForFullStep last.amountIn fee
  let minimum ← checkedAdd precedingFee lastMinimum (arithmetic "fee inference minimum overflow")
  let lastMaximum ← slipstreamLastMaximum last lastMinimum fee maximumFinalBudget cappedOutput
  let maximum ← checkedAdd precedingFee lastMaximum (arithmetic "fee inference maximum overflow")
  return (minimum, maximum)

section Inference
variable (segments : List SlipstreamSegment) (totalFee maximumFinalBudget : Nat) (cappedOutput : Bool)

/-- The first fee whose maximum reaches the total. -/
def binaryFirstFee : Result (Option Nat) := do
  let low ← Bisect.first (fun fee => do
    let (_, maximum) ← slipstreamFeeInterval segments fee maximumFinalBudget cappedOutput
    return decide (totalFee ≤ maximum)) 0 MAX_SLIPSTREAM_FEE
  let (_, maximum) ← slipstreamFeeInterval segments low maximumFinalBudget cappedOutput
  return if totalFee ≤ maximum then some low else none

/-- The last fee whose minimum does not exceed the total. -/
def binaryLastFee : Result (Option Nat) := do
  let low ← Bisect.last (fun fee => do
    let (minimum, _) ← slipstreamFeeInterval segments fee maximumFinalBudget cappedOutput
    return decide (minimum ≤ totalFee)) 0 MAX_SLIPSTREAM_FEE
  let (minimum, _) ← slipstreamFeeInterval segments low maximumFinalBudget cappedOutput
  return if minimum ≤ totalFee then some low else none

def inferSlipstreamFee : Result Nat := do
  let first ← binaryFirstFee segments totalFee maximumFinalBudget cappedOutput
  let last ← binaryLastFee segments totalFee maximumFinalBudget cappedOutput
  match first, last with
  | some first, some last =>
    ensure (first ≤ last) (.v3Transition .slipstreamFeeInferenceNoMatch)
    ensure (first = last) (.v3Transition (.slipstreamFeeInferenceAmbiguous first last))
    let (minimum, maximum) ← slipstreamFeeInterval segments first maximumFinalBudget cappedOutput
    ensure (minimum ≤ totalFee ∧ totalFee ≤ maximum) (.v3Transition .slipstreamFeeInferenceNoMatch)
    return first
  | _, _ => throw (.v3Transition .slipstreamFeeInferenceNoMatch)

end Inference

/-! ### Fee allocation -/

/-- An exact input may leave a remainder at the last boundary that only pays a fee. -/
def residualSlipstreamSegments (path : SlipstreamPath) (segments : List SlipstreamSegment) (totalFee fee : Nat)
    (zeroForOne cappedOutput : Bool) : Result (List SlipstreamSegment) := do
  if cappedOutput = false ∧ segments.getLast?.map (·.reachedBoundary) = some true then
    let fullStepFees ← slipstreamStepFees segments fee
    if fullStepFees < totalFee then
      let valid ← validFinalStepFee path.sqrt path.sqrt path.liquidity 0 (totalFee - fullStepFees) fee zeroForOne
      return if valid then segments ++ [emptySlipstreamSegment path.sqrt path.liquidity path.stakedLiquidity] else segments
    else return segments
  else return segments

/-- The fee of one step: the rest of the fee where the path ends inside a step. -/
def slipstreamStepFee (fee : Nat) (zeroForOne cappedOutput : Bool) (segment : SlipstreamSegment) (isLast : Bool)
    (remainingFee : Nat) : Result Nat := do
  let mismatch := contradiction "final-step fee does not match exact-input or exact-output semantics"
  if isLast = true ∧ segment.reachedBoundary = false then
    if cappedOutput then
      let full ← feeForFullStep segment.amountIn fee
      ensure (remainingFee = full) mismatch
    let valid ← validFinalStepFee segment.sqrtStart segment.sqrtEnd segment.liquidity segment.amountIn remainingFee fee
      zeroForOne
    ensure (valid = true) mismatch
    return remainingFee
  else feeForFullStep segment.amountIn fee

/-- The fees of the steps, and what they leave. -/
def allocateSteps (fee : Nat) (zeroForOne cappedOutput : Bool) :
    List SlipstreamSegment → Nat → Result (List Nat × Nat)
  | [], remainingFee => return ([], remainingFee)
  | segment :: rest, remainingFee => do
    let feeAmount ← slipstreamStepFee fee zeroForOne cappedOutput segment rest.isEmpty remainingFee
    let remainingFee ← checkedSub remainingFee feeAmount (contradiction "fee allocation contradicts event input")
    let (fees, remainingFee) ← allocateSteps fee zeroForOne cappedOutput rest remainingFee
    return (feeAmount :: fees, remainingFee)

/-- The segments that carry the total fee, and the fee of each. -/
def allocateSlipstreamFees (path : SlipstreamPath) (segments : List SlipstreamSegment) (totalFee fee : Nat)
    (zeroForOne cappedOutput : Bool) : Result (List SlipstreamSegment × List Nat) := do
  let segments ← residualSlipstreamSegments path segments totalFee fee zeroForOne cappedOutput
  let (fees, remainingFee) ← allocateSteps fee zeroForOne cappedOutput segments totalFee
  ensure (remainingFee = 0) (contradiction "fee allocation left an unexplained remainder")
  return (segments, fees)

/-- The largest input that does not move the price past the end of the path. -/
def slipstreamFinalBudget (path : SlipstreamPath) (segments : List SlipstreamSegment) (zeroForOne cappedOutput : Bool) :
    Result Nat :=
  let last := segments.getLast?.getD (emptySlipstreamSegment path.sqrt path.liquidity path.stakedLiquidity)
  if cappedOutput then return 0
  else if last.reachedBoundary then maximumInputBudget path.sqrt path.sqrt path.liquidity zeroForOne
  else maximumInputBudget last.sqrtStart last.sqrtEnd last.liquidity zeroForOne

/-- The fee of the event and the fee of each step. -/
def slipstreamSwapFees (path : SlipstreamPath) (segments : List SlipstreamSegment) (swap : DecodedSwap)
    (zeroForOne : Bool) : Result (Nat × List SlipstreamSegment × List Nat) := do
  let principalInput ← checkedSum (segments.map (·.amountIn))
  let derivedOutput ← checkedSum (segments.map (·.amountOut))
  let last := segments.getLast?.getD (emptySlipstreamSegment path.sqrt path.liquidity path.stakedLiquidity)
  let cappedOutput ← outputIsCapped last.sqrtStart last.sqrtEnd last.liquidity last.amountOut derivedOutput
    (swap.output zeroForOne) zeroForOne
  let totalFee ← checkedSub (swap.input zeroForOne) principalInput
    (finalMismatch "signed input principal" principalInput (swap.input zeroForOne))
  let maximumFinalBudget ← slipstreamFinalBudget path segments zeroForOne cappedOutput
  let fee ← inferSlipstreamFee segments totalFee maximumFinalBudget cappedOutput
  let (segments, fees) ← allocateSlipstreamFees path segments totalFee fee zeroForOne cappedOutput
  return (fee, segments, fees)

end AmmState.V3
