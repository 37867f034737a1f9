import AmmState.V3.Slots
import Mathlib.Data.List.Range

/-! Replay of a canonical Uniswap V3 `Swap` event (`derive_uniswap_v3_swap` of `v3_transition.rs`): the price path from
    the parent to the event, its amounts, the fee of each step, and the update batch. -/

namespace AmmState.V3
open Checked

def MAX_SWAP_STEPS : Nat := 4096

structure DecodedSwap where
  amount0Negative : Bool
  amount0 : Nat
  amount1Negative : Bool
  amount1 : Nat
  sqrtPriceX96 : Nat
  liquidity : Nat
  tick : Int

structure StepBoundary where
  tick : Int
  initialized : Bool
  deriving DecidableEq

/-- `bit_len - 1` of a nonzero word. -/
def highestBit (word : U256) : Option Nat := (List.range 256).reverse.find? fun i => word.getLsbD i

/-- `trailing_zeros` of a nonzero word. -/
def lowestBit (word : U256) : Option Nat := (List.range 256).find? fun i => word.getLsbD i

/-- The low `bits` bits. -/
def lowMask (bits : Nat) : U256 := BitVec.ofNat 256 (2 ^ bits - 1)

/-- The next initialized tick or word edge, as a compressed tick, from one `tickBitmap` word. -/
def searchWord (bitmap : U256) (search : Int) (zeroForOne : Bool) : Int × Bool :=
  let bitPosition := (search % 256).toNat
  if zeroForOne then
    match highestBit (bitmap &&& lowMask (bitPosition + 1)) with
    | none => (search - bitPosition, false)
    | some bit => (search - (bitPosition - bit : Nat), true)
  else
    match lowestBit (bitmap &&& ~~~lowMask bitPosition) with
    | none => (search + (255 - bitPosition : Nat), false)
    | some bit => (search + (bit - bitPosition : Nat), true)

/-- One `Tick.Info` that a swap crosses. -/
structure InitializedTick where
  keys : List U256
  words : TickWords
  liquidityNet : Int

/-- One step of the price path. -/
structure Segment where
  sqrtStart : Nat
  sqrtEnd : Nat
  liquidity : Nat
  amountIn : Nat
  amountOut : Nat
  reachedBoundary : Bool
  crossedTick : Option InitializedTick

/-- The walk so far. Each consumed step has pushed one segment. -/
structure Path where
  sqrt : Nat
  tick : Int
  liquidity : Nat
  segments : List Segment

section Replay
variable (keccak : Keccak) (address : Address) (layout : V3StorageLayout) (state : StateView)

def nextStepBoundary (currentTick : Int) (zeroForOne : Bool) : Result StepBoundary := do
  let spacing := layout.tickSpacing
  let compressed := currentTick / spacing
  let search := if zeroForOne then compressed else compressed + 1
  let slot := v3TickBitmapStorageKeyWithBase keccak (BitVec.ofInt 16 (search / 256)) layout.tickBitmapBaseSlot
  let bitmap ← required state address slot
  let next := searchWord bitmap search zeroForOne
  ensure (-2 ^ 31 ≤ next.1 * spacing ∧ next.1 * spacing < 2 ^ 31) (arithmetic "step-boundary tick overflow")
  return ⟨max MIN_TICK (min MAX_TICK (next.1 * spacing)), next.2⟩

def loadInitializedTick (tick : Int) : Result InitializedTick := do
  let words ← loadTickWords keccak address layout state tick
  ensure (tickFlag words.word3 = 1)
    (.v3Transition (.initializedTick tick "bitmap is set but Tick.Info.initialized is false"))
  ensure (tickGross words.word0 ≠ 0)
    (.v3Transition (.initializedTick tick "bitmap is set but Tick.Info.liquidityGross is zero"))
  return ⟨v3TickInfoStorageKeysWithBase keccak tick layout.ticksBaseSlot, words, tickNet words.word0⟩

/-- The tick at a boundary that was reached, and the liquidity beyond it. -/
def crossBoundary (boundary : StepBoundary) (reached : Bool) (liquidity : Nat) (zeroForOne : Bool) :
    Result (Option InitializedTick × Nat) := do
  if reached = true ∧ boundary.initialized = true then
    let initialized ← loadInitializedTick keccak address layout state boundary.tick
    let next ← applyLiquidityNet liquidity initialized.liquidityNet zeroForOne
    return (some initialized, next)
  else return (none, liquidity)

/-- A downward swap that ends where it starts still traverses a boundary it stands on. -/
def enterBoundary (path : Path) : Result Path := do
  let boundary ← nextStepBoundary keccak address layout state path.tick true
  let boundarySqrt ← sqrtRatioAtTick boundary.tick
  if boundarySqrt = path.sqrt then
    let (crossedTick, liquidity) ← crossBoundary keccak address layout state boundary true path.liquidity true
    return {
      sqrt := path.sqrt
      tick := boundary.tick - 1
      liquidity := liquidity
      segments := path.segments ++ [⟨path.sqrt, path.sqrt, path.liquidity, 0, 0, true, crossedTick⟩] }
  else return path

/-- One step towards the event price: to the next boundary, or to the price if it comes first. -/
def pathStep (swap : DecodedSwap) (zeroForOne : Bool) (path : Path) : Result Path := do
  let boundary ← nextStepBoundary keccak address layout state path.tick zeroForOne
  let boundarySqrt ← sqrtRatioAtTick boundary.tick
  let target := if zeroForOne then max boundarySqrt swap.sqrtPriceX96 else min boundarySqrt swap.sqrtPriceX96
  let reached := decide (target = boundarySqrt)
  let (amountIn, amountOut) ← segmentAmounts path.sqrt target path.liquidity zeroForOne
  let (crossedTick, liquidity) ← crossBoundary keccak address layout state boundary reached path.liquidity zeroForOne
  return {
    sqrt := target
    tick := if reached then (if zeroForOne then boundary.tick - 1 else boundary.tick) else swap.tick
    liquidity := liquidity
    segments := path.segments ++ [⟨path.sqrt, target, path.liquidity, amountIn, amountOut, reached, crossedTick⟩] }

/-- The walk to the event price, within the steps that are left. -/
def walk (swap : DecodedSwap) (zeroForOne : Bool) : Nat → Path → Result Path
  | 0, path =>
    if path.sqrt = swap.sqrtPriceX96 then return path
    else throw (.v3Transition (.workLimitExceeded MAX_SWAP_STEPS))
  | steps + 1, path => do
    if path.sqrt = swap.sqrtPriceX96 then return path
    else
      let path ← pathStep keccak address layout state swap zeroForOne path
      walk swap zeroForOne steps path

def replayPath (swap : DecodedSwap) (zeroForOne : Bool) (start : Path) : Result Path := do
  let path ← (if zeroForOne = true ∧ start.sqrt = swap.sqrtPriceX96
    then enterBoundary keccak address layout state start else pure start)
  walk keccak address layout state swap zeroForOne (MAX_SWAP_STEPS - path.segments.length) path

end Replay

/-- The direction that the signs of the amounts say. -/
def swapDirection (swap : DecodedSwap) : Result Bool :=
  match swap.amount0Negative, swap.amount1Negative, decide (swap.amount0 = 0), decide (swap.amount1 = 0) with
  | false, true, false, false => .ok true
  | true, false, false, false => .ok false
  | false, false, false, true => .ok true
  | false, false, true, false => .ok false
  | _, _, _, _ => .error (contradiction "swap must contain one positive input and one negative output")

/-- Fee accounting along the segments. -/
structure FeeState where
  remainingFee : Nat
  feeGrowth0 : U256
  feeGrowth1 : U256
  protocolFees : U256
  tickUpdates : List StateUpdate

section Fees
variable (address : Address) (fee protocolDivisor : Nat) (zeroForOne : Bool) (now : Observation) (timestamp : Nat)

/-- The writes of a crossing, with the growth reached so far. -/
def crossTick (tick : InitializedTick) (feeGrowth0 feeGrowth1 : U256) : List StateUpdate :=
  tickWordUpdates address tick.keys ⟨tick.words.word0, feeGrowth0 - tick.words.word1, feeGrowth1 - tick.words.word2,
    crossTickWord tick.words.word3 now.tickCumulative now.secondsPerLiquidityCumulativeX128 timestamp⟩

/-- The growth of one step per unit of liquidity. -/
def stepGrowth (lpFee liquidity : Nat) : Result Nat :=
  if liquidity = 0 then do
    ensure (lpFee = 0) (contradiction "a zero-liquidity step cannot accrue an LP fee")
    return 0
  else mulDiv lpFee Q128 liquidity

/-- The fee of one step: the rest of the fee where the path ends inside a step. -/
def stepFee (segment : Segment) (isLast : Bool) (remainingFee : Nat) : Result Nat := do
  if isLast = true ∧ segment.reachedBoundary = false then
    let valid ← validFinalStepFee segment.sqrtStart segment.sqrtEnd segment.liquidity segment.amountIn remainingFee fee
      zeroForOne
    ensure (valid = true) (contradiction "final-step fee does not match exact-input or exact-output semantics")
    return remainingFee
  else feeForFullStep segment.amountIn fee

/-- Both growths and the protocol fees after one step; casts and sums wrap as in the pool. -/
def accrue (f : FeeState) (growth protocolFee : Nat) : FeeState :=
  if zeroForOne then { f with
    feeGrowth0 := f.feeGrowth0 + BitVec.ofNat 256 growth
    protocolFees := Packed.set f.protocolFees 0 (Packed.get f.protocolFees 0 128 + BitVec.ofNat 128 protocolFee) }
  else { f with
    feeGrowth1 := f.feeGrowth1 + BitVec.ofNat 256 growth
    protocolFees := Packed.set f.protocolFees 128 (Packed.get f.protocolFees 128 128 + BitVec.ofNat 128 protocolFee) }

def allocateSegment (segment : Segment) (isLast : Bool) (f : FeeState) : Result FeeState := do
  let feeAmount ← stepFee fee zeroForOne segment isLast f.remainingFee
  let remainingFee ← checkedSub f.remainingFee feeAmount (contradiction "fee allocation contradicts event input")
  let protocolFee := if protocolDivisor = 0 then 0 else feeAmount / protocolDivisor
  let growth ← stepGrowth (feeAmount - protocolFee) segment.liquidity
  let f := accrue zeroForOne { f with remainingFee } growth protocolFee
  match segment.crossedTick with
  | some tick =>
    return { f with tickUpdates := f.tickUpdates ++ crossTick address now timestamp tick f.feeGrowth0 f.feeGrowth1 }
  | none => return f

def allocateFees : List Segment → FeeState → Result FeeState
  | [], f => return f
  | segment :: rest, f => do
    let f ← allocateSegment address fee protocolDivisor zeroForOne now timestamp segment rest.isEmpty f
    allocateFees rest f

end Fees

/-- The full-step fees of a path. -/
def fullStepFees (segments : List Segment) (fee : Nat) : Result Nat := do
  let fees ← segments.mapM fun segment => feeForFullStep segment.amountIn fee
  checkedSum fees

/-- The step of a swap that moves no price. -/
def emptySegment (sqrt liquidity : Nat) : Segment := ⟨sqrt, sqrt, liquidity, 0, 0, false, none⟩

/-- An exact input may leave a remainder at the last boundary that only pays a fee. -/
def residualSegments (segments : List Segment) (sqrt liquidity totalFee fee : Nat) (zeroForOne cappedOutput : Bool) :
    Result (List Segment) := do
  if cappedOutput = false ∧ segments.getLast?.map (·.reachedBoundary) = some true then
    let fullFees ← fullStepFees segments fee
    if fullFees < totalFee then
      let valid ← validFinalStepFee sqrt sqrt liquidity 0 (totalFee - fullFees) fee zeroForOne
      return if valid then segments ++ [emptySegment sqrt liquidity] else segments
    else return segments
  else return segments

/-- The oracle at the event, advanced where the tick changes. -/
def swapOracle (address : Address) (slot0 : Slot0) (liquidity : Nat) (state : StateView) (timestamp : Nat)
    (tick : Int) : Result OracleAdvance :=
  if slot0.tick ≠ tick then advanceOracle address UNISWAP_V3_SURFACE slot0 liquidity state timestamp
  else .ok ⟨slot0.observationIndex, slot0.observationCardinality, none, ⟨timestamp, 0, 0, true⟩⟩

/-- The segments of the path; a swap that moves no price has one of its own. -/
def pathSegments (path : Path) (unchangedTinySwap : Bool) : Result (List Segment) :=
  if path.segments = [] then
    if unchangedTinySwap then .ok [emptySegment path.sqrt path.liquidity]
    else .error (contradiction "swap did not move the square-root price")
  else .ok path.segments

/-! ### The derivation -/

/-- The fixed cells of the parent that every swap needs. -/
structure SwapParent where
  slot0 : Slot0
  liquidity : Nat
  feeGrowth0 : U256
  feeGrowth1 : U256
  protocolFees : U256

/-- What the inputs must satisfy before any storage is read; the timestamp of the context. -/
def checkSwapInputs (layout : V3StorageLayout) (fee : Nat) (swap : DecodedSwap) (context : AdapterEventContext) :
    Result Nat := do
  let timestamp ← validateContext context
  ensure (layout = V3StorageLayout.uniswap layout.tickSpacing)
    (contradiction "exact Uniswap V3 transition requires the canonical storage layout")
  ensure (fee < FEE_DENOMINATOR) (contradiction "invalid Uniswap V3 fee")
  ensure (0 < layout.tickSpacing) (contradiction "Uniswap V3 tick spacing must be positive")
  ensure (swap.sqrtPriceX96 ≤ SLOT0_SQRT_MASK ∧ swap.liquidity ≤ WORD_128_MASK)
    (.malformedLog "V3 Swap final value exceeds its ABI width")
  return timestamp

/-- An unlocked parent whose price, tick and liquidity are valid. -/
def loadSlot0 (address : Address) (layout : V3StorageLayout) (state : StateView) : Result (Slot0 × Nat) := do
  let raw ← required state address layout.slot0Slot
  let slot0 := Slot0.decode raw
  ensure (slot0.unlockedByte = 1) (contradiction "parent slot0 is locked")
  validateParentSlot0 slot0
  let liquidity ← required state address layout.liquiditySlot
  ensure (liquidity.toNat ≤ WORD_128_MASK) (contradiction "parent V3 liquidity exceeds uint128")
  return (slot0, liquidity.toNat)

def loadSwapParent (address : Address) (layout : V3StorageLayout) (state : StateView) : Result SwapParent := do
  let (slot0, liquidity) ← loadSlot0 address layout state
  let feeGrowth0 ← required state address UNISWAP_V3_SURFACE.feeGrowth0Slot
  let feeGrowth1 ← required state address UNISWAP_V3_SURFACE.feeGrowth1Slot
  let protocolFees ← required state address UNISWAP_V3_SURFACE.protocolFeesSlot
  return ⟨slot0, liquidity, feeGrowth0, feeGrowth1, protocolFees⟩

/-- Input of the event, by direction. -/
def DecodedSwap.input (swap : DecodedSwap) (zeroForOne : Bool) : Nat := if zeroForOne then swap.amount0 else swap.amount1

/-- Output of the event, by direction. -/
def DecodedSwap.output (swap : DecodedSwap) (zeroForOne : Bool) : Nat := if zeroForOne then swap.amount1 else swap.amount0

/-- No output and no price change: the whole input is a fee. -/
def unchangedTinySwap (slot0 : Slot0) (swap : DecodedSwap) (zeroForOne : Bool) : Bool :=
  decide (swap.output zeroForOne = 0 ∧ swap.sqrtPriceX96 = slot0.sqrtPriceX96)

/-- The direction of the event, which its final price and tick must not contradict. -/
def checkSwapEvent (slot0 : Slot0) (swap : DecodedSwap) : Result Bool := do
  let zeroForOne ← swapDirection swap
  ensure (unchangedTinySwap slot0 swap zeroForOne = true ∨
      if zeroForOne then swap.sqrtPriceX96 < slot0.sqrtPriceX96 else slot0.sqrtPriceX96 < swap.sqrtPriceX96)
    (contradiction "swap direction contradicts its final price")
  validateFinalTick swap.sqrtPriceX96 swap.tick zeroForOne
  return zeroForOne

/-- The path to the event, which must end at its liquidity and tick. -/
def replaySegments (keccak : Keccak) (address : Address) (layout : V3StorageLayout) (state : StateView)
    (slot0 : Slot0) (liquidity : Nat) (swap : DecodedSwap) (zeroForOne : Bool) : Result (Path × List Segment) := do
  let path ← replayPath keccak address layout state swap zeroForOne ⟨slot0.sqrtPriceX96, slot0.tick, liquidity, []⟩
  let segments ← pathSegments path (unchangedTinySwap slot0 swap zeroForOne)
  ensure (path.liquidity = swap.liquidity) (finalMismatch "liquidity" path.liquidity swap.liquidity)
  ensure (path.tick = swap.tick)
    (finalMismatch "tick" (BitVec.ofInt 24 path.tick).toNat (BitVec.ofInt 24 swap.tick).toNat)
  return (path, segments)

/-- A capped output is an exact-output request, which pays the full fee of every step. -/
def checkCappedFee (segments : List Segment) (totalFee fee : Nat) (cappedOutput : Bool) : Result Unit :=
  if cappedOutput then do
    let fullFees ← fullStepFees segments fee
    ensure (totalFee = fullFees) (contradiction "capped output requires exact-output fee accounting")
  else return ()

/-- The total fee of the event and the segments that carry it. -/
def splitFees (fee : Nat) (swap : DecodedSwap) (zeroForOne : Bool) (path : Path) (segments : List Segment) :
    Result (Nat × List Segment) := do
  let principalInput ← checkedSum (segments.map (·.amountIn))
  let derivedOutput ← checkedSum (segments.map (·.amountOut))
  let last := segments.getLast?.getD (emptySegment path.sqrt path.liquidity)
  let cappedOutput ← outputIsCapped last.sqrtStart last.sqrtEnd last.liquidity last.amountOut derivedOutput
    (swap.output zeroForOne) zeroForOne
  let totalFee ← checkedSub (swap.input zeroForOne) principalInput
    (finalMismatch "signed input principal" principalInput (swap.input zeroForOne))
  checkCappedFee segments totalFee fee cappedOutput
  let segments ← residualSegments segments path.sqrt path.liquidity totalFee fee zeroForOne cappedOutput
  return (totalFee, segments)

/-- The divisor of the protocol's share of the input fee. -/
def protocolDivisor (slot0 : Slot0) (zeroForOne : Bool) : Nat :=
  if zeroForOne then slot0.feeProtocol % 16 else slot0.feeProtocol / 16

/-- The batch: fixed cells, the observation, then the crossed ticks in order. -/
def swapUpdates (address : Address) (layout : V3StorageLayout) (parent : SwapParent) (swap : DecodedSwap)
    (oracle : OracleAdvance) (path : Path) (f : FeeState) : List StateUpdate :=
  let slot0 := parent.slot0.encodeFinal swap.sqrtPriceX96 swap.tick oracle.observationIndex oracle.observationCardinality
  [⟨address, layout.slot0Slot, slot0⟩,
    ⟨address, UNISWAP_V3_SURFACE.feeGrowth0Slot, f.feeGrowth0⟩,
    ⟨address, UNISWAP_V3_SURFACE.feeGrowth1Slot, f.feeGrowth1⟩,
    ⟨address, UNISWAP_V3_SURFACE.protocolFeesSlot, f.protocolFees⟩,
    ⟨address, layout.liquiditySlot, BitVec.ofNat 256 path.liquidity⟩] ++
  oracle.write.toList.map (fun (slot, value) => ⟨address, slot, value⟩) ++ f.tickUpdates

def deriveUniswapV3Swap (keccak : Keccak) (address : Address) (layout : V3StorageLayout) (fee : Nat)
    (swap : DecodedSwap) (state : StateView) (context : AdapterEventContext) : Result (List StateUpdate) := do
  let timestamp ← checkSwapInputs layout fee swap context
  let parent ← loadSwapParent address layout state
  let zeroForOne ← checkSwapEvent parent.slot0 swap
  let oracle ← swapOracle address parent.slot0 parent.liquidity state timestamp swap.tick
  let (path, segments) ← replaySegments keccak address layout state parent.slot0 parent.liquidity swap zeroForOne
  let (totalFee, segments) ← splitFees fee swap zeroForOne path segments
  let f ← allocateFees address fee (protocolDivisor parent.slot0 zeroForOne) zeroForOne oracle.now timestamp segments
    ⟨totalFee, parent.feeGrowth0, parent.feeGrowth1, parent.protocolFees, []⟩
  ensure (f.remainingFee = 0) (contradiction "fee allocation left an unexplained remainder")
  return swapUpdates address layout parent swap oracle path f

end AmmState.V3
