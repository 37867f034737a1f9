import AmmState.V3.Liquidity
import AmmState.V3.SlipstreamAccounting

/-! Replay of Slipstream `Mint` and `Burn` events (`derive_slipstream_liquidity` of `v3_transition.rs`). The tick update is
    a second copy of the canonical one, over a `Tick.Info` of six words. An absent cell fails the event. -/

namespace AmmState.V3
open Checked

/-- The six words of a `Tick.Info`: the second holds the staked net, the fifth the reward growth outside. -/
structure SlipstreamTickWords where
  word0 : U256
  word1 : U256
  word2 : U256
  word3 : U256
  word4 : U256
  word5 : U256
  deriving DecidableEq

namespace SlipstreamTickWords

def zero : SlipstreamTickWords := ⟨0, 0, 0, 0, 0, 0⟩

def toList (w : SlipstreamTickWords) : List U256 := [w.word0, w.word1, w.word2, w.word3, w.word4, w.word5]

/-- The words that a canonical `Tick.Info` has too. -/
def shared (w : SlipstreamTickWords) : TickWords := ⟨w.word0, w.word2, w.word3, w.word5⟩

end SlipstreamTickWords

structure LiquidityTickUpdate where
  tick : Int
  keys : List U256
  words : SlipstreamTickWords
  wasInitialized : Bool
  isInitialized : Bool

/-- What a liquidity change reads of the pool, with the reward growth that a new tick starts from. -/
structure SlipstreamLiquidityParent extends LiquidityParent where
  initialRewardGrowth : U256

/-- The words of a boundary, initialized with the accumulators where it is at or below the current tick. -/
def initializeSlipstreamWords (words : SlipstreamTickWords) (tick : Int) (parent : SlipstreamLiquidityParent)
    (timestamp : Nat) : SlipstreamTickWords :=
  if tick ≤ parent.slot0.tick then
    let word5 := Packed.set (0 : U256) 0 (BitVec.ofInt 56 parent.oracle.now.tickCumulative)
    let word5 := Packed.set word5 56 (BitVec.ofNat 160 parent.oracle.now.secondsPerLiquidityCumulativeX128)
    let word5 := Packed.set word5 216 (BitVec.ofNat 32 timestamp)
    { words with
      word2 := parent.feeGrowth0
      word3 := parent.feeGrowth1
      word4 := parent.initialRewardGrowth
      word5 := Packed.set word5 248 (1 : BitVec 8) }
  else { words with word5 := Packed.set (0 : U256) 248 (1 : BitVec 8) }

/-- Flag, gross liquidity and the other words of a boundary agree. -/
def checkSlipstreamTickWords (tick : Int) (words : SlipstreamTickWords) : Result Unit := do
  let wasInitialized := decide (tickGross words.word0 ≠ 0)
  ensure (wasInitialized = decide (tickFlag words.word5 = 1))
    (.v3Transition (.initializedTick tick "Tick.Info initialized flag disagrees with liquidityGross"))
  ensure (wasInitialized = true ∨ words = SlipstreamTickWords.zero)
    (.v3Transition (.initializedTick tick "uninitialized Tick.Info contains nonzero state"))

/-- The words of a boundary after the event: initialized where it was empty, cleared where it empties. -/
def changedSlipstreamTickWords (words : SlipstreamTickWords) (tick : Int) (parent : SlipstreamLiquidityParent)
    (timestamp newGross : Nat) (newNet : Int) : SlipstreamTickWords :=
  let wasInitialized := decide (tickGross words.word0 ≠ 0)
  let isInitialized := decide (newGross ≠ 0)
  let words := if wasInitialized = false ∧ isInitialized = true
    then initializeSlipstreamWords words tick parent timestamp else words
  let words := { words with word0 := liquidityWord newGross newNet }
  if isInitialized then words else SlipstreamTickWords.zero

section Boundaries
variable (keccak : Keccak) (address : Address) (layout : V3StorageLayout) (state : StateView)

def loadSlipstreamTickWords (tick : Int) : Result SlipstreamTickWords := do
  let key := v3TickInfoStorageKeyWithBase keccak tick layout.ticksBaseSlot
  let word0 ← required state address (key 0)
  let word1 ← required state address (key 1)
  let word2 ← required state address (key 2)
  let word3 ← required state address (key 3)
  let word4 ← required state address (key 4)
  let word5 ← required state address (key 5)
  return ⟨word0, word1, word2, word3, word4, word5⟩

def updateSlipstreamLiquidityTick (event : DecodedLiquidity) (parent : SlipstreamLiquidityParent) (timestamp : Nat)
    (tick : Int) (upper : Bool) : Result LiquidityTickUpdate := do
  let words ← loadSlipstreamTickWords keccak address layout state tick
  checkSlipstreamTickWords tick words
  let (newGross, newNet) ← changeTickLiquidity event parent.maxLiquidityPerTick upper words.word0
  return {
    tick
    keys := slipstreamTickInfoStorageKeysWithBase keccak tick layout.ticksBaseSlot
    words := changedSlipstreamTickWords words tick parent timestamp newGross newNet
    wasInitialized := decide (tickGross words.word0 ≠ 0)
    isInitialized := decide (newGross ≠ 0) }

/-- The flip of one boundary, merged into the bitmap words so far; its bit must agree with its own gross liquidity. -/
def flipSlipstreamBoundary (s : BitmapState) (boundary : LiquidityTickUpdate × BoundaryPosition) : Result BitmapState := do
  let (update, position) := boundary
  let parent ← required state address position.slot
  let bitmap := (s.values position.slot).getD parent
  ensure (decide (bitmap &&& position.mask ≠ 0) = update.wasInitialized)
    (.v3Transition (.initializedTick update.tick "bitmap disagrees with parent Tick.Info initialization"))
  if update.wasInitialized ≠ update.isInitialized then
    return ⟨Function.update s.values position.slot (some (bitmap ^^^ position.mask)), position.slot :: s.changed⟩
  else return ⟨Function.update s.values position.slot (some bitmap), s.changed⟩

end Boundaries

section Derivation
variable (keccak : Keccak) (address : Address) (layout : V3StorageLayout) (state : StateView)

def slipstreamTickUpdates (update : LiquidityTickUpdate) : List StateUpdate :=
  (update.keys.zip update.words.toList).map fun (slot, value) => ⟨address, slot, value⟩

/-- Active liquidity and the observation of an in-range change; `maxLiquidityPerTick` shares the word and stays. -/
def slipstreamActiveUpdates (event : DecodedLiquidity) (parent : SlipstreamLiquidityParent) :
    Result (List StateUpdate) := do
  if event.tickLower ≤ parent.slot0.tick ∧ parent.slot0.tick < event.tickUpper then
    let nextLiquidity ← (if event.isMint
      then checkedAdd parent.liquidity event.amount (arithmetic "active liquidity overflow")
      else checkedSub parent.liquidity event.amount (arithmetic "active liquidity underflow"))
    ensure (nextLiquidity ≤ WORD_128_MASK) (arithmetic "active liquidity exceeds uint128")
    let slot0 := parent.slot0.encodeFinal parent.slot0.sqrtPriceX96 parent.slot0.tick parent.oracle.observationIndex
      parent.oracle.observationCardinality
    let oracleWrites : List StateUpdate := match parent.oracle.write with
      | some (slot, value) => [⟨address, slot, value⟩, ⟨address, layout.slot0Slot, slot0⟩]
      | none => []
    let word := Packed.set (Packed.set (0 : U256) 0 (BitVec.ofNat 128 nextLiquidity)) 128
      (BitVec.ofNat 128 parent.maxLiquidityPerTick)
    return oracleWrites ++ [⟨address, layout.liquiditySlot, word⟩]
  else return []

/-- The pool state that a nonzero change needs. Only the runtime of Optimism starts the reward growth of a new tick. -/
def loadSlipstreamLiquidityParent (context : AdapterEventContext) (timestamp : Nat) : Result SlipstreamLiquidityParent := do
  let raw ← required state address layout.slot0Slot
  let slot0 := Slot0.decode raw
  ensure (field slot0.raw 232 8 = 1) (contradiction "parent Slipstream slot0 is locked")
  validateParentSlot0 slot0
  let word ← required state address layout.liquiditySlot
  let oracle ← advanceOracle address SLIPSTREAM_SURFACE slot0 (field word 0 128) state timestamp
  let feeGrowth0 ← required state address SLIPSTREAM_SURFACE.feeGrowth0Slot
  let feeGrowth1 ← required state address SLIPSTREAM_SURFACE.feeGrowth1Slot
  let initialRewardGrowth ← (if context.chainId = some 10 then required state address SLIPSTREAM_REWARD_GROWTH_SLOT
    else pure 0)
  return ⟨⟨slot0, field word 0 128, field word 128 128, oracle, feeGrowth0, feeGrowth1⟩, initialRewardGrowth⟩

/-- The transition of a nonzero amount. -/
def slipstreamLiquidityTransition (event : DecodedLiquidity) (parent : SlipstreamLiquidityParent) (timestamp : Nat) :
    Result (List StateUpdate) := do
  let lowerPosition := boundaryPosition keccak address layout state event.tickLower false
  let upperPosition := boundaryPosition keccak address layout state event.tickUpper true
  let lower ← updateSlipstreamLiquidityTick keccak address layout state event parent timestamp event.tickLower false
  let upper ← updateSlipstreamLiquidityTick keccak address layout state event parent timestamp event.tickUpper true
  let bitmaps ← [(lower, lowerPosition), (upper, upperPosition)].foldlM (flipSlipstreamBoundary address state)
    ⟨fun _ => none, []⟩
  let active ← slipstreamActiveUpdates address layout event parent
  return slipstreamTickUpdates address lower ++ slipstreamTickUpdates address upper ++
    bitmapUpdates address bitmaps [] lowerPosition upperPosition ++ active

/-- The range of the event: ordered, in bounds and on the spacing. -/
def checkSlipstreamRange (event : DecodedLiquidity) : Result Unit :=
  ensure (MIN_TICK ≤ event.tickLower ∧ event.tickUpper ≤ MAX_TICK ∧ event.tickLower < event.tickUpper ∧
      event.tickLower % layout.tickSpacing = 0 ∧ event.tickUpper % layout.tickSpacing = 0)
    (contradiction "Slipstream liquidity range is invalid or not spacing-aligned")

def deriveSlipstreamLiquidity (event : DecodedLiquidity) (context : AdapterEventContext) : Result (List StateUpdate) := do
  let timestamp ← validateReviewedSlipstreamEvent address layout context
  checkSlipstreamRange layout event
  if event.amount = 0 then
    ensure (event.isMint = false) (contradiction "Slipstream Mint liquidity must be positive")
    return []
  else
    ensure (event.amount < 2 ^ 127) (arithmetic "liquidity amount exceeds int128")
    let parent ← loadSlipstreamLiquidityParent address layout state context timestamp
    slipstreamLiquidityTransition keccak address layout state event parent timestamp

end Derivation

end AmmState.V3
