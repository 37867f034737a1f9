import AmmState.V3.Swap
import Mathlib.Data.List.Dedup

/-! Replay of canonical Uniswap V3 `Mint` and `Burn` events (`derive_uniswap_v3_liquidity` of `v3_transition.rs`). A
    boundary whose cells the parent does not hold is left out and its cells are reported cold. -/

namespace AmmState.V3
open Checked

structure DecodedLiquidity where
  tickLower : Int
  tickUpper : Int
  amount : Nat
  isMint : Bool

/-- `uniswap_v3_max_liquidity_per_tick` of `bytecode.rs`; the divisions truncate. -/
def uniswapV3MaxLiquidityPerTick (tickSpacing : Int) : Option Nat :=
  if tickSpacing ≤ 0 then none
  else
    let minTick := MIN_TICK.tdiv tickSpacing * tickSpacing
    let maxTick := MAX_TICK.tdiv tickSpacing * tickSpacing
    let tickCount := (maxTick - minTick).tdiv tickSpacing + 1
    if tickCount ≤ 0 then none else some ((2 ^ 128 - 1) / tickCount.toNat)

structure CanonicalTickUpdate where
  keys : List U256
  words : TickWords
  wasInitialized : Bool
  isInitialized : Bool

/-- What a liquidity change reads of the pool besides its boundaries. -/
structure LiquidityParent where
  slot0 : Slot0
  liquidity : Nat
  maxLiquidityPerTick : Nat
  oracle : OracleAdvance
  feeGrowth0 : U256
  feeGrowth1 : U256

/-- The signed change of the pool's liquidity. -/
def DecodedLiquidity.delta (event : DecodedLiquidity) : Int := if event.isMint then event.amount else -event.amount

/-- The words of a boundary, initialized with the accumulators where it is at or below the current tick. -/
def initializeWords (words : TickWords) (tick currentTick : Int) (feeGrowth0 feeGrowth1 : U256) (now : Observation)
    (timestamp : Nat) : TickWords :=
  if tick ≤ currentTick then
    let word3 := Packed.set (0 : U256) 0 (BitVec.ofInt 56 now.tickCumulative)
    let word3 := Packed.set word3 56 (BitVec.ofNat 160 now.secondsPerLiquidityCumulativeX128)
    let word3 := Packed.set word3 216 (BitVec.ofNat 32 timestamp)
    { words with word1 := feeGrowth0, word2 := feeGrowth1, word3 := Packed.set word3 248 (1 : BitVec 8) }
  else { words with word3 := Packed.set (0 : U256) 248 (1 : BitVec 8) }

/-- Gross and net liquidity in one word. -/
def liquidityWord (gross : Nat) (net : Int) : U256 :=
  Packed.set (Packed.set (0 : U256) 0 (BitVec.ofNat 128 gross)) 128 (BitVec.ofInt 128 net)

/-- Flag, gross liquidity and the other words of a boundary agree. -/
def checkTickWords (tick : Int) (words : TickWords) : Result Unit := do
  let wasInitialized := decide (tickGross words.word0 ≠ 0)
  ensure (wasInitialized = decide (tickFlag words.word3 = 1))
    (.v3Transition (.initializedTick tick "Tick.Info initialized flag disagrees with liquidityGross"))
  ensure (wasInitialized = true ∨ words = TickWords.zero)
    (.v3Transition (.initializedTick tick "uninitialized Tick.Info contains nonzero state"))

/-- Gross and net liquidity of a boundary after the event. -/
def changeTickLiquidity (event : DecodedLiquidity) (maxLiquidityPerTick : Nat) (upper : Bool) (word0 : U256) :
    Result (Nat × Int) := do
  let newGross ← (if event.isMint
    then checkedAdd (tickGross word0) event.amount (arithmetic "tick liquidityGross overflow")
    else checkedSub (tickGross word0) event.amount (arithmetic "tick liquidityGross underflow"))
  ensure (newGross ≤ maxLiquidityPerTick) (arithmetic "tick liquidityGross exceeds maxLiquidityPerTick")
  let newNet := tickNet word0 + if upper then -event.delta else event.delta
  ensure (-2 ^ 127 ≤ newNet ∧ newNet < 2 ^ 127) (arithmetic "tick liquidityNet overflow")
  return (newGross, newNet)

/-- The words of a boundary after the event: initialized where it was empty, cleared where it empties. -/
def changedTickWords (words : TickWords) (tick : Int) (parent : LiquidityParent) (timestamp newGross : Nat)
    (newNet : Int) : TickWords :=
  let wasInitialized := decide (tickGross words.word0 ≠ 0)
  let isInitialized := decide (newGross ≠ 0)
  let words := if wasInitialized = false ∧ isInitialized = true
    then initializeWords words tick parent.slot0.tick parent.feeGrowth0 parent.feeGrowth1 parent.oracle.now timestamp
    else words
  let words := { words with word0 := liquidityWord newGross newNet }
  if isInitialized then words else TickWords.zero

section Boundaries
variable (keccak : Keccak) (address : Address) (layout : V3StorageLayout) (state : StateView)

/-- The words of a boundary: read where its bit is set, else proven zero unless a held word says otherwise. -/
def boundaryWords (tick : Int) (bitmapIndicatesInitialized : Bool) : Result TickWords :=
  if bitmapIndicatesInitialized then loadTickWords keccak address layout state tick
  else do
    ensure ((state.storage address (v3TickInfoStorageKeyWithBase keccak tick layout.ticksBaseSlot 0)).all (tickGross · = 0))
      (.v3Transition (.initializedTick tick "bitmap bit is clear for a tick holding liquidity"))
    return TickWords.zero

/-- `Tick.update`, and `Tick.clear` where the tick empties. -/
def updateCanonicalLiquidityTick (event : DecodedLiquidity) (parent : LiquidityParent) (timestamp : Nat)
    (tick : Int) (upper bitmapIndicatesInitialized : Bool) : Result CanonicalTickUpdate := do
  let words ← boundaryWords keccak address layout state tick bitmapIndicatesInitialized
  checkTickWords tick words
  let (newGross, newNet) ← changeTickLiquidity event parent.maxLiquidityPerTick upper words.word0
  return {
    keys := v3TickInfoStorageKeysWithBase keccak tick layout.ticksBaseSlot
    words := changedTickWords words tick parent timestamp newGross newNet
    wasInitialized := decide (tickGross words.word0 ≠ 0)
    isInitialized := decide (newGross ≠ 0) }

/-- Where the bit of a boundary stands, and the parent's word if it holds it. -/
structure BoundaryPosition where
  tick : Int
  upper : Bool
  slot : U256
  mask : U256
  value : Option U256

def boundaryPosition (tick : Int) (upper : Bool) : BoundaryPosition :=
  let slot := v3TickBitmapStorageKeyWithBase keccak (v3WordPosition tick layout.tickSpacing) layout.tickBitmapBaseSlot
  { tick
    upper
    slot
    mask := (1 : U256) <<< (tick / layout.tickSpacing % 256).toNat
    value := state.storage address slot }

/-- A boundary with its update; `none` where the parent does not hold what it needs. -/
def resolveBoundary (event : DecodedLiquidity) (parent : LiquidityParent) (timestamp : Nat)
    (position : BoundaryPosition) : Result (Option CanonicalTickUpdate) :=
  match position.value with
  | none => .ok none
  | some bitmap =>
    match updateCanonicalLiquidityTick keccak address layout state event parent timestamp position.tick position.upper
        (decide (bitmap &&& position.mask ≠ 0)) with
    | .ok update => .ok (some update)
    -- an absent tick word is unknown state, not bad state
    | .error (.missingState _ _) => .ok none
    | .error error => .error error

end Boundaries

/-- The bitmap words as flips are merged into them, and the slots that changed. -/
structure BitmapState where
  values : U256 → Option U256
  changed : List U256

/-- The flip of one boundary; its bit must agree with its own gross liquidity. -/
def flipBoundary (s : BitmapState) (boundary : Option CanonicalTickUpdate × BoundaryPosition) : Result BitmapState :=
  match boundary with
  | (none, _) => .ok s
  | (some update, position) => do
    let bitmap := (s.values position.slot).getD 0
    ensure (decide (bitmap &&& position.mask ≠ 0) = update.wasInitialized)
      (.v3Transition (.initializedTick position.tick "bitmap disagrees with parent Tick.Info initialization"))
    if update.wasInitialized ≠ update.isInitialized then
      return ⟨Function.update s.values position.slot (some (bitmap ^^^ position.mask)), position.slot :: s.changed⟩
    else return s

structure CanonicalLiquidityTransition where
  updates : List StateUpdate
  coldSlots : List U256

section Derivation
variable (keccak : Keccak) (address : Address) (layout : V3StorageLayout) (state : StateView)

/-- The cells of a boundary that stay unknown. -/
def coldCells (boundary : Option CanonicalTickUpdate × BoundaryPosition) : List U256 :=
  match boundary with
  | (some _, _) => []
  | (none, position) => v3TickInfoStorageKeysWithBase keccak position.tick layout.ticksBaseSlot ++ [position.slot]

/-- The writes of a boundary that is known. -/
def boundaryUpdates (boundary : Option CanonicalTickUpdate × BoundaryPosition) : List StateUpdate :=
  match boundary with
  | (some update, _) => tickWordUpdates address update.keys update.words
  | (none, _) => []

/-- The merged bitmap words, in slot order; a word shared with an unknown boundary is not written. -/
def bitmapUpdates (s : BitmapState) (cold : List U256) (lower upper : BoundaryPosition) : List StateUpdate :=
  let slots := if lower.slot.toNat ≤ upper.slot.toNat then [lower.slot, upper.slot] else [upper.slot, lower.slot]
  (slots.dedup.filter fun slot => slot ∈ s.changed ∧ slot ∉ cold).filterMap fun slot =>
    (s.values slot).map fun value => ⟨address, slot, value⟩

/-- Active liquidity and the observation of an in-range change. -/
def activeUpdates (event : DecodedLiquidity) (parent : LiquidityParent) : Result (List StateUpdate) := do
  if event.tickLower ≤ parent.slot0.tick ∧ parent.slot0.tick < event.tickUpper then
    let nextLiquidity ← (if event.isMint
      then checkedAdd parent.liquidity event.amount (arithmetic "active liquidity overflow")
      else checkedSub parent.liquidity event.amount (arithmetic "active liquidity underflow"))
    ensure (nextLiquidity ≤ WORD_128_MASK) (arithmetic "active liquidity exceeds uint128")
    let slot0 := parent.slot0.encodeFinal parent.slot0.sqrtPriceX96 parent.slot0.tick parent.oracle.observationIndex
      parent.oracle.observationCardinality
    let oracleWrites : List StateUpdate := match parent.oracle.write with
      | some (slot, value) => [⟨address, slot, value⟩, ⟨address, layout.slot0Slot, slot0⟩]
      | none => []
    return oracleWrites ++ [⟨address, layout.liquiditySlot, BitVec.ofNat 256 nextLiquidity⟩]
  else return []

/-- The pool state that a nonzero change needs; the oracle is read in range or not. -/
def loadLiquidityParent (timestamp : Nat) : Result LiquidityParent := do
  let (slot0, liquidity) ← loadSlot0 address layout state
  let maxLiquidityPerTick ← orError (uniswapV3MaxLiquidityPerTick layout.tickSpacing)
    (contradiction "no canonical maxLiquidityPerTick for this tick spacing")
  let oracle ← advanceOracle address UNISWAP_V3_SURFACE slot0 liquidity state timestamp
  let feeGrowth0 ← required state address UNISWAP_V3_SURFACE.feeGrowth0Slot
  let feeGrowth1 ← required state address UNISWAP_V3_SURFACE.feeGrowth1Slot
  return ⟨slot0, liquidity, maxLiquidityPerTick, oracle, feeGrowth0, feeGrowth1⟩

/-- The range of the event: ordered, in bounds and on the spacing. -/
def checkLiquidityInputs (event : DecodedLiquidity) (context : AdapterEventContext) : Result Nat := do
  let timestamp ← validateContext context
  ensure (layout = V3StorageLayout.uniswap layout.tickSpacing)
    (contradiction "exact Uniswap V3 transition requires the canonical storage layout")
  ensure (0 < layout.tickSpacing) (contradiction "Uniswap V3 tick spacing must be positive")
  ensure (MIN_TICK ≤ event.tickLower ∧ event.tickUpper ≤ MAX_TICK ∧ event.tickLower < event.tickUpper ∧
      event.tickLower % layout.tickSpacing = 0 ∧ event.tickUpper % layout.tickSpacing = 0)
    (contradiction "Uniswap V3 liquidity range is invalid or not spacing-aligned")
  return timestamp

/-- The transition of a nonzero amount. -/
def liquidityTransition (event : DecodedLiquidity) (parent : LiquidityParent) (timestamp : Nat) :
    Result CanonicalLiquidityTransition := do
  let lowerPosition := boundaryPosition keccak address layout state event.tickLower false
  let upperPosition := boundaryPosition keccak address layout state event.tickUpper true
  let lower ← resolveBoundary keccak address layout state event parent timestamp lowerPosition
  let upper ← resolveBoundary keccak address layout state event parent timestamp upperPosition
  let boundaries := [(lower, lowerPosition), (upper, upperPosition)]
  let cold := boundaries.flatMap (coldCells keccak layout)
  let bitmaps ← boundaries.foldlM flipBoundary ⟨state.storage address, []⟩
  let active ← activeUpdates address layout event parent
  return {
    updates := boundaries.flatMap (boundaryUpdates address) ++ bitmapUpdates address bitmaps cold
      lowerPosition upperPosition
      ++ active
    coldSlots := (cold.mergeSort fun a b => decide (a.toNat ≤ b.toNat)).dedup }

def deriveUniswapV3Liquidity (event : DecodedLiquidity) (context : AdapterEventContext) :
    Result CanonicalLiquidityTransition := do
  let timestamp ← checkLiquidityInputs layout event context
  if event.amount = 0 then
    ensure (event.isMint = false) (contradiction "Uniswap V3 Mint liquidity must be positive")
    return ⟨[], []⟩
  else
    ensure (event.amount < 2 ^ 127) (arithmetic "liquidity amount exceeds int128")
    let parent ← loadLiquidityParent address layout state timestamp
    liquidityTransition keccak address layout state event parent timestamp

end Derivation

end AmmState.V3
