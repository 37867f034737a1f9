import AmmState.Lib.Writes
import AmmState.Slipstream.Keys
import AmmState.V3.SlipstreamLiquidity

/-! The reviewed Slipstream pool contract over its storage, as an abstract model to compare the replay with: `Tick.update`,
    `flipTick` and `_modifyPosition`. A revert is `none`; packed fields wrap at their Solidity widths. Position accounting,
    gauge and token transfers are left out. -/

namespace AmmState.Slipstream.Pool
open V3 Canonical

/-! ### Fixed cells -/

def slot0 (F : Storage) : U256 := F 6
def feeGrowthGlobal0 (F : Storage) : U256 := F 7
def feeGrowthGlobal1 (F : Storage) : U256 := F 8
def rewardGrowthGlobal (F : Storage) : U256 := F 9
def tickSpacing (F : Storage) : Int := signedField (F 15) 160 24
def liquidity (F : Storage) : Nat := field (F 16) 0 128
def maxLiquidityPerTick (F : Storage) : Nat := field (F 16) 128 128

def sqrtPriceX96 (F : Storage) : Nat := field (slot0 F) 0 160
def tick (F : Storage) : Int := signedField (slot0 F) 160 24
def observationIndex (F : Storage) : Nat := field (slot0 F) 184 16
def observationCardinality (F : Storage) : Nat := field (slot0 F) 200 16
def observationCardinalityNext (F : Storage) : Nat := field (slot0 F) 216 16

/-! ### Oracle -/

def observationSlot (index : Nat) : U256 := 20 + BitVec.ofNat 256 index

def readObservation (F : Storage) (index : Nat) : OracleEntry where
  blockTimestamp := Packed.get (F (observationSlot index)) 0 32
  tickCumulative := Packed.get (F (observationSlot index)) 32 56
  secondsPerLiquidityCumulativeX128 := Packed.get (F (observationSlot index)) 88 160
  initialized := field (F (observationSlot index)) 248 8 ≠ 0

/-- `observeSingle` with `secondsAgo = 0`. -/
def observeSingle (F : Storage) (time : BitVec 32) (tick : Int) (index liquidity : Nat) : OracleEntry :=
  let last := readObservation F index
  if last.blockTimestamp = time then last else last.transform time tick liquidity

/-- `Oracle.write`: the storage and the index and cardinality to record. -/
def oracleWrite (F : Storage) (time : BitVec 32) (tick : Int) (index liquidity cardinality cardinalityNext : Nat) :
    Option (Storage × Nat × Nat) :=
  let last := readObservation F index
  if last.blockTimestamp = time then some (F, index, cardinality)
  else
    let cardinalityUpdated :=
      if cardinality < cardinalityNext ∧ index = cardinality - 1 then cardinalityNext else cardinality
    if cardinalityUpdated = 0 then none
    else
      let indexUpdated := (index + 1) % 2 ^ 16 % cardinalityUpdated
      some (Function.update F (observationSlot indexUpdated) (last.transform time tick liquidity).word,
        indexUpdated, cardinalityUpdated)

/-! ### Ticks -/

/-- The reviewed runtimes differ: only that of Optimism starts the reward growth of a new tick at the pool's. -/
def startsRewardGrowth : SlipstreamRuntimeFamily → Bool
  | .aerodromeBaseBifi => false
  | .velodromeOptimismBifi => true

section Ticks
variable (keccak : Keccak)

def tickInfo (F : Storage) (tick : Int) : SlipstreamTickWords :=
  let key := tickSlot keccak tick
  ⟨F (key 0), F (key 1), F (key 2), F (key 3), F (key 4), F (key 5)⟩

/-- The writes of a whole `Tick.Info`. -/
def tickCells (tick : Int) (words : SlipstreamTickWords) : List (U256 × U256) :=
  ([0, 1, 2, 3, 4, 5].map (tickSlot keccak tick)).zip words.toList

def setTickInfo (F : Storage) (tick : Int) (words : SlipstreamTickWords) : Storage :=
  Writes.write F (tickCells keccak tick words)

/-- The first writes to a tick; growth so far is assumed to be below it. -/
def initializeTick (family : SlipstreamRuntimeFamily) (info : SlipstreamTickWords) (tick tickCurrent : Int)
    (feeGrowth0 feeGrowth1 rewardGrowth : U256) (now : OracleEntry) (time : BitVec 32) : SlipstreamTickWords :=
  let info := if tick ≤ tickCurrent then
      let word5 := Packed.set info.word5 56 now.secondsPerLiquidityCumulativeX128
      let word5 := Packed.set word5 0 now.tickCumulative
      { info with
        word2 := feeGrowth0
        word3 := feeGrowth1
        word4 := if startsRewardGrowth family then rewardGrowth else info.word4
        word5 := Packed.set word5 216 time }
    else info
  { info with word5 := Packed.set info.word5 248 (1 : BitVec 8) }

/-- `Tick.update`: the storage and whether the tick flipped. The staked net is not its business. -/
def tickUpdate (family : SlipstreamRuntimeFamily) (F : Storage) (tick tickCurrent liquidityDelta : Int)
    (feeGrowth0 feeGrowth1 rewardGrowth : U256) (now : OracleEntry) (time : BitVec 32) (upper : Bool) (maxLiquidity : Nat) :
    Option (Storage × Bool) := do
  let info := tickInfo keccak F tick
  let liquidityGrossBefore := tickGross info.word0
  let liquidityGrossAfter ← addDelta liquidityGrossBefore liquidityDelta
  guard (liquidityGrossAfter ≤ maxLiquidity)
  let flipped := decide (liquidityGrossAfter = 0) != decide (liquidityGrossBefore = 0)
  let info := if liquidityGrossBefore = 0
    then initializeTick family info tick tickCurrent feeGrowth0 feeGrowth1 rewardGrowth now time else info
  let liquidityNet ← toInt128 (tickNet info.word0 + if upper then -liquidityDelta else liquidityDelta)
  let word0 := Packed.set (Packed.set info.word0 0 (BitVec.ofNat 128 liquidityGrossAfter)) 128
    (BitVec.ofInt 128 liquidityNet)
  return (setTickInfo keccak F tick { info with word0 }, flipped)

def tickClear (F : Storage) (tick : Int) : Storage := setTickInfo keccak F tick SlipstreamTickWords.zero

/-- `TickBitmap.flipTick`. -/
def flipTick (F : Storage) (tick tickSpacing : Int) : Option Storage := do
  guard (tick % tickSpacing = 0)
  let compressed := tick / tickSpacing
  let slot := bitmapSlot keccak (BitVec.ofInt 16 (compressed / 256))
  return Function.update F slot (F slot ^^^ (1 : U256) <<< (compressed % 256).toNat)

/-! ### Positions -/

/-- The tick writes of `_updatePosition`. -/
def updatePosition (family : SlipstreamRuntimeFamily) (F : Storage) (time : BitVec 32)
    (tickLower tickUpper liquidityDelta : Int) : Option Storage := do
  if liquidityDelta = 0 then return F
  else
    let start := F
    let now := observeSingle start time (tick start) (observationIndex start) (liquidity start)
    let update (F : Storage) (boundary : Int) (upper : Bool) :=
      tickUpdate keccak family F boundary (tick start) liquidityDelta (feeGrowthGlobal0 start) (feeGrowthGlobal1 start)
        (rewardGrowthGlobal start) now time upper (maxLiquidityPerTick start)
    let (F, flippedLower) ← update F tickLower false
    let (F, flippedUpper) ← update F tickUpper true
    let F ← (if flippedLower then flipTick keccak F tickLower (tickSpacing start) else some F)
    let F ← (if flippedUpper then flipTick keccak F tickUpper (tickSpacing start) else some F)
    if liquidityDelta < 0 then
      let F := if flippedLower then tickClear keccak F tickLower else F
      return if flippedUpper then tickClear keccak F tickUpper else F
    else return F

/-- `_modifyPosition` without the amounts it returns. -/
def modifyPosition (family : SlipstreamRuntimeFamily) (F : Storage) (time : BitVec 32)
    (tickLower tickUpper liquidityDelta : Int) : Option Storage := do
  guard (tickLower < tickUpper ∧ MIN_TICK ≤ tickLower ∧ tickUpper ≤ MAX_TICK)
  let start := F
  let F ← updatePosition keccak family F time tickLower tickUpper liquidityDelta
  if liquidityDelta ≠ 0 ∧ tickLower ≤ tick start ∧ tick start < tickUpper then
    let liquidityBefore := liquidity F
    let (F, index, cardinality) ← oracleWrite F time (tick start) (observationIndex start) liquidityBefore
      (observationCardinality start) (observationCardinalityNext start)
    let word := Packed.set (slot0 F) 184 (BitVec.ofNat 16 index)
    let F := Function.update F 6 (Packed.set word 200 (BitVec.ofNat 16 cardinality))
    let liquidity ← addDelta liquidityBefore liquidityDelta
    return Function.update F 16 (Packed.set (F 16) 0 (BitVec.ofNat 128 liquidity))
  else return F

/-- What `mint` or `burn` of the event's amount does to the pool. -/
def changeLiquidity (family : SlipstreamRuntimeFamily) (F : Storage) (time : BitVec 32) (event : DecodedLiquidity) :
    Option Storage := do
  guard (event.isMint = true → 0 < event.amount)
  guard (event.amount < 2 ^ 127)
  modifyPosition keccak family F time event.tickLower event.tickUpper event.delta

/-- The cells that a change of liquidity may write. -/
def Touches (spacing : Int) (event : DecodedLiquidity) (slot : U256) : Prop :=
  (∃ t ∈ [event.tickLower, event.tickUpper],
    slot = bitmapSlot keccak (v3WordPosition t spacing) ∨ ∃ i < 6, slot = tickSlot keccak t i) ∨
  slot = 6 ∨ slot = 16 ∨ ∃ index < 2 ^ 16, slot = observationSlot index

/-! ### Well-formed pools -/

def grossAt (F : Storage) (tick : Int) : Nat := tickGross (F (tickSlot keccak tick 0))

def netAt (F : Storage) (tick : Int) : Int := tickNet (F (tickSlot keccak tick 0))

/-- The bitmap bit of a compressed tick. -/
def bitSet (F : Storage) (compressed : Int) : Bool :=
  (F (bitmapSlot keccak (BitVec.ofInt 16 (compressed / 256)))).getLsbD (compressed % 256).toNat

/-- Bitmap, gross liquidity and flag say the same of every tick, and an empty tick holds nothing. -/
structure TicksAgree (F : Storage) : Prop where
  bit_iff : ∀ c : Int, -2 ^ 23 ≤ c → c < 2 ^ 23 →
    (bitSet keccak F c = true ↔ InRange (c * tickSpacing F) ∧ grossAt keccak F (c * tickSpacing F) ≠ 0)
  aligned : ∀ t, InRange t → grossAt keccak F t ≠ 0 → t % tickSpacing F = 0
  flag_iff : ∀ t, InRange t → (tickFlag (F (tickSlot keccak t 5)) = 1 ↔ grossAt keccak F t ≠ 0)
  empty : ∀ t, InRange t → grossAt keccak F t = 0 → tickInfo keccak F t = SlipstreamTickWords.zero

end Ticks

/-- The current tick holds the current price; a downward swap may leave it on the upper edge. -/
structure PriceInTick (F : Storage) : Prop where
  tick_ge : MIN_TICK ≤ tick F
  tick_lt : tick F < MAX_TICK
  lower : sqrtRatio (tick F) ≤ sqrtPriceX96 F
  upper : sqrtPriceX96 F ≤ sqrtRatio (tick F + 1)
  price_lt : sqrtPriceX96 F < MAX_SQRT_RATIO

/-- The observation ring is in use at its current index. -/
structure OracleReady (F : Storage) : Prop where
  index_lt : observationIndex F < observationCardinality F
  cardinality_le : observationCardinality F ≤ observationCardinalityNext F
  initialized : (Observation.decode (F (observationSlot (observationIndex F)))).initialized = true

/-- What the replay of a liquidity change takes for granted of a pool between two transactions. -/
structure WellFormed (keccak : Keccak) (F : Storage) : Prop where
  spacing : tickSpacing F = 200
  unlocked : field (slot0 F) 232 8 = 1
  ticks : TicksAgree keccak F
  price : PriceInTick F
  oracle : OracleReady F

end AmmState.Slipstream.Pool
