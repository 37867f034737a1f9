import AmmState.V3.Liquidity

/-! The canonical Uniswap V3 pool contract over its storage, as an abstract model to compare the replay with: the
    oracle, `Tick`, `TickBitmap`, `LiquidityMath` and `_modifyPosition`. A revert is `none`; packed fields wrap at their
    Solidity widths. Position accounting and token transfers are left out. -/

namespace AmmState.Canonical
open V3

abbrev Storage := U256 → U256

/-- The constructor parameters that transitions depend on. -/
structure Immutables where
  fee : Nat
  tickSpacing : Int

/-- `Tick.tickSpacingToMaxLiquidityPerTick`. -/
def Immutables.maxLiquidityPerTick (pool : Immutables) : Nat :=
  let minTick := MIN_TICK.tdiv pool.tickSpacing * pool.tickSpacing
  let maxTick := MAX_TICK.tdiv pool.tickSpacing * pool.tickSpacing
  let numTicks := (maxTick - minTick).tdiv pool.tickSpacing + 1
  (2 ^ 128 - 1) / numTicks.toNat

/-- `LiquidityMath.addDelta`. -/
def addDelta (x : Nat) (y : Int) : Option Nat :=
  if y < 0 then
    if y.natAbs ≤ x then some (x - y.natAbs) else none
  else if x + y.natAbs < 2 ^ 128 then some (x + y.natAbs) else none

def toInt128 (x : Int) : Option Int := if -2 ^ 127 ≤ x ∧ x < 2 ^ 127 then some x else none

/-! ### Fixed cells -/

namespace Storage

def slot0 (F : Storage) : U256 := F 0
def feeGrowthGlobal0 (F : Storage) : U256 := F 1
def feeGrowthGlobal1 (F : Storage) : U256 := F 2
def protocolFees (F : Storage) : U256 := F 3
def liquidity (F : Storage) : Nat := (Packed.get (F 4) 0 128).toNat

def sqrtPriceX96 (F : Storage) : Nat := field F.slot0 0 160
def tick (F : Storage) : Int := signedField F.slot0 160 24
def observationIndex (F : Storage) : Nat := field F.slot0 184 16
def observationCardinality (F : Storage) : Nat := field F.slot0 200 16
def observationCardinalityNext (F : Storage) : Nat := field F.slot0 216 16
def feeProtocol (F : Storage) : Nat := field F.slot0 232 8
def unlocked (F : Storage) : Bool := field F.slot0 240 8 ≠ 0

end Storage

/-! ### Oracle -/

structure OracleEntry where
  blockTimestamp : BitVec 32
  tickCumulative : BitVec 56
  secondsPerLiquidityCumulativeX128 : BitVec 160
  initialized : Bool

def observationSlot (index : Nat) : U256 := 8 + BitVec.ofNat 256 index

def readObservation (F : Storage) (index : Nat) : OracleEntry where
  blockTimestamp := Packed.get (F (observationSlot index)) 0 32
  tickCumulative := Packed.get (F (observationSlot index)) 32 56
  secondsPerLiquidityCumulativeX128 := Packed.get (F (observationSlot index)) 88 160
  initialized := field (F (observationSlot index)) 248 8 ≠ 0

def OracleEntry.word (o : OracleEntry) : U256 :=
  let w := Packed.set (0 : U256) 0 o.blockTimestamp
  let w := Packed.set w 32 o.tickCumulative
  let w := Packed.set w 88 o.secondsPerLiquidityCumulativeX128
  Packed.set w 248 (BitVec.ofNat 8 o.initialized.toNat)

def OracleEntry.transform (last : OracleEntry) (time : BitVec 32) (tick : Int) (liquidity : Nat) : OracleEntry :=
  let delta := time - last.blockTimestamp
  { blockTimestamp := time
    tickCumulative := last.tickCumulative + BitVec.ofInt 56 tick * delta.setWidth 56
    secondsPerLiquidityCumulativeX128 := last.secondsPerLiquidityCumulativeX128 +
      (delta.setWidth 160 <<< 128) / BitVec.ofNat 160 (if 0 < liquidity then liquidity else 1)
    initialized := true }

/-- `observeSingle` with `secondsAgo = 0`. -/
def observeSingle (F : Storage) (time : BitVec 32) (tick : Int) (index liquidity : Nat) : OracleEntry :=
  let last := readObservation F index
  if last.blockTimestamp = time then last else last.transform time tick liquidity

/-- `Oracle.write`: the storage and the index and cardinality to record. -/
def oracleWrite (F : Storage) (time : BitVec 32) (tick : Int) (index liquidity cardinality cardinalityNext : Nat) :
    Option (Storage × Nat × Nat) :=
  let last := readObservation F index
  if last.blockTimestamp = time then some (F, index, cardinality)
  else
    let cardinalityUpdated :=
      if cardinality < cardinalityNext ∧ index = cardinality - 1 then cardinalityNext else cardinality
    if cardinalityUpdated = 0 then none
    else
      let indexUpdated := (index + 1) % 2 ^ 16 % cardinalityUpdated
      some (Function.update F (observationSlot indexUpdated) (last.transform time tick liquidity).word,
        indexUpdated, cardinalityUpdated)

/-! ### Ticks -/

section Ticks
variable (keccak : Keccak)

def tickSlot (tick : Int) (i : Nat) : U256 := v3TickInfoStorageKeyWithBase keccak tick V3_TICKS_BASE_SLOT i

def bitmapSlot (word : BitVec 16) : U256 := v3TickBitmapStorageKeyWithBase keccak word V3_TICK_BITMAP_BASE_SLOT

def tickInfo (F : Storage) (tick : Int) : TickWords :=
  ⟨F (tickSlot keccak tick 0), F (tickSlot keccak tick 1), F (tickSlot keccak tick 2), F (tickSlot keccak tick 3)⟩

def setTickInfo (F : Storage) (tick : Int) (words : TickWords) : Storage :=
  let F := Function.update F (tickSlot keccak tick 0) words.word0
  let F := Function.update F (tickSlot keccak tick 1) words.word1
  let F := Function.update F (tickSlot keccak tick 2) words.word2
  Function.update F (tickSlot keccak tick 3) words.word3

/-- The first writes to a tick; growth so far is assumed to be below it. -/
def initializeTick (info : TickWords) (tick tickCurrent : Int) (feeGrowth0 feeGrowth1 : U256) (now : OracleEntry)
    (time : BitVec 32) : TickWords :=
  let info := if tick ≤ tickCurrent then
      let word3 := Packed.set info.word3 56 now.secondsPerLiquidityCumulativeX128
      let word3 := Packed.set word3 0 now.tickCumulative
      { info with word1 := feeGrowth0, word2 := feeGrowth1, word3 := Packed.set word3 216 time }
    else info
  { info with word3 := Packed.set info.word3 248 (1 : BitVec 8) }

/-- `Tick.update`: the storage and whether the tick flipped. -/
def tickUpdate (F : Storage) (tick tickCurrent liquidityDelta : Int) (feeGrowth0 feeGrowth1 : U256) (now : OracleEntry)
    (time : BitVec 32) (upper : Bool) (maxLiquidity : Nat) : Option (Storage × Bool) := do
  let info := tickInfo keccak F tick
  let liquidityGrossBefore := tickGross info.word0
  let liquidityGrossAfter ← addDelta liquidityGrossBefore liquidityDelta
  guard (liquidityGrossAfter ≤ maxLiquidity)
  let flipped := decide (liquidityGrossAfter = 0) != decide (liquidityGrossBefore = 0)
  let info := if liquidityGrossBefore = 0
    then initializeTick info tick tickCurrent feeGrowth0 feeGrowth1 now time else info
  let liquidityNet ← toInt128 (tickNet info.word0 + if upper then -liquidityDelta else liquidityDelta)
  let word0 := Packed.set (Packed.set info.word0 0 (BitVec.ofNat 128 liquidityGrossAfter)) 128
    (BitVec.ofInt 128 liquidityNet)
  return (setTickInfo keccak F tick { info with word0 }, flipped)

def tickClear (F : Storage) (tick : Int) : Storage := setTickInfo keccak F tick TickWords.zero

/-- `TickBitmap.flipTick`. -/
def flipTick (F : Storage) (tick tickSpacing : Int) : Option Storage := do
  guard (tick % tickSpacing = 0)
  let compressed := tick / tickSpacing
  let slot := bitmapSlot keccak (BitVec.ofInt 16 (compressed / 256))
  return Function.update F slot (F slot ^^^ (1 : U256) <<< (compressed % 256).toNat)

/-! ### Positions -/

/-- The tick writes of `_updatePosition`. -/
def updatePosition (pool : Immutables) (F : Storage) (time : BitVec 32) (tickLower tickUpper liquidityDelta : Int) :
    Option Storage := do
  if liquidityDelta = 0 then return F
  else
    let feeGrowth0 := F.feeGrowthGlobal0
    let feeGrowth1 := F.feeGrowthGlobal1
    let tick := F.tick
    let now := observeSingle F time tick F.observationIndex F.liquidity
    let (F, flippedLower) ← tickUpdate keccak F tickLower tick liquidityDelta feeGrowth0 feeGrowth1 now time false
      pool.maxLiquidityPerTick
    let (F, flippedUpper) ← tickUpdate keccak F tickUpper tick liquidityDelta feeGrowth0 feeGrowth1 now time true
      pool.maxLiquidityPerTick
    let F ← (if flippedLower then flipTick keccak F tickLower pool.tickSpacing else some F)
    let F ← (if flippedUpper then flipTick keccak F tickUpper pool.tickSpacing else some F)
    if liquidityDelta < 0 then
      let F := if flippedLower then tickClear keccak F tickLower else F
      return if flippedUpper then tickClear keccak F tickUpper else F
    else return F

/-- `_modifyPosition` without the amounts it returns. -/
def modifyPosition (pool : Immutables) (F : Storage) (time : BitVec 32) (tickLower tickUpper liquidityDelta : Int) :
    Option Storage := do
  guard (tickLower < tickUpper ∧ MIN_TICK ≤ tickLower ∧ tickUpper ≤ MAX_TICK)
  let start := F
  let F ← updatePosition keccak pool F time tickLower tickUpper liquidityDelta
  if liquidityDelta ≠ 0 ∧ tickLower ≤ start.tick ∧ start.tick < tickUpper then
    let liquidityBefore := F.liquidity
    let (F, index, cardinality) ← oracleWrite F time start.tick start.observationIndex liquidityBefore
      start.observationCardinality start.observationCardinalityNext
    let slot0 := Packed.set F.slot0 184 (BitVec.ofNat 16 index)
    let F := Function.update F 0 (Packed.set slot0 200 (BitVec.ofNat 16 cardinality))
    let liquidity ← addDelta liquidityBefore liquidityDelta
    return Function.update F 4 (Packed.set (F 4) 0 (BitVec.ofNat 128 liquidity))
  else return F

/-- What `mint` or `burn` of the event's amount does to the pool. -/
def changeLiquidity (pool : Immutables) (F : Storage) (time : BitVec 32) (event : DecodedLiquidity) : Option Storage := do
  guard (event.isMint = true → 0 < event.amount)
  guard (event.amount < 2 ^ 127)
  modifyPosition keccak pool F time event.tickLower event.tickUpper event.delta

end Ticks

end AmmState.Canonical
