import AmmState.Lib.Packed
import AmmState.V3.Math
import AmmState.V3.Storage

/-! Packed words of a pool (`v3_transition.rs`): `slot0`, observations and `Tick.Info`. A word is decoded into numbers
    and written back field by field; signed fields wrap at their width. -/

namespace AmmState.V3
open Checked

/-- A field as a signed number (`signed_from_bits`). -/
def signedField (raw : U256) (lo len : Nat) : Int := (Packed.get raw lo len).toInt

/-- A field as a number. -/
def field (raw : U256) (lo len : Nat) : Nat := (Packed.get raw lo len).toNat

structure Slot0 where
  raw : U256
  sqrtPriceX96 : Nat
  tick : Int
  observationIndex : Nat
  observationCardinality : Nat
  observationCardinalityNext : Nat
  feeProtocol : Nat

namespace Slot0

def decode (raw : U256) : Slot0 where
  raw := raw
  sqrtPriceX96 := field raw 0 160
  tick := signedField raw 160 24
  observationIndex := field raw 184 16
  observationCardinality := field raw 200 16
  observationCardinalityNext := field raw 216 16
  feeProtocol := field raw 232 8

/-- The byte at bit 240, one while the pool is unlocked. -/
def unlockedByte (slot0 : Slot0) : Nat := field slot0.raw 240 8

/-- Replace the fields that a swap writes. -/
def encodeFinal (slot0 : Slot0) (sqrtPriceX96 : Nat) (tick : Int) (observationIndex observationCardinality : Nat) : U256 :=
  let raw := Packed.set slot0.raw 0 (BitVec.ofNat 160 sqrtPriceX96)
  let raw := Packed.set raw 160 (BitVec.ofInt 24 tick)
  let raw := Packed.set raw 184 (BitVec.ofNat 16 observationIndex)
  Packed.set raw 200 (BitVec.ofNat 16 observationCardinality)

end Slot0

structure Observation where
  timestamp : Nat
  tickCumulative : Int
  secondsPerLiquidityCumulativeX128 : Nat
  initialized : Bool

/-- A signed value wrapped to `len` bits. -/
def wrapSigned (len : Nat) (value : Int) : Int := (BitVec.ofInt len value).toInt

namespace Observation

def decode (raw : U256) : Observation where
  timestamp := field raw 0 32
  tickCumulative := signedField raw 32 56
  secondsPerLiquidityCumulativeX128 := field raw 88 160
  initialized := field raw 248 1 ≠ 0

def encode (o : Observation) : U256 :=
  let raw := Packed.set (0 : U256) 0 (BitVec.ofNat 32 o.timestamp)
  let raw := Packed.set raw 32 (BitVec.ofInt 56 o.tickCumulative)
  let raw := Packed.set raw 88 (BitVec.ofNat 160 o.secondsPerLiquidityCumulativeX128)
  Packed.set raw 248 (BitVec.ofNat 8 o.initialized.toNat)

/-- The reading at a later time, with the tick and liquidity that held since. -/
def transform (o : Observation) (timestamp : Nat) (tick : Int) (liquidity : Nat) : Observation :=
  let delta : Nat := (timestamp + 2 ^ 32 - o.timestamp) % 2 ^ 32
  let denominator := if liquidity = 0 then 1 else liquidity
  { timestamp
    tickCumulative := wrapSigned 56 (o.tickCumulative + tick * delta)
    secondsPerLiquidityCumulativeX128 :=
      (o.secondsPerLiquidityCumulativeX128 + delta * 2 ^ 128 / denominator) % 2 ^ 160
    initialized := true }

end Observation

/-- Where the swap accounting of a pool family lives. -/
structure SwapStorageSurface where
  feeGrowth0Slot : U256
  feeGrowth1Slot : U256
  protocolFeesSlot : U256
  observationsBaseSlot : U256

def UNISWAP_V3_SURFACE : SwapStorageSurface := ⟨1, 2, 3, 8⟩

/-- What an oracle advance leaves: index, cardinality, the cell written, and the reading of now. -/
structure OracleAdvance where
  observationIndex : Nat
  observationCardinality : Nat
  write : Option (U256 × U256)
  now : Observation

def advanceOracle (address : Address) (surface : SwapStorageSurface) (slot0 : Slot0) (liquidity : Nat)
    (state : StateView) (timestamp : Nat) : Result OracleAdvance := do
  let invalid reason := AdapterEventError.v3Transition (.observation reason)
  ensure (slot0.observationCardinality ≠ 0) (invalid "observation cardinality is zero")
  ensure (slot0.observationIndex < slot0.observationCardinality) (invalid "observation index exceeds cardinality")
  ensure (slot0.observationCardinality ≤ slot0.observationCardinalityNext)
    (invalid "observation cardinalityNext is smaller than cardinality")
  let raw ← required state address (surface.observationsBaseSlot + BitVec.ofNat 256 slot0.observationIndex)
  let current := Observation.decode raw
  ensure (current.initialized = true) (invalid "current observation is not initialized")
  let now := current.transform timestamp slot0.tick liquidity
  if current.timestamp = timestamp then
    return ⟨slot0.observationIndex, slot0.observationCardinality, none, now⟩
  else
    let cardinality :=
      if slot0.observationCardinality < slot0.observationCardinalityNext ∧
          slot0.observationIndex = slot0.observationCardinality - 1
      then slot0.observationCardinalityNext else slot0.observationCardinality
    let nextIndex := (slot0.observationIndex + 1) % cardinality
    let slot := surface.observationsBaseSlot + BitVec.ofNat 256 nextIndex
    return ⟨nextIndex, cardinality, some (slot, now.encode), now⟩

/-- The four words of a `Tick.Info`. -/
structure TickWords where
  word0 : U256
  word1 : U256
  word2 : U256
  word3 : U256
  deriving DecidableEq

namespace TickWords

def zero : TickWords := ⟨0, 0, 0, 0⟩

def toList (w : TickWords) : List U256 := [w.word0, w.word1, w.word2, w.word3]

end TickWords

section Ticks
variable (keccak : Keccak) (address : Address) (layout : V3StorageLayout) (state : StateView)

def loadTickWords (tick : Int) : Result TickWords := do
  let key := v3TickInfoStorageKeyWithBase keccak tick layout.ticksBaseSlot
  let word0 ← required state address (key 0)
  let word1 ← required state address (key 1)
  let word2 ← required state address (key 2)
  let word3 ← required state address (key 3)
  return ⟨word0, word1, word2, word3⟩

end Ticks

/-- One update for each word of a tick. -/
def tickWordUpdates (address : Address) (keys : List U256) (words : TickWords) : List StateUpdate :=
  (keys.zip words.toList).map fun (slot, value) => ⟨address, slot, value⟩

/-- The `liquidityGross` and `liquidityNet` of the first word of a `Tick.Info`. -/
def tickGross (word : U256) : Nat := field word 0 128

def tickNet (word : U256) : Int := signedField word 128 128

/-- The initialized byte of the last word. -/
def tickFlag (word : U256) : Nat := field word 248 8

/-- The last word of a tick that is crossed. -/
def crossTickWord (raw : U256) (tickCumulative : Int) (secondsPerLiquidityCumulativeX128 timestamp : Nat) : U256 :=
  let word := Packed.set raw 0 (BitVec.ofInt 56 (tickCumulative - signedField raw 0 56))
  let word := Packed.set word 56 (BitVec.ofNat 160 (secondsPerLiquidityCumulativeX128 + 2 ^ 160 - field raw 56 160))
  Packed.set word 216 (BitVec.ofNat 32 (timestamp + 2 ^ 32 - field raw 216 32))

/-- Active liquidity after a crossing. -/
def applyLiquidityNet (liquidity : Nat) (liquidityNet : Int) (zeroForOne : Bool) : Result Nat := do
  if zeroForOne then
    ensure (liquidityNet ≠ -2 ^ 127) (arithmetic "liquidity net cannot be negated")
  let signedDelta := if zeroForOne then -liquidityNet else liquidityNet
  let outOfRange := arithmetic "active liquidity overflow/underflow"
  let result ← (if signedDelta < 0 then checkedSub liquidity signedDelta.natAbs outOfRange
    else checkedAdd liquidity signedDelta.natAbs outOfRange)
  ensure (result ≤ WORD_128_MASK) (arithmetic "active liquidity exceeds uint128")
  return result

/-- The price and the tick of a parent agree. -/
def validateParentSlot0 (slot0 : Slot0) : Result Unit := do
  let minSqrt ← sqrtRatioAtTick MIN_TICK
  let maxSqrt ← sqrtRatioAtTick MAX_TICK
  ensure (minSqrt ≤ slot0.sqrtPriceX96 ∧ slot0.sqrtPriceX96 < maxSqrt)
    (contradiction "parent sqrtPriceX96 is outside canonical TickMath bounds")
  let lower ← sqrtRatioAtTick slot0.tick
  let upper ← sqrtRatioAtTick (slot0.tick + 1)
  ensure (lower ≤ slot0.sqrtPriceX96 ∧ slot0.sqrtPriceX96 ≤ upper)
    (contradiction "parent sqrtPriceX96 is inconsistent with parent tick")

/-- The final price and the event tick agree; only a downward swap may stand on the upper edge. -/
def validateFinalTick (sqrtPriceX96 : Nat) (tick : Int) (zeroForOne : Bool) : Result Unit := do
  let minSqrt ← sqrtRatioAtTick MIN_TICK
  let maxSqrt ← sqrtRatioAtTick MAX_TICK
  ensure (minSqrt < sqrtPriceX96 ∧ sqrtPriceX96 < maxSqrt)
    (contradiction "final sqrtPriceX96 is outside canonical swap bounds")
  let lower ← sqrtRatioAtTick tick
  let upper ← (if tick = MAX_TICK then pure none else some <$> sqrtRatioAtTick (tick + 1))
  ensure (lower ≤ sqrtPriceX96 ∧
      ∀ u ∈ upper, sqrtPriceX96 < u ∨ zeroForOne = true ∧ sqrtPriceX96 = u)
    (contradiction "final sqrtPriceX96 is inconsistent with the event tick")

end AmmState.V3
