import AmmState.Canonical.Pool
import Mathlib

/-! When the storage of a canonical pool is well formed, and when its derived storage keys do not collide. -/

namespace AmmState.Canonical
open V3

def InRange (tick : Int) : Prop := MIN_TICK ≤ tick ∧ tick ≤ MAX_TICK

section
variable (keccak : Keccak)

/-- No two derived keys meet, and none meets a fixed cell or an observation. -/
structure DistinctKeys : Prop where
  tick_inj : ∀ {s t : Int} {i j : Nat}, InRange s → InRange t → i < 4 → j < 4 →
    tickSlot keccak s i = tickSlot keccak t j → s = t ∧ i = j
  bitmap_inj : ∀ {v w : BitVec 16}, bitmapSlot keccak v = bitmapSlot keccak w → v = w
  tick_ne_bitmap : ∀ {t : Int} {i : Nat} {w : BitVec 16}, InRange t → i < 4 →
    tickSlot keccak t i ≠ bitmapSlot keccak w
  tick_ne_fixed : ∀ {t : Int} {i n : Nat}, InRange t → i < 4 → n < 2 ^ 17 → tickSlot keccak t i ≠ BitVec.ofNat 256 n
  bitmap_ne_fixed : ∀ {w : BitVec 16} {n : Nat}, n < 2 ^ 17 → bitmapSlot keccak w ≠ BitVec.ofNat 256 n

/-- The bitmap bit of a compressed tick. -/
def bitSet (F : Storage) (compressed : Int) : Bool :=
  (F (bitmapSlot keccak (BitVec.ofInt 16 (compressed / 256)))).getLsbD (compressed % 256).toNat

def grossAt (F : Storage) (tick : Int) : Nat := tickGross (F (tickSlot keccak tick 0))

def netAt (F : Storage) (tick : Int) : Int := tickNet (F (tickSlot keccak tick 0))

def flagAt (F : Storage) (tick : Int) : Nat := tickFlag (F (tickSlot keccak tick 3))

/-- Bitmap, gross liquidity and flag say the same of every tick, and an empty tick holds nothing. -/
structure TicksAgree (spacing : Int) (F : Storage) : Prop where
  bit_iff : ∀ c : Int, -2 ^ 23 ≤ c → c < 2 ^ 23 →
    (bitSet keccak F c = true ↔ InRange (c * spacing) ∧ grossAt keccak F (c * spacing) ≠ 0)
  aligned : ∀ t, InRange t → grossAt keccak F t ≠ 0 → t % spacing = 0
  flag_iff : ∀ t, InRange t → (flagAt keccak F t = 1 ↔ grossAt keccak F t ≠ 0)
  empty : ∀ t, InRange t → grossAt keccak F t = 0 → tickInfo keccak F t = TickWords.zero

/-- The liquidity of the ticks balances, and the active liquidity is what they sum to at the current tick. -/
structure LiquiditySums (F : Storage) : Prop where
  net : ∑ t ∈ Finset.Icc MIN_TICK MAX_TICK, netAt keccak F t = 0
  active : ((F 4).toNat : Int) = ∑ t ∈ Finset.Icc MIN_TICK F.tick, netAt keccak F t

end

/-- The current tick holds the current price; a downward swap may leave it on the upper edge. -/
structure PriceInTick (F : Storage) : Prop where
  tick_ge : MIN_TICK ≤ F.tick
  tick_lt : F.tick < MAX_TICK
  lower : sqrtRatio F.tick ≤ F.sqrtPriceX96
  upper : F.sqrtPriceX96 ≤ sqrtRatio (F.tick + 1)

/-- The observation ring is in use at its current index. -/
structure OracleReady (F : Storage) : Prop where
  index_lt : F.observationIndex < F.observationCardinality
  cardinality_le : F.observationCardinality ≤ F.observationCardinalityNext
  initialized : (Observation.decode (F (observationSlot F.observationIndex))).initialized = true

/-- Storage that a canonical pool can have between two transactions. -/
structure WellFormed (keccak : Keccak) (pool : Immutables) (F : Storage) : Prop where
  fee_lt : pool.fee < 1000000
  spacing_pos : 0 < pool.tickSpacing
  spacing_lt : pool.tickSpacing < 16384
  unlocked : field F.slot0 240 8 = 1
  ticks : TicksAgree keccak pool.tickSpacing F
  sums : LiquiditySums keccak F
  price : PriceInTick F
  price_lt : F.sqrtPriceX96 < MAX_SQRT_RATIO
  oracle : OracleReady F
  liquidity_lt : (F 4).toNat < 2 ^ 128
  net_le : ∀ t, InRange t → (netAt keccak F t).natAbs ≤ grossAt keccak F t
  gross_le : ∀ t, InRange t → grossAt keccak F t ≤ pool.maxLiquidityPerTick

end AmmState.Canonical
