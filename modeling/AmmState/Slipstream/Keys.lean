import AmmState.Canonical.WellFormed

/-! Derived storage keys of a Slipstream pool, whose `Tick.Info` has six words. -/

namespace AmmState.Slipstream
open V3 Canonical

variable (keccak : Keccak)

def tickSlot (tick : Int) (i : Nat) : U256 := v3TickInfoStorageKeyWithBase keccak tick SLIPSTREAM_TICKS_BASE_SLOT i

def bitmapSlot (word : BitVec 16) : U256 := v3TickBitmapStorageKeyWithBase keccak word SLIPSTREAM_TICK_BITMAP_BASE_SLOT

/-- No two derived keys meet, and none meets a fixed cell or an observation. -/
structure DistinctKeys : Prop where
  tick_inj : ∀ {s t : Int} {i j : Nat}, InRange s → InRange t → i < 6 → j < 6 →
    tickSlot keccak s i = tickSlot keccak t j → s = t ∧ i = j
  bitmap_inj : ∀ {v w : BitVec 16}, bitmapSlot keccak v = bitmapSlot keccak w → v = w
  tick_ne_bitmap : ∀ {t : Int} {i : Nat} {w : BitVec 16}, InRange t → i < 6 →
    tickSlot keccak t i ≠ bitmapSlot keccak w
  tick_ne_fixed : ∀ {t : Int} {i n : Nat}, InRange t → i < 6 → n < 2 ^ 17 → tickSlot keccak t i ≠ BitVec.ofNat 256 n
  bitmap_ne_fixed : ∀ {w : BitVec 16} {n : Nat}, n < 2 ^ 17 → bitmapSlot keccak w ≠ BitVec.ofNat 256 n

end AmmState.Slipstream
