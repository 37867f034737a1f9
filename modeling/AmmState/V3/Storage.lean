import AmmState.V3.Types

/-! Storage of a V3-style pool (`storage.rs`): its fixed slots and the derived keys of `ticks` and `tickBitmap`. The
    hash is a parameter: `keccak256` of the two words of a mapping key, the only preimage that is hashed here. -/

namespace AmmState.V3

/-- `keccak256` of a 64-byte preimage, by its two words. -/
abbrev Keccak := U256 → U256 → U256

def V3_SLOT0_SLOT : U256 := 0
def V3_LIQUIDITY_SLOT : U256 := 4
def V3_TICKS_BASE_SLOT : U256 := 5
def V3_TICK_BITMAP_BASE_SLOT : U256 := 6

def PANCAKE_V3_LIQUIDITY_SLOT : U256 := 5
def PANCAKE_V3_TICKS_BASE_SLOT : U256 := 6
def PANCAKE_V3_TICK_BITMAP_BASE_SLOT : U256 := 7

def SLIPSTREAM_SLOT0_SLOT : U256 := 6
def SLIPSTREAM_LIQUIDITY_SLOT : U256 := 16
def SLIPSTREAM_TICKS_BASE_SLOT : U256 := 17
def SLIPSTREAM_TICK_BITMAP_BASE_SLOT : U256 := 18

structure V3StorageLayout where
  slot0Slot : U256
  liquiditySlot : U256
  ticksBaseSlot : U256
  tickBitmapBaseSlot : U256
  tickSpacing : Int
  deriving DecidableEq

namespace V3StorageLayout

def uniswap (tickSpacing : Int) : V3StorageLayout :=
  ⟨V3_SLOT0_SLOT, V3_LIQUIDITY_SLOT, V3_TICKS_BASE_SLOT, V3_TICK_BITMAP_BASE_SLOT, tickSpacing⟩

def pancake (tickSpacing : Int) : V3StorageLayout :=
  ⟨V3_SLOT0_SLOT, PANCAKE_V3_LIQUIDITY_SLOT, PANCAKE_V3_TICKS_BASE_SLOT, PANCAKE_V3_TICK_BITMAP_BASE_SLOT, tickSpacing⟩

def slipstream (tickSpacing : Int) : V3StorageLayout :=
  ⟨SLIPSTREAM_SLOT0_SLOT, SLIPSTREAM_LIQUIDITY_SLOT, SLIPSTREAM_TICKS_BASE_SLOT, SLIPSTREAM_TICK_BITMAP_BASE_SLOT,
    tickSpacing⟩

end V3StorageLayout

/-- The `tickBitmap` word of a tick, as an `int16`. -/
def v3WordPosition (tick tickSpacing : Int) : BitVec 16 := BitVec.ofInt 16 (tick / tickSpacing / 256)

section Keys
variable (keccak : Keccak)

def v3TickBitmapStorageKeyWithBase (wordPosition : BitVec 16) (baseSlot : U256) : U256 :=
  keccak (wordPosition.signExtend 256) baseSlot

/-- The tick is sign-extended from its low 24 bits. -/
def v3TickInfoStorageBase (tick : Int) (ticksSlot : U256) : U256 :=
  keccak ((BitVec.ofInt 24 tick).signExtend 256) ticksSlot

/-- The key of the `i`-th word of a `Tick.Info`. -/
def v3TickInfoStorageKeyWithBase (tick : Int) (ticksSlot : U256) (i : Nat) : U256 :=
  v3TickInfoStorageBase keccak tick ticksSlot + BitVec.ofNat 256 i

def v3TickInfoStorageKeysWithBase (tick : Int) (ticksSlot : U256) : List U256 :=
  [0, 1, 2, 3].map (v3TickInfoStorageKeyWithBase keccak tick ticksSlot)

def slipstreamTickInfoStorageKeysWithBase (tick : Int) (ticksSlot : U256) : List U256 :=
  [0, 1, 2, 3, 4, 5].map (v3TickInfoStorageKeyWithBase keccak tick ticksSlot)

end Keys

end AmmState.V3
