import AmmState.Lib.Evm
import AmmState.Lib.SortDedup
import AmmState.Reactive
import Mathlib.Data.Prod.Lex

/-! What discovery derives from a factory's configuration (`factory.rs`, `derive`): the order of a token pair, the slots of
    Solidity mappings, and the CREATE2 addresses of pools. The hash is an argument. -/

namespace AmmState.Discovery
open Evm (wordBytes)

abbrev U32 := BitVec 32

/-! ### Pairs -/

/-- A pair of tokens in canonical order. -/
abbrev Pair := Address × Address

def sortTokens (a b : Address) : Pair := if a.toNat ≤ b.toNat then (a, b) else (b, a)

/-! ### Words -/

/-- A word that is an address. -/
def addressFromWord (word : U256) : Option Address := if word.toNat < 2 ^ 160 then some (word.setWidth 160) else none

def u32FromWord (word : U256) : U32 := word.setWidth 32

def i24FromWord (word : U256) : U32 := (word.setWidth 24).signExtend 32

def addressWord (address : Address) : U256 := address.setWidth 256

def i24ToWord (value : U32) : U256 := value.signExtend 256

def u32ToWord (value : U32) : U256 := value.setWidth 256

def boolToWord (value : Bool) : U256 := if value then 1 else 0

def addressBytes (address : Address) : Bytes := ByteWords.toBeBytes 20 address.toNat

section
variable (keccak256 : Bytes → B256)

/-! ### Slots -/

def mappingSlotU256 (baseSlot key : U256) : U256 := keccak256 (wordBytes key ++ wordBytes baseSlot)

def mappingSlotAddress (baseSlot : U256) (key : Address) : U256 := mappingSlotU256 keccak256 baseSlot (addressWord key)

/-- The slot of the entry of a pair in a mapping of two addresses. -/
def nestedAddressMappingSlot (baseSlot : U256) (outer inner : Address) : U256 :=
  mappingSlotAddress keccak256 (mappingSlotAddress keccak256 baseSlot outer) inner

def v2GetPairSlot (baseSlot : U256) (token0 token1 : Address) : U256 :=
  nestedAddressMappingSlot keccak256 baseSlot token0 token1

def v3GetPoolSlot (baseSlot : U256) (token0 token1 : Address) (fee : U32) : U256 :=
  let first := mappingSlotAddress keccak256 baseSlot token0
  let second := mappingSlotAddress keccak256 first token1
  mappingSlotU256 keccak256 second (u32ToWord fee)

def v3GetPoolSlotBySpacing (baseSlot : U256) (token0 token1 : Address) (spacing : U32) : U256 :=
  let first := mappingSlotAddress keccak256 baseSlot token0
  let second := mappingSlotAddress keccak256 first token1
  mappingSlotU256 keccak256 second (i24ToWord spacing)

def v3FeeAmountTickSpacingSlot (baseSlot : U256) (fee : U32) : U256 := mappingSlotU256 keccak256 baseSlot (u32ToWord fee)

def v3TickSpacingFeeSlot (baseSlot : U256) (spacing : U32) : U256 := mappingSlotU256 keccak256 baseSlot (i24ToWord spacing)

def solidlyGetPoolSlot (baseSlot : U256) (token0 token1 : Address) (stable : Bool) : U256 :=
  let first := mappingSlotAddress keccak256 baseSlot token0
  let second := mappingSlotAddress keccak256 first token1
  mappingSlotU256 keccak256 second (boolToWord stable)

/-! ### Addresses -/

def create2Address (deployer : Address) (salt initCodeHash : B256) : Address :=
  (keccak256 ([0xff] ++ addressBytes deployer ++ wordBytes salt ++ wordBytes initCodeHash)).setWidth 160

def v2PairAddress (factory : Address) (initCodeHash : B256) (token0 token1 : Address) : Address :=
  create2Address keccak256 factory (keccak256 (addressBytes token0 ++ addressBytes token1)) initCodeHash

def v3PoolAddress (deployer : Address) (initCodeHash : B256) (token0 token1 : Address) (fee : U32) : Address :=
  create2Address keccak256 deployer
    (keccak256 (wordBytes (addressWord token0) ++ wordBytes (addressWord token1) ++ wordBytes (u32ToWord fee))) initCodeHash

def v3PoolAddressBySpacing (deployer : Address) (initCodeHash : B256) (token0 token1 : Address) (spacing : U32) : Address :=
  create2Address keccak256 deployer
    (keccak256 (wordBytes (addressWord token0) ++ wordBytes (addressWord token1) ++ wordBytes (i24ToWord spacing)))
    initCodeHash

def solidlyPoolAddress (deployer : Address) (initCodeHash : B256) (token0 token1 : Address) (stable : Bool) : Address :=
  create2Address keccak256 deployer
    (keccak256 (addressBytes token0 ++ addressBytes token1 ++ [if stable then 1 else 0])) initCodeHash

end
end AmmState.Discovery
