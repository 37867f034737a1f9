import AmmState.Lib.Evm
import AmmState.Types

/-! One-shot storage loaders (`storage_sync.rs`): a program that returns the words of a slot list, either with the slots in
    its code or with the slots in its calldata, and the decoder of what it returns. -/

namespace AmmState.StorageSync
open Evm (Byte)

abbrev Bytes := List Byte

def SLOAD : Byte := 0x54
def MSTORE : Byte := 0x52
def PUSH1 : Byte := 0x60
def RETURN : Byte := 0xf3

/-- The calldata-driven loader: `counter` goes in steps of a word up to `calldatasize`. -/
def CALLDATA_SLOT_LOADER_CODE : Bytes :=
  [0x60, 0x00, -- PUSH1 0
    0x5b, -- loop: JUMPDEST
    0x80, -- DUP1
    0x36, -- CALLDATASIZE
    0x14, -- EQ
    0x61, 0x00, 0x16, -- PUSH2 done
    0x57, -- JUMPI
    0x80, -- DUP1
    0x35, -- CALLDATALOAD
    0x54, -- SLOAD
    0x81, -- DUP2
    0x52, -- MSTORE
    0x60, 0x20, -- PUSH1 32
    0x01, -- ADD
    0x61, 0x00, 0x02, -- PUSH2 loop
    0x56, -- JUMP
    0x5b, -- done: JUMPDEST
    0x60, 0x00, -- PUSH1 0
    0xf3] -- RETURN

inductive StorageSyncEncoding
  | bakedSlots | calldataSlots
  deriving DecidableEq

/-- The bytes that one allocation may take (`isize::MAX`). -/
def MAX_ALLOCATION : Nat := 2 ^ 63 - 1

/-- A list of slots of one account; it is held in memory. -/
structure StorageSyncSpec where
  target : Address
  slots : List U256
  encoding : StorageSyncEncoding
  fits : 32 * slots.length ≤ MAX_ALLOCATION

structure StorageProgram where
  target : Address
  code : Bytes
  calldata : Bytes

structure StorageSyncSnapshot where
  target : Address
  entries : List (U256 × U256)
  deriving DecidableEq

inductive StorageSyncError
  | malformed (text : String)
  deriving DecidableEq

/-! ### Programs -/

/-- The shortest push of a value; a zero takes one byte. -/
def pushU256 (value : U256) : Bytes :=
  let bytes := Evm.wordBytes value
  let first := (bytes.findIdx? (· ≠ 0)).getD 31
  let width := 32 - first
  (PUSH1 + BitVec.ofNat 8 (width - 1)) :: bytes.drop first

/-- The push of a byte count; `none` where the count does not fit. -/
def pushWords (count : Nat) : Option Bytes :=
  if 32 * count < 2 ^ 64 then some (pushU256 (BitVec.ofNat 256 (32 * count))) else none

def pushOffset (index : Nat) : Option Bytes := pushWords index

def pushLen (len : Nat) : Option Bytes := pushWords len

/-- Load one slot into its place in memory. -/
def loadSlot (slot : U256) (index : Nat) : Option Bytes := do
  return pushU256 slot ++ [SLOAD] ++ (← pushOffset index) ++ [MSTORE]

def buildSlotLoaderProgram (slots : List U256) : Option Bytes := do
  let loads ← slots.zipIdx.mapM fun entry => loadSlot entry.1 entry.2
  return loads.flatten ++ (← pushLen slots.length) ++ pushU256 0 ++ [RETURN]

def buildCalldataSlotLoaderProgram : Bytes := CALLDATA_SLOT_LOADER_CODE

def slotLoaderCalldata (slots : List U256) : Bytes := slots.flatMap Evm.wordBytes

namespace StorageSyncSpec

def program (spec : StorageSyncSpec) : Option StorageProgram :=
  match spec.encoding with
  | .bakedSlots => do return ⟨spec.target, ← buildSlotLoaderProgram spec.slots, []⟩
  | .calldataSlots => some ⟨spec.target, buildCalldataSlotLoaderProgram, slotLoaderCalldata spec.slots⟩

end StorageSyncSpec

/-! ### Decoding -/

def decodeStorageSync (spec : StorageSyncSpec) (output : Bytes) : Except StorageSyncError StorageSyncSnapshot :=
  let expected := spec.slots.length * 32
  if output.length ≠ expected then
    .error (.malformed s!"output has {output.length} bytes, expected {expected}")
  else
    let words := (List.range (output.length / 32)).map fun i => Evm.ofBytes (Evm.window output (32 * i) 32)
    .ok ⟨spec.target, spec.slots.zip words⟩

end AmmState.StorageSync
