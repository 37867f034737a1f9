import AmmState.V3.Swap

/-! Replay of the canonical Uniswap V3 accounting events (`v3_transition.rs`): `Flash`, `SetFeeProtocol`,
    `CollectProtocol` and `IncreaseObservationCardinalityNext`. -/

namespace AmmState.V3
open Checked

structure DecodedFlash where
  amount0 : Nat
  amount1 : Nat
  paid0 : Nat
  paid1 : Nat

/-- Both bytes before and after. -/
structure DecodedFeeProtocol where
  old0 : BitVec 8
  old1 : BitVec 8
  new0 : BitVec 8
  new1 : BitVec 8

structure DecodedCollectProtocol where
  amount0 : Nat
  amount1 : Nat

structure DecodedObservationGrowth where
  old : BitVec 16
  new : BitVec 16

section Accounting
variable (address : Address) (layout : V3StorageLayout) (state : StateView)

def validateCanonicalAccounting (context : AdapterEventContext) : Result Nat := do
  let timestamp ← validateContext context
  ensure (layout = V3StorageLayout.uniswap layout.tickSpacing)
    (contradiction "exact Uniswap V3 transition requires the canonical storage layout")
  ensure (0 < layout.tickSpacing) (contradiction "Uniswap V3 tick spacing must be positive")
  return timestamp

/-- Fee growth and protocol fees of one token after a flash payment; nothing moves for an unpaid one. -/
def flashToken (paid share liquidity lo : Nat) (growth protocolFees : U256) : Result (U256 × U256) := do
  if paid = 0 then return (growth, protocolFees)
  else
    let protocolFee := if share = 0 then 0 else paid / share
    let truncated := BitVec.ofNat 128 protocolFee
    let protocolFees := if truncated = 0 then protocolFees
      else Packed.set protocolFees lo (Packed.get protocolFees lo 128 + truncated)
    let lpShare ← checkedSub paid protocolFee (arithmetic "flash protocol fee exceeds the amount paid")
    let increment ← mulDiv lpShare Q128 liquidity
    return (growth + BitVec.ofNat 256 increment, protocolFees)

def deriveUniswapV3Flash (fee : Nat) (flash : DecodedFlash) (context : AdapterEventContext) :
    Result (List StateUpdate) := do
  let _ ← validateCanonicalAccounting layout context
  ensure (fee < FEE_DENOMINATOR) (contradiction "invalid Uniswap V3 fee")
  let raw ← required state address layout.slot0Slot
  let slot0 := Slot0.decode raw
  let liquidity ← required state address layout.liquiditySlot
  ensure (liquidity ≠ 0) (contradiction "flash requires nonzero active liquidity")
  ensure (liquidity.toNat ≤ WORD_128_MASK) (contradiction "parent V3 liquidity exceeds uint128")
  let feeGrowth0 ← required state address UNISWAP_V3_SURFACE.feeGrowth0Slot
  let feeGrowth1 ← required state address UNISWAP_V3_SURFACE.feeGrowth1Slot
  let protocolFees ← required state address UNISWAP_V3_SURFACE.protocolFeesSlot
  let quotedFee0 ← mulDivRoundUp flash.amount0 fee FEE_DENOMINATOR
  let quotedFee1 ← mulDivRoundUp flash.amount1 fee FEE_DENOMINATOR
  ensure (quotedFee0 ≤ flash.paid0) (finalMismatch "flash paid0" flash.paid0 quotedFee0)
  ensure (quotedFee1 ≤ flash.paid1) (finalMismatch "flash paid1" flash.paid1 quotedFee1)
  let (feeGrowth0, protocolFees) ← flashToken flash.paid0 (slot0.feeProtocol % 16) liquidity.toNat 0 feeGrowth0 protocolFees
  let (feeGrowth1, protocolFees) ←
    flashToken flash.paid1 (slot0.feeProtocol / 16) liquidity.toNat 128 feeGrowth1 protocolFees
  return [⟨address, UNISWAP_V3_SURFACE.feeGrowth0Slot, feeGrowth0⟩,
    ⟨address, UNISWAP_V3_SURFACE.feeGrowth1Slot, feeGrowth1⟩,
    ⟨address, UNISWAP_V3_SURFACE.protocolFeesSlot, protocolFees⟩]

/-- Zero or a denominator from four to ten. -/
def canonicalFeeProtocol (value : BitVec 8) : Prop := value = 0 ∨ 4 ≤ value.toNat ∧ value.toNat ≤ 10

instance (value : BitVec 8) : Decidable (canonicalFeeProtocol value) :=
  inferInstanceAs (Decidable (value = 0 ∨ 4 ≤ value.toNat ∧ value.toNat ≤ 10))

def deriveUniswapV3SetFeeProtocol (event : DecodedFeeProtocol) (context : AdapterEventContext) :
    Result (List StateUpdate) := do
  let _ ← validateCanonicalAccounting layout context
  ensure (canonicalFeeProtocol event.new0 ∧ canonicalFeeProtocol event.new1)
    (contradiction "fee protocol denominator outside the canonical range")
  let raw ← required state address layout.slot0Slot
  let current := Packed.get raw 232 8
  let expected := event.old0 ||| (event.old1 <<< 4)
  ensure (current = expected) (finalMismatch "slot0 feeProtocol" current.toNat expected.toNat)
  return [⟨address, layout.slot0Slot, Packed.set raw 232 (event.new0 ||| (event.new1 <<< 4))⟩]

def deriveUniswapV3CollectProtocol (event : DecodedCollectProtocol) (context : AdapterEventContext) :
    Result (List StateUpdate) := do
  let _ ← validateCanonicalAccounting layout context
  ensure (event.amount0 ≤ WORD_128_MASK ∧ event.amount1 ≤ WORD_128_MASK)
    (.malformedLog "CollectProtocol amount exceeds its ABI width")
  let protocolFees ← required state address UNISWAP_V3_SURFACE.protocolFeesSlot
  let token0 ← checkedSub (field protocolFees 0 128) event.amount0
    (arithmetic "collected protocol fee exceeds the accrued token0 balance")
  let token1 ← checkedSub (field protocolFees 128 128) event.amount1
    (arithmetic "collected protocol fee exceeds the accrued token1 balance")
  return [⟨address, UNISWAP_V3_SURFACE.protocolFeesSlot,
    Packed.set (Packed.set (0 : U256) 0 (BitVec.ofNat 128 token0)) 128 (BitVec.ofNat 128 token1)⟩]

/-- The words that `Oracle.grow` stamps. -/
def growthWrites (old new : Nat) : List StateUpdate :=
  (List.range (new - old)).map fun i =>
    ⟨address, UNISWAP_V3_SURFACE.observationsBaseSlot + BitVec.ofNat 256 (old + i), 1⟩

def deriveUniswapV3ObservationGrowth (event : DecodedObservationGrowth) (context : AdapterEventContext) :
    Result (List StateUpdate) := do
  let _ ← validateCanonicalAccounting layout context
  ensure (event.old.toNat < event.new.toNat)
    (contradiction "observation cardinality growth must increase the reservation")
  let raw ← required state address layout.slot0Slot
  let slot0 := Slot0.decode raw
  ensure (slot0.observationCardinality ≠ 0) (.v3Transition (.observation "observation cardinality is zero"))
  ensure (slot0.observationCardinalityNext = event.old.toNat)
    (finalMismatch "slot0 observationCardinalityNext" slot0.observationCardinalityNext event.old.toNat)
  return growthWrites address event.old.toNat event.new.toNat ++ [⟨address, layout.slot0Slot, Packed.set raw 216 event.new⟩]

inductive AccountingEvent
  | flash (event : DecodedFlash)
  | setFeeProtocol (event : DecodedFeeProtocol)
  | collectProtocol (event : DecodedCollectProtocol)
  | increaseObservationCardinalityNext (event : DecodedObservationGrowth)

/-- The derivation of an event's kind (`decode_canonical_accounting_event`). -/
def deriveCanonicalAccounting (fee : Nat) (event : AccountingEvent) (context : AdapterEventContext) :
    Result (List StateUpdate) :=
  match event with
  | .flash flash => deriveUniswapV3Flash address layout state fee flash context
  | .setFeeProtocol event => deriveUniswapV3SetFeeProtocol address layout state event context
  | .collectProtocol event => deriveUniswapV3CollectProtocol address layout state event context
  | .increaseObservationCardinalityNext event => deriveUniswapV3ObservationGrowth address layout state event context

end Accounting

end AmmState.V3
