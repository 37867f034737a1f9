import AmmState.Canonical.Pool
import AmmState.Canonical.SwapMath
import AmmState.V3.Accounting

/-! The accounting functions of the canonical pool contract: `flash`, `setFeeProtocol`, `collectProtocol` and
    `increaseObservationCardinalityNext`. A revert is `none`. Who calls is left out, and so are the transfers; what `flash`
    reads of its tokens' balances is an argument. -/

namespace AmmState.Canonical
open V3

inductive AccountingCall
  | flash (amount0 amount1 balance0Before balance0After balance1Before balance1After : U256)
  | setFeeProtocol (feeProtocol0 feeProtocol1 : BitVec 8)
  | collectProtocol (amount0Requested amount1Requested : BitVec 128)
  | increaseObservationCardinalityNext (observationCardinalityNext : BitVec 16)

/-! ### Flash -/

/-- What was paid in one token: a share to the protocol, the rest to growth. -/
def flashPay (growthSlot : U256) (lo : Nat) (feeProtocol liquidity paid : Nat) (F : Storage) : Option Storage := do
  if 0 < paid then
    let fees := if feeProtocol = 0 then 0 else paid / feeProtocol
    let F := if 0 < BitVec.ofNat 128 fees
      then Function.update F 3 (Packed.set (F 3) lo (Packed.get (F 3) lo 128 + BitVec.ofNat 128 fees)) else F
    let growth ← mulDiv (paid - fees) Q128 liquidity
    return Function.update F growthSlot (F growthSlot + BitVec.ofNat 256 growth)
  else return F

def flash (pool : Immutables) (F : Storage)
    (amount0 amount1 balance0Before balance0After balance1Before balance1After : U256) :
    Option (Storage × Option AccountingEvent) := do
  let liquidity := F.liquidity
  guard (0 < liquidity)
  let fee0 ← mulDivRoundingUp amount0.toNat pool.fee 1000000
  let fee1 ← mulDivRoundingUp amount1.toNat pool.fee 1000000
  -- a sum that overflows reverts, and exceeds every balance
  guard (balance0Before.toNat + fee0 ≤ balance0After.toNat)
  guard (balance1Before.toNat + fee1 ≤ balance1After.toNat)
  let paid0 := balance0After.toNat - balance0Before.toNat
  let paid1 := balance1After.toNat - balance1Before.toNat
  let feeProtocol := F.feeProtocol
  let F ← flashPay 1 0 (feeProtocol % 16) liquidity paid0 F
  let F ← flashPay 2 128 (feeProtocol / 16) liquidity paid1 F
  return (F, some (.flash ⟨amount0.toNat, amount1.toNat, paid0, paid1⟩))

/-! ### Protocol fees -/

def setFeeProtocol (F : Storage) (feeProtocol0 feeProtocol1 : BitVec 8) : Option (Storage × Option AccountingEvent) := do
  guard ((feeProtocol0 = 0 ∨ 4 ≤ feeProtocol0 ∧ feeProtocol0 ≤ 10) ∧
    (feeProtocol1 = 0 ∨ 4 ≤ feeProtocol1 ∧ feeProtocol1 ≤ 10))
  let feeProtocolOld := Packed.get F.slot0 232 8
  let F := Function.update F 0 (Packed.set F.slot0 232 (feeProtocol0 + feeProtocol1 <<< 4))
  return (F, some (.setFeeProtocol ⟨feeProtocolOld % 16, feeProtocolOld >>> 4, feeProtocol0, feeProtocol1⟩))

/-- What is collected of one token: a balance is never emptied. -/
def collectAmount (stored requested : BitVec 128) : BitVec 128 :=
  let amount := if stored < requested then stored else requested
  if 0 < amount ∧ amount = stored then amount - 1 else amount

def collectProtocol (F : Storage) (amount0Requested amount1Requested : BitVec 128) :
    Option (Storage × Option AccountingEvent) := do
  let token0 := Packed.get F.protocolFees 0 128
  let token1 := Packed.get F.protocolFees 128 128
  let amount0 := collectAmount token0 amount0Requested
  let amount1 := collectAmount token1 amount1Requested
  let F := Function.update F 3 (Packed.set (Packed.set F.protocolFees 0 (token0 - amount0)) 128 (token1 - amount1))
  return (F, some (.collectProtocol ⟨amount0.toNat, amount1.toNat⟩))

/-! ### Observations -/

/-- The loop of `Oracle.grow`: timestamps are set to one, to pay for the storage. -/
def growObservations (current : Nat) : Nat → Storage → Storage
  | 0, F => F
  | count + 1, F =>
    let F := growObservations current count F
    let slot := observationSlot (current + count)
    Function.update F slot (Packed.set (F slot) 0 (1 : BitVec 32))

def increaseObservationCardinalityNext (F : Storage) (observationCardinalityNext : BitVec 16) :
    Option (Storage × Option AccountingEvent) := do
  let old := Packed.get F.slot0 216 16
  guard (0 < old)
  let new := if observationCardinalityNext ≤ old then old else observationCardinalityNext
  let F := growObservations old.toNat (new.toNat - old.toNat) F
  let F := Function.update F 0 (Packed.set F.slot0 216 new)
  return (F, if old ≠ new then some (.increaseObservationCardinalityNext ⟨old, new⟩) else none)

/-! ### Calls -/

/-- A call of a pool that is not locked: the storage after it, and what it emits. -/
def accountingCall (pool : Immutables) (F : Storage) (call : AccountingCall) :
    Option (Storage × Option AccountingEvent) := do
  guard (F.unlocked = true)
  match call with
  | .flash amount0 amount1 balance0Before balance0After balance1Before balance1After =>
    flash pool F amount0 amount1 balance0Before balance0After balance1Before balance1After
  | .setFeeProtocol feeProtocol0 feeProtocol1 => setFeeProtocol F feeProtocol0 feeProtocol1
  | .collectProtocol amount0Requested amount1Requested => collectProtocol F amount0Requested amount1Requested
  | .increaseObservationCardinalityNext next => increaseObservationCardinalityNext F next

/-- The contract emits the event in this state and leaves the other one. -/
def Emits (pool : Immutables) (F : Storage) (event : AccountingEvent) (F' : Storage) : Prop :=
  ∃ call, accountingCall pool F call = some (F', some event)

def CanEmit (pool : Immutables) (F : Storage) (event : AccountingEvent) : Prop := ∃ F', Emits pool F event F'

end AmmState.Canonical
