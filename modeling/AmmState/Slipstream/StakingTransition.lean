import AmmState.Routing
import AmmState.Slipstream.Staking
import AmmState.V3.Slipstream

/-! Replay of a stake change in the reviewed Slipstream pool (`derive` of `slipstream_staking.rs`): staked
    liquidity of the pool and the staked net of the two boundary ticks, from the evidence of the event. -/

namespace AmmState

/-- A layout of its own, or the preset of the protocol for the spacing. -/
def layoutFromMetadata (metadata : V3Metadata) (preset : Int → V3.V3StorageLayout) : Option V3.V3StorageLayout := do
  let layout ← metadata.storageLayout.or (metadata.tickSpacing.map preset)
  guard (0 < layout.tickSpacing)
  return layout

def layoutFor (pool : PoolRegistration) : Option V3.V3StorageLayout :=
  match pool.metadata with
  | .uniswapV3 metadata => layoutFromMetadata metadata .uniswap
  | .pancakeV3 metadata => layoutFromMetadata metadata .pancake
  | .slipstream metadata => layoutFromMetadata metadata .slipstream
  | _ => none

namespace Slipstream
open V3 Checked

def failure (reason : String) : AdapterEventError := .v3Transition (.slipstreamStakingEvidence reason)

section Derivation
variable (keccak : Keccak)

/-- Staked liquidity after the change, in a word that keeps its upper half. -/
def stakePool (word : U256) (staked active : Nat) (delta : Int) : Result StateUpdate := do
  let exceeds := failure "staking delta exceeds active liquidity"
  let next ← (if 0 < delta then pure (staked + delta.toNat) else checkedSub staked delta.natAbs exceeds)
  ensure (next ≤ WORD_128_MASK ∧ next ≤ active) exceeds
  return ⟨POOL, SLIPSTREAM_STAKED_LAST_SPACING_SLOT, Packed.set word 0 (BitVec.ofNat 128 next)⟩

/-- The staked net of one boundary; a tick that is not initialized has none. -/
def stakeTick (layout : V3StorageLayout) (state : StateView) (tick delta : Int) : Result (List StateUpdate) := do
  let key := v3TickInfoStorageKeyWithBase keccak tick layout.ticksBaseSlot
  let flag := field (← required state POOL (key 5)) 248 8
  ensure (flag ≤ 1) (failure "invalid staking tick initialization flag")
  if flag = 1 then
    let word ← required state POOL (key 1)
    let next := signedField word 0 128 + delta
    ensure (-2 ^ 127 ≤ next ∧ next < 2 ^ 127) (failure "staking tick delta overflows int128")
    let gross ← required state POOL (key 0)
    ensure (next.natAbs ≤ field gross 0 128) (failure "staked tick net exceeds gross liquidity")
    return [⟨POOL, key 1, Packed.set word 0 (BitVec.ofInt 128 next)⟩]
  else return []

/-- The range of a stake: ordered, in bounds and on the spacing. -/
def checkStakeRange (layout : V3StorageLayout) (lower upper : Int) : Result Unit :=
  ensure (MIN_TICK ≤ lower ∧ upper ≤ MAX_TICK ∧ lower < upper ∧ lower % layout.tickSpacing = 0 ∧
    upper % layout.tickSpacing = 0) (failure "invalid staking tick range")

/-- The change of a nonzero delta. The negated delta is an `i128`. -/
def stakeUpdates (layout : V3StorageLayout) (state : StateView) (lower upper delta : Int) : Result (List StateUpdate) := do
  let slot0 ← required state POOL layout.slot0Slot
  let tick := signedField slot0 160 24
  let word ← required state POOL SLIPSTREAM_STAKED_LAST_SPACING_SLOT
  let staked := field word 0 128
  let active := field (← required state POOL layout.liquiditySlot) 0 128
  ensure (staked ≤ active) (failure "parent staked liquidity exceeds active liquidity")
  ensure (field word 160 24 = 200 ∧ field slot0 232 8 = 1 ∧ MIN_TICK ≤ tick ∧ tick ≤ MAX_TICK)
    (failure "invalid parent staking geometry")
  let pool ← (if lower ≤ tick ∧ tick < upper then (fun update => [update]) <$> stakePool word staked active delta
    else pure [])
  let below ← stakeTick keccak layout state lower delta
  let above ← stakeTick keccak layout state upper (wrapSigned 128 (-delta))
  return pool ++ below ++ above

def derive (pool : PoolRegistration) (state : StateView) (context : AdapterEventContext)
    (evidence : SlipstreamStakingEvidence) : Result (List StateUpdate) := do
  ensure (EventKey.context context = some evidence.key) (failure "staking event identity mismatch")
  let layout ← orError (layoutFor pool) (failure "missing staking layout")
  let _ ← validateReviewedSlipstreamEvent POOL layout context
  checkStakeRange layout evidence.lower evidence.upper
  if evidence.delta = 0 then return []
  else stakeUpdates keccak layout state evidence.lower evidence.upper evidence.delta

end Derivation
end Slipstream
end AmmState
