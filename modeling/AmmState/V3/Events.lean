import AmmState.V3.Accounting
import AmmState.V3.Liquidity

/-! The replay of a canonical pool's events one after the other: each batch is written, then the cells that it leaves
    unknown are forgotten (`uniswap_v3.rs`). -/

namespace AmmState.V3
open Checked

inductive PoolEvent
  | swap (event : DecodedSwap)
  | liquidity (event : DecodedLiquidity)
  | flash (event : DecodedFlash)
  | setFeeProtocol (event : DecodedFeeProtocol)
  | collectProtocol (event : DecodedCollectProtocol)
  | observationGrowth (event : DecodedObservationGrowth)

section
variable (keccak : Keccak) (address : Address) (layout : V3StorageLayout) (fee : Nat)

/-- The batch of an event that leaves no cell unknown. -/
def exactly (updates : Result (List StateUpdate)) : Result CanonicalLiquidityTransition := do
  let updates ← updates
  return ⟨updates, []⟩

def replay (event : PoolEvent) (state : StateView) (context : AdapterEventContext) : Result CanonicalLiquidityTransition :=
  match event with
  | .swap event => exactly (deriveUniswapV3Swap keccak address layout fee event state context)
  | .liquidity event => deriveUniswapV3Liquidity keccak address layout state event context
  | .flash event => exactly (deriveUniswapV3Flash address layout state fee event context)
  | .setFeeProtocol event => exactly (deriveUniswapV3SetFeeProtocol address layout state event context)
  | .collectProtocol event => exactly (deriveUniswapV3CollectProtocol address layout state event context)
  | .observationGrowth event => exactly (deriveUniswapV3ObservationGrowth address layout state event context)

/-- The view after an event: its batch written, its cold cells forgotten. -/
def replayStep (state : StateView) (event : PoolEvent × AdapterEventContext) : Result StateView := do
  let transition ← replay keccak address layout fee event.1 state event.2
  return (state.applyUpdates transition.updates).purge address transition.coldSlots

def replayRun (state : StateView) (events : List (PoolEvent × AdapterEventContext)) : Result StateView :=
  events.foldlM (replayStep keccak address layout fee) state

end

end AmmState.V3
