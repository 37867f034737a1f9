import AmmState.Planning.Plan
import AmmState.Routing

/-! The planners of the two pair venues: one round that verifies the reserves, and the tokens under the eager policies
    (`uniswap_v2.rs`, `solidly_v2.rs`). -/

namespace AmmState.Planning
open Repairs (StorageSlot ColdStartPolicy)

/-- An address in the low bytes of a word. -/
def decodeAddressSlot (word : U256) : Address := word.setWidth 160

/-- How a mandatory reserve slot came back. -/
inductive ReserveVerdict
  | ready
  | degenerateZero
  | fetchFailed
  deriving DecidableEq

/-- The outcome reported for a slot. -/
def ColdStartResults.fetchOf (results : ColdStartResults) (address : Address) (slot : U256) : Option SlotFetch :=
  (results.fetched.find? fun outcome => outcome.address = address && outcome.slot = slot).map SlotOutcome.fetch

def classifySlot (results : ColdStartResults) (address : Address) (slot : U256) : ReserveVerdict :=
  match results.fetchOf address slot with
  | some (.value _) => .ready
  | some .zero => .degenerateZero
  | some (.fetchFailed _) | some .notAttempted | none => .fetchFailed

/-! ### Uniswap V2 -/

def V2_TOKEN0_SLOT : U256 := 6
def V2_TOKEN1_SLOT : U256 := 7
def V2_RESERVES_SLOT : U256 := 8

/-- The fee that the configuration supplied. -/
def existingFeeBps : ProtocolMetadata → Option Nat
  | .uniswapV2 existing => existing.feeBps
  | _ => none

structure UniswapV2ColdStartPlanner where
  address : Address
  policy : ColdStartPolicy
  verifiedSlots : List StorageSlot
  changedSlots : List SlotChange
  decodedToken0 : Option Address
  decodedToken1 : Option Address
  verdict : Option ReserveVerdict

namespace UniswapV2ColdStartPlanner

def new (address : Address) (policy : ColdStartPolicy) : UniswapV2ColdStartPlanner :=
  ⟨address, policy, [], [], none, none, none⟩

def build (pool : PoolRegistration) (policy : ColdStartPolicy) : Except UnsupportedReason UniswapV2ColdStartPlanner :=
  match pool.key.address with
  | none => .error (.custom "Uniswap V2 pool key is not address-keyed")
  | some address => .ok (new address policy)

def initialPlan (planner : UniswapV2ColdStartPlanner) : UniswapV2ColdStartPlanner × ColdStartPlan :=
  let verify := match planner.policy with
    | .strict | .eager =>
      [(planner.address, V2_TOKEN0_SLOT), (planner.address, V2_TOKEN1_SLOT), (planner.address, V2_RESERVES_SLOT)]
    | .lazy | .hotSlotsOnly => [(planner.address, V2_RESERVES_SLOT)]
  ({ planner with verifiedSlots := verify }, verifyPlan verify)

def onResults (planner : UniswapV2ColdStartPlanner) (results : ColdStartResults) (state : V3.StateView) :
    UniswapV2ColdStartPlanner × ColdStartStep :=
  ({ planner with
      changedSlots := planner.changedSlots ++ results.verified
      verdict := some (classifySlot results planner.address V2_RESERVES_SLOT)
      decodedToken0 := (state.storage planner.address V2_TOKEN0_SLOT).map decodeAddressSlot
      decodedToken1 := (state.storage planner.address V2_TOKEN1_SLOT).map decodeAddressSlot }, .done)

def finish (planner : UniswapV2ColdStartPlanner) (pool : PoolRegistration) : PoolRegistration × ColdStartOutcome :=
  let report := { ColdStartReport.new pool.key planner.policy with
    verifiedSlots := planner.verifiedSlots
    changedSlots := planner.changedSlots }
  match planner.verdict with
  | some .degenerateZero =>
    (pool, .needsRepair { report with status := .degraded } (.purgeSlots planner.address [V2_RESERVES_SLOT]))
  | some .fetchFailed | none =>
    (pool, .needsRepair { report with status := .degraded } (.verifySlots [(planner.address, V2_RESERVES_SLOT)]))
  | some .ready =>
    let pool := { pool with
      metadata := .uniswapV2 ⟨planner.decodedToken0, planner.decodedToken1, existingFeeBps pool.metadata⟩
      status := .ready }
    let report := { report with status := .ready }
    if planner.policy = .lazy then
      let deferred := [.verifySlots [(planner.address, V2_TOKEN0_SLOT), (planner.address, V2_TOKEN1_SLOT)]]
      (pool, .readyWithDeferred { report with deferred } deferred)
    else (pool, .ready report)

end UniswapV2ColdStartPlanner

def uniswapV2Planner : AdapterColdStartPlanner where
  State := UniswapV2ColdStartPlanner
  coldStartPlanner := UniswapV2ColdStartPlanner.build
  initialPlan planner _ := planner.initialPlan
  onResults := UniswapV2ColdStartPlanner.onResults
  finish planner pool _ := planner.finish pool

/-! ### Solidly V2 -/

structure SolidlyV2ColdStartPlanner where
  address : Address
  layout : SolidlyStorageLayout
  policy : ColdStartPolicy
  verifiedSlots : List StorageSlot
  changedSlots : List SlotChange
  decodedToken0 : Option Address
  decodedToken1 : Option Address
  verdict : Option ReserveVerdict

def solidlyLayout (pool : PoolRegistration) : Option SolidlyStorageLayout :=
  match pool.metadata with
  | .solidlyV2 metadata => metadata.storageLayout
  | _ => none

namespace SolidlyV2ColdStartPlanner

def new (address : Address) (layout : SolidlyStorageLayout) (policy : ColdStartPolicy) : SolidlyV2ColdStartPlanner :=
  ⟨address, layout, policy, [], [], none, none, none⟩

def build (pool : PoolRegistration) (policy : ColdStartPolicy) : Except UnsupportedReason SolidlyV2ColdStartPlanner :=
  match pool.key.address with
  | none => .error (.custom "Solidly V2 pool key is not address-keyed")
  | some address =>
    match solidlyLayout pool with
    | none => .error (.missingMetadata "Solidly V2 storage layout")
    | some layout =>
      if [layout.reserve0Slot, layout.reserve1Slot, layout.token0Slot, layout.token1Slot].Nodup then
        .ok (new address layout policy)
      else .error (.custom "Solidly V2 storage layout slots must be pairwise distinct")

def initialPlan (planner : SolidlyV2ColdStartPlanner) : SolidlyV2ColdStartPlanner × ColdStartPlan :=
  let reserves := [(planner.address, planner.layout.reserve0Slot), (planner.address, planner.layout.reserve1Slot)]
  let verify := match planner.policy with
    | .strict | .eager =>
      reserves ++ [(planner.address, planner.layout.token0Slot), (planner.address, planner.layout.token1Slot)]
    | .lazy | .hotSlotsOnly => reserves
  ({ planner with verifiedSlots := verify }, verifyPlan verify)

/-- A failed fetch goes before a zero. -/
def combineVerdicts : ReserveVerdict → ReserveVerdict → ReserveVerdict
  | .fetchFailed, _ | _, .fetchFailed => .fetchFailed
  | .degenerateZero, _ | _, .degenerateZero => .degenerateZero
  | .ready, .ready => .ready

def onResults (planner : SolidlyV2ColdStartPlanner) (results : ColdStartResults) (state : V3.StateView) :
    SolidlyV2ColdStartPlanner × ColdStartStep :=
  ({ planner with
      changedSlots := planner.changedSlots ++ results.verified
      verdict := some (combineVerdicts (classifySlot results planner.address planner.layout.reserve0Slot)
        (classifySlot results planner.address planner.layout.reserve1Slot))
      decodedToken0 := (state.storage planner.address planner.layout.token0Slot).map decodeAddressSlot
      decodedToken1 := (state.storage planner.address planner.layout.token1Slot).map decodeAddressSlot }, .done)

def finish (planner : SolidlyV2ColdStartPlanner) (pool : PoolRegistration) : PoolRegistration × ColdStartOutcome :=
  let report := { ColdStartReport.new pool.key planner.policy with
    verifiedSlots := planner.verifiedSlots
    changedSlots := planner.changedSlots }
  match planner.verdict with
  | some .degenerateZero =>
    (pool, .needsRepair { report with status := .degraded }
      (.purgeSlots planner.address [planner.layout.reserve0Slot, planner.layout.reserve1Slot]))
  | some .fetchFailed | none =>
    (pool, .needsRepair { report with status := .degraded }
      (.verifySlots [(planner.address, planner.layout.reserve0Slot), (planner.address, planner.layout.reserve1Slot)]))
  | some .ready =>
    let metadata := match pool.metadata with
      | .solidlyV2 existing => ⟨planner.decodedToken0, planner.decodedToken1, existing.stable, existing.storageLayout⟩
      | _ => ⟨planner.decodedToken0, planner.decodedToken1, none, some planner.layout⟩
    let pool := { pool with
      metadata := .solidlyV2 metadata
      status := .ready }
    let report := { report with status := .ready }
    if planner.policy = .lazy then
      let deferred := [.verifySlots [(planner.address, planner.layout.token0Slot),
        (planner.address, planner.layout.token1Slot)]]
      (pool, .readyWithDeferred { report with deferred } deferred)
    else (pool, .ready report)

end SolidlyV2ColdStartPlanner

def solidlyV2Planner : AdapterColdStartPlanner where
  State := SolidlyV2ColdStartPlanner
  coldStartPlanner := SolidlyV2ColdStartPlanner.build
  initialPlan planner _ := planner.initialPlan
  onResults := SolidlyV2ColdStartPlanner.onResults
  finish planner pool _ := planner.finish pool

end AmmState.Planning
