import AmmState.Lib.SortDedup
import AmmState.Planning.PairPlanners
import AmmState.Slipstream.StakingTransition

/-! The planner of the concentrated-liquidity venues (`uniswap_v3.rs`): `slot0` and liquidity, then a window of bitmap words
    around the current tick, then the initialized ticks of the window. The cells that a run proves to be zero are left out:
    they are written beside the outcome. -/

namespace AmmState.Planning
open V3 (Keccak StateView V3StorageLayout v3WordPosition v3TickBitmapStorageKeyWithBase v3TickInfoStorageKeysWithBase
  slipstreamTickInfoStorageKeysWithBase SlipstreamRuntimeFamily field signedField wrapSigned)
open Repairs (StorageSlot ColdStartPolicy DeferredWork)

def V3_TICK_WORD_RADIUS : Int := 2
def V3_MIN_TICK : Int := -887272
def V3_MAX_TICK : Int := 887272

/-- The globals of a reviewed deployment that an event may read or write. -/
def SLIPSTREAM_TRANSITION_GLOBAL_SLOTS : List U256 := [0, 3, 4, 7, 8, 9, 10, 11, 12, 14, 15]

/-! ### Reviewed runtimes -/

/-- The accounts around a reviewed pool whose cells its fee reads. -/
structure ReviewedSlipstreamFeeRuntime where
  pool : Address
  factory : Address
  voter : Address
  gauge : Address
  module : Address

def reviewedSlipstreamFeeRuntime : SlipstreamRuntimeFamily → ReviewedSlipstreamFeeRuntime
  | .aerodromeBaseBifi =>
    ⟨0xb378137c90444bbcecd44a1f766851fbf53d2a9e, 0x5e7bb104d84c7cb9b682aac2f3d509f5f406809a,
      0x16613524e02ad97edfeF371bC883F2F5d6C480A5, 0x6e415053aacdddc8b678a806a5279a8dcdd4f6f1,
      0x0ad08370c76ff426f534bb2affd9b5555338ee68⟩
  | .velodromeOptimismBifi =>
    ⟨0x173cdc71e29d5cffa6d090ad99f555a24b8831f9, 0xcc0bddb707055e04e497ab22a59c2af4391cd12f,
      0x41c914ee0c7e1a5edcd0295623e6dc557b5abf3c, 0x41160e66fcaa10cbb148ace60bc2a22d609ec519,
      0xc565f7ba9c56b157da983c4db30e13f5f06c59d9⟩

def reviewedSlipstreamFeeRuntimeForPool (pool : Address) : Option ReviewedSlipstreamFeeRuntime :=
  ([.aerodromeBaseBifi, .velodromeOptimismBifi].map reviewedSlipstreamFeeRuntime).find? (·.pool = pool)

/-! ### The planner -/

/-- The cells that must be known before the pool can follow its events alone. -/
inductive V3ColdStartExactSurface
  | none | canonicalUniswap | slipstream
  deriving DecidableEq

inductive V3Phase
  | slot0Liquidity | bitmapWord | tickInfo
  deriving DecidableEq

structure UniswapV3ColdStartPlanner where
  address : Address
  layout : V3StorageLayout
  policy : ColdStartPolicy
  radius : Int
  exactSurface : V3ColdStartExactSurface
  externalExactSlots : List StorageSlot
  phase : V3Phase
  /-- The words of the window and the cells of their bitmaps. -/
  window : List (Int × U256)
  verifiedSlots : List StorageSlot
  changedSlots : List SlotChange
  failedExactSlots : List StorageSlot
  deferred : List DeferredWork
  slot0Cold : Bool

def sortDedupSlots (slots : List StorageSlot) : List StorageSlot :=
  SortDedup.sortDedup (fun slot => (⟨slot.1, slot.2⟩ : Cell)) slots

/-- The warmed slots of the pool's own account. -/
def recordV3WarmedSlots (pool : PoolRegistration) (address : Address) (verifiedSlots : List StorageSlot) :
    PoolRegistration :=
  let slots := SortDedup.sortDedup BitVec.toNat ((verifiedSlots.filter (·.1 = address)).map Prod.snd)
  match pool.metadata with
  | .uniswapV3 metadata => { pool with metadata := .uniswapV3 { metadata with warmedSlots := slots } }
  | .pancakeV3 metadata => { pool with metadata := .pancakeV3 { metadata with warmedSlots := slots } }
  | .slipstream metadata => { pool with metadata := .slipstream { metadata with warmedSlots := slots } }
  | _ => pool

def v3WarmWordRadius (pool : PoolRegistration) : Option Int :=
  match pool.metadata with
  | .uniswapV3 metadata | .pancakeV3 metadata | .slipstream metadata => metadata.warmWordRadius
  | _ => none

section
variable (keccak : Keccak)

def solidityAddressMappingKey (key : Address) (mappingSlot : U256) : U256 := keccak (key.setWidth 256) mappingSlot

def reviewedSlipstreamFeeStorageTargets (reviewed : ReviewedSlipstreamFeeRuntime) : List StorageSlot :=
  [(reviewed.factory, 4), (reviewed.voter, solidityAddressMappingKey keccak reviewed.pool 8),
    (reviewed.voter, solidityAddressMappingKey keccak reviewed.gauge 20),
    (reviewed.module, solidityAddressMappingKey keccak reviewed.pool 1)]

def verifiedStorageTargets (pool : PoolRegistration) : List StorageSlot :=
  if pool.protocol ≠ .slipstream then []
  else match pool.key.address with
    | none => []
    | some address =>
      ((reviewedSlipstreamFeeRuntimeForPool address).map (reviewedSlipstreamFeeStorageTargets keccak)).getD []

namespace UniswapV3ColdStartPlanner

def new (address : Address) (layout : V3StorageLayout) (policy : ColdStartPolicy) (radius : Int)
    (exactSurface : V3ColdStartExactSurface) (externalExactSlots : List StorageSlot) : UniswapV3ColdStartPlanner :=
  ⟨address, layout, policy, radius, exactSurface, externalExactSlots, .slot0Liquidity, [], [], [], [], [], false⟩

def build (pool : PoolRegistration) (policy : ColdStartPolicy) : Except UnsupportedReason UniswapV3ColdStartPlanner :=
  match pool.key.address with
  | none => .error (.custom "Uniswap V3 pool key is not address-keyed")
  | some address =>
    match layoutFor pool with
    | none => .error (.missingMetadata "V3 storage layout")
    | some layout =>
      let exactSurface :=
        if pool.protocol = .uniswapV3 ∧ layout = .uniswap layout.tickSpacing then .canonicalUniswap
        else if pool.protocol = .slipstream ∧ layout = .slipstream layout.tickSpacing then .slipstream
        else .none
      .ok (new address layout policy ((v3WarmWordRadius pool).getD V3_TICK_WORD_RADIUS) exactSurface
        (verifiedStorageTargets keccak pool))

variable (planner : UniswapV3ColdStartPlanner)

def isExactSlot (slot : StorageSlot) : Bool :=
  planner.exactSurface ≠ .none && (slot.1 = planner.address || slot ∈ planner.externalExactSlots)

/-- The words within the radius that a valid tick can reach. -/
def resolveWindow (currentWord : Int) : List (Int × U256) :=
  let radius := max planner.radius 0
  let lo := max (currentWord - radius) (v3WordPosition V3_MIN_TICK planner.layout.tickSpacing).toInt
  let hi := min (currentWord + radius) (v3WordPosition V3_MAX_TICK planner.layout.tickSpacing).toInt
  (List.range (hi - lo + 1).toNat).map fun i =>
    (lo + i, v3TickBitmapStorageKeyWithBase keccak (BitVec.ofInt 16 (lo + i)) planner.layout.tickBitmapBaseSlot)

def initialPlan : UniswapV3ColdStartPlanner × ColdStartPlan :=
  let surface := match planner.exactSurface with
    | .canonicalUniswap => [1, 2, 3]
    | .slipstream => SLIPSTREAM_TRANSITION_GLOBAL_SLOTS
    | .none => []
  let verify := [(planner.address, planner.layout.slot0Slot), (planner.address, planner.layout.liquiditySlot)] ++
    surface.map (planner.address, ·) ++ planner.externalExactSlots
  ({ planner with verifiedSlots := planner.verifiedSlots ++ verify }, verifyPlan verify)

def isUnfetched (fetch : SlotFetch) : Bool :=
  match fetch with
  | .fetchFailed _ | .notAttempted => true
  | .value _ | .zero => false

/-- The changes of a round, and the exact cells that it could not fetch. -/
def absorb (results : ColdStartResults) : UniswapV3ColdStartPlanner :=
  let failed := (results.fetched.filter fun outcome =>
    planner.isExactSlot (outcome.address, outcome.slot) && isUnfetched outcome.fetch).map fun outcome =>
      (outcome.address, outcome.slot)
  { planner with
    changedSlots := planner.changedSlots ++ results.verified
    failedExactSlots :=
      if planner.exactSurface = .none then planner.failedExactSlots
      else sortDedupSlots (planner.failedExactSlots ++ failed) }

/-- The observations of the oracle that an event may read. -/
def observationSlots (slot0 : U256) : List U256 :=
  match planner.exactSurface with
  | .canonicalUniswap => [8 + BitVec.ofNat 256 (field slot0 184 16)]
  | .slipstream => (List.range (field slot0 200 16)).map fun i => 20 + BitVec.ofNat 256 i
  | .none => []

def onSlot0 (results : ColdStartResults) : UniswapV3ColdStartPlanner × ColdStartStep :=
  match results.fetchOf planner.address planner.layout.slot0Slot with
  | some (.value slot0) =>
    if planner.failedExactSlots ≠ [] then (planner, .done)
    else
      let tick := signedField slot0 160 24
      let currentWord := (v3WordPosition tick planner.layout.tickSpacing).toInt
      let planner := { planner with window := planner.resolveWindow keccak currentWord }
      let windowKeys : List StorageSlot := planner.window.map fun entry => (planner.address, entry.2)
      match planner.policy with
      | .strict | .eager =>
        let verify := windowKeys ++ (planner.observationSlots slot0).map (planner.address, ·)
        ({ planner with phase := .bitmapWord, verifiedSlots := planner.verifiedSlots ++ verify },
          .continues (verifyPlan verify))
      | .hotSlotsOnly => (planner, .done)
      | .lazy => ({ planner with deferred := planner.deferred ++ [.verifySlots windowKeys] }, .done)
  | _ => ({ planner with slot0Cold := true }, .done)

/-- A bitmap as it was fetched, else as it is held. -/
def bitmapOf (results : ColdStartResults) (state : StateView) (key : U256) : Option U256 :=
  let fetched := match results.fetchOf planner.address key with
    | some (.value value) => some value
    | some .zero => some 0
    | _ => none
  fetched.or (state.storage planner.address key)

/-- The initialized ticks of a word that are valid. -/
def initializedTicks (word : Int) (bitmap : U256) : List Int :=
  (List.range 256).filterMap fun (bit : Nat) =>
    let tick := wrapSigned 32 (wrapSigned 32 (word * 256 + bit) * planner.layout.tickSpacing)
    if bitmap.getLsbD bit ∧ V3_MIN_TICK ≤ tick ∧ tick ≤ V3_MAX_TICK then some tick else none

def tickKeys (tick : Int) : List U256 :=
  if planner.exactSurface = .slipstream then slipstreamTickInfoStorageKeysWithBase keccak tick planner.layout.ticksBaseSlot
  else v3TickInfoStorageKeysWithBase keccak tick planner.layout.ticksBaseSlot

def onBitmaps (results : ColdStartResults) (state : StateView) : UniswapV3ColdStartPlanner × ColdStartStep :=
  if planner.failedExactSlots ≠ [] then (planner, .done)
  else
    let unknown : List StorageSlot := (planner.window.filter fun entry =>
      (planner.bitmapOf results state entry.2).isNone).map fun entry => (planner.address, entry.2)
    let tickSlots : List StorageSlot := planner.window.flatMap fun entry =>
      match planner.bitmapOf results state entry.2 with
      | none => []
      | some bitmap => (planner.initializedTicks entry.1 bitmap).flatMap fun tick =>
          (planner.tickKeys keccak tick).map (planner.address, ·)
    let planner := { planner with failedExactSlots := planner.failedExactSlots ++ unknown }
    if tickSlots = [] then (planner, .done)
    else ({ planner with phase := .tickInfo, verifiedSlots := planner.verifiedSlots ++ tickSlots },
      .continues (verifyPlan tickSlots))

def onResults (results : ColdStartResults) (state : StateView) : UniswapV3ColdStartPlanner × ColdStartStep :=
  let planner := planner.absorb results
  match planner.phase with
  | .slot0Liquidity => planner.onSlot0 keccak results
  | .bitmapWord => planner.onBitmaps keccak results state
  | .tickInfo => (planner, .done)

def finish (pool : PoolRegistration) : PoolRegistration × ColdStartOutcome :=
  let report := { ColdStartReport.new pool.key planner.policy with
    verifiedSlots := planner.verifiedSlots
    changedSlots := planner.changedSlots }
  if planner.slot0Cold then
    ({ pool with status := .degraded },
      .needsRepair { report with status := .degraded } (.verifySlots [(planner.address, planner.layout.slot0Slot)]))
  else if planner.failedExactSlots ≠ [] then
    ({ pool with status := .degraded },
      .needsRepair { report with status := .degraded } (.verifySlots planner.failedExactSlots))
  else
    let pool := { recordV3WarmedSlots pool planner.address planner.verifiedSlots with status := .ready }
    let report := { report with status := .ready }
    if planner.deferred = [] then (pool, .ready report)
    else (pool, .readyWithDeferred { report with deferred := planner.deferred } planner.deferred)

end UniswapV3ColdStartPlanner

def uniswapV3Planner : AdapterColdStartPlanner where
  State := UniswapV3ColdStartPlanner
  coldStartPlanner := UniswapV3ColdStartPlanner.build keccak
  initialPlan planner _ := planner.initialPlan
  onResults planner := planner.onResults keccak
  finish planner pool _ := planner.finish pool

end

end AmmState.Planning
