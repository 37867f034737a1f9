import AmmState.Lib.Checked
import AmmState.Registry

/-! `AmmSyncEngine` (`sync_manager.rs`): the registry, the routing registry, the ownership index, the reactive handlers,
    the generation ledger, the reservations, the lifecycle map and the count of degraded pools, with every operation that
    changes them. An operation returns its result with the engine as it leaves it, also when it fails. The loops over the
    pools of the ownership index go through the registry, which holds the same pools. Of the reactive runtime the state has
    the registered handlers; its caches and journals, the eviction fences and the recorded recovery targets are not part
    of it. -/

namespace AmmState

deriving instance DecidableEq for PoolStateDependencies, PoolOwnership

inductive OwnerRuntimeState
  | active | removing | removed | failed
  deriving DecidableEq

/-- Latest lifecycle state of every accepted generation; removed ones stay as tombstones. -/
structure RuntimeLifecycleMap where
  pools : Map PoolInstanceId PoolRuntimeState
  adapters : Map AdapterInstanceId OwnerRuntimeState

namespace RuntimeLifecycleMap

def setPool (lifecycles : RuntimeLifecycleMap) (pool : PoolInstanceId) (state : PoolRuntimeState) : RuntimeLifecycleMap :=
  { lifecycles with pools := lifecycles.pools.insert pool state }

def setAdapter (lifecycles : RuntimeLifecycleMap) (adapter : AdapterInstanceId) (state : OwnerRuntimeState) :
    RuntimeLifecycleMap :=
  { lifecycles with adapters := lifecycles.adapters.insert adapter state }

/-- Set each pool of an ownership index. -/
def setPoolsOf (lifecycles : RuntimeLifecycleMap) (ownership : AmmOwnershipIndex)
    (state : PoolInstanceId → PoolRuntimeState) : RuntimeLifecycleMap :=
  { lifecycles with pools := fun pool =>
      if ownership.pools.contains pool then some (state pool) else lifecycles.pools.get pool }

/-- Set each adapter of an ownership index. -/
def setAdaptersOf (lifecycles : RuntimeLifecycleMap) (ownership : AmmOwnershipIndex) (state : OwnerRuntimeState) :
    RuntimeLifecycleMap :=
  { lifecycles with adapters := fun adapter =>
      if adapter ∈ ownership.adapters then some state else lifecycles.adapters.get adapter }

end RuntimeLifecycleMap

namespace SyncManager
open Checked SortDedup

inductive AmmSyncError
  | registry (error : RegistryError)
  | ownership (error : AmmOwnershipError)
  | missingAdapter (key : PoolKey)
  | duplicateHandler (handler : HandlerId)
  | missingPoolHandler (handler : HandlerId)
  | unknownPool (key : PoolKey)
  | runtimeSequenceOverflow
  | lifecycleInvariant (reason : String)
  | poolReservationConflict (pool : PoolInstanceId)
  | poolReservationKeyMismatch (pool : PoolInstanceId)
  | poolReservationNotReady (key : PoolKey)
  | stalePoolReservation (pool : PoolInstanceId)
  | stalePoolRefresh (pool : PoolInstanceId)
  | poolRefreshKeyMismatch (pool : PoolInstanceId)
  | poolRefreshNotReady (key : PoolKey)
  | reactive

/-- The handler of one pool generation, with its own copy of the registration. -/
structure AmmPoolReactiveHandler where
  id : HandlerId
  «instance» : PoolInstanceId
  pool : PoolRegistration
  adapter : AmmAdapter
  sources : List EventSource

/-- The last generation given to each key. -/
structure RuntimeGenerationLedger where
  pools : Map PoolKey Nat
  adapters : Map AdapterKey Nat

namespace RuntimeGenerationLedger

def empty : RuntimeGenerationLedger := ⟨.empty, .empty⟩

/-- The generation after the last one; the first is 0, and the counter ends at `u64::MAX`. -/
def next (last : Option Nat) : Except AmmSyncError Nat :=
  match last with
  | none => .ok 0
  | some generation => if generation + 1 < 2 ^ 64 then .ok (generation + 1) else .error .runtimeSequenceOverflow

def nextPool (ledger : RuntimeGenerationLedger) (key : PoolKey) : Except AmmSyncError Nat := next (ledger.pools.get key)

def nextAdapter (ledger : RuntimeGenerationLedger) (key : AdapterKey) : Except AmmSyncError Nat :=
  next (ledger.adapters.get key)

end RuntimeGenerationLedger

structure PreparedPoolAddition where
  registration : PoolRegistration
  «instance» : PoolInstanceId
  ownership : PoolOwnership
  handler : AmmPoolReactiveHandler
  lifecycle : PoolRuntimeState

/-- A prevalidated refresh of one pool generation. Its registrations are of the pool that it is for. -/
structure AmmPreparedPoolRefresh where
  «instance» : PoolInstanceId
  previousRegistration : PoolRegistration
  replacementRegistration : PoolRegistration
  previousOwnership : PoolOwnership
  replacementOwnership : PoolOwnership
  replacementHandler : AmmPoolReactiveHandler
  previous_key : previousRegistration.key = «instance».key
  replacement_key : replacementRegistration.key = «instance».key

structure AmmSyncEngine where
  registry : AdapterRegistry
  ownership : AmmOwnershipIndex
  handlers : Map HandlerId AmmPoolReactiveHandler
  routing : AdapterRegistry
  generations : RuntimeGenerationLedger
  reservations : List PoolInstanceId
  lifecycles : RuntimeLifecycleMap
  degradedPoolCount : Nat

/-- The result of an operation and the engine it leaves. -/
abbrev Outcome (α : Type) := Except AmmSyncError α × AmmSyncEngine

/-- The number of registrations that are degraded. -/
def degradedPools (registry : AdapterRegistry) : Nat := registry.pools.countP (·.status = .degraded)

def poolRuntimeState : PoolStatus → PoolRuntimeState
  | .pending => .discovered
  | .cold => .hydrating
  | .ready => .searchable
  | .degraded => .degraded
  | .disabled | .unsupported => .failed

/-- The count after a pool goes from one status to another. -/
def recount (count : Nat) (previous status : PoolStatus) : Nat :=
  match decide (previous = .degraded), decide (status = .degraded) with
  | false, true => count + 1
  | true, false => count - 1
  | _, _ => count

/-- Take over the index that an ownership operation leaves when it succeeds. -/
def adopt {α : Type} (outcome : AmmOwnershipIndex.Outcome α) : Except AmmSyncError AmmOwnershipIndex :=
  match outcome with
  | (.ok _, ownership) => .ok ownership
  | (.error error, _) => .error (.ownership error)

section
variable (handlerId : PoolInstanceId → HandlerId)

/-- `PoolOwnership::new`. -/
def newPoolOwnership (pool : PoolInstanceId) (adapter : AdapterInstanceId) (dependencies : PoolStateDependencies)
    (eventEmitters : List Address) : Except AmmSyncError PoolOwnership :=
  if pool.key.protocol ∈ adapter.key.protocols then .ok {
    «instance» := pool
    handler := handlerId pool
    adapter
    dependencies
    eventEmitters := sortDedup BitVec.toNat eventEmitters }
  else .error (.ownership (.adapterProtocolMismatch pool adapter))

/-! ### Building an engine from a registry -/

def insertFamily (previous : RuntimeGenerationLedger) (acc : AmmOwnershipIndex × RuntimeGenerationLedger)
    (key : AdapterKey) : Except AmmSyncError (AmmOwnershipIndex × RuntimeGenerationLedger) := do
  let generation ← previous.nextAdapter key
  let ownership ← adopt (acc.1.insertAdapter ⟨key, generation⟩)
  return (ownership, { acc.2 with adapters := acc.2.adapters.insert key generation })

def insertRegistered (registry : AdapterRegistry) (previous : RuntimeGenerationLedger)
    (acc : AmmOwnershipIndex × RuntimeGenerationLedger) (pool : PoolRegistration) :
    Except AmmSyncError (AmmOwnershipIndex × RuntimeGenerationLedger) := do
  let adapter ← orError (registry.adapter pool.protocol) (.missingAdapter pool.key)
  let adapterInstance ← orError (acc.1.activeAdapters.get adapter.key) (.missingAdapter pool.key)
  let generation ← previous.nextPool pool.key
  let sources := registry.eventSourcesFor pool
  let owned ← newPoolOwnership handlerId ⟨pool.key, generation⟩ adapterInstance (adapter.stateDependencies pool)
    (sources.map (·.emitter))
  let ownership ← adopt (acc.1.insertPool owned)
  return (ownership, { acc.2 with pools := acc.2.pools.insert pool.key generation })

/-- The adapter families of a registry, each once. -/
def families (registry : AdapterRegistry) : List AdapterKey := (registry.adapters.map (·.2.key)).dedup

/-- A fresh ownership index for a registry, with the next generation of each of its members. -/
def ownershipForRegistry (registry : AdapterRegistry) (previous : RuntimeGenerationLedger) :
    Except AmmSyncError (AmmOwnershipIndex × RuntimeGenerationLedger) := do
  let acc ← (families registry).foldlM (insertFamily previous) (.empty, previous)
  (sortBy (·.key.rank) registry.pools).foldlM (insertRegistered handlerId registry previous) acc

/-- The active generations of the registered pools. -/
def ownedPools (registry : AdapterRegistry) (ownership : AmmOwnershipIndex) : List PoolInstanceId :=
  registry.pools.filterMap fun pool => ownership.activePools.get pool.key

/-- `ReactiveRuntime::register_handler` of the cache library, which is not part of the repository: it is taken to hold its
    handlers by id, to refuse an id that is taken and to accept any other, as its callers here rely on. -/
def registerHandler (handlers : Map HandlerId AmmPoolReactiveHandler) (handler : AmmPoolReactiveHandler) :
    Except AmmSyncError (Map HandlerId AmmPoolReactiveHandler) :=
  if handlers.contains handler.id then .error (.duplicateHandler handler.id) else .ok (handlers.insert handler.id handler)

/-- `AmmPoolReactiveHandler::with_routing_context`. -/
def handlerFor (routing : AdapterRegistry) (pool : PoolInstanceId) : Except AmmSyncError AmmPoolReactiveHandler := do
  let registration ← orError (routing.pool pool.key) (.unknownPool pool.key)
  let adapter ← orError (routing.adapter registration.protocol) (.missingAdapter pool.key)
  return ⟨handlerId pool, pool, registration, adapter, routing.eventSourcesFor registration⟩

def registerFor (routing : AdapterRegistry) (handlers : Map HandlerId AmmPoolReactiveHandler) (pool : PoolInstanceId) :
    Except AmmSyncError (Map HandlerId AmmPoolReactiveHandler) := do
  let handler ← handlerFor handlerId routing pool
  registerHandler handlers handler

/-- A fresh runtime with one handler for each pool. -/
def runtimeFor (pools : List PoolInstanceId) (routing : AdapterRegistry) :
    Except AmmSyncError (Map HandlerId AmmPoolReactiveHandler) :=
  pools.foldlM (registerFor handlerId routing) .empty

/-- The lifecycle state that a registered pool starts in. -/
def initialState (registry : AdapterRegistry) (pool : PoolInstanceId) : PoolRuntimeState :=
  match registry.pool pool.key with
  | some registration => poolRuntimeState registration.status
  | none => .failed

/-- `lifecycle_map_for`, written over earlier entries. -/
def lifecyclesFor (registry : AdapterRegistry) (ownership : AmmOwnershipIndex) (earlier : RuntimeLifecycleMap) :
    RuntimeLifecycleMap :=
  (earlier.setPoolsOf ownership (initialState registry)).setAdaptersOf ownership .active

/-- `AmmSyncEngine::with_config`. -/
def AmmSyncEngine.withConfig (registry : AdapterRegistry) : Except AmmSyncError AmmSyncEngine := do
  let (ownership, generations) ← ownershipForRegistry handlerId registry .empty
  let handlers ← runtimeFor handlerId (ownedPools registry ownership) registry
  return {
    registry, ownership, handlers, generations
    routing := registry
    reservations := []
    lifecycles := lifecyclesFor registry ownership ⟨.empty, .empty⟩
    degradedPoolCount := degradedPools registry }

namespace AmmSyncEngine

/-- The engine with another registry, its members under their next generations. -/
def replaced (engine : AmmSyncEngine) (registry : AdapterRegistry) : Except AmmSyncError AmmSyncEngine := do
  ensure (engine.reservations = [])
    (.lifecycleInvariant "cannot replace the registry while pool generations are reserved")
  let (ownership, generations) ← ownershipForRegistry handlerId registry engine.generations
  let handlers ← runtimeFor handlerId (ownedPools registry ownership) registry
  let tombstones := (engine.lifecycles.setPoolsOf engine.ownership fun _ => .removed).setAdaptersOf
    engine.ownership .removed
  return {
    registry, ownership, handlers, generations
    routing := registry
    reservations := engine.reservations
    lifecycles := lifecyclesFor registry ownership tombstones
    degradedPoolCount := degradedPools registry }

def replaceRegistry (registry : AdapterRegistry) (engine : AmmSyncEngine) : Outcome Unit :=
  match engine.replaced handlerId registry with
  | .error error => (.error error, engine)
  | .ok engine => (.ok (), engine)

/-! ### Adding pools -/

/-- The outstanding reservation of a key. -/
def reservation (engine : AmmSyncEngine) (key : PoolKey) : Option PoolInstanceId := engine.reservations.find? (·.key = key)

def preparePoolAddition (engine : AmmSyncEngine) (registration : PoolRegistration) (pool : PoolInstanceId) :
    Except AmmSyncError PreparedPoolAddition := do
  ensure (registration.checkProtocolAgreement = true) (.registry (.protocolMismatch registration.key))
  let adapter ← orError (engine.registry.adapter registration.protocol) (.missingAdapter registration.key)
  let adapterInstance ← orError (engine.ownership.activeAdapters.get adapter.key) (.missingAdapter registration.key)
  let sources := engine.registry.eventSourcesFor registration
  let ownership ← newPoolOwnership handlerId pool adapterInstance (adapter.stateDependencies registration)
    (sources.map (·.emitter))
  ensure (engine.handlers.contains ownership.handler = false) (.duplicateHandler ownership.handler)
  return {
    registration, «instance» := pool, ownership
    handler := ⟨handlerId pool, pool, registration, adapter, sources⟩
    lifecycle := poolRuntimeState registration.status }

/-- Prepare one addition of a batch, after one of the given key. -/
def prepareNext (engine : AmmSyncEngine) (previous : Option PoolKey) (registration : PoolRegistration) :
    Except AmmSyncError PreparedPoolAddition := do
  ensure (previous ≠ some registration.key ∧ engine.registry.pool registration.key = none)
    (.registry (.duplicatePool registration.key))
  match engine.reservation registration.key with
  | some pool => .error (.poolReservationConflict pool)
  | none =>
    let generation ← engine.generations.nextPool registration.key
    engine.preparePoolAddition handlerId registration ⟨registration.key, generation⟩

def prepareSorted (engine : AmmSyncEngine) : Option PoolKey → List PoolRegistration →
    Except AmmSyncError (List PreparedPoolAddition)
  | _, [] => .ok []
  | previous, registration :: rest => do
    let prepared ← engine.prepareNext handlerId previous registration
    let prepareds ← engine.prepareSorted (some registration.key) rest
    return prepared :: prepareds

def preparePoolAdditions (engine : AmmSyncEngine) (registrations : List PoolRegistration) :
    Except AmmSyncError (List PreparedPoolAddition) :=
  engine.prepareSorted handlerId none (sortBy (·.key.rank) registrations)

def unregisterHandlers (handlers : List HandlerId) (engine : AmmSyncEngine) : AmmSyncEngine :=
  { engine with handlers := handlers.foldl (fun map handler => map.remove handler) engine.handlers }

/-- Register the handlers of a batch, or none of them. -/
def registerHandlers : List HandlerId → List PreparedPoolAddition → AmmSyncEngine → Outcome Unit
  | _, [], engine => (.ok (), engine)
  | installed, pool :: rest, engine =>
    match registerHandler engine.handlers pool.handler with
    | .error error => (.error error, engine.unregisterHandlers installed)
    | .ok handlers => registerHandlers (pool.ownership.handler :: installed) rest { engine with handlers }

def unregisterAll (key : PoolKey) (engine : AmmSyncEngine) : AmmSyncEngine :=
  { engine with registry := engine.registry.unregisterPool key, routing := engine.routing.unregisterPool key }

/-- Undo the last of the added pools first, then their handlers. -/
def rollbackAddedPools (committed : List PoolInstanceId) (handlers : List HandlerId) (engine : AmmSyncEngine) :
    AmmSyncEngine :=
  let undone := committed.foldr (fun pool engine =>
    { engine.unregisterAll pool.key with ownership := (engine.ownership.removePool pool).2 }) engine
  undone.unregisterHandlers handlers

/-- Enter one pool into the registry, the routing registry and the ownership index, or into none of them. -/
def installPool (pool : PreparedPoolAddition) (engine : AmmSyncEngine) : Outcome Unit :=
  match engine.registry.registerPool pool.registration with
  | .error error => (.error (.registry error), engine)
  | .ok registry =>
    match engine.routing.registerPool pool.registration with
    | .error error =>
      (.error (.registry error), { engine with registry := registry.unregisterPool pool.registration.key })
    | .ok routing =>
      match engine.ownership.insertPool pool.ownership with
      | (.error error, _) =>
        (.error (.ownership error), ({ engine with registry, routing } : AmmSyncEngine).unregisterAll pool.registration.key)
      | (.ok _, ownership) => (.ok (), { engine with registry, routing, ownership })

def installPools (handlers : List HandlerId) : List PoolInstanceId → List PreparedPoolAddition → AmmSyncEngine →
    Outcome (List PoolInstanceId)
  | committed, [], engine => (.ok committed, engine)
  | committed, pool :: rest, engine =>
    match installPool pool engine with
    | (.error error, engine) => (.error error, rollbackAddedPools committed handlers engine)
    | (.ok _, engine) => installPools handlers (committed ++ [pool.instance]) rest engine

/-- Enter the generation and the lifecycle of an added pool. -/
def adoptLifecycle (engine : AmmSyncEngine) (pool : PreparedPoolAddition) : AmmSyncEngine :=
  { engine with
    generations := { engine.generations with
      pools := engine.generations.pools.insert pool.instance.key pool.instance.generation }
    lifecycles := engine.lifecycles.setPool pool.instance pool.lifecycle }

def commitPreparedPoolAdditions (prepared : List PreparedPoolAddition) (engine : AmmSyncEngine) :
    Outcome (List PoolInstanceId) :=
  match registerHandlers [] prepared engine with
  | (.error error, engine) => (.error error, engine)
  | (.ok _, engine) =>
    match installPools (prepared.map (·.ownership.handler)) [] prepared engine with
    | (.error error, engine) => (.error error, engine)
    | (.ok committed, engine) =>
      let engine := prepared.foldl adoptLifecycle engine
      (.ok committed, { engine with
        degradedPoolCount := engine.degradedPoolCount + committed.countP fun pool =>
          (engine.registry.pool pool.key).any (·.status = .degraded) })

def addPools (registrations : List PoolRegistration) (engine : AmmSyncEngine) : Outcome (List PoolInstanceId) :=
  match engine.preparePoolAdditions handlerId registrations with
  | .error error => (.error error, engine)
  | .ok prepared => commitPreparedPoolAdditions prepared engine

/-! ### Reservations -/

/-- The generation that a reservation takes. -/
def nextReservation (engine : AmmSyncEngine) (key : PoolKey) : Except AmmSyncError Nat := do
  ensure (engine.registry.pool key = none) (.registry (.duplicatePool key))
  match engine.reservation key with
  | some pool => .error (.poolReservationConflict pool)
  | none =>
    ensure ((engine.registry.adapter key.protocol).isSome = true) (.missingAdapter key)
    engine.generations.nextPool key

def reservePoolGeneration (key : PoolKey) (engine : AmmSyncEngine) : Outcome PoolInstanceId :=
  match engine.nextReservation key with
  | .error error => (.error error, engine)
  | .ok generation =>
    let pool : PoolInstanceId := ⟨key, generation⟩
    (.ok pool, { engine with
      generations := { engine.generations with pools := engine.generations.pools.insert key generation }
      reservations := pool :: engine.reservations
      lifecycles := engine.lifecycles.setPool pool .queued })

def validatePoolReservation (engine : AmmSyncEngine) (reserved : PoolInstanceId) (registration : PoolRegistration) :
    Except AmmSyncError Unit := do
  ensure (registration.key = reserved.key) (.poolReservationKeyMismatch reserved)
  ensure (registration.status = .ready) (.poolReservationNotReady registration.key)
  ensure (engine.reservation reserved.key = some reserved) (.stalePoolReservation reserved)

def prepareReserved (engine : AmmSyncEngine) (reserved : PoolInstanceId) (registration : PoolRegistration) :
    Except AmmSyncError PreparedPoolAddition := do
  engine.validatePoolReservation reserved registration
  engine.preparePoolAddition handlerId registration reserved

def removeReservation (key : PoolKey) (engine : AmmSyncEngine) : AmmSyncEngine :=
  { engine with reservations := engine.reservations.filter (·.key ≠ key) }

def commitPoolReservation (reserved : PoolInstanceId) (registration : PoolRegistration) (engine : AmmSyncEngine) :
    Outcome (List PoolInstanceId) :=
  match engine.prepareReserved handlerId reserved registration with
  | .error error => (.error error, engine)
  | .ok prepared =>
    match commitPreparedPoolAdditions [prepared] engine with
    | (.error error, engine) => (.error error, engine)
    | (.ok committed, engine) => (.ok committed, engine.removeReservation reserved.key)

def cancelPoolReservation (reserved : PoolInstanceId) (engine : AmmSyncEngine) : Outcome Bool :=
  if engine.reservation reserved.key ≠ some reserved then (.ok false, engine)
  else
    let engine := engine.removeReservation reserved.key
    (.ok true, { engine with lifecycles := engine.lifecycles.setPool reserved .removed })

/-! ### Refreshing a pool -/

/-- The checks of a refresh against the present engine. -/
def checkRefresh (engine : AmmSyncEngine) (pool : PoolInstanceId) (replacement : PoolRegistration) :
    Except AmmSyncError Unit := do
  ensure (engine.ownership.activePools.get pool.key = some pool) (.stalePoolRefresh pool)
  ensure (replacement.key = pool.key) (.poolRefreshKeyMismatch pool)
  ensure (replacement.status = .ready) (.poolRefreshNotReady replacement.key)

/-- The adapter of a refresh, which must be the one of the routing registry and of the previous owner. -/
def refreshAdapter (engine : AmmSyncEngine) (pool : PoolInstanceId) (replacement : PoolRegistration)
    (previousOwnership : PoolOwnership) : Except AmmSyncError AmmAdapter := do
  let adapter ← orError (engine.registry.adapter replacement.protocol) (.missingAdapter replacement.key)
  let routingAdapter ← orError (engine.routing.adapter replacement.protocol)
    (.lifecycleInvariant "refresh adapter was absent from the routing registry")
  ensure ((engine.routing.pool pool.key).isSome = true ∧ adapter.allocation = routingAdapter.allocation)
    (.lifecycleInvariant "refresh registry views diverged before preparation")
  ensure (previousOwnership.adapter.key = adapter.key ∧
      engine.ownership.activeAdapters.get adapter.key = some previousOwnership.adapter)
    (.lifecycleInvariant "refresh adapter family diverged from active ownership")
  return adapter

/-- The token of a refresh, with what it was prepared against. The previous interests are those of the present handler,
    which must be there. -/
def preparePoolRefresh (engine : AmmSyncEngine) (pool : PoolInstanceId) (replacement : PoolRegistration) :
    Except AmmSyncError AmmPreparedPoolRefresh := do
  engine.checkRefresh pool replacement
  match hprevious : engine.registry.pool pool.key with
  | none => .error (.lifecycleInvariant "active refresh pool was absent from the registry")
  | some previousRegistration =>
    let previousOwnership ← orError (engine.ownership.pools.get pool) (.ownership (.unknownPool pool))
    let adapter ← engine.refreshAdapter pool replacement previousOwnership
    let sources := engine.registry.eventSourcesFor replacement
    let replacementOwnership ← newPoolOwnership handlerId pool previousOwnership.adapter
      (adapter.stateDependencies replacement) (sources.map (·.emitter))
    ensure (engine.handlers.contains previousOwnership.handler = true) (.missingPoolHandler previousOwnership.handler)
    if hkey : replacement.key = pool.key then
      return {
        «instance» := pool, previousRegistration, previousOwnership, replacementOwnership
        replacementRegistration := replacement
        replacementHandler := ⟨handlerId pool, pool, replacement, adapter, sources⟩
        previous_key := AdapterRegistry.key_of_pool hprevious
        replacement_key := hkey }
    else .error (.poolRefreshKeyMismatch pool)

/-- Put a handler back; a refusal is reported with the given reason. -/
def restoreHandler (old : AmmPoolReactiveHandler) (reason : String) (error : AmmSyncError) (engine : AmmSyncEngine) :
    Outcome Unit :=
  match registerHandler engine.handlers old with
  | .error _ => (.error (.lifecycleInvariant reason), engine)
  | .ok handlers => (.error error, { engine with handlers })

/-- Undo the registration and the handler of a refresh. -/
def rollbackRefresh (prepared : AmmPreparedPoolRefresh) (old : AmmPoolReactiveHandler) (reason : String)
    (error : AmmSyncError) (engine : AmmSyncEngine) : Outcome Unit :=
  restoreHandler old reason error { engine with
    registry := engine.registry.updatePool prepared.previousRegistration
    handlers := engine.handlers.remove prepared.previousOwnership.handler }

/-- The registration, routing and ownership of a refresh whose handler is in place. -/
def commitRegistration (prepared : AmmPreparedPoolRefresh) (old : AmmPoolReactiveHandler) (engine : AmmSyncEngine) :
    Outcome Unit :=
  let engine := { engine with registry := engine.registry.updatePool prepared.replacementRegistration }
  if (engine.routing.pool prepared.instance.key).isNone then
    rollbackRefresh prepared old "pool refresh routing rollback failed"
      (.lifecycleInvariant "refresh routing registration disappeared during commit") engine
  else
    let engine := { engine with routing := engine.routing.updatePool prepared.replacementRegistration }
    match engine.ownership.replacePool prepared.replacementOwnership with
    | (.error error, _) =>
      rollbackRefresh prepared old "pool refresh ownership rollback failed" (.ownership error)
        { engine with routing := engine.routing.updatePool prepared.previousRegistration }
    | (.ok _, ownership) => (.ok (), { engine with ownership })

/-- The counter and the lifecycle of a refresh. The counter goes by the status that the token was prepared with. -/
def finishRefresh (prepared : AmmPreparedPoolRefresh) (engine : AmmSyncEngine) : AmmSyncEngine :=
  { engine with
    degradedPoolCount := recount engine.degradedPoolCount prepared.previousRegistration.status
      prepared.replacementRegistration.status
    lifecycles :=
      if engine.lifecycles.pools.get prepared.instance = some .live then engine.lifecycles
      else engine.lifecycles.setPool prepared.instance .searchable }

/-- Exchange the handler of a pool. -/
def exchangeHandler (prepared : AmmPreparedPoolRefresh) (old : AmmPoolReactiveHandler) (engine : AmmSyncEngine) :
    Outcome Unit :=
  let engine := { engine with handlers := engine.handlers.remove prepared.previousOwnership.handler }
  match registerHandler engine.handlers prepared.replacementHandler with
  | .error error => restoreHandler old "pool refresh handler rollback failed" error engine
  | .ok handlers => (.ok (), { engine with handlers })

def commitPoolRefresh (prepared : AmmPreparedPoolRefresh) (engine : AmmSyncEngine) : Outcome Unit :=
  let pool := prepared.instance
  if engine.ownership.activePools.get pool.key ≠ some pool ∨
      engine.ownership.pools.get pool ≠ some prepared.previousOwnership then
    (.error (.stalePoolRefresh pool), engine)
  else if engine.registry.pool pool.key = none ∨ engine.routing.pool pool.key = none then
    (.error (.lifecycleInvariant "refresh pool was absent from a registry view"), engine)
  else match engine.handlers.get prepared.previousOwnership.handler with
  | none => (.error (.missingPoolHandler prepared.previousOwnership.handler), engine)
  | some old =>
    match exchangeHandler prepared old engine with
    | (.error error, engine) => (.error error, engine)
    | (.ok _, engine) =>
      match commitRegistration prepared old engine with
      | (.error error, engine) => (.error error, engine)
      | (.ok _, engine) => (.ok (), engine.finishRefresh prepared)

/-! ### Live delivery -/

/-- Whether an acknowledged pool turns live, or is live already. -/
def acknowledge (engine : AmmSyncEngine) (pool : PoolInstanceId) : Except AmmSyncError Bool :=
  if engine.ownership.activePools.get pool.key ≠ some pool then
    .error (.lifecycleInvariant "subscriber acknowledged a stale pool generation")
  else match engine.lifecycles.pools.get pool with
  | some .searchable => .ok true
  | some .live => .ok false
  | some _ => .error (.lifecycleInvariant "subscriber acknowledged a pool that was not searchable")
  | none => .error (.lifecycleInvariant "subscriber acknowledged a pool absent from lifecycle state")

/-- The pools that turn live, if every pool may be acknowledged. -/
def liveTransitions (engine : AmmSyncEngine) : List PoolInstanceId → Except AmmSyncError (List PoolInstanceId)
  | [] => .ok []
  | pool :: rest => do
    let turns ← engine.acknowledge pool
    let transitions ← engine.liveTransitions rest
    return if turns then pool :: transitions else transitions

def acknowledgeLiveDelivery (pools : List PoolInstanceId) (engine : AmmSyncEngine) : Outcome (List PoolInstanceId) :=
  match engine.liveTransitions pools.dedup with
  | .error error => (.error error, engine)
  | .ok transitions => (.ok transitions, { engine with
      lifecycles := transitions.foldl (fun lifecycles pool => lifecycles.setPool pool .live) engine.lifecycles })

/-! ### Removing pools -/

structure PreparedRemoval where
  «instance» : PoolInstanceId
  handler : HandlerId
  lifecycle : PoolRuntimeState
  resyncs : List ResyncId

/-- Prepare the removal of the active generation of a key, if it has one. -/
def prepareRemoval (engine : AmmSyncEngine) (key : PoolKey) : Except AmmSyncError (Option PreparedRemoval) :=
  match engine.ownership.activePools.get key with
  | none => .ok none
  | some pool => do
    let ownership ← orError (engine.ownership.pools.get pool) (.ownership (.unknownPool pool))
    ensure (engine.handlers.contains ownership.handler = true) (.missingPoolHandler ownership.handler)
    ensure ((engine.registry.pool key).isSome = true) (.ownership (.unknownPool pool))
    let lifecycle ← orError (engine.lifecycles.pools.get pool)
      (.lifecycleInvariant "active pool was absent from the lifecycle map")
    return some ⟨pool, ownership.handler, lifecycle, (engine.ownership.poolResyncs.get pool).getD []⟩

/-- No resync id belongs to two of the pools. -/
def resyncsDisjoint : List PreparedRemoval → Bool
  | [] => true
  | pool :: rest => rest.all (fun other => pool.resyncs.all (· ∉ other.resyncs)) && resyncsDisjoint rest

def prepareRemovals (engine : AmmSyncEngine) (keys : List PoolKey) : Except AmmSyncError (List PreparedRemoval) := do
  let prepared ← (sortDedup PoolKey.rank keys).mapM engine.prepareRemoval
  let prepared := prepared.reduceOption
  ensure (prepared.all (fun pool => (engine.routing.pool pool.instance.key).isSome) = true)
    (.lifecycleInvariant "pool removal preflight found divergent routing ownership")
  ensure (resyncsDisjoint prepared = true)
    (.lifecycleInvariant "one resync id was owned by multiple active pool generations")
  return prepared

/-- Put removed handlers back, stopping at one that is refused. -/
def restoreHandlers : List AmmPoolReactiveHandler → AmmSyncEngine → Outcome Unit
  | [], engine => (.ok (), engine)
  | handler :: rest, engine =>
    match registerHandler engine.handlers handler with
    | .error error => (.error error, engine)
    | .ok handlers => restoreHandlers rest { engine with handlers }

/-- Put back handlers and lifecycles after a handler was missing. -/
def rollbackRemovals (prepared : List PreparedRemoval) (removed : List AmmPoolReactiveHandler) (missing : HandlerId)
    (engine : AmmSyncEngine) : Outcome Unit :=
  match restoreHandlers removed engine with
  | (.error error, engine) => (.error error, engine)
  | (.ok _, engine) => (.error (.missingPoolHandler missing), { engine with
      lifecycles := prepared.foldl (fun lifecycles pool => lifecycles.setPool pool.instance pool.lifecycle)
        engine.lifecycles })

/-- Remove the handlers of every pool, or of none. -/
def removeHandlers (prepared : List PreparedRemoval) : List AmmPoolReactiveHandler → List PreparedRemoval →
    AmmSyncEngine → Outcome Unit
  | _, [], engine => (.ok (), engine)
  | removed, pool :: rest, engine =>
    match engine.handlers.get pool.handler with
    | none => rollbackRemovals prepared removed pool.handler engine
    | some handler => removeHandlers prepared (removed ++ [handler]) rest
        { engine with handlers := engine.handlers.remove pool.handler }

/-- Take one pool out of the ownership index and the registries. -/
def detachPool (engine : AmmSyncEngine) (pool : PreparedRemoval) : AmmSyncEngine :=
  { engine.unregisterAll pool.instance.key with
    ownership := (engine.ownership.removePool pool.instance).2
    degradedPoolCount :=
      if (engine.registry.pool pool.instance.key).any (·.status = .degraded) then engine.degradedPoolCount - 1
      else engine.degradedPoolCount
    lifecycles := engine.lifecycles.setPool pool.instance .removed }

def commitRemovals (prepared : List PreparedRemoval) (engine : AmmSyncEngine) : Outcome (List PoolInstanceId) :=
  let engine := { engine with
    lifecycles := prepared.foldl (fun lifecycles pool => lifecycles.setPool pool.instance .removing) engine.lifecycles }
  match removeHandlers prepared [] prepared engine with
  | (.error error, engine) => (.error error, engine)
  | (.ok _, engine) => (.ok (prepared.map (·.instance)), prepared.foldl detachPool engine)

/-- Remove the active generations of the keys, with or without eviction of their cached state. -/
def removePools (keys : List PoolKey) (engine : AmmSyncEngine) : Outcome (List PoolInstanceId) :=
  match engine.prepareRemovals keys with
  | .error error => (.error error, engine)
  | .ok prepared => commitRemovals prepared engine

/-! ### Adapters -/

def addAdapter (adapter : AmmAdapter) (engine : AmmSyncEngine) : Outcome Unit :=
  match engine.generations.nextAdapter adapter.key with
  | .error error => (.error error, engine)
  | .ok generation =>
    match engine.registry.registerAdapter adapter with
    | .error error => (.error (.registry error), engine)
    | .ok registry =>
      match engine.routing.registerAdapter adapter with
      | .error error =>
        (.error (.registry error), { engine with registry := registry.unregisterAdapterPrevalidated adapter.protocol })
      | .ok routing =>
        match engine.ownership.insertAdapter ⟨adapter.key, generation⟩ with
        | (.error error, _) => (.error (.ownership error), { engine with
            registry := registry.unregisterAdapterPrevalidated adapter.protocol
            routing := routing.unregisterAdapterPrevalidated adapter.protocol })
        | (.ok _, ownership) => (.ok (), { engine with
            registry, routing, ownership
            generations := { engine.generations with adapters := engine.generations.adapters.insert adapter.key generation }
            lifecycles := engine.lifecycles.setAdapter ⟨adapter.key, generation⟩ .active })

/-- The pools of an adapter, in the order of their keys. -/
def poolsForAdapter (engine : AmmSyncEngine) (adapter : AdapterInstanceId) : List PoolInstanceId :=
  (sortBy (·.key.rank) (ownedPools engine.registry engine.ownership)).filter fun pool =>
    decide (pool ∈ (engine.ownership.adapterPools.get adapter).getD ∅)

def detachAdapterPrevalidated (protocol : ProtocolId) (adapter : AdapterInstanceId) (engine : AmmSyncEngine) :
    AmmSyncEngine :=
  { engine with
    registry := engine.registry.unregisterAdapterPrevalidated protocol
    routing := engine.routing.unregisterAdapterPrevalidated protocol
    ownership := (engine.ownership.removeAdapterPrevalidated adapter).2
    lifecycles := (engine.lifecycles.setAdapter adapter .removing).setAdapter adapter .removed }

/-- The active generation of an adapter family. -/
def activeAdapter (engine : AmmSyncEngine) (adapter : AmmAdapter) : Except AmmSyncError AdapterInstanceId :=
  orError (engine.ownership.activeAdapters.get adapter.key) (.ownership (.unknownAdapter ⟨adapter.key, 0⟩))

/-- The adapter of a removal that no pool and no discovery depends on. -/
def unusedAdapter (engine : AmmSyncEngine) (protocol : ProtocolId) (adapter : AmmAdapter) :
    Except AmmSyncError AdapterInstanceId := do
  let adapterInstance ← engine.activeAdapter adapter
  match engine.poolsForAdapter adapterInstance with
  | pool :: _ => .error (.registry (.adapterInUse pool.key.protocol pool.key))
  | [] =>
    ensure ((engine.ownership.adapterDiscovery.get adapterInstance).getD ∅ = ∅) (.ownership (.adapterInUse adapterInstance))
    ensure ((engine.routing.adapter protocol).isSome = true)
      (.lifecycleInvariant "active adapter was absent from the routing registry")
    return adapterInstance

def removeAdapter (protocol : ProtocolId) (engine : AmmSyncEngine) : Outcome Unit :=
  match engine.registry.adapter protocol with
  | none => (.ok (), engine)
  | some adapter =>
    match engine.unusedAdapter protocol adapter with
    | .error error => (.error error, engine)
    | .ok adapterInstance => (.ok (), engine.detachAdapterPrevalidated protocol adapterInstance)

/-- The preflight of one dependent pool. -/
def checkDependent (engine : AmmSyncEngine) (pool : PoolInstanceId) : Except AmmSyncError Unit := do
  let active ← orError (engine.ownership.activePools.get pool.key) (.ownership (.unknownPool ⟨pool.key, 0⟩))
  let owned ← orError (engine.ownership.pools.get active) (.ownership (.unknownPool active))
  ensure (engine.handlers.contains owned.handler = true) (.missingPoolHandler owned.handler)
  ensure ((engine.registry.pool pool.key).isSome = true) (.ownership (.unknownPool owned.instance))

/-- The adapter of a cascade and the keys of its pools. -/
def prepareCascade (engine : AmmSyncEngine) (protocol : ProtocolId) (adapter : AmmAdapter) :
    Except AmmSyncError (AdapterInstanceId × List PoolKey) := do
  let adapterInstance ← engine.activeAdapter adapter
  let pools := engine.poolsForAdapter adapterInstance
  pools.forM engine.checkDependent
  ensure ((engine.routing.adapter protocol).isSome = true ∧
      pools.all (fun pool => (engine.routing.pool pool.key).isSome) = true)
    (.lifecycleInvariant "cascade preflight found divergent routing ownership")
  return (adapterInstance, pools.map (·.key))

/-- Remove an adapter family with every pool that depends on it, with or without eviction. -/
def removeAdapterCascade (protocol : ProtocolId) (engine : AmmSyncEngine) : Outcome Unit :=
  match engine.registry.adapter protocol with
  | none => (.ok (), engine)
  | some adapter =>
    match engine.prepareCascade protocol adapter with
    | .error error => (.error error, engine)
    | .ok (adapterInstance, keys) =>
      match engine.removePools keys with
      | (.error error, engine) => (.error error, engine)
      | (.ok _, engine) => (.ok (), engine.detachAdapterPrevalidated protocol adapterInstance)

end AmmSyncEngine
end

/-! ### Ingest -/

/-- What one batch of the reactive runtime reports: the resyncs that each handler asks for, and for each of the marking
    loops the pools that it finds. -/
structure IngestReport where
  preconfirmation : Bool
  applied : List (HandlerId × List ResyncId)
  failedResyncs : List PoolKey
  decodeFailures : List PoolKey
  pendingRepairs : List PoolInstanceId
  unresolvedEvents : List PoolKey
  ambiguousPurges : List PoolKey
  coverageGaps : List PoolKey
  requiresFullRefresh : Bool
  /-- The pools whose outstanding targets the batch has refreshed. -/
  refreshed : List PoolKey

/-- The resyncs of a report that are to be untracked at its end, and the new ones among them with their pools. -/
structure Tracking where
  tracked : List ResyncId
  pending : List (PoolInstanceId × ResyncId)

namespace Tracking

def push (tracking : Tracking) (id : ResyncId) : Tracking :=
  if id ∈ tracking.tracked then tracking else { tracking with tracked := tracking.tracked ++ [id] }

/-- One resync request of a pool. -/
def request (ownership : AmmOwnershipIndex) (pool : PoolInstanceId) (tracking : Tracking) (id : ResyncId) :
    Except AmmSyncError Tracking :=
  match ownership.resyncOwners.get id with
  | some owner => if owner = pool then .ok (tracking.push id) else .error (.ownership (.duplicateResync id))
  | none =>
    match tracking.pending.find? (·.2 = id) with
    | some (owner, _) => if owner = pool then .ok (tracking.push id) else .error (.ownership (.duplicateResync id))
    | none => .ok ({ tracking with pending := tracking.pending ++ [(pool, id)] }.push id)

def applied (ownership : AmmOwnershipIndex) (tracking : Tracking) (applied : HandlerId × List ResyncId) :
    Except AmmSyncError Tracking :=
  match ownership.handlerPools.get applied.1 with
  | none => .ok tracking
  | some pool => applied.2.foldlM (request ownership pool) tracking

end Tracking

def trackPending : List (PoolInstanceId × ResyncId) → AmmOwnershipIndex → AmmOwnershipIndex.Outcome Unit
  | [], ownership => (.ok (), ownership)
  | (pool, resync) :: rest, ownership =>
    match ownership.trackResync pool resync with
    | (.error error, ownership) => (.error error, ownership)
    | (.ok _, ownership) => trackPending rest ownership

namespace AmmSyncEngine

def trackReportResyncs (report : IngestReport) (engine : AmmSyncEngine) : Outcome (List ResyncId) :=
  match report.applied.foldlM (Tracking.applied engine.ownership) ⟨[], []⟩ with
  | .error error => (.error error, engine)
  | .ok tracking =>
    match trackPending tracking.pending engine.ownership with
    | (.error error, ownership) => (.error (.ownership error), { engine with ownership })
    | (.ok _, ownership) => (.ok tracking.tracked, { engine with ownership })

def setPoolStatus (status : PoolStatus) (engine : AmmSyncEngine) (key : PoolKey) : AmmSyncEngine :=
  match engine.registry.pool key with
  | none => engine
  | some previous => { engine with
      degradedPoolCount := recount engine.degradedPoolCount previous.status status
      registry := engine.registry.updatePoolStatus key status
      routing := engine.routing.updatePoolStatus key status
      lifecycles := match engine.ownership.activePools.get key with
        | some pool => engine.lifecycles.setPool pool (poolRuntimeState status)
        | none => engine.lifecycles }

/-- The pools that the marking loops of an ingest degrade, in their order. -/
def degradedBy (report : IngestReport) (deferRepairs : Bool) (engine : AmmSyncEngine) : List PoolKey :=
  report.failedResyncs ++ report.decodeFailures ++
    (if deferRepairs then report.pendingRepairs.map (·.key) else []) ++
    report.unresolvedEvents ++ report.ambiguousPurges ++ report.coverageGaps ++
    (if report.requiresFullRefresh then (ownedPools engine.registry engine.ownership).map (·.key) else [])

/-- The degraded pools that an ingest recovers: refreshed, and not degraded by the same ingest. -/
def recoveredBy (report : IngestReport) (degraded : List PoolKey) (engine : AmmSyncEngine) : List PoolKey :=
  report.refreshed.filter fun key => (engine.registry.pool key).any (·.status = .degraded) && decide (key ∉ degraded)

def finishIngest (report : IngestReport) (deferRepairs : Bool) (engine : AmmSyncEngine) : Outcome Unit :=
  if report.preconfirmation then (.ok (), engine)
  else match engine.trackReportResyncs report with
  | (.error error, engine) => (.error error, engine)
  | (.ok tracked, engine) =>
    let degraded := engine.degradedBy report deferRepairs
    let engine := degraded.foldl (setPoolStatus .degraded) engine
    let engine := (engine.recoveredBy report degraded).foldl (setPoolStatus .ready) engine
    (.ok (), { engine with
      ownership := tracked.foldl (fun ownership resync => (ownership.untrackResync resync).2) engine.ownership })

/-- Ingest a batch: the reactive runtime refuses it or reports on it. -/
def ingestBatch (report : Option IngestReport) (deferRepairs : Bool) (engine : AmmSyncEngine) : Outcome Unit :=
  match report with
  | none => (.error .reactive, engine)
  | some report => engine.finishIngest report deferRepairs

end AmmSyncEngine
end SyncManager
end AmmState
