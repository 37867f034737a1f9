import AmmState.Recovery
import AmmState.SyncEngine

/-! Eviction of cached state (`sync_manager.rs`): removing pools with eviction purges what no other pool depends on, and
    leaves a fence for each removed generation whose handler still has journal entries. A reorg rolls such entries back, so
    the fences purge again behind it; they retire with the journal, with a new registration of their key, and with the
    registry. The handlers that the reactive runtime has in its journal are an argument of each operation. -/

namespace AmmState.SyncManager
open SortDedup

/-! ### Exclusive state -/

/-- A purge that the cache is asked for. -/
inductive CachePurge
  | storage (address : Address)
  | slots (address : Address) (slots : List U256)

inductive AmmEvictionPolicy
  | retain | exclusive
  deriving DecidableEq

structure AmmEvictionReport where
  policy : AmmEvictionPolicy
  purgedAccounts : List Address
  purgedSlots : List StateSlot

/-- What the loops of an eviction have purged so far. -/
structure Evicted where
  purges : List CachePurge
  accounts : List Address
  slots : List StateSlot

/-- The slots of a gone pool at an address that no remaining pool covers. -/
def exclusiveSlots (remaining : AmmOwnershipIndex) (pool : PoolOwnership) (address : Address) : List StateSlot :=
  pool.dependencies.slots.filter fun slot => decide (slot.address = address) && decide (remaining.poolsForSlot slot = [])

/-- Purge the storage of an address that no remaining pool is associated with, else the exclusive slots there. -/
def evictAddress (remaining : AmmOwnershipIndex) (pool : PoolOwnership) (evicted : Evicted) (address : Address) : Evicted :=
  if remaining.poolsForAddress address = [] then
    { evicted with purges := evicted.purges ++ [.storage address], accounts := evicted.accounts ++ [address] }
  else
    let exclusive := exclusiveSlots remaining pool address
    if exclusive = [] then evicted
    else { evicted with
      purges := evicted.purges ++ [.slots address (exclusive.map (·.slot))]
      slots := evicted.slots ++ exclusive }

def evictPool (remaining : AmmOwnershipIndex) (evicted : Evicted) (pool : PoolOwnership) : Evicted :=
  pool.dependencies.associatedAddresses.foldl (evictAddress remaining pool) evicted

def evictExclusiveState (removed : List PoolOwnership) (remaining : AmmOwnershipIndex) :
    List CachePurge × AmmEvictionReport :=
  let evicted := removed.foldl (evictPool remaining) ⟨[], [], []⟩
  (evicted.purges, ⟨.exclusive, sortDedup BitVec.toNat evicted.accounts,
    sortDedup (fun slot : StateSlot => toLex (slot.address.toNat, slot.slot.toNat)) evicted.slots⟩)

/-! ### Fences -/

/-- The engine with its eviction fences. -/
structure EvictingEngine where
  engine : AmmSyncEngine
  evictionFences : List PoolOwnership

/-- The result of an operation: what it purges, what it reports, and the engine it leaves. -/
structure EvictionOutcome where
  purges : List CachePurge
  report : Option AmmEvictionReport
  state : EvictingEngine

namespace EvictingEngine

def recordEvictionFences (journaled : Finset HandlerId) (removed : List PoolOwnership) (x : EvictingEngine) :
    EvictingEngine :=
  { x with evictionFences := x.evictionFences ++ removed.filter (·.handler ∈ journaled) }

def retireEvictionFences (journaled : Finset HandlerId) (x : EvictingEngine) : EvictingEngine :=
  { x with evictionFences := x.evictionFences.filter (·.handler ∈ journaled) }

def enforceEvictionFences (journaled : Finset HandlerId) (x : EvictingEngine) : List CachePurge × EvictingEngine :=
  if x.evictionFences = [] then ([], x)
  else ((evictExclusiveState x.evictionFences x.engine.ownership).1, x.retireEvictionFences journaled)

/-- An operation that concerns neither the cache nor the fences. -/
def onEngine {α : Type} (operation : AmmSyncEngine → Outcome α) (x : EvictingEngine) : EvictionOutcome :=
  ⟨[], none, { x with engine := (operation x.engine).2 }⟩

/-- A registration takes over the state of its keys: their fences fall. -/
def adopting (operation : AmmSyncEngine → Outcome (List PoolInstanceId)) (x : EvictingEngine) : EvictionOutcome :=
  match operation x.engine with
  | (.error _, engine) => ⟨[], none, { x with engine }⟩
  | (.ok registered, engine) => ⟨[], none, {
      engine
      evictionFences := x.evictionFences.filter (·.instance.key ∉ registered.map (·.key)) }⟩

/-- The end of a removal: with eviction, what the removed pools had for themselves is purged and fenced. -/
def evicting (policy : AmmEvictionPolicy) (journaled : Finset HandlerId) (removed : List PoolOwnership)
    (x : EvictingEngine) : EvictionOutcome :=
  match policy with
  | .retain => ⟨[], some ⟨.retain, [], []⟩, x⟩
  | .exclusive =>
    let (purges, report) := evictExclusiveState removed x.engine.ownership
    ⟨purges, some report, x.recordEvictionFences journaled removed⟩

/-- `remove_pools_with_policy`. -/
def removePoolsWithPolicy (keys : List PoolKey) (policy : AmmEvictionPolicy) (journaled : Finset HandlerId)
    (x : EvictingEngine) : EvictionOutcome :=
  match x.engine.removePools keys with
  | (.error _, engine) => ⟨[], none, { x with engine }⟩
  | (.ok removed, engine) =>
    ({ x with engine }).evicting policy journaled (removed.filterMap x.engine.ownership.pools.get)

/-- The resources of the pools of an adapter family. -/
def dependentOwnership (engine : AmmSyncEngine) (protocol : ProtocolId) : List PoolOwnership :=
  match (engine.registry.adapter protocol).bind fun adapter => engine.ownership.activeAdapters.get adapter.key with
  | none => []
  | some adapter => (engine.poolsForAdapter adapter).filterMap engine.ownership.pools.get

/-- `remove_adapter_cascade_with_cache`; a protocol without an adapter has nothing to remove. -/
def removeAdapterCascadeWithCache (protocol : ProtocolId) (policy : AmmEvictionPolicy) (journaled : Finset HandlerId)
    (x : EvictingEngine) : EvictionOutcome :=
  match x.engine.registry.adapter protocol with
  | none => ⟨[], some ⟨.retain, [], []⟩, x⟩
  | some _ =>
    match x.engine.removeAdapterCascade protocol with
    | (.error _, engine) => ⟨[], none, { x with engine }⟩
    | (.ok _, engine) => ({ x with engine }).evicting policy journaled (dependentOwnership x.engine protocol)

section
variable (handlerId : PoolInstanceId → HandlerId)

def replaceRegistry (registry : AdapterRegistry) (x : EvictingEngine) : EvictionOutcome :=
  match x.engine.replaceRegistry handlerId registry with
  | (.error _, engine) => ⟨[], none, { x with engine }⟩
  | (.ok _, engine) => ⟨[], none, ⟨engine, []⟩⟩

/-- `ingest_batch` and `ingest_batch_deferred_repairs`: the fences purge behind a reorg and behind a batch that fails, which
    may have rolled one back; any other canonical batch ages them. -/
def ingestBatch (report : Option IngestReport) (reorg deferRepairs : Bool) (journaled : Finset HandlerId)
    (x : EvictingEngine) : EvictionOutcome :=
  match report with
  | none =>
    let (purges, x) := x.enforceEvictionFences journaled
    ⟨purges, none, x⟩
  | some report =>
    if report.preconfirmation then x.onEngine (AmmSyncEngine.finishIngest report deferRepairs)
    else
      let (purges, x) := if reorg then x.enforceEvictionFences journaled else ([], x.retireEvictionFences journaled)
      ⟨purges, none, { x with engine := (x.engine.finishIngest report deferRepairs).2 }⟩

/-! ### Runs -/

/-- The operations of the engine, with what the reactive runtime answers. -/
inductive Event
  | addPools (registrations : List PoolRegistration)
  | reservePoolGeneration (key : PoolKey)
  | commitPoolReservation (reserved : PoolInstanceId) (registration : PoolRegistration)
  | cancelPoolReservation (reserved : PoolInstanceId)
  | commitPoolRefresh (prepared : AmmPreparedPoolRefresh)
  | acknowledgeLiveDelivery (pools : List PoolInstanceId)
  | addAdapter (adapter : AmmAdapter)
  | removeAdapter (protocol : ProtocolId)
  | removePools (keys : List PoolKey) (policy : AmmEvictionPolicy) (journaled : Finset HandlerId)
  | removeAdapterCascade (protocol : ProtocolId) (policy : AmmEvictionPolicy) (journaled : Finset HandlerId)
  | replaceRegistry (registry : AdapterRegistry)
  | ingest (report : Option IngestReport) (reorg deferRepairs : Bool) (journaled : Finset HandlerId)

def step (x : EvictingEngine) : Event → EvictionOutcome
  | .addPools registrations => x.adopting (AmmSyncEngine.addPools handlerId registrations)
  | .reservePoolGeneration key => x.onEngine (AmmSyncEngine.reservePoolGeneration key)
  | .commitPoolReservation reserved registration =>
    x.adopting (AmmSyncEngine.commitPoolReservation handlerId reserved registration)
  | .cancelPoolReservation reserved => x.onEngine (AmmSyncEngine.cancelPoolReservation reserved)
  | .commitPoolRefresh prepared => x.onEngine (AmmSyncEngine.commitPoolRefresh prepared)
  | .acknowledgeLiveDelivery pools => x.onEngine (AmmSyncEngine.acknowledgeLiveDelivery pools)
  | .addAdapter adapter => x.onEngine (AmmSyncEngine.addAdapter adapter)
  | .removeAdapter protocol => x.onEngine (AmmSyncEngine.removeAdapter protocol)
  | .removePools keys policy journaled => x.removePoolsWithPolicy keys policy journaled
  | .removeAdapterCascade protocol policy journaled => x.removeAdapterCascadeWithCache protocol policy journaled
  | .replaceRegistry registry => x.replaceRegistry handlerId registry
  | .ingest report reorg deferRepairs journaled => x.ingestBatch report reorg deferRepairs journaled

/-- The engine after a sequence of operations, failed ones included. -/
def run (x : EvictingEngine) (events : List Event) : EvictingEngine :=
  events.foldl (fun x event => (x.step handlerId event).state) x

end
end EvictingEngine
end AmmState.SyncManager
