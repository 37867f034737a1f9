import AmmState.Discovery.Factories
import AmmState.Lib.FirstBy

/-! `PoolDiscovery` (`factory.rs`): queries are fanned out to the factories, their reads are merged into one batch, and the
    pools are assembled from its words. The latches of the factories are the state, each under its factory's index. A
    cache answers a batch of reads from the storage of the chain. -/

namespace AmmState.Discovery
open SortDedup

structure PoolQuery where
  pairs : List Pair
  protocol : Option ProtocolId

namespace PoolQuery

def pair (a b : Address) : PoolQuery := ⟨[sortTokens a b], none⟩

end PoolQuery

def readRank (read : StateSlot) : Nat ×ₗ Nat := toLex (read.address.toNat, read.slot.toNat)

structure PreparedFactoryQuery where
  factoryIndex : Nat
  protocol : ProtocolId
  factory : Address
  pairs : List Pair
  reads : List StateSlot
  legacy : Bool

structure PreparedDiscoveryReads where
  reads : List StateSlot
  factories : List PreparedFactoryQuery

inductive LegacyFactoryMode
  | allow | reject
  deriving DecidableEq

/-- The latches of the factories. -/
abbrev Latches := Nat → Bool

abbrev DiscoveryM (α : Type) := Fallible DiscoveryError Latches α

/-- The factories of a discovery, one for each protocol and address. -/
structure PoolDiscovery where
  factories : List PoolFactory
  identities_nodup : (factories.map fun factory => (factory.protocol, factory.factoryAddress)).Nodup

/-- Run a factory on its own latch. -/
def atFactory {α : Type} (index : Nat) (m : Latched α) : DiscoveryM α := fun latches =>
  let (result, latch) := m.run.run (latches index)
  (result, Function.update latches index latch)

/-- Keep the pools of a list whose key was not seen. -/
def pushUnseen (seen : List PoolKey) (pools : List DiscoveredPool) : List PoolKey × List DiscoveredPool :=
  FirstBy.keepUnseen DiscoveredPool.key seen pools

namespace PoolDiscovery

def empty : PoolDiscovery := ⟨[], List.nodup_nil⟩

def pushUnique (discovery : PoolDiscovery) (factory : PoolFactory) : PoolDiscovery :=
  if h : (factory.protocol, factory.factoryAddress) ∈
      discovery.factories.map fun factory => (factory.protocol, factory.factoryAddress) then discovery
  else ⟨discovery.factories ++ [factory], by
    rw [List.map_append]
    exact List.nodup_append.mpr ⟨discovery.identities_nodup, List.nodup_singleton _, by
      rintro identity hmem _ hnew rfl
      rw [List.map_singleton, List.mem_singleton] at hnew
      exact h (hnew ▸ hmem)⟩⟩

def new (factories : List PoolFactory) : PoolDiscovery := factories.foldl pushUnique empty

variable (keccak256 : Bytes → B256) (discovery : PoolDiscovery)

/-- The factories of a query, with their indices. -/
def matching (query : PoolQuery) : List (PoolFactory × Nat) :=
  discovery.factories.zipIdx.filter fun entry => query.protocol.all (entry.1.protocol = ·)

def prepareFactory (mode : LegacyFactoryMode) (query : PoolQuery) (entry : PoolFactory × Nat) :
    Except DiscoveryError PreparedFactoryQuery :=
  let (factory, index) := entry
  let reads := sortDedup readRank (factory.candidateReads keccak256 query.pairs)
  let legacy := !query.pairs.isEmpty && reads.isEmpty
  if legacy ∧ mode = .reject then .error (.preparedModeUnsupported factory.protocol factory.factoryAddress)
  else .ok ⟨index, factory.protocol, factory.factoryAddress, query.pairs, reads, legacy⟩

/-- The protocol of a query that no factory serves. -/
def missingProtocol (query : PoolQuery) : Option ProtocolId :=
  query.protocol.filter fun protocol => discovery.factories.all (·.protocol ≠ protocol)

def prepareReadsWithMode (mode : LegacyFactoryMode) (queries : List PoolQuery) :
    Except DiscoveryError PreparedDiscoveryReads :=
  match queries.findSome? discovery.missingProtocol with
  | some protocol => .error (.missingFactory protocol)
  | none => do
    let factories ← (queries.flatMap fun query => (discovery.matching query).map (query, ·)).mapM fun entry =>
      prepareFactory keccak256 mode entry.1 entry.2
    return ⟨sortDedup readRank (factories.flatMap (·.reads)), factories⟩

def prepareReads (queries : List PoolQuery) : Except DiscoveryError PreparedDiscoveryReads :=
  discovery.prepareReadsWithMode keccak256 .reject queries

/-- `find_pools`: look up one pair on its own. -/
def findPools (storage : StateSlot → U256) (factory : PoolFactory) (pair : Pair) : Latched (List DiscoveredPool) :=
  let slots := factory.candidateReads keccak256 [pair]
  if slots.isEmpty then return []
  else factory.assemblePairs keccak256 [pair] (slots.foldl (fun values slot => values.insert slot (storage slot)) .empty)

def findPoolsOf (storage : StateSlot → U256) (factory : PoolFactory) : List Pair → Latched (List DiscoveredPool)
  | [] => return []
  | pair :: rest => do
    let found ← findPools keccak256 storage factory pair
    let more ← findPoolsOf storage factory rest
    return found ++ more

/-- The pools of one prepared query. A legacy plan reads the cache by itself; `prepare_reads` exposes none. -/
def assembleFactory (resolved : Values) (cache : Option (StateSlot → U256)) (plan : PreparedFactoryQuery) :
    DiscoveryM (List DiscoveredPool) :=
  match discovery.factories[plan.factoryIndex]? with
  | none => throw (.preparedFactoryMismatch plan.protocol plan.factory)
  | some factory =>
    if factory.protocol ≠ plan.protocol ∨ factory.factoryAddress ≠ plan.factory then
      throw (.preparedFactoryMismatch plan.protocol plan.factory)
    else atFactory plan.factoryIndex <|
      match plan.legacy, cache with
      | true, some storage => findPoolsOf keccak256 storage factory plan.pairs
      | _, _ => factory.assemblePairs keccak256 plan.pairs resolved

def assembleFactories (resolved : Values) (cache : Option (StateSlot → U256)) :
    List PoolKey → List PreparedFactoryQuery → DiscoveryM (List DiscoveredPool)
  | _, [] => return []
  | seen, plan :: rest => do
    let pools ← discovery.assembleFactory keccak256 resolved cache plan
    let (seen, found) := pushUnseen seen pools
    let more ← assembleFactories resolved cache seen rest
    return found ++ more

def assemblePlan (prepared : PreparedDiscoveryReads) (resolved : Values) (cache : Option (StateSlot → U256)) :
    DiscoveryM (List DiscoveredPool) :=
  discovery.assembleFactories keccak256 resolved cache [] prepared.factories

/-- Enter the values that were fetched, each read once. -/
def resolve : List (StateSlot × U256) → Values → Except DiscoveryError Values
  | [], resolved => .ok resolved
  | (read, value) :: rest, resolved =>
    if resolved.contains read then .error (.duplicatePreparedValue read) else resolve rest (resolved.insert read value)

/-- The values of a prepared plan, all of which must be there. -/
def resolveAll (prepared : PreparedDiscoveryReads) (values : List (StateSlot × U256)) : Except DiscoveryError Values := do
  let resolved ← resolve values .empty
  match prepared.reads.find? (!resolved.contains ·) with
  | some read => .error (.missingPreparedValue read)
  | none => return resolved

def assemblePrepared (prepared : PreparedDiscoveryReads) (values : List (StateSlot × U256)) :
    DiscoveryM (List DiscoveredPool) :=
  match resolveAll prepared values with
  | .error error => throw error
  | .ok resolved => discovery.assemblePlan keccak256 prepared resolved none

/-- `find_many` against a cache that answers from a storage. -/
def findMany (storage : StateSlot → U256) (queries : List PoolQuery) : DiscoveryM (List DiscoveredPool) :=
  match discovery.prepareReadsWithMode keccak256 .allow queries with
  | .error error => throw error
  | .ok prepared =>
    let resolved := prepared.reads.foldl (fun values read => values.insert read (storage read)) Map.empty
    discovery.assemblePlan keccak256 prepared resolved (some storage)

/-- `prepare_reads`, a fetch of what it asks for, and `assemble_prepared`. -/
def findPrepared (fetch : List StateSlot → List (StateSlot × U256)) (queries : List PoolQuery) :
    DiscoveryM (List DiscoveredPool) :=
  match discovery.prepareReads keccak256 queries with
  | .error error => throw error
  | .ok prepared => discovery.assemblePrepared keccak256 prepared (fetch prepared.reads)

end PoolDiscovery
end AmmState.Discovery
