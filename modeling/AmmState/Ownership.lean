import AmmState.Lib.ReverseIndex
import AmmState.Types

/-! The generation-scoped ownership index of `ownership.rs`: forward maps from pool and discovery instances to
    what they own, and a reverse index for each kind of resource. Every operation returns its result with the
    index as it leaves it, also when it fails. -/

namespace AmmState
open ReverseIndex

/-- One exact EVM storage location. -/
structure StateSlot where
  address : Address
  slot : U256
  deriving DecidableEq

/-- The state that one pool declares as its own. Whole accounts and the accounts of the slots are associated too. -/
structure PoolStateDependencies where
  associatedAddresses : List Address
  wholeAccounts : List Address
  slots : List StateSlot
  whole_associated : ∀ address ∈ wholeAccounts, address ∈ associatedAddresses
  slots_associated : ∀ slot ∈ slots, slot.address ∈ associatedAddresses

/-- `PoolStateDependencies::default()`. -/
def PoolStateDependencies.default : PoolStateDependencies := ⟨[], [], [], nofun, nofun⟩

/-- All reverse-indexable resources owned by one pool instance. -/
structure PoolOwnership where
  «instance» : PoolInstanceId
  handler : HandlerId
  adapter : AdapterInstanceId
  dependencies : PoolStateDependencies
  eventEmitters : List Address

structure DiscoveryOwnership where
  owner : DiscoveryOwnerId
  adapter : AdapterInstanceId

inductive AmmOwnershipError
  | duplicateAdapter (key : AdapterKey)
  | unknownAdapter (adapter : AdapterInstanceId)
  | adapterProtocolMismatch (pool : PoolInstanceId) (adapter : AdapterInstanceId)
  | duplicatePool (key : PoolKey)
  | duplicateDiscovery (key : DiscoveryOwnerKey)
  | duplicateDiscoveryInstance (owner : DiscoveryOwnerId)
  | duplicatePoolInstance (pool : PoolInstanceId)
  | duplicateHandler (handler : HandlerId)
  | duplicateWork (work : RuntimeWorkId)
  | unknownWorkOwner (owner : RuntimeOwnerId)
  | duplicateResync (resync : ResyncId)
  | poolReplacementIdentity (pool : PoolInstanceId)
  | unknownPool (pool : PoolInstanceId)
  | adapterInUse (adapter : AdapterInstanceId)

/-- Resources detached by one exact pool-instance removal. -/
structure PoolOwnershipRemoval where
  ownership : PoolOwnership
  work : Finset RuntimeWorkId
  resyncs : List ResyncId

structure DiscoveryOwnershipRemoval where
  ownership : DiscoveryOwnership
  work : Finset RuntimeWorkId

structure AmmOwnershipIndex where
  adapters : Finset AdapterInstanceId
  activeAdapters : Map AdapterKey AdapterInstanceId
  activePools : Map PoolKey PoolInstanceId
  pools : Map PoolInstanceId PoolOwnership
  handlerPools : Map HandlerId PoolInstanceId
  adapterPools : ReverseIndex AdapterInstanceId PoolInstanceId
  activeDiscovery : Map DiscoveryOwnerKey DiscoveryOwnerId
  discovery : Map DiscoveryOwnerId DiscoveryOwnership
  adapterDiscovery : ReverseIndex AdapterInstanceId DiscoveryOwnerId
  addressPools : ReverseIndex Address PoolInstanceId
  wholeAccountPools : ReverseIndex Address PoolInstanceId
  slotPools : ReverseIndex StateSlot PoolInstanceId
  emitterPools : ReverseIndex Address PoolInstanceId
  ownerWork : ReverseIndex RuntimeOwnerId RuntimeWorkId
  resyncOwners : Map ResyncId PoolInstanceId
  poolResyncs : Map PoolInstanceId (List ResyncId)

namespace AmmOwnershipIndex

/-- `AmmOwnershipIndex::default()`. -/
def empty : AmmOwnershipIndex where
  adapters := ∅
  activeAdapters := .empty
  activePools := .empty
  pools := .empty
  handlerPools := .empty
  adapterPools := .empty
  activeDiscovery := .empty
  discovery := .empty
  adapterDiscovery := .empty
  addressPools := .empty
  wholeAccountPools := .empty
  slotPools := .empty
  emitterPools := .empty
  ownerWork := .empty
  resyncOwners := .empty
  poolResyncs := .empty

/-- The result of a fallible operation and the index it leaves. -/
abbrev Outcome (α : Type) := Except AmmOwnershipError α × AmmOwnershipIndex

def insertAdapter (adapter : AdapterInstanceId) (x : AmmOwnershipIndex) : Outcome Unit :=
  if x.activeAdapters.contains adapter.key then (.error (.duplicateAdapter adapter.key), x)
  else (.ok (), { x with
    activeAdapters := x.activeAdapters.insert adapter.key adapter
    adapters := insert adapter x.adapters })

/-- The four reverse indexes of a pool's declared resources, with `pool` inserted under each resource. -/
def indexResources (ownership : PoolOwnership) (pool : PoolInstanceId) (x : AmmOwnershipIndex) :
    AmmOwnershipIndex :=
  { x with
    addressPools := insertOwners x.addressPools ownership.dependencies.associatedAddresses pool
    wholeAccountPools := insertOwners x.wholeAccountPools ownership.dependencies.wholeAccounts pool
    slotPools := insertOwners x.slotPools ownership.dependencies.slots pool
    emitterPools := insertOwners x.emitterPools ownership.eventEmitters pool }

/-- The four reverse indexes of a pool's declared resources, with `pool` removed from each resource. -/
def unindexResources (ownership : PoolOwnership) (pool : PoolInstanceId) (x : AmmOwnershipIndex) :
    AmmOwnershipIndex :=
  { x with
    addressPools := removeOwners x.addressPools ownership.dependencies.associatedAddresses pool
    wholeAccountPools := removeOwners x.wholeAccountPools ownership.dependencies.wholeAccounts pool
    slotPools := removeOwners x.slotPools ownership.dependencies.slots pool
    emitterPools := removeOwners x.emitterPools ownership.eventEmitters pool }

def insertPool (ownership : PoolOwnership) (x : AmmOwnershipIndex) : Outcome Unit :=
  let pool := ownership.instance
  if ownership.adapter ∉ x.adapters then (.error (.unknownAdapter ownership.adapter), x)
  else if pool.key.protocol ∉ ownership.adapter.key.protocols then
    (.error (.adapterProtocolMismatch pool ownership.adapter), x)
  else if x.activePools.contains pool.key then (.error (.duplicatePool pool.key), x)
  else if x.pools.contains pool then (.error (.duplicatePoolInstance pool), x)
  else if x.handlerPools.contains ownership.handler then (.error (.duplicateHandler ownership.handler), x)
  else (.ok (), indexResources ownership pool { x with
    activePools := x.activePools.insert pool.key pool
    handlerPools := x.handlerPools.insert ownership.handler pool
    adapterPools := insertOwner x.adapterPools ownership.adapter pool
    pools := x.pools.insert pool ownership })

def replacePool (ownership : PoolOwnership) (x : AmmOwnershipIndex) : Outcome PoolOwnership :=
  let pool := ownership.instance
  if x.activePools.get pool.key ≠ some pool then (.error (.unknownPool pool), x)
  else match x.pools.get pool with
    | none => (.error (.unknownPool pool), x)
    | some previous =>
      if previous.handler ≠ ownership.handler ∨ previous.adapter ≠ ownership.adapter ∨
          x.handlerPools.get previous.handler ≠ some pool then
        (.error (.poolReplacementIdentity pool), x)
      else
        let y := indexResources ownership pool (unindexResources previous pool x)
        (.ok previous, { y with pools := y.pools.insert pool ownership })

def insertDiscovery (ownership : DiscoveryOwnership) (x : AmmOwnershipIndex) : Outcome Unit :=
  if ownership.adapter ∉ x.adapters then (.error (.unknownAdapter ownership.adapter), x)
  else if x.activeDiscovery.contains ownership.owner.key then
    (.error (.duplicateDiscovery ownership.owner.key), x)
  else if x.discovery.contains ownership.owner then
    (.error (.duplicateDiscoveryInstance ownership.owner), x)
  else (.ok (), { x with
    activeDiscovery := x.activeDiscovery.insert ownership.owner.key ownership.owner
    adapterDiscovery := insertOwner x.adapterDiscovery ownership.adapter ownership.owner
    discovery := x.discovery.insert ownership.owner ownership })

/-- The owner is registered in the index. -/
def ownerLive (x : AmmOwnershipIndex) : RuntimeOwnerId → Bool
  | .pool pool => x.pools.contains pool
  | .adapter adapter => adapter ∈ x.adapters
  | .discovery owner => x.discovery.contains owner

def validateOwner (owner : RuntimeOwnerId) (x : AmmOwnershipIndex) : Except AmmOwnershipError Unit :=
  match owner with
  | .pool pool => if x.pools.contains pool then .ok () else .error (.unknownWorkOwner owner)
  | .adapter adapter => if adapter ∈ x.adapters then .ok () else .error (.unknownWorkOwner owner)
  | .discovery discovery => if x.discovery.contains discovery then .ok () else .error (.unknownWorkOwner owner)

def trackWork (work : RuntimeWorkId) (x : AmmOwnershipIndex) : Outcome Unit :=
  match x.validateOwner work.owner with
  | .error error => (.error error, x)
  | .ok () =>
    -- `entry(..).or_default()` stores an empty set before the insertion is tried.
    let entries := (x.ownerWork.get work.owner).getD ∅
    if work ∈ entries then
      (.error (.duplicateWork work), { x with ownerWork := x.ownerWork.insert work.owner entries })
    else (.ok (), { x with ownerWork := x.ownerWork.insert work.owner (insert work entries) })

def untrackWork (work : RuntimeWorkId) (x : AmmOwnershipIndex) : Bool × AmmOwnershipIndex :=
  match x.ownerWork.get work.owner with
  | none => (false, x)
  | some entries => (work ∈ entries, { x with ownerWork := removeOwner x.ownerWork work.owner work })

def trackResync (pool : PoolInstanceId) (resync : ResyncId) (x : AmmOwnershipIndex) : Outcome Unit :=
  if !x.pools.contains pool then (.error (.unknownPool pool), x)
  else if x.resyncOwners.contains resync then (.error (.duplicateResync resync), x)
  else (.ok (), { x with
    resyncOwners := x.resyncOwners.insert resync pool
    poolResyncs := x.poolResyncs.insert pool ((x.poolResyncs.get pool).getD [] ++ [resync]) })

def untrackResync (resync : ResyncId) (x : AmmOwnershipIndex) : Option PoolInstanceId × AmmOwnershipIndex :=
  match x.resyncOwners.get resync with
  | none => (none, x)
  | some pool =>
    let resyncOwners := x.resyncOwners.remove resync
    match x.poolResyncs.get pool with
    | none => (some pool, { x with resyncOwners })
    | some resyncs =>
      let resyncs := resyncs.filter (· ≠ resync)
      (some pool, { x with
        resyncOwners
        poolResyncs := if resyncs = [] then x.poolResyncs.remove pool else x.poolResyncs.insert pool resyncs })

def removePool (pool : PoolInstanceId) (x : AmmOwnershipIndex) : Option PoolOwnershipRemoval × AmmOwnershipIndex :=
  match x.pools.get pool with
  | none => (none, x)
  | some ownership =>
    let resyncs := (x.poolResyncs.get pool).getD []
    (some ⟨ownership, (x.ownerWork.get (.pool pool)).getD ∅, resyncs⟩,
      unindexResources ownership pool { x with
        pools := x.pools.remove pool
        activePools :=
          if x.activePools.get pool.key = some pool then x.activePools.remove pool.key else x.activePools
        handlerPools := x.handlerPools.remove ownership.handler
        adapterPools := removeOwner x.adapterPools ownership.adapter pool
        ownerWork := x.ownerWork.remove (.pool pool)
        poolResyncs := x.poolResyncs.remove pool
        resyncOwners := resyncs.foldl (fun m resync => m.remove resync) x.resyncOwners })

def removeDiscovery (owner : DiscoveryOwnerId) (x : AmmOwnershipIndex) :
    Option DiscoveryOwnershipRemoval × AmmOwnershipIndex :=
  match x.discovery.get owner with
  | none => (none, x)
  | some ownership =>
    (some ⟨ownership, (x.ownerWork.get (.discovery owner)).getD ∅⟩, { x with
      discovery := x.discovery.remove owner
      activeDiscovery :=
        if x.activeDiscovery.get owner.key = some owner then x.activeDiscovery.remove owner.key
        else x.activeDiscovery
      adapterDiscovery := removeOwner x.adapterDiscovery ownership.adapter owner
      ownerWork := x.ownerWork.remove (.discovery owner) })

def removeAdapterPrevalidated (adapter : AdapterInstanceId) (x : AmmOwnershipIndex) : Bool × AmmOwnershipIndex :=
  if adapter ∉ x.adapters then (false, x)
  else (true, { x with
    adapters := x.adapters.erase adapter
    activeAdapters :=
      if x.activeAdapters.get adapter.key = some adapter then x.activeAdapters.remove adapter.key
      else x.activeAdapters
    ownerWork := x.ownerWork.remove (.adapter adapter) })

def removeAdapter (adapter : AdapterInstanceId) (x : AmmOwnershipIndex) : Outcome Bool :=
  if (x.adapterPools.get adapter).any (· ≠ ∅) ∨ (x.adapterDiscovery.get adapter).any (· ≠ ∅) then
    (.error (.adapterInUse adapter), x)
  else
    let (removed, y) := x.removeAdapterPrevalidated adapter
    (.ok removed, y)

/-- The mutations of the index. -/
inductive Op
  | insertAdapter (adapter : AdapterInstanceId)
  | insertPool (ownership : PoolOwnership)
  | replacePool (ownership : PoolOwnership)
  | insertDiscovery (ownership : DiscoveryOwnership)
  | removePool (pool : PoolInstanceId)
  | removeDiscovery (owner : DiscoveryOwnerId)
  | removeAdapter (adapter : AdapterInstanceId)
  | trackWork (work : RuntimeWorkId)
  | untrackWork (work : RuntimeWorkId)
  | trackResync (pool : PoolInstanceId) (resync : ResyncId)
  | untrackResync (resync : ResyncId)

/-- Run one mutation: the error it returns, if any, and the index it leaves. -/
def step (x : AmmOwnershipIndex) : Op → Option AmmOwnershipError × AmmOwnershipIndex
  | .insertAdapter adapter => failure (insertAdapter adapter x)
  | .insertPool ownership => failure (insertPool ownership x)
  | .replacePool ownership => failure (replacePool ownership x)
  | .insertDiscovery ownership => failure (insertDiscovery ownership x)
  | .removePool pool => (none, (removePool pool x).2)
  | .removeDiscovery owner => (none, (removeDiscovery owner x).2)
  | .removeAdapter adapter => failure (removeAdapter adapter x)
  | .trackWork work => failure (trackWork work x)
  | .untrackWork work => (none, (untrackWork work x).2)
  | .trackResync pool resync => failure (trackResync pool resync x)
  | .untrackResync resync => (none, (untrackResync resync x).2)
where
  failure {α : Type} (r : Outcome α) : Option AmmOwnershipError × AmmOwnershipIndex :=
    (match r.1 with | .error error => some error | .ok _ => none, r.2)

/-- The index after a sequence of mutations, failed ones included. -/
def run (ops : List Op) : AmmOwnershipIndex := ops.foldl (fun x op => (x.step op).2) empty

end AmmOwnershipIndex
end AmmState
