import AmmState.Lib.Fallible
import AmmState.Recovery
import AmmState.Runtime.Changes
import AmmState.Runtime.Repairs
import AmmState.Subscription
import AmmState.SyncEngine
import Mathlib.Data.Finset.Union

/-! The commits that take over prepared state (`install_prepared_pools`, `commit_scheduled_refresh` and
    `commit_scheduled_slot_patch` of `live_runtime.rs`): the storage of the cache, the engine, the revisions and the
    published commits, with every check, rollback and early return in the order of the source. What the block subscriber,
    the worker's account patch and the critical channel answer is an argument, and so are the actors that a subscriber fence
    and a drain of the ready batches leave, since both ingest canonical batches. The account patch is nothing but its answer
    here. -/

namespace AmmState.PreparedCommits
open Fallible SyncManager SortDedup
open Changes (AmmRuntimeHealth AmmStateQuality runtimeHealth)
open Repairs (AmmWorkKind AmmFollowUpTask AmmScheduledFollowUpWork DeferredWork)

/-! ### The registry snapshot -/

inductive AdapterRegistrySnapshotError
  | registryPoolMissingOwnership (pool : PoolKey)
  | ownershipPoolMissingRegistry (pool : PoolInstanceId)
  | registryPoolMissingAdapter (pool : PoolKey)
  | ownershipPoolMissingAdapter (pool : PoolInstanceId)
  | poolAdapterMismatch (pool : PoolInstanceId) (registry : AdapterKey) (ownership : AdapterInstanceId)
  | registryAdapterMissingOwnership (adapter : AdapterKey)
  /-- The adapters of an index come in no order here, so the error does not name one. -/
  | ownershipAdapterMissingRegistry

/-- A view of the registry with the generations of its members. -/
structure AdapterRegistrySnapshot where
  registry : AdapterRegistry
  activePools : Map PoolKey PoolInstanceId
  activeAdapters : Map AdapterKey AdapterInstanceId

/-- The pool instances of an index, each under its adapter. -/
def ownedInstances (ownership : AmmOwnershipIndex) : Finset PoolInstanceId :=
  ownership.adapters.biUnion fun adapter => (ownership.adapterPools.get adapter).getD ∅

/-- The adapter of a registered pool is the active one of its family. -/
def checkPoolAdapter (registry : AdapterRegistry) (ownership : AmmOwnershipIndex) (pool : PoolRegistration) :
    Except AdapterRegistrySnapshotError Unit := do
  let adapter ← Checked.orError (registry.adapter pool.protocol) (.registryPoolMissingAdapter pool.key)
  let active ← Checked.orError (ownership.activePools.get pool.key) (.registryPoolMissingOwnership pool.key)
  let owned ← Checked.orError ((ownership.pools.get active).map (·.adapter)) (.ownershipPoolMissingAdapter active)
  Checked.ensure (owned.key = adapter.key ∧ ownership.activeAdapters.get adapter.key = some owned)
    (.poolAdapterMismatch active adapter.key owned)

/-- `AdapterRegistrySnapshot::try_new`. -/
def tryNew (registry : AdapterRegistry) (ownership : AmmOwnershipIndex) :
    Except AdapterRegistrySnapshotError AdapterRegistrySnapshot := do
  let pools := sortBy (·.key.rank) registry.pools
  pools.forM fun pool =>
    Checked.ensure ((ownership.activePools.get pool.key).isSome = true) (.registryPoolMissingOwnership pool.key)
  (sorted PoolInstanceId.rank_injective (ownedInstances ownership)).forM fun pool =>
    Checked.ensure ((registry.pool pool.key).isSome = true) (.ownershipPoolMissingRegistry pool)
  pools.forM (checkPoolAdapter registry ownership)
  (families registry).forM fun key =>
    Checked.ensure ((ownership.activeAdapters.get key).isSome = true) (.registryAdapterMissingOwnership key)
  Checked.ensure (∀ adapter ∈ ownership.adapters, adapter.key ∈ families registry) .ownershipAdapterMissingRegistry
  return ⟨registry, ownership.activePools, ownership.activeAdapters⟩

/-! ### The actor -/

structure AmmPreparedStorage where
  cell : StateSlot
  value : U256
  deriving DecidableEq

inductive AmmPoolChangeKind
  | added | updated | recovered
  deriving DecidableEq

structure AmmPoolChange where
  pool : PoolInstanceId
  revision : Nat
  kind : AmmPoolChangeKind
  deriving DecidableEq

/-- A published commit with the views that its snapshot holds. -/
structure AmmStateCommit where
  version : Nat
  point : AmmStatePoint
  storage : Map StateSlot U256
  registry : AdapterRegistrySnapshot
  revisions : Map PoolInstanceId Nat
  poolChanges : List AmmPoolChange

inductive AmmRuntimeCommandError
  | untrusted
  | closed
  | staleBaseline (expected actual : AmmStatePoint)
  | staleWork (work : RuntimeWorkId)
  | poolNotReady (pool : PoolKey)
  | poolAlreadyScheduled (pool : PoolKey)
  | unverifiablePreparedState (pool : PoolKey) (wholeAccounts : Nat)
  | missingPreparedState (pool : PoolKey) (missing : List StateSlot)
  | unexpectedPreparedState (cell : StateSlot)
  | interestRevisionExhausted
  | sequenceOverflow
  | duplicateChange (pool : PoolInstanceId)
  | coldStartWorker (message : String)
  | untrustedBatch (message : String)
  | subscriber (message : String)
  | sync (error : AmmSyncError)
  | registrySnapshot (error : AdapterRegistrySnapshotError)

structure AmmRuntimeActor where
  trusted : Bool
  point : AmmStatePoint
  health : AmmRuntimeHealth
  version : Nat
  eventSequence : Nat
  interestRevision : Nat
  engine : AmmSyncEngine
  /-- The storage of the cache. -/
  storage : Map StateSlot U256
  revisions : Map PoolInstanceId Nat
  /-- Whether a block subscriber is attached. -/
  subscriber : Bool
  scheduledFollowups : Map RuntimeWorkId AmmScheduledFollowUpWork
  pendingPoolFollowup : Map PoolInstanceId RuntimeWorkId
  pendingPoolWork : Map PoolKey RuntimeWorkId
  /-- Every commit that was published, the last one last. -/
  commits : List AmmStateCommit

abbrev ActorM (α : Type) := Fallible AmmRuntimeCommandError AmmRuntimeActor α

/-- What the world answers while a commit runs. -/
structure World where
  /-- How a subscriber fence ends, and the actor as it leaves it. -/
  fence : Option AmmRuntimeCommandError × AmmRuntimeActor
  /-- The actor behind the canonical batches that are ready when an install begins. -/
  drained : AmmRuntimeActor
  /-- The checks of the account patch, before the fence and after it. -/
  accounts : Option AmmRuntimeCommandError
  accountsAfter : Option AmmRuntimeCommandError
  /-- Capacity of the critical channel. -/
  critical : Option AmmRuntimeCommandError
  /-- The commit of the subscriber transaction, and its abort. -/
  transaction : Option AmmRuntimeCommandError
  aborted : Bool
  /-- Applying the account patch. -/
  applied : Option AmmRuntimeCommandError

def requireTrusted : ActorM Unit := do
  let a ← get
  ensure (a.trusted = true) .untrusted

def requireBaseline (baseline : AmmStatePoint) : ActorM Unit := do
  let a ← get
  ensure (baseline = a.point) (.staleBaseline a.point baseline)

def nextEventSequence (count : Nat) : ActorM Nat := do
  let a ← get
  ensure (a.eventSequence + 1 < 2 ^ 64 ∧ a.eventSequence + count < 2 ^ 64) .sequenceOverflow
  return a.eventSequence + 1

def nextCommitIdentity (count : Nat) : ActorM (Nat × Nat) := do
  let a ← get
  ensure (a.version + 1 < 2 ^ 64) .sequenceOverflow
  let firstSequence ← nextEventSequence count
  return (a.version + 1, firstSequence)

def nextInterestRevision (changed : Bool) : ActorM Nat := do
  let a ← get
  if changed then
    ensure (a.interestRevision + 1 < 2 ^ 64) .interestRevisionExhausted
    return a.interestRevision + 1
  else return a.interestRevision

/-- The next revision of a pool; a pool without one counts from zero. -/
def nextRevision (pool : PoolInstanceId) : ActorM Nat := do
  let a ← get
  ensure ((a.revisions.get pool).getD 0 + 1 < 2 ^ 64) .sequenceOverflow
  return (a.revisions.get pool).getD 0 + 1

def markUntrusted : ActorM Unit := modify fun a =>
  if a.health = .untrusted ∨ 2 ^ 64 ≤ a.eventSequence + 1 then { a with trusted := false }
  else { a with trusted := false, health := .untrusted, eventSequence := a.eventSequence + 1 }

def orUntrusted (failure : Option AmmRuntimeCommandError) : ActorM Unit :=
  match failure with
  | none => pure ()
  | some error => do
    markUntrusted
    throw error

def publishRuntimeEvents (count : Nat) : ActorM Unit := do
  if count = 0 then return ()
  let _ ← nextEventSequence count
  modify fun a => { a with eventSequence := a.eventSequence + count }

/-- A result that does not change the state. -/
def lift {α : Type} (x : Except AmmRuntimeCommandError α) : ActorM α := liftM x

/-- Run an operation of the engine: it leaves its engine also where it fails. -/
def onEngine {α : Type} (operation : AmmSyncEngine → Outcome α) : ActorM (Except AmmSyncError α) := do
  let a ← get
  set { a with engine := (operation a.engine).2 }
  return (operation a.engine).1

/-- Wait for the block subscriber, if one is attached and needed. -/
def awaitSubscriberFence (w : World) (needed : Bool) : ActorM Unit := do
  let a ← get
  if a.subscriber && needed then
    set w.fence.2
    check w.fence.1

/-- `drain_ready_canonical`, which an install calls where no subscriber is attached. -/
def drainReadyCanonical (w : World) : ActorM Unit := do
  let a ← get
  unless a.subscriber do set w.drained

/-! ### Prepared storage -/

/-! The cache is a map from cells to values. Its operations are those of the cache library: a write enters a value whatever
    was there, and a purge forgets the cell, whose next read is then a miss. -/

/-- Write one value into the storage. -/
def write (storage : Map StateSlot U256) (entry : AmmPreparedStorage) : Map StateSlot U256 :=
  storage.insert entry.cell entry.value

/-- Write the prepared values into the cache; the result says what was there before. -/
def applyPreparedStorage (prepared : List AmmPreparedStorage) : ActorM (List (StateSlot × Option U256)) := do
  let a ← get
  set { a with storage := prepared.foldl write a.storage }
  return prepared.map fun entry => (entry.cell, a.storage.get entry.cell)

def putBack (storage : Map StateSlot U256) (earlier : StateSlot × Option U256) : Map StateSlot U256 :=
  match earlier with
  | (cell, some value) => storage.insert cell value
  | (_, none) => storage

def purge (storage : Map StateSlot U256) (earlier : StateSlot × Option U256) : Map StateSlot U256 :=
  match earlier with
  | (_, some _) => storage
  | (cell, none) => storage.remove cell

/-- Write the earlier values back, and purge the cells that held none. -/
def restorePreparedStorage (rollback : List (StateSlot × Option U256)) : ActorM Unit := modify fun a =>
  { a with storage := rollback.foldl purge (rollback.foldl putBack a.storage) }

/-- The slots of one pool that its prepared storage lacks. -/
def missingSlots (prepared allowedMissing : List StateSlot) (requireArtifact : Bool) (storage : Map StateSlot U256)
    (dependencies : PoolStateDependencies) : List StateSlot :=
  dependencies.slots.filter fun slot => decide (slot ∉ prepared) && decide (slot ∉ allowedMissing) &&
    (requireArtifact || (storage.get slot).isNone)

def checkPoolState (a : AmmRuntimeActor) (prepared allowedMissing : List StateSlot) (requireArtifact : Bool)
    (pool : PoolRegistration) : Except AmmRuntimeCommandError (List StateSlot) := do
  let adapter ← Checked.orError (a.engine.registry.adapter pool.protocol)
    (.sync (.lifecycleInvariant "prepared pool has no active adapter"))
  let dependencies := adapter.stateDependencies pool
  Checked.ensure (dependencies.wholeAccounts = [])
    (.unverifiablePreparedState pool.key dependencies.wholeAccounts.length)
  let missing := missingSlots prepared allowedMissing requireArtifact a.storage dependencies
  Checked.ensure (missing = []) (.missingPreparedState pool.key missing)
  return dependencies.slots

def slotRank (slot : StateSlot) : Nat ×ₗ Nat := toLex (slot.address.toNat, slot.slot.toNat)

/-- `validate_prepared_pool_state`: the prepared storage covers the declared slots of the pools and no others. -/
def validatePreparedPoolState (pools : List PoolRegistration) (storage : List AmmPreparedStorage) (requireArtifact : Bool)
    (allowedMissing : List StateSlot) : ActorM Unit := do
  let a ← get
  let prepared := storage.map (·.cell)
  let declared ← lift (pools.mapM (checkPoolState a prepared allowedMissing requireArtifact))
  match (sortBy slotRank prepared).find? (· ∉ declared.flatten) with
  | some cell => throw (.unexpectedPreparedState cell)
  | none => return ()

/-! ### Publication -/

def registryQuality (engine : AmmSyncEngine) : AmmStateQuality :=
  if 0 < engine.degradedPoolCount then .degraded else .coherent

def hasOtherDegradedPool (engine : AmmSyncEngine) (excluded : PoolKey) : Bool :=
  decide (((engine.registry.pool excluded).any (·.status = .degraded)).toNat < engine.degradedPoolCount)

/-- One event more where the health changes. -/
def AmmRuntimeActor.healthEvents (a : AmmRuntimeActor) (quality : AmmStateQuality) : Nat :=
  if runtimeHealth quality = a.health then 0 else 1

/-- `AmmChangeSet::new`: no pool changes twice. -/
def changeSet (changes : List AmmPoolChange) : Except AmmRuntimeCommandError (List AmmPoolChange) :=
  let ordered := sortBy (fun change : AmmPoolChange => change.pool.rank) changes
  match (ordered.zip ordered.tail).find? fun (change, next) => decide (change.pool = next.pool) with
  | some (change, _) => .error (.duplicateChange change.pool)
  | none => .ok ordered

/-- `registry_snapshot` of the engine as it is. -/
def registrySnapshot (engine : AmmSyncEngine) : Except AmmRuntimeCommandError AdapterRegistrySnapshot :=
  match tryNew engine.registry engine.ownership with
  | .error error => .error (.registrySnapshot error)
  | .ok snapshot => .ok snapshot

def publishCommit (version : Nat) (registry : AdapterRegistrySnapshot) (revisions : Map PoolInstanceId Nat)
    (changes : List AmmPoolChange) (events : Nat) : ActorM Unit := modify fun a =>
  { a with
    version
    revisions
    health := runtimeHealth (registryQuality a.engine)
    eventSequence := a.eventSequence + events
    commits := a.commits ++ [⟨version, a.point, a.storage, registry, revisions, changes⟩] }

/-! ### Prepared pools -/

section
variable (handlerId : PoolInstanceId → HandlerId)

/-- The pools of an install: new ones, or one whose generation was reserved for it. -/
inductive Additions
  | fresh (pools : List PoolRegistration)
  | reserved (reservation : PoolInstanceId) (pool : PoolRegistration)

namespace Additions

def registrations : Additions → List PoolRegistration
  | .fresh pools => pools
  | .reserved _ pool => [pool]

/-- The generations that the pools will get. -/
def preview (engine : AmmSyncEngine) : Additions → Except AmmSyncError (List PoolInstanceId)
  | .fresh pools => do
    let prepared ← engine.preparePoolAdditions handlerId pools
    return prepared.map (·.instance)
  | .reserved reservation pool => do
    let prepared ← engine.prepareReserved handlerId reservation pool
    return [prepared.instance]

/-- Add the pools to the engine. -/
def commit : Additions → AmmSyncEngine → Outcome (List PoolInstanceId)
  | .fresh pools => AmmSyncEngine.addPools handlerId pools
  | .reserved reservation pool => AmmSyncEngine.commitPoolReservation handlerId reservation pool

def isReserved : Additions → Bool
  | .fresh _ => false
  | .reserved _ _ => true

end Additions

structure PoolInstall where
  additions : Additions
  baseline : AmmStatePoint
  storage : List AmmPreparedStorage
  requireArtifact : Bool
  allowedMissing : List StateSlot

/-- Take the additions back; what cannot be taken back costs the trust. -/
def rollbackAddedPools (w : World) (keys : List PoolKey) : ActorM Unit := do
  let removed ← onEngine (AmmSyncEngine.removePools keys)
  let a ← get
  if ¬removed.isOk = true ∨ a.subscriber = true ∧ w.aborted = false then markUntrusted

/-- A failure after which the additions and the storage are taken back; some failures cost the trust besides. -/
def orRollback {α : Type} (w : World) (distrust : Bool) (keys : List PoolKey) (rollback : List (StateSlot × Option U256))
    (answer : Except AmmRuntimeCommandError α) : ActorM α :=
  match answer with
  | .ok value => pure value
  | .error error => do
    rollbackAddedPools w keys
    restorePreparedStorage rollback
    if distrust then markUntrusted
    throw error

/-- The answer of the block subscriber, where one is attached. -/
def whenAttached (attached : Bool) (answer : Option AmmRuntimeCommandError) : Except AmmRuntimeCommandError Unit :=
  match attached, answer with
  | true, some error => .error error
  | _, _ => .ok ()

/-- With a block subscriber attached, its delivery is live from here on. -/
def acknowledgeLive (registered : List PoolInstanceId) : ActorM (Except AmmSyncError (List PoolInstanceId)) := do
  let a ← get
  if a.subscriber then onEngine (AmmSyncEngine.acknowledgeLiveDelivery registered)
  else return .ok []

/-- The part of an install that follows its last check: storage, registration, delivery, publication. -/
def commitPreparedPools (w : World) (r : PoolInstall) (expected : List PoolInstanceId) (interestRevision version : Nat) :
    ActorM Unit := do
  let keys := r.additions.registrations.map (·.key)
  let rollback ← applyPreparedStorage r.storage
  match ← onEngine (r.additions.commit handlerId) with
  | .error error =>
    restorePreparedStorage rollback
    throw (.sync error)
  | .ok registered =>
    orRollback w true keys rollback (if registered = expected then .ok () else
      .error (.untrustedBatch "prepared pool generations changed behind the subscriber fence"))
    let live ← acknowledgeLive registered
    let transitions ← orRollback w false keys rollback (live.mapError .sync)
    let a ← get
    let revisions := registered.foldl (fun revisions pool => revisions.insert pool 0) a.revisions
    let snapshot ← orRollback w false keys rollback (registrySnapshot a.engine)
    let changes ← orRollback w false keys rollback (changeSet (registered.map fun pool => ⟨pool, 0, .added⟩))
    orRollback w true keys rollback (whenAttached a.subscriber w.transaction)
    modify fun a => { a with interestRevision }
    orUntrusted w.applied
    publishCommit version snapshot revisions changes
      (registered.length + transitions.length + a.healthEvents (registryQuality a.engine) + 1)

def installPreparedPools (w : World) (r : PoolInstall) : ActorM Unit := do
  drainReadyCanonical w
  requireTrusted
  requireBaseline r.baseline
  let pools := r.additions.registrations
  check ((pools.find? (·.status ≠ .ready)).map fun pool => .poolNotReady pool.key)
  let a ← get
  check (if r.additions.isReserved then none else
    (pools.find? fun pool => a.pendingPoolWork.contains pool.key).map fun pool => .poolAlreadyScheduled pool.key)
  validatePreparedPoolState pools r.storage r.requireArtifact r.allowedMissing
  check w.accounts
  let _ ← nextInterestRevision (decide (pools ≠ []))
  let _ ← nextCommitIdentity (pools.length * 2 + 2)
  let expected ← lift ((r.additions.preview handlerId a.engine).mapError .sync)
  awaitSubscriberFence w true
  requireTrusted
  requireBaseline r.baseline
  validatePreparedPoolState pools r.storage r.requireArtifact r.allowedMissing
  check w.accountsAfter
  let interestRevision ← nextInterestRevision (decide (pools ≠ []))
  let (version, _) ← nextCommitIdentity (pools.length * 2 + 2)
  check w.critical
  commitPreparedPools handlerId w r expected interestRevision version

/-! ### Follow-up work -/

/-- `finish_followup`; the retained intents of the pool are drained in a step of its own. -/
def finishFollowup (work : RuntimeWorkId) (pool : PoolInstanceId) : ActorM Unit := do
  modify fun a => { a with
    scheduledFollowups := a.scheduledFollowups.remove work
    pendingPoolFollowup := a.pendingPoolFollowup.remove pool
    engine := { a.engine with ownership := (a.engine.ownership.untrackWork work).2 } }
  publishRuntimeEvents 1

/-- The scheduled work, if it is there. -/
def scheduled (work : RuntimeWorkId) : ActorM AmmScheduledFollowUpWork := do
  let a ← get
  lift (Checked.orError (a.scheduledFollowups.get work) (.staleWork work))

/-- The work is the pending one of an active pool. -/
def AmmRuntimeActor.awaits (a : AmmRuntimeActor) (work : RuntimeWorkId) (pool : PoolInstanceId) : Prop :=
  a.pendingPoolFollowup.get pool = some work ∧ a.engine.ownership.activePools.get pool.key = some pool

instance (a : AmmRuntimeActor) (work : RuntimeWorkId) (pool : PoolInstanceId) : Decidable (a.awaits work pool) :=
  inferInstanceAs (Decidable (_ ∧ _))

def isRefresh : AmmFollowUpTask → Bool
  | .refresh _ _ => true
  | .slotPatch _ => false

/-- The slots that deferred work verifies later. -/
def deferredSlots (deferred : List DeferredWork) : List StateSlot :=
  (deferred.flatMap fun
    | .verifySlots slots | .repair (.verifySlots slots) => slots
    | _ => []).map fun (address, slot) => ⟨address, slot⟩

structure ScheduledRefresh where
  work : RuntimeWorkId
  pool : PoolInstanceId
  registration : PoolRegistration
  baseline : AmmStatePoint
  storage : List AmmPreparedStorage
  deferred : List DeferredWork

/-- Whether the event sources of a refreshed pool change. -/
def subscriptionChanged (engine : AmmSyncEngine) (refresh : AmmPreparedPoolRefresh) : Bool :=
  !sameEventSources (engine.registry.eventSourcesFor refresh.previousRegistration) refresh.replacementHandler.sources

/-- The part of a refresh that follows its last check. -/
def commitPreparedRefresh (w : World) (r : ScheduledRefresh) (refresh : AmmPreparedPoolRefresh) (kind : AmmWorkKind)
    (interestRevision version revision events : Nat) : ActorM Unit := do
  let rollback ← applyPreparedStorage r.storage
  match ← onEngine (AmmSyncEngine.commitPoolRefresh refresh) with
  | .error error =>
    restorePreparedStorage rollback
    markUntrusted
    throw (.sync error)
  | .ok _ =>
    modify fun a => { a with interestRevision }
    orUntrusted w.applied
    let a ← get
    let snapshot ← lift (registrySnapshot a.engine)
    let changes ← lift (changeSet [⟨r.pool, revision, if kind = .repair then .recovered else .updated⟩])
    publishCommit version snapshot (a.revisions.insert r.pool revision) changes events
    finishFollowup r.work r.pool

def commitScheduledRefresh (w : World) (r : ScheduledRefresh) : ActorM Unit := do
  let entry ← scheduled r.work
  requireBaseline r.baseline
  let a ← get
  ensure (entry.pool = r.pool ∧ isRefresh entry.task = true ∧ a.awaits r.work r.pool ∧ r.registration.key = r.pool.key)
    (.staleWork r.work)
  validatePreparedPoolState [r.registration] r.storage true (deferredSlots r.deferred)
  check w.accounts
  let refresh ← lift ((a.engine.preparePoolRefresh handlerId r.pool r.registration).mapError .sync)
  ensure (refresh.previousOwnership.handler = refresh.replacementHandler.id)
    (.untrustedBatch "same-generation refresh changed its subscriber owner")
  let changed := subscriptionChanged a.engine refresh
  let interestRevision ← nextInterestRevision changed
  let attached := a.subscriber && changed
  awaitSubscriberFence w changed
  requireTrusted
  let a ← get
  ensure (r.baseline = a.point) (.staleBaseline a.point r.baseline)
  ensure ((a.scheduledFollowups.get r.work).any (fun entry => entry.pool = r.pool && isRefresh entry.task) = true ∧
    a.awaits r.work r.pool) (.staleWork r.work)
  let revision ← nextRevision r.pool
  let quality := if hasOtherDegradedPool a.engine r.pool.key then .degraded else .coherent
  let events := 1 + (decide (entry.kind = .repair)).toNat + a.healthEvents quality
  let (version, _) ← nextCommitIdentity events
  check w.critical
  lift (whenAttached attached w.transaction)
  commitPreparedRefresh w r refresh entry.kind interestRevision version revision events

structure SlotPatch where
  work : RuntimeWorkId
  pool : PoolInstanceId
  baseline : AmmStatePoint
  storage : List AmmPreparedStorage
  /-- The slots of the pool's learned quote reads. -/
  quoteReadSet : List StateSlot

/-- The patch is exactly the storage that its task declares, within what the active adapter reads. -/
def checkSlotPatch (a : AmmRuntimeActor) (r : SlotPatch) (slots : List StateSlot) :
    Except AmmRuntimeCommandError PoolRegistration := do
  let provided := r.storage.map (·.cell)
  Checked.ensure (provided.toFinset = slots.toFinset ∧ provided.Nodup)
    (.coldStartWorker "scheduled slot patch did not exactly cover its declared slots")
  let registration ← Checked.orError (a.engine.registry.pool r.pool.key) (.staleWork r.work)
  let adapter ← Checked.orError (a.engine.registry.adapter registration.protocol) (.staleWork r.work)
  Checked.ensure (∀ cell ∈ provided, cell ∈ (adapter.stateDependencies registration).slots ∨ cell ∈ r.quoteReadSet)
    (.coldStartWorker "scheduled slot patch escaped the active adapter read set")
  return registration

/-- A repaired pool is registered as ready. -/
def repairRegistration (kind : AmmWorkKind) (pool : PoolInstanceId) (registration : PoolRegistration)
    (rollback : List (StateSlot × Option U256)) : ActorM Unit := do
  if kind = .repair then
    let a ← get
    let refresh ← lift ((a.engine.preparePoolRefresh handlerId pool { registration with status := .ready }).mapError .sync)
    match ← onEngine (AmmSyncEngine.commitPoolRefresh refresh) with
    | .error error =>
      restorePreparedStorage rollback
      throw (.sync error)
    | .ok _ => return ()

/-- The part of a slot patch that follows its last check. -/
def commitPreparedPatch (r : SlotPatch) (kind : AmmWorkKind) (registration : PoolRegistration) (version events : Nat) :
    ActorM Unit := do
  let rollback ← applyPreparedStorage r.storage
  repairRegistration handlerId kind r.pool registration rollback
  let revision ← nextRevision r.pool
  let a ← get
  let snapshot ← lift (registrySnapshot a.engine)
  let changes ← lift (changeSet [⟨r.pool, revision, if kind = .repair then .recovered else .updated⟩])
  publishCommit version snapshot (a.revisions.insert r.pool revision) changes events
  finishFollowup r.work r.pool

def commitScheduledSlotPatch (w : World) (r : SlotPatch) : ActorM Unit := do
  let entry ← scheduled r.work
  match entry.task with
  | .refresh _ _ => throw (.staleWork r.work)
  | .slotPatch slots =>
    requireBaseline r.baseline
    let a ← get
    ensure (entry.pool = r.pool ∧ a.awaits r.work r.pool) (.staleWork r.work)
    let registration ← lift (checkSlotPatch a r (slots.map fun (address, slot) => ⟨address, slot⟩))
    let quality := if entry.kind = .repair ∧ hasOtherDegradedPool a.engine r.pool.key = false then .coherent
      else registryQuality a.engine
    let events := 1 + (decide (entry.kind = .repair)).toNat + a.healthEvents quality
    let (version, _) ← nextCommitIdentity events
    check w.critical
    commitPreparedPatch handlerId r entry.kind registration version events

/-! ### Commands -/

inductive PreparedCommit
  | installPreparedPools (r : PoolInstall)
  | commitScheduledRefresh (r : ScheduledRefresh)
  | commitScheduledSlotPatch (r : SlotPatch)

def handle (w : World) : PreparedCommit → ActorM Unit
  | .installPreparedPools r => installPreparedPools handlerId w r
  | .commitScheduledRefresh r => commitScheduledRefresh handlerId w r
  | .commitScheduledSlotPatch r => commitScheduledSlotPatch handlerId w r

end
end AmmState.PreparedCommits
