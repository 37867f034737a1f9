import AmmState.Lib.Checked
import AmmState.Lib.Fallible
import AmmState.Types
import Mathlib.Logic.Function.Basic

/-! What the runtime actor publishes (`live_runtime.rs`): state commits with their versions, event numbers and pool
    revisions, the critical channel and its permits, the health and the loss of trust, and the pool generations of the
    engine behind them (`sync_manager.rs`). Every handler that publishes a commit is here with its trust checks, its
    subscriber fence and its failures in the order of the source; what the engine, the subscriber, the cache and the worker
    answer is an argument, and checks that only read and fail are one answer where they stand next to each other.

    A model of `AmmRuntimeActor` has the fields of one concern. Here they are trust and what is published, in
    `Runtime.ColdStart` reservations and scheduled work with the exact errors and counters of queueing, in `Runtime.Repairs`
    the follow-up intents, in `Runtime.PreparedCommits` the storage and the engine under the prepared commits, in
    `Runtime.Reorg` the recent blocks, and in `Provenance` the registration evidence. A handler of several concerns, such as
    `queue_cold_start`, stands in each of these with what it does to the fields there. -/

namespace AmmState.Changes
open Fallible

inductive AmmRuntimeHealth
  | healthy | degraded | untrusted | shuttingDown
  deriving DecidableEq

inductive AmmStateQuality
  | coherent | degraded
  deriving DecidableEq

def runtimeHealth : AmmStateQuality → AmmRuntimeHealth
  | .coherent => .healthy
  | .degraded => .degraded

inductive AmmCanonicalOrigin
  | direct | subscriber
  deriving DecidableEq

inductive AmmRuntimeCommandError
  | untrusted
  | sequenceOverflow
  | interestRevisionExhausted
  | attachedSubscriberOwnsCanonicalInput
  | chainMismatch (expected actual : Nat)
  | interestRevisionMismatch (expected actual : Nat)
  | duplicateCanonicalBlock (current : AmmStatePoint)
  | staleBaseline (expected actual : AmmStatePoint)
  | subscriberAlreadyAttached
  | subscriber (message : String)
  | other (message : String)
  deriving DecidableEq

/-! ### Commits -/

inductive AmmPoolChangeKind
  | added | updated | degraded | recovered | removed
  deriving DecidableEq

structure AmmPoolChange where
  pool : PoolInstanceId
  revision : Nat
  kind : AmmPoolChangeKind
  deriving DecidableEq

/-- The revision of each published pool instance. -/
abbrev PoolRevisionMap := PoolInstanceId → Option Nat

/-- A published snapshot; `Contents` are its cache and registry views. -/
structure AmmStateSnapshot (Contents : Type) where
  version : Nat
  point : AmmStatePoint
  interestRevision : Nat
  contents : Contents
  revisions : PoolRevisionMap

structure AmmChangeSet where
  version : Nat
  point : AmmStatePoint
  quality : AmmStateQuality
  poolChanges : List AmmPoolChange

/-- A change set lists no pool twice (the source also sorts it). -/
def AmmChangeSet.new (version : Nat) (point : AmmStatePoint) (quality : AmmStateQuality)
    (poolChanges : List AmmPoolChange) : Except AmmRuntimeCommandError AmmChangeSet :=
  if (poolChanges.map AmmPoolChange.pool).Nodup then .ok ⟨version, point, quality, poolChanges⟩
  else .error (.other "duplicate AMM change for pool instance")

structure AmmStateCommit (Contents : Type) where
  snapshot : AmmStateSnapshot Contents
  changes : AmmChangeSet

structure AmmRuntimeStatusSnapshot where
  sequence : Nat
  version : Nat
  health : AmmRuntimeHealth
  deriving DecidableEq

/-- A subscription: the snapshot it starts from, and what its channel has taken since. -/
structure AmmChangeSubscription (Contents : Type) where
  snapshot : AmmStateSnapshot Contents
  commits : List (AmmStateCommit Contents)

/-! ### Pool generations -/

/-- The pool generations of the engine: active, reserved, and the last one given out for each key. -/
structure Generations where
  active : PoolKey → Option PoolInstanceId
  reservations : PoolKey → Option PoolInstanceId
  pools : PoolKey → Option Nat

namespace Generations

def nextPool (g : Generations) (key : PoolKey) : Except AmmRuntimeCommandError Nat :=
  match g.pools key with
  | none => .ok 0
  | some generation => if generation + 1 < 2 ^ 64 then .ok (generation + 1) else .error .sequenceOverflow

/-- Take the next generation without making it active. -/
def reservePoolGeneration (g : Generations) (key : PoolKey) : Generations :=
  if (g.active key).isSome ∨ (g.reservations key).isSome then g
  else match g.nextPool key with
    | .error _ => g
    | .ok generation => { g with
        pools := Function.update g.pools key (some generation)
        reservations := Function.update g.reservations key (some ⟨key, generation⟩) }

def cancelPoolReservation (g : Generations) (reservation : PoolInstanceId) : Generations :=
  if g.reservations reservation.key = some reservation then
    { g with reservations := Function.update g.reservations reservation.key none }
  else g

def cancelPoolReservations (g : Generations) (reservations : List PoolInstanceId) : Generations :=
  reservations.foldl cancelPoolReservation g

/-- The instances that an addition would install: fresh generations, or the reserved one. -/
def plan (g : Generations) (pools : List PoolKey) (reservation : Option PoolInstanceId) :
    Except AmmRuntimeCommandError (List PoolInstanceId) :=
  match reservation with
  | some reservation =>
    if pools = [reservation.key] ∧ g.reservations reservation.key = some reservation ∧
        g.active reservation.key = none then .ok [reservation]
    else .error (.other "stale pool reservation")
  | none =>
    if pools.Nodup ∧ ∀ key ∈ pools, g.active key = none ∧ g.reservations key = none then
      pools.mapM fun key => do return ⟨key, ← g.nextPool key⟩
    else .error (.other "duplicate or reserved pool")

def installOne (g : Generations) (pool : PoolInstanceId) : Generations where
  active := Function.update g.active pool.key (some pool)
  reservations := Function.update g.reservations pool.key none
  pools := Function.update g.pools pool.key (some pool.generation)

def install (g : Generations) (pools : List PoolInstanceId) : Generations := pools.foldl installOne g

def remove (g : Generations) (keys : List PoolKey) : Generations :=
  { g with active := fun key => if key ∈ keys then none else g.active key }

end Generations

/-! ### The actor -/

/-- What was published when trust was lost, and whether an event announced the loss. -/
structure Loss (Contents : Type) where
  version : Nat
  point : AmmStatePoint
  snapshots : List (AmmStateSnapshot Contents)
  status : AmmRuntimeStatusSnapshot
  announced : Bool

structure AmmRuntimeActor (Contents : Type) where
  version : Nat
  point : AmmStatePoint
  trusted : Bool
  health : AmmRuntimeHealth
  /-- The status that its watch channel holds. -/
  status : AmmRuntimeStatusSnapshot
  eventSequence : Nat
  interestRevision : Nat
  /-- Whether a block subscriber is attached. -/
  subscriber : Bool
  revisions : PoolRevisionMap
  engine : Generations
  /-- The snapshots that the watch channel has held, the current one last. -/
  snapshots : List (AmmStateSnapshot Contents)
  /-- The subscription that the critical sender belongs to. -/
  critical : Option Nat
  /-- Every subscription that was handed out. -/
  subscriptions : List (AmmChangeSubscription Contents)
  /-- The numbers of the published events. -/
  events : List Nat
  /-- Not a field of the source: every commit that was published, which no handler reads. -/
  commits : List (AmmStateCommit Contents)
  /-- Not a field of the source: a record of the first loss of trust, which no handler reads. -/
  lost : Option (Loss Contents)

abbrev ActorM (Contents α : Type) := Fallible AmmRuntimeCommandError (AmmRuntimeActor Contents) α

section Handlers
variable {Contents : Type}

def requireTrusted : ActorM Contents Unit := do
  let a ← get
  ensure (a.trusted = true) .untrusted

def requireBaseline (baseline : AmmStatePoint) : ActorM Contents Unit := do
  let a ← get
  ensure (baseline = a.point) (.staleBaseline a.point baseline)

/-- The exact generation is the active one. -/
def requireActive (pool : PoolInstanceId) : ActorM Contents Unit := do
  let a ← get
  ensure (a.engine.active pool.key = some pool) (.other "stale pool instance")

/-! ### Numbers -/

def nextEventSequence (count : Nat) : ActorM Contents Nat := do
  let a ← get
  ensure (a.eventSequence + 1 < 2 ^ 64 ∧ a.eventSequence + count < 2 ^ 64) .sequenceOverflow
  return a.eventSequence + 1

def nextCommitIdentity (count : Nat) : ActorM Contents (Nat × Nat) := do
  let a ← get
  ensure (a.version + 1 < 2 ^ 64) .sequenceOverflow
  let firstSequence ← nextEventSequence count
  return (a.version + 1, firstSequence)

def nextInterestRevision (changed : Bool) : ActorM Contents Nat := do
  let a ← get
  if changed then
    ensure (a.interestRevision + 1 < 2 ^ 64) .interestRevisionExhausted
    return a.interestRevision + 1
  else return a.interestRevision

/-- The revision after the published one; a pool without one counts from zero. -/
def PoolRevisionMap.next (revisions : PoolRevisionMap) (pool : PoolInstanceId) : Except AmmRuntimeCommandError Nat :=
  if (revisions pool).getD 0 + 1 < 2 ^ 64 then .ok ((revisions pool).getD 0 + 1) else .error .sequenceOverflow

def nextRevision (pool : PoolInstanceId) : ActorM Contents Nat := do
  let a ← get
  match a.revisions.next pool with
  | .ok revision => return revision
  | .error error => throw error

/-! ### Events -/

/-- Each event takes the next number and republishes the status. -/
def AmmRuntimeActor.announce (a : AmmRuntimeActor Contents) (firstSequence count : Nat) : AmmRuntimeActor Contents :=
  (List.range count).foldl (fun a offset => { a with
    eventSequence := firstSequence + offset
    status := ⟨firstSequence + offset, a.version, a.health⟩
    events := a.events ++ [firstSequence + offset] }) a

def publishRuntimeEvents (count : Nat) : ActorM Contents Unit := do
  if count = 0 then return ()
  let firstSequence ← nextEventSequence count
  modify fun a => a.announce firstSequence count

/-- Trust goes at once. The health follows unless it is untrusted already or no event number is left. -/
def AmmRuntimeActor.loseTrust (a : AmmRuntimeActor Contents) : AmmRuntimeActor Contents :=
  let distrusted :=
    if a.health = .untrusted ∨ 2 ^ 64 ≤ a.eventSequence + 1 then { a with trusted := false }
    else { a with trusted := false, health := .untrusted }.announce (a.eventSequence + 1) 1
  if a.trusted then { distrusted with
    lost := some ⟨a.version, a.point, a.snapshots, distrusted.status, decide (a.eventSequence + 1 < 2 ^ 64)⟩ }
  else distrusted

def markUntrusted : ActorM Contents Unit := modify AmmRuntimeActor.loseTrust

def publishShuttingDown : ActorM Contents Unit := modify fun a =>
  if a.health = .shuttingDown then a
  else if 2 ^ 64 ≤ a.eventSequence + 1 then { a with health := .shuttingDown }
  else { a with health := .shuttingDown }.announce (a.eventSequence + 1) 1

/-! ### The critical channel -/

/-- What the channel answers to a request for capacity. -/
inductive Capacity
  | permit
  | receiverDropped
  | shutdown
  deriving DecidableEq

/-- The permit names the subscription it sends to. -/
def reserveCritical (capacity : Capacity) : ActorM Contents (Option Nat) := do
  let a ← get
  match a.critical, capacity with
  | none, _ => return none
  | some subscription, .permit => return some subscription
  | some _, .receiverDropped => do
    set { a with critical := none }
    return none
  | some _, .shutdown => throw (.other "closed")

/-- `closed` is whether the receiver of the last subscription is gone. -/
def subscribeChanges (closed : Bool) : ActorM Contents Unit := do
  let a ← get
  if a.critical.isSome ∧ closed = false then throw (.other "critical subscriber exists")
  else match a.snapshots.getLast? with
    | none => throw (.other "no snapshot")
    | some snapshot => set { a with
        critical := some a.subscriptions.length
        subscriptions := a.subscriptions ++ [AmmChangeSubscription.mk snapshot []] }

/-- A permit sends to its subscription. -/
def AmmRuntimeActor.send (a : AmmRuntimeActor Contents) (permit : Option Nat) (commit : AmmStateCommit Contents) :
    AmmRuntimeActor Contents :=
  match permit with
  | none => a
  | some subscription => { a with
      subscriptions := a.subscriptions.modify subscription fun s => { s with commits := s.commits ++ [commit] } }

/-- What a commit publishes beside its identity and its pool changes. -/
structure Announcement (Contents : Type) where
  events : Nat
  contents : Contents

def publishCommit (changes : AmmChangeSet) (revisions : PoolRevisionMap) (permit : Option Nat) (firstSequence : Nat)
    (p : Announcement Contents) : ActorM Contents Unit := modify fun a =>
  let snapshot : AmmStateSnapshot Contents := ⟨changes.version, changes.point, a.interestRevision, p.contents, revisions⟩
  let published := { a with
    version := changes.version
    point := changes.point
    revisions
    snapshots := a.snapshots ++ [snapshot]
    health := runtimeHealth changes.quality
    commits := a.commits ++ [AmmStateCommit.mk snapshot changes] }
  (published.send permit ⟨snapshot, changes⟩).announce firstSequence p.events

/-- The change set of a commit at the current point. -/
def changeSet (version : Nat) (quality : AmmStateQuality) (poolChanges : List AmmPoolChange) :
    ActorM Contents AmmChangeSet := do
  let a ← get
  match AmmChangeSet.new version a.point quality poolChanges with
  | .error error => throw error
  | .ok changes => return changes

/-- One event more where the health changes. -/
def AmmRuntimeActor.healthEvents (a : AmmRuntimeActor Contents) (quality : AmmStateQuality) : Nat :=
  if runtimeHealth quality = a.health then 0 else 1

/-! ### Failures and effects -/

def orUntrusted (failure : Option AmmRuntimeCommandError) : ActorM Contents Unit :=
  match failure with
  | none => pure ()
  | some error => do
    markUntrusted
    throw error

/-- What a handler does without publishing a commit. -/
inductive Effect
  | events (count : Nat)
  | untrusted
  | reserve (key : PoolKey)
  | cancel (reservation : PoolInstanceId)
  | fail (error : AmmRuntimeCommandError)
  deriving DecidableEq

def perform : List Effect → ActorM Contents Unit
  | [] => pure ()
  | .events count :: rest => do
    publishRuntimeEvents count
    perform rest
  | .untrusted :: rest => do
    markUntrusted
    perform rest
  | .reserve key :: rest => do
    modify fun a => { a with engine := a.engine.reservePoolGeneration key }
    perform rest
  | .cancel reservation :: rest => do
    modify fun a => { a with engine := a.engine.cancelPoolReservation reservation }
    perform rest
  | .fail error :: _ => throw error

def setInterestRevision (revision : Nat) : ActorM Contents Unit := modify fun a => { a with interestRevision := revision }

def removeFromEngine (keys : List PoolKey) : ActorM Contents Unit := modify fun a =>
  { a with engine := a.engine.remove keys }

/-- `detach_scheduled_work` gives up the reservations of the cancelled work. -/
def detachScheduledWork (reservations : List PoolInstanceId) : ActorM Contents Unit := modify fun a =>
  { a with engine := a.engine.cancelPoolReservations reservations }

/-! ### The subscriber fence -/

/-- Wait for the block subscriber and ingest what arrives meanwhile. -/
def awaitSubscriberFence (needed : Bool) (ingests : ActorM Contents Unit) (answer : Option AmmRuntimeCommandError) :
    ActorM Contents Unit := do
  let a ← get
  if a.subscriber && needed then
    ingests
    check answer

def commitTransaction (needed : Bool) (answer : Option AmmRuntimeCommandError) : ActorM Contents Unit := do
  let a ← get
  if a.subscriber && needed then check answer

/-! ### Removal of one pool -/

structure Removal (Contents : Type) where
  pool : PoolInstanceId
  cancelled : Nat
  begun : Option AmmRuntimeCommandError
  cancelledAfter : Nat
  capacity : Capacity
  transaction : Option AmmRuntimeCommandError
  /-- The engine refuses the removal. -/
  removed : Option AmmRuntimeCommandError
  /-- The registry has no snapshot. -/
  registrySnapshot : Option AmmRuntimeCommandError
  quality : AmmStateQuality
  contents : Contents

def removePoolSerialized (r : Removal Contents) (ingests : ActorM Contents Unit) : ActorM Contents Unit := do
  requireTrusted
  requireActive r.pool
  let _ ← nextInterestRevision true
  let _ ← nextCommitIdentity (3 + r.cancelled)
  let _ ← nextRevision r.pool
  awaitSubscriberFence true ingests r.begun
  requireActive r.pool
  requireTrusted
  let interestRevision ← nextInterestRevision true
  let (version, firstSequence) ← nextCommitIdentity (3 + r.cancelledAfter)
  let removalRevision ← nextRevision r.pool
  let permit ← reserveCritical r.capacity
  commitTransaction true r.transaction
  orUntrusted r.removed
  removeFromEngine [r.pool.key]
  orUntrusted r.registrySnapshot
  let changes ← changeSet version r.quality [⟨r.pool, removalRevision, .removed⟩]
  setInterestRevision interestRevision
  let a ← get
  publishCommit changes (Function.update a.revisions r.pool none) permit firstSequence
    ⟨r.cancelledAfter + 1 + a.healthEvents r.quality + 1, r.contents⟩

/-! ### Canonical batches -/

structure BatchHead (Contents : Type) where
  origin : AmmCanonicalOrigin
  chainId : Nat
  interestRevision : Nat
  number : Nat
  hash : B256
  capacity : Capacity
  /-- The engine fails, reports an error or leaves the cache at another block. -/
  ingested : Option AmmRuntimeCommandError
  /-- The pools that the engine reports as changed. -/
  poolChanges : List (PoolKey × AmmPoolChangeKind)
  /-- The registry has no snapshot. -/
  registrySnapshot : Option AmmRuntimeCommandError
  incidents : Nat
  quality : AmmStateQuality
  contents : Contents
  /-- What follows the commit and its reorg actions: revalidations, factory candidates and repairs. -/
  aftermath : List Effect

mutual

/-- A batch with the actions a reorg asks for after its commit. -/
inductive AmmCanonicalBatch (Contents : Type)
  | mk (head : BatchHead Contents) (reorg : List (ReorgAction Contents))

inductive ReorgAction (Contents : Type)
  | untrusted
  | remove (removal : Removal Contents) (fence : List (AmmCanonicalBatch Contents))

end

/-- The revisions after the reported changes, each for the active generation of its key. -/
def reportedRevisions (engine : Generations) : PoolRevisionMap → List (PoolKey × AmmPoolChangeKind) →
    Except AmmRuntimeCommandError (PoolRevisionMap × List AmmPoolChange)
  | revisions, [] => .ok (revisions, [])
  | revisions, (key, kind) :: rest => do
    let pool ← Checked.orError (engine.active key) (.other "sync report referenced inactive pool")
    let revision ← revisions.next pool
    let (revisions, changes) ← reportedRevisions engine (Function.update revisions pool (some revision)) rest
    return (revisions, ⟨pool, revision, kind⟩ :: changes)

/-- What the publication of a batch needs: the new revisions, the change set, the events and their first number. -/
def batchPublication (a : AmmRuntimeActor Contents) (head : BatchHead Contents) (version : Nat) :
    Except AmmRuntimeCommandError (PoolRevisionMap × AmmChangeSet × Nat) := do
  let (revisions, poolChanges) ← reportedRevisions a.engine a.revisions head.poolChanges
  let changes ← AmmChangeSet.new version ⟨head.chainId, head.number, head.hash⟩ head.quality poolChanges
  match head.registrySnapshot with
  | some error => throw error
  | none =>
    let events := head.incidents + a.healthEvents head.quality + 1
    Checked.ensure (a.eventSequence + 1 < 2 ^ 64 ∧ a.eventSequence + events < 2 ^ 64) .sequenceOverflow
    return (revisions, changes, events)

/-- The commit of a batch; a publication that cannot be built costs the trust. -/
def publishBatch (head : BatchHead Contents) (version : Nat) (permit : Option Nat) : ActorM Contents Unit := do
  let a ← get
  match batchPublication a head version with
  | .error error => orUntrusted (some error)
  | .ok (revisions, changes, events) =>
    publishCommit changes revisions permit (a.eventSequence + 1) ⟨events, head.contents⟩

def ingestHead (head : BatchHead Contents) (reorg : ActorM Contents Unit) : ActorM Contents Unit := do
  requireTrusted
  let a ← get
  ensure (a.subscriber = false ∨ head.origin = .subscriber) .attachedSubscriberOwnsCanonicalInput
  ensure (head.chainId = a.point.chainId) (.chainMismatch a.point.chainId head.chainId)
  ensure (head.interestRevision = a.interestRevision)
    (.interestRevisionMismatch a.interestRevision head.interestRevision)
  ensure (head.number ≠ a.point.blockNumber ∨ head.hash ≠ a.point.blockHash) (.duplicateCanonicalBlock a.point)
  let permit ← reserveCritical head.capacity
  let (version, _) ← nextCommitIdentity 1
  orUntrusted head.ingested
  publishBatch head version permit
  reorg
  perform head.aftermath

mutual

def ingest : AmmCanonicalBatch Contents → ActorM Contents Unit
  | .mk head reorg => ingestHead head (applyReorg reorg)

def applyReorg : List (ReorgAction Contents) → ActorM Contents Unit
  | [] => pure ()
  | action :: rest => do
    reorgAction action
    applyReorg rest

def reorgAction : ReorgAction Contents → ActorM Contents Unit
  | .untrusted => markUntrusted
  | .remove removal fence => removePoolSerialized removal (handleCanonical fence)

/-- Ingest batches in turn; the error of one goes to its sender. -/
def handleCanonical : List (AmmCanonicalBatch Contents) → ActorM Contents Unit
  | [] => pure ()
  | batch :: rest => do
    ignoring (ingest batch)
    handleCanonical rest

end

def drainReadyCanonical (ready : List (AmmCanonicalBatch Contents)) : ActorM Contents Unit := do
  let a ← get
  if !a.subscriber then handleCanonical ready

/-! ### Adapters -/

structure AdapterAddition (Contents : Type) where
  ready : List (AmmCanonicalBatch Contents)
  capacity : Capacity
  added : Option AmmRuntimeCommandError
  registrySnapshot : Option AmmRuntimeCommandError
  quality : AmmStateQuality
  contents : Contents

def addAdapter (r : AdapterAddition Contents) : ActorM Contents Unit := do
  drainReadyCanonical r.ready
  requireTrusted
  let (version, firstSequence) ← nextCommitIdentity 2
  let permit ← reserveCritical r.capacity
  check r.added
  orUntrusted r.registrySnapshot
  let changes ← changeSet version r.quality []
  let a ← get
  publishCommit changes a.revisions permit firstSequence ⟨2, r.contents⟩

structure AdapterRemoval (Contents : Type) where
  ready : List (AmmCanonicalBatch Contents)
  stale : Option AmmRuntimeCommandError
  cancelled : Nat
  capacity : Capacity
  removed : Option AmmRuntimeCommandError
  /-- Another generation was removed. -/
  lifecycle : Option AmmRuntimeCommandError
  /-- The reservations of the cancelled work. -/
  detached : List PoolInstanceId
  registrySnapshot : Option AmmRuntimeCommandError
  quality : AmmStateQuality
  contents : Contents

def removeAdapter (r : AdapterRemoval Contents) : ActorM Contents Unit := do
  drainReadyCanonical r.ready
  requireTrusted
  check r.stale
  let (version, firstSequence) ← nextCommitIdentity (2 + r.cancelled)
  let permit ← reserveCritical r.capacity
  check r.removed
  orUntrusted r.lifecycle
  detachScheduledWork r.detached
  orUntrusted r.registrySnapshot
  let changes ← changeSet version r.quality []
  let a ← get
  publishCommit changes a.revisions permit firstSequence ⟨r.cancelled + 2, r.contents⟩

structure AdapterCascade (Contents : Type) where
  ready : List (AmmCanonicalBatch Contents)
  stale : Option AmmRuntimeCommandError
  /-- The pools of the adapter. -/
  pools : List PoolInstanceId
  discoveryOwners : Nat
  cancelled : Nat
  fence : List (AmmCanonicalBatch Contents)
  begun : Option AmmRuntimeCommandError
  /-- Another adapter is active behind the fence, or other discovery owners are. -/
  staleAfter : Option AmmRuntimeCommandError
  cancelledAfter : Nat
  capacity : Capacity
  transaction : Option AmmRuntimeCommandError
  /-- The watchers cannot be detached, or the engine refuses the cascade. -/
  removed : Option AmmRuntimeCommandError
  detached : List PoolInstanceId
  registrySnapshot : Option AmmRuntimeCommandError
  quality : AmmStateQuality
  contents : Contents

/-- The active pools among those of an adapter. -/
def Generations.poolsForAdapter (g : Generations) (pools : List PoolInstanceId) : List PoolInstanceId :=
  pools.filter fun pool => g.active pool.key = some pool

/-- The next revision of each pool. -/
def nextRevisions (pools : List PoolInstanceId) : ActorM Contents (List AmmPoolChange) := do
  let a ← get
  match pools.mapM (fun pool => (a.revisions.next pool).map fun revision => AmmPoolChange.mk pool revision .removed) with
  | .ok changes => return changes
  | .error error => throw error

def removeAdapterCascade (r : AdapterCascade Contents) : ActorM Contents Unit := do
  drainReadyCanonical r.ready
  requireTrusted
  check r.stale
  let a ← get
  let pools := a.engine.poolsForAdapter r.pools
  let owners := decide (pools ≠ []) || decide (r.discoveryOwners ≠ 0)
  let _ ← nextCommitIdentity (pools.length + r.discoveryOwners + r.cancelled + 3)
  let _ ← nextInterestRevision owners
  let _ ← nextRevisions pools
  awaitSubscriberFence owners (handleCanonical r.fence) r.begun
  requireTrusted
  check r.staleAfter
  let a ← get
  ensure (a.engine.poolsForAdapter r.pools = pools) (.other "canonical backlog")
  let removals ← nextRevisions pools
  let interestRevision ← nextInterestRevision owners
  let (version, firstSequence) ← nextCommitIdentity (pools.length + r.discoveryOwners + r.cancelledAfter + 3)
  let permit ← reserveCritical r.capacity
  commitTransaction owners r.transaction
  orUntrusted r.removed
  removeFromEngine (pools.map PoolInstanceId.key)
  detachScheduledWork r.detached
  orUntrusted r.registrySnapshot
  let changes ← changeSet version r.quality removals
  setInterestRevision interestRevision
  let a ← get
  publishCommit changes (fun pool => if pool ∈ pools then none else a.revisions pool) permit firstSequence
    ⟨r.cancelledAfter + pools.length + r.discoveryOwners + 1 + a.healthEvents r.quality + 1, r.contents⟩

/-! ### Factory watchers -/

structure WatcherAddition (Contents : Type) where
  ready : List (AmmCanonicalBatch Contents)
  /-- The owner is registered, the adapter is stale, there are no creation sources or no generation. -/
  refused : Option AmmRuntimeCommandError
  fence : List (AmmCanonicalBatch Contents)
  begun : Option AmmRuntimeCommandError
  capacity : Capacity
  inserted : Option AmmRuntimeCommandError
  transaction : Option AmmRuntimeCommandError
  quality : AmmStateQuality
  contents : Contents

/-- The only fenced handler that does not ask for trust again behind its fence. -/
def addFactoryWatcher (r : WatcherAddition Contents) : ActorM Contents Unit := do
  drainReadyCanonical r.ready
  requireTrusted
  check r.refused
  let _ ← nextInterestRevision true
  let _ ← nextCommitIdentity 2
  awaitSubscriberFence true (handleCanonical r.fence) r.begun
  let interestRevision ← nextInterestRevision true
  let (version, firstSequence) ← nextCommitIdentity 2
  let permit ← reserveCritical r.capacity
  check r.inserted
  let a ← get
  orUntrusted (if a.subscriber then r.transaction else none)
  setInterestRevision interestRevision
  let changes ← changeSet version r.quality []
  let a ← get
  publishCommit changes a.revisions permit firstSequence ⟨2, r.contents⟩

structure WatcherRemoval (Contents : Type) where
  ready : List (AmmCanonicalBatch Contents)
  refused : Option AmmRuntimeCommandError
  cancelled : Nat
  fence : List (AmmCanonicalBatch Contents)
  begun : Option AmmRuntimeCommandError
  refusedAfter : Option AmmRuntimeCommandError
  cancelledAfter : Nat
  capacity : Capacity
  transaction : Option AmmRuntimeCommandError
  removed : Option AmmRuntimeCommandError
  detached : List PoolInstanceId
  quality : AmmStateQuality
  contents : Contents

def removeFactoryWatcher (r : WatcherRemoval Contents) : ActorM Contents Unit := do
  drainReadyCanonical r.ready
  requireTrusted
  check r.refused
  let _ ← nextInterestRevision true
  let _ ← nextCommitIdentity (2 + r.cancelled)
  awaitSubscriberFence true (handleCanonical r.fence) r.begun
  requireTrusted
  check r.refusedAfter
  let interestRevision ← nextInterestRevision true
  let (version, firstSequence) ← nextCommitIdentity (2 + r.cancelledAfter)
  let permit ← reserveCritical r.capacity
  commitTransaction true r.transaction
  orUntrusted r.removed
  detachScheduledWork r.detached
  setInterestRevision interestRevision
  let changes ← changeSet version r.quality []
  let a ← get
  publishCommit changes a.revisions permit firstSequence ⟨r.cancelledAfter + 2, r.contents⟩

/-! ### Pools -/

/-- What a rollback of additions meets: the engine removes the pools, the subscriber aborts its transaction. -/
structure Rollback where
  removed : Bool
  aborted : Bool

structure PoolInstall (Contents : Type) where
  ready : List (AmmCanonicalBatch Contents)
  baseline : AmmStatePoint
  pools : List PoolKey
  reservation : Option PoolInstanceId
  /-- A pool that is not ready or already scheduled, or prepared state that does not validate. -/
  invalid : Option AmmRuntimeCommandError
  fence : List (AmmCanonicalBatch Contents)
  begun : Option AmmRuntimeCommandError
  invalidAfter : Option AmmRuntimeCommandError
  capacity : Capacity
  /-- The engine refuses the addition. -/
  added : Option AmmRuntimeCommandError
  /-- Live delivery or the registry snapshot fails. -/
  published : Option AmmRuntimeCommandError
  rollback : Rollback
  transaction : Option AmmRuntimeCommandError
  accounts : Option AmmRuntimeCommandError
  liveTransitions : Nat
  quality : AmmStateQuality
  contents : Contents

def planPools (pools : List PoolKey) (reservation : Option PoolInstanceId) : ActorM Contents (List PoolInstanceId) := do
  let a ← get
  match a.engine.plan pools reservation with
  | .ok instances => return instances
  | .error error => throw error

/-- Take the additions back; an incomplete rollback costs the trust. -/
def rollbackAddedPools (pools : List PoolKey) (r : Rollback) : ActorM Contents Unit := do
  removeFromEngine (if r.removed then pools else [])
  if r.removed = false ∨ r.aborted = false then markUntrusted

/-- A failure after which the additions are taken back; some failures cost the trust besides. -/
def orRollback (failure : Option AmmRuntimeCommandError) (distrust : Bool) (pools : List PoolKey) (r : Rollback) :
    ActorM Contents Unit :=
  match failure with
  | none => pure ()
  | some error => do
    rollbackAddedPools pools r
    if distrust then markUntrusted
    throw error

def installPreparedPools (r : PoolInstall Contents) : ActorM Contents Unit := do
  drainReadyCanonical r.ready
  requireTrusted
  requireBaseline r.baseline
  check r.invalid
  let _ ← nextInterestRevision (decide (r.pools ≠ []))
  let _ ← nextCommitIdentity (r.pools.length * 2 + 2)
  let expected ← planPools r.pools r.reservation
  awaitSubscriberFence true (handleCanonical r.fence) r.begun
  requireTrusted
  requireBaseline r.baseline
  check r.invalidAfter
  let interestRevision ← nextInterestRevision (decide (r.pools ≠ []))
  let (version, firstSequence) ← nextCommitIdentity (r.pools.length * 2 + 2)
  let permit ← reserveCritical r.capacity
  let instances ← planPools r.pools r.reservation
  check r.added
  modify fun a => { a with engine := a.engine.install instances }
  orRollback (if instances = expected then none else
    some (.other "prepared pool generations changed behind the subscriber fence")) true r.pools r.rollback
  orRollback r.published false r.pools r.rollback
  let changes ← changeSet version r.quality (instances.map fun pool => ⟨pool, 0, .added⟩)
  let a ← get
  orRollback (if a.subscriber then r.transaction else none) true r.pools r.rollback
  setInterestRevision interestRevision
  orUntrusted r.accounts
  let a ← get
  publishCommit changes (fun pool => if pool ∈ instances then some 0 else a.revisions pool) permit firstSequence
    ⟨instances.length + r.liveTransitions + a.healthEvents r.quality + 1, r.contents⟩

structure PoolRemoval (Contents : Type) where
  ready : List (AmmCanonicalBatch Contents)
  removal : Removal Contents
  fence : List (AmmCanonicalBatch Contents)

def removePool (r : PoolRemoval Contents) : ActorM Contents Unit := do
  drainReadyCanonical r.ready
  removePoolSerialized r.removal (handleCanonical r.fence)

/-! ### Scheduled work -/

structure ScheduledPool (Contents : Type) where
  stale : Option AmmRuntimeCommandError
  install : PoolInstall Contents
  aftermath : List Effect

def commitScheduledPool (r : ScheduledPool Contents) : ActorM Contents Unit := do
  check r.stale
  let _ ← nextEventSequence 7
  installPreparedPools r.install
  perform r.aftermath

structure ScheduledDiscovery (Contents : Type) where
  stale : Option AmmRuntimeCommandError
  /-- What completes the work, up to a removal of the revalidated pool. -/
  completed : List Effect
  removal : Option (Removal Contents × List (AmmCanonicalBatch Contents))
  aftermath : List Effect

def commitScheduledDiscovery (r : ScheduledDiscovery Contents) : ActorM Contents Unit := do
  check r.stale
  perform r.completed
  match r.removal with
  | none => perform r.aftermath
  | some (removal, fence) => do
    removePoolSerialized removal (handleCanonical fence)
    perform r.aftermath

structure ScheduledRefresh (Contents : Type) where
  pool : PoolInstanceId
  unknown : Option AmmRuntimeCommandError
  baseline : AmmStatePoint
  /-- Stale work, prepared state that does not validate, or a refresh the engine refuses. -/
  invalid : Option AmmRuntimeCommandError
  repair : Bool
  interestsChanged : Bool
  fence : List (AmmCanonicalBatch Contents)
  begun : Option AmmRuntimeCommandError
  staleAfter : Option AmmRuntimeCommandError
  capacity : Capacity
  transaction : Option AmmRuntimeCommandError
  refreshed : Option AmmRuntimeCommandError
  accounts : Option AmmRuntimeCommandError
  registrySnapshot : Option AmmRuntimeCommandError
  expectedQuality : AmmStateQuality
  quality : AmmStateQuality
  contents : Contents
  aftermath : List Effect

def commitScheduledRefresh (r : ScheduledRefresh Contents) : ActorM Contents Unit := do
  check r.unknown
  requireBaseline r.baseline
  requireActive r.pool
  check r.invalid
  let interestRevision ← nextInterestRevision r.interestsChanged
  awaitSubscriberFence r.interestsChanged (handleCanonical r.fence) r.begun
  requireTrusted
  requireBaseline r.baseline
  requireActive r.pool
  check r.staleAfter
  let revision ← nextRevision r.pool
  let a ← get
  let events := 1 + r.repair.toNat + a.healthEvents r.expectedQuality
  let (version, firstSequence) ← nextCommitIdentity events
  let permit ← reserveCritical r.capacity
  commitTransaction r.interestsChanged r.transaction
  orUntrusted r.refreshed
  setInterestRevision interestRevision
  orUntrusted r.accounts
  check r.registrySnapshot
  let changes ← changeSet version r.quality [⟨r.pool, revision, if r.repair then .recovered else .updated⟩]
  let a ← get
  publishCommit changes (Function.update a.revisions r.pool (some revision)) permit firstSequence ⟨events, r.contents⟩
  perform r.aftermath

structure SlotPatch (Contents : Type) where
  pool : PoolInstanceId
  /-- No such follow-up work, or no slot patch. -/
  unknown : Option AmmRuntimeCommandError
  baseline : AmmStatePoint
  /-- Stale work, or storage that is not the declared slots of the pool. -/
  invalid : Option AmmRuntimeCommandError
  repair : Bool
  capacity : Capacity
  /-- The refresh of a repaired pool. -/
  refreshed : Option AmmRuntimeCommandError
  registrySnapshot : Option AmmRuntimeCommandError
  expectedQuality : AmmStateQuality
  quality : AmmStateQuality
  contents : Contents
  aftermath : List Effect

/-- The only publishing handler that never asks for trust. -/
def commitScheduledSlotPatch (r : SlotPatch Contents) : ActorM Contents Unit := do
  check r.unknown
  requireBaseline r.baseline
  requireActive r.pool
  check r.invalid
  let a ← get
  let events := 1 + r.repair.toNat + a.healthEvents r.expectedQuality
  let (version, firstSequence) ← nextCommitIdentity events
  let permit ← reserveCritical r.capacity
  check r.refreshed
  let revision ← nextRevision r.pool
  check r.registrySnapshot
  let changes ← changeSet version r.quality [⟨r.pool, revision, if r.repair then .recovered else .updated⟩]
  let a ← get
  publishCommit changes (Function.update a.revisions r.pool (some revision)) permit firstSequence ⟨events, r.contents⟩
  perform r.aftermath

/-! ### Commands -/

structure SubscriberAttachment where
  plans : Option AmmRuntimeCommandError
  instances : Nat
  adopted : Option AmmRuntimeCommandError
  live : Option AmmRuntimeCommandError
  transitions : Nat

def attachSubscriber (r : SubscriberAttachment) : ActorM Contents Unit := do
  requireTrusted
  let a ← get
  ensure (a.subscriber = false) .subscriberAlreadyAttached
  check r.plans
  let _ ← nextEventSequence r.instances
  check r.adopted
  orUntrusted r.live
  modify fun a => { a with subscriber := true }
  publishRuntimeEvents r.transitions

/-- A preview of unconfirmed blocks publishes no commit; it may publish runtime events. -/
def ingestPreconfirmation (effects : List Effect) : ActorM Contents Unit := do
  requireTrusted
  perform effects

inductive AmmRuntimeCommand (Contents : Type)
  | canonical (batch : AmmCanonicalBatch Contents)
  | ingestPreconfirmation (effects : List Effect)
  | addAdapter (r : AdapterAddition Contents)
  | removeAdapter (r : AdapterRemoval Contents)
  | removeAdapterCascade (r : AdapterCascade Contents)
  | addFactoryWatcher (r : WatcherAddition Contents)
  | removeFactoryWatcher (r : WatcherRemoval Contents)
  /-- Also the commit of a prepared pool. -/
  | installPreparedPools (r : PoolInstall Contents)
  | removePool (r : PoolRemoval Contents)
  | commitScheduledPool (r : ScheduledPool Contents)
  | commitScheduledDiscovery (r : ScheduledDiscovery Contents)
  /-- A refused refresh or slot patch may be superseded: more runtime events. -/
  | commitScheduledRefresh (r : ScheduledRefresh Contents) (superseded : List Effect)
  | commitScheduledSlotPatch (r : SlotPatch Contents) (superseded : List Effect)
  | attachSubscriber (r : SubscriberAttachment)
  | subscribeChanges (closed : Bool)
  | reportSubscriberFailure
  /-- The other commands that publish no commit: queueing, progress, failure and cancellation of work, attaching the
      worker, flushing, invalidating a preview. -/
  | work (effects : List Effect)
  | shutdown

/-- A failed repair commit goes through `resolve_repair_commit`. -/
def resolveRepairCommit (commit : ActorM Contents Unit) (superseded : List Effect) : ActorM Contents Unit :=
  tryCatch commit fun error => do
    perform superseded
    throw error

def handle : AmmRuntimeCommand Contents → ActorM Contents Unit
  | .canonical batch => ingest batch
  | .ingestPreconfirmation effects => ingestPreconfirmation effects
  | .addAdapter r => addAdapter r
  | .removeAdapter r => removeAdapter r
  | .removeAdapterCascade r => removeAdapterCascade r
  | .addFactoryWatcher r => addFactoryWatcher r
  | .removeFactoryWatcher r => removeFactoryWatcher r
  | .installPreparedPools r => installPreparedPools r
  | .removePool r => removePool r
  | .commitScheduledPool r => commitScheduledPool r
  | .commitScheduledDiscovery r => commitScheduledDiscovery r
  | .commitScheduledRefresh r superseded => resolveRepairCommit (commitScheduledRefresh r) superseded
  | .commitScheduledSlotPatch r superseded => resolveRepairCommit (commitScheduledSlotPatch r) superseded
  | .attachSubscriber r => attachSubscriber r
  | .subscribeChanges closed => subscribeChanges closed
  | .reportSubscriberFailure => markUntrusted
  | .work effects => perform effects
  | .shutdown => publishShuttingDown

/-- A failed command keeps what it did. -/
def AmmRuntimeActor.step (a : AmmRuntimeActor Contents) (command : AmmRuntimeCommand Contents) :
    AmmRuntimeActor Contents := (handle command).exec a

def AmmRuntimeActor.run (a : AmmRuntimeActor Contents) (commands : List (AmmRuntimeCommand Contents)) :
    AmmRuntimeActor Contents := commands.foldl AmmRuntimeActor.step a

/-- The actor as it is spawned: the pools of the registry are active in their first generation and published at revision
    zero, with nobody subscribed. -/
def spawn (point : AmmStatePoint) (health : AmmRuntimeHealth) (pools : List PoolKey) (contents : Contents) :
    AmmRuntimeActor Contents :=
  let active (key : PoolKey) : Option PoolInstanceId := if key ∈ pools then some ⟨key, 0⟩ else none
  let revisions (pool : PoolInstanceId) : Option Nat := if pool.key ∈ pools ∧ pool.generation = 0 then some 0 else none
  { version := 0
    point
    trusted := true
    health
    status := ⟨0, 0, health⟩
    eventSequence := 0
    interestRevision := 0
    subscriber := false
    revisions
    engine := ⟨active, fun _ => none, fun key => if key ∈ pools then some 0 else none⟩
    snapshots := [⟨0, point, 0, contents, revisions⟩]
    critical := none
    subscriptions := []
    events := []
    commits := []
    lost := none }

end Handlers

end AmmState.Changes
