import AmmState.Lib.Map
import AmmState.PriorityQueue
import AmmState.Types
import Mathlib.Data.Finset.Basic

/-! Cold-start work of the runtime actor (`live_runtime.rs`) and the generation reservations of the sync engine behind it
    (`sync_manager.rs`). A queued pool holds a reservation of its next generation until its work commits, fails or is
    cancelled. The state is what these handlers read and write; every other handler is one step that may change all of it
    but the reservations and the scheduled pool work. -/

namespace AmmState.ColdStart

structure PoolRegistration where
  key : PoolKey
  status : PoolStatus
  deriving DecidableEq

def PoolRegistration.protocol (registration : PoolRegistration) : ProtocolId := registration.key.protocol

/-! ### The engine -/

structure AmmSyncEngine where
  /-- The family key of the adapter that serves a protocol. -/
  adapters : Map ProtocolId AdapterKey
  activeAdapters : Map AdapterKey AdapterInstanceId
  pools : Map PoolKey PoolRegistration
  reservations : Map PoolKey PoolInstanceId
  generations : Map PoolKey Nat
  lifecycles : Map PoolInstanceId PoolRuntimeState

inductive AmmRuntimeCommandError
  | untrusted
  | coldStartWorkerUnavailable
  | sequenceOverflow
  | poolAlreadyScheduled (key : PoolKey)
  | lifecycleInvariant (message : String)
  | duplicatePool (key : PoolKey)
  | poolReservationConflict (instance' : PoolInstanceId)
  | missingAdapter (key : PoolKey)
  | coldStartWorker
  | staleWork (work : RuntimeWorkId)
  | install

namespace AmmSyncEngine

/-- The next generation of a pool; the counter is a `u64`. -/
def nextPool (engine : AmmSyncEngine) (key : PoolKey) : Option Nat :=
  match engine.generations.get key with
  | none => some 0
  | some generation => if generation + 1 < 2 ^ 64 then some (generation + 1) else none

def reservePoolGeneration (engine : AmmSyncEngine) (key : PoolKey) :
    Except AmmRuntimeCommandError (AmmSyncEngine × PoolInstanceId) :=
  if engine.pools.contains key then .error (.duplicatePool key) else
  match engine.reservations.get key with
  | some reserved => .error (.poolReservationConflict reserved)
  | none =>
    if !engine.adapters.contains key.protocol then .error (.missingAdapter key) else
    match engine.nextPool key with
    | none => .error .sequenceOverflow
    | some generation => .ok
        ({ engine with
            generations := engine.generations.insert key generation
            reservations := engine.reservations.insert key ⟨key, generation⟩
            lifecycles := engine.lifecycles.insert ⟨key, generation⟩ .queued }, ⟨key, generation⟩)

def cancelPoolReservation (engine : AmmSyncEngine) (reservation : PoolInstanceId) : AmmSyncEngine :=
  if engine.reservations.get reservation.key ≠ some reservation then engine else
  { engine with
    reservations := engine.reservations.remove reservation.key
    lifecycles := engine.lifecycles.insert reservation .removed }

end AmmSyncEngine

/-! ### The actor -/

inductive RegistrationProvenance
  | stable (source : String)
  | stateQuery (owner : DiscoveryOwnerId) (point : AmmStatePoint)
  | factoryLog (owner : DiscoveryOwnerId) (factory : Address) (point : AmmStatePoint) (transactionHash : B256)
      (logIndex : Nat)
  deriving DecidableEq

structure RegistrationEvidenceSet where
  primary : RegistrationProvenance
  corroborating : List RegistrationProvenance
  deriving DecidableEq

structure AmmScheduledPoolWork where
  reservation : PoolInstanceId
  registration : PoolRegistration
  adapter : AdapterInstanceId
  discoveryOwner : Option DiscoveryOwnerId
  supportingDiscovery : Finset DiscoveryOwnerId
  evidence : RegistrationEvidenceSet
  cls : AmmWorkClass
  queued : Bool

structure AmmScheduledPool where
  pool : PoolInstanceId
  work : RuntimeWorkId
  deriving DecidableEq

structure AmmRuntimeActor where
  trusted : Bool
  /-- Whether a cold-start worker is attached. -/
  coldStartWorker : Bool
  engine : AmmSyncEngine
  scheduledWork : Map RuntimeWorkId AmmScheduledPoolWork
  pendingPoolWork : Map PoolKey RuntimeWorkId
  pendingLifecycles : Map PoolInstanceId PoolRuntimeState
  /-- The completed rounds of each work attempt. -/
  activeWork : Map RuntimeWorkId Nat
  queueDepths : AmmWorkClass → Nat
  nextWorkId : Nat
  eventSequence : Nat

namespace AmmRuntimeActor

/-- Whether the next `count` events still have sequence numbers. -/
def nextEventSequence (a : AmmRuntimeActor) (count : Nat) : Bool :=
  a.eventSequence + 1 < 2 ^ 64 && a.eventSequence + count < 2 ^ 64

/-- Queue depths are a `usize` per class and saturate. -/
def increaseQueueDepth (a : AmmRuntimeActor) (cls : AmmWorkClass) : AmmRuntimeActor :=
  { a with queueDepths := fun c => if c = cls then min (a.queueDepths c + 1) (2 ^ 64 - 1) else a.queueDepths c }

def decreaseQueueDepth (a : AmmRuntimeActor) (cls : AmmWorkClass) : AmmRuntimeActor :=
  { a with queueDepths := fun c => if c = cls then a.queueDepths c - 1 else a.queueDepths c }

/-! ### Queueing -/

structure Accepted where
  reservation : PoolInstanceId
  registration : PoolRegistration
  adapter : AdapterInstanceId
  work : RuntimeWorkId

def cancelAccepted (engine : AmmSyncEngine) (accepted : List Accepted) : AmmSyncEngine :=
  accepted.foldl (fun engine a => engine.cancelPoolReservation a.reservation) engine

/-- Reserve a generation for each pool in turn. A failed reservation and an exhausted work counter cancel what was
    accepted before; a missing adapter returns at once. -/
def accept : List PoolRegistration → AmmSyncEngine → Nat → List Accepted →
    AmmSyncEngine × Except AmmRuntimeCommandError (Nat × List Accepted)
  | [], engine, nextWorkId, accepted => (engine, .ok (nextWorkId, accepted))
  | registration :: rest, engine, nextWorkId, accepted =>
    match engine.adapters.get registration.protocol with
    | none => (engine, .error (.lifecycleInvariant "cold-start registration has no active adapter"))
    | some adapterKey =>
      match engine.activeAdapters.get adapterKey with
      | none => (engine, .error (.lifecycleInvariant "cold-start registration has no active adapter generation"))
      | some adapter =>
        match engine.reservePoolGeneration registration.key with
        | .error error => (cancelAccepted engine accepted, .error error)
        | .ok (engine, reservation) =>
          if nextWorkId + 1 < 2 ^ 64
          then accept rest engine (nextWorkId + 1)
            (accepted ++ [⟨reservation, registration, adapter, ⟨.pool reservation, nextWorkId⟩⟩])
          else (cancelAccepted (engine.cancelPoolReservation reservation) accepted, .error .sequenceOverflow)

/-- Record one accepted pool. -/
def schedule (cls : AmmWorkClass) (a : AmmRuntimeActor) (x : Accepted) : AmmRuntimeActor :=
  { a with
    pendingPoolWork := a.pendingPoolWork.insert x.registration.key x.work
    pendingLifecycles := a.pendingLifecycles.insert x.reservation .queued
    activeWork := a.activeWork.insert x.work 0
    scheduledWork := a.scheduledWork.insert x.work
      { reservation := x.reservation
        registration := x.registration
        adapter := x.adapter
        discoveryOwner := none
        supportingDiscovery := ∅
        evidence := ⟨.stable "runtime.queue", []⟩
        cls := cls
        queued := true } }.increaseQueueDepth cls

/-- The first requested pool that is requested twice, already pending or registered. -/
def alreadyScheduled (a : AmmRuntimeActor) : List PoolRegistration → List PoolKey → Option PoolKey
  | [], _ => none
  | pool :: rest, keys =>
    if pool.key ∈ keys ∨ a.pendingPoolWork.contains pool.key ∨ a.engine.pools.contains pool.key then some pool.key
    else alreadyScheduled a rest (pool.key :: keys)

/-- Reserve for all pools, submit their jobs and record them; `submits` is whether the worker takes the jobs. -/
def reserveAndSubmit (a : AmmRuntimeActor) (pools : List PoolRegistration) (cls : AmmWorkClass) (submits : Bool) :
    AmmRuntimeActor × Except AmmRuntimeCommandError (List AmmScheduledPool) :=
  match accept pools a.engine a.nextWorkId [] with
  | (engine, .error error) => ({ a with engine := engine }, .error error)
  | (engine, .ok (nextWorkId, accepted)) =>
    if !submits then ({ a with engine := cancelAccepted engine accepted }, .error .coldStartWorker) else
    let scheduled := accepted.foldl (schedule cls) { a with engine := engine, nextWorkId := nextWorkId }
    ({ scheduled with eventSequence := a.eventSequence + 2 * accepted.length },
      .ok (accepted.map fun x => ⟨x.reservation, x.work⟩))

def queueColdStart (a : AmmRuntimeActor) (pools : List PoolRegistration) (cls : AmmWorkClass) (submits : Bool) :
    AmmRuntimeActor × Except AmmRuntimeCommandError (List AmmScheduledPool) :=
  if !a.trusted then (a, .error .untrusted) else
  if !a.coldStartWorker then (a, .error .coldStartWorkerUnavailable) else
  if pools = [] then (a, .ok []) else
  if !a.nextEventSequence (pools.length * 2) then (a, .error .sequenceOverflow) else
  match a.alreadyScheduled pools [] with
  | some key => (a, .error (.poolAlreadyScheduled key))
  | none => a.reserveAndSubmit pools cls submits

/-! ### Progress -/

def startScheduledWork (a : AmmRuntimeActor) (work : RuntimeWorkId) :
    AmmRuntimeActor × Except AmmRuntimeCommandError Unit :=
  match a.scheduledWork.get work with
  | none => (a, .error (.staleWork work))
  | some scheduled =>
    if a.pendingLifecycles.get scheduled.reservation ≠ some .queued then (a, .error (.staleWork work)) else
    if !a.nextEventSequence 3 then (a, .error .sequenceOverflow) else
    let started := { a with
      pendingLifecycles := a.pendingLifecycles.insert scheduled.reservation .hydrating
      scheduledWork := a.scheduledWork.insert work { scheduled with queued := false } }.decreaseQueueDepth scheduled.cls
    if (a.activeWork.get work).isNone then (started, .error (.staleWork work)) else
    ({ started with eventSequence := a.eventSequence + 3 }, .ok ())

def reportScheduledRound (a : AmmRuntimeActor) (work : RuntimeWorkId) (round : Nat) (nextRound : Option Nat) :
    AmmRuntimeActor × Except AmmRuntimeCommandError Unit :=
  match a.scheduledWork.get work with
  | none => (a, .error (.staleWork work))
  | some scheduled =>
    if a.pendingLifecycles.get scheduled.reservation ≠ some .hydrating then (a, .error (.staleWork work)) else
    if a.activeWork.get work ≠ some round ∨ nextRound.any (· ≠ min (round + 1) (2 ^ 64 - 1))
    then (a, .error (.staleWork work)) else
    if !a.nextEventSequence 2 ∨ 2 ^ 64 ≤ round + 1 then (a, .error .sequenceOverflow) else
    let progressed := { a with
      activeWork := a.activeWork.insert work (round + 1)
      eventSequence := a.eventSequence + 2 }
    if nextRound.isSome
    then ({ progressed with
        scheduledWork := a.scheduledWork.insert work { scheduled with queued := true } }.increaseQueueDepth scheduled.cls,
      .ok ())
    else (progressed, .ok ())

def beginScheduledRound (a : AmmRuntimeActor) (work : RuntimeWorkId) (round : Nat) :
    AmmRuntimeActor × Except AmmRuntimeCommandError Unit :=
  match a.scheduledWork.get work with
  | none => (a, .error (.staleWork work))
  | some scheduled =>
    if a.pendingLifecycles.get scheduled.reservation ≠ some .hydrating ∨ a.activeWork.get work ≠ some round ∨
      scheduled.queued = false
    then (a, .error (.staleWork work)) else
    if !a.nextEventSequence 1 then (a, .error .sequenceOverflow) else
    ({ a with
        scheduledWork := a.scheduledWork.insert work { scheduled with queued := false }
        eventSequence := a.eventSequence + 1 }.decreaseQueueDepth scheduled.cls, .ok ())

/-! ### Settlement -/

/-- Drop scheduled work and cancel its reservation. -/
def release (a : AmmRuntimeActor) (work : RuntimeWorkId) (scheduled : AmmScheduledPoolWork) : AmmRuntimeActor :=
  let released := { a with
    scheduledWork := a.scheduledWork.remove work
    engine := a.engine.cancelPoolReservation scheduled.reservation
    pendingPoolWork := a.pendingPoolWork.remove scheduled.reservation.key
    activeWork := a.activeWork.remove work }
  if scheduled.queued then released.decreaseQueueDepth scheduled.cls else released

/-- Settle scheduled work without a pool. A failure publishes two events, a cancellation three. -/
def abandon (a : AmmRuntimeActor) (work : RuntimeWorkId) (events : Nat) (state : PoolRuntimeState) :
    AmmRuntimeActor × Except AmmRuntimeCommandError Unit :=
  match a.scheduledWork.get work with
  | none => (a, .error (.staleWork work))
  | some scheduled =>
    if !a.nextEventSequence events then (a, .error .sequenceOverflow) else
    let released := a.release work scheduled
    ({ released with
        pendingLifecycles := released.pendingLifecycles.insert scheduled.reservation state
        eventSequence := a.eventSequence + events }, .ok ())

def failScheduledWork (a : AmmRuntimeActor) (work : RuntimeWorkId) : AmmRuntimeActor × Except AmmRuntimeCommandError Unit :=
  a.abandon work 2 .failed

def cancelScheduledWork (a : AmmRuntimeActor) (work : RuntimeWorkId) :
    AmmRuntimeActor × Except AmmRuntimeCommandError Unit :=
  a.abandon work 3 .removed

def detachScheduledWork (a : AmmRuntimeActor) (work : RuntimeWorkId) : AmmRuntimeActor :=
  if !a.coldStartWorker then a else
  match a.scheduledWork.get work with
  | none => a
  | some scheduled =>
    let released := a.release work scheduled
    { released with pendingLifecycles := released.pendingLifecycles.remove scheduled.reservation }

/-- How `install_prepared_pools` ends for a reserved pool: refused before the engine takes the reservation, rolled back
    after it, left installed by a failed account patch, or installed and published with so many events. -/
inductive InstallOutcome
  | refused
  | rolledBack (trusted : Bool)
  | patchFailed
  | installed (events : Nat)
  deriving DecidableEq

/-- Commit a prepared pool into its reserved generation. -/
def installReserved (a : AmmRuntimeActor) (reservation : PoolInstanceId) (registration : PoolRegistration)
    (outcome : InstallOutcome) : AmmRuntimeActor × Bool :=
  if registration.key ≠ reservation.key ∨ registration.status ≠ .ready ∨
    a.engine.reservations.get reservation.key ≠ some reservation
  then (a, false) else
  let taken := { a.engine with reservations := a.engine.reservations.remove reservation.key }
  let installed := { taken with pools := taken.pools.insert registration.key registration }
  match outcome with
  | .refused => (a, false)
  | .rolledBack trusted => ({ a with engine := taken, trusted := a.trusted && trusted }, false)
  | .patchFailed => ({ a with engine := installed, trusted := false }, false)
  | .installed events =>
    ({ a with
        engine := installed
        pendingLifecycles := a.pendingLifecycles.remove reservation
        eventSequence := a.eventSequence + events }, true)

def commitScheduledPool (a : AmmRuntimeActor) (work : RuntimeWorkId) (pool : PoolInstanceId)
    (registration : PoolRegistration) (activeDiscovery : DiscoveryOwnerId → Bool) (outcome : InstallOutcome) :
    AmmRuntimeActor × Except AmmRuntimeCommandError Unit :=
  match a.scheduledWork.get work with
  | none => (a, .error (.staleWork work))
  | some scheduled =>
    if scheduled.reservation ≠ pool ∨ scheduled.registration.key ≠ registration.key ∨
      a.pendingPoolWork.get registration.key ≠ some work ∨
      a.engine.activeAdapters.get scheduled.adapter.key ≠ some scheduled.adapter ∨
      (scheduled.discoveryOwner.isSome ∧ scheduled.supportingDiscovery = ∅) ∨
      ∃ owner ∈ scheduled.supportingDiscovery, activeDiscovery owner = false
    then (a, .error (.staleWork work)) else
    if !a.nextEventSequence 7 then (a, .error .sequenceOverflow) else
    match a.installReserved scheduled.reservation registration outcome with
    | (a, false) => (a, .error .install)
    | (a, true) =>
      let (a, reported) := if a.activeWork.get work = some 0 then a.reportScheduledRound work 0 none else (a, .ok ())
      match reported with
      | .error error => (a, .error error)
      | .ok _ =>
        ({ a with
            scheduledWork := a.scheduledWork.remove work
            pendingPoolWork := a.pendingPoolWork.remove pool.key
            pendingLifecycles := a.pendingLifecycles.remove pool
            activeWork := a.activeWork.remove work
            eventSequence := a.eventSequence + 1 }, .ok ())

/-- Merge further discovery evidence into scheduled work. -/
def supportScheduledWork (a : AmmRuntimeActor) (work : RuntimeWorkId) (owner : DiscoveryOwnerId)
    (evidence : List RegistrationProvenance) : AmmRuntimeActor :=
  match a.scheduledWork.get work with
  | none => a
  | some scheduled =>
    let supported := { scheduled with
      evidence := { scheduled.evidence with corroborating := scheduled.evidence.corroborating ++ evidence }
      supportingDiscovery := insert owner scheduled.supportingDiscovery
      discoveryOwner := scheduled.discoveryOwner.or (some owner) }
    { a with scheduledWork := a.scheduledWork.insert work supported }

/-! ### Runs -/

/-- What handlers of other work leave behind: anything but reservations and scheduled pool work. Work numbers only grow. -/
structure OtherChange where
  trusted : Bool
  coldStartWorker : Bool
  adapters : Map ProtocolId AdapterKey
  activeAdapters : Map AdapterKey AdapterInstanceId
  pools : Map PoolKey PoolRegistration
  generations : Map PoolKey Nat
  lifecycles : Map PoolInstanceId PoolRuntimeState
  pendingLifecycles : Map PoolInstanceId PoolRuntimeState
  activeWork : Map RuntimeWorkId Nat
  queueDepths : AmmWorkClass → Nat
  usedWorkIds : Nat
  eventSequence : Nat

inductive Event
  | queueColdStart (pools : List PoolRegistration) (cls : AmmWorkClass) (submits : Bool)
  | startScheduledWork (work : RuntimeWorkId)
  | reportScheduledRound (work : RuntimeWorkId) (round : Nat) (nextRound : Option Nat)
  | beginScheduledRound (work : RuntimeWorkId) (round : Nat)
  | failScheduledWork (work : RuntimeWorkId)
  | cancelScheduledWork (work : RuntimeWorkId)
  | detachScheduledWork (work : RuntimeWorkId)
  | commitScheduledPool (work : RuntimeWorkId) (pool : PoolInstanceId) (registration : PoolRegistration)
      (activeDiscovery : DiscoveryOwnerId → Bool) (outcome : InstallOutcome)
  | supportScheduledWork (work : RuntimeWorkId) (owner : DiscoveryOwnerId) (evidence : List RegistrationProvenance)
  | other (change : OtherChange)

def applyOther (a : AmmRuntimeActor) (change : OtherChange) : AmmRuntimeActor :=
  { a with
    trusted := change.trusted
    coldStartWorker := change.coldStartWorker
    engine :=
      { a.engine with
        adapters := change.adapters
        activeAdapters := change.activeAdapters
        pools := change.pools
        generations := change.generations
        lifecycles := change.lifecycles }
    pendingLifecycles := change.pendingLifecycles
    activeWork := change.activeWork
    queueDepths := change.queueDepths
    nextWorkId := a.nextWorkId + change.usedWorkIds
    eventSequence := change.eventSequence }

def step (a : AmmRuntimeActor) : Event → AmmRuntimeActor
  | .queueColdStart pools cls submits => (a.queueColdStart pools cls submits).1
  | .startScheduledWork work => (a.startScheduledWork work).1
  | .reportScheduledRound work round nextRound => (a.reportScheduledRound work round nextRound).1
  | .beginScheduledRound work round => (a.beginScheduledRound work round).1
  | .failScheduledWork work => (a.failScheduledWork work).1
  | .cancelScheduledWork work => (a.cancelScheduledWork work).1
  | .detachScheduledWork work => a.detachScheduledWork work
  | .commitScheduledPool work pool registration activeDiscovery outcome =>
    (a.commitScheduledPool work pool registration activeDiscovery outcome).1
  | .supportScheduledWork work owner evidence => a.supportScheduledWork work owner evidence
  | .other change => a.applyOther change

def run (a : AmmRuntimeActor) (events : List Event) : AmmRuntimeActor := events.foldl step a

end AmmRuntimeActor
end AmmState.ColdStart
