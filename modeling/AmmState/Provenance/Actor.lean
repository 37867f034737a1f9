import AmmState.Lib.Map
import AmmState.Lib.Table
import AmmState.Lib.SortDedup
import AmmState.PriorityQueue
import AmmState.Provenance.Evidence
import AmmState.Registration

/-! Registration evidence in the runtime actor (`live_runtime.rs`, `runtime.rs`): why a pool is registered, and what becomes
    of that reason. A creation log or a discovery report yields a candidate, a candidate becomes scheduled work, and work
    becomes an active pool; evidence is merged where several sources name one pool, split when a watcher goes away, and
    reconsidered when a reorg drops the blocks that it was seen on.

    The state is what the handlers of candidates, scheduled pools, discovery work and revalidations read and write, with the
    pools, the adapters, the discovery owners and the reservations that the engine has active. What the engine, the worker
    and the subscriber answer is an argument of each operation. A handler that waits at a subscriber fence is suspended
    there, since canonical batches are ingested meanwhile; the part of a handler before its fence appears where it keeps a
    value across the fence. Sequence numbers, events, follow-up work and the contents of the cache are left out. -/

namespace AmmState.Provenance
open SortDedup

/-! ### The actor -/

structure TokenEdgeDiscoveryRequest where
  token : Address
  connectors : List Address
  protocol : Option ProtocolId
  deriving DecidableEq

/-- The requests that revalidate a pool, by their owner. -/
abbrev Revalidations := Table DiscoveryOwnerId TokenEdgeDiscoveryRequest

structure AmmFactoryCandidate where
  owner : DiscoveryOwnerId
  registration : PoolRegistration
  evidence : RegistrationEvidenceSet
  revalidate : Option TokenEdgeDiscoveryRequest

structure AmmScheduledPoolWork where
  reservation : PoolInstanceId
  registration : PoolRegistration
  adapter : AdapterInstanceId
  discoveryOwner : Option DiscoveryOwnerId
  supportingDiscovery : Finset DiscoveryOwnerId
  evidence : RegistrationEvidenceSet
  revalidations : Revalidations
  cls : AmmWorkClass

/-- Both candidates are of one owner for one pool. -/
def AmmFactoryCandidate.sameAs (candidate pending : AmmFactoryCandidate) : Bool :=
  pending.owner = candidate.owner && pending.registration.key = candidate.registration.key

/-- Merge a candidate into scheduled work of its pool. -/
def AmmScheduledPoolWork.support (scheduled : AmmScheduledPoolWork) (candidate : AmmFactoryCandidate) :
    AmmScheduledPoolWork :=
  { scheduled with
    evidence := scheduled.evidence.merge candidate.evidence
    supportingDiscovery := insert candidate.owner scheduled.supportingDiscovery
    discoveryOwner := scheduled.discoveryOwner.or (some candidate.owner)
    revalidations := match candidate.revalidate with
      | some request => scheduled.revalidations.set candidate.owner request
      | none => scheduled.revalidations }

/-- Hand the work that was queued for a candidate over to it. -/
def AmmScheduledPoolWork.adopt (scheduled : AmmScheduledPoolWork) (candidate : AmmFactoryCandidate) :
    AmmScheduledPoolWork :=
  { scheduled with
    discoveryOwner := some candidate.owner
    supportingDiscovery := insert candidate.owner scheduled.supportingDiscovery
    evidence := candidate.evidence
    revalidations := match candidate.revalidate with
      | some request => scheduled.revalidations.set candidate.owner request
      | none => scheduled.revalidations }

structure AmmScheduledDiscoveryWork where
  owner : DiscoveryOwnerId
  request : TokenEdgeDiscoveryRequest
  baseline : AmmStatePoint
  cls : AmmWorkClass
  maxCandidates : Option Nat
  revalidatePool : Option PoolInstanceId

structure AmmDiscoveryOptions where
  cls : AmmWorkClass
  maxCandidates : Option Nat

/-- `AmmDiscoveryOptions::default()`. -/
def AmmDiscoveryOptions.default : AmmDiscoveryOptions := ⟨.focused, none⟩

def AmmDiscoveryOptions.withClass (options : AmmDiscoveryOptions) (cls : AmmWorkClass) : AmmDiscoveryOptions :=
  { options with cls }

structure AmmRuntimeActor where
  trusted : Bool
  point : AmmStatePoint
  coldStartWorker : Bool
  /-- The active adapter families. -/
  adapters : List AdapterInstanceId
  /-- The active pools of the ownership index, which are those of the registry. -/
  activePools : Map PoolKey PoolInstanceId
  activeDiscovery : Map DiscoveryOwnerKey DiscoveryOwnerId
  reservations : Map PoolKey PoolInstanceId
  generations : Map PoolKey Nat
  discoveryGenerations : Map DiscoveryOwnerKey Nat
  /-- The adapter that each live watcher is registered for. -/
  factoryWatchers : Map DiscoveryOwnerId AdapterInstanceId
  scheduledWork : Table RuntimeWorkId AmmScheduledPoolWork
  scheduledDiscovery : Table RuntimeWorkId AmmScheduledDiscoveryWork
  pendingPoolWork : Map PoolKey RuntimeWorkId
  registrationEvidence : Table PoolInstanceId RegistrationEvidenceSet
  registrationRevalidation : Table PoolInstanceId Revalidations
  pendingRevalidations : Table (PoolInstanceId × DiscoveryOwnerId) TokenEdgeDiscoveryRequest
  pendingFactoryCandidates : List AmmFactoryCandidate
  nextWorkId : Nat

/-- Pending candidates that the actor holds at most. -/
def MAX_PENDING_FACTORY_CANDIDATES : Nat := 4096

/-- What decides a queueing call beyond the state of the actor: the job is taken, the worker refuses it, or another check
    fails. -/
inductive QueueAnswer
  | accepts | refuses | fails
  deriving DecidableEq

/-- How a queueing call fails: without a worker, at the worker, or for another reason. -/
inductive QueueError
  | coldStartWorkerUnavailable | coldStartWorker | other
  deriving DecidableEq

namespace AmmRuntimeActor

def markUntrusted (a : AmmRuntimeActor) : AmmRuntimeActor := { a with trusted := false }

def isActivePool (a : AmmRuntimeActor) (pool : PoolInstanceId) : Bool := a.activePools.get pool.key = some pool

def isActiveDiscovery (a : AmmRuntimeActor) (owner : DiscoveryOwnerId) : Bool :=
  a.activeDiscovery.get owner.key = some owner

/-- The adapter family that serves a protocol. -/
def adapterFor (a : AmmRuntimeActor) (protocol : ProtocolId) : Option AdapterInstanceId :=
  a.adapters.find? (protocol ∈ ·.key.protocols)

def activeAdapter (a : AmmRuntimeActor) (key : AdapterKey) : Option AdapterInstanceId := a.adapters.find? (·.key = key)

/-- The protocols of a live watcher. -/
def watcherProtocols (a : AmmRuntimeActor) (owner : DiscoveryOwnerId) : Option (List ProtocolId) :=
  (a.factoryWatchers.get owner).map (·.key.protocols)

/-! ### Candidates -/

/-- Add evidence to an active pool. -/
def supportPool (a : AmmRuntimeActor) (pool : PoolInstanceId) (evidence : RegistrationEvidenceSet) : AmmRuntimeActor :=
  { a with
    registrationEvidence := a.registrationEvidence.set pool
      (match a.registrationEvidence.get pool with
        | some present => present.merge evidence
        | none => evidence) }

/-- Have a source check a pool again after a reorg. -/
def setRevalidation (a : AmmRuntimeActor) (pool : PoolInstanceId) (owner : DiscoveryOwnerId)
    (request : TokenEdgeDiscoveryRequest) : AmmRuntimeActor :=
  { a with
    registrationRevalidation := a.registrationRevalidation.set pool
      (((a.registrationRevalidation.get pool).getD .empty).set owner request) }

/-- Merge a candidate into the first pending one of its owner and pool. -/
def mergeCandidate (candidate : AmmFactoryCandidate) : List AmmFactoryCandidate → List AmmFactoryCandidate
  | [] => []
  | pending :: rest =>
    if candidate.sameAs pending
    then { pending with
        evidence := pending.evidence.merge candidate.evidence
        revalidate := pending.revalidate.or candidate.revalidate } :: rest
    else pending :: mergeCandidate candidate rest

def retainFactoryCandidate (a : AmmRuntimeActor) (candidate : AmmFactoryCandidate) : AmmRuntimeActor :=
  match a.activePools.get candidate.registration.key with
  | some pool =>
    let a := a.supportPool pool candidate.evidence
    match candidate.revalidate with
    | some request => a.setRevalidation pool candidate.owner request
    | none => a
  | none =>
    if a.pendingFactoryCandidates.any candidate.sameAs then
      { a with pendingFactoryCandidates := mergeCandidate candidate a.pendingFactoryCandidates }
    else if a.pendingFactoryCandidates.length < MAX_PENDING_FACTORY_CANDIDATES then
      { a with pendingFactoryCandidates := a.pendingFactoryCandidates ++ [candidate] }
    else a.markUntrusted

/-! ### Queueing pools -/

/-- Reserve the next generation of a pool. -/
def reserve (a : AmmRuntimeActor) (key : PoolKey) : PoolInstanceId × AmmRuntimeActor :=
  let pool : PoolInstanceId := ⟨key, (a.generations.get key).elim 0 (· + 1)⟩
  (pool, { a with
    generations := a.generations.insert key pool.generation
    reservations := a.reservations.insert key pool })

def cancelPoolReservation (a : AmmRuntimeActor) (pool : PoolInstanceId) : AmmRuntimeActor :=
  if a.reservations.get pool.key = some pool then { a with reservations := a.reservations.remove pool.key } else a

/-- Record the work of a reserved pool. -/
def schedule (a : AmmRuntimeActor) (registration : PoolRegistration) (adapter : AdapterInstanceId) (pool : PoolInstanceId)
    (cls : AmmWorkClass) : AmmRuntimeActor :=
  let work : RuntimeWorkId := ⟨.pool pool, a.nextWorkId⟩
  { a with
    nextWorkId := a.nextWorkId + 1
    pendingPoolWork := a.pendingPoolWork.insert registration.key work
    scheduledWork := a.scheduledWork.set work {
      reservation := pool
      registration, adapter, cls
      discoveryOwner := none
      supportingDiscovery := ∅
      evidence := .one (.stable "runtime.queue")
      revalidations := .empty } }

/-- Queue one pool, with the answer that it gets. A job that the worker refuses has used up a generation. -/
def queueOne (a : AmmRuntimeActor) (registration : PoolRegistration) (cls : AmmWorkClass) (answer : QueueAnswer) :
    Except QueueError RuntimeWorkId × AmmRuntimeActor :=
  if !a.trusted then (.error .other, a)
  else if !a.coldStartWorker then (.error .coldStartWorkerUnavailable, a)
  else if a.pendingPoolWork.contains registration.key || a.activePools.contains registration.key ||
    a.reservations.contains registration.key then (.error .other, a)
  else match a.adapterFor registration.protocol, answer with
    | none, _ | _, .fails => (.error .other, a)
    | some _, .refuses =>
      let (pool, a) := a.reserve registration.key
      (.error .coldStartWorker, a.cancelPoolReservation pool)
    | some adapter, .accepts =>
      let (pool, a) := a.reserve registration.key
      (.ok ⟨.pool pool, a.nextWorkId⟩, a.schedule registration adapter pool cls)

/-- `queue_cold_start` for the pools of a client; its errors and counters are in `ColdStart`. Its loop reserves them in
    turn and schedules them all, or gives their reservations up where one is reserved already or the worker refuses the
    jobs. -/
def queueColdStart (a : AmmRuntimeActor) (pools : List PoolRegistration) (cls : AmmWorkClass) (answer : QueueAnswer) :
    AmmRuntimeActor :=
  let served := pools.takeWhile fun pool => (a.adapterFor pool.protocol).isSome
  if !a.trusted || !a.coldStartWorker || answer = .fails || decide (¬(pools.map (·.key)).Nodup) ||
      pools.any (fun pool => a.pendingPoolWork.contains pool.key || a.activePools.contains pool.key) then a
  else if served.any (a.reservations.contains ·.key) then
    (served.takeWhile fun pool => !a.reservations.contains pool.key).foldl
      (fun a pool => (a.queueOne pool cls .refuses).2) a
  -- A pool without an adapter ends the loop at once: the pools before it stay reserved.
  else if served.length < pools.length then served.foldl (fun a pool => (a.reserve pool.key).2) a
  else pools.foldl (fun a pool => (a.queueOne pool cls answer).2) a

/-- Rewrite an entry of the scheduled pool work. -/
def modifyWork (a : AmmRuntimeActor) (work : RuntimeWorkId) (f : AmmScheduledPoolWork → AmmScheduledPoolWork) :
    AmmRuntimeActor :=
  match a.scheduledWork.get work with
  | some scheduled => { a with scheduledWork := a.scheduledWork.set work (f scheduled) }
  | none => a

/-- The scheduled work of a pool. -/
def pendingWork (a : AmmRuntimeActor) (key : PoolKey) : Option RuntimeWorkId :=
  (a.pendingPoolWork.get key).filter fun work => (a.scheduledWork.get work).isSome

/-- One candidate of the queue: it joins the work of its pool, waits, is dropped, or is queued. `false` ends the loop. -/
def drainCandidate (a : AmmRuntimeActor) (candidate : AmmFactoryCandidate) (answer : QueueAnswer) :
    Bool × AmmRuntimeActor :=
  match a.pendingWork candidate.registration.key with
  | some work => (true, a.modifyWork work (·.support candidate))
  | none =>
    if !a.coldStartWorker then
      (false, { a with pendingFactoryCandidates := candidate :: a.pendingFactoryCandidates })
    else if !a.isActiveDiscovery candidate.owner || a.activePools.contains candidate.registration.key then (true, a)
    else match a.queueOne candidate.registration .focused answer with
      | (.ok work, a) => (true, a.modifyWork work (·.adopt candidate))
      | (.error .other, a) => (true, a)
      | (.error _, a) => (false, { a with pendingFactoryCandidates := candidate :: a.pendingFactoryCandidates })

/-- The loop over the pending candidates, with the answers to its queueing calls. -/
def drainLoop : Nat → AmmRuntimeActor → (Nat → QueueAnswer) → AmmRuntimeActor
  | 0, a, _ => a
  | attempts + 1, a, answers =>
    match a.pendingFactoryCandidates with
    | [] => a
    | candidate :: rest =>
      match { a with pendingFactoryCandidates := rest }.drainCandidate candidate (answers attempts) with
      | (true, a) => drainLoop attempts a answers
      | (false, a) => a

def drainFactoryCandidates (a : AmmRuntimeActor) (answers : Nat → QueueAnswer) : AmmRuntimeActor :=
  drainLoop a.pendingFactoryCandidates.length a answers

/-! ### Discovery work -/

/-- Queue a discovery request, with the answer that it gets. -/
def queueDiscovery (a : AmmRuntimeActor) (owner : DiscoveryOwnerId) (request : TokenEdgeDiscoveryRequest)
    (options : AmmDiscoveryOptions) (answer : QueueAnswer) : Except QueueError RuntimeWorkId × AmmRuntimeActor :=
  if !a.trusted then (.error .other, a)
  else if !a.coldStartWorker then (.error .coldStartWorkerUnavailable, a)
  else if !a.isActiveDiscovery owner then (.error .other, a)
  else match a.watcherProtocols owner, answer with
    | none, _ => (.error .other, a)
    | some protocols, answer =>
      if request.protocol.any (· ∉ protocols) then (.error .coldStartWorker, a)
      else match answer with
        | .fails => (.error .other, a)
        | .refuses => (.error .coldStartWorker, a)
        | .accepts =>
          let work : RuntimeWorkId := ⟨.discovery owner, a.nextWorkId⟩
          (.ok work, { a with
            nextWorkId := a.nextWorkId + 1
            scheduledDiscovery := a.scheduledDiscovery.set work {
              owner, request
              baseline := a.point
              cls := options.cls
              maxCandidates := options.maxCandidates
              revalidatePool := none } })

/-- Have scheduled discovery work revalidate a pool. -/
def setRevalidatePool (a : AmmRuntimeActor) (work : RuntimeWorkId) (pool : PoolInstanceId) : AmmRuntimeActor :=
  match a.scheduledDiscovery.get work with
  | some scheduled => { a with
      scheduledDiscovery := a.scheduledDiscovery.set work { scheduled with revalidatePool := some pool } }
  | none => a

def dropRevalidation (a : AmmRuntimeActor) (pool : PoolInstanceId) (owner : DiscoveryOwnerId) : AmmRuntimeActor :=
  { a with pendingRevalidations := a.pendingRevalidations.remove (pool, owner) }

/-- The loop over the pending revalidations, with the answers to its queueing calls. -/
def revalidationLoop : List (Sigma fun _ : PoolInstanceId × DiscoveryOwnerId => TokenEdgeDiscoveryRequest) →
    AmmRuntimeActor → (Nat → QueueAnswer) → AmmRuntimeActor
  | [], a, _ => a
  | ⟨(pool, owner), request⟩ :: rest, a, answers =>
    if !a.isActivePool pool then revalidationLoop rest (a.dropRevalidation pool owner) answers
    else if !a.isActiveDiscovery owner then a.markUntrusted
    else match a.queueDiscovery owner request (AmmDiscoveryOptions.default.withClass .repair) (answers rest.length) with
      | (.ok work, a) => revalidationLoop rest ((a.setRevalidatePool work pool).dropRevalidation pool owner) answers
      | (.error .other, a) => a.markUntrusted
      | (.error _, a) => a

def drainRevalidations (a : AmmRuntimeActor) (answers : Nat → QueueAnswer) : AmmRuntimeActor :=
  if a.coldStartWorker then revalidationLoop a.pendingRevalidations.entries a answers else a

end AmmRuntimeActor

/-- The answers to the queueing calls of the two loops. -/
structure Answers where
  candidates : Nat → QueueAnswer
  revalidations : Nat → QueueAnswer

structure DiscoveredPool where
  key : PoolKey
  registration : PoolRegistration

structure TokenEdgeDiscoveryReport where
  request : TokenEdgeDiscoveryRequest
  discovered : List DiscoveredPool

/-- The registrations that a report yields: consistent ones of the watcher's protocols, the first of each key. -/
def TokenEdgeDiscoveryReport.registrations (report : TokenEdgeDiscoveryReport) (protocols : List ProtocolId) :
    List PoolRegistration :=
  (report.discovered.foldl (fun (acc : List PoolKey × List PoolRegistration) discovered =>
    if discovered.registration.protocol ∈ protocols ∧ discovered.key = discovered.registration.key ∧ discovered.key ∉ acc.1
    then (discovered.key :: acc.1, acc.2 ++ [discovered.registration])
    else acc) ([], [])).2

/-- The registrations that a report admits under a bound: the first ones in the order of their keys. -/
def TokenEdgeDiscoveryReport.admitted (report : TokenEdgeDiscoveryReport) (protocols : List ProtocolId) :
    Option Nat → List PoolRegistration
  | none => report.registrations protocols
  | some maxCandidates => (sortBy (·.key.rank) (report.registrations protocols)).take maxCandidates

/-- The report finds a pool again. -/
def TokenEdgeDiscoveryReport.finds (report : TokenEdgeDiscoveryReport) (protocols : List ProtocolId)
    (key : PoolKey) : Bool :=
  report.discovered.any fun discovered => decide (discovered.key = key) && decide (discovered.registration.key = key) &&
    decide (discovered.registration.protocol ∈ protocols)

/-- The evidence of a discovery report at a point. -/
def queryEvidence (owner : DiscoveryOwnerId) (point : AmmStatePoint) : RegistrationProvenance :=
  .stateQuery owner point.chainId point.blockNumber point.blockHash .revalidateOnReorg

namespace AmmRuntimeActor

def removeDiscoveryWork (a : AmmRuntimeActor) (work : RuntimeWorkId) : AmmRuntimeActor :=
  { a with scheduledDiscovery := a.scheduledDiscovery.remove work }

/-- A revalidation has found the pool: the query replaces the earlier ones of its owner. -/
def confirmPool (a : AmmRuntimeActor) (pool : PoolInstanceId) (owner : DiscoveryOwnerId)
    (request : TokenEdgeDiscoveryRequest) : AmmRuntimeActor :=
  let retained := match a.registrationEvidence.get pool with
    | some set => set.evidence.filter (·.querySource ≠ some owner)
    | none => ∅
  let a := { a with
    registrationEvidence := a.registrationEvidence.set pool (.new (queryEvidence owner a.point) retained) }
  a.setRevalidation pool owner request

/-- Forget the revalidation requests of an owner for a pool. -/
def dropRequest (a : AmmRuntimeActor) (pool : PoolInstanceId) (owner : DiscoveryOwnerId) : AmmRuntimeActor :=
  match a.registrationRevalidation.get pool with
  | none => a
  | some requests =>
    let requests := requests.remove owner
    { a with
      registrationRevalidation :=
        if requests.entries.isEmpty then a.registrationRevalidation.remove pool
        else a.registrationRevalidation.set pool requests }

/-- The candidate of one registration of a report. -/
def reportedCandidate (scheduled : AmmScheduledDiscoveryWork) (registration : PoolRegistration) : AmmFactoryCandidate :=
  ⟨scheduled.owner, registration, .one (queryEvidence scheduled.owner scheduled.baseline), some scheduled.request⟩

/-- The work, its report and the watcher are those that the completion may commit. -/
def acceptsReport (a : AmmRuntimeActor) (scheduled : AmmScheduledDiscoveryWork) (owner : DiscoveryOwnerId)
    (report : TokenEdgeDiscoveryReport) : Bool :=
  decide (scheduled.baseline = a.point) && decide (scheduled.owner = owner) &&
    decide (report.request = scheduled.request) && a.isActiveDiscovery owner

/-- The completion of a revalidation. A pool that is not found loses the evidence of the owner, and is to be removed if it
    has no other. -/
def commitRevalidation (a : AmmRuntimeActor) (pool : PoolInstanceId) (scheduled : AmmScheduledDiscoveryWork) (found : Bool)
    (answers : Answers) : AmmRuntimeActor × Option PoolInstanceId :=
  if found then ((a.confirmPool pool scheduled.owner scheduled.request).drainRevalidations answers.revalidations, none)
  else if !a.isActivePool pool then (a.drainRevalidations answers.revalidations, none)
  else
    let a := a.dropRequest pool scheduled.owner
    match (a.registrationEvidence.get pool).bind (·.withoutOwner scheduled.owner) with
    | some retained => ({ a with registrationEvidence := a.registrationEvidence.set pool retained }.drainRevalidations
        answers.revalidations, none)
    | none => (a, some pool)

/-- `commit_scheduled_discovery`, with the pool that is to be removed behind a fence; `numbered` is whether the completion
    event has a number. Candidates are retained before that is known. -/
def commitScheduledDiscovery (a : AmmRuntimeActor) (work : RuntimeWorkId) (owner : DiscoveryOwnerId)
    (report : TokenEdgeDiscoveryReport) (numbered : Bool) (answers : Answers) : AmmRuntimeActor × Option PoolInstanceId :=
  match a.scheduledDiscovery.get work with
  | none => (a, none)
  | some scheduled =>
    if !a.acceptsReport scheduled owner report then (a, none)
    else match a.watcherProtocols owner with
    | none => (a, none)
    | some protocols =>
      match scheduled.revalidatePool with
      | some pool =>
        if !numbered then (a, none)
        else (a.removeDiscoveryWork work).commitRevalidation pool scheduled (report.finds protocols pool.key) answers
      | none =>
        let a := (report.admitted protocols scheduled.maxCandidates).foldl
          (fun a registration => a.retainFactoryCandidate (reportedCandidate scheduled registration)) a
        if !numbered then (a, none)
        else (((a.removeDiscoveryWork work).drainFactoryCandidates answers.candidates).drainRevalidations
          answers.revalidations, none)

end AmmRuntimeActor
end AmmState.Provenance
