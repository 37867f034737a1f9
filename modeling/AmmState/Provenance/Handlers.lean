import AmmState.Provenance.Actor

/-! The handlers that settle scheduled work, install and remove pools, register and remove watchers and adapters, and
    reconsider evidence after a reorg. -/

namespace AmmState.Provenance
open SortDedup

/-- How an installation ends behind its fence: refused, rolled back after the engine took the pool, broken by the account
    patch, or done, with a first round that may be left to report. -/
inductive InstallAnswer
  | refuses
  | rollsBack (trusted : Bool)
  | patchFails
  | installs (reported : Bool)
  deriving DecidableEq

/-- How a removal ends behind its fence: refused, broken in the engine, broken after it, or done. -/
inductive RemovalAnswer
  | refuses | breaks | distrusts | removes
  deriving DecidableEq

/-- Scheduled pool work without one of its supporters. -/
def AmmScheduledPoolWork.withoutOwner (scheduled : AmmScheduledPoolWork) (owner : DiscoveryOwnerId) :
    AmmScheduledPoolWork :=
  if owner ∉ scheduled.supportingDiscovery then scheduled
  else
    let supportingDiscovery := scheduled.supportingDiscovery.erase owner
    { scheduled with
      supportingDiscovery
      evidence := (scheduled.evidence.withoutOwner owner).getD scheduled.evidence
      discoveryOwner :=
        if scheduled.discoveryOwner = some owner then (sorted DiscoveryOwnerId.rank_injective supportingDiscovery).head?
        else scheduled.discoveryOwner
      revalidations := scheduled.revalidations.remove owner }

/-- The evidence that crosses a reorg, of what may cross it. -/
def crossing (dropped : List B256) (set : RegistrationEvidenceSet) : Option RegistrationEvidenceSet :=
  if set.reorgAction dropped ≠ .keep then none else set.withoutDroppedHashes dropped

/-- A pending candidate after a reorg. -/
def reconcileCandidate (dropped : List B256) (candidate : AmmFactoryCandidate) : Option AmmFactoryCandidate :=
  if candidate.evidence.reorgAction dropped ≠ .keep then none
  else (candidate.evidence.withoutDroppedHashes dropped).map fun evidence => { candidate with
    evidence
    revalidate := if evidence.containsStateQueryOwner candidate.owner then candidate.revalidate else none }

/-- Scheduled work whose evidence crosses a reorg. -/
def AmmScheduledPoolWork.reconcile (scheduled : AmmScheduledPoolWork) (evidence : RegistrationEvidenceSet) :
    AmmScheduledPoolWork :=
  let supportingDiscovery := scheduled.supportingDiscovery.filter (evidence.containsOwner · = true)
  { scheduled with
    evidence, supportingDiscovery
    revalidations := scheduled.revalidations.filter fun owner _ => evidence.containsStateQueryOwner owner
    discoveryOwner :=
      if scheduled.discoveryOwner.any (· ∉ supportingDiscovery) then
        (sorted DiscoveryOwnerId.rank_injective supportingDiscovery).head?
      else scheduled.discoveryOwner }

namespace AmmRuntimeActor

/-! ### Settling scheduled work -/

/-- Drop scheduled pool work with its reservation. -/
def release (a : AmmRuntimeActor) (work : RuntimeWorkId) (scheduled : AmmScheduledPoolWork) : AmmRuntimeActor :=
  let a := { a with
    scheduledWork := a.scheduledWork.remove work
    pendingPoolWork := a.pendingPoolWork.remove scheduled.reservation.key }
  a.cancelPoolReservation scheduled.reservation

/-- `detach_scheduled_work`, which does nothing without a worker. -/
def detachScheduledWork (a : AmmRuntimeActor) (work : RuntimeWorkId) : AmmRuntimeActor :=
  if !a.coldStartWorker then a
  else match a.scheduledWork.get work with
    | some scheduled => a.release work scheduled
    | none => a.removeDiscoveryWork work

/-- The candidate that a failed attempt goes on as: the first active one of its supporting owners stands for all of its
    evidence. -/
def retryCandidate (a : AmmRuntimeActor) (scheduled : AmmScheduledPoolWork) : Option AmmFactoryCandidate :=
  ((sorted DiscoveryOwnerId.rank_injective scheduled.supportingDiscovery).find? (a.isActiveDiscovery ·)).map fun owner =>
    ⟨owner, scheduled.registration, scheduled.evidence, scheduled.revalidations.get owner⟩

/-- `fail_scheduled_work` for discovery work, which is dropped also where its event has no number. -/
def failScheduledDiscovery (a : AmmRuntimeActor) (work : RuntimeWorkId) (scheduled : AmmScheduledDiscoveryWork)
    (stale numbered : Bool) (answer : QueueAnswer) (answers : Answers) : AmmRuntimeActor :=
  let a := a.removeDiscoveryWork work
  if !numbered then a
  else match scheduled.revalidatePool with
    | some pool =>
      if a.isActiveDiscovery scheduled.owner && a.isActivePool pool then
        { a with pendingRevalidations := a.pendingRevalidations.set (pool, scheduled.owner) scheduled.request
          }.drainRevalidations answers.revalidations
      else a.markUntrusted
    | none =>
      if stale && a.isActiveDiscovery scheduled.owner then
        (a.queueDiscovery scheduled.owner scheduled.request (AmmDiscoveryOptions.default.withClass scheduled.cls) answer).2
      else a

/-- `fail_scheduled_work`; `stale` is whether the baseline of the attempt went stale. -/
def failScheduledWork (a : AmmRuntimeActor) (work : RuntimeWorkId) (stale numbered : Bool) (answer : QueueAnswer)
    (answers : Answers) : AmmRuntimeActor :=
  match a.scheduledDiscovery.get work with
  | some scheduled => a.failScheduledDiscovery work scheduled stale numbered answer answers
  | none =>
    match a.scheduledWork.get work with
    | none => a
    | some scheduled =>
      if !numbered then a
      else
        let a := a.release work scheduled
        match if stale then a.retryCandidate scheduled else none with
        | some candidate => (a.retainFactoryCandidate candidate).drainFactoryCandidates answers.candidates
        | none => a

/-- `cancel_scheduled_work`; `numbered` is whether its events have numbers, without which pool work stays. -/
def cancelScheduledWork (a : AmmRuntimeActor) (work : RuntimeWorkId) (numbered : Bool) : AmmRuntimeActor :=
  match a.scheduledDiscovery.get work with
  | some _ => a.removeDiscoveryWork work
  | none =>
    match a.scheduledWork.get work with
    | none => a
    | some scheduled => if numbered then a.release work scheduled else a

/-! ### Installing and removing pools -/

/-- Enter a pool, with evidence of its preparation where it has none. -/
def activate (a : AmmRuntimeActor) (pool : PoolInstanceId) : AmmRuntimeActor :=
  { a with
    activePools := a.activePools.insert pool.key pool
    registrationEvidence :=
      if (a.registrationEvidence.get pool).isSome then a.registrationEvidence
      else a.registrationEvidence.set pool (.one (.stable "runtime.prepared")) }

/-- What `commit_scheduled_pool` checks before its fence: the work that it takes a copy of. -/
def installable (a : AmmRuntimeActor) (work : RuntimeWorkId) (pool : PoolInstanceId) (registration : PoolRegistration)
    (baseline : AmmStatePoint) : Option AmmScheduledPoolWork :=
  (a.scheduledWork.get work).filter fun scheduled =>
    decide (scheduled.reservation = pool) && decide (scheduled.registration.key = registration.key) &&
    decide (a.pendingPoolWork.get registration.key = some work) &&
    decide (a.activeAdapter scheduled.adapter.key = some scheduled.adapter) &&
    !(scheduled.discoveryOwner.isSome && decide (scheduled.supportingDiscovery = ∅)) &&
    decide (∀ owner ∈ scheduled.supportingDiscovery, a.isActiveDiscovery owner = true) &&
    a.trusted && decide (baseline = a.point)

/-- The rest of `commit_scheduled_pool` behind its fence, with the copy of the work from before it. -/
def finishInstall (a : AmmRuntimeActor) (work : RuntimeWorkId) (scheduled : AmmScheduledPoolWork) (baseline : AmmStatePoint)
    (answer : InstallAnswer) : AmmRuntimeActor :=
  let pool := scheduled.reservation
  if !a.trusted || baseline ≠ a.point || a.reservations.get pool.key ≠ some pool || a.activePools.contains pool.key then a
  else
    let taken := { a with reservations := a.reservations.remove pool.key }
    match answer with
    | .refuses => a
    | .rollsBack trusted => { taken with trusted }
    | .patchFails => { taken with activePools := taken.activePools.insert pool.key pool, trusted := false }
    | .installs false => taken.activate pool
    | .installs true =>
      let a := taken.activate pool
      { a with
        registrationEvidence := a.registrationEvidence.set pool scheduled.evidence
        registrationRevalidation :=
          if scheduled.revalidations.entries.isEmpty then a.registrationRevalidation
          else a.registrationRevalidation.set pool scheduled.revalidations
        scheduledWork := a.scheduledWork.remove work
        pendingPoolWork := a.pendingPoolWork.remove pool.key }

/-- Enter pools that a client has prepared, each under its next generation. -/
def activatePrepared (a : AmmRuntimeActor) (registration : PoolRegistration) : AmmRuntimeActor :=
  let pool : PoolInstanceId := ⟨registration.key, (a.generations.get registration.key).elim 0 (· + 1)⟩
  { a with generations := a.generations.insert registration.key pool.generation }.activate pool

/-- `install_prepared_pools` without a reservation. -/
def installPreparedPools (a : AmmRuntimeActor) (pools : List PoolRegistration) (baseline : AmmStatePoint)
    (answer : InstallAnswer) : AmmRuntimeActor :=
  if !a.trusted || baseline ≠ a.point || decide (¬(pools.map (·.key)).Nodup) || pools.any (fun pool =>
    a.pendingPoolWork.contains pool.key || a.activePools.contains pool.key || a.reservations.contains pool.key) then a
  else
    let installed := pools.foldl activatePrepared a
    match answer with
    | .refuses => a
    | .rollsBack trusted => { a with trusted, generations := installed.generations }
    | .patchFails =>
      { a with activePools := installed.activePools, generations := installed.generations, trusted := false }
    | .installs _ => installed

/-- Take a pool out, with its evidence and its revalidations. -/
def dropPool (a : AmmRuntimeActor) (pool : PoolInstanceId) : AmmRuntimeActor :=
  { a with
    activePools := a.activePools.remove pool.key
    registrationEvidence := a.registrationEvidence.remove pool
    registrationRevalidation := a.registrationRevalidation.remove pool
    pendingRevalidations := a.pendingRevalidations.filter fun key _ => key.1 ≠ pool }

/-- `remove_pool_serialized` behind its fence, and whether it succeeds. -/
def removePoolSerialized (a : AmmRuntimeActor) (pool : PoolInstanceId) (answer : RemovalAnswer) : Bool × AmmRuntimeActor :=
  if !a.trusted || !a.isActivePool pool then (false, a)
  else match answer with
    | .refuses => (false, a)
    | .breaks => (false, a.markUntrusted)
    | .distrusts => (false, (a.dropPool pool).markUntrusted)
    | .removes => (true, a.dropPool pool)

/-! ### Watchers and adapters -/

/-- `add_factory_watcher`; `accepted` is whether its other checks pass. Trust may have gone behind its fence. -/
def addFactoryWatcher (a : AmmRuntimeActor) (key : DiscoveryOwnerKey) (adapter : AdapterInstanceId) (accepted : Bool) :
    AmmRuntimeActor :=
  if !accepted || a.activeDiscovery.contains key || a.activeAdapter adapter.key ≠ some adapter then a
  else
    let owner : DiscoveryOwnerId := ⟨key, (a.discoveryGenerations.get key).elim 0 (· + 1)⟩
    { a with
      activeDiscovery := a.activeDiscovery.insert key owner
      discoveryGenerations := a.discoveryGenerations.insert key owner.generation
      factoryWatchers := a.factoryWatchers.insert owner adapter }

/-- The evidence of an owner is all that some active pool has. -/
def ownerInUse (a : AmmRuntimeActor) (owner : DiscoveryOwnerId) : Bool :=
  a.registrationEvidence.entries.any fun entry => entry.2.containsOwner owner && (entry.2.withoutOwner owner).isNone

/-- The work that goes with a watcher: its discoveries, and the pools that it alone supports. -/
def cancelledWork (a : AmmRuntimeActor) (owner : DiscoveryOwnerId) : List RuntimeWorkId :=
  a.scheduledDiscovery.keysWhere (fun _ scheduled => scheduled.owner = owner) ++
    a.scheduledWork.keysWhere fun _ scheduled => scheduled.supportingDiscovery = {owner}

/-- Take a watcher out of the engine and of the candidates. -/
def removeDiscovery (a : AmmRuntimeActor) (owner : DiscoveryOwnerId) : AmmRuntimeActor :=
  { a with
    activeDiscovery := if a.isActiveDiscovery owner then a.activeDiscovery.remove owner.key else a.activeDiscovery
    factoryWatchers := a.factoryWatchers.remove owner
    pendingFactoryCandidates := a.pendingFactoryCandidates.filter (·.owner ≠ owner) }

/-- `remove_factory_watcher`; `accepted` is whether the fence and its other checks pass. -/
def removeFactoryWatcher (a : AmmRuntimeActor) (owner : DiscoveryOwnerId) (accepted : Bool) : AmmRuntimeActor :=
  if !accepted || !a.trusted || !a.isActiveDiscovery owner || a.ownerInUse owner || !a.factoryWatchers.contains owner then a
  else
    let a := (a.cancelledWork owner).foldl detachScheduledWork (a.removeDiscovery owner)
    { a with
      scheduledWork := a.scheduledWork.map fun _ scheduled => scheduled.withoutOwner owner
      pendingRevalidations := a.pendingRevalidations.filter fun key _ => key.2 ≠ owner
      registrationRevalidation := a.registrationRevalidation.filterMap fun _ requests =>
        let requests := requests.remove owner
        if requests.entries.isEmpty then none else some requests
      registrationEvidence := a.registrationEvidence.map fun _ set => (set.withoutOwner owner).getD set }

def addAdapter (a : AmmRuntimeActor) (adapter : AdapterInstanceId) (accepted : Bool) : AmmRuntimeActor :=
  if accepted && a.trusted then { a with adapters := a.adapters ++ [adapter] } else a

/-- Take an adapter family out, with the scheduled work of its pools. -/
def detachAdapter (a : AmmRuntimeActor) (adapter : AdapterInstanceId) : AmmRuntimeActor :=
  (a.scheduledWork.keysWhere fun _ scheduled => scheduled.adapter = adapter).foldl detachScheduledWork
    { a with adapters := a.adapters.filter (· ≠ adapter) }

/-- `remove_adapter`; `accepted` is whether no pool and no watcher depends on the family, and its other checks pass. -/
def removeAdapter (a : AmmRuntimeActor) (adapter : AdapterInstanceId) (accepted : Bool) : AmmRuntimeActor :=
  if accepted && a.trusted && decide (a.activeAdapter adapter.key = some adapter) then a.detachAdapter adapter else a

/-- `remove_adapter_cascade`, with the pools and the watchers that the engine has for the family. -/
def removeAdapterCascade (a : AmmRuntimeActor) (adapter : AdapterInstanceId) (pools : List PoolInstanceId)
    (owners : List DiscoveryOwnerId) (accepted : Bool) : AmmRuntimeActor :=
  if !accepted || !a.trusted || a.activeAdapter adapter.key ≠ some adapter || !pools.all (a.isActivePool ·) then a
  else
    let discoveries := a.scheduledDiscovery.keysWhere fun _ scheduled => scheduled.owner ∈ owners
    let a := owners.foldl removeDiscovery (discoveries.foldl detachScheduledWork (a.detachAdapter adapter))
    pools.foldl dropPool a

/-! ### Reorgs -/

/-- Cancel orphaned work, as far as its events have numbers, and whether all is cancelled. -/
def cancelOrphans : List RuntimeWorkId → Nat → AmmRuntimeActor → Bool × AmmRuntimeActor
  | [], _, a => (true, a)
  | _ :: _, 0, a => (false, a)
  | work :: rest, numbered + 1, a => cancelOrphans rest numbered (a.cancelScheduledWork work true)

/-- The evidence and the revalidations of the active pools that stay. -/
def reconcileRegistered (dropped : List B256) (a : AmmRuntimeActor) : AmmRuntimeActor :=
  let registrationRevalidation := a.registrationRevalidation.filterMap fun pool requests =>
    match (a.registrationEvidence.get pool).bind (crossing dropped) with
    | none => some requests
    | some evidence =>
      let requests := requests.filter fun owner _ => evidence.containsStateQueryOwner owner
      if requests.entries.isEmpty then none else some requests
  { a with
    registrationEvidence := a.registrationEvidence.map fun _ set => (crossing dropped set).getD set
    registrationRevalidation
    pendingRevalidations := a.pendingRevalidations.filter fun key _ =>
      ((registrationRevalidation.get key.1).bind (Table.get · key.2)).isSome }

/-- `reconcile_orphaned_pending_registrations`, and whether it gets to its end; `numbered` is for how many cancellations
    there are numbers. -/
def reconcileOrphanedPendingRegistrations (a : AmmRuntimeActor) (dropped : List B256) (numbered : Nat) :
    Bool × AmmRuntimeActor :=
  if dropped = [] then (true, a)
  else
    let orphaned := a.scheduledWork.keysWhere fun _ scheduled => (crossing dropped scheduled.evidence).isNone
    let a := { a with
      pendingFactoryCandidates := a.pendingFactoryCandidates.filterMap (reconcileCandidate dropped)
      scheduledWork := a.scheduledWork.map fun _ scheduled =>
        match crossing dropped scheduled.evidence with
        | some evidence => scheduled.reconcile evidence
        | none => scheduled }
    match cancelOrphans orphaned numbered a with
    | (false, a) => (false, a)
    | (true, a) => (true, a.reconcileRegistered dropped)

end AmmRuntimeActor

end AmmState.Provenance
