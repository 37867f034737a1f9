import AmmState.Provenance.Handlers

/-! Canonical batches and the machine: the actor, with the handlers that wait at subscriber fences, under any sequence of
    commands, batches and answers of the fences. -/

namespace AmmState.Provenance

/-! ### Canonical batches -/

/-- What a watcher decodes from a creation log. -/
structure Creation where
  owner : DiscoveryOwnerId
  discovered : DiscoveredPool
  factory : Address
  blockNumber : Nat
  blockHash : B256
  transactionHash : B256
  logIndex : Nat

/-- A canonical batch, with what the watchers decode from its logs and the blocks that the engine finds dropped. -/
structure AmmCanonicalBatch where
  chainId : Nat
  blockNumber : Nat
  blockHash : B256
  creations : List Creation
  droppedHashes : List B256

/-- How the part of an ingest before its publication ends: refused, broken, or published. -/
inductive IngestAnswer
  | refuses | breaks | publishes
  deriving DecidableEq

/-- The rest of an ingest: the actions of the reorg that are left, the dropped blocks and the candidates of the batch. -/
structure Reorg where
  actions : List (PoolInstanceId × RegistrationReorgAction × Option Revalidations)
  droppedHashes : List B256
  candidates : List AmmFactoryCandidate

namespace AmmRuntimeActor

/-- The candidates of a batch: creations of live watchers, of their protocols, the first of each owner and pool. -/
def factoryCandidates (a : AmmRuntimeActor) (creations : List Creation) : List AmmFactoryCandidate :=
  (creations.foldl (fun (acc : List (DiscoveryOwnerId × PoolKey) × List AmmFactoryCandidate) creation =>
    match a.watcherProtocols creation.owner with
    | none => acc
    | some protocols =>
      let discovered := creation.discovered
      if discovered.registration.protocol ∈ protocols ∧ discovered.key = discovered.registration.key ∧
          (creation.owner, discovered.key) ∉ acc.1
      then ((creation.owner, discovered.key) :: acc.1, acc.2 ++ [⟨creation.owner, discovered.registration,
        .one (.factoryLog creation.owner creation.factory a.point.chainId creation.blockNumber creation.blockHash
          creation.transactionHash creation.logIndex), none⟩])
      else acc) ([], [])).2

/-- What a reorg asks of the pools with evidence. -/
def reorgActions (a : AmmRuntimeActor) (dropped : List B256) :
    List (PoolInstanceId × RegistrationReorgAction × Option Revalidations) :=
  if dropped = [] then []
  else a.registrationEvidence.entries.filterMap fun entry =>
    match entry.2.reorgAction dropped with
    | .keep => none
    | action => some (entry.1, action, a.registrationRevalidation.get entry.1)

/-- Keep a pool whose query evidence is to be checked again, without its creation logs on dropped blocks. -/
def revalidatePool (a : AmmRuntimeActor) (pool : PoolInstanceId) (requests : Revalidations) (dropped : List B256) :
    AmmRuntimeActor :=
  let pend (a : AmmRuntimeActor) : AmmRuntimeActor := { a with
    pendingRevalidations := requests.entries.foldl (fun pending entry => pending.set (pool, entry.1) entry.2)
      a.pendingRevalidations }
  match a.registrationEvidence.get pool with
  | none => pend a
  | some set =>
    match set.retain fun item => item.isQuery || item.offBlocks dropped with
    | none => a.markUntrusted
    | some retained => pend { a with registrationEvidence := a.registrationEvidence.set pool retained }

/-- Go on with the actions of a reorg up to the next pool that is to be removed. -/
def takeActions (dropped : List B256) : List (PoolInstanceId × RegistrationReorgAction × Option Revalidations) →
    AmmRuntimeActor →
    AmmRuntimeActor × Option (PoolInstanceId × List (PoolInstanceId × RegistrationReorgAction × Option Revalidations))
  | [], a => (a, none)
  | (pool, action, requests) :: rest, a =>
    if !a.isActivePool pool then takeActions dropped rest a
    else match action, requests with
      | .remove, _ => (a, some (pool, rest))
      | .revalidate, some requests => takeActions dropped rest (a.revalidatePool pool requests dropped)
      | .revalidate, none => takeActions dropped rest a.markUntrusted
      | .keep, _ => takeActions dropped rest a

/-- The end of an ingest, after the actions of its reorg. -/
def finishIngest (a : AmmRuntimeActor) (reorg : Reorg) (numbered : Nat) (answers : Answers) : AmmRuntimeActor :=
  match a.reconcileOrphanedPendingRegistrations reorg.droppedHashes numbered with
  | (false, a) => a
  | (true, a) =>
    (reorg.candidates.foldl retainFactoryCandidate (a.drainRevalidations answers.revalidations)).drainFactoryCandidates
      answers.candidates

end AmmRuntimeActor

/-! ### The machine -/

/-- A handler that waits at a subscriber fence. -/
inductive Suspended
  /-- `commit_scheduled_pool`, with its copy of the work. -/
  | install (work : RuntimeWorkId) (scheduled : AmmScheduledPoolWork) (baseline : AmmStatePoint)
  /-- A completed discovery that removes the pool it has not found again. -/
  | revalidation (pool : PoolInstanceId)
  /-- An ingest that removes a pool for a reorg. -/
  | reorg (pool : PoolInstanceId) (rest : Reorg)

/-- The actor with the handlers that wait, the innermost first. -/
structure Machine where
  actor : AmmRuntimeActor
  suspended : List Suspended

/-- The control commands that touch registration evidence; `distrust` is any other that loses trust. -/
inductive Command
  | attachColdStartWorker (answers : Answers)
  | addFactoryWatcher (key : DiscoveryOwnerKey) (adapter : AdapterInstanceId) (accepted : Bool)
  | removeFactoryWatcher (owner : DiscoveryOwnerId) (accepted : Bool)
  | queueColdStart (pools : List PoolRegistration) (cls : AmmWorkClass) (answer : QueueAnswer)
  | queueDiscovery (owner : DiscoveryOwnerId) (request : TokenEdgeDiscoveryRequest) (options : AmmDiscoveryOptions)
      (answer : QueueAnswer)
  | commitScheduledDiscovery (work : RuntimeWorkId) (owner : DiscoveryOwnerId) (report : TokenEdgeDiscoveryReport)
      (numbered : Bool) (answers : Answers)
  | commitScheduledPool (work : RuntimeWorkId) (pool : PoolInstanceId) (registration : PoolRegistration)
      (baseline : AmmStatePoint)
  | installPreparedPools (pools : List PoolRegistration) (baseline : AmmStatePoint) (answer : InstallAnswer)
  | failScheduledWork (work : RuntimeWorkId) (stale numbered : Bool) (answer : QueueAnswer) (answers : Answers)
  | cancelScheduledWork (work : RuntimeWorkId) (numbered : Bool)
  | removePool (pool : PoolInstanceId) (answer : RemovalAnswer)
  | addAdapter (adapter : AdapterInstanceId) (accepted : Bool)
  | removeAdapter (adapter : AdapterInstanceId) (accepted : Bool)
  | removeAdapterCascade (adapter : AdapterInstanceId) (pools : List PoolInstanceId) (owners : List DiscoveryOwnerId)
      (accepted : Bool)
  | distrust

/-- What happens to the actor: a command where no handler waits, a canonical batch, or the answer of the innermost fence. -/
inductive Event
  | command (command : Command)
  | ingest (batch : AmmCanonicalBatch) (answer : IngestAnswer) (numbered : Nat) (answers : Answers)
  | resume (install : InstallAnswer) (removal : RemovalAnswer) (numbered : Nat) (answers : Answers)

namespace Machine

/-- `attach_cold_start_worker`. -/
def attachColdStartWorker (a : AmmRuntimeActor) (answers : Answers) : AmmRuntimeActor :=
  if a.coldStartWorker then a
  else ({ a with coldStartWorker := true }.drainFactoryCandidates answers.candidates).drainRevalidations
    answers.revalidations

def handle (a : AmmRuntimeActor) : Command → Machine
  | .attachColdStartWorker answers => ⟨attachColdStartWorker a answers, []⟩
  | .addFactoryWatcher key adapter accepted => ⟨a.addFactoryWatcher key adapter accepted, []⟩
  | .removeFactoryWatcher owner accepted => ⟨a.removeFactoryWatcher owner accepted, []⟩
  | .queueColdStart pools cls answer => ⟨a.queueColdStart pools cls answer, []⟩
  | .queueDiscovery owner request options answer => ⟨(a.queueDiscovery owner request options answer).2, []⟩
  | .commitScheduledDiscovery work owner report numbered answers =>
    match a.commitScheduledDiscovery work owner report numbered answers with
    | (a, none) => ⟨a, []⟩
    | (a, some pool) => ⟨a, [.revalidation pool]⟩
  | .commitScheduledPool work pool registration baseline =>
    match a.installable work pool registration baseline with
    | none => ⟨a, []⟩
    | some scheduled => ⟨a, [.install work scheduled baseline]⟩
  | .installPreparedPools pools baseline answer => ⟨a.installPreparedPools pools baseline answer, []⟩
  | .failScheduledWork work stale numbered answer answers => ⟨a.failScheduledWork work stale numbered answer answers, []⟩
  | .cancelScheduledWork work numbered => ⟨a.cancelScheduledWork work numbered, []⟩
  | .removePool pool answer => ⟨(a.removePoolSerialized pool answer).2, []⟩
  | .addAdapter adapter accepted => ⟨a.addAdapter adapter accepted, []⟩
  | .removeAdapter adapter accepted => ⟨a.removeAdapter adapter accepted, []⟩
  | .removeAdapterCascade adapter pools owners accepted => ⟨a.removeAdapterCascade adapter pools owners accepted, []⟩
  | .distrust => ⟨a.markUntrusted, []⟩

/-- Go on with an ingest, to its end or to the fence of the next removal. -/
def proceed (a : AmmRuntimeActor) (reorg : Reorg) (numbered : Nat) (answers : Answers)
    (waiting : List Suspended) : Machine :=
  match AmmRuntimeActor.takeActions reorg.droppedHashes reorg.actions a with
  | (a, none) => ⟨a.finishIngest reorg numbered answers, waiting⟩
  | (a, some (pool, actions)) => ⟨a, .reorg pool { reorg with actions } :: waiting⟩

def ingest (m : Machine) (batch : AmmCanonicalBatch) (answer : IngestAnswer) (numbered : Nat)
    (answers : Answers) : Machine :=
  let a := m.actor
  if !a.trusted || batch.chainId ≠ a.point.chainId ||
    (batch.blockNumber = a.point.blockNumber && batch.blockHash = a.point.blockHash) then m
  else match answer with
    | .refuses => m
    | .breaks => ⟨a.markUntrusted, m.suspended⟩
    | .publishes =>
      proceed { a with point := ⟨batch.chainId, batch.blockNumber, batch.blockHash⟩ }
        ⟨a.reorgActions batch.droppedHashes, batch.droppedHashes, a.factoryCandidates batch.creations⟩ numbered answers
        m.suspended

def resume (m : Machine) (install : InstallAnswer) (removal : RemovalAnswer) (numbered : Nat)
    (answers : Answers) : Machine :=
  match m.suspended with
  | [] => m
  | .install work scheduled baseline :: waiting => ⟨m.actor.finishInstall work scheduled baseline install, waiting⟩
  | .revalidation pool :: waiting =>
    match m.actor.removePoolSerialized pool removal with
    | (true, a) => ⟨a.drainRevalidations answers.revalidations, waiting⟩
    | (false, a) => ⟨a, waiting⟩
  | .reorg pool rest :: waiting =>
    match m.actor.removePoolSerialized pool removal with
    | (true, a) => proceed a rest numbered answers waiting
    | (false, a) => ⟨a, waiting⟩

def step (m : Machine) : Event → Machine
  | .command command => if m.suspended.isEmpty then handle m.actor command else m
  | .ingest batch answer numbered answers => m.ingest batch answer numbered answers
  | .resume install removal numbered answers => m.resume install removal numbered answers

/-- A new actor, with evidence for the pools that the engine comes with. -/
def start (point : AmmStatePoint) (adapters : List AdapterInstanceId) (pools : List PoolInstanceId) : Machine where
  suspended := []
  actor := {
    trusted := true
    point, adapters
    coldStartWorker := false
    activePools := pools.foldl (fun active pool => active.insert pool.key pool) .empty
    activeDiscovery := .empty
    reservations := .empty
    generations := pools.foldl (fun generations pool => generations.insert pool.key pool.generation) .empty
    discoveryGenerations := .empty
    factoryWatchers := .empty
    scheduledWork := .empty
    scheduledDiscovery := .empty
    pendingPoolWork := .empty
    registrationEvidence := pools.foldl (fun evidence pool => evidence.set pool (.one (.stable "runtime.initial"))) .empty
    registrationRevalidation := .empty
    pendingRevalidations := .empty
    pendingFactoryCandidates := []
    nextWorkId := 0 }

def run (m : Machine) (events : List Event) : Machine := events.foldl step m

end Machine
end AmmState.Provenance
