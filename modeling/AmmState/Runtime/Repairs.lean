import AmmState.Lib.Map
import AmmState.Types
import Mathlib.Data.List.Dedup
import Mathlib.Data.List.Sort

/-! Required repairs of pools (`types.rs`, `reactive.rs`, `sync_manager.rs`, `live_runtime.rs`,
    `live_runtime/repair_supersession.rs`): the repair actions of a batch's logs are combined, retained as an intent of
    their pool, scheduled as follow-up work and committed, superseded, failed or cancelled. The state is what these handlers
    read and write. Every handler that retains an intent drains the intents at its end; a drain is a step of its own here
    and may come at any time. -/

namespace AmmState.Repairs

/-- A storage slot of an account. -/
abbrev StorageSlot := Address × U256

inductive ColdStartPolicy
  | strict | eager | lazy | hotSlotsOnly
  deriving DecidableEq

inductive RepairAction
  | none
  | verifySlots (slots : List StorageSlot)
  | purgeStorage (address : Address)
  | purgeSlots (address : Address) (slots : List U256)
  | coldStart (pool : PoolKey) (policy : ColdStartPolicy)
  | v3TickRange (pool : PoolKey) (tickLower tickUpper : Int)
  | v3Incremental (pool : PoolKey)
  | v3Full (pool : PoolKey)
  deriving DecidableEq

/-- Push what is not there yet. -/
def union {α : Type} [DecidableEq α] (left right : List α) : List α :=
  right.foldl (fun merged slot => if slot ∈ merged then merged else merged ++ [slot]) left

/-- Merge two repair intentions, preferring the second on conflict. -/
def RepairAction.combine : RepairAction → RepairAction → RepairAction
  | .none, repair => repair
  | repair, .none => repair
  | .verifySlots left, .verifySlots right => .verifySlots (union left right)
  | .purgeSlots leftAddress leftSlots, .purgeSlots rightAddress rightSlots =>
    if leftAddress = rightAddress then .purgeSlots leftAddress (union leftSlots rightSlots)
    else .purgeSlots rightAddress rightSlots
  | _, other => other

inductive DeferredWork
  | verifySlots (slots : List StorageSlot)
  | repair (action : RepairAction)
  | coldStart (pool : PoolKey) (policy : ColdStartPolicy)
  | custom (tag : String)
  deriving DecidableEq

inductive AmmFollowUpTask
  | refresh (policy : ColdStartPolicy) (afterSlots : List StorageSlot)
  | slotPatch (slots : List StorageSlot)
  deriving DecidableEq

/-- The repair that a task carries out. -/
def AmmFollowUpTask.action (task : AmmFollowUpTask) (pool : PoolInstanceId) : RepairAction :=
  match task with
  | .refresh policy _ => .coldStart pool.key policy
  | .slotPatch slots => .verifySlots slots

/-- The kinds of follow-up work. -/
inductive AmmWorkKind
  | repair | deferredWarmup
  deriving DecidableEq

structure AmmScheduledFollowUpWork where
  pool : PoolInstanceId
  kind : AmmWorkKind
  task : AmmFollowUpTask
  /-- The point of the submitted job, which its result carries back. -/
  baseline : AmmStatePoint
  deriving DecidableEq

inductive AmmPendingFollowUpIntent
  | repair (action : RepairAction)
  | deferred (work : List DeferredWork)
  deriving DecidableEq

/-- A pool that returned to `Ready`: what was carried out, and what had been required since it last did. -/
structure Return where
  pool : PoolInstanceId
  executed : RepairAction
  required : List RepairAction
  deriving DecidableEq

structure AmmRuntimeActor where
  trusted : Bool
  coldStartWorker : Bool
  point : AmmStatePoint
  activePools : Map PoolKey PoolInstanceId
  /-- The statuses of the registered pools. -/
  pools : Map PoolKey PoolStatus
  scheduledFollowups : Map RuntimeWorkId AmmScheduledFollowUpWork
  pendingPoolFollowup : Map PoolInstanceId RuntimeWorkId
  pendingFollowupIntents : Map PoolInstanceId AmmPendingFollowUpIntent
  repairWaitingForCanonical : Map PoolInstanceId AmmStatePoint
  nextWorkId : Nat
  /-- Not in the source: the repairs that logs and gaps required since the pool last returned to `Ready`. -/
  required : PoolInstanceId → List RepairAction
  /-- Not in the source: the returns to `Ready`, the last one first. -/
  returns : List Return

inductive AmmRuntimeCommandError
  | untrusted
  | stalePoolInstance (requested : PoolInstanceId)
  | coldStartWorkerUnavailable
  | staleWork (work : RuntimeWorkId)
  | poolAlreadyScheduled (key : PoolKey)
  | unsupportedFollowUp (message : String)
  | staleBaseline (expected actual : AmmStatePoint)
  | subscriberTargetMismatch (expectedNumber : Nat) (expectedHash : B256) (actualNumber : Nat) (actualHash : B256)
  | sequenceOverflow
  | coldStartWorker
  | other

namespace AmmRuntimeActor

/-! ### Intents -/

/-- What an intent of a pool becomes when another one arrives. -/
def retained : Option AmmPendingFollowUpIntent → AmmPendingFollowUpIntent → AmmPendingFollowUpIntent
  | some (.repair existing), .deferred _ => .repair existing
  | some (.repair existing), .repair incoming => .repair (existing.combine incoming)
  | _, intent => intent

def retainFollowupIntent (a : AmmRuntimeActor) (pool : PoolInstanceId) (intent : AmmPendingFollowUpIntent) :
    AmmRuntimeActor :=
  { a with pendingFollowupIntents :=
      a.pendingFollowupIntents.insert pool (retained (a.pendingFollowupIntents.get pool) intent) }

/-! ### Scheduling -/

/-- Cancelling takes the work out before it knows whether an event number is left. -/
def cancelScheduledWork (a : AmmRuntimeActor) (work : RuntimeWorkId) (numbered : Bool) :
    AmmRuntimeActor × Except AmmRuntimeCommandError Unit :=
  match a.scheduledFollowups.get work with
  | none => (a, .error (.staleWork work))
  | some scheduled =>
    let removed := { a with scheduledFollowups := a.scheduledFollowups.remove work }
    if !numbered then (removed, .error .sequenceOverflow) else
    ({ removed with pendingPoolFollowup := removed.pendingPoolFollowup.remove scheduled.pool }, .ok ())

/-- Submit a job at the current point and record it; `submits` is whether the worker takes it. -/
def submitFollowup (a : AmmRuntimeActor) (pool : PoolInstanceId) (kind : AmmWorkKind) (task : AmmFollowUpTask)
    (numbered submits : Bool) : AmmRuntimeActor × Except AmmRuntimeCommandError Unit :=
  if !a.pools.contains pool.key then (a, .error (.stalePoolInstance pool)) else
  if !numbered then (a, .error .sequenceOverflow) else
  if 2 ^ 64 ≤ a.nextWorkId + 1 then (a, .error .sequenceOverflow) else
  if !submits then (a, .error .coldStartWorker) else
  let work : RuntimeWorkId := ⟨.pool pool, a.nextWorkId⟩
  ({ a with
      nextWorkId := a.nextWorkId + 1
      scheduledFollowups := a.scheduledFollowups.insert work ⟨pool, kind, task, a.point⟩
      pendingPoolFollowup := a.pendingPoolFollowup.insert pool work }, .ok ())

def queueFollowup (a : AmmRuntimeActor) (pool : PoolInstanceId) (kind : AmmWorkKind) (task : AmmFollowUpTask)
    (numbered submits : Bool) : AmmRuntimeActor × Except AmmRuntimeCommandError Unit :=
  if !a.trusted then (a, .error .untrusted) else
  if a.activePools.get pool.key ≠ some pool then (a, .error (.stalePoolInstance pool)) else
  if !a.coldStartWorker then (a, .error .coldStartWorkerUnavailable) else
  match a.pendingPoolFollowup.get pool with
  | none => a.submitFollowup pool kind task numbered submits
  | some existing =>
    match a.scheduledFollowups.get existing with
    | none => (a, .error (.staleWork existing))
    | some scheduled =>
      if scheduled.task = task ∧ scheduled.kind = kind then (a, .ok ()) else
      if kind ≠ .repair ∨ scheduled.kind = .repair then (a, .error (.poolAlreadyScheduled pool.key)) else
      -- A repair replaces optional warming.
      match a.cancelScheduledWork existing numbered with
      | (a, .error error) => (a, .error error)
      | (a, .ok _) => a.submitFollowup pool kind task numbered submits

def slotLE (left right : StorageSlot) : Prop := left.1 < right.1 ∨ left.1 = right.1 ∧ left.2 ≤ right.2

instance : DecidableRel slotLE := fun left right =>
  inferInstanceAs (Decidable (left.1 < right.1 ∨ left.1 = right.1 ∧ left.2 ≤ right.2))

/-- Sorted, without duplicates. -/
def sortedSlots (slots : List StorageSlot) : List StorageSlot := (slots.insertionSort slotLE).dedup

/-- The task of a required repair; what is neither a refresh of this pool nor a set of slots is not schedulable. -/
def repairTask (pool : PoolInstanceId) : RepairAction → Except AmmRuntimeCommandError AmmFollowUpTask
  | .coldStart requested policy =>
    if requested = pool.key then .ok (.refresh policy [])
    else .error (.unsupportedFollowUp "repair pool key does not match its generation")
  | .verifySlots slots =>
    if sortedSlots slots = [] then .error (.unsupportedFollowUp "repair slot set is empty")
    else .ok (.slotPatch (sortedSlots slots))
  | _ => .error (.unsupportedFollowUp "required action is not a background repair target")

def queueRepair (a : AmmRuntimeActor) (pool : PoolInstanceId) (action : RepairAction) (numbered submits : Bool) :
    AmmRuntimeActor × Except AmmRuntimeCommandError Unit :=
  match repairTask pool action with
  | .error error => (a, .error error)
  | .ok task => a.queueFollowup pool .repair task numbered submits

/-- The slots and the refresh policy that deferred work asks for. -/
def collectDeferred (pool : PoolInstanceId) : List DeferredWork → List StorageSlot → Option ColdStartPolicy →
    Except AmmRuntimeCommandError (List StorageSlot × Option ColdStartPolicy)
  | [], slots, refresh => .ok (slots, refresh)
  | .verifySlots found :: rest, slots, refresh => collectDeferred pool rest (slots ++ found) refresh
  | .repair (.verifySlots found) :: rest, slots, refresh => collectDeferred pool rest (slots ++ found) refresh
  | .coldStart requested policy :: rest, slots, refresh =>
    if requested ≠ pool.key then .error (.unsupportedFollowUp "deferred pool key does not match its generation") else
    if refresh.any (· ≠ policy) then .error (.unsupportedFollowUp "deferred cold-start policies conflict") else
    collectDeferred pool rest slots (some policy)
  | .repair (.coldStart requested policy) :: rest, slots, refresh =>
    if requested ≠ pool.key then .error (.unsupportedFollowUp "deferred pool key does not match its generation") else
    if refresh.any (· ≠ policy) then .error (.unsupportedFollowUp "deferred cold-start policies conflict") else
    collectDeferred pool rest slots (some policy)
  | _ :: _, _, _ => .error (.unsupportedFollowUp "deferred item is not schedulable")

def queueDeferred (a : AmmRuntimeActor) (pool : PoolInstanceId) (deferred : List DeferredWork)
    (numbered submits : Bool) : AmmRuntimeActor × Except AmmRuntimeCommandError Unit :=
  match collectDeferred pool deferred [] none with
  | .error error => (a, .error error)
  | .ok (slots, some policy) =>
    a.queueFollowup pool .deferredWarmup (.refresh policy (sortedSlots slots)) numbered submits
  | .ok (slots, none) =>
    if sortedSlots slots = [] then (a, .ok ())
    else a.queueFollowup pool .deferredWarmup (.slotPatch (sortedSlots slots)) numbered submits

/-- Forget the intent of a pool. -/
def dropIntent (a : AmmRuntimeActor) (pool : PoolInstanceId) : AmmRuntimeActor :=
  { a with pendingFollowupIntents := a.pendingFollowupIntents.remove pool }

/-- What becomes of an intent after an attempt to queue it. -/
def settleIntent (pool : PoolInstanceId) :
    AmmRuntimeActor × Except AmmRuntimeCommandError Unit → AmmRuntimeActor
  | (a, .ok _) => a.dropIntent pool
  | (a, .error (.stalePoolInstance _)) => a.dropIntent pool
  | (a, .error (.unsupportedFollowUp _)) => a.dropIntent pool
  | (a, .error _) => a

/-- Try to queue the intent of one pool. -/
def drainOne (numbered submits : Bool) (a : AmmRuntimeActor) (pool : PoolInstanceId) : AmmRuntimeActor :=
  match a.pendingFollowupIntents.get pool with
  | none => a
  | some intent =>
    let released := { a with repairWaitingForCanonical := a.repairWaitingForCanonical.remove pool }
    if a.activePools.get pool.key ≠ some pool then released.dropIntent pool else
    if a.repairWaitingForCanonical.get pool = some a.point then a else
    match intent with
    | .repair action => settleIntent pool (released.queueRepair pool action numbered submits)
    | .deferred work => settleIntent pool (released.queueDeferred pool work numbered submits)

/-- Visit the pools with intents in their order. -/
def drainFollowupIntents (a : AmmRuntimeActor) (pending : List PoolInstanceId) (numbered submits : Bool) :
    AmmRuntimeActor :=
  if !a.coldStartWorker then a else pending.foldl (drainOne numbered submits) a

/-! ### Canonical batches -/

/-- The repairs that one log of a pool asks for: by its event, after its updates, and for updates that cold slots skip. -/
structure LogRepair where
  pool : PoolInstanceId
  event : RepairAction
  afterApply : RepairAction
  predictedVerify : RepairAction

def LogRepair.action (log : LogRepair) : RepairAction := (log.event.combine log.afterApply).combine log.predictedVerify

/-- The repairs that a log requires. -/
def LogRepair.parts (log : LogRepair) : List RepairAction :=
  [log.event, log.afterApply, log.predictedVerify].filter (· ≠ .none)

/-- A log signals its repair unless there is none. -/
def collectLog (repairs : Map PoolInstanceId RepairAction) (log : LogRepair) : Map PoolInstanceId RepairAction :=
  if log.action = .none then repairs else
  match repairs.get log.pool with
  | some existing => repairs.insert log.pool (existing.combine log.action)
  | none => repairs.insert log.pool log.action

def collectPendingRepairs (logs : List LogRepair) : Map PoolInstanceId RepairAction := logs.foldl collectLog Map.empty

/-- Retain the repairs of all pools. -/
def retainRepairs (a : AmmRuntimeActor) (repairs : Map PoolInstanceId RepairAction) : AmmRuntimeActor :=
  { a with pendingFollowupIntents := fun pool =>
      match repairs.get pool with
      | none => a.pendingFollowupIntents.get pool
      | some action => some (retained (a.pendingFollowupIntents.get pool) (.repair action)) }

/-- A gap or an unverified reorg asks for an eager cold start of every active pool. -/
def fullRefreshRepairs (a : AmmRuntimeActor) : Map PoolInstanceId RepairAction := fun pool =>
  if a.activePools.get pool.key = some pool then some (.coldStart pool.key .eager) else none

/-- The repairs that a batch requires of a pool. -/
def batchRequires (a : AmmRuntimeActor) (logs : List LogRepair) (fullRefresh : Bool) (pool : PoolInstanceId) :
    List RepairAction :=
  (logs.filter (·.pool = pool)).flatMap LogRepair.parts ++
    if fullRefresh then (a.fullRefreshRepairs.get pool).toList else []

/-- The statuses that a batch leaves: `degrades` are pools that it degrades without a repair of their own. -/
def degradedPools (a : AmmRuntimeActor) (logs : List LogRepair) (degrades : PoolKey → Bool) (fullRefresh : Bool) :
    Map PoolKey PoolStatus := fun key =>
  (a.pools.get key).map fun status =>
    if fullRefresh ∨ degrades key ∨
        (∃ log ∈ logs, log.pool.key = key ∧ ((collectPendingRepairs logs).get log.pool).isSome)
    then .degraded else status

/-- The repairs that a batch has to retain. -/
def batchRepairs (a : AmmRuntimeActor) (logs : List LogRepair) (fullRefresh : Bool) : Map PoolInstanceId RepairAction :=
  if fullRefresh then a.fullRefreshRepairs else collectPendingRepairs logs

/-- Ingest a batch up to its publication at `point`. One that fails before leaves what it has degraded so far. -/
def ingest (a : AmmRuntimeActor) (point : AmmStatePoint) (logs : List LogRepair) (degrades : PoolKey → Bool)
    (fullRefresh publishes : Bool) : AmmRuntimeActor :=
  if !a.trusted then a else
  let required := { a with required := fun pool => a.required pool ++ a.batchRequires logs fullRefresh pool }
  if publishes then { required with point := point, pools := a.degradedPools logs degrades fullRefresh }
  else { required with trusted := false, pools := a.degradedPools [] degrades false }

/-! ### Commits -/

/-- How a commit whose own checks pass ends: refused, applied to the engine and then failed, or published. -/
inductive CommitOutcome
  | refused (error : AmmRuntimeCommandError)
  | applied (error : AmmRuntimeCommandError)
  | published

/-- The pool is ready again. -/
def markReady (a : AmmRuntimeActor) (scheduled : AmmScheduledFollowUpWork) : AmmRuntimeActor :=
  { a with
    pools := a.pools.insert scheduled.pool.key .ready
    required := fun pool => if pool = scheduled.pool then [] else a.required pool
    returns := ⟨scheduled.pool, scheduled.task.action scheduled.pool, a.required scheduled.pool⟩ ::
      a.returns }

def finishFollowup (a : AmmRuntimeActor) (work : RuntimeWorkId) (scheduled : AmmScheduledFollowUpWork) :
    AmmRuntimeActor :=
  { a with
    scheduledFollowups := a.scheduledFollowups.remove work
    pendingPoolFollowup := a.pendingPoolFollowup.remove scheduled.pool }

/-- A refresh, and the slot patch of a repair, make the pool ready. -/
def makesReady (scheduled : AmmScheduledFollowUpWork) : Bool :=
  match scheduled.task with
  | .refresh _ _ => true
  | .slotPatch _ => decide (scheduled.kind = .repair)

/-- Commit scheduled follow-up work: a refresh or a slot patch. -/
def commitFollowup (a : AmmRuntimeActor) (work : RuntimeWorkId) (outcome : CommitOutcome) :
    AmmRuntimeActor × Except AmmRuntimeCommandError Unit :=
  match a.scheduledFollowups.get work with
  | none => (a, .error (.staleWork work))
  | some scheduled =>
    if scheduled.baseline ≠ a.point then (a, .error (.staleBaseline a.point scheduled.baseline)) else
    if a.pendingPoolFollowup.get scheduled.pool ≠ some work ∨ a.activePools.get scheduled.pool.key ≠ some scheduled.pool
    then (a, .error (.staleWork work)) else
    let applied := if makesReady scheduled then a.markReady scheduled else a
    match outcome with
    | .refused error => (a, .error error)
    | .applied error => (applied, .error error)
    | .published =>
      let finished := applied.finishFollowup work scheduled
      match scheduled.task with
      | .refresh _ (slot :: slots) =>
        (finished.retainFollowupIntent scheduled.pool (.deferred [.verifySlots (slot :: slots)]), .ok ())
      | _ => (finished, .ok ())

/-- The target and the observed point of an error that supersedes a repair. -/
def supersededPoints (chainId : Nat) : AmmRuntimeCommandError → Option (AmmStatePoint × AmmStatePoint)
  | .staleBaseline expected actual =>
    if expected ≠ actual ∧ expected.chainId = chainId ∧ actual.chainId = chainId then some (actual, expected) else none
  | .subscriberTargetMismatch expectedNumber expectedHash actualNumber actualHash =>
    if expectedNumber = actualNumber ∧ expectedHash ≠ actualHash
    then some (⟨chainId, expectedNumber, expectedHash⟩, ⟨chainId, actualNumber, actualHash⟩) else none
  | _ => none

/-- A superseded repair of a degraded pool becomes an intent again. -/
def resolveRepairCommit (a : AmmRuntimeActor) (work : RuntimeWorkId) (error : AmmRuntimeCommandError) (numbered : Bool) :
    AmmRuntimeActor :=
  match supersededPoints a.point.chainId error, a.scheduledFollowups.get work with
  | some (target, _), some scheduled =>
    if scheduled.kind ≠ .repair ∨ a.activePools.get scheduled.pool.key ≠ some scheduled.pool ∨
      a.pools.get scheduled.pool.key ≠ some .degraded ∨ numbered = false
    then a else
    let removed := a.finishFollowup work scheduled
    let waiting := if a.point = target
      then { removed with repairWaitingForCanonical := removed.repairWaitingForCanonical.insert scheduled.pool target }
      else removed
    waiting.retainFollowupIntent scheduled.pool (.repair (scheduled.task.action scheduled.pool))
  | _, _ => a

def commitScheduled (a : AmmRuntimeActor) (work : RuntimeWorkId) (outcome : CommitOutcome) (numbered : Bool) :
    AmmRuntimeActor :=
  match a.commitFollowup work outcome with
  | (a, .ok _) => a
  | (a, .error error) => a.resolveRepairCommit work error numbered

/-- The intent of failed work that is tried again. -/
def retryIntent (scheduled : AmmScheduledFollowUpWork) : AmmPendingFollowUpIntent :=
  match scheduled.kind, scheduled.task with
  | .repair, task => .repair (task.action scheduled.pool)
  | .deferredWarmup, .refresh policy afterSlots =>
    .deferred (.coldStart scheduled.pool.key policy ::
      if afterSlots = [] then [] else [.verifySlots afterSlots])
  | .deferredWarmup, .slotPatch slots => .deferred [.verifySlots slots]

/-- Fail follow-up work. Only work that failed on a stale baseline is tried again; like cancelling, it takes the work out
    before it knows whether an event number is left. -/
def failScheduledWork (a : AmmRuntimeActor) (work : RuntimeWorkId) (staleBaseline numbered : Bool) : AmmRuntimeActor :=
  match a.scheduledFollowups.get work with
  | none => a
  | some scheduled =>
    if !numbered then { a with scheduledFollowups := a.scheduledFollowups.remove work } else
    let finished := a.finishFollowup work scheduled
    if staleBaseline then finished.retainFollowupIntent scheduled.pool (retryIntent scheduled) else finished

/-! ### Pools -/

/-- A new generation of a pool is registered. -/
def registerPool (a : AmmRuntimeActor) (pool : PoolInstanceId) (status : PoolStatus) : AmmRuntimeActor :=
  { a with
    activePools := a.activePools.insert pool.key pool
    pools := a.pools.insert pool.key status
    required := fun p => if p = pool then [] else a.required p }

/-- Remove a generation with its intents; its scheduled work is detached if there is a worker. -/
def removePool (a : AmmRuntimeActor) (pool : PoolInstanceId) : AmmRuntimeActor :=
  if a.activePools.get pool.key ≠ some pool then a else
  let removed := { a with
    activePools := a.activePools.remove pool.key
    pools := a.pools.remove pool.key
    pendingFollowupIntents := a.pendingFollowupIntents.remove pool
    repairWaitingForCanonical := a.repairWaitingForCanonical.remove pool }
  if !a.coldStartWorker then removed else
  { removed with
    scheduledFollowups := fun work => (a.scheduledFollowups.get work).filter fun scheduled => scheduled.pool ≠ pool
    pendingPoolFollowup := fun p =>
      if p = pool then (a.pendingPoolFollowup.get p).filter fun work => (a.scheduledFollowups.get work).isNone
      else a.pendingPoolFollowup.get p }

/-! ### Runs -/

inductive Event
  | drain (pending : List PoolInstanceId) (numbered submits : Bool)
  | queueRepair (pool : PoolInstanceId) (action : RepairAction) (numbered submits : Bool)
  | queueDeferred (pool : PoolInstanceId) (deferred : List DeferredWork) (numbered submits : Bool)
  | retainDeferred (pool : PoolInstanceId) (deferred : List DeferredWork)
  | commit (work : RuntimeWorkId) (outcome : CommitOutcome) (numbered : Bool)
  | fail (work : RuntimeWorkId) (staleBaseline numbered : Bool)
  | cancel (work : RuntimeWorkId) (numbered : Bool)
  | registerPool (pool : PoolInstanceId) (status : PoolStatus)
  | removePool (pool : PoolInstanceId)
  | attachWorker
  | loseTrust
  /-- Other work takes work numbers. -/
  | useWorkIds (count : Nat)

/-- What only a command does. -/
def Event.isCommand : Event → Bool
  | .queueRepair .. | .queueDeferred .. | .commit .. | .fail .. | .cancel .. | .registerPool .. | .attachWorker => true
  | _ => false

def step (a : AmmRuntimeActor) : Event → AmmRuntimeActor
  | .drain pending numbered submits => a.drainFollowupIntents pending numbered submits
  | .queueRepair pool action numbered submits => (a.queueRepair pool action numbered submits).1
  | .queueDeferred pool deferred numbered submits => (a.queueDeferred pool deferred numbered submits).1
  | .retainDeferred pool deferred => a.retainFollowupIntent pool (.deferred deferred)
  | .commit work outcome numbered => a.commitScheduled work outcome numbered
  | .fail work staleBaseline numbered => a.failScheduledWork work staleBaseline numbered
  | .cancel work numbered => (a.cancelScheduledWork work numbered).1
  | .registerPool pool status => a.registerPool pool status
  | .removePool pool => a.removePool pool
  | .attachWorker => { a with coldStartWorker := true }
  | .loseTrust => { a with trusted := false }
  | .useWorkIds count => { a with nextWorkId := a.nextWorkId + count }

end AmmRuntimeActor

/-- The actor with the repairs of the published batches that have not retained them yet, the last batch first. A batch waits
    at the fences of the pools that its reorg removes: there other batches are ingested, and no command is handled. -/
structure Machine where
  actor : AmmRuntimeActor
  waiting : List (Map PoolInstanceId RepairAction)

namespace Machine

inductive Event
  | ingest (point : AmmStatePoint) (logs : List AmmRuntimeActor.LogRepair) (degrades : PoolKey → Bool)
    (fullRefresh publishes : Bool)
  /-- The last batch goes on and retains its repairs, or fails where the pools and the work of a reorg are removed. -/
  | finishIngest (retains : Bool)
  | handle (event : AmmRuntimeActor.Event)

def step (m : Machine) : Event → Machine
  | .ingest point logs degrades fullRefresh publishes =>
    ⟨m.actor.ingest point logs degrades fullRefresh publishes,
      if m.actor.trusted && publishes then m.actor.batchRepairs logs fullRefresh :: m.waiting else m.waiting⟩
  | .finishIngest retains =>
    match m.waiting with
    | [] => m
    | repairs :: waiting => ⟨if retains then m.actor.retainRepairs repairs else m.actor, waiting⟩
  | .handle event => if event.isCommand ∧ m.waiting ≠ [] then m else { m with actor := m.actor.step event }

def run (m : Machine) (events : List Event) : Machine := events.foldl step m

end Machine
end AmmState.Repairs
