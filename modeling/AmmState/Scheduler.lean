import AmmState.Lib.Map
import AmmState.PriorityQueue
import AmmState.Types

/-! The cold-start worker (`cold_start_scheduler.rs`) as a state machine. Clients reserve capacity and send commands
    through `AmmColdStartWorkerControl`; the worker loop folds commands into its queue, dispatches quanta as child
    tasks and joins them; children release their lease before they hand a result to the runtime. Every atomic
    operation on a shared cell is a step of its own, so a run is any interleaving of them; only the swap and the
    subtraction of one `release` are taken together, as nothing but a release of the same lease reads its flag.

    A reservation is named by a number when it is taken. The name follows the job through the channel into its
    `AdmissionLease`; `admitted` and `released` record the history and are read by no step. -/

namespace AmmState.Scheduler

/-- What a job runs; a continuation carries its next provider round. -/
inductive ExecutionKind
  | new | discovery | slotPatch
  | continuing (nextRound : Nat)
  deriving DecidableEq

structure ColdStartExecution where
  work : RuntimeWorkId
  cls : AmmWorkClass
  kind : ExecutionKind

/-- A job of a client: its work attempt and service class. -/
structure Job where
  work : RuntimeWorkId
  cls : AmmWorkClass

inductive WorkerCommand
  | coldStartBatch (jobs : List Job)
  | discovery (job : Job)
  | slotPatch (job : Job)
  | cancel (work : RuntimeWorkId)

/-- The executions a command admits. -/
def WorkerCommand.executions : WorkerCommand → List ColdStartExecution
  | .coldStartBatch jobs => jobs.map fun job => ⟨job.work, job.cls, .new⟩
  | .discovery job => [⟨job.work, job.cls, .discovery⟩]
  | .slotPatch job => [⟨job.work, job.cls, .slotPatch⟩]
  | .cancel _ => []

def WorkerCommand.jobCount : WorkerCommand → Nat
  | .coldStartBatch jobs => jobs.length
  | .discovery _ | .slotPatch _ => 1
  | .cancel _ => 0

/-- A command with the reservation of each of its jobs. -/
structure Admitted where
  command : WorkerCommand
  reservations : List Nat

/-- An execution and its `AdmissionLease`, named by its reservation. -/
structure AcceptedExecution where
  execution : ColdStartExecution
  admission : Nat

/-- A `submit_command` call that holds its reservation; `checked` after it read the shutdown flag as unset. -/
structure Submission where
  admitted : Admitted
  checked : Bool

/-- A quantum's progress. `committing` follows the release of its lease; the last three are results of the task. -/
inductive ChildStatus
  | running
  | committing
  | continued (next : ColdStartExecution)
  | finished
  | failed

structure Child where
  id : Nat
  accepted : AcceptedExecution
  status : ChildStatus

/-- Where the worker task stands. -/
inductive Phase
  | top | fold | dispatch | select
  | close | announce | drainChannel | drainQueue | joining
  | stopped
  deriving DecidableEq

/-- What the worker task holds between taking a job out of its place and giving its reservation back: it tells
    the runtime of the cancellation in between. -/
inductive Hand
  | empty
  | command (a : Admitted)
  | lease (lease : Nat)

/-- A configuration that `spawn_cold_start_worker` accepts; both bounds are `usize`. -/
structure Config where
  queueCapacity : Nat
  maxConcurrency : Nat
  capacity_pos : 0 < queueCapacity
  concurrency_pos : 0 < maxConcurrency
  capacity_lt : queueCapacity < 2 ^ 64

structure State where
  acceptedJobs : Nat
  shutdown : Bool
  senders : Bool
  submitting : List Submission
  channel : List Admitted
  closed : Bool
  queued : PriorityQueue AcceptedExecution
  held : Nat → Bool
  children : List Child
  nextTask : Nat
  inFlight : Map Nat (RuntimeWorkId × Nat)
  abortByWork : Map RuntimeWorkId (Nat × Nat)
  externallyCancelled : Finset Nat
  hand : Hand
  phase : Phase
  admitted : Nat
  released : List Nat

/-- `AtomicUsize::fetch_sub`, which wraps. -/
def fetchSub (n k : Nat) : Nat := (n + (2 ^ 64 - k % 2 ^ 64)) % 2 ^ 64

def init : State where
  acceptedJobs := 0
  shutdown := false
  senders := true
  submitting := []
  channel := []
  closed := false
  queued := .new
  held := fun _ => false
  children := []
  nextTask := 0
  inFlight := .empty
  abortByWork := .empty
  externallyCancelled := ∅
  hand := .empty
  phase := .top
  admitted := 0
  released := []

namespace State

/-- `AdmissionLease::release`. -/
def release (s : State) (lease : Nat) : State :=
  if s.held lease then { s with
    held := Function.update s.held lease false
    acceptedJobs := fetchSub s.acceptedJobs 1
    released := lease :: s.released }
  else s

/-- Give back the reservations of a command that never became leases. -/
def rollBack (s : State) (a : Admitted) : State :=
  { s with
    acceptedJobs := fetchSub s.acceptedJobs a.command.jobCount
    released := a.reservations ++ s.released }

/-- `enqueue_command` for one job: a new lease and its place in the queue. -/
def enqueue (s : State) (job : ColdStartExecution × Nat) : State :=
  { s with
    queued := s.queued.push job.1.cls ⟨job.1, job.2⟩
    held := Function.update s.held job.2 true }

def enqueueCommand (s : State) (a : Admitted) : State :=
  (a.command.executions.zip a.reservations).foldl enqueue s

def handleWorkerCommand (s : State) (a : Admitted) : State :=
  match a.command with
  | .cancel work =>
    match s.queued.removeWhere fun job => job.execution.work = work with
    | (some job, queued) => { s with queued }.release job.admission
    | (none, _) =>
      match s.abortByWork.get work with
      | some (task, lease) =>
        { s with
          abortByWork := s.abortByWork.remove work
          externallyCancelled := insert task s.externallyCancelled }.release lease
      | none => s
  | _ => s.enqueueCommand a

/-- `children.spawn` of a popped job, recorded in both maps. -/
def spawn (s : State) (job : AcceptedExecution) : State :=
  { s with
    children := s.children ++ [⟨s.nextTask, job, .running⟩]
    nextTask := s.nextTask + 1
    inFlight := s.inFlight.insert s.nextTask (job.execution.work, job.admission)
    abortByWork := s.abortByWork.insert job.execution.work (s.nextTask, job.admission) }

def setStatus (s : State) (task : Nat) (status : ChildStatus) : State :=
  { s with children := s.children.map fun c => if c.id = task then { c with status } else c }

/-- Forget a joined task. -/
def forget (s : State) (c : Child) : State :=
  { s with
    children := s.children.filter fun d => d.id ≠ c.id
    inFlight := s.inFlight.remove c.id
    abortByWork := match s.inFlight.get c.id with
      | some (work, _) => s.abortByWork.remove work
      | none => s.abortByWork
    externallyCancelled := s.externallyCancelled.erase c.id }

/-- The lease that `in_flight` holds for a task. -/
def leaseOf (s : State) (task : Nat) : Hand :=
  match s.inFlight.get task with
  | some (_, lease) => .lease lease
  | none => .empty

/-- Give back what the worker task holds. -/
def settle (s : State) : State :=
  match s.hand with
  | .empty => s
  | .command a => { s with hand := .empty }.rollBack a
  | .lease lease => { s with hand := .empty }.release lease

/-- `join_next_with_id` in the main loop: a continuation is queued again unless it was cancelled meanwhile. -/
def join (s : State) (c : Child) : Option State :=
  match c.status with
  | .continued next =>
    if c.id ∈ s.externallyCancelled then some (s.forget c)
    else some { s.forget c with queued := s.queued.push next.cls ⟨next, c.accepted.admission⟩ }
  | .finished => some { s.forget c with hand := s.leaseOf c.id }.settle
  | .failed => some { s.forget c with hand := s.leaseOf c.id }
  | .running | .committing => none

/-- `join_next_with_id` after the loop: a continuation is released instead. -/
def joinRest (s : State) (c : Child) : Option State :=
  match c.status with
  | .continued _ =>
    if c.id ∈ s.externallyCancelled then some (s.forget c)
    else some { s.forget c with hand := .lease c.accepted.admission }
  | .finished => some { s.forget c with hand := s.leaseOf c.id }.settle
  | .failed => some { s.forget c with hand := s.leaseOf c.id }
  | .running | .committing => none

end State

inductive Action
  /-- `fetch_update` of `submit_command` succeeds. -/
  | reserve (command : WorkerCommand)
  /-- The `i`-th pending submission reads the shutdown flag. -/
  | checkShutdown (i : Nat)
  /-- The `i`-th pending submission sends its command. -/
  | send (i : Nat)
  | cancel (work : RuntimeWorkId)
  | requestShutdown
  | dropSenders
  /-- The next step of the worker task outside of `join_next_with_id`. -/
  | worker
  /-- The worker task takes the result of a child. -/
  | joinChild (task : Nat)
  /-- `commit_prepared` and its siblings release the lease before the handoff. -/
  | childRelease (task : Nat)
  | childContinue (task : Nat) (nextRound : Nat)
  | childFinish (task : Nat)
  /-- The task panics or its abort takes effect. -/
  | childFail (task : Nat)

/-- A quantum that may yield a continuation. -/
def ExecutionKind.resumable : ExecutionKind → Bool
  | .new | .continuing _ => true
  | .discovery | .slotPatch => false

namespace State

/-- One step of the worker task that is not a join. -/
def workerStep (cfg : Config) (s : State) : Option State :=
  match s.hand with
  | .command _ | .lease _ => some s.settle
  | .empty =>
  match s.phase with
  | .top => some { s with phase := if s.shutdown then .close else .fold }
  | .fold =>
    match s.channel with
    | [] => some { s with phase := .dispatch }
    | a :: rest => some ({ s with channel := rest }.handleWorkerCommand a)
  | .dispatch =>
    if s.children.length < cfg.maxConcurrency then
      match s.queued.pop with
      | (some job, queued) => some ({ s with queued }.spawn job)
      | (none, queued) => some { s with queued, phase := .select }
    else some { s with phase := .select }
  | .select =>
    if s.shutdown then some { s with phase := .close }
    else match s.channel with
      | a :: rest => some { { s with channel := rest }.handleWorkerCommand a with phase := .top }
      | [] => if s.senders then none else some { s with phase := .close }
  | .close => some { s with closed := true, phase := .announce }
  | .announce => some { s with shutdown := true, phase := .drainChannel }
  | .drainChannel =>
    match s.channel with
    | [] => some { s with phase := .drainQueue }
    | a :: rest => some { s with channel := rest, hand := .command a }
  | .drainQueue =>
    match s.queued.removeWhere fun _ => true with
    | (some job, queued) => some { s with queued, hand := .lease job.admission }
    | (none, _) => some { s with phase := .joining }
  | .joining => if s.children = [] then some { s with phase := .stopped } else none
  | .stopped => none

def childOf (s : State) (task : Nat) : Option Child := s.children.find? fun c => c.id = task

/-- Run one action; `none` when it is not enabled. -/
def step (cfg : Config) (s : State) : Action → Option State
  | .reserve command =>
    if s.senders ∧ 0 < command.jobCount ∧ s.acceptedJobs + command.jobCount ≤ cfg.queueCapacity then
      some { s with
        acceptedJobs := s.acceptedJobs + command.jobCount
        submitting := s.submitting ++
          [⟨⟨command, (List.range command.jobCount).map (s.admitted + ·)⟩, false⟩]
        admitted := s.admitted + command.jobCount }
    else none
  | .checkShutdown i =>
    match s.submitting[i]? with
    | some sub =>
      if sub.checked then none
      else if s.shutdown then some ({ s with submitting := s.submitting.eraseIdx i }.rollBack sub.admitted)
      else some { s with submitting := s.submitting.set i { sub with checked := true } }
    | none => none
  | .send i =>
    match s.submitting[i]? with
    | some sub =>
      if !sub.checked then none
      else if s.closed then some ({ s with submitting := s.submitting.eraseIdx i }.rollBack sub.admitted)
      else some { s with submitting := s.submitting.eraseIdx i, channel := s.channel ++ [sub.admitted] }
    | none => none
  | .cancel work =>
    if s.senders ∧ !s.closed then some { s with channel := s.channel ++ [⟨.cancel work, []⟩] } else none
  | .requestShutdown => some { s with shutdown := true }
  | .dropSenders => if s.submitting = [] then some { s with senders := false } else none
  | .worker => s.workerStep cfg
  | .joinChild task =>
    match s.childOf task, s.hand, s.phase with
    | some c, .empty, .select => (s.join c).map ({ · with phase := .top })
    | some c, .empty, .joining => s.joinRest c
    | _, _, _ => none
  | .childRelease task =>
    match s.childOf task with
    | some ⟨_, job, .running⟩ => some ((s.release job.admission).setStatus task .committing)
    | _ => none
  | .childContinue task nextRound =>
    match s.childOf task with
    | some ⟨_, job, .running⟩ =>
      if job.execution.kind.resumable then
        some (s.setStatus task (.continued { job.execution with kind := .continuing nextRound }))
      else none
    | _ => none
  | .childFinish task =>
    match s.childOf task with
    | some ⟨_, _, .running⟩ | some ⟨_, _, .committing⟩ => some (s.setStatus task .finished)
    | _ => none
  | .childFail task =>
    match s.childOf task with
    | some ⟨_, _, .running⟩ | some ⟨_, _, .committing⟩ => some (s.setStatus task .failed)
    | _ => none

end State

/-- The states that a started worker and its clients can reach. -/
inductive Reachable (cfg : Config) : State → Prop
  | init : Reachable cfg init
  | step {s t : State} (action : Action) : Reachable cfg s → s.step cfg action = some t → Reachable cfg t

/-- A sequence of actions, each of them enabled. -/
def State.run (cfg : Config) (s : State) (actions : List Action) : Option State :=
  actions.foldlM (fun s action => s.step cfg action) s

end AmmState.Scheduler
