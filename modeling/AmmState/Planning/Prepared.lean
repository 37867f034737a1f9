import AmmState.Lib.SortDedup
import AmmState.Planning.Plan

/-! The resumable cold-start job of a worker (`cold_start.rs`, `prepared.rs`). A planner does not live across the rounds of
    a job: every step builds it anew and replays the rounds so far. -/

namespace AmmState.Planning
open V3 (StateView)
open Repairs (StorageSlot ColdStartPolicy DeferredWork)

/-! ### Provider rounds -/

/-- The slots of one round, at the hash of the baseline. -/
structure StorageRoundRequest where
  blockHash : B256
  verify : List StorageSlot
  probe : List StorageSlot

/-- What a provider answers: an outcome for each slot, and the values to inject. -/
structure StorageRound where
  fetched : List SlotOutcome
  probed : List SlotOutcome
  patch : List (Cell × U256)

/-- The storage fetcher of a job: it may fail, and what it answers may depend on everything it was asked before. -/
abbrev StorageRoundFetcher (W E : Type) := W → StorageRoundRequest → W × Except E StorageRound

/-! ### Prepared state -/

/-- State that is ready to commit, over the accounts that were proven for it. -/
structure AmmPreparedPoolState (Account : Type) where
  registration : PoolRegistration
  baseline : AmmStatePoint
  storage : List (Cell × U256)
  accounts : List Account
  deferred : List DeferredWork

/-- The values in cell order; two values for one cell are refused. -/
def preparedStorage (storage : List (Cell × U256)) : Except Cell (List (Cell × U256)) :=
  let storage := SortDedup.sortBy Prod.fst storage
  match storage.find? fun entry => 1 < (storage.map Prod.fst).count entry.1 with
  | some duplicate => .error duplicate.1
  | none => .ok storage

inductive UnsupportedPreparedPhase
  | accounts | discover | probeRoots
  deriving DecidableEq

inductive PreparedColdStartError (E : Type)
  | unsupported (reason : UnsupportedReason)
  | unsupportedPhase (phase : UnsupportedPreparedPhase)
  | invalidRoundBudget
  | roundBudgetExceeded (maxRounds : Nat)
  | storageFetch (error : E)
  | plannerTranscriptDiverged
  | notReady (outcome : ColdStartOutcome)
  | prepared (duplicate : Cell)

/-! ### Rounds -/

/-- What a planner sees: the values of the worker over the base. -/
def workerStateView (base : StateView) (storage : SortedMap Cell U256) : StateView := fun address slot =>
  (storage.get ⟨address, slot⟩).or (base.storage address slot)

structure PreparedRound where
  plan : ColdStartPlan
  results : ColdStartResults
  storage : SortedMap Cell U256

inductive PreparedPoolStep (Account : Type)
  | continues (completedRounds maxRounds : Nat)
  | done (prepared : AmmPreparedPoolState Account)

def samePreparedPlan (left right : ColdStartPlan) : Bool :=
  decide (left.verify = right.verify) && decide (left.probe = right.probe) &&
    decide (left.probeRoots = right.probeRoots) && decide (left.accounts = right.accounts) &&
    decide (left.discover.length = right.discover.length) &&
    (left.discover.zip right.discover).all fun (left, right) =>
      decide (left.sender = right.sender) && decide (left.target = right.target) &&
        decide (left.calldata = right.calldata) && decide (left.restrictTo = right.restrictTo)

def rejectUnsupportedPhase {E : Type} (plan : ColdStartPlan) : Except (PreparedColdStartError E) Unit :=
  if plan.accounts ≠ [] then .error (.unsupportedPhase .accounts)
  else if plan.discover ≠ [] then .error (.unsupportedPhase .discover)
  else if plan.probeRoots ≠ [] then .error (.unsupportedPhase .probeRoots)
  else .ok ()

def isFetchFailed (outcome : SlotOutcome) : Bool :=
  match outcome.fetch with
  | .fetchFailed _ => true
  | .value _ | .zero | .notAttempted => false

def absorbWorkerRound (report : ColdStartRunReport) (plan : ColdStartPlan) (results : ColdStartResults) :
    ColdStartRunReport :=
  { report with
    rounds := report.rounds + 1
    verifiedSlots := report.verifiedSlots + plan.verify.length
    changedSlots := report.changedSlots + results.verified.length
    failedSlots := report.failedSlots + ((results.fetched ++ results.probed).filter isFetchFailed).length }

/-! ### The job -/

structure PreparedPoolJob (Account : Type) where
  planner : AdapterColdStartPlanner
  pool : PoolRegistration
  baseline : AmmStatePoint
  policy : ColdStartPolicy
  base : StateView
  accounts : List Account
  maxRounds : Nat
  rounds : List PreparedRound
  report : ColdStartRunReport
  accumulated : SortedMap Cell U256

/-- The storage of a round while its patch is injected, with what the injections change. -/
structure Injection where
  storage : SortedMap Cell U256
  accumulated : SortedMap Cell U256
  verified : List SlotChange

def inject (base : StateView) (s : Injection) (entry : Cell × U256) : Injection :=
  let (cell, new) := entry
  let old := ((s.storage.get cell).or (base.storage cell.address cell.slot)).getD 0
  { storage := s.storage.insert cell new
    accumulated := s.accumulated.insert cell new
    verified := if old ≠ new then s.verified ++ [⟨cell.address, cell.slot, old, new⟩] else s.verified }

namespace PreparedPoolJob
variable {W E Account : Type}

/-- The job of a pool whose adapter was found and whose accounts were proven before. -/
def new (planner : AdapterColdStartPlanner) (pool : PoolRegistration) (baseline : AmmStatePoint) (policy : ColdStartPolicy)
    (base : StateView) (accounts : List Account) (maxRounds : Nat) :
    Except (PreparedColdStartError E) (PreparedPoolJob Account) :=
  if maxRounds = 0 then .error .invalidRoundBudget
  else match planner.coldStartPlanner pool policy with
    | .error reason => .error (.unsupported reason)
    | .ok _ => .ok ⟨planner, pool, baseline, policy, base, accounts, maxRounds, [], .empty, .empty⟩

/-- A fresh planner goes through the rounds of the transcript, each with the storage that followed it. -/
def replay (planner : AdapterColdStartPlanner) (base : StateView) :
    planner.State → ColdStartPlan → List PreparedRound → Except (PreparedColdStartError E) (planner.State × ColdStartPlan)
  | state, plan, [] => .ok (state, plan)
  | state, plan, historical :: rest =>
    if !samePreparedPlan plan historical.plan then .error .plannerTranscriptDiverged
    else match planner.onResults state historical.results (workerStateView base historical.storage) with
      | (state, .continues next) => replay planner base state next rest
      | (_, .done) => .error .plannerTranscriptDiverged

/-- The planner and the plan of the next round. -/
def resume (job : PreparedPoolJob Account) :
    Except (PreparedColdStartError E) (job.planner.State × ColdStartPlan) :=
  match job.planner.coldStartPlanner job.pool job.policy with
  | .error reason => .error (.unsupported reason)
  | .ok state =>
    let (state, plan) := job.planner.initialPlan state (workerStateView job.base .empty)
    replay job.planner job.base state plan job.rounds

/-- The storage after the last round. -/
def lastStorage (job : PreparedPoolJob Account) : SortedMap Cell U256 :=
  (job.rounds.getLast?.map PreparedRound.storage).getD .empty

/-- The artifact of a finished job. -/
def finished (job : PreparedPoolJob Account) (state : job.planner.State) :
    Except (PreparedColdStartError E) (AmmPreparedPoolState Account) :=
  let (pool, outcome) := job.planner.finish state job.pool job.report
  let prepare (deferred : List DeferredWork) := match preparedStorage job.accumulated.entries with
    | .error duplicate => .error (.prepared duplicate)
    | .ok storage => .ok ⟨pool, job.baseline, storage, job.accounts, deferred⟩
  match outcome with
  | .ready _ => prepare []
  | .readyWithDeferred _ deferred => prepare deferred
  | outcome => .error (.notReady outcome)

/-- The round of a plan with the provider's answer: the job after it, and what the planner sees of it. -/
def record (job : PreparedPoolJob Account) (plan : ColdStartPlan) (round : StorageRound) :
    PreparedPoolJob Account × ColdStartResults × SortedMap Cell U256 :=
  let injected := round.patch.foldl (inject job.base) ⟨job.lastStorage, job.accumulated, []⟩
  let results : ColdStartResults := ⟨injected.verified, round.fetched, round.probed⟩
  ({ job with
      rounds := job.rounds ++ [⟨plan, results, injected.storage⟩]
      report := absorbWorkerRound job.report plan results
      accumulated := injected.accumulated }, results, injected.storage)

/-- One provider round. -/
def step (fetch : StorageRoundFetcher W E) (w : W) (job : PreparedPoolJob Account) :
    W × PreparedPoolJob Account × Except (PreparedColdStartError E) (PreparedPoolStep Account) :=
  if job.maxRounds ≤ job.rounds.length then (w, job, .error (.roundBudgetExceeded job.maxRounds))
  else match job.resume with
    | .error error => (w, job, .error error)
    | .ok (state, plan) =>
      match rejectUnsupportedPhase plan with
      | .error error => (w, job, .error error)
      | .ok _ =>
        match fetch w ⟨job.baseline.blockHash, plan.verify, plan.probe⟩ with
        | (w, .error error) => (w, job, .error (.storageFetch error))
        | (w, .ok round) =>
          let (next, results, storage) := job.record plan round
          match job.planner.onResults state results (workerStateView job.base storage) with
          | (_, .continues _) => (w, next, .ok (.continues next.rounds.length job.maxRounds))
          | (state, .done) =>
            (w, next, match finished { job with report := next.report, accumulated := next.accumulated } state with
              | .error error => .error error
              | .ok prepared => .ok (.done prepared))

/-- Steps until the job is done or fails; `none` where the fuel runs out first. -/
def drive (fetch : StorageRoundFetcher W E) : Nat → W → PreparedPoolJob Account →
    Option (W × PreparedPoolJob Account × Except (PreparedColdStartError E) (AmmPreparedPoolState Account))
  | 0, _, _ => none
  | fuel + 1, w, job =>
    match job.step fetch w with
    | (w, job, .ok (.continues _ _)) => drive fetch fuel w job
    | (w, job, .ok (.done prepared)) => some (w, job, .ok prepared)
    | (w, job, .error error) => some (w, job, .error error)

end PreparedPoolJob
end AmmState.Planning
