import AmmState.Runtime.Reorg
import AmmState.SyncEngine

/-! How an ingest of `AmmSyncEngine` degrades pools and recovers them (`sync_manager.rs`): the engine with the repair
    targets that its degraded pools wait on, the report of a batch of the reactive runtime, the marking loops in their
    order, and the recovery of the pools whose targets the batch refreshed. Of a report the parts are kept that these
    loops read; the cache, its eviction fences and the changes that a batch publishes are left out. -/

namespace AmmState

/-- Where an instance stands in the derived order of `PoolInstanceId`: by its key, then by its generation. -/
def PoolInstanceId.rank (pool : PoolInstanceId) : (Nat ×ₗ Nat ×ₗ List Nat ×ₗ Nat ×ₗ Nat) ×ₗ Nat :=
  toLex (pool.key.rank, pool.generation)

theorem PoolInstanceId.rank_injective : Function.Injective PoolInstanceId.rank := by
  rintro ⟨key, generation⟩ ⟨key', generation'⟩ h
  simp only [PoolInstanceId.rank, toLex_inj, Prod.mk.injEq] at h
  rw [PoolKey.rank_injective h.1, h.2]

namespace AmmOwnershipIndex
open SortDedup

/-- The pools of a slot: those that declare it and those that declare its whole account. -/
def poolsForSlot (x : AmmOwnershipIndex) (slot : StateSlot) : List PoolInstanceId :=
  sorted PoolInstanceId.rank_injective
    ((x.slotPools.get slot).getD ∅ ∪ (x.wholeAccountPools.get slot.address).getD ∅)

def poolsForAddress (x : AmmOwnershipIndex) (address : Address) : List PoolInstanceId :=
  sorted PoolInstanceId.rank_injective ((x.addressPools.get address).getD ∅)

end AmmOwnershipIndex

namespace SyncManager
open SortDedup

/-! ### The report of a batch -/

inductive ResyncTarget
  | storageSlot (address : Address) (slot : U256)
  | storageSlots (address : Address) (slots : List U256)
  | account (address : Address)

structure ResyncFailure where
  requestId : ResyncId
  target : ResyncTarget

inductive PurgeScope
  | account | allStorage
  | slots (slots : List U256)
  | other

structure PurgeRecord where
  address : Address
  scope : PurgeScope
  slotsRemoved : Nat

inductive StateUpdate
  | slot (address : Address) (slot value : U256)
  | other
  deriving DecidableEq

structure ResyncReport where
  stateUpdates : List StateUpdate
  purged : List PurgeRecord
  failed : List ResyncFailure

inductive ReactiveReport
  | input (preconfirmed : Bool)
  | resynced (report : ResyncReport)
  | coverageGap (address : Address)
  /-- A reorg, a missed range of blocks, an error, or a report that nothing here reads. -/
  | chain (report : Reorg.ReactiveReport StateUpdate ResyncId)

inductive UpdateQuality
  | exact | exactIfApplied | requiresRepair | conservativeInvalidation | ignored
  deriving DecidableEq

structure AdapterEvent where
  pool : PoolKey
  quality : UpdateQuality

inductive AmmReactiveSignal
  | event (event : AdapterEvent)
  | poolEvent (pool : PoolInstanceId) (event : AdapterEvent)
  | decodeError (pool : PoolKey)
  | poolDecodeError (pool : PoolInstanceId)
  | poolRepair (pool : PoolInstanceId)

/-- What one handler did: the resyncs that it asks for, its signals and what its updates purged. -/
structure AppliedReport where
  handlerId : HandlerId
  resyncs : List ResyncId
  hookSignals : List AmmReactiveSignal
  purged : List PurgeRecord

structure ReactiveBatchReport where
  reports : List ReactiveReport
  applied : List AppliedReport

namespace ReactiveBatchReport

/-- `report_preconfirmation`. -/
def preconfirmed (report : ReactiveBatchReport) : Bool :=
  report.reports.any fun
    | .input preconfirmed => preconfirmed
    | _ => false

def resyncReports (report : ReactiveBatchReport) : List ResyncReport :=
  report.reports.filterMap fun
    | .resynced report => some report
    | _ => none

def resyncFailures (report : ReactiveBatchReport) : List ResyncFailure := report.resyncReports.flatMap (·.failed)

/-- The slots that the resyncs of a batch refreshed. -/
def resyncRefreshes (report : ReactiveBatchReport) : List StateSlot :=
  (report.resyncReports.flatMap (·.stateUpdates)).filterMap fun
    | .slot address slot _ => some ⟨address, slot⟩
    | .other => none

def chainReports (report : ReactiveBatchReport) : List (Reorg.ReactiveReport StateUpdate ResyncId) :=
  report.reports.filterMap fun
    | .chain report => some report
    | _ => none

def coverageGaps (report : ReactiveBatchReport) : List Address :=
  report.reports.filterMap fun
    | .coverageGap address => some address
    | _ => none

/-- The pools of decode failures, in the order of their signals. -/
def decodeFailures (report : ReactiveBatchReport) : List PoolKey :=
  (report.applied.flatMap (·.hookSignals)).filterMap fun
    | .decodeError pool => some pool
    | .poolDecodeError pool => some pool.key
    | _ => none

def pendingRepairs (report : ReactiveBatchReport) : List PoolInstanceId :=
  sortDedup PoolInstanceId.rank <| (report.applied.flatMap (·.hookSignals)).filterMap fun
    | .poolRepair pool => some pool
    | _ => none

end ReactiveBatchReport

/-- Whether an event leaves the state of its pool unknown. -/
def eventIsUnresolved (event : AdapterEvent) (hasNoResyncRequests : Bool) : Bool :=
  hasNoResyncRequests && (event.quality = .requiresRepair || event.quality = .conservativeInvalidation)

def AppliedReport.unresolvedEvents (applied : AppliedReport) : List PoolKey :=
  applied.hookSignals.filterMap fun
    | .event event => if eventIsUnresolved event applied.resyncs.isEmpty then some event.pool else none
    | .poolEvent pool event => if eventIsUnresolved event applied.resyncs.isEmpty then some pool.key else none
    | _ => none

/-! ### The targets that a degraded pool waits on -/

/-- The failed repairs of a pool, and the fence that only an explicit refresh lifts. -/
structure PendingTargets where
  slots : List StateSlot
  requireExplicitRefresh : Bool
  deriving DecidableEq

/-- The pools that a failure counts for: the one that asked for the resync, when it is tracked, else every pool of the
    target. -/
def poolsForFailure (ownership : AmmOwnershipIndex) (failure : ResyncFailure) : List PoolInstanceId :=
  match ownership.resyncOwners.get failure.requestId with
  | some pool => [pool]
  | none =>
    match failure.target with
    | .storageSlot address slot => ownership.poolsForSlot ⟨address, slot⟩
    | .storageSlots address slots =>
      sortDedup PoolInstanceId.rank (slots.flatMap fun slot => ownership.poolsForSlot ⟨address, slot⟩)
    | .account address => ownership.poolsForAddress address

namespace PendingTargets

/-- `PendingTargets::default()`. -/
def empty : PendingTargets := ⟨[], false⟩

/-- The part of a target that a pool covers. -/
def covered (target : ResyncTarget) (pool : PoolInstanceId) (ownership : AmmOwnershipIndex) : PendingTargets :=
  match target with
  | .storageSlot address slot => ⟨if pool ∈ ownership.poolsForSlot ⟨address, slot⟩ then [⟨address, slot⟩] else [], false⟩
  | .storageSlots address slots =>
    ⟨(slots.map (StateSlot.mk address)).filter fun slot => decide (pool ∈ ownership.poolsForSlot slot), false⟩
  | .account address => ⟨[], decide (pool ∈ ownership.poolsForAddress address)⟩

/-- Fold other targets in, each slot once. -/
def merge (pending other : PendingTargets) : PendingTargets where
  slots := other.slots.foldl (fun slots slot => if slot ∈ slots then slots else slots ++ [slot]) pending.slots
  requireExplicitRefresh := pending.requireExplicitRefresh || other.requireExplicitRefresh

def isEmpty (pending : PendingTargets) : Bool := pending.slots.isEmpty && !pending.requireExplicitRefresh

def satisfiedBy (pending : PendingTargets) (refreshed : List StateSlot) : Bool :=
  !pending.requireExplicitRefresh && pending.slots.all (· ∈ refreshed)

end PendingTargets

/-- Every slot of a nonempty read set was refreshed. -/
def readSetRefreshed (dependencies : PoolStateDependencies) (refreshed : List StateSlot) : Bool :=
  !dependencies.slots.isEmpty && dependencies.slots.all (· ∈ refreshed)

def shouldRecover (dependencies : PoolStateDependencies) (targets : Option PendingTargets)
    (refreshed : List StateSlot) : Bool :=
  match targets with
  | some pending => if !pending.isEmpty then pending.satisfiedBy refreshed else readSetRefreshed dependencies refreshed
  | none => readSetRefreshed dependencies refreshed

/-! ### The engine with its targets -/

/-- The engine with the targets that its degraded pools wait on. -/
structure TargetedEngine extends AmmSyncEngine where
  degradedTargets : Map PoolKey PendingTargets

/-- What an ingest reports of its pools. -/
structure AmmSyncBatchReport where
  degradedPools : List PoolKey
  recoveredPools : List PoolKey

namespace TargetedEngine

/-- `set_pool_status`: whether the pool is known, and the engine with its status. -/
def setPoolStatus (key : PoolKey) (status : PoolStatus) (x : TargetedEngine) : Bool × TargetedEngine :=
  ((x.registry.pool key).isSome, { x with toAmmSyncEngine := x.toAmmSyncEngine.setPoolStatus status key })

/-- Set the status of each pool of a list. -/
def setAll (status : PoolStatus) (keys : List PoolKey) (x : TargetedEngine) : TargetedEngine :=
  keys.foldl (fun x key => (x.setPoolStatus key status).2) x

/-- Degrade the pools of a list; the known ones among them are returned. -/
def degradeKnown : List PoolKey → TargetedEngine → List PoolKey × TargetedEngine
  | [], x => ([], x)
  | key :: rest, x =>
    let (known, x) := x.setPoolStatus key .degraded
    let (degraded, x) := degradeKnown rest x
    (if known then key :: degraded else degraded, x)

def trackReportResyncs (report : ReactiveBatchReport) (x : TargetedEngine) :
    Except AmmSyncError (List ResyncId) × TargetedEngine :=
  match (report.applied.map fun applied => (applied.handlerId, applied.resyncs)).foldlM
      (Tracking.applied x.ownership) ⟨[], []⟩ with
  | .error error => (.error error, x)
  | .ok tracking =>
    match trackPending tracking.pending x.ownership with
    | (.error error, ownership) => (.error (.ownership error), { x with ownership })
    | (.ok _, ownership) => (.ok tracking.tracked, { x with ownership })

/-- Record one failure for one of its pools, and degrade the pool. -/
def recordFailure (failure : ResyncFailure) (acc : List PoolKey × TargetedEngine) (pool : PoolInstanceId) :
    List PoolKey × TargetedEngine :=
  let x := acc.2
  let recorded := PendingTargets.covered failure.target pool x.ownership
  let targets := (x.degradedTargets.get pool.key).getD .empty
  (if pool.key ∈ acc.1 then acc.1 else acc.1 ++ [pool.key],
    (setPoolStatus pool.key .degraded
      { x with degradedTargets := x.degradedTargets.insert pool.key (targets.merge recorded) }).2)

def markFailure (acc : List PoolKey × TargetedEngine) (failure : ResyncFailure) : List PoolKey × TargetedEngine :=
  (poolsForFailure acc.2.ownership failure).foldl (recordFailure failure) acc

def markFailedResyncPools (report : ReactiveBatchReport) (x : TargetedEngine) : List PoolKey × TargetedEngine :=
  report.resyncFailures.foldl markFailure ([], x)

def markDecodeFailedPools (report : ReactiveBatchReport) (x : TargetedEngine) : List PoolKey × TargetedEngine :=
  let (degraded, x) := x.degradeKnown report.decodeFailures
  (sortDedup PoolKey.rank degraded, x)

/-- The repairs that are left to the background. -/
def markPendingRepairs (report : ReactiveBatchReport) (x : TargetedEngine) : List PoolKey × TargetedEngine :=
  let keys := report.pendingRepairs.map (·.key)
  (keys, x.setAll .degraded keys)

def markUnresolvedEventPools (report : ReactiveBatchReport) (x : TargetedEngine) : List PoolKey × TargetedEngine :=
  let (degraded, x) := x.degradeKnown (report.applied.flatMap (·.unresolvedEvents))
  (sortDedup PoolKey.rank degraded, x)

/-- The pools of a purge that removed some of its slots and not all of them. -/
def ambiguousPools (ownership : AmmOwnershipIndex) (purged : PurgeRecord) : List PoolKey :=
  match purged.scope with
  | .slots slots =>
    let unique := sortDedup BitVec.toNat slots
    if purged.slotsRemoved = 0 ∨ purged.slotsRemoved = unique.length then []
    else (unique.flatMap fun slot => ownership.poolsForSlot ⟨purged.address, slot⟩).map (·.key)
  | _ => []

def markAmbiguousPurgePools (report : ReactiveBatchReport) (x : TargetedEngine) : List PoolKey × TargetedEngine :=
  let purges := report.applied.flatMap (·.purged) ++ report.resyncReports.flatMap (·.purged)
  let affected := sortDedup PoolKey.rank (purges.flatMap (ambiguousPools x.ownership))
  (affected, x.setAll .degraded affected)

def markCoverageGapPools (report : ReactiveBatchReport) (x : TargetedEngine) : List PoolKey × TargetedEngine :=
  let affected := sortDedup PoolKey.rank
    ((report.coverageGaps.flatMap x.ownership.poolsForAddress).map (·.key))
  (affected, x.setAll .degraded affected)

def markAllPoolsDegraded (x : TargetedEngine) : List PoolKey × TargetedEngine :=
  let keys := (ownedPools x.registry x.ownership).map (·.key)
  (keys, x.setAll .degraded keys)

def requireExplicitRefresh (pools : List PoolKey) (x : TargetedEngine) : TargetedEngine :=
  { x with degradedTargets := pools.foldl (fun targets key =>
      targets.insert key { (targets.get key).getD .empty with requireExplicitRefresh := true }) x.degradedTargets }

/-- The pools that the refreshed slots recover, in their order. -/
def recoverable (refreshed : List StateSlot) (degradedNow : List PoolKey) (x : TargetedEngine) : List PoolInstanceId :=
  (((sortDedup PoolInstanceId.rank (refreshed.flatMap x.ownership.poolsForSlot)).filter fun pool =>
        (x.registry.pool pool.key).any (·.status = .degraded)).filter fun pool => decide (pool.key ∉ degradedNow)).filter
    fun pool => (x.ownership.pools.get pool).any fun owned =>
      shouldRecover owned.dependencies (x.degradedTargets.get pool.key) refreshed

def recoverOne (x : TargetedEngine) (key : PoolKey) : TargetedEngine :=
  let x := (x.setPoolStatus key .ready).2
  { x with degradedTargets := x.degradedTargets.remove key }

def recoverResyncedPools (report : ReactiveBatchReport) (degradedNow : List PoolKey) (x : TargetedEngine) :
    List PoolKey × TargetedEngine :=
  let refreshed := report.resyncRefreshes
  if refreshed.isEmpty then ([], x)
  else
    let recovered := (x.recoverable refreshed degradedNow).map (·.key)
    (recovered, recovered.foldl recoverOne x)

/-- The marking loops of an ingest: the pools of failed resyncs, the pools that need an explicit refresh, and the engine
    with all of them degraded. -/
def markPools (report : ReactiveBatchReport) (deferRepairs : Bool) (eventFreeReorg : List BlockRef) (x : TargetedEngine) :
    List PoolKey × List PoolKey × TargetedEngine :=
  let (failed, x) := x.markFailedResyncPools report
  let (decodeFailed, x) := x.markDecodeFailedPools report
  let (repairs, x) := if deferRepairs then x.markPendingRepairs report else ([], x)
  let (unresolved, x) := x.markUnresolvedEventPools report
  let (purged, x) := x.markAmbiguousPurgePools report
  let (uncovered, x) := x.markCoverageGapPools report
  let (all, x) :=
    if Reorg.requiresFullRefresh report.chainReports eventFreeReorg then x.markAllPoolsDegraded else ([], x)
  (failed, decodeFailed ++ repairs ++ unresolved ++ purged ++ uncovered ++ all, x)

def untrackResyncs (tracked : List ResyncId) (x : TargetedEngine) : TargetedEngine :=
  { x with ownership := tracked.foldl (fun ownership resync => (ownership.untrackResync resync).2) x.ownership }

def finishIngest (report : ReactiveBatchReport) (deferRepairs : Bool) (eventFreeReorg : List BlockRef)
    (x : TargetedEngine) : Except AmmSyncError AmmSyncBatchReport × TargetedEngine :=
  if report.preconfirmed then (.ok ⟨[], []⟩, x)
  else match x.trackReportResyncs report with
  | (.error error, x) => (.error error, x)
  | (.ok tracked, x) =>
    let (failed, explicit, x) := x.markPools report deferRepairs eventFreeReorg
    let explicit := sortDedup PoolKey.rank explicit
    let x := x.requireExplicitRefresh explicit
    let degraded := sortDedup PoolKey.rank (failed ++ explicit)
    let (recovered, x) := x.recoverResyncedPools report degraded
    (.ok ⟨degraded, sortDedup PoolKey.rank recovered⟩, x.untrackResyncs tracked)

end TargetedEngine

/-- One batch as the reactive runtime answers it: refused, or with its report. -/
structure IngestedBatch where
  report : Option ReactiveBatchReport
  deferRepairs : Bool
  eventFreeReorg : List BlockRef

namespace TargetedEngine

def ingestBatch (x : TargetedEngine) (batch : IngestedBatch) : Except AmmSyncError AmmSyncBatchReport × TargetedEngine :=
  match batch.report with
  | none => (.error .reactive, x)
  | some report => x.finishIngest report batch.deferRepairs batch.eventFreeReorg

/-- The engine after a run of batches. -/
def ingestBatches (x : TargetedEngine) (batches : List IngestedBatch) : TargetedEngine :=
  batches.foldl (fun x batch => (x.ingestBatch batch).2) x

end TargetedEngine
end SyncManager
end AmmState
