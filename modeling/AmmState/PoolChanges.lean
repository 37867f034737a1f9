import AmmState.Lib.SortedMap
import AmmState.Recovery

/-! Which pools a batch changes, and how (`sync_pool_changes`, `record_state_change` and `record_purge_change` of
    `sync_manager.rs`), as `finish_ingest` reports it; and the preview that `ingest_preconfirmation` of
    `live_runtime.rs` publishes by that report. A report is the one of the recovery with the state diffs that the
    attribution reads. -/

namespace AmmState

instance : LinearOrder PoolKey where
  __ := LinearOrder.lift' PoolKey.rank PoolKey.rank_injective
  toDecidableEq := inferInstance
  compare a b := compareOfLessAndEq a b
  compare_eq_compareOfLessAndEq _ _ := rfl

namespace PoolChanges
open SyncManager SortDedup

/-! ### The report of a batch -/

/-- A purge, with whether the account itself went with it. -/
structure PurgeRecord extends SyncManager.PurgeRecord where
  accountRemoved : Bool

structure StateDiff where
  slots : List StateSlot
  accounts : List Address
  purged : List PurgeRecord

inductive StateEffectQuality
  | exactFromInput | appliedWithPendingResync | requiresRepair | noStateEffect
  deriving DecidableEq

structure AppliedReport where
  handlerId : HandlerId
  resyncs : List ResyncId
  hookSignals : List AmmReactiveSignal
  diff : StateDiff
  quality : StateEffectQuality

structure ResyncReport where
  stateUpdates : List StateUpdate
  diff : StateDiff
  failed : List ResyncFailure

inductive ReactiveReport
  | input (preconfirmed : Bool)
  | resynced (report : ResyncReport)
  | coverageGap (address : Address)
  | chain (report : Reorg.ReactiveReport StateUpdate ResyncId)

structure ReactiveBatchReport where
  reports : List ReactiveReport
  applied : List AppliedReport
  /-- The resyncs that the batch leaves to be done. -/
  resyncs : List ResyncId

def AppliedReport.marks (applied : AppliedReport) : SyncManager.AppliedReport where
  handlerId := applied.handlerId
  resyncs := applied.resyncs
  hookSignals := applied.hookSignals
  purged := applied.diff.purged.map (·.toPurgeRecord)

def ReactiveReport.marks : ReactiveReport → SyncManager.ReactiveReport
  | .input preconfirmed => .input preconfirmed
  | .resynced report => .resynced ⟨report.stateUpdates, report.diff.purged.map (·.toPurgeRecord), report.failed⟩
  | .coverageGap address => .coverageGap address
  | .chain report => .chain report

namespace ReactiveBatchReport

/-- The part of a report that the marking loops read. -/
def marks (report : ReactiveBatchReport) : SyncManager.ReactiveBatchReport where
  reports := report.reports.map (·.marks)
  applied := report.applied.map (·.marks)

def resyncReports (report : ReactiveBatchReport) : List ResyncReport :=
  report.reports.filterMap fun
    | .resynced report => some report
    | _ => none

/-- The message of the first error report. -/
def firstError (report : ReactiveBatchReport) : Option String :=
  report.reports.findSome? fun
    | .chain (.error message) => some message
    | _ => none

end ReactiveBatchReport

/-! ### Changes -/

inductive AmmSyncPoolChangeKind
  | updated | degraded | recovered | unknownImpact
  deriving DecidableEq

inductive AmmSyncChangeSource
  | direct | authoritativeResync | directAndAuthoritativeResync | lifecycleOnly | unknown
  deriving DecidableEq

namespace AmmSyncChangeSource

def withDirect : AmmSyncChangeSource → AmmSyncChangeSource
  | .authoritativeResync | .directAndAuthoritativeResync => .directAndAuthoritativeResync
  | .direct | .lifecycleOnly => .direct
  | .unknown => .unknown

def withAuthoritativeResync : AmmSyncChangeSource → AmmSyncChangeSource
  | .direct | .directAndAuthoritativeResync => .directAndAuthoritativeResync
  | .authoritativeResync | .lifecycleOnly => .authoritativeResync
  | .unknown => .unknown

end AmmSyncChangeSource

structure AmmChangeImpact where
  state : Bool
  quoteability : Bool
  topology : Bool
  deriving DecidableEq

namespace AmmChangeImpact

def stateOnly : AmmChangeImpact := ⟨true, false, false⟩

def quoteable : AmmChangeImpact := ⟨false, true, false⟩

def union (impact other : AmmChangeImpact) : AmmChangeImpact where
  state := impact.state || other.state
  quoteability := impact.quoteability || other.quoteability
  topology := impact.topology || other.topology

end AmmChangeImpact

structure AmmSyncPoolChange where
  pool : PoolKey
  kind : AmmSyncPoolChangeKind
  impact : AmmChangeImpact
  source : AmmSyncChangeSource
  deriving DecidableEq

abbrev Changes := SortedMap PoolKey AmmSyncPoolChange

def recordUnknown (impact : AmmChangeImpact) (changes : Changes) (pool : PoolKey) : Changes :=
  changes.insert pool ⟨pool, .unknownImpact, impact, .unknown⟩

def recordStateChange (source : AmmSyncChangeSource) (changes : Changes) (pool : PoolKey) : Changes :=
  changes.insert pool <| match changes.get pool with
    | none => ⟨pool, .updated, .stateOnly, source⟩
    | some change => { change with
        kind := .updated
        impact := change.impact.union .stateOnly
        source := match source with
          | .direct => change.source.withDirect
          | .authoritativeResync => change.source.withAuthoritativeResync
          | .directAndAuthoritativeResync => change.source.withDirect.withAuthoritativeResync
          | .lifecycleOnly => change.source
          | .unknown => .unknown }

/-- The pools of a purge, and whether the purge is known to have removed what it names. -/
def purgedPools (ownership : AmmOwnershipIndex) (purged : PurgeRecord) : List PoolInstanceId × Bool :=
  match purged.scope with
  | .slots slots =>
    let unique := sortDedup BitVec.toNat slots
    (unique.flatMap fun slot => ownership.poolsForSlot ⟨purged.address, slot⟩,
      decide (purged.slotsRemoved = unique.length))
  | .account | .allStorage => (ownership.poolsForAddress purged.address, true)
  | .other => (ownership.poolsForAddress purged.address, false)

def recordPurgeChange (ownership : AmmOwnershipIndex) (source : AmmSyncChangeSource) (changes : Changes)
    (purged : PurgeRecord) : Changes :=
  if purged.slotsRemoved = 0 ∧ purged.accountRemoved = false then changes
  else
    let (pools, exact) := purgedPools ownership purged
    let keys := sortDedup PoolKey.rank (pools.map (·.key))
    keys.foldl (if exact then recordStateChange source else recordUnknown ⟨true, true, false⟩) changes

def recordPools (source : AmmSyncChangeSource) (changes : Changes) (pools : List PoolInstanceId) : Changes :=
  pools.foldl (fun changes pool => recordStateChange source changes pool.key) changes

/-- The changes of one diff: its slots, its accounts, its purges. -/
def recordDiff (ownership : AmmOwnershipIndex) (source : AmmSyncChangeSource) (changes : Changes) (diff : StateDiff) :
    Changes :=
  let changes := diff.slots.foldl (fun changes slot => recordPools source changes (ownership.poolsForSlot slot)) changes
  let changes := diff.accounts.foldl
    (fun changes account => recordPools source changes (ownership.poolsForAddress account)) changes
  diff.purged.foldl (recordPurgeChange ownership source) changes

def recordSignal (hasNoResyncRequests : Bool) (changes : Changes) : AmmReactiveSignal → Changes
  | .event event =>
    if eventIsUnresolved event hasNoResyncRequests then recordUnknown ⟨true, true, false⟩ changes event.pool else changes
  | .poolEvent pool event =>
    if eventIsUnresolved event hasNoResyncRequests then recordUnknown ⟨true, true, false⟩ changes pool.key else changes
  | .decodeError pool => recordUnknown .quoteable changes pool
  | .poolDecodeError pool => recordUnknown .quoteable changes pool.key
  | .poolRepair _ => changes

def recordSignals (changes : Changes) (applied : AppliedReport) : Changes :=
  applied.hookSignals.foldl (recordSignal applied.resyncs.isEmpty) changes

def recordDegraded (changes : Changes) (pool : PoolKey) : Changes :=
  changes.insert pool <| match changes.get pool with
    | none => ⟨pool, .degraded, .quoteable, .lifecycleOnly⟩
    | some change => { change with kind := .degraded, impact := change.impact.union .quoteable }

def recordRecovered (changes : Changes) (pool : PoolKey) : Changes :=
  changes.insert pool <| match changes.get pool with
    | none => ⟨pool, .recovered, .quoteable, .authoritativeResync⟩
    | some change => { change with
        kind := .recovered
        impact := change.impact.union .quoteable
        source := change.source.withAuthoritativeResync }

def syncPoolChanges (ownership : AmmOwnershipIndex) (report : ReactiveBatchReport)
    (degraded recovered uncertain : List PoolKey) : List AmmSyncPoolChange :=
  let changes := uncertain.foldl (recordUnknown .quoteable) .empty
  let changes := report.applied.foldl recordSignals changes
  let changes := report.applied.foldl (fun changes applied => recordDiff ownership .direct changes applied.diff) changes
  let changes := report.resyncReports.foldl
    (fun changes resync => recordDiff ownership .authoritativeResync changes resync.diff) changes
  let changes := degraded.foldl recordDegraded changes
  let changes := recovered.foldl recordRecovered changes
  changes.entries.map Prod.snd

/-! ### The report of an ingest -/

structure AmmSyncBatchReport where
  reactive : ReactiveBatchReport
  preconfirmation : Bool
  affectedPools : List PoolKey
  poolChanges : List AmmSyncPoolChange
  requiresFullRefresh : Bool
  degradedPools : List PoolKey
  recoveredPools : List PoolKey
  resyncFailures : Nat
  pendingRepairs : List PoolInstanceId

/-- Every change of a batch that requires a full refresh counts as a loss of the pool. -/
def refreshAll (change : AmmSyncPoolChange) : AmmSyncPoolChange :=
  { change with kind := .degraded, impact := change.impact.union .quoteable, source := .unknown }

/-- `finish_ingest`. The pools that a canonical batch leaves uncertain are those that it degrades; a preconfirmation marks
    none. The resyncs that are untracked at the end do not count for what a pool depends on. -/
def finishIngest (report : ReactiveBatchReport) (deferRepairs : Bool) (eventFreeReorg : List BlockRef)
    (x : TargetedEngine) : Except AmmSyncError AmmSyncBatchReport × TargetedEngine :=
  match x.finishIngest report.marks deferRepairs eventFreeReorg with
  | (.error error, y) => (.error error, y)
  | (.ok pools, y) =>
    let full := !report.marks.preconfirmed && Reorg.requiresFullRefresh report.marks.chainReports eventFreeReorg
    let changes := syncPoolChanges y.ownership report pools.degradedPools pools.recoveredPools pools.degradedPools
    let changes := if full then changes.map refreshAll else changes
    (.ok {
      reactive := report
      preconfirmation := report.marks.preconfirmed
      affectedPools := changes.map (·.pool)
      poolChanges := changes
      requiresFullRefresh := full
      degradedPools := pools.degradedPools
      recoveredPools := pools.recoveredPools
      resyncFailures := report.marks.resyncFailures.length
      pendingRepairs := if full then ownedPools y.registry y.ownership else report.marks.pendingRepairs }, y)

/-- A batch as the reactive runtime answers it: refused, or with its report. -/
def ingestBatchDeferredRepairs (report : Option ReactiveBatchReport) (eventFreeReorg : List BlockRef) (x : TargetedEngine) :
    Except AmmSyncError AmmSyncBatchReport × TargetedEngine :=
  match report with
  | none => (.error .reactive, x)
  | some report => finishIngest report true eventFreeReorg x

/-! ### The preview of a Flashblock -/

def preconfirmationReadinessError (report : AmmSyncBatchReport) : Option String :=
  if report.requiresFullRefresh then some "the speculative batch requires a full authoritative refresh"
  else if report.resyncFailures ≠ 0 then some "the speculative batch contains failed resync targets"
  else if report.pendingRepairs ≠ [] then some "the speculative batch contains unresolved adapter repairs"
  else if report.reactive.resyncs ≠ [] then some "the speculative batch contains unresolved resync requests"
  else if report.reactive.applied.any fun applied =>
      applied.quality = .appliedWithPendingResync || applied.quality = .requiresRepair then
    some "the speculative batch contains non-exact state effects"
  else if report.poolChanges.any fun change => change.kind = .unknownImpact then
    some "the speculative batch has unknown pool impact"
  else none

inductive AmmRuntimeCommandError
  | untrusted
  | expectedPreconfirmation
  | chainMismatch (expected actual : Nat)
  | engine (error : AmmSyncError)
  | preconfirmationBatch (message : String)
  | eventSequenceExhausted

structure AmmPreconfirmedSnapshot where
  point : AmmStatePoint
  poolChanges : List AmmSyncPoolChange

structure AmmRuntimeActor where
  trusted : Bool
  point : AmmStatePoint
  engine : TargetedEngine
  preconfirmation : Option AmmPreconfirmedSnapshot

/-- A batch of unconfirmed blocks, with the answers that its ingest gets. -/
structure PreconfirmationBatch where
  /-- Whether the records of the batch all carry one Flashblock. -/
  valid : Bool
  chainId : Option Nat
  report : Option ReactiveBatchReport
  /-- Why the read sets of the affected pools are not ready to be quoted, if they are not. -/
  quoteReadiness : Option String
  /-- Whether the runtime event of a rejection could be published. -/
  rejectionPublished : Bool

def rejectPreconfirmation (batch : PreconfirmationBatch) (message : String) (a : AmmRuntimeActor) :
    Except AmmRuntimeCommandError AmmPreconfirmedSnapshot × AmmRuntimeActor :=
  (.error (if batch.rejectionPublished then .preconfirmationBatch message else .eventSequenceExhausted),
    { a with preconfirmation := none })

def ingestPreconfirmation (batch : PreconfirmationBatch) (a : AmmRuntimeActor) :
    Except AmmRuntimeCommandError AmmPreconfirmedSnapshot × AmmRuntimeActor :=
  if !a.trusted then (.error .untrusted, a)
  else if !batch.valid then (.error .expectedPreconfirmation, a)
  else match batch.chainId.filter (· ≠ a.point.chainId) with
  | some actual => (.error (.chainMismatch a.point.chainId actual), a)
  | none =>
    -- A failed replacement does not leave the earlier preview published.
    let a := { a with preconfirmation := none }
    match ingestBatchDeferredRepairs batch.report [] a.engine with
    | (.error error, engine) => (.error (.engine error), { a with engine })
    | (.ok report, engine) =>
      let a := { a with engine }
      if !report.preconfirmation then (.error .expectedPreconfirmation, a)
      else match report.reactive.firstError with
      | some message => rejectPreconfirmation batch message a
      | none =>
        match preconfirmationReadinessError report with
        | some reason => rejectPreconfirmation batch reason a
        | none =>
          match batch.quoteReadiness with
          | some error => rejectPreconfirmation batch error a
          | none =>
            let preview := ⟨a.point, report.poolChanges⟩
            (.ok preview, { a with preconfirmation := some preview })

end PoolChanges
end AmmState
