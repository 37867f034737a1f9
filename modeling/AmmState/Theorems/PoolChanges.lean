import AmmState.PoolChanges
import AmmState.Theorems.Recovery

/-! Which pools `sync_pool_changes` reports, and when it hides that the state of a pool is unknown. The kind of a pool after
    all passes follows from the last change of the batch that hits it (`kind_syncPoolChanges`); a canonical batch degrades
    every pool that it leaves unknown, a preconfirmation degrades none. -/

namespace AmmState
namespace PoolChanges
open SyncManager SortDedup

variable {ownership : AmmOwnershipIndex} {report : ReactiveBatchReport} {changes : Changes} {pool : PoolKey}

/-! ### The changes that a report carries -/

/-- One change of a state diff. -/
inductive StateChange
  | slot (slot : StateSlot)
  | account (account : Address)
  | purge (purged : PurgeRecord)

namespace StateChange

/-- The pools that own what a change touches; a purge that removed nothing touches nothing. -/
def pools (ownership : AmmOwnershipIndex) : StateChange → List PoolKey
  | .slot s => (ownership.poolsForSlot s).map (·.key)
  | .account a => (ownership.poolsForAddress a).map (·.key)
  | .purge purged =>
    if purged.slotsRemoved = 0 ∧ purged.accountRemoved = false then []
    else (purgedPools ownership purged).1.map (·.key)

/-- Whether it is known what a change did: all but the purges that removed a part of what they name. -/
def exact (ownership : AmmOwnershipIndex) : StateChange → Bool
  | .purge purged => (purgedPools ownership purged).2
  | _ => true

end StateChange

def StateDiff.stateChanges (diff : StateDiff) : List StateChange :=
  diff.slots.map .slot ++ diff.accounts.map .account ++ diff.purged.map .purge

/-- The changes of a report in the order in which they are recorded: those of its handlers, then those of its resyncs. -/
def ReactiveBatchReport.stateChanges (report : ReactiveBatchReport) : List StateChange :=
  report.applied.flatMap (·.diff.stateChanges) ++ report.resyncReports.flatMap (·.diff.stateChanges)

/-- The last change of a report that hits a pool. -/
def lastHit (ownership : AmmOwnershipIndex) (report : ReactiveBatchReport) (pool : PoolKey) : Option StateChange :=
  (report.stateChanges.filter fun change => decide (pool ∈ change.pools ownership)).getLast?

/-- The last change of a report that hits a pool is an exact one, which hides what came before it. -/
def Hidden (ownership : AmmOwnershipIndex) (report : ReactiveBatchReport) (pool : PoolKey) : Prop :=
  ∃ change, lastHit ownership report pool = some change ∧ change.exact ownership = true

/-! ### Kinds -/

/-- The kind that is recorded for a pool. -/
def kindOf (changes : Changes) (pool : PoolKey) : Option AmmSyncPoolChangeKind := (changes.get pool).map (·.kind)

/-- Every change is recorded under its pool. -/
def Keyed (changes : Changes) : Prop := ∀ pool change, changes.get pool = some change → change.pool = pool

/-- A pass that records one kind for one pool. -/
structure Records (record : Changes → PoolKey → Changes) (kind : AmmSyncPoolChangeKind) : Prop where
  keyed : ∀ changes pool, Keyed changes → Keyed (record changes pool)
  kind : ∀ changes pool other,
    kindOf (record changes pool) other = if other = pool then some kind else kindOf changes other

/-- A pass that inserts, for its pool, a change of one kind under that pool. -/
theorem records_of_insert {record : Changes → PoolKey → Changes} {kind : AmmSyncPoolChangeKind}
    (h : ∀ changes pool, ∃ change : AmmSyncPoolChange, record changes pool = changes.insert pool change ∧
      change.kind = kind ∧ (Keyed changes → change.pool = pool)) : Records record kind where
  keyed changes pool hkeyed other change hget := by
    obtain ⟨inserted, hrecord, -, hpool⟩ := h changes pool
    rw [hrecord, SortedMap.get_insert] at hget
    split_ifs at hget with hother
    · obtain rfl := Option.some.inj hget
      rw [hpool hkeyed, hother]
    · exact hkeyed other change hget
  kind changes pool other := by
    obtain ⟨inserted, hrecord, hkind, -⟩ := h changes pool
    rw [kindOf, hrecord, SortedMap.get_insert]
    split_ifs with hother
    · rw [Option.map_some, hkind]
    · rfl

theorem records_unknown (impact : AmmChangeImpact) : Records (recordUnknown impact) .unknownImpact :=
  records_of_insert fun _ _ => ⟨_, rfl, rfl, fun _ => rfl⟩

theorem records_stateChange (source : AmmSyncChangeSource) : Records (recordStateChange source) .updated := by
  refine records_of_insert fun changes pool => ⟨_, rfl, ?_, fun hkeyed => ?_⟩
  · cases changes.get pool <;> rfl
  · cases hget : changes.get pool with
    | none => rfl
    | some change => exact hkeyed pool change hget

theorem records_degraded : Records recordDegraded .degraded := by
  refine records_of_insert fun changes pool => ⟨_, rfl, ?_, fun hkeyed => ?_⟩
  · cases changes.get pool <;> rfl
  · cases hget : changes.get pool with
    | none => rfl
    | some change => exact hkeyed pool change hget

theorem records_recovered : Records recordRecovered .recovered := by
  refine records_of_insert fun changes pool => ⟨_, rfl, ?_, fun hkeyed => ?_⟩
  · cases changes.get pool <;> rfl
  · cases hget : changes.get pool with
    | none => rfl
    | some change => exact hkeyed pool change hget

namespace Records
variable {record : Changes → PoolKey → Changes} {kind : AmmSyncPoolChangeKind}

theorem foldl_keyed (h : Records record kind) (keys : List PoolKey) (hkeyed : Keyed changes) :
    Keyed (keys.foldl record changes) := by
  induction keys generalizing changes with
  | nil => exact hkeyed
  | cons key rest ih => exact ih (h.keyed changes key hkeyed)

theorem foldl_kind (h : Records record kind) (keys : List PoolKey) (changes : Changes) (pool : PoolKey) :
    kindOf (keys.foldl record changes) pool = if pool ∈ keys then some kind else kindOf changes pool := by
  induction keys generalizing changes with
  | nil => simp
  | cons key rest ih =>
    rw [List.foldl_cons, ih, h.kind]
    by_cases hrest : pool ∈ rest
    · simp [hrest]
    · simp [hrest]

end Records

/-! ### The passes -/

/-- The kind of a pool after a change hits it or leaves it. -/
def hit (ownership : AmmOwnershipIndex) (pool : PoolKey) (kind : Option AmmSyncPoolChangeKind) (change : StateChange) :
    Option AmmSyncPoolChangeKind :=
  if pool ∈ change.pools ownership then some (if change.exact ownership then .updated else .unknownImpact) else kind

theorem recordPurgeChange_spec (source : AmmSyncChangeSource) (purged : PurgeRecord) (changes : Changes) :
    (Keyed changes → Keyed (recordPurgeChange ownership source changes purged)) ∧
      kindOf (recordPurgeChange ownership source changes purged) pool =
        hit ownership pool (kindOf changes pool) (.purge purged) := by
  unfold recordPurgeChange hit StateChange.pools StateChange.exact
  by_cases hnone : purged.slotsRemoved = 0 ∧ purged.accountRemoved = false
  · simp only [if_pos hnone]
    exact ⟨id, by simp⟩
  · simp only [if_neg hnone]
    have hrecords : Records
        (if (purgedPools ownership purged).2 then recordStateChange source else recordUnknown ⟨true, true, false⟩)
        (if (purgedPools ownership purged).2 then .updated else .unknownImpact) := by
      split_ifs
      · exact records_stateChange source
      · exact records_unknown _
    refine ⟨hrecords.foldl_keyed _, ?_⟩
    rw [hrecords.foldl_kind]
    simp only [mem_sortDedup_iff]

/-- The changes of a list of pools, recorded one by one. -/
theorem recordPools_spec (source : AmmSyncChangeSource) (pools : List PoolInstanceId) (changes : Changes) :
    (Keyed changes → Keyed (recordPools source changes pools)) ∧
      kindOf (recordPools source changes pools) pool =
        if pool ∈ pools.map (·.key) then some .updated else kindOf changes pool := by
  have hfold : recordPools source changes pools = (pools.map (·.key)).foldl (recordStateChange source) changes := by
    rw [recordPools, List.foldl_map]
  rw [hfold]
  exact ⟨(records_stateChange source).foldl_keyed _, (records_stateChange source).foldl_kind _ _ _⟩

/-- A pass over a list whose steps each hit what one change hits. -/
theorem foldl_hits {α : Type} (record : Changes → α → Changes) (change : α → StateChange)
    (h : ∀ changes a, (Keyed changes → Keyed (record changes a)) ∧
      kindOf (record changes a) pool = hit ownership pool (kindOf changes pool) (change a))
    (l : List α) (changes : Changes) :
    (Keyed changes → Keyed (l.foldl record changes)) ∧
      kindOf (l.foldl record changes) pool = (l.map change).foldl (hit ownership pool) (kindOf changes pool) := by
  induction l generalizing changes with
  | nil => exact ⟨id, rfl⟩
  | cons a rest ih =>
    obtain ⟨hkeyed, hkind⟩ := ih (record changes a)
    refine ⟨fun hchanges => hkeyed ((h changes a).1 hchanges), ?_⟩
    rw [List.foldl_cons, hkind, (h changes a).2, List.map_cons, List.foldl_cons]

theorem recordDiff_spec (source : AmmSyncChangeSource) (diff : StateDiff) (changes : Changes) :
    (Keyed changes → Keyed (recordDiff ownership source changes diff)) ∧
      kindOf (recordDiff ownership source changes diff) pool =
        diff.stateChanges.foldl (hit ownership pool) (kindOf changes pool) := by
  let first := diff.slots.foldl (fun changes slot => recordPools source changes (ownership.poolsForSlot slot)) changes
  let second := diff.accounts.foldl
    (fun changes account => recordPools source changes (ownership.poolsForAddress account)) first
  obtain ⟨hslots, hslotsKind⟩ := foldl_hits
    (fun changes slot => recordPools source changes (ownership.poolsForSlot slot)) .slot
    (fun changes slot => recordPools_spec source _ changes) diff.slots changes
  obtain ⟨haccounts, haccountsKind⟩ := foldl_hits
    (fun changes account => recordPools source changes (ownership.poolsForAddress account)) .account
    (fun changes account => recordPools_spec source _ changes) diff.accounts first
  obtain ⟨hpurges, hpurgesKind⟩ := foldl_hits (recordPurgeChange ownership source) .purge
    (fun changes purged => recordPurgeChange_spec source purged changes) diff.purged second
  refine ⟨fun hkeyed => hpurges (haccounts (hslots hkeyed)), ?_⟩
  rw [StateDiff.stateChanges, List.foldl_append, List.foldl_append, ← hslotsKind, ← haccountsKind, ← hpurgesKind]
  rfl

/-- A pass over the diffs of a list of reports. -/
theorem foldl_recordDiff_spec {α : Type} (source : AmmSyncChangeSource) (diff : α → StateDiff) (l : List α)
    (changes : Changes) :
    (Keyed changes → Keyed (l.foldl (fun changes a => recordDiff ownership source changes (diff a)) changes)) ∧
      kindOf (l.foldl (fun changes a => recordDiff ownership source changes (diff a)) changes) pool =
        (l.flatMap fun a => (diff a).stateChanges).foldl (hit ownership pool) (kindOf changes pool) := by
  induction l generalizing changes with
  | nil => exact ⟨id, rfl⟩
  | cons a rest ih =>
    obtain ⟨hkeyed, hkind⟩ := ih (recordDiff ownership source changes (diff a))
    obtain ⟨hone, honeKind⟩ := @recordDiff_spec ownership pool source (diff a) changes
    refine ⟨fun hchanges => hkeyed (hone hchanges), ?_⟩
    rw [List.foldl_cons, hkind, honeKind, List.flatMap_cons, List.foldl_append]

/-- A fold of hits ends with the last change that hits. -/
theorem foldl_hit (l : List StateChange) (kind : Option AmmSyncPoolChangeKind) :
    l.foldl (hit ownership pool) kind =
      match (l.filter fun change => decide (pool ∈ change.pools ownership)).getLast? with
      | some change => some (if change.exact ownership then .updated else .unknownImpact)
      | none => kind := by
  induction l using List.reverseRecOn with
  | nil => rfl
  | append_singleton earlier change ih =>
    rw [List.foldl_append, List.foldl_cons, List.foldl_nil, hit]
    by_cases hmem : pool ∈ change.pools ownership
    · simp [List.filter_append, hmem]
    · simp [List.filter_append, hmem, ih]

/-! ### Signals -/

/-- The pool that a signal leaves unknown. -/
def unknownPool (hasNoResyncRequests : Bool) : AmmReactiveSignal → Option PoolKey
  | .event event => if eventIsUnresolved event hasNoResyncRequests then some event.pool else none
  | .poolEvent pool event => if eventIsUnresolved event hasNoResyncRequests then some pool.key else none
  | .decodeError pool => some pool
  | .poolDecodeError pool => some pool.key
  | .poolRepair _ => none

/-- The pools that the signals of one handler leave unknown. -/
def AppliedReport.unknownPools (applied : AppliedReport) : List PoolKey :=
  applied.hookSignals.filterMap (unknownPool applied.resyncs.isEmpty)

theorem mem_unknownPools :
    pool ∈ report.applied.flatMap (·.unknownPools) ↔
      pool ∈ report.marks.decodeFailures ∨ pool ∈ report.marks.applied.flatMap (·.unresolvedEvents) := by
  simp only [ReactiveBatchReport.marks, SyncManager.ReactiveBatchReport.decodeFailures, List.mem_filterMap,
    List.mem_flatMap, List.mem_map, AppliedReport.unknownPools, SyncManager.AppliedReport.unresolvedEvents]
  constructor
  · rintro ⟨applied, happlied, signal, hsignal, hpool⟩
    have hmarks : ∃ a, a ∈ report.applied ∧ a.marks = applied.marks := ⟨applied, happlied, rfl⟩
    cases signal with
    | event event => exact .inr ⟨_, hmarks, _, hsignal, hpool⟩
    | poolEvent owner event => exact .inr ⟨_, hmarks, _, hsignal, hpool⟩
    | decodeError key => exact .inl ⟨_, ⟨_, hmarks, hsignal⟩, hpool⟩
    | poolDecodeError owner => exact .inl ⟨_, ⟨_, hmarks, hsignal⟩, hpool⟩
    | poolRepair owner => cases hpool
  · rintro (⟨signal, ⟨_, ⟨applied, happlied, rfl⟩, hsignal⟩, hpool⟩ | ⟨_, ⟨applied, happlied, rfl⟩, signal, hsignal, hpool⟩)
    · refine ⟨applied, happlied, signal, hsignal, ?_⟩
      cases signal <;> first | exact hpool | cases hpool
    · refine ⟨applied, happlied, signal, hsignal, ?_⟩
      cases signal <;> first | exact hpool | cases hpool

theorem recordSignal_spec (quiet : Bool) (signal : AmmReactiveSignal) (changes : Changes) :
    (Keyed changes → Keyed (recordSignal quiet changes signal)) ∧
      kindOf (recordSignal quiet changes signal) pool =
        if unknownPool quiet signal = some pool then some .unknownImpact else kindOf changes pool := by
  have hrecord : ∀ impact key, unknownPool quiet signal = some key →
      recordSignal quiet changes signal = recordUnknown impact changes key →
        (Keyed changes → Keyed (recordSignal quiet changes signal)) ∧
          kindOf (recordSignal quiet changes signal) pool =
            if unknownPool quiet signal = some pool then some .unknownImpact else kindOf changes pool := by
    intro impact key hkey hsignal
    rw [hsignal, hkey, (records_unknown impact).kind]
    simp only [Option.some.injEq, eq_comm]
    exact ⟨(records_unknown impact).keyed changes key, trivial⟩
  have hskip : unknownPool quiet signal = none → recordSignal quiet changes signal = changes →
      (Keyed changes → Keyed (recordSignal quiet changes signal)) ∧
        kindOf (recordSignal quiet changes signal) pool =
          if unknownPool quiet signal = some pool then some .unknownImpact else kindOf changes pool := by
    intro hkey hsignal
    rw [hsignal, hkey]
    exact ⟨id, by simp⟩
  cases signal with
  | event event =>
    by_cases h : eventIsUnresolved event quiet = true
    · exact hrecord _ _ (if_pos h) (if_pos h)
    · exact hskip (if_neg h) (if_neg h)
  | poolEvent owner event =>
    by_cases h : eventIsUnresolved event quiet = true
    · exact hrecord _ _ (if_pos h) (if_pos h)
    · exact hskip (if_neg h) (if_neg h)
  | decodeError key => exact hrecord _ _ rfl rfl
  | poolDecodeError owner => exact hrecord _ _ rfl rfl
  | poolRepair owner => exact hskip rfl rfl

theorem foldl_recordSignal_spec (quiet : Bool) (signals : List AmmReactiveSignal) (changes : Changes) :
    (Keyed changes → Keyed (signals.foldl (recordSignal quiet) changes)) ∧
      kindOf (signals.foldl (recordSignal quiet) changes) pool =
        if pool ∈ signals.filterMap (unknownPool quiet) then some .unknownImpact else kindOf changes pool := by
  induction signals generalizing changes with
  | nil => exact ⟨id, by simp⟩
  | cons signal rest ih =>
    obtain ⟨hkeyed, hkind⟩ := ih (recordSignal quiet changes signal)
    obtain ⟨hone, honeKind⟩ := @recordSignal_spec pool quiet signal changes
    refine ⟨fun h => hkeyed (hone h), ?_⟩
    rw [List.foldl_cons, hkind, honeKind]
    by_cases hrest : pool ∈ rest.filterMap (unknownPool quiet)
    · rw [if_pos hrest, if_pos]
      exact List.mem_filterMap.mpr ((List.mem_filterMap.mp hrest).imp fun _ h => ⟨List.mem_cons_of_mem _ h.1, h.2⟩)
    · rw [if_neg hrest]
      refine if_congr ?_ rfl rfl
      simp only [List.mem_filterMap] at hrest ⊢
      simp [hrest]

theorem recordSignals_spec (applied : List AppliedReport) (changes : Changes) :
    (Keyed changes → Keyed (applied.foldl recordSignals changes)) ∧
      kindOf (applied.foldl recordSignals changes) pool =
        if pool ∈ applied.flatMap (·.unknownPools) then some .unknownImpact else kindOf changes pool := by
  induction applied generalizing changes with
  | nil => exact ⟨id, by simp⟩
  | cons head rest ih =>
    obtain ⟨hkeyed, hkind⟩ := ih (recordSignals changes head)
    obtain ⟨hone, honeKind⟩ := @foldl_recordSignal_spec pool head.resyncs.isEmpty head.hookSignals changes
    refine ⟨fun h => hkeyed (hone h), ?_⟩
    rw [List.foldl_cons, hkind, recordSignals, honeKind, List.flatMap_cons]
    by_cases hrest : pool ∈ rest.flatMap (·.unknownPools)
    · rw [if_pos hrest, if_pos (List.mem_append_right _ hrest)]
    · rw [if_neg hrest]
      refine if_congr ?_ rfl rfl
      rw [List.mem_append, or_iff_left hrest, AppliedReport.unknownPools]

/-! ### The kind of a pool -/

/-- The changes after all passes. -/
def finalChanges (ownership : AmmOwnershipIndex) (report : ReactiveBatchReport)
    (degraded recovered uncertain : List PoolKey) : Changes :=
  let changes := uncertain.foldl (recordUnknown .quoteable) .empty
  let changes := report.applied.foldl recordSignals changes
  let changes := report.applied.foldl (fun changes applied => recordDiff ownership .direct changes applied.diff) changes
  let changes := report.resyncReports.foldl
    (fun changes resync => recordDiff ownership .authoritativeResync changes resync.diff) changes
  recovered.foldl recordRecovered (degraded.foldl recordDegraded changes)

/-- What the passes leave for a pool: its recovery, else its loss, else the last change that hits it, else what its
    signals say. -/
theorem finalChanges_spec (ownership : AmmOwnershipIndex) (report : ReactiveBatchReport)
    (degraded recovered uncertain : List PoolKey) (pool : PoolKey) :
    Keyed (finalChanges ownership report degraded recovered uncertain) ∧
      kindOf (finalChanges ownership report degraded recovered uncertain) pool =
        if pool ∈ recovered then some .recovered else if pool ∈ degraded then some .degraded else
        match lastHit ownership report pool with
        | some change => some (if change.exact ownership then .updated else .unknownImpact)
        | none =>
          if pool ∈ report.applied.flatMap (·.unknownPools) ∨ pool ∈ uncertain then some .unknownImpact else none := by
  let first := uncertain.foldl (recordUnknown .quoteable) .empty
  let second := report.applied.foldl recordSignals first
  let third := report.applied.foldl (fun changes applied => recordDiff ownership .direct changes applied.diff) second
  let fourth := report.resyncReports.foldl
    (fun changes resync => recordDiff ownership .authoritativeResync changes resync.diff) third
  have hempty : Keyed .empty := fun _ _ h => nomatch h
  have hfirst : Keyed first := (records_unknown .quoteable).foldl_keyed uncertain hempty
  have hfirstKind : kindOf first pool = if pool ∈ uncertain then some .unknownImpact else none :=
    (records_unknown .quoteable).foldl_kind uncertain .empty pool
  obtain ⟨hsecond, hsecondKind⟩ := @recordSignals_spec pool report.applied first
  obtain ⟨hthird, hthirdKind⟩ :=
    @foldl_recordDiff_spec ownership pool _ .direct AppliedReport.diff report.applied second
  obtain ⟨hfourth, hfourthKind⟩ :=
    @foldl_recordDiff_spec ownership pool _ .authoritativeResync ResyncReport.diff report.resyncReports third
  have hstate : kindOf fourth pool =
      match lastHit ownership report pool with
      | some change => some (if change.exact ownership then .updated else .unknownImpact)
      | none => kindOf second pool := by
    rw [hfourthKind, hthirdKind, ← List.foldl_append]
    exact foldl_hit _ _
  refine ⟨records_recovered.foldl_keyed _ (records_degraded.foldl_keyed _ (hfourth (hthird (hsecond hfirst)))), ?_⟩
  refine (records_recovered.foldl_kind recovered (degraded.foldl recordDegraded fourth) pool).trans ?_
  rw [records_degraded.foldl_kind, hstate, hsecondKind, hfirstKind]
  by_cases hunknown : pool ∈ report.applied.flatMap (·.unknownPools)
  · simp only [hunknown, if_true, true_or]
  · simp only [hunknown, if_false, false_or]

/-- The change that is reported for a pool. -/
theorem mem_syncPoolChanges {degraded recovered uncertain : List PoolKey} {kind : AmmSyncPoolChangeKind} :
    (∃ change ∈ syncPoolChanges ownership report degraded recovered uncertain,
        change.pool = pool ∧ change.kind = kind) ↔
      kindOf (finalChanges ownership report degraded recovered uncertain) pool = some kind := by
  obtain ⟨hkeyed, -⟩ := finalChanges_spec ownership report degraded recovered uncertain pool
  have hentries : syncPoolChanges ownership report degraded recovered uncertain =
      (finalChanges ownership report degraded recovered uncertain).entries.map Prod.snd := rfl
  rw [hentries, kindOf, Option.map_eq_some_iff]
  constructor
  · rintro ⟨change, hchange, hpool, hkind⟩
    obtain ⟨⟨key, _⟩, hentry, rfl⟩ := List.mem_map.mp hchange
    have hget := SortedMap.get_eq_some.mpr hentry
    rw [← hkeyed _ _ hget, hpool] at hget
    exact ⟨_, hget, hkind⟩
  · rintro ⟨change, hget, hkind⟩
    exact ⟨change, List.mem_map.mpr ⟨_, SortedMap.get_eq_some.mp hget, rfl⟩, hkeyed _ _ hget, hkind⟩

/-! ### Ingest -/

variable {x : TargetedEngine} {deferRepairs : Bool} {eventFreeReorg : List BlockRef} {result : AmmSyncBatchReport}

/-- What a batch leaves unknown does not depend on the resyncs that are tracked. -/
theorem unknown_congr {y : TargetedEngine} {report : SyncManager.ReactiveBatchReport}
    (howned : TargetedEngine.SameDependencies x.ownership y.ownership) (hregistry : y.registry = x.registry)
    (h : x.Unknown report pool) : y.Unknown report pool := by
  have hpurges : ∀ purged, TargetedEngine.ambiguousPools y.ownership purged =
      TargetedEngine.ambiguousPools x.ownership purged := by
    intro purged
    unfold TargetedEngine.ambiguousPools
    simp only [howned.poolsForSlot]
  unfold TargetedEngine.Unknown TargetedEngine.status at h ⊢
  rw [hregistry, funext hpurges]
  exact h

/-- A canonical batch degrades every pool that it leaves unknown, and does not recover it; a preconfirmation does
    neither to any. -/
theorem finishIngest_marks {report : SyncManager.ReactiveBatchReport} {pools : SyncManager.AmmSyncBatchReport}
    (h : (x.finishIngest report deferRepairs eventFreeReorg).1 = .ok pools) :
    (report.preconfirmed = true → pools = ⟨[], []⟩) ∧
      (report.preconfirmed = false → ∀ key, x.Unknown report key →
        key ∈ pools.degradedPools ∧ key ∉ pools.recoveredPools) := by
  rw [TargetedEngine.finishIngest] at h
  cases hpre : report.preconfirmed with
  | true =>
    rw [hpre, if_pos rfl] at h
    exact ⟨fun _ => (Except.ok.inj h).symm, fun heq => by cases heq⟩
  | false =>
    rw [hpre, if_neg Bool.false_ne_true] at h
    refine ⟨fun heq => (by cases heq), fun _ key hunknown => ?_⟩
    obtain ⟨htracked, hregistry, -⟩ := TargetedEngine.trackReportResyncs_frame report x
    cases htrack : x.trackReportResyncs report with
    | mk answer y =>
      rw [htrack] at h htracked hregistry
      cases answer with
      | error error => cases h
      | ok tracked =>
        obtain ⟨-, -, hmarks⟩ := TargetedEngine.markPools_spec report deferRepairs eventFreeReorg y
        have hexplicit := hmarks key (unknown_congr htracked hregistry hunknown)
        let marks := y.markPools report deferRepairs eventFreeReorg
        let explicit := sortDedup PoolKey.rank marks.2.1
        let degraded := sortDedup PoolKey.rank (marks.1 ++ explicit)
        have hdegraded : key ∈ degraded :=
          (mem_sortDedup_iff _).mpr (List.mem_append_right _ ((mem_sortDedup_iff _).mpr hexplicit))
        obtain ⟨-, -, hrecovered⟩ := TargetedEngine.recoverResyncedPools_spec report degraded
          (marks.2.2.requireExplicitRefresh explicit)
        obtain rfl := Except.ok.inj h
        exact ⟨hdegraded, fun hkey => (hrecovered key (mem_sortDedup _ hkey)).1 hdegraded⟩

/-! ### What an ingest should report -/

/-- A batch changes or purges something that a pool owns. -/
def Touches (ownership : AmmOwnershipIndex) (report : ReactiveBatchReport) (pool : PoolKey) : Prop :=
  ∃ diff, (diff ∈ report.applied.map (·.diff) ∨ diff ∈ report.resyncReports.map (·.diff)) ∧
    ((∃ slot ∈ diff.slots, ∃ owner ∈ ownership.poolsForSlot slot, owner.key = pool) ∨
      (∃ account ∈ diff.accounts, ∃ owner ∈ ownership.poolsForAddress account, owner.key = pool) ∨
      ∃ purged ∈ diff.purged, (purged.slotsRemoved ≠ 0 ∨ purged.accountRemoved = true) ∧
        ∃ owner, owner.key = pool ∧ match purged.scope with
          | .slots slots => ∃ slot ∈ slots, owner ∈ ownership.poolsForSlot ⟨purged.address, slot⟩
          | _ => owner ∈ ownership.poolsForAddress purged.address)

/-- The pools of a report's changes are those that its diffs touch. -/
theorem touches_iff : Touches ownership report pool ↔ ∃ change ∈ report.stateChanges, pool ∈ change.pools ownership := by
  have hpurged : ∀ purged : PurgeRecord, pool ∈ (purgedPools ownership purged).1.map (·.key) ↔
      ∃ owner, owner.key = pool ∧ match purged.scope with
        | .slots slots => ∃ slot ∈ slots, owner ∈ ownership.poolsForSlot ⟨purged.address, slot⟩
        | _ => owner ∈ ownership.poolsForAddress purged.address := by
    intro purged
    unfold purgedPools
    rw [List.mem_map]
    refine exists_congr fun owner => and_comm.trans (and_congr_right fun _ => ?_)
    cases purged.scope <;> simp [mem_sortDedup_iff]
  have hdiff : ∀ diff : StateDiff, (∃ change ∈ diff.stateChanges, pool ∈ change.pools ownership) ↔
      (∃ slot ∈ diff.slots, ∃ owner ∈ ownership.poolsForSlot slot, owner.key = pool) ∨
        (∃ account ∈ diff.accounts, ∃ owner ∈ ownership.poolsForAddress account, owner.key = pool) ∨
        ∃ purged ∈ diff.purged, (purged.slotsRemoved ≠ 0 ∨ purged.accountRemoved = true) ∧
          ∃ owner, owner.key = pool ∧ match purged.scope with
            | .slots slots => ∃ slot ∈ slots, owner ∈ ownership.poolsForSlot ⟨purged.address, slot⟩
            | _ => owner ∈ ownership.poolsForAddress purged.address := by
    intro diff
    simp only [StateDiff.stateChanges, List.mem_append, List.mem_map, or_and_right, exists_or, exists_exists_and_eq_and,
      or_assoc, StateChange.pools]
    refine or_congr_right (or_congr_right (exists_congr fun purged => and_congr_right fun _ => ?_))
    rw [← hpurged]
    by_cases hnone : purged.slotsRemoved = 0 ∧ purged.accountRemoved = false
    · simp [hnone]
    · rw [if_neg hnone, ← or_and_right]
      refine (and_iff_right ?_).symm
      rw [← Bool.not_eq_false]
      exact not_and_or.mp hnone
  simp only [Touches, ← hdiff, ReactiveBatchReport.stateChanges, List.mem_append, List.mem_map, List.mem_flatMap]
  constructor
  · rintro ⟨diff, ⟨a, ha, rfl⟩ | ⟨a, ha, rfl⟩, change, hchange, hpool⟩
    · exact ⟨change, .inl ⟨a, ha, hchange⟩, hpool⟩
    · exact ⟨change, .inr ⟨a, ha, hchange⟩, hpool⟩
  · rintro ⟨change, ⟨a, ha, hchange⟩ | ⟨a, ha, hchange⟩, hpool⟩
    · exact ⟨_, .inl ⟨a, ha, rfl⟩, change, hchange, hpool⟩
    · exact ⟨_, .inr ⟨a, ha, rfl⟩, change, hchange, hpool⟩

/-- The last change that hits a pool is one of the report, and there is one if any hits it. -/
theorem lastHit_eq_none : lastHit ownership report pool = none ↔ ¬Touches ownership report pool := by
  rw [lastHit, List.getLast?_eq_none_iff, List.filter_eq_nil_iff, touches_iff]
  simp

/-- The reports of an ingest as the attribution should make them: every pool that a batch concerns is among the affected
    ones, a pool that it leaves unknown is reported as unknown or degraded, and no preview of such a batch is
    published. -/
structure Attributes (x : TargetedEngine) (report : ReactiveBatchReport) (deferRepairs : Bool)
    (eventFreeReorg : List BlockRef) : Prop where
  affected : ∀ result, (finishIngest report deferRepairs eventFreeReorg x).1 = .ok result → ∀ pool,
    Touches x.ownership report pool ∨ x.Unknown report.marks pool ∨ pool ∈ report.marks.decodeFailures ∨
      pool ∈ report.marks.applied.flatMap (·.unresolvedEvents) ∨ pool ∈ result.degradedPools ∨
      pool ∈ result.recoveredPools → pool ∈ result.affectedPools
  unmasked : ∀ result, (finishIngest report deferRepairs eventFreeReorg x).1 = .ok result → ∀ pool,
    x.Unknown report.marks pool → ∀ change ∈ result.poolChanges, change.pool = pool →
      change.kind = .unknownImpact ∨ change.kind = .degraded
  withheld : ∀ a : AmmRuntimeActor, a.engine = x → ∀ batch : PreconfirmationBatch, batch.report = some report →
    (∃ pool, x.Unknown report.marks pool) → ∀ preview, (ingestPreconfirmation batch a).1 ≠ .ok preview

/-- The changes hit the same pools in an index that differs only in what else it owns. -/
theorem pools_congr {other : AmmOwnershipIndex} (h : TargetedEngine.SameDependencies ownership other)
    (change : StateChange) : change.pools other = change.pools ownership ∧ change.exact other = change.exact ownership := by
  have hpurged : ∀ purged, purgedPools other purged = purgedPools ownership purged := by
    intro purged
    unfold purgedPools
    simp only [h.poolsForSlot, h.poolsForAddress]
  cases change <;>
    simp only [StateChange.pools, StateChange.exact, h.poolsForSlot, h.poolsForAddress, hpurged, and_self]

theorem lastHit_congr {other : AmmOwnershipIndex} (h : TargetedEngine.SameDependencies ownership other) :
    lastHit other report pool = lastHit ownership report pool := by
  simp only [lastHit, (pools_congr h _).1]

/-- What an ingest reports: the changes by the engine's index, all of them turned to losses by a full refresh. -/
theorem finishIngest_ok (h : (finishIngest report deferRepairs eventFreeReorg x).1 = .ok result) :
    ∃ (pools : SyncManager.AmmSyncBatchReport) (y : TargetedEngine),
      TargetedEngine.SameDependencies x.ownership y.ownership ∧
      (x.finishIngest report.marks deferRepairs eventFreeReorg).1 = .ok pools ∧
      result.preconfirmation = report.marks.preconfirmed ∧
      result.degradedPools = pools.degradedPools ∧ result.recoveredPools = pools.recoveredPools ∧
      result.affectedPools = result.poolChanges.map (·.pool) ∧
      (report.marks.preconfirmed = true → result.requiresFullRefresh = false) ∧
      result.poolChanges =
        let changes := syncPoolChanges y.ownership report pools.degradedPools pools.recoveredPools pools.degradedPools
        if result.requiresFullRefresh then changes.map refreshAll else changes := by
  have howned := (TargetedEngine.ingestBatch_spec x ⟨some report.marks, deferRepairs, eventFreeReorg⟩).dependencies
  simp only [TargetedEngine.ingestBatch] at howned
  rw [finishIngest] at h
  cases hmarks : x.finishIngest report.marks deferRepairs eventFreeReorg with
  | mk answer y =>
    rw [hmarks] at h howned
    cases answer with
    | error error => cases h
    | ok pools =>
      obtain rfl := Except.ok.inj h
      exact ⟨pools, y, howned, rfl, rfl, rfl, rfl, rfl, fun hpre => by simp [hpre], rfl⟩

/-- The kind that an ingest reports for a pool, whatever it refreshes. -/
theorem exists_poolChange_iff {changes : List AmmSyncPoolChange} {full : Bool} :
    (∃ change ∈ if full then changes.map refreshAll else changes, change.pool = pool) ↔
      ∃ change ∈ changes, change.pool = pool := by
  cases full
  · exact Iff.rfl
  · simp only [if_true, List.mem_map, exists_exists_and_eq_and]
    rfl

theorem marks_resyncReports (report : ReactiveBatchReport) :
    report.marks.resyncReports = report.resyncReports.map fun resync =>
      ⟨resync.stateUpdates, resync.diff.purged.map (·.toPurgeRecord), resync.failed⟩ := by
  rw [SyncManager.ReactiveBatchReport.resyncReports, ReactiveBatchReport.marks, ReactiveBatchReport.resyncReports,
    List.filterMap_map, List.map_filterMap]
  refine List.filterMap_congr fun entry _ => ?_
  cases entry <;> rfl

/-- A purge of some slots and not of all touches the pools of these slots. -/
theorem touches_of_ambiguous {purged : PurgeRecord} {diff : StateDiff}
    (hdiff : diff ∈ report.applied.map (·.diff) ∨ diff ∈ report.resyncReports.map (·.diff)) (hpurged : purged ∈ diff.purged)
    (h : pool ∈ TargetedEngine.ambiguousPools ownership purged.toPurgeRecord) : Touches ownership report pool := by
  refine ⟨diff, hdiff, .inr (.inr ⟨purged, hpurged, ?_⟩)⟩
  unfold TargetedEngine.ambiguousPools at h
  split at h
  · next slots hscope =>
    dsimp only at h
    split_ifs at h with hnone
    · exact nomatch h
    · obtain ⟨owner, howner, rfl⟩ := List.mem_map.mp h
      obtain ⟨slot, hslot, howner⟩ := List.mem_flatMap.mp howner
      refine ⟨.inl fun hzero => hnone (.inl hzero), owner, rfl, ?_⟩
      have hnamed : ∃ slot ∈ slots, owner ∈ ownership.poolsForSlot ⟨purged.address, slot⟩ :=
        ⟨slot, mem_sortDedup _ hslot, howner⟩
      simpa only [hscope] using hnamed
  · exact nomatch h

/-- A batch concerns every pool that it leaves unknown: a signal names it, or a purge touches it. -/
theorem concerns_of_unknown (h : x.Unknown report.marks pool) :
    pool ∈ report.applied.flatMap (·.unknownPools) ∨ Touches x.ownership report pool := by
  rcases h with ⟨-, hsignal⟩ | hpurged
  · exact .inl (mem_unknownPools.mpr hsignal)
  · rw [marks_resyncReports] at hpurged
    simp only [ReactiveBatchReport.marks, AppliedReport.marks, List.mem_flatMap, List.mem_append, List.mem_map] at hpurged
    obtain ⟨_, ⟨_, ⟨a, ha, rfl⟩, hmem⟩ | ⟨_, ⟨a, ha, rfl⟩, hmem⟩, hpool⟩ := hpurged
    · obtain ⟨purged, hin, rfl⟩ := List.mem_map.mp hmem
      exact .inr (touches_of_ambiguous (.inl (List.mem_map_of_mem ha)) hin hpool)
    · obtain ⟨purged, hin, rfl⟩ := List.mem_map.mp hmem
      exact .inr (touches_of_ambiguous (.inr (List.mem_map_of_mem ha)) hin hpool)

/-- Every pool that a batch concerns is among the affected ones. -/
theorem mem_affectedPools (h : (finishIngest report deferRepairs eventFreeReorg x).1 = .ok result)
    (hpool : Touches x.ownership report pool ∨ pool ∈ report.applied.flatMap (·.unknownPools) ∨
      pool ∈ result.degradedPools ∨ pool ∈ result.recoveredPools) : pool ∈ result.affectedPools := by
  obtain ⟨pools, y, howned, -, -, hdegraded, hrecovered, haffected, -, hchanges⟩ := finishIngest_ok h
  rw [hdegraded, hrecovered] at hpool
  have hkind : ∃ kind,
      kindOf (finalChanges y.ownership report pools.degradedPools pools.recoveredPools pools.degradedPools) pool =
        some kind := by
    rw [(finalChanges_spec _ _ _ _ _ _).2]
    by_cases hr : pool ∈ pools.recoveredPools
    · exact ⟨_, if_pos hr⟩
    by_cases hd : pool ∈ pools.degradedPools
    · exact ⟨.degraded, by rw [if_neg hr, if_pos hd]⟩
    rw [if_neg hr, if_neg hd, lastHit_congr howned]
    cases hlast : lastHit x.ownership report pool with
    | some change => exact ⟨_, rfl⟩
    | none =>
      rcases hpool with htouch | hunknown | hmem | hmem
      · exact absurd htouch (lastHit_eq_none.mp hlast)
      · exact ⟨_, if_pos (.inl hunknown)⟩
      · exact absurd hmem hd
      · exact absurd hmem hr
  obtain ⟨kind, hkind⟩ := hkind
  obtain ⟨change, hchange, hkey, -⟩ := mem_syncPoolChanges.mpr hkind
  rw [haffected, hchanges, List.mem_map]
  exact exists_poolChange_iff.mpr ⟨change, hchange, hkey⟩

/-- In a canonical batch a pool that is left unknown is reported as degraded. -/
theorem canonical_unmasked (h : (finishIngest report deferRepairs eventFreeReorg x).1 = .ok result)
    (hpre : report.marks.preconfirmed = false) (hunknown : x.Unknown report.marks pool) :
    ∀ change ∈ result.poolChanges, change.pool = pool → change.kind = .degraded := by
  obtain ⟨pools, y, -, hpools, -, -, -, -, -, hchanges⟩ := finishIngest_ok h
  obtain ⟨hdegraded, hrecovered⟩ := (finishIngest_marks hpools).2 hpre pool hunknown
  intro change hchange hkey
  rw [hchanges] at hchange
  cases hfull : result.requiresFullRefresh with
  | true =>
    rw [hfull, if_pos rfl] at hchange
    obtain ⟨_, -, rfl⟩ := List.mem_map.mp hchange
    rfl
  | false =>
    rw [hfull, if_neg Bool.false_ne_true] at hchange
    have hkind := mem_syncPoolChanges.mp ⟨change, hchange, hkey, rfl⟩
    rw [(finalChanges_spec _ _ _ _ _ _).2, if_neg hrecovered, if_pos hdegraded] at hkind
    exact (Option.some.inj hkind).symm

/-- In a preconfirmation the last change that hits a pool decides its kind. -/
theorem preconfirmed_kind (h : (finishIngest report deferRepairs eventFreeReorg x).1 = .ok result)
    (hpre : report.marks.preconfirmed = true) {kind : AmmSyncPoolChangeKind} :
    (∃ change ∈ result.poolChanges, change.pool = pool ∧ change.kind = kind) ↔
      (match lastHit x.ownership report pool with
        | some change => some (if change.exact x.ownership then .updated else .unknownImpact)
        | none => if pool ∈ report.applied.flatMap (·.unknownPools) then some .unknownImpact else none) = some kind := by
  obtain ⟨pools, y, howned, hpools, -, -, -, -, hfull, hchanges⟩ := finishIngest_ok h
  obtain rfl := (finishIngest_marks hpools).1 hpre
  rw [hchanges, hfull hpre, if_neg Bool.false_ne_true, mem_syncPoolChanges, (finalChanges_spec _ _ _ _ _ _).2,
    if_neg List.not_mem_nil, if_neg List.not_mem_nil, lastHit_congr howned]
  cases lastHit x.ownership report pool with
  | some change => simp only [(pools_congr howned change).2]
  | none => simp only [List.not_mem_nil, or_false]

/-- A change of unknown impact is an obstacle to the preview. -/
theorem readiness_of_unknown (h : ∃ change ∈ result.poolChanges, change.kind = .unknownImpact) :
    preconfirmationReadinessError result ≠ none := by
  have hany : (result.poolChanges.any fun change => change.kind = .unknownImpact) = true := by
    simpa only [List.any_eq_true, decide_eq_true_eq] using h
  unfold preconfirmationReadinessError
  split_ifs <;> exact Option.some_ne_none _

/-- A published preview comes of a preconfirmation that is ready. -/
theorem ingestPreconfirmation_ok {batch : PreconfirmationBatch} {a : AmmRuntimeActor} {preview : AmmPreconfirmedSnapshot}
    (hreport : batch.report = some report) (h : (ingestPreconfirmation batch a).1 = .ok preview) :
    ∃ result, (finishIngest report true [] a.engine).1 = .ok result ∧ result.preconfirmation = true ∧
      preconfirmationReadinessError result = none := by
  unfold ingestPreconfirmation at h
  split_ifs at h with htrusted hvalid
  split at h
  · exact nomatch h
  · simp only [hreport, ingestBatchDeferredRepairs] at h
    split at h
    · exact nomatch h
    · next result engine hingest =>
      split_ifs at h with hpre
      split at h
      · exact nomatch h
      · split at h
        · exact nomatch h
        · next hready =>
          exact ⟨result, by rw [hingest], by simpa using hpre, hready⟩

/-- **The attribution is complete, and it masks unknown impact in one case.** Every pool that a batch concerns is among the
    affected ones, and a canonical batch reports each pool that it leaves unknown as degraded. A Flashblock reports such a
    pool as unknown, and is withheld, unless the last of its changes that hits the pool is exact: that change then stands
    for all the batch did to the pool. -/
theorem attributes_iff (x : TargetedEngine) (report : ReactiveBatchReport) (deferRepairs : Bool)
    (eventFreeReorg : List BlockRef) :
    Attributes x report deferRepairs eventFreeReorg ↔
      (report.marks.preconfirmed = true → ∀ pool, x.Unknown report.marks pool → ¬Hidden x.ownership report pool) := by
  have hreported : ∀ deferRepairs eventFreeReorg result,
      (finishIngest report deferRepairs eventFreeReorg x).1 = .ok result → report.marks.preconfirmed = true →
        ∀ pool, x.Unknown report.marks pool → ¬Hidden x.ownership report pool →
          ∃ change ∈ result.poolChanges, change.pool = pool ∧ change.kind = .unknownImpact := by
    intro deferRepairs eventFreeReorg result hresult hpre pool hunknown hhidden
    refine (preconfirmed_kind hresult hpre).mpr ?_
    cases hlast : lastHit x.ownership report pool with
    | some change =>
      have hexact : ¬change.exact x.ownership = true := fun hexact => hhidden ⟨change, hlast, hexact⟩
      simp only [hexact, Bool.false_eq_true, if_false]
    | none =>
      have hsignal := (concerns_of_unknown hunknown).resolve_right (lastHit_eq_none.mp hlast)
      simp only [hsignal, if_true]
  constructor
  · intro h hpre pool hunknown hhidden
    obtain ⟨change, hlast, hexact⟩ := hhidden
    have hingest : (x.finishIngest report.marks deferRepairs eventFreeReorg) = (.ok ⟨[], []⟩, x) := by
      rw [TargetedEngine.finishIngest, if_pos hpre]
    obtain ⟨result, hresult⟩ : ∃ result, (finishIngest report deferRepairs eventFreeReorg x).1 = .ok result := by
      rw [finishIngest, hingest]
      exact ⟨_, rfl⟩
    have hkind : ∃ change ∈ result.poolChanges, change.pool = pool ∧ change.kind = .updated := by
      refine (preconfirmed_kind hresult hpre).mpr ?_
      simp only [hlast, hexact, if_true]
    obtain ⟨reported, hmem, hkey, hupdated⟩ := hkind
    rcases h.unmasked result hresult pool hunknown reported hmem hkey with hkind | hkind
    · cases hupdated.symm.trans hkind
    · cases hupdated.symm.trans hkind
  · intro h
    refine ⟨fun result hresult pool hpool => ?_, fun result hresult pool hunknown change hchange hkey => ?_, ?_⟩
    · refine mem_affectedPools hresult ?_
      rcases hpool with htouch | hunknown | hdecode | hevent | hdegraded | hrecovered
      · exact .inl htouch
      · exact (concerns_of_unknown hunknown).elim (fun hsignal => .inr (.inl hsignal)) .inl
      · exact .inr (.inl (mem_unknownPools.mpr (.inl hdecode)))
      · exact .inr (.inl (mem_unknownPools.mpr (.inr hevent)))
      · exact .inr (.inr (.inl hdegraded))
      · exact .inr (.inr (.inr hrecovered))
    · cases hpre : report.marks.preconfirmed with
      | false => exact .inr (canonical_unmasked hresult hpre hunknown change hchange hkey)
      | true =>
        have hkind := (preconfirmed_kind hresult hpre).mp ⟨change, hchange, hkey, rfl⟩
        have hother := (preconfirmed_kind hresult hpre).mp
          (hreported _ _ _ hresult hpre pool hunknown (h hpre pool hunknown))
        exact .inl (Option.some.inj (hkind.symm.trans hother))
    · rintro a rfl batch hreport ⟨pool, hunknown⟩ preview hok
      obtain ⟨result, hresult, hpre, hready⟩ := ingestPreconfirmation_ok hreport hok
      have hflashblock : report.marks.preconfirmed = true := by
        obtain ⟨_, _, -, -, hsame, -⟩ := finishIngest_ok hresult
        exact hsame.symm.trans hpre
      obtain ⟨change, hmem, -, hkind⟩ :=
        hreported _ _ _ hresult hflashblock pool hunknown (h hflashblock pool hunknown)
      exact readiness_of_unknown ⟨change, hmem, hkind⟩ hready

namespace SharedVault
open TargetedEngine.SharedSlot

/-- A Flashblock with two logs: the one of the first pool cannot be decoded, the one of the second pool sets the slot that
    both read. -/
def flashblock : ReactiveBatchReport where
  reports := [.input true]
  applied := [
    ⟨⟨"first"⟩, [], [.poolDecodeError ⟨.balancerV2 1, 0⟩], ⟨[], [], []⟩, .noStateEffect⟩,
    ⟨⟨"second"⟩, [], [.poolEvent ⟨.balancerV2 2, 0⟩ ⟨.balancerV2 2, .exact⟩], ⟨[⟨vault, 0x73⟩], [], []⟩, .exactFromInput⟩]
  resyncs := []

def batch : PreconfirmationBatch where
  valid := true
  chainId := some 1
  report := some flashblock
  quoteReadiness := none
  rejectionPublished := true

def actor : AmmRuntimeActor := ⟨true, ⟨1, 100, 0xb1⟩, engine, none⟩

/-- The kinds that the preview of a batch reports, if it is published. -/
def previewKinds (batch : PreconfirmationBatch) (a : AmmRuntimeActor) : Option (List (PoolKey × AmmSyncPoolChangeKind)) :=
  (ingestPreconfirmation batch a).1.toOption.map fun preview =>
    preview.poolChanges.map fun change => (change.pool, change.kind)

end SharedVault
open SharedVault

/-- The pool whose log failed to decode is reported as updated, for the slot that it shares, and the preview is
    published. -/
theorem decode_failure_masked :
    TargetedEngine.SharedSlot.engine.Unknown flashblock.marks (.balancerV2 1) ∧
    previewKinds batch actor = some [(.balancerV2 1, .updated), (.balancerV2 2, .updated)] ∧
    ¬Attributes TargetedEngine.SharedSlot.engine flashblock true [] := by
  have hunknown : TargetedEngine.SharedSlot.engine.Unknown flashblock.marks (.balancerV2 1) :=
    .inl ⟨by decide, .inl (by decide)⟩
  have hkinds : previewKinds batch actor = some [(.balancerV2 1, .updated), (.balancerV2 2, .updated)] := by decide
  refine ⟨hunknown, hkinds, fun h => ?_⟩
  obtain ⟨preview, hpreview, -⟩ := Option.map_eq_some_iff.mp hkinds
  refine h.withheld actor rfl batch rfl ⟨_, hunknown⟩ preview ?_
  cases hresult : (ingestPreconfirmation batch actor).1 with
  | error error => rw [hresult] at hpreview; exact nomatch hpreview
  | ok other => rw [hresult] at hpreview; rw [Option.some.inj hpreview]

end PoolChanges
end AmmState
