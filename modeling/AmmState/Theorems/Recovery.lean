import AmmState.Recovery
import AmmState.Theorems.Ownership
import AmmState.Theorems.Registry

/-! When an ingest recovers a degraded pool. The marking loops of a batch only add to what the pools wait on, each pool its
    own targets; a pool recovers when it is not marked again, no fence stands, and the batch refreshed everything that the
    pool waits on. The run result collects the failures of every batch since the last recovery. -/

namespace AmmState
open ReverseIndex SortDedup

namespace AmmOwnershipIndex
variable {x : AmmOwnershipIndex}

theorem mem_getD_iff {K : Type} {m : ReverseIndex K PoolInstanceId} {k : K} {pool : PoolInstanceId} :
    pool ∈ (m.get k).getD ∅ ↔ Owns m k pool := by
  cases h : m.get k <;> simp [Owns, h]

theorem mem_poolsForSlot {slot : StateSlot} {pool : PoolInstanceId} :
    pool ∈ x.poolsForSlot slot ↔ Owns x.slotPools slot pool ∨ Owns x.wholeAccountPools slot.address pool := by
  rw [poolsForSlot, mem_sorted, Finset.mem_union, mem_getD_iff, mem_getD_iff]

theorem mem_poolsForAddress {address : Address} {pool : PoolInstanceId} :
    pool ∈ x.poolsForAddress address ↔ Owns x.addressPools address pool := by
  rw [poolsForAddress, mem_sorted, mem_getD_iff]

end AmmOwnershipIndex

namespace SyncManager

/-- The slots that a resync target names. -/
def ResyncTarget.slots : ResyncTarget → List StateSlot
  | .storageSlot address slot => [⟨address, slot⟩]
  | .storageSlots address slots => slots.map (StateSlot.mk address)
  | .account _ => []

namespace PendingTargets

theorem mem_covered {target : ResyncTarget} {pool : PoolInstanceId} {ownership : AmmOwnershipIndex} {slot : StateSlot} :
    slot ∈ (covered target pool ownership).slots ↔ slot ∈ target.slots ∧ pool ∈ ownership.poolsForSlot slot := by
  cases target with
  | storageSlot address named =>
    simp only [covered, ResyncTarget.slots, List.mem_singleton]
    split_ifs with hpool
    · simp only [List.mem_singleton]
      exact ⟨fun h => ⟨h, h ▸ hpool⟩, And.left⟩
    · simp only [List.not_mem_nil, false_iff]
      rintro ⟨rfl, h⟩
      exact hpool h
  | storageSlots address slots => simp [covered, ResyncTarget.slots]
  | account address => simp [covered, ResyncTarget.slots]

theorem covered_fence {target : ResyncTarget} {pool : PoolInstanceId} {ownership : AmmOwnershipIndex} :
    (covered target pool ownership).requireExplicitRefresh = true ↔
      ∃ address, target = .account address ∧ pool ∈ ownership.poolsForAddress address := by
  cases target <;> simp [covered]

theorem mem_merge {pending other : PendingTargets} {slot : StateSlot} :
    slot ∈ (pending.merge other).slots ↔ slot ∈ pending.slots ∨ slot ∈ other.slots := by
  have hfold : ∀ (added slots : List StateSlot),
      slot ∈ added.foldl (fun slots slot => if slot ∈ slots then slots else slots ++ [slot]) slots ↔
        slot ∈ slots ∨ slot ∈ added := by
    intro added
    induction added with
    | nil => simp
    | cons head rest ih =>
      intro slots
      rw [List.foldl_cons, ih]
      split_ifs with hmem
      · simp only [List.mem_cons]
        constructor
        · rintro (h | h)
          · exact .inl h
          · exact .inr (.inr h)
        · rintro (h | rfl | h)
          · exact .inl h
          · exact .inl hmem
          · exact .inr h
      · simp [or_assoc]
  exact hfold other.slots pending.slots

end PendingTargets

namespace TargetedEngine
variable {x y z : TargetedEngine} {key : PoolKey} {slot : StateSlot}

/-! ### What an engine says of a pool -/

/-- The status of a registered pool. -/
def status (x : TargetedEngine) (key : PoolKey) : Option PoolStatus := (x.registry.pool key).map (·.status)

/-- The targets that are recorded for a pool. -/
def targets (x : TargetedEngine) (key : PoolKey) : PendingTargets := (x.degradedTargets.get key).getD .empty

/-- A pool waits on the refresh of a slot. -/
def WaitsOn (x : TargetedEngine) (key : PoolKey) (slot : StateSlot) : Prop := slot ∈ (x.targets key).slots

/-- An explicit refresh is required of a pool. -/
def Fenced (x : TargetedEngine) (key : PoolKey) : Prop := (x.targets key).requireExplicitRefresh = true

theorem targets_congr (h : y.degradedTargets = x.degradedTargets) (key : PoolKey) : y.targets key = x.targets key := by
  rw [targets, targets, h]

theorem recovers_of_shouldRecover {dependencies : PoolStateDependencies} {refreshed : List StateSlot}
    (h : shouldRecover dependencies (x.degradedTargets.get key) refreshed = true) :
    ¬x.Fenced key ∧ (∀ slot, x.WaitsOn key slot → slot ∈ refreshed) ∧
      ((∀ slot, ¬x.WaitsOn key slot) → dependencies.slots ≠ [] ∧ ∀ slot ∈ dependencies.slots, slot ∈ refreshed) := by
  have hread : readSetRefreshed dependencies refreshed = true →
      dependencies.slots ≠ [] ∧ ∀ slot ∈ dependencies.slots, slot ∈ refreshed := by
    intro hread
    simpa [readSetRefreshed] using hread
  unfold Fenced WaitsOn targets
  cases hpending : x.degradedTargets.get key with
  | none =>
    rw [hpending] at h
    exact ⟨by simp [PendingTargets.empty], by simp [PendingTargets.empty], fun _ => hread h⟩
  | some pending =>
    rw [hpending, shouldRecover] at h
    rw [Option.getD_some]
    by_cases hempty : pending.isEmpty = true
    · obtain ⟨hslots, hfence⟩ : pending.slots = [] ∧ pending.requireExplicitRefresh = false := by
        simpa [PendingTargets.isEmpty] using hempty
      rw [if_neg (by simp [hempty])] at h
      exact ⟨by simp [hfence], by simp [hslots], fun _ => hread h⟩
    · rw [if_pos (by simpa using hempty)] at h
      obtain ⟨hfence, hall⟩ : pending.requireExplicitRefresh = false ∧ ∀ slot ∈ pending.slots, slot ∈ refreshed := by
        simpa [PendingTargets.satisfiedBy] using h
      refine ⟨by simp [hfence], hall, fun hnone => absurd ?_ hempty⟩
      simp [PendingTargets.isEmpty, hfence, List.eq_nil_iff_forall_not_mem.mpr hnone]

/-! ### Statuses -/

theorem setPoolStatus_ownership (status : PoolStatus) : (x.setPoolStatus key status).2.ownership = x.ownership := by
  simp only [setPoolStatus, AmmSyncEngine.setPoolStatus]
  split <;> rfl

theorem status_setPoolStatus (value : PoolStatus) (other : PoolKey) :
    (x.setPoolStatus key value).2.status other =
      if other = key then (x.status key).map fun _ => value else x.status other := by
  simp only [status, setPoolStatus, AmmSyncEngine.setPoolStatus]
  cases hpool : x.registry.pool key with
  | none =>
    split_ifs with hkey
    · rw [hkey, hpool]
      rfl
    · rfl
  | some registration =>
    simp only [AdapterRegistry.pool_updatePoolStatus]
    split_ifs with hkey
    · simp [hpool]
    · rfl

/-- What a marking loop over statuses leaves: the ownership and the targets as they were, and each pool as it was or
    degraded. -/
structure Degrades (x y : TargetedEngine) : Prop where
  ownership : y.ownership = x.ownership
  targets : y.degradedTargets = x.degradedTargets
  status : ∀ key, y.status key = x.status key ∨ y.status key = some .degraded

namespace Degrades

theorem refl (x : TargetedEngine) : Degrades x x := ⟨rfl, rfl, fun _ => .inl rfl⟩

theorem trans (hxy : Degrades x y) (hyz : Degrades y z) : Degrades x z where
  ownership := hyz.ownership.trans hxy.ownership
  targets := hyz.targets.trans hxy.targets
  status key := by
    rcases hyz.status key with h | h
    · rw [h]
      exact hxy.status key
    · exact .inr h

theorem setPoolStatus (x : TargetedEngine) (key : PoolKey) : Degrades x (x.setPoolStatus key .degraded).2 where
  ownership := setPoolStatus_ownership _
  targets := rfl
  status other := by
    rw [status_setPoolStatus]
    split_ifs with hkey
    · subst hkey
      cases x.status other <;> simp
    · exact .inl rfl

theorem setAll (keys : List PoolKey) (x : TargetedEngine) : Degrades x (x.setAll .degraded keys) := by
  induction keys generalizing x with
  | nil => exact .refl x
  | cons key rest ih => exact (setPoolStatus x key).trans (ih _)

theorem degradeKnown (keys : List PoolKey) (x : TargetedEngine) : Degrades x (x.degradeKnown keys).2 := by
  induction keys generalizing x with
  | nil => exact .refl x
  | cons key rest ih => exact (setPoolStatus x key).trans (ih _)

end Degrades

/-- Degrading keeps a known pool known, so the known pools of a list are those known at its start. -/
theorem mem_degradeKnown {keys : List PoolKey} :
    key ∈ (x.degradeKnown keys).1 ↔ key ∈ keys ∧ (x.status key).isSome = true := by
  induction keys generalizing x with
  | nil => simp [degradeKnown]
  | cons head rest ih =>
    have hknown : ∀ other, ((x.setPoolStatus head .degraded).2.status other).isSome = (x.status other).isSome := by
      intro other
      rw [status_setPoolStatus]
      split_ifs with hkey
      · rw [hkey, Option.isSome_map]
      · rfl
    have hrest : key ∈ (degradeKnown rest (x.setPoolStatus head .degraded).2).1 ↔
        key ∈ rest ∧ (x.status key).isSome = true := by
      rw [ih, hknown]
    have hhead : (x.setPoolStatus head .degraded).1 = (x.status head).isSome := by simp [setPoolStatus, status]
    simp only [degradeKnown, hhead]
    cases hsome : (x.status head).isSome with
    | true =>
      simp only [if_true, List.mem_cons, hrest]
      constructor
      · rintro (rfl | ⟨hmem, hk⟩)
        · exact ⟨.inl rfl, hsome⟩
        · exact ⟨.inr hmem, hk⟩
      · rintro ⟨rfl | hmem, hk⟩
        · exact .inl rfl
        · exact .inr ⟨hmem, hk⟩
    | false =>
      simp only [Bool.false_eq_true, if_false, List.mem_cons, hrest]
      constructor
      · rintro ⟨hmem, hk⟩
        exact ⟨.inr hmem, hk⟩
      · rintro ⟨rfl | hmem, hk⟩
        · simp [hsome] at hk
        · exact ⟨hmem, hk⟩

/-! ### Failed resyncs -/

/-- The failures of a report with the pools that each of them counts for. -/
def counted (ownership : AmmOwnershipIndex) (report : ReactiveBatchReport) : List (ResyncFailure × PoolInstanceId) :=
  report.resyncFailures.flatMap fun failure => (poolsForFailure ownership failure).map fun pool => (failure, pool)

theorem mem_counted {ownership : AmmOwnershipIndex} {report : ReactiveBatchReport} {failure : ResyncFailure}
    {pool : PoolInstanceId} : (failure, pool) ∈ counted ownership report ↔
      failure ∈ report.resyncFailures ∧ pool ∈ poolsForFailure ownership failure := by
  simp [counted]

/-- What recording failures leaves of the engine it starts from. -/
structure Records (x : TargetedEngine) (pairs : List (ResyncFailure × PoolInstanceId)) (y : TargetedEngine) : Prop where
  ownership : y.ownership = x.ownership
  status : ∀ key, y.status key = x.status key ∨ y.status key = some .degraded
  waitsOn : ∀ key slot, y.WaitsOn key slot ↔ x.WaitsOn key slot ∨
    ∃ pair ∈ pairs, pair.2.key = key ∧ slot ∈ pair.1.target.slots ∧ pair.2 ∈ x.ownership.poolsForSlot slot
  fenced : ∀ key, y.Fenced key ↔ x.Fenced key ∨ ∃ pair ∈ pairs, pair.2.key = key ∧
    (PendingTargets.covered pair.1.target pair.2 x.ownership).requireExplicitRefresh = true

theorem records_recordFailure (failure : ResyncFailure) (acc : List PoolKey × TargetedEngine) (pool : PoolInstanceId) :
    Records acc.2 [(failure, pool)] (recordFailure failure acc pool).2 := by
  obtain ⟨degraded, x⟩ := acc
  have hget : ∀ key, (recordFailure failure (degraded, x) pool).2.targets key =
      if key = pool.key then (x.targets pool.key).merge (PendingTargets.covered failure.target pool x.ownership)
      else x.targets key := by
    intro key
    refine (congrArg (Option.getD · PendingTargets.empty) (Map.get_insert _ _ _ _)).trans ?_
    split_ifs <;> rfl
  refine ⟨setPoolStatus_ownership _, fun key => ?_, fun key slot => ?_, fun key => ?_⟩
  · exact (Degrades.setPoolStatus _ pool.key).status key
  · by_cases hkey : key = pool.key
    · subst hkey
      rw [WaitsOn, hget, if_pos rfl, PendingTargets.mem_merge, PendingTargets.mem_covered]
      simp [WaitsOn]
    · rw [WaitsOn, hget, if_neg hkey]
      simp [WaitsOn, Ne.symm hkey]
  · by_cases hkey : key = pool.key
    · subst hkey
      rw [Fenced, hget, if_pos rfl]
      simp [Fenced, PendingTargets.merge]
    · rw [Fenced, hget, if_neg hkey]
      simp [Fenced, Ne.symm hkey]

namespace Records
variable {pairs rest : List (ResyncFailure × PoolInstanceId)}

theorem nil (x : TargetedEngine) : Records x [] x :=
  ⟨rfl, fun _ => .inl rfl, fun _ _ => by simp, fun _ => by simp⟩

theorem append (hxy : Records x pairs y) (hyz : Records y rest z) : Records x (pairs ++ rest) z where
  ownership := hyz.ownership.trans hxy.ownership
  status key := by
    rcases hyz.status key with h | h
    · rw [h]
      exact hxy.status key
    · exact .inr h
  waitsOn key slot := by
    rw [hyz.waitsOn, hxy.waitsOn, hxy.ownership]
    simp only [List.mem_append, or_and_right, exists_or, or_assoc]
  fenced key := by
    rw [hyz.fenced, hxy.fenced, hxy.ownership]
    simp only [List.mem_append, or_and_right, exists_or, or_assoc]

end Records

theorem foldl_recordFailure (failure : ResyncFailure) (pools : List PoolInstanceId) (acc : List PoolKey × TargetedEngine) :
    Records acc.2 (pools.map fun pool => (failure, pool)) (pools.foldl (recordFailure failure) acc).2 ∧
      ∀ key, key ∈ (pools.foldl (recordFailure failure) acc).1 ↔ key ∈ acc.1 ∨ ∃ pool ∈ pools, pool.key = key := by
  induction pools generalizing acc with
  | nil => exact ⟨.nil acc.2, by simp⟩
  | cons pool rest ih =>
    obtain ⟨hrecords, hmem⟩ := ih (recordFailure failure acc pool)
    refine ⟨(records_recordFailure failure acc pool).append hrecords, fun key => ?_⟩
    rw [List.foldl_cons, hmem]
    have hhead : key ∈ (recordFailure failure acc pool).1 ↔ key ∈ acc.1 ∨ pool.key = key := by
      simp only [recordFailure]
      split_ifs with hpool
      · exact ⟨.inl, by rintro (h | rfl) <;> assumption⟩
      · simp [eq_comm]
    rw [hhead]
    simp [or_assoc]

theorem foldl_markFailure {ownership : AmmOwnershipIndex} (failures : List ResyncFailure)
    (acc : List PoolKey × TargetedEngine) (hownership : acc.2.ownership = ownership) :
    Records acc.2 (failures.flatMap fun failure => (poolsForFailure ownership failure).map fun pool => (failure, pool))
        (failures.foldl markFailure acc).2 ∧
      ∀ key, key ∈ (failures.foldl markFailure acc).1 ↔ key ∈ acc.1 ∨
        ∃ failure ∈ failures, ∃ pool ∈ poolsForFailure ownership failure, pool.key = key := by
  induction failures generalizing acc with
  | nil => exact ⟨.nil acc.2, by simp⟩
  | cons failure rest ih =>
    obtain ⟨hone, hkeys⟩ := foldl_recordFailure failure (poolsForFailure acc.2.ownership failure) acc
    obtain ⟨hrest, hmem⟩ := ih (markFailure acc failure) (hone.ownership.trans hownership)
    subst hownership
    refine ⟨hone.append hrest, fun key => ?_⟩
    rw [List.foldl_cons, hmem, markFailure, hkeys]
    simp [or_assoc]

/-- The loop over the failed resyncs. -/
theorem markFailedResyncPools_spec (report : ReactiveBatchReport) (x : TargetedEngine) :
    Records x (counted x.ownership report) (x.markFailedResyncPools report).2 ∧
      ∀ key, key ∈ (x.markFailedResyncPools report).1 ↔ ∃ pair ∈ counted x.ownership report, pair.2.key = key := by
  obtain ⟨hrecords, hmem⟩ := foldl_markFailure report.resyncFailures ([], x) rfl
  refine ⟨hrecords, fun key => (hmem key).trans ?_⟩
  simp [counted, and_assoc]

/-! ### The marks of a batch -/

theorem Degrades.records (h : Degrades x y) : Records x [] y where
  ownership := h.ownership
  status := h.status
  waitsOn key slot := by
    rw [WaitsOn, targets_congr h.targets]
    simp [WaitsOn]
  fenced key := by
    rw [Fenced, targets_congr h.targets]
    simp [Fenced]

theorem Records.known {pairs : List (ResyncFailure × PoolInstanceId)} (h : Records x pairs y)
    (hknown : (x.status key).isSome = true) : (y.status key).isSome = true := by
  rcases h.status key with hsame | hsame
  · rw [hsame]
    exact hknown
  · rw [hsame]
    rfl

/-- A batch leaves the state of a registered pool unknown: a log of it could not be decoded or has an unresolved event, or
    a purge removed some of its slots and not all of them. -/
def Unknown (x : TargetedEngine) (report : ReactiveBatchReport) (key : PoolKey) : Prop :=
  (x.status key).isSome = true ∧ (key ∈ report.decodeFailures ∨ key ∈ report.applied.flatMap (·.unresolvedEvents)) ∨
    key ∈ (report.applied.flatMap (·.purged) ++ report.resyncReports.flatMap (·.purged)).flatMap
      (ambiguousPools x.ownership)

/-- The marking loops record the failures, name their pools, and name every pool that the batch leaves unknown. -/
theorem markPools_spec (report : ReactiveBatchReport) (deferRepairs : Bool) (eventFreeReorg : List BlockRef)
    (x : TargetedEngine) :
    Records x (counted x.ownership report) (x.markPools report deferRepairs eventFreeReorg).2.2 ∧
      (∀ key, key ∈ (x.markPools report deferRepairs eventFreeReorg).1 ↔
        ∃ pair ∈ counted x.ownership report, pair.2.key = key) ∧
      ∀ key, x.Unknown report key → key ∈ (x.markPools report deferRepairs eventFreeReorg).2.1 := by
  obtain ⟨hfailed, hkeys⟩ := markFailedResyncPools_spec report x
  let a := (x.markFailedResyncPools report).2
  let b := (a.markDecodeFailedPools report).2
  let c := if deferRepairs then b.markPendingRepairs report else ([], b)
  let d := (c.2.markUnresolvedEventPools report).2
  let e := (d.markAmbiguousPurgePools report).2
  let f := (e.markCoverageGapPools report).2
  let g := if Reorg.requiresFullRefresh report.chainReports eventFreeReorg then f.markAllPoolsDegraded else ([], f)
  have hab : Degrades a b := .degradeKnown report.decodeFailures a
  have hbc : Degrades b c.2 := by
    rcases Bool.eq_false_or_eq_true deferRepairs with h | h
    · simp only [c, h, if_true]
      exact .setAll _ b
    · simp only [c, h, Bool.false_eq_true, if_false]
      exact .refl b
  have hcd : Degrades c.2 d := .degradeKnown _ c.2
  have hde : Degrades d e := .setAll _ d
  have hef : Degrades e f := .setAll _ e
  have hfg : Degrades f g.2 := by
    rcases Bool.eq_false_or_eq_true (Reorg.requiresFullRefresh report.chainReports eventFreeReorg) with h | h
    · simp only [g, h, if_true]
      exact .setAll _ f
    · simp only [g, h, Bool.false_eq_true, if_false]
      exact .refl f
  have hrest : Degrades a g.2 := ((((hab.trans hbc).trans hcd).trans hde).trans hef).trans hfg
  refine ⟨?_, hkeys, fun key hunknown => ?_⟩
  · have hall := hfailed.append hrest.records
    rw [List.append_nil] at hall
    exact hall
  · simp only [markPools, List.mem_append]
    rcases hunknown with ⟨hknown, hdecode | hunresolved⟩ | hambiguous
    · have hmem : key ∈ (a.markDecodeFailedPools report).1 :=
        (mem_sortDedup_iff _).mpr (mem_degradeKnown.mpr ⟨hdecode, hfailed.known hknown⟩)
      exact .inl (.inl (.inl (.inl (.inl hmem))))
    · have hmem : key ∈ (c.2.markUnresolvedEventPools report).1 :=
        (mem_sortDedup_iff _).mpr (mem_degradeKnown.mpr
          ⟨hunresolved, (hab.trans hbc).records.known (hfailed.known hknown)⟩)
      exact .inl (.inl (.inl (.inr hmem)))
    · have howner : d.ownership = x.ownership :=
        (((hab.trans hbc).trans hcd).ownership).trans hfailed.ownership
      have hmem : key ∈ (d.markAmbiguousPurgePools report).1 := by
        refine (mem_sortDedup_iff _).mpr ?_
        rw [howner]
        exact hambiguous
      exact .inl (.inl (.inr hmem))

theorem requireExplicitRefresh_spec (pools : List PoolKey) (x : TargetedEngine) :
    (∀ key slot, (x.requireExplicitRefresh pools).WaitsOn key slot ↔ x.WaitsOn key slot) ∧
      ∀ key, (x.requireExplicitRefresh pools).Fenced key ↔ x.Fenced key ∨ key ∈ pools := by
  induction pools generalizing x with
  | nil => exact ⟨fun _ _ => .rfl, fun _ => by simp [requireExplicitRefresh, Fenced, targets]⟩
  | cons head rest ih =>
    let y := x.requireExplicitRefresh [head]
    have hget : ∀ key, y.targets key =
        if key = head then { x.targets head with requireExplicitRefresh := true } else x.targets key := by
      intro key
      refine (congrArg (Option.getD · PendingTargets.empty) (Map.get_insert _ _ _ _)).trans ?_
      split_ifs <;> rfl
    obtain ⟨hwaits, hfenced⟩ := ih y
    refine ⟨fun key slot => (hwaits key slot).trans ?_, fun key => (hfenced key).trans ?_⟩
    · rw [WaitsOn, hget]
      split_ifs with hkey
      · rw [hkey]
        rfl
      · rfl
    · rw [Fenced, hget]
      split_ifs with hkey
      · simp [hkey]
      · simp [Fenced, hkey]

/-! ### Recovery -/

theorem mem_recoverable {refreshed : List StateSlot} {degradedNow : List PoolKey} {pool : PoolInstanceId}
    (h : pool ∈ x.recoverable refreshed degradedNow) :
    x.status pool.key = some .degraded ∧ pool.key ∉ degradedNow ∧ ∃ owned, x.ownership.pools.get pool = some owned ∧
      shouldRecover owned.dependencies (x.degradedTargets.get pool.key) refreshed = true := by
  simp only [recoverable, List.mem_filter, decide_eq_true_eq] at h
  obtain ⟨⟨⟨-, hstatus⟩, hnow⟩, howned⟩ := h
  refine ⟨?_, hnow, by simpa [Option.any_eq_true] using howned⟩
  obtain ⟨registration, hpool, hdegraded⟩ := (Option.any_eq_true _ _).mp hstatus
  rw [TargetedEngine.status, hpool, Option.map_some, of_decide_eq_true hdegraded]

/-- The loop over the recovered pools drops their targets and touches no other pool. -/
theorem foldl_recoverOne (keys : List PoolKey) (x : TargetedEngine) :
    (keys.foldl recoverOne x).ownership = x.ownership ∧
      (∀ key, (keys.foldl recoverOne x).targets key = if key ∈ keys then .empty else x.targets key) ∧
      ∀ key, key ∉ keys → (keys.foldl recoverOne x).status key = x.status key := by
  induction keys generalizing x with
  | nil => exact ⟨rfl, fun _ => rfl, fun _ _ => rfl⟩
  | cons head rest ih =>
    obtain ⟨hownership, htargets, hstatus⟩ := ih (x.recoverOne head)
    have hget : ∀ key, (x.recoverOne head).targets key = if key = head then .empty else x.targets key := by
      intro key
      refine (congrArg (Option.getD · PendingTargets.empty) (Map.get_remove _ _ _)).trans ?_
      split_ifs <;> rfl
    refine ⟨hownership.trans (setPoolStatus_ownership _), fun key => ?_, fun key hkey => ?_⟩
    · rw [List.foldl_cons, htargets, hget]
      by_cases hrest : key ∈ rest <;> by_cases hhead : key = head <;> simp [hrest, hhead]
    · obtain ⟨hhead, hrest⟩ := not_or.mp (mt List.mem_cons.mpr hkey)
      rw [List.foldl_cons, hstatus key hrest]
      exact (status_setPoolStatus _ key).trans (if_neg hhead)

theorem recoverResyncedPools_spec (report : ReactiveBatchReport) (degradedNow : List PoolKey) (x : TargetedEngine) :
    (x.recoverResyncedPools report degradedNow).2.ownership = x.ownership ∧
      (∀ key ∉ (x.recoverResyncedPools report degradedNow).1,
        (x.recoverResyncedPools report degradedNow).2.targets key = x.targets key ∧
          (x.recoverResyncedPools report degradedNow).2.status key = x.status key) ∧
      ∀ key ∈ (x.recoverResyncedPools report degradedNow).1, key ∉ degradedNow ∧ ∃ pool owned, pool.key = key ∧
        x.ownership.pools.get pool = some owned ∧
          shouldRecover owned.dependencies (x.degradedTargets.get key) report.resyncRefreshes = true := by
  unfold recoverResyncedPools
  by_cases hempty : report.resyncRefreshes.isEmpty = true
  · rw [if_pos hempty]
    exact ⟨rfl, fun _ _ => ⟨rfl, rfl⟩, fun _ h => absurd h List.not_mem_nil⟩
  · simp only [hempty, Bool.false_eq_true, if_false]
    obtain ⟨hownership, htargets, hstatus⟩ :=
      foldl_recoverOne ((x.recoverable report.resyncRefreshes degradedNow).map (·.key)) x
    refine ⟨hownership, fun key hkey => ⟨(htargets key).trans (if_neg hkey), hstatus key hkey⟩, fun key hkey => ?_⟩
    obtain ⟨pool, hpool, rfl⟩ := List.mem_map.mp hkey
    obtain ⟨-, hnow, owned, howned, hrecover⟩ := mem_recoverable hpool
    exact ⟨hnow, pool, owned, rfl, howned, hrecover⟩

/-! ### One batch -/

/-- The report of a batch that the engine marks and recovers by, with the engine that tracks its resyncs. A refused batch,
    a preconfirmation and a report whose resyncs cannot be tracked have none. -/
def judged (x : TargetedEngine) (batch : IngestedBatch) : Option (ReactiveBatchReport × TargetedEngine) :=
  match batch.report with
  | none => none
  | some report =>
    if report.preconfirmed then none
    else match x.trackReportResyncs report with
    | (.error _, _) => none
    | (.ok _, y) => some (report, y)

/-- A failed resync of a batch counts for a pool. -/
def Counts (x : TargetedEngine) (batch : IngestedBatch) (failure : ResyncFailure) (pool : PoolInstanceId) : Prop :=
  ∃ report y, x.judged batch = some (report, y) ∧ failure ∈ report.resyncFailures ∧
    pool ∈ poolsForFailure y.ownership failure

/-- The resync of a slot that a pool depends on failed in a batch, and counts for the pool. -/
def FailsOn (x : TargetedEngine) (batch : IngestedBatch) (key : PoolKey) (slot : StateSlot) : Prop :=
  ∃ failure pool, x.Counts batch failure pool ∧ pool.key = key ∧ slot ∈ failure.target.slots ∧
    pool ∈ x.ownership.poolsForSlot slot

/-- The resync of an account that a pool depends on failed in a batch, and counts for the pool. -/
def FailsOnAccount (x : TargetedEngine) (batch : IngestedBatch) (key : PoolKey) : Prop :=
  ∃ failure pool address, x.Counts batch failure pool ∧ pool.key = key ∧ failure.target = .account address ∧
    pool ∈ x.ownership.poolsForAddress address

/-- A batch carries a log of a registered pool that could not be decoded. -/
def DecodeFails (x : TargetedEngine) (batch : IngestedBatch) (key : PoolKey) : Prop :=
  ∃ report y, x.judged batch = some (report, y) ∧ key ∈ report.decodeFailures ∧ (x.status key).isSome = true

/-- The marking loops of a batch require an explicit refresh of a pool. -/
def LosesTrust (x : TargetedEngine) (batch : IngestedBatch) (key : PoolKey) : Prop :=
  ∃ report y, x.judged batch = some (report, y) ∧
    key ∈ (y.markPools report batch.deferRepairs batch.eventFreeReorg).2.1

/-- A batch recovers a pool. -/
def Recovers (x : TargetedEngine) (batch : IngestedBatch) (key : PoolKey) : Prop :=
  ∃ result, (x.ingestBatch batch).1 = .ok result ∧ key ∈ result.recoveredPools

/-- The resyncs of a batch refreshed a slot. -/
def Refreshes (batch : IngestedBatch) (slot : StateSlot) : Prop :=
  ∃ report, batch.report = some report ∧ slot ∈ report.resyncRefreshes

/-- The parts of an ownership index that say which pools depend on what. -/
structure SameDependencies (a b : AmmOwnershipIndex) : Prop where
  pools : b.pools = a.pools
  slotPools : b.slotPools = a.slotPools
  wholeAccountPools : b.wholeAccountPools = a.wholeAccountPools
  addressPools : b.addressPools = a.addressPools

namespace SameDependencies
variable {a b c : AmmOwnershipIndex}

theorem refl (a : AmmOwnershipIndex) : SameDependencies a a := ⟨rfl, rfl, rfl, rfl⟩

theorem trans (hab : SameDependencies a b) (hbc : SameDependencies b c) : SameDependencies a c :=
  ⟨hbc.pools.trans hab.pools, hbc.slotPools.trans hab.slotPools,
    hbc.wholeAccountPools.trans hab.wholeAccountPools, hbc.addressPools.trans hab.addressPools⟩

theorem poolsForSlot (h : SameDependencies a b) (slot : StateSlot) : b.poolsForSlot slot = a.poolsForSlot slot := by
  rw [AmmOwnershipIndex.poolsForSlot, h.slotPools, h.wholeAccountPools, AmmOwnershipIndex.poolsForSlot]

theorem poolsForAddress (h : SameDependencies a b) (address : Address) :
    b.poolsForAddress address = a.poolsForAddress address := by
  rw [AmmOwnershipIndex.poolsForAddress, h.addressPools, AmmOwnershipIndex.poolsForAddress]

theorem trackResync (pool : PoolInstanceId) (resync : ResyncId) (a : AmmOwnershipIndex) :
    SameDependencies a (a.trackResync pool resync).2 := by
  unfold AmmOwnershipIndex.trackResync
  split_ifs
  · exact refl a
  · exact refl a
  · exact ⟨rfl, rfl, rfl, rfl⟩

theorem trackPending (pending : List (PoolInstanceId × ResyncId)) (a : AmmOwnershipIndex) :
    SameDependencies a (SyncManager.trackPending pending a).2 := by
  induction pending generalizing a with
  | nil => exact refl a
  | cons head rest ih =>
    obtain ⟨pool, resync⟩ := head
    have hone := trackResync pool resync a
    rw [SyncManager.trackPending]
    split
    · next h =>
      rw [h] at hone
      exact hone
    · next h =>
      rw [h] at hone
      exact hone.trans (ih _)

theorem untrackResync (resync : ResyncId) (a : AmmOwnershipIndex) :
    SameDependencies a (a.untrackResync resync).2 := by
  unfold AmmOwnershipIndex.untrackResync
  split
  · exact refl a
  · split <;> exact ⟨rfl, rfl, rfl, rfl⟩

theorem untrackResyncs (tracked : List ResyncId) (a : AmmOwnershipIndex) :
    SameDependencies a (tracked.foldl (fun ownership resync => (ownership.untrackResync resync).2) a) := by
  induction tracked generalizing a with
  | nil => exact refl a
  | cons resync rest ih => exact (untrackResync resync a).trans (ih _)

end SameDependencies

/-- Tracking the resyncs of a report changes nothing but the owners of resyncs. -/
theorem trackReportResyncs_frame (report : ReactiveBatchReport) (x : TargetedEngine) :
    SameDependencies x.ownership (x.trackReportResyncs report).2.ownership ∧
      (x.trackReportResyncs report).2.registry = x.registry ∧
      (x.trackReportResyncs report).2.degradedTargets = x.degradedTargets := by
  unfold trackReportResyncs
  split
  · exact ⟨.refl _, rfl, rfl⟩
  · next tracking _ =>
    have hpending := SameDependencies.trackPending tracking.pending x.ownership
    split
    · next h =>
      rw [h] at hpending
      exact ⟨hpending, rfl, rfl⟩
    · next h =>
      rw [h] at hpending
      exact ⟨hpending, rfl, rfl⟩

/-- A batch that is not judged leaves statuses, targets and dependencies, and recovers nothing. -/
theorem ingestBatch_of_not_judged {batch : IngestedBatch} (h : x.judged batch = none) :
    SameDependencies x.ownership (x.ingestBatch batch).2.ownership ∧
      (∀ key, (x.ingestBatch batch).2.status key = x.status key) ∧
      (∀ key, (x.ingestBatch batch).2.targets key = x.targets key) ∧ ∀ key, ¬x.Recovers batch key := by
  obtain ⟨report, deferRepairs, eventFreeReorg⟩ := batch
  cases report with
  | none =>
    refine ⟨.refl _, fun _ => rfl, fun _ => rfl, fun _ hrecovers => ?_⟩
    obtain ⟨_, hresult, -⟩ := hrecovers
    cases hresult
  | some report =>
    simp only [judged] at h
    by_cases hpre : report.preconfirmed = true
    · have hout : x.ingestBatch ⟨some report, deferRepairs, eventFreeReorg⟩ = (.ok ⟨[], []⟩, x) := by
        simp only [ingestBatch, finishIngest, if_pos hpre]
      refine ⟨by rw [hout]; exact .refl _, fun _ => by rw [hout], fun _ => by rw [hout], fun key hrecovers => ?_⟩
      obtain ⟨result, hresult, hkey⟩ := hrecovers
      rw [hout] at hresult
      cases hresult
      exact absurd hkey List.not_mem_nil
    · rw [if_neg hpre] at h
      obtain ⟨hdependencies, hregistry, htargets⟩ := trackReportResyncs_frame report x
      cases htrack : x.trackReportResyncs report with
      | mk answer y =>
        rw [htrack] at h hdependencies hregistry htargets
        cases answer with
        | ok tracked => cases h
        | error error =>
          have hout : x.ingestBatch ⟨some report, deferRepairs, eventFreeReorg⟩ = (.error error, y) := by
            simp only [ingestBatch, finishIngest, if_neg hpre, htrack]
          rw [hout]
          refine ⟨hdependencies, fun key => by rw [status, hregistry, status], targets_congr htargets,
            fun key hrecovers => ?_⟩
          obtain ⟨result, hresult, -⟩ := hrecovers
          rw [hout] at hresult
          cases hresult

/-- What a batch leaves, and what a recovery needs. -/
structure BatchSpec (x : TargetedEngine) (batch : IngestedBatch) : Prop where
  dependencies : SameDependencies x.ownership (x.ingestBatch batch).2.ownership
  ready : ∀ key, (x.ingestBatch batch).2.status key = some .ready → x.status key = some .ready ∨ x.Recovers batch key
  waitsOn : ∀ key slot, ¬x.Recovers batch key →
    ((x.ingestBatch batch).2.WaitsOn key slot ↔ x.WaitsOn key slot ∨ x.FailsOn batch key slot)
  fenced : ∀ key, ¬x.Recovers batch key →
    ((x.ingestBatch batch).2.Fenced key ↔ x.Fenced key ∨ x.FailsOnAccount batch key ∨ x.LosesTrust batch key)
  recovers : ∀ key, x.Recovers batch key →
    ¬x.Fenced key ∧ ¬x.LosesTrust batch key ∧ (∀ failure pool, x.Counts batch failure pool → pool.key ≠ key) ∧
    (∀ slot, x.WaitsOn key slot → Refreshes batch slot) ∧
    ((∀ slot, ¬x.WaitsOn key slot) → ∃ pool owned, pool.key = key ∧ x.ownership.pools.get pool = some owned ∧
      owned.dependencies.slots ≠ [] ∧ ∀ slot ∈ owned.dependencies.slots, Refreshes batch slot)

theorem judged_of {batch : IngestedBatch} {report : ReactiveBatchReport} (h : x.judged batch = some (report, y)) :
    batch.report = some report ∧ ∃ tracked, report.preconfirmed = false ∧
      x.trackReportResyncs report = (.ok tracked, y) := by
  unfold judged at h
  split at h
  · cases h
  · next report' hreport =>
    split_ifs at h with hpre
    split at h
    · cases h
    · next tracked y' htrack =>
      cases h
      exact ⟨hreport, tracked, by simpa using hpre, htrack⟩

theorem ingestBatch_of_judged {batch : IngestedBatch} {report : ReactiveBatchReport}
    (h : x.judged batch = some (report, y)) : BatchSpec x batch := by
  obtain ⟨hreport, tracked, hpre, htrack⟩ := judged_of h
  obtain ⟨htracked, hregistry, htargets⟩ := trackReportResyncs_frame report x
  rw [htrack] at htracked hregistry htargets
  -- The engine after the marking loops, after the fences, and after the recovery.
  obtain ⟨hrecords, hfailed, -⟩ := markPools_spec report batch.deferRepairs batch.eventFreeReorg y
  let marks := y.markPools report batch.deferRepairs batch.eventFreeReorg
  let explicit := sortDedup PoolKey.rank marks.2.1
  let fenced := marks.2.2.requireExplicitRefresh explicit
  let degraded := sortDedup PoolKey.rank (marks.1 ++ explicit)
  let recovery := fenced.recoverResyncedPools report degraded
  have hout : x.ingestBatch batch =
      (.ok ⟨degraded, sortDedup PoolKey.rank recovery.1⟩, recovery.2.untrackResyncs tracked) := by
    simp only [ingestBatch, hreport, finishIngest, hpre, Bool.false_eq_true, if_false, htrack]
    rfl
  have hcounts : ∀ failure pool, x.Counts batch failure pool ↔ (failure, pool) ∈ counted y.ownership report := by
    intro failure pool
    rw [mem_counted]
    constructor
    · rintro ⟨_, _, hjudged, hmem⟩
      cases h.symm.trans hjudged
      exact hmem
    · exact fun hmem => ⟨report, y, h, hmem⟩
  have hloses : ∀ key, x.LosesTrust batch key ↔ key ∈ explicit := by
    intro key
    rw [mem_sortDedup_iff]
    constructor
    · rintro ⟨_, _, hjudged, hmem⟩
      cases h.symm.trans hjudged
      exact hmem
    · exact fun hmem => ⟨report, y, h, hmem⟩
  have hrecovers : ∀ key, x.Recovers batch key ↔ key ∈ recovery.1 := by
    intro key
    rw [Recovers, hout]
    constructor
    · rintro ⟨result, hresult, hmem⟩
      cases hresult
      exact mem_sortDedup _ hmem
    · exact fun hmem => ⟨_, rfl, (mem_sortDedup_iff _).mpr hmem⟩
  obtain ⟨hwaits, hfences⟩ := requireExplicitRefresh_spec explicit marks.2.2
  obtain ⟨hownership, hother, hmem⟩ := recoverResyncedPools_spec report degraded fenced
  have hfencedOwnership : fenced.ownership = y.ownership := hrecords.ownership
  have hwaitsFenced : ∀ key slot, fenced.WaitsOn key slot ↔ x.WaitsOn key slot ∨ x.FailsOn batch key slot := by
    intro key slot
    rw [hwaits, hrecords.waitsOn, WaitsOn, targets_congr htargets]
    refine or_congr_right ⟨?_, ?_⟩
    · rintro ⟨⟨failure, pool⟩, hpair, hkey, hslot, hpool⟩
      exact ⟨failure, pool, (hcounts _ _).mpr hpair, hkey, hslot, htracked.poolsForSlot slot ▸ hpool⟩
    · rintro ⟨failure, pool, hcount, hkey, hslot, hpool⟩
      exact ⟨(failure, pool), (hcounts _ _).mp hcount, hkey, hslot, (htracked.poolsForSlot slot).symm ▸ hpool⟩
  have hfenced : ∀ key, fenced.Fenced key ↔ x.Fenced key ∨ x.FailsOnAccount batch key ∨ x.LosesTrust batch key := by
    intro key
    rw [hfences, hrecords.fenced, Fenced, targets_congr htargets, hloses, or_assoc]
    refine or_congr_right (or_congr_left ⟨?_, ?_⟩)
    · rintro ⟨⟨failure, pool⟩, hpair, hkey, hcovered⟩
      obtain ⟨address, htarget, hpool⟩ := PendingTargets.covered_fence.mp hcovered
      exact ⟨failure, pool, address, (hcounts _ _).mpr hpair, hkey, htarget, htracked.poolsForAddress address ▸ hpool⟩
    · rintro ⟨failure, pool, address, hcount, hkey, htarget, hpool⟩
      refine ⟨(failure, pool), (hcounts _ _).mp hcount, hkey, PendingTargets.covered_fence.mpr ⟨address, htarget, ?_⟩⟩
      exact (htracked.poolsForAddress address).symm ▸ hpool
  have hafter : ∀ key, ¬x.Recovers batch key → (x.ingestBatch batch).2.targets key = fenced.targets key ∧
      (x.ingestBatch batch).2.status key = fenced.status key := by
    intro key hkey
    rw [hout]
    exact hother key (mt (hrecovers key).mpr hkey)
  refine ⟨?_, fun key hready => ?_, fun key slot hkey => ?_, fun key hkey => ?_, fun key hkey => ?_⟩
  · rw [hout]
    refine htracked.trans (.trans ?_ (.untrackResyncs tracked recovery.2.ownership))
    rw [hownership, hfencedOwnership]
    exact .refl _
  · by_cases hkey : x.Recovers batch key
    · exact .inr hkey
    · rw [(hafter key hkey).2] at hready
      rcases hrecords.status key with hsame | hdegraded
      · rw [← hready, status, ← hregistry]
        exact .inl hsame.symm
      · cases hdegraded.symm.trans hready
  · rw [WaitsOn, (hafter key hkey).1]
    exact hwaitsFenced key slot
  · rw [Fenced, (hafter key hkey).1]
    exact hfenced key
  · obtain ⟨hnow, pool, owned, hpool, howned, hrecover⟩ := hmem key ((hrecovers key).mp hkey)
    obtain ⟨hnotFenced, hrefreshed, hread⟩ := recovers_of_shouldRecover hrecover
    obtain ⟨hx, hrest⟩ := not_or.mp (mt (hfenced key).mpr hnotFenced)
    have hnone : ∀ failure pool, x.Counts batch failure pool → pool.key ≠ key := by
      intro failure pool hcount hkey
      refine hnow ((mem_sortDedup_iff _).mpr (List.mem_append_left _ ((hfailed key).mpr ?_)))
      exact ⟨(failure, pool), (hcounts failure pool).mp hcount, hkey⟩
    refine ⟨hx, (not_or.mp hrest).2, hnone, fun slot hslot => ?_, fun hempty => ?_⟩
    · exact ⟨report, hreport, hrefreshed slot ((hwaitsFenced key slot).mpr (.inl hslot))⟩
    · obtain ⟨hslots, hall⟩ := hread fun slot hslot => by
        rcases (hwaitsFenced key slot).mp hslot with h | ⟨failure, other, hcount, hother, -⟩
        · exact hempty slot h
        · exact hnone failure other hcount hother
      refine ⟨pool, owned, hpool, ?_, hslots, fun slot hslot => ⟨report, hreport, hall slot hslot⟩⟩
      rw [← htracked.pools, ← hfencedOwnership]
      exact howned

theorem ingestBatch_spec (x : TargetedEngine) (batch : IngestedBatch) : BatchSpec x batch := by
  cases h : x.judged batch with
  | some judged => exact ingestBatch_of_judged h
  | none =>
    obtain ⟨hdependencies, hstatus, htargets, hrecovers⟩ := ingestBatch_of_not_judged h
    have hcounts : ∀ failure pool, ¬x.Counts batch failure pool := by
      rintro failure pool ⟨report, y, hjudged, -⟩
      cases h.symm.trans hjudged
    refine ⟨hdependencies, fun key hready => .inl (hstatus key ▸ hready), fun key slot _ => ?_, fun key _ => ?_,
      fun key hkey => absurd hkey (hrecovers key)⟩
    · rw [WaitsOn, htargets]
      refine ⟨.inl, ?_⟩
      rintro (hwaits | ⟨failure, pool, hcount, -⟩)
      · exact hwaits
      · exact absurd hcount (hcounts failure pool)
    · rw [Fenced, htargets]
      refine ⟨.inl, ?_⟩
      rintro (hfenced | ⟨failure, pool, address, hcount, -⟩ | ⟨report, y, hjudged, -⟩)
      · exact hfenced
      · exact absurd hcount (hcounts failure pool)
      · cases h.symm.trans hjudged

/-- A log that could not be decoded costs its pool the trust. -/
theorem DecodeFails.losesTrust {batch : IngestedBatch} (h : x.DecodeFails batch key) : x.LosesTrust batch key := by
  obtain ⟨report, y, hjudged, hkey, hknown⟩ := h
  refine ⟨report, y, hjudged,
    (markPools_spec report batch.deferRepairs batch.eventFreeReorg y).2.2 key (.inl ⟨?_, .inl hkey⟩)⟩
  obtain ⟨-, tracked, -, htrack⟩ := judged_of hjudged
  obtain ⟨-, hregistry, -⟩ := trackReportResyncs_frame report x
  rw [htrack] at hregistry
  rw [status, hregistry]
  exact hknown

/-! ### Runs -/

/-- One of the batches of a run did something, in the engine that it came to. -/
def Happened (x : TargetedEngine) (batches : List IngestedBatch) (event : TargetedEngine → IngestedBatch → Prop) : Prop :=
  ∃ earlier batch later, batches = earlier ++ batch :: later ∧ event (x.ingestBatches earlier) batch

theorem not_happened_nil (x : TargetedEngine) (event : TargetedEngine → IngestedBatch → Prop) : ¬x.Happened [] event := by
  rintro ⟨earlier, batch, later, h, -⟩
  simp at h

theorem happened_concat {batches : List IngestedBatch} {batch : IngestedBatch}
    {event : TargetedEngine → IngestedBatch → Prop} :
    x.Happened (batches ++ [batch]) event ↔ x.Happened batches event ∨ event (x.ingestBatches batches) batch := by
  constructor
  · rintro ⟨earlier, head, later, h, hevent⟩
    rcases List.eq_nil_or_concat later with rfl | ⟨later, last, rfl⟩
    · obtain ⟨rfl, hhead⟩ := List.append_inj' h rfl
      rw [List.singleton_inj.mp hhead]
      exact .inr hevent
    · rw [List.concat_eq_append, ← List.cons_append, ← List.append_assoc] at h
      obtain ⟨rfl, -⟩ := List.append_inj' h rfl
      exact .inl ⟨earlier, head, later, rfl, hevent⟩
  · rintro (⟨earlier, head, later, rfl, hevent⟩ | hevent)
    · exact ⟨earlier, head, later ++ [batch], by simp, hevent⟩
    · exact ⟨batches, batch, [], rfl, hevent⟩

theorem ingestBatches_concat (x : TargetedEngine) (batches : List IngestedBatch) (batch : IngestedBatch) :
    x.ingestBatches (batches ++ [batch]) = ((x.ingestBatches batches).ingestBatch batch).2 :=
  List.foldl_concat ..

/-- What a pool waits on after a run that never recovers it: what it waited on before, and every failure of the run. -/
theorem ingestBatches_spec (x : TargetedEngine) (key : PoolKey) (batches : List IngestedBatch)
    (hsince : ¬x.Happened batches fun x batch => x.Recovers batch key) :
    SameDependencies x.ownership (x.ingestBatches batches).ownership ∧
      (∀ slot, (x.ingestBatches batches).WaitsOn key slot ↔
        x.WaitsOn key slot ∨ x.Happened batches fun x batch => x.FailsOn batch key slot) ∧
      ((x.ingestBatches batches).Fenced key ↔ x.Fenced key ∨
        x.Happened batches fun x batch => x.FailsOnAccount batch key ∨ x.LosesTrust batch key) := by
  induction batches using List.reverseRecOn with
  | nil =>
    refine ⟨.refl _, fun slot => ?_, ?_⟩
    · simp [not_happened_nil, ingestBatches]
    · simp [not_happened_nil, ingestBatches]
  | append_singleton batches batch ih =>
    obtain ⟨hbefore, hlast⟩ := not_or.mp (mt happened_concat.mpr hsince)
    obtain ⟨hdependencies, hwaits, hfenced⟩ := ih hbefore
    have hspec := ingestBatch_spec (x.ingestBatches batches) batch
    rw [ingestBatches_concat]
    refine ⟨hdependencies.trans hspec.dependencies, fun slot => ?_, ?_⟩
    · rw [hspec.waitsOn key slot hlast, hwaits, happened_concat, or_assoc]
    · rw [hspec.fenced key hlast, hfenced, happened_concat, or_assoc]

/-- A recovery is sound: the pool was fenced by no batch since its last recovery, no failure of the same batch counts for
    it, and the batch refreshed every slot whose failure counted for it since, or, when there is none, every slot of its
    read set. A pool turns ready in no other way. Apart from a recovery, a batch adds to the slots that a pool waits on
    those which the pool depends on and whose failure counts for it, and removes none. -/
theorem recovery_sound :
    (∀ (x : TargetedEngine) (since : List IngestedBatch) (last : IngestedBatch) (key : PoolKey),
      ¬x.Happened since (fun x batch => x.Recovers batch key) → (x.ingestBatches since).Recovers last key →
        ¬x.Fenced key ∧
        ¬x.Happened (since ++ [last]) (fun x batch =>
          x.LosesTrust batch key ∨ x.DecodeFails batch key ∨ x.FailsOnAccount batch key) ∧
        (∀ failure pool, (x.ingestBatches since).Counts last failure pool → pool.key ≠ key) ∧
        (∀ slot, x.WaitsOn key slot ∨ x.Happened since (fun x batch => x.FailsOn batch key slot) → Refreshes last slot) ∧
        ((∀ slot, ¬x.WaitsOn key slot ∧ ¬x.Happened since (fun x batch => x.FailsOn batch key slot)) →
          ∃ pool owned, pool.key = key ∧ x.ownership.pools.get pool = some owned ∧ owned.dependencies.slots ≠ [] ∧
            ∀ slot ∈ owned.dependencies.slots, Refreshes last slot)) ∧
    (∀ (x : TargetedEngine) (batch : IngestedBatch) (key : PoolKey),
      (x.ingestBatch batch).2.status key = some .ready → x.status key = some .ready ∨ x.Recovers batch key) ∧
    ∀ (x : TargetedEngine) (batch : IngestedBatch) (key : PoolKey) (slot : StateSlot), ¬x.Recovers batch key →
      ((x.ingestBatch batch).2.WaitsOn key slot ↔ x.WaitsOn key slot ∨ x.FailsOn batch key slot) := by
  refine ⟨fun x since last key hsince hrecovers => ?_, fun x batch => (ingestBatch_spec x batch).ready,
    fun x batch => (ingestBatch_spec x batch).waitsOn⟩
  obtain ⟨hdependencies, hwaits, hfenced⟩ := ingestBatches_spec x key since hsince
  obtain ⟨hnotFenced, htrust, hcounts, hslots, hread⟩ :=
    (ingestBatch_spec (x.ingestBatches since) last).recovers key hrecovers
  obtain ⟨hx, hrun⟩ := not_or.mp (mt hfenced.mpr hnotFenced)
  refine ⟨hx, ?_, hcounts, fun slot hslot => hslots slot ((hwaits slot).mpr hslot), fun hempty => ?_⟩
  · rw [happened_concat]
    rintro (⟨earlier, batch, later, rfl, hevent⟩ | hevent)
    · refine hrun ⟨earlier, batch, later, rfl, ?_⟩
      rcases hevent with hloses | hdecode | haccount
      · exact .inr hloses
      · exact .inr hdecode.losesTrust
      · exact .inl haccount
    · rcases hevent with hloses | hdecode | ⟨failure, pool, address, hcount, hkey, -⟩
      · exact htrust hloses
      · exact htrust hdecode.losesTrust
      · exact hcounts failure pool hcount hkey
  · obtain ⟨pool, owned, hkey, howned, hall⟩ := hread fun slot hslot =>
      ((hwaits slot).mp hslot).elim (hempty slot).1 (hempty slot).2
    exact ⟨pool, owned, hkey, hdependencies.pools ▸ howned, hall⟩

/-! ### Two pools of one vault slot -/

namespace SharedSlot

def vault : Address := 0xe3

/-- Balance slots of the vault that a pool reads. -/
def balancerAdapter : AmmAdapter where
  allocation := 0
  protocol := .balancerV2
  protocols := [.balancerV2]
  primary := List.mem_singleton.mpr rfl
  stateDependencies registration :=
    match registration.metadata with
    | .balancerV2 metadata => ⟨[vault], [], metadata.balanceSlots.map (StateSlot.mk vault), nofun, by simp⟩
    | _ => .default
  eventSources _ := []

def registration (id : B256) (slots : List U256) : PoolRegistration where
  key := .balancerV2 id
  stateAddresses := [vault]
  eventSources := []
  metadata := .balancerV2 ⟨some vault, none, [], slots, []⟩
  status := .ready

/-- The first pool reads the shared slot, the second one the shared slot and one of its own. -/
def registry : AdapterRegistry where
  adapters := [(.balancerV2, balancerAdapter)]
  pools := [registration 1 [0x73], registration 2 [0x73, 0x74]]
  protocols_nodup := by decide
  keys_nodup := by decide
  serves := by simp [balancerAdapter]
  family := by simp [balancerAdapter]

def handlerId (pool : PoolInstanceId) : HandlerId := ⟨if pool.key = .balancerV2 1 then "first" else "second"⟩

def engine : TargetedEngine := ⟨(AmmSyncEngine.withConfig handlerId registry).toOption.get (by decide), .empty⟩

/-- One handler asks for a resync, which is reported. -/
def batch (handler request : String) (report : ResyncReport) : IngestedBatch where
  report := some ⟨[.input false, .resynced report], [⟨⟨handler⟩, [⟨request⟩], [], []⟩]⟩
  deferRepairs := false
  eventFreeReorg := []

def ownFailure : IngestedBatch := batch "second" "a" ⟨[], [], [⟨⟨"a"⟩, .storageSlot vault 0x74⟩]⟩

def sharedFailure : IngestedBatch := batch "first" "b" ⟨[], [], [⟨⟨"b"⟩, .storageSlot vault 0x73⟩]⟩

def ownRefresh : IngestedBatch := batch "second" "c" ⟨[.slot vault 0x74 5], [], []⟩

/-- The keys that a batch recovers. -/
def recovered (x : TargetedEngine) (batch : IngestedBatch) : Option (List PoolKey) :=
  (x.ingestBatch batch).1.toOption.map (·.recoveredPools)

theorem recovers_iff {x : TargetedEngine} {batch : IngestedBatch} {key : PoolKey} :
    x.Recovers batch key ↔ ∃ keys, recovered x batch = some keys ∧ key ∈ keys := by
  rw [Recovers, recovered]
  cases (x.ingestBatch batch).1 with
  | error error => simp [Except.toOption]
  | ok result => simp [Except.toOption]

theorem not_recovers {x : TargetedEngine} {batch : IngestedBatch} {key : PoolKey} (h : recovered x batch = some []) :
    ¬x.Recovers batch key := by
  rw [recovers_iff, h]
  rintro ⟨keys, hkeys, hmem⟩
  cases hkeys
  exact absurd hmem List.not_mem_nil

end SharedSlot
open SharedSlot

/-- The second pool waits for its own slot and turns ready with it, though a resync of the shared slot, which it reads too,
    has failed meanwhile and was not made up for: that failure counts for the first pool alone, which had asked for it. -/
theorem recovers_over_shared_failure :
    (engine.ingestBatches [ownFailure]).status (.balancerV2 2) = some .degraded ∧
    (∃ owned, engine.ownership.pools.get ⟨.balancerV2 2, 0⟩ = some owned ∧ ⟨vault, 0x73⟩ ∈ owned.dependencies.slots) ∧
    (∃ report, sharedFailure.report = some report ∧ ⟨⟨"b"⟩, .storageSlot vault 0x73⟩ ∈ report.resyncFailures) ∧
    (∀ batch ∈ [ownFailure, sharedFailure, ownRefresh], ¬Refreshes batch ⟨vault, 0x73⟩) ∧
    (engine.ingestBatches [ownFailure, sharedFailure]).Recovers ownRefresh (.balancerV2 2) ∧
    (engine.ingestBatches [ownFailure, sharedFailure, ownRefresh]).status (.balancerV2 2) = some .ready := by
  refine ⟨by decide, ⟨_, rfl, by decide⟩, ⟨_, rfl, List.mem_singleton.mpr rfl⟩, ?_, ?_, by decide⟩
  · simp only [List.mem_cons, List.not_mem_nil, or_false]
    rintro batch (rfl | rfl | rfl) ⟨report, hreport, hslot⟩
    all_goals
      cases hreport
      revert hslot
      decide
  · exact recovers_iff.mpr ⟨[.balancerV2 2], by decide, List.mem_singleton.mpr rfl⟩

theorem recovery_sound_ownSlot :
    Refreshes ownRefresh ⟨vault, 0x74⟩ ∧
    ((engine.ingestBatch ownFailure).2.WaitsOn (.balancerV2 2) ⟨vault, 0x74⟩ ↔
      engine.WaitsOn (.balancerV2 2) ⟨vault, 0x74⟩ ∨ engine.FailsOn ownFailure (.balancerV2 2) ⟨vault, 0x74⟩) := by
  refine ⟨?_, recovery_sound.2.2 engine ownFailure (.balancerV2 2) ⟨vault, 0x74⟩ (not_recovers (by decide))⟩
  have hsince : ¬(engine.ingestBatches [ownFailure]).Happened [sharedFailure]
      fun x batch => x.Recovers batch (.balancerV2 2) := by
    rw [← List.nil_append [sharedFailure], happened_concat]
    exact not_or.mpr ⟨not_happened_nil _ _, not_recovers (by decide)⟩
  have hrecovers : ((engine.ingestBatches [ownFailure]).ingestBatches [sharedFailure]).Recovers
      ownRefresh (.balancerV2 2) :=
    recovers_iff.mpr ⟨[.balancerV2 2], by decide, List.mem_singleton.mpr rfl⟩
  have hwaits : ⟨vault, 0x74⟩ ∈ ((engine.ingestBatches [ownFailure]).targets (.balancerV2 2)).slots := by decide
  exact (recovery_sound.1 (engine.ingestBatches [ownFailure]) [sharedFailure] ownRefresh (.balancerV2 2) hsince
    hrecovers).2.2.2.1 _ (.inl hwaits)

end TargetedEngine
end SyncManager
end AmmState
