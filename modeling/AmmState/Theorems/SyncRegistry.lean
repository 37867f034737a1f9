import AmmState.Theorems.SyncAdapters
import AmmState.Theorems.SyncRemovals

/-! An engine built from a registry, alone or in the place of another. Its members have the next generations of their keys,
    so none of them was owned before; what was owned before stays as tombstones. -/

namespace AmmState.SyncManager
open Checked SortDedup

variable {handlerId : PoolInstanceId → HandlerId} {engine after : AmmSyncEngine} {registry : AdapterRegistry}
  {previous : RuntimeGenerationLedger}

/-! ### The ownership index of a registry -/

/-- What is entered for the families and the registrations so far, each under the next generation of its key. -/
structure Built (handlerId : PoolInstanceId → HandlerId) (previous : RuntimeGenerationLedger) (families : List AdapterKey)
    (keys : List PoolKey) (acc : AmmOwnershipIndex × RuntimeGenerationLedger) : Prop where
  index : acc.1.Inv
  discovery : ∀ owner, acc.1.discovery.get owner = none
  adapters : ∀ key, key ∈ families ↔ ∃ adapter ∈ acc.1.adapters, adapter.key = key
  adapterNext : ∀ adapter ∈ acc.1.adapters, previous.nextAdapter adapter.key = .ok adapter.generation ∧
    acc.2.adapters.get adapter.key = some adapter.generation
  adapterRest : ∀ key, key ∉ families → acc.2.adapters.get key = previous.adapters.get key
  pools : ∀ key, key ∈ keys ↔ ∃ pool, (∃ o, acc.1.pools.get pool = some o) ∧ pool.key = key
  poolNext : ∀ pool o, acc.1.pools.get pool = some o → o.handler = handlerId pool ∧
    pool.key.protocol ∈ o.adapter.key.protocols ∧ previous.nextPool pool.key = .ok pool.generation ∧
    acc.2.pools.get pool.key = some pool.generation
  poolRest : ∀ key, key ∉ keys → acc.2.pools.get key = previous.pools.get key

namespace Built
variable {families : List AdapterKey} {keys : List PoolKey} {acc acc' : AmmOwnershipIndex × RuntimeGenerationLedger}

theorem start : Built handlerId previous [] [] (.empty, previous) where
  index := AmmOwnershipIndex.inv_empty
  discovery _ := rfl
  adapters _ := by
    refine ⟨fun h => absurd h List.not_mem_nil, fun h => ?_⟩
    obtain ⟨_, hmem, -⟩ := h
    exact absurd hmem (Finset.notMem_empty _)
  adapterNext _ h := absurd h (Finset.notMem_empty _)
  adapterRest _ _ := rfl
  pools _ := by
    refine ⟨fun h => absurd h List.not_mem_nil, fun h => ?_⟩
    obtain ⟨_, ⟨_, hget⟩, -⟩ := h
    cases hget
  poolNext _ _ h := by cases h
  poolRest _ _ := rfl

theorem insertFamily (h : Built handlerId previous families keys acc) {key : AdapterKey}
    (hok : insertFamily previous acc key = .ok acc') : Built handlerId previous (families ++ [key]) keys acc' := by
  simp only [SyncManager.insertFamily, bind_eq_ok, Ownership.adopt_eq_ok, pure_eq_ok] at hok
  obtain ⟨generation, hgeneration, ownership, ⟨_, hinsert⟩, rfl⟩ := hok
  have hindex := h.index.insertAdapter ⟨key, generation⟩
  rcases acc.1.insertAdapter_inv ⟨key, generation⟩ with ⟨error, herror⟩ | ⟨hnew, hdone⟩
  · cases herror.symm.trans hinsert
  · obtain rfl := (Prod.mk.inj (hdone.symm.trans hinsert)).2
    rw [hdone] at hindex
    -- The key of a family that is entered already is another one.
    have hother : ∀ adapter ∈ acc.1.adapters, adapter.key ≠ key := by
      intro adapter hmem heq
      cases hnew.symm.trans ((h.index.activeAdapters _ adapter).mpr ⟨hmem, heq⟩)
    refine ⟨hindex, h.discovery, fun key' => ?_, fun adapter hmem => ?_, fun key' hkey' => ?_, h.pools,
      h.poolNext, h.poolRest⟩
    · rw [List.mem_append, List.mem_singleton, h.adapters]
      simp only [Finset.mem_insert, exists_eq_or_imp]
      rw [or_comm, eq_comm]
    · rcases Finset.mem_insert.mp hmem with rfl | hmem
      · exact ⟨hgeneration, Map.get_insert_self ..⟩
      · obtain ⟨hnext, hlast⟩ := h.adapterNext adapter hmem
        exact ⟨hnext, (Map.get_insert_of_ne (hother adapter hmem)).trans hlast⟩
    · rw [List.mem_append, List.mem_singleton, not_or] at hkey'
      exact (Map.get_insert_of_ne hkey'.2).trans (h.adapterRest key' hkey'.1)

theorem insertRegistered (h : Built handlerId previous families keys acc) {registration : PoolRegistration}
    (hok : insertRegistered handlerId registry previous acc registration = .ok acc') :
    Built handlerId previous families (keys ++ [registration.key]) acc' := by
  simp only [SyncManager.insertRegistered, bind_eq_ok, orError_eq_ok, Ownership.adopt_eq_ok, pure_eq_ok] at hok
  obtain ⟨adapter, -, family, -, generation, hgeneration, o, ho, ownership, ⟨_, hinsert⟩, rfl⟩ := hok
  obtain ⟨howner, hname, hserves⟩ : o.instance = ⟨registration.key, generation⟩ ∧
      o.handler = handlerId ⟨registration.key, generation⟩ ∧ registration.key.protocol ∈ o.adapter.key.protocols := by
    unfold newPoolOwnership at ho
    split_ifs at ho with hserves
    obtain rfl := Except.ok.inj ho
    exact ⟨rfl, rfl, hserves⟩
  have hindex := h.index.insertPool o
  rw [hinsert] at hindex
  have hdiscovery : ownership.discovery = acc.1.discovery := by
    rcases acc.1.insertPool_inv o with ⟨error, herror⟩ | ⟨-, -, -, -, hdone⟩
    · cases herror.symm.trans hinsert
    · exact (congrArg AmmOwnershipIndex.discovery (Prod.mk.inj (hdone.symm.trans hinsert)).2).symm.trans rfl
  obtain ⟨hfresh, hforward⟩ := Ownership.forward_insertPool hinsert
  rw [howner] at hfresh
  have hpools := hforward.pools
  rw [howner] at hpools
  have hactive : ∀ pool o', acc.1.pools.get pool = some o' → pool.key ≠ registration.key := by
    intro pool o' ho' heq
    rcases acc.1.insertPool_inv o with ⟨error, herror⟩ | ⟨-, hnew, -⟩
    · cases herror.symm.trans hinsert
    · rw [howner] at hnew
      cases hnew.symm.trans ((h.index.activePools _ pool).mpr ⟨⟨o', ho'⟩, heq⟩)
  refine ⟨hindex, fun owner => by rw [hdiscovery]; exact h.discovery owner, fun key => ?_, fun a hmem => ?_, h.adapterRest,
    fun key => ?_, fun pool o' ho' => ?_, fun key hkey => ?_⟩
  · rw [hforward.adapters]
    exact h.adapters key
  · rw [hforward.adapters] at hmem
    exact h.adapterNext a hmem
  · rw [List.mem_append, List.mem_singleton, h.pools, hpools]
    constructor
    · rintro (⟨pool, ⟨o', ho'⟩, rfl⟩ | rfl)
      · exact ⟨pool, ⟨o', (Map.get_insert_of_ne fun heq => hactive pool o' ho' (by rw [heq])).trans ho'⟩, rfl⟩
      · exact ⟨_, ⟨o, Map.get_insert_self ..⟩, rfl⟩
    · rintro ⟨pool, ⟨o', ho'⟩, rfl⟩
      rw [Map.get_insert] at ho'
      split_ifs at ho' with heq
      · exact .inr (by rw [heq])
      · exact .inl ⟨pool, ⟨o', ho'⟩, rfl⟩
  · have ho' : ownership.pools.get pool = some o' := ho'
    rw [hpools, Map.get_insert] at ho'
    split_ifs at ho' with heq
    · obtain rfl := Option.some.inj ho'
      subst heq
      exact ⟨hname, hserves, hgeneration, Map.get_insert_self ..⟩
    · obtain ⟨hhandler, hserved, hnext, hlast⟩ := h.poolNext pool o' ho'
      exact ⟨hhandler, hserved, hnext, (Map.get_insert_of_ne (hactive pool o' ho')).trans hlast⟩
  · rw [List.mem_append, List.mem_singleton, not_or] at hkey
    exact (Map.get_insert_of_ne hkey.2).trans (h.poolRest key hkey.1)

end Built

theorem ownershipForRegistry_built {acc : AmmOwnershipIndex × RuntimeGenerationLedger}
    (hok : ownershipForRegistry handlerId registry previous = .ok acc) :
    Built handlerId previous (families registry) ((sortBy (·.key.rank) registry.pools).map (·.key)) acc := by
  obtain ⟨start, hfamilies, hpools⟩ := bind_eq_ok.mp hok
  have hbuilt : Built handlerId previous (families registry) [] start :=
    foldlM_induct (fun done acc => Built handlerId previous done [] acc) hfamilies .start
      fun _ _ _ _ _ h hstep => h.insertFamily hstep
  refine foldlM_induct (fun done acc => Built handlerId previous (families registry) (done.map (·.key)) acc) hpools hbuilt
    fun done _ _ _ _ h hstep => ?_
  rw [List.map_append, List.map_singleton]
  exact h.insertRegistered hstep

/-! ### Its handlers -/

theorem registerFor_inv {routing : AdapterRegistry} {handlers handlers' : Map HandlerId AmmPoolReactiveHandler}
    {pool : PoolInstanceId} (hok : registerFor handlerId routing handlers pool = .ok handlers') :
    handlers.get (handlerId pool) = none ∧
      ∃ handler, handler.instance = pool ∧ handlers' = handlers.insert (handlerId pool) handler := by
  simp only [registerFor, handlerFor, bind_eq_ok, orError_eq_ok, pure_eq_ok] at hok
  obtain ⟨handler, ⟨registration, -, adapter, -, rfl⟩, hregister⟩ := hok
  unfold registerHandler at hregister
  split_ifs at hregister with htaken
  exact ⟨Map.contains_eq_false.mp (Bool.eq_false_of_not_eq_true htaken), _, rfl, (Except.ok.inj hregister).symm⟩

/-- One handler for each of the pools, under its name. -/
theorem runtimeFor_inv {pools : List PoolInstanceId} {routing : AdapterRegistry}
    {handlers : Map HandlerId AmmPoolReactiveHandler} (hok : runtimeFor handlerId pools routing = .ok handlers)
    (name : HandlerId) (pool : PoolInstanceId) :
    (∃ handler, handlers.get name = some handler ∧ handler.instance = pool) ↔ pool ∈ pools ∧ handlerId pool = name := by
  refine foldlM_induct (fun done handlers => (∃ handler, Map.get handlers name = some handler ∧ handler.instance = pool) ↔
    pool ∈ done ∧ handlerId pool = name) hok ?_ fun done added before after _ h hstep => ?_
  · refine ⟨fun h => ?_, fun h => absurd h.1 List.not_mem_nil⟩
    obtain ⟨_, hget, -⟩ := h
    cases hget
  · obtain ⟨hfree, handler, rfl, rfl⟩ := registerFor_inv hstep
    rw [List.mem_append, List.mem_singleton, or_and_right, ← h, Map.get_insert]
    by_cases hname : name = handlerId handler.instance
    · subst hname
      rw [if_pos rfl, hfree]
      constructor
      · rintro ⟨_, heq, rfl⟩
        obtain rfl := Option.some.inj heq
        exact .inr ⟨rfl, rfl⟩
      · rintro (⟨_, hnone, -⟩ | ⟨rfl, -⟩)
        · cases hnone
        · exact ⟨handler, rfl, rfl⟩
    · rw [if_neg hname]
      refine ⟨.inl, fun h => h.resolve_right fun hnew => hname ?_⟩
      rw [← hnew.2, hnew.1]

/-! ### The engine -/

theorem initialState_active (registry : AdapterRegistry) (pool : PoolInstanceId) :
    initialState registry pool ≠ .removed ∧ initialState registry pool ≠ .queued := by
  unfold initialState
  split
  · exact poolRuntimeState_active _
  · exact ⟨fun h => (by cases h), fun h => by cases h⟩

/-- What a replacement is made of. -/
structure Replaced (handlerId : PoolInstanceId → HandlerId) (engine : AmmSyncEngine) (registry : AdapterRegistry)
    (after : AmmSyncEngine) : Prop where
  idle : engine.reservations = []
  built : Built handlerId engine.generations (families registry) ((sortBy (·.key.rank) registry.pools).map (·.key))
    (after.ownership, after.generations)
  handlers : runtimeFor handlerId (ownedPools registry after.ownership) registry = .ok after.handlers
  registries : after.registry = registry ∧ after.routing = registry
  reservations : after.reservations = []
  poolStates : ∀ pool, after.lifecycles.pools.get pool =
    if after.ownership.pools.contains pool then some (initialState registry pool)
    else if engine.ownership.pools.contains pool then some .removed else engine.lifecycles.pools.get pool
  adapterStates : ∀ adapter, after.lifecycles.adapters.get adapter =
    if adapter ∈ after.ownership.adapters then some .active
    else if adapter ∈ engine.ownership.adapters then some .removed else engine.lifecycles.adapters.get adapter
  degraded : after.degradedPoolCount = degradedPools registry

theorem replaced_of (hok : engine.replaced handlerId registry = .ok after) : Replaced handlerId engine registry after := by
  simp only [AmmSyncEngine.replaced, bind_eq_ok, ensure_eq_ok, pure_eq_ok] at hok
  obtain ⟨_, hidle, acc, hbuilt, handlers, hhandlers, rfl⟩ := hok
  exact ⟨hidle, ownershipForRegistry_built hbuilt, hhandlers, ⟨rfl, rfl⟩, hidle, fun _ => rfl, fun _ => rfl, rfl⟩

namespace Replaced

theorem mem_ownedPools (hr : Replaced handlerId engine registry after) (pool : PoolInstanceId) :
    pool ∈ ownedPools registry after.ownership ↔ Owned after pool := by
  rw [ownedPools, List.mem_filterMap]
  constructor
  · rintro ⟨registration, -, hactive⟩
    exact ((hr.built.index.activePools _ _).mp hactive).1
  · intro howned
    obtain ⟨registration, hmem, hkey⟩ := List.mem_map.mp ((hr.built.pools pool.key).mpr ⟨pool, howned, rfl⟩)
    exact ⟨registration, (perm_sortBy _ _).mem_iff.mp hmem, (hr.built.index.activePools _ _).mpr ⟨howned, hkey.symm⟩⟩

/-- A generation that was accepted before the replacement is below the one that its key has now. -/
theorem below (hr : Replaced handlerId engine registry after) (h : Inv handlerId engine)
    {pool accepted : PoolInstanceId} (howned : Owned after pool) {state : PoolRuntimeState}
    (hstate : engine.lifecycles.pools.get accepted = some state) (hkey : accepted.key = pool.key) :
    accepted.generation < pool.generation := by
  obtain ⟨o, ho⟩ := howned
  exact h.fresh_pool (hr.built.poolNext pool o ho).2.2.1 hstate hkey

theorem adapterBelow (hr : Replaced handlerId engine registry after) (h : Inv handlerId engine)
    {adapter accepted : AdapterInstanceId} (hmem : adapter ∈ after.ownership.adapters) {state : OwnerRuntimeState}
    (hstate : engine.lifecycles.adapters.get accepted = some state) (hkey : accepted.key = adapter.key) :
    accepted.generation < adapter.generation :=
  h.fresh_adapter (hr.built.adapterNext adapter hmem).1 hstate hkey

/-- A generation that is not owned after the replacement has a state if it had one before it. -/
theorem accepted (hr : Replaced handlerId engine registry after) (h : Inv handlerId engine) {pool : PoolInstanceId}
    (hnot : ¬ Owned after pool) {state : PoolRuntimeState} (hstate : after.lifecycles.pools.get pool = some state) :
    ∃ state', engine.lifecycles.pools.get pool = some state' := by
  rw [hr.poolStates, if_neg (hnot ∘ Map.contains_iff.mp)] at hstate
  split_ifs at hstate with hbefore
  · obtain ⟨state', hstate', -⟩ := h.state_of_owned (Map.contains_iff.mp hbefore)
    exact ⟨state', hstate'⟩
  · exact ⟨state, hstate⟩

theorem adapterAccepted (hr : Replaced handlerId engine registry after) (h : Inv handlerId engine)
    {adapter : AdapterInstanceId} (hnot : adapter ∉ after.ownership.adapters) {state : OwnerRuntimeState}
    (hstate : after.lifecycles.adapters.get adapter = some state) :
    ∃ state', engine.lifecycles.adapters.get adapter = some state' := by
  rw [hr.adapterStates, if_neg hnot] at hstate
  split_ifs at hstate with hbefore
  · obtain ⟨state', hstate', -⟩ := (h.lifecycleAdapters adapter).mpr hbefore
    exact ⟨state', hstate'⟩
  · exact ⟨state, hstate⟩

theorem coherent (hr : Replaced handlerId engine registry after) (h : Inv handlerId engine) : Coherent after where
  ownership := hr.built.index
  routing := hr.registries.2.trans hr.registries.1.symm
  registered key := by
    rw [hr.registries.1]
    refine Iff.trans ?_ (hr.built.pools key)
    rw [List.mem_map]
    constructor
    · rintro ⟨registration, hregistration⟩
      obtain ⟨hmem, hkey⟩ := AdapterRegistry.pool_eq_some.mp hregistration
      exact ⟨registration, (perm_sortBy _ _).mem_iff.mpr hmem, hkey⟩
    · rintro ⟨registration, hmem, hkey⟩
      exact ⟨registration, AdapterRegistry.pool_eq_some.mpr ⟨(perm_sortBy _ _).mem_iff.mp hmem, hkey⟩⟩
  handlers := handlers_coherent hr.built.index (fun pool o ho => (hr.built.poolNext pool o ho).1) fun name pool => by
    rw [runtimeFor_inv hr.handlers, hr.mem_ownedPools]
    rfl
  adapters key := by
    rw [hr.registries.1, ← hr.built.adapters key, families, List.mem_dedup, List.mem_map]
    constructor
    · rintro ⟨protocol, adapter, hadapter, rfl⟩
      exact ⟨_, AdapterRegistry.mem_of_adapter hadapter, rfl⟩
    · rintro ⟨entry, hentry, rfl⟩
      exact ⟨entry.1, entry.2, AdapterRegistry.adapter_of_mem hentry, rfl⟩
  lifecyclePools pool := by
    rw [hr.poolStates]
    by_cases howned : after.ownership.pools.contains pool = true
    · rw [if_pos howned]
      exact ⟨fun _ => Map.contains_iff.mp howned, fun _ => ⟨_, rfl, initialState_active registry pool⟩⟩
    · rw [if_neg howned]
      refine ⟨fun hstate => ?_, fun hnow => absurd (Map.contains_iff.mpr hnow) howned⟩
      obtain ⟨state, hstate, hremoved, hqueued⟩ := hstate
      split_ifs at hstate with hbefore
      · exact absurd (Option.some.inj hstate).symm hremoved
      · exact absurd (Map.contains_iff.mpr ((h.lifecyclePools pool).mp ⟨state, hstate, hremoved, hqueued⟩)) hbefore
  lifecycleQueued pool := by
    rw [hr.reservations, hr.poolStates]
    refine ⟨fun hstate => ?_, fun hmem => absurd hmem List.not_mem_nil⟩
    split_ifs at hstate
    · exact absurd (Option.some.inj hstate) (initialState_active registry pool).2
    · cases hstate
    · rw [h.lifecycleQueued, hr.idle] at hstate
      exact hstate
  lifecycleAdapters adapter := by
    rw [hr.adapterStates]
    by_cases howned : adapter ∈ after.ownership.adapters
    · rw [if_pos howned]
      exact ⟨fun _ => howned, fun _ => ⟨_, rfl, fun hremoved => by cases hremoved⟩⟩
    · rw [if_neg howned]
      refine ⟨fun hstate => ?_, fun hnow => absurd hnow howned⟩
      obtain ⟨state, hstate, hremoved⟩ := hstate
      split_ifs at hstate with hbefore
      · exact absurd (Option.some.inj hstate).symm hremoved
      · exact absurd ((h.lifecycleAdapters adapter).mp ⟨state, hstate, hremoved⟩) hbefore
  degraded := by rw [hr.degraded, hr.registries.1]

theorem inv (hr : Replaced handlerId engine registry after) (h : Inv handlerId engine) : Inv handlerId after := by
  refine ⟨hr.coherent h, fun pool o ho => (hr.built.poolNext pool o ho).1, ?_, ?_, fun pool state hstate => ?_,
    fun adapter state hstate => ?_, fun pool o ho => (hr.built.poolNext pool o ho).2.1⟩
  · rw [hr.reservations]
    exact .nil
  · rw [hr.reservations]
    exact fun pool hmem => absurd hmem List.not_mem_nil
  · by_cases howned : Owned after pool
    · obtain ⟨o, ho⟩ := howned
      exact ⟨_, (hr.built.poolNext pool o ho).2.2.2, le_rfl⟩
    · obtain ⟨state', hbefore⟩ := hr.accepted h howned hstate
      by_cases hkey : pool.key ∈ (sortBy (·.key.rank) registry.pools).map (·.key)
      · obtain ⟨active, ⟨o, ho⟩, hactive⟩ := (hr.built.pools _).mp hkey
        refine ⟨active.generation, ?_, (hr.below h ⟨o, ho⟩ hbefore hactive.symm).le⟩
        rw [← hactive]
        exact (hr.built.poolNext active o ho).2.2.2
      · obtain ⟨last, hlast, hle⟩ := h.poolLedger pool state' hbefore
        exact ⟨last, (hr.built.poolRest _ hkey).trans hlast, hle⟩
  · by_cases howned : adapter ∈ after.ownership.adapters
    · exact ⟨_, (hr.built.adapterNext adapter howned).2, le_rfl⟩
    · obtain ⟨state', hbefore⟩ := hr.adapterAccepted h howned hstate
      by_cases hkey : adapter.key ∈ families registry
      · obtain ⟨active, hmem, hactive⟩ := (hr.built.adapters _).mp hkey
        refine ⟨active.generation, ?_, (hr.adapterBelow h hmem hbefore hactive.symm).le⟩
        rw [← hactive]
        exact (hr.built.adapterNext active hmem).2
      · obtain ⟨last, hlast, hle⟩ := h.adapterLedger adapter state' hbefore
        exact ⟨last, (hr.built.adapterRest _ hkey).trans hlast, hle⟩

/-- Nothing that was owned before is owned after a replacement. -/
theorem not_owned (hr : Replaced handlerId engine registry after) (h : Inv handlerId engine) {pool : PoolInstanceId}
    (hbefore : Owned engine pool) : ¬ Owned after pool := by
  intro hafter
  obtain ⟨state, hstate, -⟩ := h.state_of_owned hbefore
  exact absurd (hr.below h hafter hstate rfl) (lt_irrefl _)

theorem grows (hr : Replaced handlerId engine registry after) (h : Inv handlerId engine) : Grows engine after where
  poolsKept pool state hstate := by
    rw [hr.poolStates]
    split_ifs
    · exact ⟨_, rfl⟩
    · exact ⟨_, rfl⟩
    · exact ⟨state, hstate⟩
  newPool pool state hnone hsome other state' hother hkey hne := by
    have howned : Owned after pool := by
      by_contra hnot
      obtain ⟨_, hbefore⟩ := hr.accepted h hnot hsome
      cases hnone.symm.trans hbefore
    have hold : ¬ Owned after other := fun hother => hne ((hr.inv h).owned_unique hother howned hkey)
    obtain ⟨_, hbefore⟩ := hr.accepted h hold hother
    exact hr.below h howned hbefore hkey
  adaptersKept adapter state hstate := by
    rw [hr.adapterStates]
    split_ifs
    · exact ⟨_, rfl⟩
    · exact ⟨_, rfl⟩
    · exact ⟨state, hstate⟩
  newAdapter adapter state hnone hsome other state' hother hkey hne := by
    have howned : adapter ∈ after.ownership.adapters := by
      by_contra hnot
      obtain ⟨_, hbefore⟩ := hr.adapterAccepted h hnot hsome
      cases hnone.symm.trans hbefore
    have hold : other ∉ after.ownership.adapters := fun hother => hne ((hr.inv h).adapter_unique hother howned hkey)
    obtain ⟨_, hbefore⟩ := hr.adapterAccepted h hold hother
    exact hr.adapterBelow h howned hbefore hkey

theorem settled (hr : Replaced handlerId engine registry after) (h : Inv handlerId engine) : Settled engine after := by
  intro pool state hstate hne
  have hnot : ¬ Owned after pool := fun hafter => absurd (hr.below h hafter hstate rfl) (lt_irrefl _)
  rw [hr.poolStates, if_neg (hnot ∘ Map.contains_iff.mp)]
  split_ifs
  · exact ⟨.removed, rfl, fun hqueued => (by cases hqueued), fun _ => rfl⟩
  · exact ⟨state, hstate, hne, id⟩

end Replaced

/-- A replacement keeps the engine coherent and retires what it owned; refused, it changes nothing. -/
theorem Inv.replaceRegistry (h : Inv handlerId engine) (registry : AdapterRegistry) :
    Sound handlerId engine (engine.replaceRegistry handlerId registry) ∧
      Frame engine (engine.replaceRegistry handlerId registry).2 := by
  unfold AmmSyncEngine.replaceRegistry
  cases hreplaced : engine.replaced handlerId registry with
  | error error => exact ⟨.unchanged h rfl, .refl engine⟩
  | ok after =>
    have hr := replaced_of hreplaced
    exact ⟨⟨hr.inv h, fun _ herror => (by cases herror), hr.grows h, hr.settled h⟩,
      fun _ hbefore hafter => absurd hafter (hr.not_owned h hbefore)⟩

/-- A new engine is the empty one with its registry replaced. -/
theorem withConfig_eq (handlerId : PoolInstanceId → HandlerId) (registry : AdapterRegistry) :
    AmmSyncEngine.withConfig handlerId registry = AmmSyncEngine.empty.replaced handlerId registry := by
  rw [AmmSyncEngine.withConfig, AmmSyncEngine.replaced, ensure_bind (show AmmSyncEngine.empty.reservations = [] from rfl)]
  rfl

theorem inv_withConfig (hok : AmmSyncEngine.withConfig handlerId registry = .ok engine) :
    Inv handlerId engine ∧ NoDiscovery engine := by
  rw [withConfig_eq] at hok
  have hr := replaced_of hok
  exact ⟨hr.inv inv_empty, hr.built.discovery⟩

end AmmState.SyncManager
