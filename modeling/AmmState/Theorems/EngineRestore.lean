import AmmState.Runtime.PreparedCommits
import AmmState.Theorems.SyncEngine

/-! What a prepared commit relies on from the engine: a batch of added pools that is removed again leaves the registry and
    the ownership index as they were, and for a coherent engine neither the snapshot of the registry nor the refresh of an
    active pool by its own registration can fail. -/

namespace AmmState.SyncManager
open Checked SortDedup

/-! ### The registry -/

namespace AdapterRegistry

/-- A registry is its adapters and its pools. -/
theorem ext {x y : AmmState.AdapterRegistry} (hadapters : x.adapters = y.adapters)
    (hpools : x.pools = y.pools) : x = y := by
  cases x
  cases y
  congr

end AdapterRegistry

/-! ### What additions and removals leave alone -/

/-- The index after pools were added: the others and everything else are as they were. -/
structure Ownership.Extends (x y : AmmOwnershipIndex) (new : List PoolInstanceId) : Prop where
  adapters : y.adapters = x.adapters
  discovery : y.discovery = x.discovery
  work : y.ownerWork = x.ownerWork
  resyncs : y.poolResyncs = x.poolResyncs
  pools : ∀ p, p ∉ new → y.pools.get p = x.pools.get p

/-- The index after pools were removed, with their work and their resyncs. -/
structure Ownership.Reduced (x y : AmmOwnershipIndex) (gone : List PoolInstanceId) : Prop where
  adapters : y.adapters = x.adapters
  discovery : y.discovery = x.discovery
  work : ∀ owner, y.ownerWork.get owner = if ∃ p ∈ gone, owner = .pool p then none else x.ownerWork.get owner
  resyncs : ∀ p, y.poolResyncs.get p = if p ∈ gone then none else x.poolResyncs.get p
  pools : ∀ p, y.pools.get p = if p ∈ gone then none else x.pools.get p

variable {handlerId : PoolInstanceId → HandlerId} {engine : AmmSyncEngine}

theorem Addable.extends {pool : PreparedPoolAddition} (ha : Addable handlerId engine pool) (h : Inv handlerId engine) :
    Ownership.Extends engine.ownership (enterPool engine pool).ownership [pool.instance] := by
  have hok := ha.insert_ok h
  rcases engine.ownership.insertPool_inv pool.ownership with ⟨error, he⟩ | ⟨-, -, -, -, hinsert⟩
  · cases he.symm.trans hok
  · have hindex := (Prod.mk.inj (hok.symm.trans hinsert)).2
    refine ⟨?_, ?_, ?_, ?_, fun p hp => ?_⟩
    · exact (congrArg AmmOwnershipIndex.adapters hindex).trans rfl
    · exact (congrArg AmmOwnershipIndex.discovery hindex).trans rfl
    · exact (congrArg AmmOwnershipIndex.ownerWork hindex).trans rfl
    · exact (congrArg AmmOwnershipIndex.poolResyncs hindex).trans rfl
    · show (engine.ownership.insertPool pool.ownership).2.pools.get p = _
      rw [(ha.forward h).pools, Map.get_insert_of_ne fun heq => hp (List.mem_singleton.mpr heq)]

theorem Batch.extends {batch : List PreparedPoolAddition} (hb : Batch handlerId engine batch) (h : Inv handlerId engine) :
    Ownership.Extends engine.ownership (batch.foldl enterPool engine).ownership (batch.map (·.instance)) := by
  induction batch generalizing engine with
  | nil => exact ⟨rfl, rfl, rfl, rfl, fun _ _ => rfl⟩
  | cons pool rest ih =>
    have ha := hb.addable pool List.mem_cons_self
    have hfirst := ha.extends h
    have hrest := ih (hb.tail h) (h.addPool ha)
    refine ⟨hrest.adapters.trans hfirst.adapters, hrest.discovery.trans hfirst.discovery, hrest.work.trans hfirst.work,
      hrest.resyncs.trans hfirst.resyncs, fun p hp => ?_⟩
    rw [List.map_cons, List.mem_cons, not_or] at hp
    exact (hrest.pools p hp.2).trans (hfirst.pools p fun hmem => hp.1 (List.mem_singleton.mp hmem))

theorem reduced_dropPool {pool : PoolInstanceId} (hp : Owned engine pool) :
    Ownership.Reduced engine.ownership (dropPool handlerId engine pool).ownership [pool] := by
  obtain ⟨o, ho⟩ := hp
  have hindex : (engine.ownership.removePool pool).2.adapters = engine.ownership.adapters ∧
      (engine.ownership.removePool pool).2.discovery = engine.ownership.discovery ∧
      (engine.ownership.removePool pool).2.ownerWork = engine.ownership.ownerWork.remove (.pool pool) ∧
      (engine.ownership.removePool pool).2.poolResyncs = engine.ownership.poolResyncs.remove pool := by
    rw [AmmOwnershipIndex.removePool, ho]
    exact ⟨rfl, rfl, rfl, rfl⟩
  obtain ⟨hadapters, hdiscovery, hwork, hresyncs⟩ := hindex
  refine ⟨hadapters, hdiscovery, fun owner => ?_, fun p => ?_, fun p => ?_⟩
  · show (engine.ownership.removePool pool).2.ownerWork.get owner = _
    rw [hwork, Map.get_remove]
    simp only [List.mem_singleton, exists_eq_left]
  · show (engine.ownership.removePool pool).2.poolResyncs.get p = _
    rw [hresyncs, Map.get_remove]
    simp only [List.mem_singleton]
  · show (engine.ownership.removePool pool).2.pools.get p = _
    rw [(Ownership.forward_removePool pool).pools, Map.get_remove]
    simp only [List.mem_singleton]

theorem reduced_dropPools {pools : List PoolInstanceId} (h : Inv handlerId engine) (hp : ∀ pool ∈ pools, Owned engine pool)
    (hnodup : pools.Nodup) :
    Ownership.Reduced engine.ownership (pools.foldl (dropPool handlerId) engine).ownership pools := by
  induction pools generalizing engine with
  | nil => exact ⟨rfl, rfl, fun _ => by simp, fun _ => by simp, fun _ => by simp⟩
  | cons pool rest ih =>
    obtain ⟨hpool, hrest⟩ := List.nodup_cons.mp hnodup
    have hfirst := hp pool List.mem_cons_self
    obtain ⟨hinv, howned, -⟩ := h.dropPool hfirst
    have hone := @reduced_dropPool handlerId _ _ hfirst
    have hall := ih hinv (fun p hmem => (howned p).mpr ⟨fun heq => hpool (heq ▸ hmem), hp p (List.mem_cons_of_mem _ hmem)⟩)
      hrest
    refine ⟨hall.adapters.trans hone.adapters, hall.discovery.trans hone.discovery, fun owner => ?_, fun p => ?_,
      fun p => ?_⟩
    · rw [List.foldl_cons, hall.work, hone.work]
      by_cases hrest : ∃ p ∈ rest, owner = .pool p <;> by_cases hone : owner = .pool pool <;> simp [hrest, hone]
    · rw [List.foldl_cons, hall.resyncs, hone.resyncs]
      by_cases hrest : p ∈ rest <;> by_cases hone : p = pool <;> simp [hrest, hone]
    · rw [List.foldl_cons, hall.pools, hone.pools]
      by_cases hrest : p ∈ rest <;> by_cases hone : p = pool <;> simp [hrest, hone]

theorem registry_enterPool {batch : List PreparedPoolAddition} (hb : Batch handlerId engine batch)
    (h : Inv handlerId engine) :
    (batch.foldl enterPool engine).registry.adapters = engine.registry.adapters ∧
      (batch.foldl enterPool engine).registry.pools = engine.registry.pools ++ batch.map (·.registration) := by
  induction batch generalizing engine with
  | nil => exact ⟨rfl, (List.append_nil _).symm⟩
  | cons pool rest ih =>
    have ha := hb.addable pool List.mem_cons_self
    obtain ⟨hadapters, hpools⟩ := ih (hb.tail h) (h.addPool ha)
    obtain ⟨-, hfirst, hkept⟩ := ha.entered_ok
    exact ⟨hadapters.trans hkept, hpools.trans (by
      rw [show (enterPool engine pool).registry.pools = engine.registry.pools ++ [pool.registration] from hfirst,
        List.map_cons, List.append_assoc, List.singleton_append])⟩

theorem registry_dropPool (pools : List PoolInstanceId) (engine : AmmSyncEngine) :
    (pools.foldl (dropPool handlerId) engine).registry.adapters = engine.registry.adapters ∧
      (pools.foldl (dropPool handlerId) engine).registry.pools =
        engine.registry.pools.filter fun registration => registration.key ∉ pools.map (·.key) := by
  induction pools generalizing engine with
  | nil => exact ⟨rfl, by simp⟩
  | cons pool rest ih =>
    obtain ⟨hadapters, hpools⟩ := ih (dropPool handlerId engine pool)
    refine ⟨hadapters, hpools.trans ?_⟩
    show (engine.registry.pools.filter (·.key ≠ pool.key)).filter _ = _
    rw [List.filter_filter]
    refine List.filter_congr fun registration _ => ?_
    rw [List.map_cons]
    by_cases hrest : registration.key ∈ rest.map (·.key) <;> by_cases hone : registration.key = pool.key <;>
      simp [hrest, hone]

/-! ### Taking additions back -/

/-- The keys of a batch are not registered before it. -/
theorem Batch.not_registered {batch : List PreparedPoolAddition} (hb : Batch handlerId engine batch)
    {registration : PoolRegistration} (hr : registration ∈ engine.registry.pools) :
    registration.key ∉ batch.map (·.instance.key) := by
  intro hmem
  obtain ⟨pool, hpool, hkey⟩ := List.mem_map.mp hmem
  have hnew := (hb.addable pool hpool).new
  rw [← (hb.addable pool hpool).key, show pool.instance.key = registration.key from hkey] at hnew
  cases hnew.symm.trans (AdapterRegistry.pool_of_mem hr)

/-- What the engine owns after a batch. -/
theorem Batch.owned_iff {batch : List PreparedPoolAddition} (hb : Batch handlerId engine batch) (h : Inv handlerId engine)
    {engine' : AmmSyncEngine} (h' : Inv handlerId engine')
    (hownership : engine'.ownership = (batch.foldl enterPool engine).ownership)
    (hregistry : engine'.registry = (batch.foldl enterPool engine).registry) (pool : PoolInstanceId) :
    Owned engine' pool ∧ pool.key ∈ batch.map (·.instance.key) ↔ pool ∈ batch.map (·.instance) := by
  have hmem : ∀ added ∈ batch, Owned engine' added.instance := by
    intro added hadded
    obtain ⟨o, ho, hkey, -⟩ := h'.owned_of_registered (hregistry ▸ pool_enterPool h hb hadded)
    by_cases heq : o = added.instance
    · exact heq ▸ ho
    · -- Another generation of the key would have been owned before the batch.
      exfalso
      have hold : Owned engine o := by
        rw [Owned, ← (hb.extends h).pools o, ← hownership]
        · exact ho
        · intro hin
          obtain ⟨other, hother, rfl⟩ := List.mem_map.mp hin
          exact heq (congrArg _ (List.inj_on_of_nodup_map hb.keys hother hadded hkey))
      exact h.not_owned (hb.addable added hadded).new hold (hkey.trans (hb.addable added hadded).key)
  constructor
  · rintro ⟨howned, hkey⟩
    obtain ⟨added, hadded, heq⟩ := List.mem_map.mp hkey
    exact h'.owned_unique (hmem added hadded) howned heq ▸ List.mem_map_of_mem hadded
  · intro hpool
    obtain ⟨added, hadded, rfl⟩ := List.mem_map.mp hpool
    exact ⟨hmem added hadded, List.mem_map.mpr ⟨added, hadded, rfl⟩⟩

/-- Removing what a batch has added leaves the registry and the index that were there before it. -/
theorem Batch.restore {batch : List PreparedPoolAddition} (hb : Batch handlerId engine batch) (h : Inv handlerId engine)
    {engine' : AmmSyncEngine} (h' : Inv handlerId engine')
    (hownership : engine'.ownership = (batch.foldl enterPool engine).ownership)
    (hregistry : engine'.registry = (batch.foldl enterPool engine).registry) {keys : List PoolKey}
    (hkeys : ∀ key, key ∈ keys ↔ key ∈ batch.map (·.instance.key)) {removed : List PoolInstanceId} {after : AmmSyncEngine}
    (hok : engine'.removePools keys = (.ok removed, after)) :
    after.registry = engine.registry ∧ after.ownership = engine.ownership ∧
      ∀ pool, pool ∉ batch.map (·.instance) → after.lifecycles.pools.get pool = engine'.lifecycles.pools.get pool := by
  rcases removePools_cases h' keys with ⟨error, herror⟩ | ⟨pools, hpools, hnodup, hdropped⟩
  · cases herror.symm.trans hok
  obtain ⟨rfl, rfl⟩ : pools = removed ∧ pools.foldl (dropPool handlerId) engine' = after := by
    simpa using hdropped.symm.trans hok
  have hsame : ∀ pool, pool ∈ pools ↔ pool ∈ batch.map (·.instance) := fun pool => by
    rw [hpools, hkeys, hb.owned_iff h h' hownership hregistry]
  have hnone : ∀ pool ∈ pools, engine.ownership.pools.get pool = none := by
    intro pool hpool
    obtain ⟨added, hadded, rfl⟩ := List.mem_map.mp ((hsame pool).mp hpool)
    exact Option.eq_none_iff_forall_ne_some.mpr fun o ho => (hb.addable added hadded).not_owned h ⟨o, ho⟩
  have hextends := hb.extends h
  rw [← hownership] at hextends
  have hreduced := reduced_dropPools h' (fun pool hp => ((hpools pool).mp hp).1) hnodup
  refine ⟨?_, ?_, fun pool hpool => ?_⟩
  · obtain ⟨hadapters, hregistered⟩ := @registry_dropPool handlerId pools engine'
    obtain ⟨hadapters', hregistered'⟩ := registry_enterPool hb h
    rw [hregistry] at hadapters hregistered
    refine AdapterRegistry.ext (hadapters.trans hadapters') ?_
    rw [hregistered, hregistered', List.filter_append]
    have hold : engine.registry.pools.filter (fun registration => registration.key ∉ pools.map (·.key)) =
        engine.registry.pools := by
      refine List.filter_eq_self.mpr fun registration hr => decide_eq_true fun hmem => hb.not_registered hr ?_
      obtain ⟨pool, hp, hkey⟩ := List.mem_map.mp hmem
      obtain ⟨added, hadded, rfl⟩ := List.mem_map.mp ((hsame pool).mp hp)
      exact List.mem_map.mpr ⟨added, hadded, hkey⟩
    have hnew : (batch.map (·.registration)).filter (fun registration => registration.key ∉ pools.map (·.key)) = [] := by
      refine List.filter_eq_nil_iff.mpr fun registration hr => ?_
      obtain ⟨added, hadded, rfl⟩ := List.mem_map.mp hr
      have hmem : added.registration.key ∈ pools.map (·.key) :=
        List.mem_map.mpr ⟨added.instance, (hsame _).mpr (List.mem_map_of_mem hadded), (hb.addable added hadded).key⟩
      simp [hmem]
    rw [hold, hnew, List.append_nil]
  · obtain ⟨hinv, -⟩ := h'.dropPools (fun pool hp => ((hpools pool).mp hp).1) hnodup
    refine hinv.ownership.ext h.ownership (hreduced.adapters.trans hextends.adapters) (Map.ext fun p => ?_)
      (hreduced.discovery.trans hextends.discovery) (Map.ext fun owner => ?_) (Map.ext fun p => ?_)
    · rw [hreduced.pools]
      by_cases hp : p ∈ pools
      · rw [if_pos hp, hnone p hp]
      · rw [if_neg hp, hextends.pools p (hp ∘ (hsame p).mpr)]
    · rw [hreduced.work, hextends.work]
      split_ifs with hp
      · obtain ⟨p, hp, rfl⟩ := hp
        -- A pool that is not owned has no work.
        refine (Option.eq_none_iff_forall_ne_some.mpr fun entries hentries => ?_).symm
        obtain ⟨work, hwork⟩ := Finset.nonempty_iff_ne_empty.mpr (h.ownership.ownerWork.1 _ _ hentries)
        have hlive := (h.ownership.ownerWork.2 _ work ⟨entries, hentries, hwork⟩).2
        rw [AmmOwnershipIndex.ownerLive, Map.contains_iff] at hlive
        obtain ⟨o, ho⟩ := hlive
        cases (hnone p hp).symm.trans ho
      · rfl
    · rw [hreduced.resyncs, hextends.resyncs]
      split_ifs with hp
      · refine (Option.eq_none_iff_forall_ne_some.mpr fun entries hentries => ?_).symm
        obtain ⟨-, -, o, ho⟩ := h.ownership.poolResyncs p entries hentries
        cases (hnone p hp).symm.trans ho
      · rfl
  · rw [lifecycles_dropPool, foldl_setPool]
    exact if_neg (hpool ∘ (hsame pool).mp)

/-! ### The snapshot of a coherent engine -/

/-- The adapter of an owned pool is registered under the protocol of the pool. -/
theorem Inv.adapter_of_pool (h : Inv handlerId engine) {pool : PoolInstanceId} {o : PoolOwnership}
    (ho : engine.ownership.pools.get pool = some o) :
    ∃ adapter, engine.registry.adapter pool.key.protocol = some adapter ∧ adapter.key = o.adapter.key ∧
      engine.ownership.activeAdapters.get adapter.key = some o.adapter := by
  have hmem := (h.ownership.poolInstance pool o ho).2
  obtain ⟨protocol, adapter, hadapter, hkey⟩ := (h.adapters o.adapter.key).mpr ⟨o.adapter, hmem, rfl⟩
  have hserved : pool.key.protocol ∈ adapter.protocols := by
    rw [← AmmAdapter.mem_key, hkey]
    exact h.serves pool o ho
  exact ⟨adapter, AdapterRegistry.adapter_of_served hadapter hserved, hkey,
    (h.ownership.activeAdapters _ _).mpr ⟨hmem, hkey.symm⟩⟩

theorem mem_families {registry : AdapterRegistry} {key : AdapterKey} :
    key ∈ families registry ↔ ∃ protocol adapter, registry.adapter protocol = some adapter ∧ adapter.key = key := by
  rw [families, List.mem_dedup, List.mem_map]
  constructor
  · rintro ⟨⟨protocol, adapter⟩, hmem, rfl⟩
    exact ⟨protocol, adapter, AdapterRegistry.adapter_of_mem hmem, rfl⟩
  · rintro ⟨protocol, adapter, hadapter, rfl⟩
    exact ⟨(protocol, adapter), AdapterRegistry.mem_of_adapter hadapter, rfl⟩

theorem Inv.checkPoolAdapter (h : Inv handlerId engine) {registration : PoolRegistration}
    (hr : registration ∈ engine.registry.pools) :
    PreparedCommits.checkPoolAdapter engine.registry engine.ownership registration = .ok () := by
  obtain ⟨pool, ⟨o, ho⟩, hkey, hactive⟩ := h.owned_of_registered (AdapterRegistry.pool_of_mem hr)
  obtain ⟨adapter, hadapter, hfamily, hserving⟩ := h.adapter_of_pool ho
  rw [hkey] at hadapter
  simp only [PreparedCommits.checkPoolAdapter, bind_eq_ok, orError_eq_ok, ensure_eq_ok, Option.map_eq_some_iff]
  exact ⟨adapter, hadapter, pool, hactive, o.adapter, ⟨o, ho, rfl⟩, hfamily.symm, hserving⟩

/-- The snapshot of a coherent engine can be taken, and holds the views of the engine. -/
theorem Inv.tryNew (h : Inv handlerId engine) : PreparedCommits.tryNew engine.registry engine.ownership =
    .ok ⟨engine.registry, engine.ownership.activePools, engine.ownership.activeAdapters⟩ := by
  have hregistered : ∀ registration ∈ sortBy (·.key.rank) engine.registry.pools, registration ∈ engine.registry.pools :=
    fun registration => (perm_sortBy _ _).mem_iff.mp
  simp only [PreparedCommits.tryNew, bind_eq_ok, forM_eq_ok, ensure_eq_ok, pure_eq_ok]
  refine ⟨(), fun registration hr => ?_, (), fun pool hpool => ?_, (), fun registration hr => ?_,
    (), fun key hkey => ?_, (), fun adapter hadapter => ?_, trivial⟩
  · obtain ⟨pool, -, -, hactive⟩ := h.owned_of_registered (AdapterRegistry.pool_of_mem (hregistered registration hr))
    exact Option.isSome_iff_exists.mpr ⟨pool, hactive⟩
  · rw [mem_sorted, PreparedCommits.ownedInstances, Finset.mem_biUnion] at hpool
    obtain ⟨adapter, -, hpool⟩ := hpool
    have hown : ReverseIndex.Owns engine.ownership.adapterPools adapter pool := by
      cases hentries : engine.ownership.adapterPools.get adapter with
      | none => simp [hentries] at hpool
      | some entries => exact ⟨entries, hentries, by simpa [hentries] using hpool⟩
    obtain ⟨o, ho, -⟩ := (h.ownership.adapterPools.2 adapter pool).mp hown
    exact Option.isSome_iff_exists.mpr (h.registered_of_owned ⟨o, ho⟩)
  · exact h.checkPoolAdapter (hregistered registration hr)
  · obtain ⟨adapter, hadapter, hkey⟩ := (h.adapters key).mp (mem_families.mp hkey)
    exact Option.isSome_iff_exists.mpr ⟨adapter, (h.ownership.activeAdapters _ _).mpr ⟨hadapter, hkey⟩⟩
  · exact mem_families.mpr ((h.adapters _).mpr ⟨adapter, hadapter, rfl⟩)

/-- A ready registration of an active pool can be prepared. -/
theorem Inv.preparePoolRefresh (h : Inv handlerId engine) {pool : PoolInstanceId} {replacement : PoolRegistration}
    (hactive : engine.ownership.activePools.get pool.key = some pool) (hkey : replacement.key = pool.key)
    (hready : replacement.status = .ready) :
    ∃ token, engine.preparePoolRefresh handlerId pool replacement = .ok token := by
  obtain ⟨o, ho⟩ := (h.active_iff.mp hactive).1
  obtain ⟨previous, hprevious⟩ := h.registered_of_owned ⟨o, ho⟩
  obtain ⟨adapter, hadapter, hfamily, hserving⟩ := h.adapter_of_pool ho
  obtain ⟨handler, hhandler, -⟩ := h.handler_of_owned ho
  have hchecked : engine.checkRefresh pool replacement = .ok () := by
    simp only [AmmSyncEngine.checkRefresh, bind_eq_ok, ensure_eq_ok]
    exact ⟨(), hactive, (), hkey, hready⟩
  have hprotocol : replacement.protocol = pool.key.protocol := congrArg PoolKey.protocol hkey
  have hrefresh : engine.refreshAdapter pool replacement o = .ok adapter := by
    simp only [AmmSyncEngine.refreshAdapter, h.routing, hprotocol, hadapter, hprevious, bind_eq_ok, orError_eq_ok,
      ensure_eq_ok, pure_eq_ok]
    exact ⟨adapter, rfl, adapter, rfl, (), ⟨rfl, rfl⟩, (), ⟨hfamily.symm, hserving⟩, rfl⟩
  have howner : ∀ dependencies emitters, ∃ owner,
      newPoolOwnership handlerId pool o.adapter dependencies emitters = .ok owner :=
    fun dependencies emitters => ⟨_, if_pos (h.serves pool o ho)⟩
  obtain ⟨owner, howner⟩ := howner (adapter.stateDependencies replacement)
    ((engine.registry.eventSourcesFor replacement).map (·.emitter))
  have hcontains : engine.handlers.contains o.handler = true := Map.contains_iff.mpr ⟨handler, hhandler⟩
  refine ⟨⟨pool, previous, replacement, o, owner, ⟨handlerId pool, pool, replacement, adapter,
    engine.registry.eventSourcesFor replacement⟩, AdapterRegistry.key_of_pool hprevious, hkey⟩, ?_⟩
  rw [AmmSyncEngine.preparePoolRefresh, hchecked, ok_bind]
  split
  · rename_i hnone
    cases hnone.symm.trans hprevious
  · rename_i registration hregistration
    obtain rfl : previous = registration := Option.some.inj (hprevious.symm.trans hregistration)
    simp only [orError_eq_ok.mpr ho, ok_bind, hrefresh, howner, ensure_bind hcontains]
    rw [dif_pos hkey]
    rfl

/-- What a refresh leaves, apart from the count of degraded pools, is coherent, whatever registration the token was prepared
    against. -/
theorem coherent_refreshed (h : Inv handlerId engine) {token : AmmPreparedPoolRefresh} (ht : TokenOk handlerId token)
    (haccepted : Accepted engine token) :
    ∃ coherent, Inv handlerId coherent ∧ coherent.registry = (refreshed engine token).registry ∧
      coherent.ownership = (refreshed engine token).ownership := by
  obtain ⟨present, hpresent⟩ := h.registered_of_owned ⟨_, haccepted⟩
  let current : AmmPreparedPoolRefresh :=
    { token with previousRegistration := present, previous_key := AdapterRegistry.key_of_pool hpresent }
  have hcurrent : TokenOk handlerId current := ⟨ht.owner, ht.ownerName, ht.adapter, ht.handlerName, ht.handlerPool⟩
  have hrefreshed := @Inv.refreshed handlerId engine h current hcurrent haccepted hpresent
  exact ⟨refreshed engine current, hrefreshed.1, rfl, rfl⟩

/-- A refresh changes the registration and the resources of its pool only. -/
theorem refreshed_pools (h : Inv handlerId engine) {token : AmmPreparedPoolRefresh} (ht : TokenOk handlerId token)
    (haccepted : Accepted engine token) :
    (refreshed engine token).ownership.pools = engine.ownership.pools.insert token.instance token.replacementOwnership ∧
      ∀ key, (refreshed engine token).registry.pool key =
        if key = token.instance.key then some token.replacementRegistration else engine.registry.pool key := by
  obtain ⟨present, hpresent⟩ := h.registered_of_owned ⟨_, haccepted⟩
  refine ⟨(h.replaceOwnership ht haccepted).2.pools, fun key => ?_⟩
  show (engine.registry.updatePool token.replacementRegistration).pool key = _
  rw [AdapterRegistry.pool_updatePool, token.replacement_key, hpresent]
  rfl

/-- Acknowledging delivery changes the states of the acknowledged pools only. -/
theorem acknowledgeLiveDelivery_frame (pools : List PoolInstanceId) (engine : AmmSyncEngine) :
    ∃ lifecycles, (engine.acknowledgeLiveDelivery pools).2 = { engine with lifecycles } ∧
      ∀ pool ∉ pools, lifecycles.pools.get pool = engine.lifecycles.pools.get pool := by
  have hsub : ∀ (pools transitions : List PoolInstanceId), engine.liveTransitions pools = .ok transitions →
      ∀ pool ∈ transitions, pool ∈ pools := by
    intro pools
    induction pools with
    | nil =>
      intro transitions hok pool hpool
      obtain rfl := Except.ok.inj hok
      cases hpool
    | cons head rest ih =>
      intro transitions hok pool hpool
      simp only [AmmSyncEngine.liveTransitions, bind_eq_ok, pure_eq_ok] at hok
      obtain ⟨turns, -, transitions, hrest, rfl⟩ := hok
      split_ifs at hpool
      · rcases List.mem_cons.mp hpool with rfl | hpool
        · exact List.mem_cons_self
        · exact List.mem_cons_of_mem _ (ih transitions hrest pool hpool)
      · exact List.mem_cons_of_mem _ (ih transitions hrest pool hpool)
  unfold AmmSyncEngine.acknowledgeLiveDelivery
  split
  · exact ⟨engine.lifecycles, rfl, fun _ _ => rfl⟩
  · rename_i transitions htransitions
    refine ⟨_, rfl, fun pool hpool => ?_⟩
    rw [foldl_setPool]
    exact if_neg fun hmem => hpool (List.mem_dedup.mp (hsub _ _ htransitions pool hmem))

end AmmState.SyncManager
