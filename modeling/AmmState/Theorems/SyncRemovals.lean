import AmmState.Theorems.EngineRestore
import AmmState.Theorems.SyncAdapters

/-! Adapters that leave a coherent engine, alone or with every pool that depends on them. A cascade asks for the pools of
    the family only; it leaves the engine coherent as long as no discovery owner stands in the ownership index. -/

namespace AmmState.SyncManager
open Checked SortDedup

variable {handlerId : PoolInstanceId → HandlerId} {engine : AmmSyncEngine} {protocol : ProtocolId} {adapter : AmmAdapter}
  {family : AdapterInstanceId}

/-- No discovery owner stands in the ownership index; the runtime actor enters them, not the engine. -/
def NoDiscovery (engine : AmmSyncEngine) : Prop := ∀ owner, engine.ownership.discovery.get owner = none

namespace Ownership
variable {x : AmmOwnershipIndex}

/-- A family that nothing depends on leaves a well-formed index. -/
theorem removeAdapterPrevalidated_of (hx : x.Inv) (hmem : family ∈ x.adapters)
    (hpools : ∀ p o, x.pools.get p = some o → o.adapter ≠ family)
    (hdiscovery : ∀ d o, x.discovery.get d = some o → o.adapter ≠ family) :
    (x.removeAdapterPrevalidated family).2.Inv ∧
      Forward (x.removeAdapterPrevalidated family).2 x.pools (x.adapters.erase family) := by
  have hunused : ¬((x.adapterPools.get family).any (· ≠ ∅) = true ∨
      (x.adapterDiscovery.get family).any (· ≠ ∅) = true) := by
    rintro (hused | hused)
    · obtain ⟨pools, hget, hne⟩ := (Option.any_eq_true _ _).mp hused
      obtain ⟨p, hp⟩ := Finset.nonempty_iff_ne_empty.mpr (of_decide_eq_true hne)
      obtain ⟨o, ho, hadapter⟩ := (hx.adapterPools.2 family p).mp ⟨pools, hget, hp⟩
      exact hpools p o ho hadapter
    · obtain ⟨owners, hget, hne⟩ := (Option.any_eq_true _ _).mp hused
      obtain ⟨d, hd⟩ := Finset.nonempty_iff_ne_empty.mpr (of_decide_eq_true hne)
      obtain ⟨o, ho, hadapter⟩ := (hx.adapterDiscovery.2 family d).mp ⟨owners, hget, hd⟩
      exact hdiscovery d o ho hadapter
  have hremoved := hx.removeAdapter family
  rw [AmmOwnershipIndex.removeAdapter, if_neg hunused] at hremoved
  refine ⟨hremoved, ?_⟩
  rw [AmmOwnershipIndex.removeAdapterPrevalidated, if_neg (not_not.mpr hmem)]
  exact ⟨rfl, rfl⟩

end Ownership

/-! ### One family -/

theorem Inv.mem_ownedPools (h : Inv handlerId engine) {pool : PoolInstanceId} :
    pool ∈ ownedPools engine.registry engine.ownership ↔ Owned engine pool := by
  rw [ownedPools, List.mem_filterMap]
  constructor
  · rintro ⟨registration, -, hactive⟩
    exact (h.active_iff.mp hactive).1
  · intro howned
    obtain ⟨registration, hregistration⟩ := h.registered_of_owned howned
    obtain ⟨hmem, hkey⟩ := AdapterRegistry.pool_eq_some.mp hregistration
    exact ⟨registration, hmem, h.active_iff.mpr ⟨howned, hkey.symm⟩⟩

/-- The pools of a family are those that it owns. -/
theorem Inv.mem_poolsForAdapter (h : Inv handlerId engine) {pool : PoolInstanceId} :
    pool ∈ engine.poolsForAdapter family ↔ ∃ o, engine.ownership.pools.get pool = some o ∧ o.adapter = family := by
  rw [AmmSyncEngine.poolsForAdapter, List.mem_filter, (perm_sortBy _ _).mem_iff, h.mem_ownedPools, decide_eq_true_iff,
    ← h.ownership.adapterPools.2]
  constructor
  · rintro ⟨-, hmem⟩
    cases hget : engine.ownership.adapterPools.get family with
    | none =>
      rw [hget] at hmem
      exact absurd hmem (Finset.notMem_empty _)
    | some pools =>
      rw [hget] at hmem
      exact ⟨pools, hget, hmem⟩
  · rintro ⟨pools, hget, hmem⟩
    obtain ⟨o, ho, -⟩ := (h.ownership.adapterPools.2 family pool).mp ⟨pools, hget, hmem⟩
    rw [hget]
    exact ⟨⟨o, ho⟩, hmem⟩

/-- A family that nothing depends on leaves every structure. -/
theorem Inv.detachAdapter (h : Inv handlerId engine) (hadapter : engine.registry.adapter protocol = some adapter)
    (hfamily : engine.ownership.activeAdapters.get adapter.key = some family)
    (hpools : ∀ p o, engine.ownership.pools.get p = some o → o.adapter ≠ family)
    (hdiscovery : ∀ d o, engine.ownership.discovery.get d = some o → o.adapter ≠ family) :
    Inv handlerId (engine.detachAdapterPrevalidated protocol family) ∧
      SameDomain engine (engine.detachAdapterPrevalidated protocol family) ∧
      Settled engine (engine.detachAdapterPrevalidated protocol family) ∧
      Frame engine (engine.detachAdapterPrevalidated protocol family) := by
  obtain ⟨hmem, hkey⟩ := (h.ownership.activeAdapters _ _).mp hfamily
  obtain ⟨hindex, hforward⟩ := Ownership.removeAdapterPrevalidated_of h.ownership hmem hpools hdiscovery
  obtain ⟨held, hheld, hlive⟩ := (h.lifecycleAdapters family).mpr hmem
  have hlookup : ∀ key, (engine.registry.unregisterAdapterPrevalidated protocol).pool key = engine.registry.pool key := by
    intro key
    rw [AdapterRegistry.pool, AdapterRegistry.pools_unregisterAdapterPrevalidated, AdapterRegistry.pool]
  have hstates : ∀ a, (engine.detachAdapterPrevalidated protocol family).lifecycles.adapters.get a =
      if a = family then some .removed else engine.lifecycles.adapters.get a := by
    intro a
    show ((engine.lifecycles.adapters.insert family .removing).insert family .removed).get a = _
    rw [Map.get_insert, Map.get_insert]
    split_ifs <;> rfl
  have hnames : ∀ p o, (engine.ownership.removeAdapterPrevalidated family).2.pools.get p = some o →
      o.handler = handlerId p := by
    rw [hforward.pools]
    exact h.handlerNames
  have hkept : ∀ p, Owned (engine.detachAdapterPrevalidated protocol family) p ↔ Owned engine p := by
    intro p
    show (∃ o, (engine.ownership.removeAdapterPrevalidated family).2.pools.get p = some o) ↔ _
    rw [hforward.pools]
    rfl
  refine ⟨⟨⟨hindex, ?_, fun key => ?_, ?_, fun key => ?_, fun p => ?_, h.lifecycleQueued, fun a => ?_, ?_⟩, hnames,
    h.reservationKeys, fun p hp => ?_, h.poolLedger, fun a state hstate => ?_, fun p o ho => ?_⟩,
      ⟨fun _ => .rfl, fun a => ?_⟩,
    fun _ state hstate hne => ⟨state, hstate, hne, id⟩, fun p _ _ => ⟨?_, hlookup _⟩⟩
  · show engine.routing.unregisterAdapterPrevalidated protocol = engine.registry.unregisterAdapterPrevalidated protocol
    rw [h.routing]
  · show (∃ r, (engine.registry.unregisterAdapterPrevalidated protocol).pool key = some r) ↔ _
    rw [hlookup]
    exact (h.registered key).trans (exists_congr fun p => and_congr_left fun _ => (hkept p).symm)
  · exact handlers_coherent hindex hnames fun name p => h.handlers_iff.trans (and_congr_left fun _ => (hkept p).symm)
  · show (∃ q a, (engine.registry.unregisterAdapterPrevalidated protocol).adapter q = some a ∧ a.key = key) ↔
      ∃ b ∈ (engine.ownership.removeAdapterPrevalidated family).2.adapters, b.key = key
    rw [hforward.adapters]
    simp only [AdapterRegistry.adapter_unregisterAdapterPrevalidated hadapter, Finset.mem_erase]
    constructor
    · rintro ⟨q, a, ⟨ha, hq⟩, rfl⟩
      obtain ⟨b, hb, hsame⟩ := (h.adapters a.key).mp ⟨q, a, ha, rfl⟩
      refine ⟨b, ⟨fun heq => hq ?_, hb⟩, hsame⟩
      -- A family of the same key serves the same protocols.
      have hkeys : a.key = adapter.key := by rw [← hsame, heq, hkey]
      rw [← AmmAdapter.mem_key, ← hkeys, AmmAdapter.mem_key]
      exact AdapterRegistry.served_of_adapter ha
    · rintro ⟨b, ⟨hne, hb⟩, rfl⟩
      obtain ⟨q, a, ha, hsame⟩ := (h.adapters b.key).mpr ⟨b, hb, rfl⟩
      refine ⟨q, a, ⟨ha, fun hq => hne ?_⟩, hsame⟩
      have heq := Option.some.inj (ha.symm.trans (AdapterRegistry.adapter_of_served hadapter hq))
      exact h.adapter_unique hb hmem (by rw [← hsame, heq, hkey])
  · exact (h.lifecyclePools p).trans (hkept p).symm
  · show _ ↔ a ∈ (engine.ownership.removeAdapterPrevalidated family).2.adapters
    rw [hstates, hforward.adapters, Finset.mem_erase]
    by_cases ha : a = family
    · rw [if_pos ha]
      refine ⟨fun hstate => ?_, fun hother => absurd ha hother.1⟩
      obtain ⟨_, hremoved, hne⟩ := hstate
      exact absurd (Option.some.inj hremoved).symm hne
    · rw [if_neg ha, h.lifecycleAdapters]
      exact (and_iff_right ha).symm
  · show engine.degradedPoolCount = _
    rw [h.degraded, degradedPools]
    show _ = (engine.registry.unregisterAdapterPrevalidated protocol).pools.countP _
    rw [AdapterRegistry.pools_unregisterAdapterPrevalidated]
  · exact ⟨(hlookup _).trans (h.reserved p hp).1, (h.reserved p hp).2⟩
  · rw [hstates] at hstate
    split_ifs at hstate with ha
    · rw [ha]
      exact h.adapterLedger family held hheld
    · exact h.adapterLedger a state hstate
  · have ho : (engine.ownership.removeAdapterPrevalidated family).2.pools.get p = some o := ho
    rw [hforward.pools] at ho
    exact h.serves p o ho
  · rw [hstates]
    by_cases ha : a = family
    · rw [if_pos ha, ha, hheld]
      exact ⟨fun hgone => (by cases hgone), fun hgone => by cases hgone⟩
    · rw [if_neg ha]
  · show (engine.ownership.removeAdapterPrevalidated family).2.pools.get p = _
    rw [hforward.pools]

theorem discovery_removeAdapterPrevalidated (x : AmmOwnershipIndex) (family : AdapterInstanceId) :
    (x.removeAdapterPrevalidated family).2.discovery = x.discovery := by
  unfold AmmOwnershipIndex.removeAdapterPrevalidated
  split_ifs <;> rfl

/-! ### Removals -/

/-- A family leaves on its own only when no pool and no discovery owner depends on it. -/
theorem Inv.removeAdapter (h : Inv handlerId engine) (protocol : ProtocolId) :
    Sound handlerId engine (engine.removeAdapter protocol) ∧ Frame engine (engine.removeAdapter protocol).2 ∧
      (engine.removeAdapter protocol).2.ownership.discovery = engine.ownership.discovery := by
  unfold AmmSyncEngine.removeAdapter
  cases hadapter : engine.registry.adapter protocol with
  | none => exact ⟨.unchanged h rfl, .refl engine, rfl⟩
  | some adapter =>
    dsimp only
    cases hunused : engine.unusedAdapter protocol adapter with
    | error error => exact ⟨.unchanged h rfl, .refl engine, rfl⟩
    | ok family =>
      obtain ⟨active, hactive, hok⟩ := bind_eq_ok.mp hunused
      have hactive : engine.ownership.activeAdapters.get adapter.key = some active := orError_eq_ok.mp hactive
      split at hok
      · cases hok
      · next hnone =>
        obtain ⟨_, hdiscovery, hok⟩ := bind_eq_ok.mp hok
        obtain ⟨_, -, hok⟩ := bind_eq_ok.mp hok
        obtain rfl := pure_eq_ok.mp hok
        have hpools : ∀ p o, engine.ownership.pools.get p = some o → o.adapter ≠ active := by
          intro p o ho heq
          have hmem := h.mem_poolsForAdapter.mpr ⟨o, ho, heq⟩
          rw [hnone] at hmem
          exact List.not_mem_nil hmem
        have howners : ∀ d o, engine.ownership.discovery.get d = some o → o.adapter ≠ active := by
          rintro d o ho rfl
          obtain ⟨owners, hget, hmem⟩ := (h.ownership.adapterDiscovery.2 o.adapter d).mpr ⟨o, ho, rfl⟩
          rw [ensure_eq_ok, hget] at hdiscovery
          exact Finset.notMem_empty d ((show owners = ∅ from hdiscovery) ▸ hmem)
        obtain ⟨hinv, hdomain, hsettled, hframe⟩ := h.detachAdapter hadapter hactive hpools howners
        exact ⟨⟨hinv, fun _ herror => (by cases herror), hdomain.grows, hsettled⟩, hframe,
          discovery_removeAdapterPrevalidated _ _⟩

/-- A cascade removes a family with its pools, or nothing. -/
theorem Inv.removeAdapterCascade (h : Inv handlerId engine) (hnone : NoDiscovery engine) (protocol : ProtocolId) :
    Sound handlerId engine (engine.removeAdapterCascade protocol) ∧ Frame engine (engine.removeAdapterCascade protocol).2 ∧
      (engine.removeAdapterCascade protocol).2.ownership.discovery = engine.ownership.discovery := by
  unfold AmmSyncEngine.removeAdapterCascade
  cases hadapter : engine.registry.adapter protocol with
  | none => exact ⟨.unchanged h rfl, .refl engine, rfl⟩
  | some adapter =>
    dsimp only
    cases hcascade : engine.prepareCascade protocol adapter with
    | error error => exact ⟨.unchanged h rfl, .refl engine, rfl⟩
    | ok prepared =>
      obtain ⟨family, hfamily, hok⟩ := bind_eq_ok.mp hcascade
      have hfamily : engine.ownership.activeAdapters.get adapter.key = some family := orError_eq_ok.mp hfamily
      obtain ⟨_, -, hok⟩ := bind_eq_ok.mp hok
      obtain ⟨_, -, hok⟩ := bind_eq_ok.mp hok
      obtain rfl := pure_eq_ok.mp hok
      dsimp only
      rcases removePools_cases h ((engine.poolsForAdapter family).map (·.key)) with ⟨error,
        herror⟩ | ⟨pools, howned, hnodup, hok⟩
      · rw [herror]
        exact ⟨.unchanged h rfl, .refl engine, rfl⟩
      · rw [hok]
        have hleaving : ∀ pool ∈ pools, Owned engine pool := fun pool hp => ((howned pool).mp hp).1
        obtain ⟨hinv, -, hdomain, hsettled, hframe⟩ := h.dropPools hleaving hnodup
        have hreduced := @reduced_dropPools handlerId _ _ h hleaving hnodup
        set after := pools.foldl (SyncManager.dropPool handlerId) engine with hafter
        have hadapter' : after.registry.adapter protocol = some adapter := by
          rw [AdapterRegistry.adapter, (registry_dropPool pools engine).1]
          exact hadapter
        have hfamily' : after.ownership.activeAdapters.get adapter.key = some family := by
          refine (hinv.ownership.activeAdapters _ _).mpr ?_
          rw [hreduced.adapters]
          exact (h.ownership.activeAdapters _ _).mp hfamily
        have hpools : ∀ p o, after.ownership.pools.get p = some o → o.adapter ≠ family := by
          intro p o ho heq
          rw [hreduced.pools] at ho
          split_ifs at ho with hgone
          exact hgone ((howned p).mpr ⟨⟨o, ho⟩, List.mem_map_of_mem (h.mem_poolsForAdapter.mpr ⟨o, ho, heq⟩)⟩)
        have howners : ∀ d o, after.ownership.discovery.get d = some o → o.adapter ≠ family := by
          intro d o ho
          rw [hreduced.discovery, hnone d] at ho
          cases ho
        obtain ⟨hinv', hdomain', hsettled', hframe'⟩ := hinv.detachAdapter hadapter' hfamily' hpools howners
        exact ⟨⟨hinv', fun _ herror => (by cases herror), (hdomain.trans hdomain').grows, hsettled.trans hsettled'⟩,
          Frame.trans h hinv hinv' hsettled hsettled' hframe hframe',
          (discovery_removeAdapterPrevalidated _ _).trans hreduced.discovery⟩

end AmmState.SyncManager
