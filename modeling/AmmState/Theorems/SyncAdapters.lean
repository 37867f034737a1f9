import AmmState.Theorems.SyncEngine

/-! Adapters of a coherent engine: the empty engine is coherent, and adding a family keeps the engine so. -/

namespace AmmState.SyncManager
open Checked

/-- An engine without adapters and pools. -/
def AmmSyncEngine.empty : AmmSyncEngine where
  registry := .empty
  ownership := .empty
  handlers := .empty
  routing := .empty
  generations := .empty
  reservations := []
  lifecycles := ⟨.empty, .empty⟩
  degradedPoolCount := 0

variable {handlerId : PoolInstanceId → HandlerId}

theorem inv_empty : Inv handlerId .empty where
  ownership := AmmOwnershipIndex.inv_empty
  routing := rfl
  registered _ := ⟨fun ⟨_, h⟩ => (nomatch h), fun ⟨_, ⟨_, h⟩, _⟩ => (nomatch h)⟩
  handlers _ _ := ⟨fun ⟨_, h, _⟩ => (nomatch h), nofun⟩
  adapters _ := ⟨fun ⟨_, _, h, _⟩ => (nomatch h), fun ⟨_, h, _⟩ => absurd h (Finset.notMem_empty _)⟩
  lifecyclePools _ := ⟨fun ⟨_, h, _⟩ => (nomatch h), fun ⟨_, h⟩ => (nomatch h)⟩
  lifecycleQueued _ := ⟨nofun, fun h => absurd h List.not_mem_nil⟩
  lifecycleAdapters _ := ⟨fun ⟨_, h, _⟩ => (nomatch h), fun h => absurd h (Finset.notMem_empty _)⟩
  degraded := rfl
  handlerNames := nofun
  reservationKeys := .nil
  reserved _ h := absurd h List.not_mem_nil
  poolLedger := nofun
  adapterLedger := nofun
  serves := nofun

variable {engine : AmmSyncEngine}

/-- The key of a registered family is taken together with its protocols. -/
theorem Inv.adapterKey_free (h : Inv handlerId engine) {adapter : AmmAdapter}
    (hfree : ∀ protocol ∈ adapter.protocols, engine.registry.adapter protocol = none) :
    engine.ownership.activeAdapters.get adapter.key = none := by
  refine Option.eq_none_iff_forall_ne_some.mpr fun owned howned => ?_
  obtain ⟨hmem, hkey⟩ := (h.ownership.activeAdapters _ _).mp howned
  obtain ⟨protocol, other, hother, hsame⟩ := (h.adapters adapter.key).mpr ⟨owned, hmem, hkey⟩
  have hserved : adapter.protocol ∈ other.protocols := by
    rw [← AmmAdapter.mem_key, hsame, AmmAdapter.mem_key]
    exact adapter.primary
  cases (hfree _ adapter.primary).symm.trans (AdapterRegistry.adapter_of_served hother hserved)

/-- A family is added to every structure, or the engine stays as it was. -/
theorem addAdapter_cases (h : Inv handlerId engine) (adapter : AmmAdapter) :
    (∃ error, engine.addAdapter adapter = (.error error, engine)) ∨
    ∃ generation registry, engine.generations.nextAdapter adapter.key = .ok generation ∧
      (∀ protocol ∈ adapter.protocols, engine.registry.adapter protocol = none) ∧
      registry.pools = engine.registry.pools ∧
      (∀ protocol a, registry.adapter protocol = some a ↔
        engine.registry.adapter protocol = some a ∨ protocol ∈ adapter.protocols ∧ a = adapter) ∧
      engine.addAdapter adapter = (.ok (), { engine with
        registry
        routing := registry
        ownership := (engine.ownership.insertAdapter ⟨adapter.key, generation⟩).2
        generations := { engine.generations with adapters := engine.generations.adapters.insert adapter.key generation }
        lifecycles := engine.lifecycles.setAdapter ⟨adapter.key, generation⟩ .active }) := by
  unfold AmmSyncEngine.addAdapter
  cases hgeneration : engine.generations.nextAdapter adapter.key with
  | error error => exact .inl ⟨error, rfl⟩
  | ok generation =>
    rcases engine.registry.registerAdapter_cases adapter with ⟨error, herror⟩ | ⟨hfree, registry, hok, hpools, hadapters⟩
    · exact .inl ⟨.registry error, by simp only [herror]⟩
    · refine .inr ⟨generation, registry, rfl, hfree, hpools, hadapters, ?_⟩
      have hkey := h.adapterKey_free hfree
      rcases engine.ownership.insertAdapter_inv ⟨adapter.key, generation⟩ with ⟨error, herror⟩ | ⟨-, hinsert⟩
      · have htaken : engine.ownership.activeAdapters.contains adapter.key = false := Map.contains_eq_false.mpr hkey
        rw [AmmOwnershipIndex.insertAdapter] at herror
        simp only [htaken, Bool.false_eq_true, if_false] at herror
        cases congrArg Prod.fst herror
      · simp only [hok, h.routing, hinsert]

theorem Inv.addAdapter (h : Inv handlerId engine) (adapter : AmmAdapter) :
    Sound handlerId engine (engine.addAdapter adapter) ∧ Frame engine (engine.addAdapter adapter).2 := by
  rcases addAdapter_cases h adapter with ⟨error, herror⟩ | ⟨generation, registry, hgeneration, hfree,
    hpools, hadapters, hok⟩
  · rw [herror]
    exact ⟨.unchanged h rfl, .refl engine⟩
  · rw [hok]
    have hkey := h.adapterKey_free hfree
    have hinsert : engine.ownership.insertAdapter ⟨adapter.key, generation⟩ = (.ok (), { engine.ownership with
        activeAdapters := engine.ownership.activeAdapters.insert adapter.key ⟨adapter.key, generation⟩
        adapters := insert ⟨adapter.key, generation⟩ engine.ownership.adapters }) := by
      rw [AmmOwnershipIndex.insertAdapter]
      exact if_neg (by rw [Map.contains_eq_false.mpr hkey]; exact Bool.false_ne_true)
    have hindex := h.ownership.insertAdapter ⟨adapter.key, generation⟩
    have hlookup : ∀ key, registry.pool key = engine.registry.pool key := fun key => by
      rw [AdapterRegistry.pool, hpools, AdapterRegistry.pool]
    have hnew : engine.lifecycles.adapters.get ⟨adapter.key, generation⟩ = none := by
      refine Option.eq_none_iff_forall_ne_some.mpr fun state hstate => ?_
      exact absurd (h.fresh_adapter hgeneration hstate rfl) (lt_irrefl _)
    have hstates : ∀ a, (engine.lifecycles.setAdapter ⟨adapter.key, generation⟩ .active).adapters.get a =
        if a = ⟨adapter.key, generation⟩ then some .active else engine.lifecycles.adapters.get a :=
          fun a => Map.get_insert ..
    have hgrows : ∀ a state, a.key = adapter.key → engine.lifecycles.adapters.get a = some state →
        a.generation < generation :=
      fun a state hakey hstate => h.fresh_adapter hgeneration hstate hakey
    rw [hinsert] at hindex ⊢
    refine ⟨⟨⟨⟨hindex, rfl, ?_, h.handlers, ?_, h.lifecyclePools, h.lifecycleQueued, ?_, ?_⟩,
      h.handlerNames, h.reservationKeys, ?_, h.poolLedger, ?_, h.serves⟩, fun _ heq => (by cases heq),
      ⟨fun _ state hs => ⟨state, hs⟩, ?_, ?_, ?_⟩, fun _ state hs hne => ⟨state, hs, hne, id⟩⟩,
      fun pool _ _ => ⟨rfl, hlookup _⟩⟩
    · intro key
      rw [hlookup]
      exact h.registered key
    · intro key
      simp only [hadapters, Finset.mem_insert]
      constructor
      · rintro ⟨protocol, a, ha | ⟨-, rfl⟩, rfl⟩
        · obtain ⟨owned, hmem, hsame⟩ := (h.adapters _).mp ⟨protocol, a, ha, rfl⟩
          exact ⟨owned, .inr hmem, hsame⟩
        · exact ⟨_, .inl rfl, rfl⟩
      · rintro ⟨owned, rfl | hmem, rfl⟩
        · exact ⟨adapter.protocol, adapter, .inr ⟨adapter.primary, rfl⟩, rfl⟩
        · obtain ⟨protocol, a, ha, hsame⟩ := (h.adapters _).mpr ⟨owned, hmem, rfl⟩
          exact ⟨protocol, a, .inl ha, hsame⟩
    · intro a
      rw [hstates, Finset.mem_insert]
      by_cases ha : a = ⟨adapter.key, generation⟩
      · rw [if_pos ha]
        exact ⟨fun _ => .inl ha, fun _ => ⟨_, rfl, fun heq => by cases heq⟩⟩
      · rw [if_neg ha, h.lifecycleAdapters]
        exact ⟨.inr, fun h => h.resolve_left ha⟩
    · show engine.degradedPoolCount = degradedPools registry
      rw [h.degraded, degradedPools, degradedPools, hpools]
    · intro reserved hreserved
      rw [hlookup]
      exact h.reserved reserved hreserved
    · intro a state hstate
      rw [hstates] at hstate
      rw [Map.get_insert]
      by_cases hakey : a.key = adapter.key
      · rw [if_pos hakey]
        refine ⟨generation, rfl, ?_⟩
        split_ifs at hstate with ha
        · rw [ha]
        · exact (hgrows a state hakey hstate).le
      · rw [if_neg hakey]
        rw [if_neg fun ha => hakey (by rw [ha])] at hstate
        exact h.adapterLedger a state hstate
    · intro pool state hnone hsome
      cases hnone.symm.trans hsome
    · intro a state hstate
      by_cases ha : a = ⟨adapter.key, generation⟩
      · exact ⟨_, (hstates a).trans (if_pos ha)⟩
      · exact ⟨state, (hstates a).trans ((if_neg ha).trans hstate)⟩
    · intro a state hnone hsome other state' hother hkey' hne
      rw [hstates] at hsome hother
      split_ifs at hsome with ha
      · subst ha
        rw [if_neg hne] at hother
        exact hgrows other state' hkey' hother
      · cases hnone.symm.trans hsome

end AmmState.SyncManager
