import AmmState.Registry

/-! Lookups in the registry after each of its operations, and the number of degraded registrations. -/

namespace AmmState
open SortDedup

/-! ### Adapter keys -/

theorem AmmAdapter.mem_key {adapter : AmmAdapter} {protocol : ProtocolId} :
    protocol ∈ adapter.key.protocols ↔ protocol ∈ adapter.protocols := by
  have hmem : protocol ∈ adapter.key.protocols ↔ protocol = adapter.protocol ∨ protocol ∈ adapter.protocols := by
    rw [← List.mem_cons]
    exact mem_sortDedup_iff _
  rw [hmem]
  exact ⟨fun h => h.elim (fun h => h ▸ adapter.primary) id, .inr⟩

namespace AdapterRegistry
variable {registry registry' : AdapterRegistry} {key : PoolKey} {registration : PoolRegistration}

/-! ### Pools -/

theorem mem_of_pool (h : registry.pool key = some registration) : registration ∈ registry.pools :=
  List.mem_of_find?_eq_some h

theorem pool_of_mem (h : registration ∈ registry.pools) : registry.pool registration.key = some registration := by
  have hsome : (registry.pools.find? (·.key = registration.key)).isSome := by
    rw [List.find?_isSome]
    exact ⟨registration, h, by simp⟩
  obtain ⟨found, hfound⟩ := Option.isSome_iff_exists.mp hsome
  have hkey : found.key = registration.key := by simpa using List.find?_some hfound
  obtain rfl := List.inj_on_of_nodup_map registry.keys_nodup (List.mem_of_find?_eq_some hfound) h hkey
  exact hfound

theorem pool_eq_some : registry.pool key = some registration ↔ registration ∈ registry.pools ∧ registration.key = key :=
  ⟨fun h => ⟨mem_of_pool h, key_of_pool h⟩, fun ⟨h, hkey⟩ => hkey ▸ pool_of_mem h⟩

theorem pool_eq_none : registry.pool key = none ↔ key ∉ registry.pools.map (·.key) := by
  rw [Option.eq_none_iff_forall_ne_some, List.mem_map]
  exact ⟨fun h ⟨r, hr, hkey⟩ => h r (pool_eq_some.mpr ⟨hr, hkey⟩), fun h r hr => h ⟨r, pool_eq_some.mp hr⟩⟩

theorem registerPool_of (hnew : registry.pool registration.key = none)
    (hagree : registration.checkProtocolAgreement = true) :
    ∃ registry', registry.registerPool registration = .ok registry' ∧
      registry'.pools = registry.pools ++ [registration] ∧ registry'.adapters = registry.adapters := by
  rw [registerPool, dif_neg (pool_eq_none.mp hnew), if_neg (by simp [hagree])]
  exact ⟨_, rfl, rfl, rfl⟩

theorem pool_of_append (hpools : registry'.pools = registry.pools ++ [registration]) (key : PoolKey) :
    registry'.pool key = if key = registration.key then some registration else registry.pool key := by
  by_cases hkey : key = registration.key
  · rw [if_pos hkey, pool_eq_some, hpools]
    exact ⟨List.mem_append_right _ (List.mem_singleton_self _), hkey.symm⟩
  · rw [if_neg hkey, pool, hpools, List.find?_append]
    simp [Ne.symm hkey, pool]

theorem pool_unregisterPool (registry : AdapterRegistry) (key key' : PoolKey) :
    (registry.unregisterPool key).pool key' = if key' = key then none else registry.pool key' := by
  by_cases hkey : key' = key
  · rw [if_pos hkey, pool_eq_none]
    simp [unregisterPool, hkey]
  · rw [if_neg hkey]
    ext r
    simp only [pool_eq_some, unregisterPool, List.mem_filter, decide_eq_true_eq]
    exact ⟨fun ⟨⟨hr, _⟩, hk⟩ => ⟨hr, hk⟩, fun ⟨hr, hk⟩ => ⟨⟨hr, fun h => hkey (hk.symm.trans h)⟩, hk⟩⟩

theorem pool_modifyPool (registry : AdapterRegistry) (key : PoolKey) (f : PoolRegistration → PoolRegistration)
    (hf : ∀ r, r.key = key → (f r).key = key) (key' : PoolKey) :
    (registry.modifyPool key f hf).pool key' = if key' = key then (registry.pool key).map f else registry.pool key' := by
  by_cases hkey : key' = key
  · subst hkey
    rw [if_pos rfl]
    cases hpool : registry.pool key' with
    | none =>
      rw [pool_eq_none] at hpool
      refine pool_eq_none.mpr fun hmem => hpool ?_
      obtain ⟨r, hr, hk⟩ := List.mem_map.mp hmem
      obtain ⟨origin, horigin, rfl⟩ := List.mem_map.mp hr
      by_cases ho : origin.key = key'
      · exact ho ▸ List.mem_map_of_mem horigin
      · rw [if_neg ho] at hk
        exact absurd hk ho
    | some r =>
      have hr := key_of_pool hpool
      refine pool_eq_some.mpr ⟨List.mem_map.mpr ⟨r, mem_of_pool hpool, if_pos hr⟩, hf r hr⟩
  · rw [if_neg hkey]
    ext r
    simp only [pool_eq_some, modifyPool, List.mem_map]
    constructor
    · rintro ⟨⟨origin, horigin, rfl⟩, hk⟩
      by_cases ho : origin.key = key
      · rw [if_pos ho, hf origin ho] at hk
        exact absurd hk.symm hkey
      · rw [if_neg ho] at hk ⊢
        exact ⟨horigin, hk⟩
    · rintro ⟨hr, rfl⟩
      exact ⟨⟨r, hr, if_neg hkey⟩, rfl⟩

theorem pool_updatePoolStatus (registry : AdapterRegistry) (key key' : PoolKey) (status : PoolStatus) :
    (registry.updatePoolStatus key status).pool key' =
      if key' = key then (registry.pool key).map fun r => { r with status } else registry.pool key' :=
  pool_modifyPool ..

theorem pool_updatePool (registry : AdapterRegistry) (registration : PoolRegistration) (key : PoolKey) :
    (registry.updatePool registration).pool key =
      if key = registration.key then (registry.pool registration.key).map fun _ => registration else registry.pool key :=
  pool_modifyPool ..

/-! ### Counting -/

/-- The registrations of a kind after the one of a key is removed. -/
theorem countP_filter_key {pools : List PoolRegistration} (hkeys : (pools.map (·.key)).Nodup) (key : PoolKey)
    (p : PoolRegistration → Bool) :
    (pools.filter (·.key ≠ key)).countP p + (if (pools.find? (·.key = key)).any p then 1 else 0) = pools.countP p := by
  induction pools with
  | nil => rfl
  | cons head rest ih =>
    obtain ⟨hhead, hrest⟩ := List.nodup_cons.mp hkeys
    by_cases hk : head.key = key
    · have hnone : rest.filter (·.key ≠ key) = rest := List.filter_eq_self.mpr fun r hr =>
        decide_eq_true fun h => hhead (List.mem_map.mpr ⟨r, hr, h.trans hk.symm⟩)
      rw [List.filter_cons_of_neg (by simpa using hk), hnone, List.find?_cons_of_pos (by simpa using hk), List.countP_cons]
      rfl
    · rw [List.filter_cons_of_pos (by simpa using hk), List.find?_cons_of_neg (by simpa using hk), List.countP_cons,
        List.countP_cons, ← ih hrest]
      omega

/-- The registrations of a kind after the one of a key changes. -/
theorem countP_map_key {pools : List PoolRegistration} (hkeys : (pools.map (·.key)).Nodup) {key : PoolKey}
    {r : PoolRegistration} (hr : pools.find? (·.key = key) = some r) (f : PoolRegistration → PoolRegistration)
    (p : PoolRegistration → Bool) :
    (pools.map fun r => if r.key = key then f r else r).countP p + (if p r then 1 else 0) =
      pools.countP p + (if p (f r) then 1 else 0) := by
  induction pools with
  | nil => cases hr
  | cons head rest ih =>
    obtain ⟨hhead, hrest⟩ := List.nodup_cons.mp hkeys
    by_cases hk : head.key = key
    · rw [List.find?_cons_of_pos (by simpa using hk)] at hr
      obtain rfl := Option.some.inj hr
      have hsame : rest.map (fun r => if r.key = key then f r else r) = rest := by
        refine (List.map_congr_left fun r hr => if_neg fun h => ?_).trans (List.map_id rest)
        exact hhead (List.mem_map.mpr ⟨r, hr, h.trans hk.symm⟩)
      rw [List.map_cons, if_pos hk, hsame, List.countP_cons, List.countP_cons]
      omega
    · rw [List.find?_cons_of_neg (by simpa using hk)] at hr
      have hcount := ih hrest hr
      rw [List.map_cons, if_neg hk, List.countP_cons, List.countP_cons]
      omega

theorem countP_unregisterPool (registry : AdapterRegistry) (key : PoolKey) (p : PoolRegistration → Bool) :
    (registry.unregisterPool key).pools.countP p + (if (registry.pool key).any p then 1 else 0) =
      registry.pools.countP p := countP_filter_key registry.keys_nodup key p

theorem countP_modifyPool {registry : AdapterRegistry} {key : PoolKey} {r : PoolRegistration}
    (hpool : registry.pool key = some r) (f : PoolRegistration → PoolRegistration)
    (hf : ∀ r, r.key = key → (f r).key = key) (p : PoolRegistration → Bool) :
    (registry.modifyPool key f hf).pools.countP p + (if p r then 1 else 0) =
      registry.pools.countP p + (if p (f r) then 1 else 0) := countP_map_key registry.keys_nodup hpool f p

/-! ### Adapters -/

theorem adapter_eq_some {protocol : ProtocolId} {adapter : AmmAdapter} :
    registry.adapter protocol = some adapter ↔ (protocol, adapter) ∈ registry.adapters :=
  ⟨mem_of_adapter, adapter_of_mem⟩

theorem adapter_of_served {protocol served : ProtocolId} {adapter : AmmAdapter}
    (h : registry.adapter protocol = some adapter) (hserved : served ∈ adapter.protocols) :
    registry.adapter served = some adapter :=
  adapter_of_mem (registry.family _ (mem_of_adapter h) served hserved)

theorem served_of_adapter {protocol : ProtocolId} {adapter : AmmAdapter} (h : registry.adapter protocol = some adapter) :
    protocol ∈ adapter.protocols := registry.serves _ (mem_of_adapter h)

/-- Registering an adapter adds its family to a registry where none of its protocols is taken, or fails. -/
theorem registerAdapter_cases (registry : AdapterRegistry) (adapter : AmmAdapter) :
    (∃ error, registry.registerAdapter adapter = .error error) ∨
    ((∀ protocol ∈ adapter.protocols, registry.adapter protocol = none) ∧
      ∃ registry', registry.registerAdapter adapter = .ok registry' ∧ registry'.pools = registry.pools ∧
        ∀ protocol a, registry'.adapter protocol = some a ↔
          registry.adapter protocol = some a ∨ protocol ∈ adapter.protocols ∧ a = adapter) := by
  unfold registerAdapter
  split
  · exact .inl ⟨_, rfl⟩
  · rename_i htaken
    refine .inr ⟨fun protocol hp => ?_, _, rfl, rfl, fun protocol a => ?_⟩
    · exact Option.eq_none_iff_forall_ne_some.mpr fun a ha =>
        notMem_of_taken htaken hp (List.mem_map_of_mem (mem_of_adapter ha))
    · rw [adapter_eq_some, adapter_eq_some, List.mem_append, List.mem_map]
      refine or_congr_right ⟨?_, ?_⟩
      · rintro ⟨q, hq, heq⟩
        obtain ⟨rfl, rfl⟩ := Prod.mk.inj heq
        exact ⟨List.mem_dedup.mp hq, rfl⟩
      · rintro ⟨hq, rfl⟩
        exact ⟨protocol, List.mem_dedup.mpr hq, rfl⟩

theorem adapter_unregisterAdapterPrevalidated {protocol : ProtocolId} {adapter : AmmAdapter}
    (h : registry.adapter protocol = some adapter) (q : ProtocolId) (a : AmmAdapter) :
    (registry.unregisterAdapterPrevalidated protocol).adapter q = some a ↔
      registry.adapter q = some a ∧ q ∉ adapter.protocols := by
  unfold unregisterAdapterPrevalidated
  split
  · rename_i hnone
    rw [hnone] at h
    cases h
  · rename_i found hfound
    obtain rfl := Option.some.inj (hfound.symm.trans h)
    rw [adapter_eq_some, adapter_eq_some, List.mem_filter, decide_eq_true_eq]

theorem pools_unregisterAdapterPrevalidated (registry : AdapterRegistry) (protocol : ProtocolId) :
    (registry.unregisterAdapterPrevalidated protocol).pools = registry.pools := by
  unfold unregisterAdapterPrevalidated
  split <;> rfl

end AdapterRegistry
end AmmState
