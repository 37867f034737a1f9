import AmmState.Lib.SortDedup
import AmmState.Ownership
import AmmState.Registration

/-! The pool and adapter registry (`registry.rs`). Its maps are lists with distinct keys: a registration stands under its
    own key, and an adapter under every protocol that it serves. -/

namespace AmmState
open SortDedup

/-- A protocol's place in the derived order of `ProtocolId`. -/
def ProtocolId.rank : ProtocolId → Nat ×ₗ List Nat
  | .uniswapV2 => toLex (0, [])
  | .uniswapV3 => toLex (1, [])
  | .pancakeV3 => toLex (2, [])
  | .slipstream => toLex (3, [])
  | .solidlyV2 => toLex (4, [])
  | .balancerV2 => toLex (5, [])
  | .balancerV3 => toLex (6, [])
  | .curve => toLex (7, [])
  | .erc4626 => toLex (8, [])
  | .uniswapV4 => toLex (9, [])
  | .custom name => toLex (10, name.toList.map Char.toNat)

/-- The canonical key of an adapter family: its protocols, sorted and without repetition. -/
def AdapterKey.new (primary : ProtocolId) (additional : List ProtocolId) : AdapterKey :=
  ⟨sortDedup ProtocolId.rank (primary :: additional)⟩

/-- An adapter, known by the allocation that its `Arc` points to: the protocols it serves, and what it derives from a
    registration. Its primary protocol is one of them. -/
structure AmmAdapter where
  allocation : Nat
  protocol : ProtocolId
  protocols : List ProtocolId
  primary : protocol ∈ protocols
  stateDependencies : PoolRegistration → PoolStateDependencies
  eventSources : PoolRegistration → List EventSource

def AmmAdapter.key (adapter : AmmAdapter) : AdapterKey := .new adapter.protocol adapter.protocols

structure AdapterRegistry where
  adapters : List (ProtocolId × AmmAdapter)
  pools : List PoolRegistration
  protocols_nodup : (adapters.map Prod.fst).Nodup
  keys_nodup : (pools.map (·.key)).Nodup
  /-- An adapter stands under the protocols that it serves and under no others. -/
  serves : ∀ entry ∈ adapters, entry.1 ∈ entry.2.protocols
  family : ∀ entry ∈ adapters, ∀ protocol ∈ entry.2.protocols, (protocol, entry.2) ∈ adapters

inductive RegistryError
  | duplicatePool (key : PoolKey)
  | duplicateAdapter (protocol : ProtocolId)
  | protocolMismatch (key : PoolKey)
  | adapterInUse (protocol : ProtocolId) (pool : PoolKey)

namespace AdapterRegistry

def empty : AdapterRegistry := ⟨[], [], .nil, .nil, nofun, nofun⟩

def pool (registry : AdapterRegistry) (key : PoolKey) : Option PoolRegistration := registry.pools.find? (·.key = key)

def adapter (registry : AdapterRegistry) (protocol : ProtocolId) : Option AmmAdapter :=
  (registry.adapters.find? (·.1 = protocol)).map Prod.snd

theorem key_of_pool {registry : AdapterRegistry} {key : PoolKey} {registration : PoolRegistration}
    (h : registry.pool key = some registration) : registration.key = key := by
  simpa using List.find?_some h

/-- The log sources of a pool: those of its registration, then those that its adapter derives. -/
def eventSourcesFor (registry : AdapterRegistry) (pool : PoolRegistration) : List EventSource :=
  match registry.adapter pool.protocol with
  | some adapter =>
    (adapter.eventSources pool).foldl (fun sources source => if source ∈ sources then sources else sources ++ [source])
      pool.eventSources
  | none => pool.eventSources

def registerPool (registry : AdapterRegistry) (registration : PoolRegistration) : Except RegistryError AdapterRegistry :=
  if h : registration.key ∈ registry.pools.map (·.key) then .error (.duplicatePool registration.key)
  else if registration.checkProtocolAgreement = false then .error (.protocolMismatch registration.key)
  else .ok { registry with
    pools := registry.pools ++ [registration]
    keys_nodup := by
      rw [List.map_append, List.map_singleton]
      exact List.nodup_append.mpr ⟨registry.keys_nodup, List.nodup_singleton _, by
        rintro key hkey _ hmem rfl
        exact h (List.mem_singleton.mp hmem ▸ hkey)⟩ }

def unregisterPool (registry : AdapterRegistry) (key : PoolKey) : AdapterRegistry :=
  { registry with
    pools := registry.pools.filter (·.key ≠ key)
    keys_nodup := registry.keys_nodup.sublist (List.filter_sublist.map _) }

/-- Write through the borrow of the registration of a key, which stays under that key. -/
def modifyPool (registry : AdapterRegistry) (key : PoolKey) (f : PoolRegistration → PoolRegistration)
    (hf : ∀ registration, registration.key = key → (f registration).key = key) : AdapterRegistry :=
  { registry with
    pools := registry.pools.map fun registration => if registration.key = key then f registration else registration
    keys_nodup := by
      rw [List.map_map]
      convert registry.keys_nodup using 2
      refine funext fun registration => ?_
      by_cases hkey : registration.key = key
      · simp [hkey, hf registration hkey]
      · simp [hkey] }

/-- Replace the registration of a key, where there is one. -/
def updatePool (registry : AdapterRegistry) (registration : PoolRegistration) : AdapterRegistry :=
  registry.modifyPool registration.key (fun _ => registration) fun _ _ => rfl

def updatePoolStatus (registry : AdapterRegistry) (key : PoolKey) (status : PoolStatus) : AdapterRegistry :=
  registry.modifyPool key (fun registration => { registration with status }) fun _ hkey => hkey

/-- One of the protocols that an adapter claims is taken. -/
def taken (registry : AdapterRegistry) (adapter : AmmAdapter) : Option ProtocolId :=
  adapter.protocols.find? fun protocol => decide (protocol ∈ registry.adapters.map Prod.fst)

theorem notMem_of_taken {registry : AdapterRegistry} {adapter : AmmAdapter} (h : registry.taken adapter = none)
    {protocol : ProtocolId} (hp : protocol ∈ adapter.protocols) : protocol ∉ registry.adapters.map Prod.fst := by
  simpa using List.find?_eq_none.mp h protocol hp

def registerAdapter (registry : AdapterRegistry) (adapter : AmmAdapter) : Except RegistryError AdapterRegistry :=
  match h : registry.taken adapter with
  | some protocol => .error (.duplicateAdapter protocol)
  | none => .ok { registry with
    adapters := registry.adapters ++ adapter.protocols.dedup.map (·, adapter)
    protocols_nodup := by
      have hnew : (adapter.protocols.dedup.map (·, adapter)).map Prod.fst = adapter.protocols.dedup := by
        rw [List.map_map]
        exact List.map_id _
      rw [List.map_append, hnew]
      refine List.nodup_append.mpr ⟨registry.protocols_nodup, adapter.protocols.nodup_dedup, ?_⟩
      rintro protocol hold _ hmem rfl
      exact notMem_of_taken h (List.mem_dedup.mp hmem) hold
    serves := by
      intro entry hentry
      rcases List.mem_append.mp hentry with hold | hnew
      · exact registry.serves entry hold
      · obtain ⟨protocol, hp, rfl⟩ := List.mem_map.mp hnew
        exact List.mem_dedup.mp hp
    family := by
      intro entry hentry protocol hp
      rcases List.mem_append.mp hentry with hold | hnew
      · exact List.mem_append_left _ (registry.family entry hold protocol hp)
      · obtain ⟨_, -, rfl⟩ := List.mem_map.mp hnew
        exact List.mem_append_right _ (List.mem_map_of_mem (List.mem_dedup.mpr hp)) }

theorem mem_of_adapter {registry : AdapterRegistry} {protocol : ProtocolId} {adapter : AmmAdapter}
    (h : registry.adapter protocol = some adapter) : (protocol, adapter) ∈ registry.adapters := by
  obtain ⟨entry, hfind, rfl⟩ := Option.map_eq_some_iff.mp h
  obtain rfl : entry.1 = protocol := by simpa using List.find?_some hfind
  exact List.mem_of_find?_eq_some hfind

theorem adapter_of_mem {registry : AdapterRegistry} {protocol : ProtocolId} {adapter : AmmAdapter}
    (h : (protocol, adapter) ∈ registry.adapters) : registry.adapter protocol = some adapter := by
  have hfind : (registry.adapters.find? (·.1 = protocol)).isSome := by
    rw [List.find?_isSome]
    exact ⟨_, h, by simp⟩
  obtain ⟨entry, hentry⟩ := Option.isSome_iff_exists.mp hfind
  have hkey : entry.1 = protocol := by simpa using List.find?_some hentry
  have heq := List.inj_on_of_nodup_map registry.protocols_nodup (List.mem_of_find?_eq_some hentry) h hkey
  exact Option.map_eq_some_iff.mpr ⟨entry, hentry, congrArg Prod.snd heq⟩

/-- Detach the family of a protocol from every id that it serves. -/
def unregisterAdapterPrevalidated (registry : AdapterRegistry) (protocol : ProtocolId) : AdapterRegistry :=
  match h : registry.adapter protocol with
  | none => registry
  | some adapter => { registry with
    adapters := registry.adapters.filter (·.1 ∉ adapter.protocols)
    protocols_nodup := registry.protocols_nodup.sublist (List.filter_sublist.map _)
    serves := fun entry hentry => registry.serves entry (List.mem_of_mem_filter hentry)
    family := by
      intro entry hentry served hserved
      obtain ⟨hold, hkept⟩ := List.mem_filter.mp hentry
      refine List.mem_filter.mpr ⟨registry.family entry hold served hserved, ?_⟩
      refine decide_eq_true fun hremoved => ?_
      -- An id that both families serve stands for one adapter.
      have hone := adapter_of_mem (registry.family entry hold served hserved)
      have hother := adapter_of_mem (registry.family _ (mem_of_adapter h) served hremoved)
      have hsame : entry.2 = adapter := Option.some.inj (hone.symm.trans hother)
      exact of_decide_eq_true hkept (hsame ▸ registry.serves entry hold) }

end AdapterRegistry
end AmmState
