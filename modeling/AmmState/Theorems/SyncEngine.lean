import Mathlib.Data.List.ReduceOption
import AmmState.SyncEngine
import AmmState.Theorems.Ownership
import AmmState.Theorems.Registry

/-! Coherence of the engine: its registries, its ownership index, its handlers and its lifecycle map name the same pools
    and adapters, and the counter of degraded pools counts them. Each operation keeps this, and leaves the engine as it was
    where it fails. -/

namespace AmmState.SyncManager
open Checked SortDedup

/-! ### What the ownership operations do to the forward maps -/

namespace Ownership
variable {x y : AmmOwnershipIndex}

/-- The forward maps that the engine relies on. -/
structure Forward (x : AmmOwnershipIndex) (pools : Map PoolInstanceId PoolOwnership) (adapters : Finset AdapterInstanceId) :
    Prop where
  pools : x.pools = pools
  adapters : x.adapters = adapters

theorem adopt_eq_ok {α : Type} {outcome : AmmOwnershipIndex.Outcome α} :
    adopt outcome = .ok y ↔ ∃ a, outcome = (.ok a, y) := by
  obtain ⟨error | a, z⟩ := outcome
  · exact ⟨nofun, nofun⟩
  · exact ⟨fun h => ⟨a, by rw [Except.ok.inj h]⟩, fun ⟨b, h⟩ => by rw [(Prod.mk.inj h).2]; rfl⟩

theorem forward_insertPool {o : PoolOwnership} {u : Unit} (h : x.insertPool o = (.ok u, y)) :
    x.pools.get o.instance = none ∧ Forward y (x.pools.insert o.instance o) x.adapters := by
  rcases x.insertPool_inv o with ⟨error, he⟩ | ⟨-, -, hnew, -, hok⟩
  · cases he.symm.trans h
  · obtain ⟨-, rfl⟩ := Prod.mk.inj (hok.symm.trans h)
    exact ⟨hnew, rfl, rfl⟩

theorem forward_replacePool {o : PoolOwnership} {previous : PoolOwnership} (h : x.replacePool o = (.ok previous, y)) :
    Forward y (x.pools.insert o.instance o) x.adapters := by
  rcases x.replacePool_inv o with ⟨error, he⟩ | ⟨previous, -, -, -, hok⟩
  · cases he.symm.trans h
  · obtain ⟨-, rfl⟩ := Prod.mk.inj (hok.symm.trans h)
    exact ⟨rfl, rfl⟩

theorem forward_removePool (pool : PoolInstanceId) :
    Forward (x.removePool pool).2 (x.pools.remove pool) x.adapters := by
  unfold AmmOwnershipIndex.removePool
  cases hp : x.pools.get pool with
  | none =>
    refine ⟨?_, rfl⟩
    ext1 k
    by_cases hk : k = pool
    · rw [hk, hp, Map.get_remove_self]
    · exact (Map.get_remove_of_ne hk).symm
  | some o => exact ⟨rfl, rfl⟩

/-- A pool that fits a well-formed index can be inserted. -/
theorem insertPool_of (hx : x.Inv) {o : PoolOwnership} (hadapter : o.adapter ∈ x.adapters)
    (hprotocol : o.instance.key.protocol ∈ o.adapter.key.protocols)
    (hkey : ∀ i o', x.pools.get i = some o' → i.key ≠ o.instance.key)
    (hhandler : ∀ i o', x.pools.get i = some o' → o'.handler ≠ o.handler) :
    ∃ y, x.insertPool o = (.ok (), y) := by
  have hactive : x.activePools.contains o.instance.key = false := by
    rw [Map.contains_eq_false, Option.eq_none_iff_forall_ne_some]
    intro p hp
    obtain ⟨⟨o', ho'⟩, hk⟩ := (hx.activePools _ _).mp hp
    exact hkey p o' ho' hk
  have hpool : x.pools.contains o.instance = false := by
    rw [Map.contains_eq_false, Option.eq_none_iff_forall_ne_some]
    exact fun o' ho' => hkey _ o' ho' rfl
  have hfree : x.handlerPools.contains o.handler = false := by
    rw [Map.contains_eq_false, Option.eq_none_iff_forall_ne_some]
    intro p hp
    obtain ⟨o', ho', hh⟩ := (hx.handlerPools _ _).mp hp
    exact hhandler p o' ho' hh
  rw [AmmOwnershipIndex.insertPool]
  simp only [hadapter, hprotocol, hactive, hpool, hfree, not_true_eq_false, Bool.false_eq_true, if_false]
  exact ⟨_, rfl⟩

theorem replacePool_of (hx : x.Inv) {o previous : PoolOwnership} (hp : x.pools.get o.instance = some previous)
    (hhandler : previous.handler = o.handler) (hadapter : previous.adapter = o.adapter) :
    ∃ y, x.replacePool o = (.ok previous, y) := by
  have hactive : x.activePools.get o.instance.key = some o.instance := (hx.activePools _ _).mpr ⟨⟨previous, hp⟩, rfl⟩
  have hindexed : x.handlerPools.get previous.handler = some o.instance := (hx.handlerPools _ _).mpr ⟨previous, hp, rfl⟩
  have hidentity : ¬ (previous.handler ≠ o.handler ∨ previous.adapter ≠ o.adapter ∨
      x.handlerPools.get previous.handler ≠ some o.instance) := by
    simp only [not_or, not_not]
    exact ⟨hhandler, hadapter, hindexed⟩
  rw [AmmOwnershipIndex.replacePool]
  simp only [hactive, ne_eq, not_true_eq_false, if_false, hp]
  rw [if_neg hidentity]
  exact ⟨_, rfl⟩

end Ownership

/-! ### Coherence -/

/-- The pool generation is registered in the ownership index. -/
def Owned (engine : AmmSyncEngine) (pool : PoolInstanceId) : Prop := ∃ o, engine.ownership.pools.get pool = some o

/-- The five structures name the same pools and adapters, apart from the tombstones and the reservations of the lifecycle
    map, and the counter counts the degraded registrations. -/
structure Coherent (engine : AmmSyncEngine) : Prop where
  ownership : engine.ownership.Inv
  routing : engine.routing = engine.registry
  registered : ∀ key, (∃ r, engine.registry.pool key = some r) ↔ ∃ pool, Owned engine pool ∧ pool.key = key
  handlers : ∀ handler pool, (∃ h, engine.handlers.get handler = some h ∧ h.instance = pool) ↔
    engine.ownership.handlerPools.get handler = some pool
  adapters : ∀ key, (∃ protocol a, engine.registry.adapter protocol = some a ∧ a.key = key) ↔
    ∃ adapter ∈ engine.ownership.adapters, adapter.key = key
  lifecyclePools : ∀ pool, (∃ state, engine.lifecycles.pools.get pool = some state ∧ state ≠ .removed ∧ state ≠ .queued) ↔
    Owned engine pool
  lifecycleQueued : ∀ pool, engine.lifecycles.pools.get pool = some .queued ↔ pool ∈ engine.reservations
  lifecycleAdapters : ∀ adapter, (∃ state, engine.lifecycles.adapters.get adapter = some state ∧ state ≠ .removed) ↔
    adapter ∈ engine.ownership.adapters
  degraded : engine.degradedPoolCount = degradedPools engine.registry

variable {handlerId : PoolInstanceId → HandlerId}

/-- Coherence with what carries it through a run: every generation ever accepted is below the ledger, a reserved key is not
    registered, and the adapter of a pool serves its protocol. -/
structure Inv (handlerId : PoolInstanceId → HandlerId) (engine : AmmSyncEngine) : Prop extends Coherent engine where
  handlerNames : ∀ pool o, engine.ownership.pools.get pool = some o → o.handler = handlerId pool
  reservationKeys : (engine.reservations.map (·.key)).Nodup
  reserved : ∀ pool ∈ engine.reservations, engine.registry.pool pool.key = none ∧
    engine.generations.pools.get pool.key = some pool.generation
  poolLedger : ∀ pool state, engine.lifecycles.pools.get pool = some state →
    ∃ last, engine.generations.pools.get pool.key = some last ∧ pool.generation ≤ last
  adapterLedger : ∀ adapter state, engine.lifecycles.adapters.get adapter = some state →
    ∃ last, engine.generations.adapters.get adapter.key = some last ∧ adapter.generation ≤ last
  serves : ∀ pool o, engine.ownership.pools.get pool = some o → pool.key.protocol ∈ o.adapter.key.protocols

namespace Inv
variable {engine : AmmSyncEngine}

theorem active_iff (h : Inv handlerId engine) {key : PoolKey} {pool : PoolInstanceId} :
    engine.ownership.activePools.get key = some pool ↔ Owned engine pool ∧ pool.key = key :=
  h.ownership.activePools key pool

/-- Two owned generations of one key are the same. -/
theorem owned_unique (h : Inv handlerId engine) {pool other : PoolInstanceId} (hp : Owned engine pool)
    (ho : Owned engine other) (hkey : pool.key = other.key) : pool = other :=
  Option.some.inj ((h.active_iff.mpr ⟨hp, hkey⟩).symm.trans (h.active_iff.mpr ⟨ho, rfl⟩))

/-- A key that is not registered has no owned generation. -/
theorem not_owned (h : Inv handlerId engine) {key : PoolKey} (hnew : engine.registry.pool key = none)
    {pool : PoolInstanceId} (hp : Owned engine pool) : pool.key ≠ key := fun hkey => by
  obtain ⟨r, hr⟩ := (h.registered key).mpr ⟨pool, hp, hkey⟩
  cases hnew.symm.trans hr

theorem owned_of_registered (h : Inv handlerId engine) {key : PoolKey} {r : PoolRegistration}
    (hr : engine.registry.pool key = some r) :
    ∃ pool, Owned engine pool ∧ pool.key = key ∧ engine.ownership.activePools.get key = some pool := by
  obtain ⟨pool, hp, hkey⟩ := (h.registered key).mp ⟨r, hr⟩
  exact ⟨pool, hp, hkey, h.active_iff.mpr ⟨hp, hkey⟩⟩

theorem registered_of_owned (h : Inv handlerId engine) {pool : PoolInstanceId} (hp : Owned engine pool) :
    ∃ r, engine.registry.pool pool.key = some r := (h.registered _).mpr ⟨pool, hp, rfl⟩

/-- The handler of an owned pool is registered under the name of the pool. -/
theorem handler_of_owned (h : Inv handlerId engine) {pool : PoolInstanceId} {o : PoolOwnership}
    (ho : engine.ownership.pools.get pool = some o) :
    ∃ handler, engine.handlers.get o.handler = some handler ∧ handler.instance = pool :=
  (h.handlers _ _).mpr ((h.ownership.handlerPools _ _).mpr ⟨o, ho, rfl⟩)

theorem handlers_iff (h : Inv handlerId engine) {name : HandlerId} {pool : PoolInstanceId} :
    (∃ handler, engine.handlers.get name = some handler ∧ handler.instance = pool) ↔
      Owned engine pool ∧ handlerId pool = name := by
  rw [h.handlers, h.ownership.handlerPools]
  exact ⟨fun ⟨o, ho, hn⟩ => ⟨⟨o, ho⟩, (h.handlerNames pool o ho).symm.trans hn⟩,
    fun ⟨⟨o, ho⟩, hn⟩ => ⟨o, ho, (h.handlerNames pool o ho).trans hn⟩⟩

theorem state_of_owned (h : Inv handlerId engine) {pool : PoolInstanceId} (hp : Owned engine pool) :
    ∃ state, engine.lifecycles.pools.get pool = some state ∧ state ≠ .removed ∧ state ≠ .queued :=
  (h.lifecyclePools pool).mpr hp

theorem adapter_unique (h : Inv handlerId engine) {a b : AdapterInstanceId} (ha : a ∈ engine.ownership.adapters)
    (hb : b ∈ engine.ownership.adapters) (hkey : a.key = b.key) : a = b :=
  Option.some.inj (((h.ownership.activeAdapters _ a).mpr ⟨ha, hkey⟩).symm.trans
    ((h.ownership.activeAdapters _ b).mpr ⟨hb, rfl⟩))

end Inv

/-! ### Generations -/

theorem lt_of_next {last : Option Nat} {generation : Nat} (h : RuntimeGenerationLedger.next last = .ok generation)
    {g : Nat} (hg : last = some g) : g < generation := by
  subst hg
  simp only [RuntimeGenerationLedger.next] at h
  split_ifs at h with hbound
  · have hsucc := Except.ok.inj h
    omega

/-- The next generation of a pool is above every one that was ever accepted. -/
theorem Inv.fresh_pool {engine : AmmSyncEngine} (h : Inv handlerId engine) {key : PoolKey} {generation : Nat}
    (hnext : engine.generations.nextPool key = .ok generation) {pool : PoolInstanceId} {state : PoolRuntimeState}
    (hpool : engine.lifecycles.pools.get pool = some state) (hkey : pool.key = key) : pool.generation < generation := by
  obtain ⟨last, hlast, hle⟩ := h.poolLedger pool state hpool
  exact hle.trans_lt (lt_of_next hnext (hkey ▸ hlast))

theorem Inv.fresh_adapter {engine : AmmSyncEngine} (h : Inv handlerId engine) {key : AdapterKey} {generation : Nat}
    (hnext : engine.generations.nextAdapter key = .ok generation) {adapter : AdapterInstanceId}
    {state : OwnerRuntimeState} (hadapter : engine.lifecycles.adapters.get adapter = some state)
    (hkey : adapter.key = key) : adapter.generation < generation := by
  obtain ⟨last, hlast, hle⟩ := h.adapterLedger adapter state hadapter
  exact hle.trans_lt (lt_of_next hnext (hkey ▸ hlast))

/-- Every generation that a step accepts is above those of its key that were accepted before, and a key gets one at most;
    nothing that was accepted is forgotten. -/
structure Grows (before after : AmmSyncEngine) : Prop where
  poolsKept : ∀ pool state, before.lifecycles.pools.get pool = some state →
    ∃ state', after.lifecycles.pools.get pool = some state'
  newPool : ∀ pool state, before.lifecycles.pools.get pool = none → after.lifecycles.pools.get pool = some state →
    ∀ other state', after.lifecycles.pools.get other = some state' → other.key = pool.key → other ≠ pool →
      other.generation < pool.generation
  adaptersKept : ∀ adapter state, before.lifecycles.adapters.get adapter = some state →
    ∃ state', after.lifecycles.adapters.get adapter = some state'
  newAdapter : ∀ adapter state, before.lifecycles.adapters.get adapter = none →
    after.lifecycles.adapters.get adapter = some state →
    ∀ other state', after.lifecycles.adapters.get other = some state' → other.key = adapter.key → other ≠ adapter →
      other.generation < adapter.generation

theorem Grows.refl (engine : AmmSyncEngine) : Grows engine engine where
  poolsKept _ state h := ⟨state, h⟩
  newPool _ _ hnone hsome := by cases hnone.symm.trans hsome
  adaptersKept _ state h := ⟨state, h⟩
  newAdapter _ _ hnone hsome := by cases hnone.symm.trans hsome

/-- The same generations have been accepted. -/
structure SameDomain (before after : AmmSyncEngine) : Prop where
  pools : ∀ pool, after.lifecycles.pools.get pool = none ↔ before.lifecycles.pools.get pool = none
  adapters : ∀ adapter, after.lifecycles.adapters.get adapter = none ↔ before.lifecycles.adapters.get adapter = none

namespace SameDomain

theorem refl (engine : AmmSyncEngine) : SameDomain engine engine := ⟨fun _ => .rfl, fun _ => .rfl⟩

theorem trans {a b c : AmmSyncEngine} (hab : SameDomain a b) (hbc : SameDomain b c) : SameDomain a c :=
  ⟨fun pool => (hbc.pools pool).trans (hab.pools pool), fun adapter => (hbc.adapters adapter).trans (hab.adapters adapter)⟩

theorem grows {before after : AmmSyncEngine} (h : SameDomain before after) : Grows before after where
  poolsKept pool state hstate := Option.ne_none_iff_exists'.mp fun hnone => by
    cases hstate.symm.trans ((h.pools pool).mp hnone)
  newPool pool _ hnone hsome := by cases hsome.symm.trans ((h.pools pool).mpr hnone)
  adaptersKept adapter state hstate := Option.ne_none_iff_exists'.mp fun hnone => by
    cases hstate.symm.trans ((h.adapters adapter).mp hnone)
  newAdapter adapter _ hnone hsome := by cases hsome.symm.trans ((h.adapters adapter).mpr hnone)

end SameDomain

/-! ### One added pool -/

/-- A prepared addition that fits the engine: its key is new, its adapter is active, and its generation is reserved or
    the next one. -/
structure Addable (handlerId : PoolInstanceId → HandlerId) (engine : AmmSyncEngine) (pool : PreparedPoolAddition) :
    Prop where
  new : engine.registry.pool pool.registration.key = none
  agrees : pool.registration.checkProtocolAgreement = true
  key : pool.instance.key = pool.registration.key
  owner : pool.ownership.instance = pool.instance
  handlerPool : pool.handler.instance = pool.instance
  handlerName : pool.handler.id = handlerId pool.instance
  ownerName : pool.ownership.handler = handlerId pool.instance
  adapter : pool.ownership.adapter ∈ engine.ownership.adapters
  serves : pool.instance.key.protocol ∈ pool.ownership.adapter.key.protocols
  free : engine.handlers.get (handlerId pool.instance) = none
  lifecycle : pool.lifecycle = poolRuntimeState pool.registration.status
  generation : pool.instance ∈ engine.reservations ∨ (∀ reserved ∈ engine.reservations, reserved.key ≠ pool.instance.key) ∧
    engine.generations.nextPool pool.instance.key = .ok pool.instance.generation

theorem poolRuntimeState_active (status : PoolStatus) :
    poolRuntimeState status ≠ .removed ∧ poolRuntimeState status ≠ .queued := by cases status <;> decide

/-- The registry with a registration entered, where it can be. -/
def entered (registry : AdapterRegistry) (registration : PoolRegistration) : AdapterRegistry :=
  match registry.registerPool registration with
  | .ok registry => registry
  | .error _ => registry

/-- The effect of one addition on every structure. -/
def addPool (engine : AmmSyncEngine) (pool : PreparedPoolAddition) : AmmSyncEngine :=
  { engine with
    registry := entered engine.registry pool.registration
    routing := entered engine.routing pool.registration
    ownership := (engine.ownership.insertPool pool.ownership).2
    handlers := engine.handlers.insert pool.handler.id pool.handler
    generations := { engine.generations with
      pools := engine.generations.pools.insert pool.instance.key pool.instance.generation }
    lifecycles := engine.lifecycles.setPool pool.instance pool.lifecycle
    degradedPoolCount := engine.degradedPoolCount + if pool.registration.status = .degraded then 1 else 0 }

namespace Addable
variable {engine : AmmSyncEngine} {pool : PreparedPoolAddition}

theorem entered_ok (ha : Addable handlerId engine pool) :
    engine.registry.registerPool pool.registration = .ok (entered engine.registry pool.registration) ∧
      (entered engine.registry pool.registration).pools = engine.registry.pools ++ [pool.registration] ∧
      (entered engine.registry pool.registration).adapters = engine.registry.adapters := by
  obtain ⟨registry', hok, hpools, hadapters⟩ := AdapterRegistry.registerPool_of ha.new ha.agrees
  rw [show entered engine.registry pool.registration = registry' by rw [entered, hok]]
  exact ⟨hok, hpools, hadapters⟩

theorem insert_ok (ha : Addable handlerId engine pool) (h : Inv handlerId engine) :
    engine.ownership.insertPool pool.ownership = (.ok (), (engine.ownership.insertPool pool.ownership).2) := by
  have hkey : ∀ i o, engine.ownership.pools.get i = some o → i.key ≠ pool.ownership.instance.key := fun i o ho => by
    rw [ha.owner, ha.key]
    exact h.not_owned ha.new ⟨o, ho⟩
  have hfree : ∀ i o, engine.ownership.pools.get i = some o → o.handler ≠ pool.ownership.handler := fun i o ho heq => by
    obtain ⟨handler, hhandler, -⟩ := h.handler_of_owned ho
    rw [heq, ha.ownerName, ha.free] at hhandler
    cases hhandler
  obtain ⟨y, hy⟩ := Ownership.insertPool_of h.ownership ha.adapter (by rw [ha.owner]; exact ha.serves) hkey hfree
  rw [hy]

theorem forward (ha : Addable handlerId engine pool) (h : Inv handlerId engine) :
    Ownership.Forward (engine.ownership.insertPool pool.ownership).2
      (engine.ownership.pools.insert pool.instance pool.ownership) engine.ownership.adapters := by
  have hforward := (Ownership.forward_insertPool (ha.insert_ok h)).2
  rwa [ha.owner] at hforward

theorem not_owned (ha : Addable handlerId engine pool) (h : Inv handlerId engine) : ¬ Owned engine pool.instance :=
  fun hp => h.not_owned ha.new hp ha.key

/-- The generation of an addition is the last one of its key. -/
theorem above (ha : Addable handlerId engine pool) (h : Inv handlerId engine) {other : PoolInstanceId}
    {state : PoolRuntimeState} (ho : engine.lifecycles.pools.get other = some state)
    (hkey : other.key = pool.instance.key) : other.generation ≤ pool.instance.generation := by
  rcases ha.generation with hreserved | ⟨-, hnext⟩
  · obtain ⟨last, hlast, hle⟩ := h.poolLedger other state ho
    rw [hkey, (h.reserved _ hreserved).2] at hlast
    exact hle.trans (Option.some.inj hlast).ge
  · exact (h.fresh_pool hnext ho hkey).le

/-- Only a reservation of the very generation may be there for the key of an addition. -/
theorem reservation_eq (ha : Addable handlerId engine pool) (h : Inv handlerId engine) {other : PoolInstanceId}
    (ho : other ∈ engine.reservations) (hkey : other.key = pool.instance.key) : other = pool.instance := by
  rcases ha.generation with hreserved | ⟨hnone, -⟩
  · exact List.inj_on_of_nodup_map h.reservationKeys ho hreserved hkey
  · exact absurd hkey (hnone other ho)

end Addable

theorem mem_removeReservation {engine : AmmSyncEngine} {key : PoolKey} {pool : PoolInstanceId} :
    pool ∈ (engine.removeReservation key).reservations ↔ pool ∈ engine.reservations ∧ pool.key ≠ key := by
  simp [AmmSyncEngine.removeReservation]

theorem adapter_congr {registry registry' : AdapterRegistry} (h : registry'.adapters = registry.adapters)
    (protocol : ProtocolId) : registry'.adapter protocol = registry.adapter protocol := by
  rw [AdapterRegistry.adapter, h, AdapterRegistry.adapter]

/-- The handlers agree with the index where they agree with its pools and their names. -/
theorem handlers_coherent {ownership : AmmOwnershipIndex} {handlers : Map HandlerId AmmPoolReactiveHandler}
    (hinv : ownership.Inv) (hnames : ∀ pool o, ownership.pools.get pool = some o → o.handler = handlerId pool)
    (h : ∀ name pool, (∃ handler, handlers.get name = some handler ∧ handler.instance = pool) ↔
      (∃ o, ownership.pools.get pool = some o) ∧ handlerId pool = name) (name : HandlerId) (pool : PoolInstanceId) :
    (∃ handler, handlers.get name = some handler ∧ handler.instance = pool) ↔
      ownership.handlerPools.get name = some pool := by
  rw [h, hinv.handlerPools]
  exact ⟨fun ⟨⟨o, ho⟩, hn⟩ => ⟨o, ho, (hnames pool o ho).trans hn⟩,
    fun ⟨o, ho, hn⟩ => ⟨⟨o, ho⟩, (hnames pool o ho).symm.trans hn⟩⟩

theorem degradedPools_append {registry registry' : AdapterRegistry} {registration : PoolRegistration}
    (h : registry'.pools = registry.pools ++ [registration]) :
    degradedPools registry' = degradedPools registry + if registration.status = .degraded then 1 else 0 := by
  rw [degradedPools, h, List.countP_append, degradedPools]
  by_cases hs : registration.status = .degraded <;> simp [hs]

/-- An addition keeps the invariant once the reservation of its key is gone. -/
theorem Inv.addPool {engine : AmmSyncEngine} {pool : PreparedPoolAddition} (h : Inv handlerId engine)
    (ha : Addable handlerId engine pool) :
    Inv handlerId ((addPool engine pool).removeReservation pool.instance.key) := by
  obtain ⟨hok, hpools, hadapters⟩ := ha.entered_ok
  have hforward := ha.forward h
  have hregistry : ∀ key, (entered engine.registry pool.registration).pool key =
      if key = pool.registration.key then some pool.registration else engine.registry.pool key :=
    AdapterRegistry.pool_of_append hpools
  have hinv : (engine.ownership.insertPool pool.ownership).2.Inv := h.ownership.insertPool pool.ownership
  have hactive := poolRuntimeState_active pool.registration.status
  have howned : ∀ p, (∃ o, (engine.ownership.insertPool pool.ownership).2.pools.get p = some o) ↔
      p = pool.instance ∨ Owned engine p := fun p => by
    rw [hforward.pools]
    by_cases hp : p = pool.instance
    · exact ⟨fun _ => .inl hp, fun _ => ⟨pool.ownership, by rw [hp, Map.get_insert_self]⟩⟩
    · rw [Map.get_insert_of_ne hp]
      exact ⟨.inr, fun h => h.resolve_left hp⟩
  have hnames : ∀ p o, (engine.ownership.insertPool pool.ownership).2.pools.get p = some o → o.handler = handlerId p := by
    intro p o ho
    rw [hforward.pools, Map.get_insert_eq_some] at ho
    rcases ho with ⟨rfl, rfl⟩ | ⟨-, ho⟩
    · exact ha.ownerName
    · exact h.handlerNames p o ho
  have hserves : ∀ p o, (engine.ownership.insertPool pool.ownership).2.pools.get p = some o →
      p.key.protocol ∈ o.adapter.key.protocols := by
    intro p o ho
    rw [hforward.pools, Map.get_insert_eq_some] at ho
    rcases ho with ⟨rfl, rfl⟩ | ⟨-, ho⟩
    · exact ha.serves
    · exact h.serves p o ho
  have hhandlers : ∀ name p, (∃ handler, (engine.handlers.insert pool.handler.id pool.handler).get name = some handler ∧
      handler.instance = p) ↔ (∃ o, (engine.ownership.insertPool pool.ownership).2.pools.get p = some o) ∧
        handlerId p = name := by
    intro name p
    rw [howned, Map.get_insert, ha.handlerName]
    by_cases hname : name = handlerId pool.instance
    · rw [if_pos hname]
      constructor
      · rintro ⟨_, hhandler, rfl⟩
        obtain rfl := Option.some.inj hhandler
        exact ⟨.inl ha.handlerPool, by rw [ha.handlerPool, hname]⟩
      · rintro ⟨rfl | howned, hid⟩
        · exact ⟨_, rfl, ha.handlerPool⟩
        · obtain ⟨handler, hhandler, -⟩ := h.handlers_iff.mpr ⟨howned, hid⟩
          rw [hname, ha.free] at hhandler
          cases hhandler
    · rw [if_neg hname, h.handlers_iff]
      exact and_congr_left fun hid => ⟨.inr, fun h => h.resolve_left fun hp => hname (hid.symm.trans (by rw [hp]))⟩
  have hstates : ∀ p, (engine.lifecycles.setPool pool.instance pool.lifecycle).pools.get p =
      if p = pool.instance then some pool.lifecycle else engine.lifecycles.pools.get p := fun p => Map.get_insert ..
  refine ⟨⟨hinv, ?_, ?_, handlers_coherent hinv hnames hhandlers, ?_, ?_, ?_, ?_, ?_⟩, hnames, ?_, ?_, ?_, ?_, hserves⟩
  · show entered engine.routing pool.registration = _
    rw [h.routing]
    rfl
  · intro key
    show (∃ r, (entered engine.registry pool.registration).pool key = some r) ↔ _
    rw [hregistry]
    by_cases hkey : key = pool.registration.key
    · rw [if_pos hkey]
      exact ⟨fun _ => ⟨pool.instance, (howned _).mpr (.inl rfl), ha.key.trans hkey.symm⟩, fun _ => ⟨_, rfl⟩⟩
    · rw [if_neg hkey, h.registered]
      constructor
      · exact fun ⟨p, hp, hpkey⟩ => ⟨p, (howned p).mpr (.inr hp), hpkey⟩
      · rintro ⟨p, hp, hpkey⟩
        rcases (howned p).mp hp with rfl | hp
        · exact absurd (hpkey.symm.trans ha.key) hkey
        · exact ⟨p, hp, hpkey⟩
  · intro key
    show (∃ protocol a, (entered engine.registry pool.registration).adapter protocol = some a ∧ _) ↔
      ∃ adapter ∈ (engine.ownership.insertPool pool.ownership).2.adapters, _
    simp only [adapter_congr hadapters, hforward.adapters]
    exact h.adapters key
  · intro p
    show (∃ state, (engine.lifecycles.setPool pool.instance pool.lifecycle).pools.get p = some state ∧ _) ↔
      ∃ o, (engine.ownership.insertPool pool.ownership).2.pools.get p = some o
    rw [hstates, howned]
    by_cases hp : p = pool.instance
    · rw [if_pos hp, ha.lifecycle]
      exact ⟨fun _ => .inl hp, fun _ => ⟨_, rfl, hactive⟩⟩
    · rw [if_neg hp, h.lifecyclePools]
      exact ⟨.inr, fun h => h.resolve_left hp⟩
  · intro p
    rw [mem_removeReservation]
    show (engine.lifecycles.setPool pool.instance pool.lifecycle).pools.get p = some .queued ↔ p ∈ engine.reservations ∧ _
    rw [hstates]
    by_cases hp : p = pool.instance
    · rw [if_pos hp, ha.lifecycle, hp]
      exact ⟨fun hq => absurd (Option.some.inj hq) hactive.2, fun hq => absurd rfl hq.2⟩
    · rw [if_neg hp, h.lifecycleQueued]
      exact ⟨fun hq => ⟨hq, fun hkey => hp (ha.reservation_eq h hq hkey)⟩, And.left⟩
  · intro adapter
    show _ ↔ adapter ∈ (engine.ownership.insertPool pool.ownership).2.adapters
    rw [hforward.adapters]
    exact h.lifecycleAdapters adapter
  · show engine.degradedPoolCount + _ = degradedPools (entered engine.registry pool.registration)
    rw [degradedPools_append hpools, h.degraded]
  · exact h.reservationKeys.sublist (List.filter_sublist.map _)
  · intro reserved hreserved
    obtain ⟨hmem, hkey⟩ := mem_removeReservation.mp hreserved
    obtain ⟨hnone, hlast⟩ := h.reserved reserved hmem
    refine ⟨?_, (Map.get_insert_of_ne hkey).trans hlast⟩
    show (entered engine.registry pool.registration).pool reserved.key = none
    rw [hregistry, if_neg (ha.key ▸ hkey), hnone]
  · intro p state hp
    show ∃ last, (engine.generations.pools.insert pool.instance.key pool.instance.generation).get p.key = some last ∧ _
    have hstate := (hstates p).symm.trans hp
    by_cases hkey : p.key = pool.instance.key
    · rw [hkey, Map.get_insert_self]
      refine ⟨_, rfl, ?_⟩
      by_cases hpi : p = pool.instance
      · rw [hpi]
      · rw [if_neg hpi] at hstate
        exact ha.above h hstate hkey
    · rw [if_neg fun hpi => hkey (by rw [hpi])] at hstate
      rw [Map.get_insert_of_ne hkey]
      exact h.poolLedger p state hstate
  · exact h.adapterLedger

/-! ### Batches of additions -/

/-- An addition together with the end of the reservation of its key. -/
def enterPool (engine : AmmSyncEngine) (pool : PreparedPoolAddition) : AmmSyncEngine :=
  (addPool engine pool).removeReservation pool.instance.key

/-- A batch that fits the engine, each pool for itself and next to the others. -/
structure Batch (handlerId : PoolInstanceId → HandlerId) (engine : AmmSyncEngine) (batch : List PreparedPoolAddition) :
    Prop where
  addable : ∀ pool ∈ batch, Addable handlerId engine pool
  keys : (batch.map (·.instance.key)).Nodup
  names : (batch.map fun pool => handlerId pool.instance).Nodup

namespace Batch
variable {engine : AmmSyncEngine} {batch : List PreparedPoolAddition}

/-- What fits next to a pool still fits once the pool is added. -/
theorem tail {pool : PreparedPoolAddition} (hb : Batch handlerId engine (pool :: batch)) (h : Inv handlerId engine) :
    Batch handlerId (enterPool engine pool) batch := by
  obtain ⟨hkey, hkeys⟩ := List.nodup_cons.mp hb.keys
  obtain ⟨hname, hnames⟩ := List.nodup_cons.mp hb.names
  have ha := hb.addable pool List.mem_cons_self
  obtain ⟨hok, hpools, hadapters⟩ := ha.entered_ok
  refine ⟨fun other hother => ?_, hkeys, hnames⟩
  have ho := hb.addable other (List.mem_cons_of_mem _ hother)
  have hne : other.instance.key ≠ pool.instance.key := fun heq =>
    hkey (List.mem_map.mpr ⟨other, hother, heq⟩)
  have hnamed : handlerId other.instance ≠ handlerId pool.instance := fun heq =>
    hname (List.mem_map.mpr ⟨other, hother, heq⟩)
  refine { ho with new := ?_, adapter := ?_, free := ?_, generation := ?_ }
  · show (entered engine.registry pool.registration).pool other.registration.key = none
    rw [AdapterRegistry.pool_of_append hpools, if_neg (by rwa [← ho.key, ← ha.key]), ho.new]
  · show other.ownership.adapter ∈ (engine.ownership.insertPool pool.ownership).2.adapters
    rw [(ha.forward h).adapters]
    exact ho.adapter
  · show (engine.handlers.insert pool.handler.id pool.handler).get _ = none
    rw [Map.get_insert_of_ne (by rwa [ha.handlerName]), ho.free]
  · rcases ho.generation with hreserved | ⟨hnone, hnext⟩
    · exact .inl (mem_removeReservation.mpr ⟨hreserved, hne⟩)
    · refine .inr ⟨fun reserved hr => hnone reserved (mem_removeReservation.mp hr).1, ?_⟩
      show RuntimeGenerationLedger.next ((engine.generations.pools.insert pool.instance.key _).get _) = _
      rw [Map.get_insert_of_ne hne]
      exact hnext

theorem inv (hb : Batch handlerId engine batch) (h : Inv handlerId engine) :
    Inv handlerId (batch.foldl enterPool engine) := by
  induction batch generalizing engine with
  | nil => exact h
  | cons pool rest ih => exact ih (hb.tail h) (h.addPool (hb.addable pool List.mem_cons_self))

end Batch

/-- The lifecycles after a batch. -/
theorem lifecycle_enterPool (batch : List PreparedPoolAddition) (engine : AmmSyncEngine) (pool : PoolInstanceId) :
    (pool ∈ batch.map (·.instance) ∨ (batch.foldl enterPool engine).lifecycles.pools.get pool =
      engine.lifecycles.pools.get pool) ∧
    (pool ∈ batch.map (·.instance) → ∃ state, (batch.foldl enterPool engine).lifecycles.pools.get pool = some state) := by
  induction batch using List.reverseRecOn with
  | nil => exact ⟨.inr rfl, nofun⟩
  | append_singleton rest last ih =>
    obtain ⟨hsame, hmem⟩ := ih
    have hget : ((rest ++ [last]).foldl enterPool engine).lifecycles.pools.get pool =
        if pool = last.instance then some last.lifecycle else (rest.foldl enterPool engine).lifecycles.pools.get pool := by
      rw [List.foldl_append]
      exact Map.get_insert ..
    rw [List.map_append, List.mem_append, List.map_singleton, List.mem_singleton, hget]
    refine ⟨?_, ?_⟩
    · by_cases hp : pool = last.instance
      · exact .inl (.inr hp)
      · rw [if_neg hp]
        exact hsame.imp_left .inl
    · intro hp
      by_cases hlast : pool = last.instance
      · exact ⟨_, if_pos hlast⟩
      · rw [if_neg hlast]
        exact hmem (hp.resolve_right hlast)

theorem lifecycleAdapters_enterPool (batch : List PreparedPoolAddition) (engine : AmmSyncEngine) :
    (batch.foldl enterPool engine).lifecycles.adapters = engine.lifecycles.adapters := by
  induction batch generalizing engine with
  | nil => rfl
  | cons pool rest ih => exact ih (enterPool engine pool)

theorem Batch.grows {engine : AmmSyncEngine} {batch : List PreparedPoolAddition} (hb : Batch handlerId engine batch)
    (h : Inv handlerId engine) : Grows engine (batch.foldl enterPool engine) where
  poolsKept pool state hstate := by
    obtain ⟨hsame, hmem⟩ := lifecycle_enterPool batch engine pool
    rcases hsame with hp | hp
    · exact hmem hp
    · exact ⟨state, hp.trans hstate⟩
  newPool pool state hnone hsome other state' hother hkey hne := by
    have hpool : pool ∈ batch.map (·.instance) := (lifecycle_enterPool batch engine pool).1.resolve_right fun hsame => by
      cases (hsame.symm.trans hsome).symm.trans hnone
    obtain ⟨prepared, hprepared, rfl⟩ := List.mem_map.mp hpool
    have hold : engine.lifecycles.pools.get other = some state' := by
      rcases (lifecycle_enterPool batch engine other).1 with ho | ho
      · obtain ⟨o, hmem, rfl⟩ := List.mem_map.mp ho
        exact absurd (congrArg _ (List.inj_on_of_nodup_map hb.keys hmem hprepared hkey)) hne
      · exact ho.symm.trans hother
    rcases (hb.addable prepared hprepared).generation with hreserved | ⟨-, hnext⟩
    · cases ((h.lifecycleQueued _).mpr hreserved).symm.trans hnone
    · exact h.fresh_pool hnext hold hkey
  adaptersKept adapter state hstate := ⟨state, by rw [lifecycleAdapters_enterPool, hstate]⟩
  newAdapter adapter state hnone hsome := by
    rw [lifecycleAdapters_enterPool, hnone] at hsome
    cases hsome

/-! ### Committing a batch -/

/-- The handlers of an engine with those of a batch. -/
def withHandlers (handlers : Map HandlerId AmmPoolReactiveHandler) (batch : List PreparedPoolAddition) :
    Map HandlerId AmmPoolReactiveHandler :=
  batch.foldl (fun map pool => map.insert pool.handler.id pool.handler) handlers

theorem get_removeNames (names : List HandlerId) (handlers : Map HandlerId AmmPoolReactiveHandler) (name : HandlerId) :
    (names.foldl (fun map handler => map.remove handler) handlers).get name =
      if name ∈ names then none else handlers.get name := by
  induction names generalizing handlers with
  | nil => simp
  | cons head rest ih =>
    rw [List.foldl_cons, ih, Map.get_remove]
    by_cases hk : name = head <;> simp [hk]

/-- Fresh handlers that were put in and taken out again leave no trace. -/
theorem unregister_withHandlers {engine : AmmSyncEngine} {done : List PreparedPoolAddition} {installed : List HandlerId}
    (hnames : ∀ name, name ∈ installed ↔ name ∈ done.map (·.handler.id))
    (hfree : ∀ pool ∈ done, engine.handlers.get pool.handler.id = none) :
    ({ engine with handlers := withHandlers engine.handlers done } : AmmSyncEngine).unregisterHandlers
    installed = engine := by
  have hsame : installed.foldl (fun map handler => map.remove handler) (withHandlers engine.handlers done) =
      engine.handlers := by
    ext1 name
    rw [get_removeNames]
    by_cases hname : name ∈ installed
    · obtain ⟨pool, hpool, rfl⟩ := List.mem_map.mp ((hnames name).mp hname)
      rw [if_pos hname, hfree pool hpool]
    · rw [if_neg hname]
      exact Map.get_foldl_insert_of_notMem _ fun hmem => hname ((hnames name).mpr hmem)
  rw [AmmSyncEngine.unregisterHandlers]
  simp only [hsame]

/-- The handlers of a batch are all registered, or none of them. -/
theorem registerHandlers_cases (engine : AmmSyncEngine) (rest done : List PreparedPoolAddition)
    (installed : List HandlerId) :
    (∀ pool ∈ done ++ rest, Addable handlerId engine pool) → (done.map fun pool => handlerId pool.instance).Nodup →
    (∀ name, name ∈ installed ↔ name ∈ done.map (·.handler.id)) →
    (∃ error, AmmSyncEngine.registerHandlers installed rest
      { engine with handlers := withHandlers engine.handlers done } = (.error error, engine)) ∨
    (((done ++ rest).map fun pool => handlerId pool.instance).Nodup ∧
      AmmSyncEngine.registerHandlers installed rest { engine with handlers := withHandlers engine.handlers done } =
        (.ok (), { engine with handlers := withHandlers engine.handlers (done ++ rest) })) := by
  induction rest generalizing done installed with
  | nil =>
    intro _ hnodup _
    rw [List.append_nil]
    exact .inr ⟨hnodup, rfl⟩
  | cons pool rest ih =>
    intro hadd hnodup hnames
    have hpool := hadd pool (List.mem_append_right _ List.mem_cons_self)
    rw [AmmSyncEngine.registerHandlers, registerHandler]
    split_ifs with htaken
    · exact .inl ⟨_, congrArg (Prod.mk _) (unregister_withHandlers hnames fun p hp => by
        have ha := hadd p (List.mem_append_left _ hp)
        rw [ha.handlerName, ha.free])⟩
    · have hnew : handlerId pool.instance ∉ done.map fun pool => handlerId pool.instance := fun hmem => by
        obtain ⟨other, hother, heq⟩ := List.mem_map.mp hmem
        have hids : (done.map (·.handler.id)).Nodup := by
          rwa [List.map_congr_left fun p hp => (hadd p (List.mem_append_left _ hp)).handlerName]
        refine htaken (Map.contains_iff.mpr ⟨other.handler, ?_⟩)
        rw [hpool.handlerName, ← heq, ← (hadd other (List.mem_append_left _ hother)).handlerName]
        exact Map.get_foldl_insert_mem hids _ hother
      have hnext := ih (done ++ [pool]) (pool.ownership.handler :: installed)
        (fun p hp => hadd p (by rwa [List.append_assoc] at hp))
        (by
          rw [List.map_append, List.map_singleton]
          refine List.nodup_append.mpr ⟨hnodup, List.nodup_singleton _, ?_⟩
          rintro name hold _ hlast rfl
          exact hnew (List.mem_singleton.mp hlast ▸ hold))
        (fun name => by
          rw [List.mem_cons, hnames, List.map_append, List.mem_append, List.map_singleton, List.mem_singleton,
            hpool.ownerName, hpool.handlerName, or_comm])
      rw [List.append_assoc, List.singleton_append] at hnext
      rwa [withHandlers, List.foldl_append] at hnext

theorem installPool_eq {engine other : AmmSyncEngine} {pool : PreparedPoolAddition} (h : Inv handlerId engine)
    (ha : Addable handlerId engine pool) (hregistry : other.registry = engine.registry)
    (hrouting : other.routing = engine.routing) (hownership : other.ownership = engine.ownership) :
    AmmSyncEngine.installPool pool other = (.ok (), { other with
      registry := (enterPool engine pool).registry
      routing := (enterPool engine pool).routing
      ownership := (enterPool engine pool).ownership }) := by
  obtain ⟨ownership, hinsert⟩ : ∃ ownership, engine.ownership.insertPool pool.ownership = (.ok (), ownership) :=
    ⟨_, ha.insert_ok h⟩
  rw [enterPool, AmmSyncEngine.removeReservation, addPool, AmmSyncEngine.installPool, hregistry, hrouting, hownership,
    h.routing, ha.entered_ok.1, hinsert]

theorem installPools_eq {engine : AmmSyncEngine} {batch : List PreparedPoolAddition} (h : Inv handlerId engine)
    (hb : Batch handlerId engine batch) (other : AmmSyncEngine) (hregistry : other.registry = engine.registry)
    (hrouting : other.routing = engine.routing) (hownership : other.ownership = engine.ownership)
    (handlers : List HandlerId) (committed : List PoolInstanceId) :
    AmmSyncEngine.installPools handlers committed batch other =
      (.ok (committed ++ batch.map (·.instance)), { other with
        registry := (batch.foldl enterPool engine).registry
        routing := (batch.foldl enterPool engine).routing
        ownership := (batch.foldl enterPool engine).ownership }) := by
  induction batch generalizing engine other committed with
  | nil =>
    rw [AmmSyncEngine.installPools, List.map_nil, List.append_nil, List.foldl_nil, ← hregistry, ← hrouting, ← hownership]
  | cons pool rest ih =>
    have ha := hb.addable pool List.mem_cons_self
    rw [AmmSyncEngine.installPools, installPool_eq h ha hregistry hrouting hownership]
    simp only []
    rw [List.foldl_cons, List.map_cons, List.append_cons _ _ (rest.map _)]
    exact ih (h.addPool ha) (hb.tail h) { other with
      registry := (enterPool engine pool).registry
      routing := (enterPool engine pool).routing
      ownership := (enterPool engine pool).ownership } rfl rfl rfl _

theorem foldl_adoptLifecycle (batch : List PreparedPoolAddition) (engine other : AmmSyncEngine)
    (hgenerations : other.generations = engine.generations) (hlifecycles : other.lifecycles = engine.lifecycles) :
    batch.foldl AmmSyncEngine.adoptLifecycle other = { other with
      generations := (batch.foldl enterPool engine).generations
      lifecycles := (batch.foldl enterPool engine).lifecycles } := by
  induction batch generalizing engine other with
  | nil => rw [List.foldl_nil, List.foldl_nil, ← hgenerations, ← hlifecycles]
  | cons pool rest ih =>
    rw [List.foldl_cons, List.foldl_cons, ih (enterPool engine pool)]
    · rfl
    · rw [AmmSyncEngine.adoptLifecycle, hgenerations]
      rfl
    · rw [AmmSyncEngine.adoptLifecycle, hlifecycles]
      rfl

theorem handlers_enterPool (batch : List PreparedPoolAddition) (engine : AmmSyncEngine) :
    (batch.foldl enterPool engine).handlers = withHandlers engine.handlers batch := by
  induction batch generalizing engine with
  | nil => rfl
  | cons pool rest ih => exact ih (enterPool engine pool)

theorem degraded_enterPool (batch : List PreparedPoolAddition) (engine : AmmSyncEngine) :
    (batch.foldl enterPool engine).degradedPoolCount =
      engine.degradedPoolCount + batch.countP (·.registration.status = .degraded) := by
  induction batch generalizing engine with
  | nil => rfl
  | cons pool rest ih =>
    rw [List.foldl_cons, ih, List.countP_cons, enterPool, AmmSyncEngine.removeReservation, addPool]
    simp only [decide_eq_true_eq]
    omega

/-- The registration of each added pool stands in the registry after the batch. -/
theorem pool_enterPool {engine : AmmSyncEngine} {batch : List PreparedPoolAddition} (h : Inv handlerId engine)
    (hb : Batch handlerId engine batch) {pool : PreparedPoolAddition} (hpool : pool ∈ batch) :
    (batch.foldl enterPool engine).registry.pool pool.instance.key = some pool.registration := by
  have hkept : ∀ (batch : List PreparedPoolAddition) (engine : AmmSyncEngine), Inv handlerId engine →
      Batch handlerId engine batch → ∀ r ∈ engine.registry.pools, r ∈ (batch.foldl enterPool engine).registry.pools := by
    intro batch
    induction batch with
    | nil => exact fun _ _ _ r hr => hr
    | cons pool rest ih =>
      intro engine h hb r hr
      have ha := hb.addable pool List.mem_cons_self
      refine ih _ (h.addPool ha) (hb.tail h) r ?_
      show r ∈ (entered engine.registry pool.registration).pools
      rw [ha.entered_ok.2.1]
      exact List.mem_append_left _ hr
  induction batch generalizing engine with
  | nil => cases hpool
  | cons head rest ih =>
    have ha := hb.addable head List.mem_cons_self
    rcases List.mem_cons.mp hpool with rfl | hrest
    · rw [ha.key]
      refine AdapterRegistry.pool_of_mem (hkept rest _ (h.addPool ha) (hb.tail h) _ ?_)
      show pool.registration ∈ (entered engine.registry pool.registration).pools
      rw [ha.entered_ok.2.1]
      exact List.mem_append_right _ (List.mem_singleton_self _)
    · exact ih (h.addPool ha) (hb.tail h) hrest

/-- A batch is committed whole, or the engine stays as it was. -/
theorem commitPreparedPoolAdditions_cases {engine : AmmSyncEngine} {batch : List PreparedPoolAddition}
    (h : Inv handlerId engine) (hadd : ∀ pool ∈ batch, Addable handlerId engine pool)
    (hkeys : (batch.map (·.instance.key)).Nodup) :
    (∃ error, AmmSyncEngine.commitPreparedPoolAdditions batch engine = (.error error, engine)) ∨
    (Batch handlerId engine batch ∧ AmmSyncEngine.commitPreparedPoolAdditions batch engine =
      (.ok (batch.map (·.instance)), { batch.foldl enterPool engine with reservations := engine.reservations })) := by
  rcases registerHandlers_cases engine batch [] [] hadd List.nodup_nil
    (fun _ => Iff.rfl) with ⟨error, herror⟩ | ⟨hnames, hok⟩
  · have herror : AmmSyncEngine.registerHandlers [] batch engine = (.error error, engine) := herror
    exact .inl ⟨error, by rw [AmmSyncEngine.commitPreparedPoolAdditions, herror]⟩
  · have hb : Batch handlerId engine batch := ⟨hadd, hkeys, hnames⟩
    have hok : AmmSyncEngine.registerHandlers [] batch engine =
        (.ok (), { engine with handlers := withHandlers engine.handlers batch }) := hok
    have hcount : (batch.map (·.instance)).countP (fun pool =>
        ((batch.foldl enterPool engine).registry.pool pool.key).any (·.status = .degraded)) =
        batch.countP (·.registration.status = .degraded) := by
      rw [List.countP_map]
      refine List.countP_congr fun pool hpool => ?_
      rw [Function.comp_apply, pool_enterPool h hb hpool]
      rfl
    refine .inr ⟨hb, ?_⟩
    rw [AmmSyncEngine.commitPreparedPoolAdditions, hok]
    simp only []
    rw [installPools_eq h hb { engine with handlers := withHandlers engine.handlers batch } rfl rfl rfl]
    simp only []
    rw [foldl_adoptLifecycle batch engine, List.nil_append]
    · simp only [hcount]
      rw [← degraded_enterPool, ← handlers_enterPool]
    · rfl
    · rfl

/-! ### What an operation does -/

/-- What is removed stays so, and what is not reserved is not reserved again. -/
def Settled (before after : AmmSyncEngine) : Prop :=
  ∀ pool state, before.lifecycles.pools.get pool = some state → state ≠ .queued →
    ∃ state', after.lifecycles.pools.get pool = some state' ∧ state' ≠ .queued ∧ (state = .removed → state' = .removed)

theorem Settled.refl (engine : AmmSyncEngine) : Settled engine engine := fun _ state h hne => ⟨state, h, hne, id⟩

theorem Settled.trans {a b c : AmmSyncEngine} (hab : Settled a b) (hbc : Settled b c) : Settled a c := by
  intro pool state hstate hne
  obtain ⟨state', hstate', hne', hremoved⟩ := hab pool state hstate hne
  obtain ⟨state'', hstate'', hne'', hremoved'⟩ := hbc pool state' hstate' hne'
  exact ⟨state'', hstate'', hne'', hremoved' ∘ hremoved⟩

/-- A pool generation that both engines own is owned and registered alike in both. -/
def Frame (before after : AmmSyncEngine) : Prop :=
  ∀ pool, Owned before pool → Owned after pool →
    after.ownership.pools.get pool = before.ownership.pools.get pool ∧
      after.registry.pool pool.key = before.registry.pool pool.key

theorem Frame.refl (engine : AmmSyncEngine) : Frame engine engine := fun _ _ _ => ⟨rfl, rfl⟩

/-- Frames compose, since a generation that is removed is not owned again. -/
theorem Frame.trans {a b c : AmmSyncEngine} (ha : Inv handlerId a) (hb : Inv handlerId b) (hc : Inv handlerId c)
    (hab : Settled a b) (hbc : Settled b c) (hframe : Frame a b) (hframe' : Frame b c) : Frame a c := by
  intro pool hbefore hafter
  have hmiddle : Owned b pool := by
    obtain ⟨state, hstate, -, hne⟩ := ha.state_of_owned hbefore
    obtain ⟨state', hstate', hne', -⟩ := hab pool state hstate hne
    refine (hb.lifecyclePools pool).mp ⟨state', hstate', fun hremoved => ?_, hne'⟩
    obtain ⟨last, hlast, -, hkept⟩ := hbc pool state' hstate' hne'
    obtain ⟨last', hlast', hne'', -⟩ := hc.state_of_owned hafter
    exact hne'' (Option.some.inj (hlast'.symm.trans hlast) ▸ hkept hremoved)
  obtain ⟨hown, hregistration⟩ := hframe pool hbefore hmiddle
  obtain ⟨hown', hregistration'⟩ := hframe' pool hmiddle hafter
  exact ⟨hown'.trans hown, hregistration'.trans hregistration⟩

/-- An operation keeps the invariant, and where it fails it changes nothing. -/
structure Sound {α : Type} (handlerId : PoolInstanceId → HandlerId) (engine : AmmSyncEngine)
    (outcome : Outcome α) : Prop where
  inv : Inv handlerId outcome.2
  failed : ∀ error, outcome.1 = .error error → outcome.2 = engine
  grows : Grows engine outcome.2
  settled : Settled engine outcome.2

theorem Sound.unchanged {α : Type} {engine : AmmSyncEngine} {outcome : Outcome α} (h : Inv handlerId engine)
    (hsame : outcome.2 = engine) : Sound handlerId engine outcome where
  inv := hsame ▸ h
  failed _ _ := hsame
  grows := hsame ▸ .refl engine
  settled := hsame ▸ .refl engine

/-! ### Adding pools -/

theorem preparePoolAddition_inv {engine : AmmSyncEngine} {registration : PoolRegistration} {pool : PoolInstanceId}
    {prepared : PreparedPoolAddition} (h : Inv handlerId engine)
    (hok : engine.preparePoolAddition handlerId registration pool = .ok prepared) (hkey : pool.key = registration.key)
    (hnew : engine.registry.pool registration.key = none)
    (hgeneration : pool ∈ engine.reservations ∨ (∀ reserved ∈ engine.reservations, reserved.key ≠ pool.key) ∧
      engine.generations.nextPool pool.key = .ok pool.generation) :
    Addable handlerId engine prepared ∧ prepared.instance = pool ∧ prepared.registration = registration := by
  simp only [AmmSyncEngine.preparePoolAddition, bind_eq_ok, ensure_eq_ok, orError_eq_ok, pure_eq_ok,
    newPoolOwnership] at hok
  obtain ⟨-, hagrees, adapter, -, adapterInstance, hadapter, ownership, howner, -, hfree, rfl⟩ := hok
  split_ifs at howner with hserves
  obtain rfl := Except.ok.inj howner
  exact ⟨{
    new := hnew
    agrees := hagrees
    key := hkey
    owner := rfl
    handlerPool := rfl
    handlerName := rfl
    ownerName := rfl
    adapter := ((h.ownership.activeAdapters _ _).mp hadapter).1
    serves := hserves
    free := Map.contains_eq_false.mp hfree
    lifecycle := rfl
    generation := hgeneration }, rfl, rfl⟩

theorem reservation_eq_none {engine : AmmSyncEngine} {key : PoolKey} :
    engine.reservation key = none ↔ ∀ reserved ∈ engine.reservations, reserved.key ≠ key := by
  simp [AmmSyncEngine.reservation]

theorem prepareNext_inv {engine : AmmSyncEngine} {previous : Option PoolKey} {registration : PoolRegistration}
    {prepared : PreparedPoolAddition} (h : Inv handlerId engine)
    (hok : engine.prepareNext handlerId previous registration = .ok prepared) :
    previous ≠ some registration.key ∧ Addable handlerId engine prepared ∧ prepared.registration = registration ∧
      ∀ reserved ∈ engine.reservations, reserved.key ≠ prepared.instance.key := by
  simp only [AmmSyncEngine.prepareNext, bind_eq_ok, ensure_eq_ok] at hok
  obtain ⟨-, ⟨hprevious, hnew⟩, hok⟩ := hok
  split at hok
  · cases hok
  · rename_i hnone
    obtain ⟨generation, hnext, hok⟩ := bind_eq_ok.mp hok
    rw [reservation_eq_none] at hnone
    obtain ⟨hadd, hpool, hregistration⟩ := preparePoolAddition_inv h hok rfl hnew (.inr ⟨hnone, hnext⟩)
    exact ⟨hprevious, hadd, hregistration, by rwa [hpool]⟩

/-- A sorted batch is prepared for keys that are all different and not reserved. -/
theorem prepareSorted_inv {engine : AmmSyncEngine} {previous : Option PoolKey} {registrations : List PoolRegistration}
    {batch : List PreparedPoolAddition} (h : Inv handlerId engine)
    (hsorted : registrations.Pairwise (·.key.rank ≤ ·.key.rank))
    (hprevious : ∀ key, previous = some key → ∀ r ∈ registrations, key.rank ≤ r.key.rank)
    (hok : engine.prepareSorted handlerId previous registrations = .ok batch) :
    (∀ pool ∈ batch, Addable handlerId engine pool ∧ (∀ key, previous = some key → key.rank < pool.instance.key.rank) ∧
      ∀ reserved ∈ engine.reservations, reserved.key ≠ pool.instance.key) ∧ (batch.map (·.instance.key)).Nodup ∧
      batch.map (·.registration) = registrations := by
  induction registrations generalizing previous batch with
  | nil =>
    obtain rfl := Except.ok.inj hok
    exact ⟨fun _ hp => absurd hp List.not_mem_nil, .nil, rfl⟩
  | cons registration rest ih =>
    simp only [AmmSyncEngine.prepareSorted, bind_eq_ok, pure_eq_ok] at hok
    obtain ⟨prepared, hprepared, batch, hbatch, rfl⟩ := hok
    obtain ⟨hfirst, hrest⟩ := List.pairwise_cons.mp hsorted
    obtain ⟨hdiffers, hadd, hregistration, hunreserved⟩ := prepareNext_inv h hprepared
    have hkey : prepared.instance.key = registration.key := hregistration ▸ hadd.key
    have habove : ∀ key, previous = some key → key.rank < prepared.instance.key.rank := fun key hk => by
      rw [hkey]
      refine lt_of_le_of_ne (hprevious key hk _ List.mem_cons_self) fun heq => hdiffers ?_
      rw [hk, PoolKey.rank_injective heq]
    obtain ⟨hall, hnodup, hmap⟩ := ih hrest (fun key hk r hr => Option.some.inj hk ▸ hfirst r hr) hbatch
    have hnext : ∀ pool ∈ batch, prepared.instance.key.rank < pool.instance.key.rank := fun pool hp =>
      hkey ▸ (hall pool hp).2.1 _ rfl
    refine ⟨fun pool hp => ?_, ?_, by rw [List.map_cons, hmap, hregistration]⟩
    · rcases List.mem_cons.mp hp with rfl | hp
      · exact ⟨hadd, habove, hunreserved⟩
      · exact ⟨(hall pool hp).1, fun key hk => (habove key hk).trans (hnext pool hp), (hall pool hp).2.2⟩
    · refine List.nodup_cons.mpr ⟨fun hmem => ?_, hnodup⟩
      obtain ⟨pool, hp, heq⟩ := List.mem_map.mp hmem
      exact (hnext pool hp).ne (by rw [heq])

theorem reservations_enterPool {engine : AmmSyncEngine} {batch : List PreparedPoolAddition}
    (h : ∀ pool ∈ batch, ∀ reserved ∈ engine.reservations, reserved.key ≠ pool.instance.key) :
    (batch.foldl enterPool engine).reservations = engine.reservations := by
  induction batch generalizing engine with
  | nil => rfl
  | cons pool rest ih =>
    have hsame : (enterPool engine pool).reservations = engine.reservations :=
      List.filter_eq_self.mpr fun reserved hr => decide_eq_true (h pool List.mem_cons_self reserved hr)
    rw [List.foldl_cons, ih (hsame ▸ fun p hp => h p (List.mem_cons_of_mem _ hp)), hsame]

theorem addPools_cases {engine : AmmSyncEngine} (h : Inv handlerId engine) (registrations : List PoolRegistration) :
    (∃ error, engine.addPools handlerId registrations = (.error error, engine)) ∨
    ∃ batch, Batch handlerId engine batch ∧ batch.map (·.registration) = sortBy (·.key.rank) registrations ∧
      engine.addPools handlerId registrations = (.ok (batch.map (·.instance)), batch.foldl enterPool engine) := by
  cases hprepared : engine.preparePoolAdditions handlerId registrations with
  | error error => exact .inl ⟨error, by rw [AmmSyncEngine.addPools, hprepared]⟩
  | ok batch =>
    obtain ⟨hall, hkeys, hmap⟩ := prepareSorted_inv h (pairwise_sortBy _ _) (fun _ hnone => by cases hnone) hprepared
    have hcommit : engine.addPools handlerId registrations = AmmSyncEngine.commitPreparedPoolAdditions batch engine := by
      rw [AmmSyncEngine.addPools, hprepared]
    rw [hcommit]
    refine (commitPreparedPoolAdditions_cases h (fun pool hp => (hall pool hp).1) hkeys).imp_right ?_
    rintro ⟨hb, hok⟩
    exact ⟨batch, hb, hmap, by rw [hok, ← reservations_enterPool fun pool hp => (hall pool hp).2.2]⟩

theorem commitPoolReservation_cases {engine : AmmSyncEngine} (h : Inv handlerId engine) (reserved : PoolInstanceId)
    (registration : PoolRegistration) :
    (∃ error, engine.commitPoolReservation handlerId reserved registration = (.error error, engine)) ∨
    ∃ pool, Batch handlerId engine [pool] ∧ pool.registration = registration ∧ pool.instance = reserved ∧
      engine.commitPoolReservation handlerId reserved registration = (.ok [reserved], enterPool engine pool) := by
  cases hprepared : engine.prepareReserved handlerId reserved registration with
  | error error => exact .inl ⟨error, by rw [AmmSyncEngine.commitPoolReservation, hprepared]⟩
  | ok prepared =>
    have hok := hprepared
    simp only [AmmSyncEngine.prepareReserved, AmmSyncEngine.validatePoolReservation, bind_eq_ok, ensure_eq_ok] at hok
    obtain ⟨-, ⟨-, hkey, -, -, hreserved⟩, hok⟩ := hok
    have hmem : reserved ∈ engine.reservations := List.mem_of_find?_eq_some hreserved
    have hnew : engine.registry.pool registration.key = none := hkey ▸ (h.reserved reserved hmem).1
    obtain ⟨hadd, rfl, hregistration⟩ := preparePoolAddition_inv h hok hkey.symm hnew (.inl hmem)
    rw [AmmSyncEngine.commitPoolReservation, hprepared]
    rcases commitPreparedPoolAdditions_cases h (fun p hp => List.mem_singleton.mp hp ▸ hadd) (List.nodup_singleton _)
      with ⟨error, herror⟩ | ⟨hb, hcommit⟩
    · exact .inl ⟨error, by simp only [herror]⟩
    · refine .inr ⟨prepared, hb, hregistration, rfl, ?_⟩
      simp only [hcommit]
      rfl

section
variable {engine : AmmSyncEngine} {pool : PreparedPoolAddition}

/-- The generation of an addition is reserved, or was never accepted. -/
theorem Addable.unaccepted (ha : Addable handlerId engine pool) (h : Inv handlerId engine) {state : PoolRuntimeState}
    (hstate : engine.lifecycles.pools.get pool.instance = some state) : state = .queued := by
  rcases ha.generation with hreserved | ⟨-, hnext⟩
  · exact Option.some.inj (hstate.symm.trans ((h.lifecycleQueued _).mpr hreserved))
  · exact absurd (h.fresh_pool hnext hstate rfl) (lt_irrefl _)

theorem settled_enterPool (ha : Addable handlerId engine pool) (h : Inv handlerId engine) :
    Settled engine (enterPool engine pool) := by
  intro p state hstate hne
  have hp : p ≠ pool.instance := fun hp => hne (ha.unaccepted h (hp ▸ hstate))
  exact ⟨state, (Map.get_insert_of_ne hp).trans hstate, hne, id⟩

theorem frame_enterPool (ha : Addable handlerId engine pool) (h : Inv handlerId engine) :
    Frame engine (enterPool engine pool) := by
  intro p hp _
  constructor
  · show (engine.ownership.insertPool pool.ownership).2.pools.get p = _
    rw [(ha.forward h).pools, Map.get_insert_of_ne fun heq : p = pool.instance => ha.not_owned h (heq ▸ hp)]
  · show (entered engine.registry pool.registration).pool p.key = _
    rw [AdapterRegistry.pool_of_append ha.entered_ok.2.1, if_neg (h.not_owned ha.new hp)]

end

namespace Batch
variable {engine : AmmSyncEngine} {batch : List PreparedPoolAddition}

theorem settled (hb : Batch handlerId engine batch) (h : Inv handlerId engine) :
    Settled engine (batch.foldl enterPool engine) := by
  induction batch generalizing engine with
  | nil => exact .refl engine
  | cons pool rest ih =>
    have ha := hb.addable pool List.mem_cons_self
    exact (settled_enterPool ha h).trans (ih (hb.tail h) (h.addPool ha))

theorem frame (hb : Batch handlerId engine batch) (h : Inv handlerId engine) :
    Frame engine (batch.foldl enterPool engine) := by
  induction batch generalizing engine with
  | nil => exact .refl engine
  | cons pool rest ih =>
    have ha := hb.addable pool List.mem_cons_self
    have hrest := hb.tail h
    have h' := h.addPool ha
    exact Frame.trans h h' (hrest.inv h') (settled_enterPool ha h) (hrest.settled h') (frame_enterPool ha h) (ih hrest h')

theorem sound (hb : Batch handlerId engine batch) (h : Inv handlerId engine) {α : Type} (a : α) :
    Sound handlerId engine (.ok a, batch.foldl enterPool engine) where
  inv := hb.inv h
  failed := nofun
  grows := hb.grows h
  settled := hb.settled h

end Batch

theorem Inv.addPools {engine : AmmSyncEngine} (h : Inv handlerId engine) (registrations : List PoolRegistration) :
    Sound handlerId engine (engine.addPools handlerId registrations) ∧
      Frame engine (engine.addPools handlerId registrations).2 := by
  rcases addPools_cases h registrations with ⟨error, herror⟩ | ⟨batch, hb, -, hok⟩
  · rw [herror]
    exact ⟨.unchanged h rfl, .refl engine⟩
  · rw [hok]
    exact ⟨hb.sound h _, hb.frame h⟩

theorem Inv.commitPoolReservation {engine : AmmSyncEngine} (h : Inv handlerId engine) (reserved : PoolInstanceId)
    (registration : PoolRegistration) :
    Sound handlerId engine (engine.commitPoolReservation handlerId reserved registration) ∧
      Frame engine (engine.commitPoolReservation handlerId reserved registration).2 := by
  rcases commitPoolReservation_cases h reserved registration with ⟨error, herror⟩ | ⟨pool, hb, -, -, hok⟩
  · rw [herror]
    exact ⟨.unchanged h rfl, .refl engine⟩
  · rw [hok]
    exact ⟨hb.sound h _, hb.frame h⟩

/-! ### Reservations -/

theorem nextReservation_inv {engine : AmmSyncEngine} {key : PoolKey} {generation : Nat}
    (hok : engine.nextReservation key = .ok generation) :
    engine.registry.pool key = none ∧ (∀ reserved ∈ engine.reservations, reserved.key ≠ key) ∧
      engine.generations.nextPool key = .ok generation := by
  simp only [AmmSyncEngine.nextReservation, bind_eq_ok, ensure_eq_ok] at hok
  obtain ⟨-, hnew, hok⟩ := hok
  split at hok
  · cases hok
  · rename_i hnone
    simp only [bind_eq_ok, ensure_eq_ok] at hok
    obtain ⟨-, -, hnext⟩ := hok
    exact ⟨hnew, reservation_eq_none.mp hnone, hnext⟩

theorem Inv.reservePoolGeneration {engine : AmmSyncEngine} (h : Inv handlerId engine) (key : PoolKey) :
    Sound handlerId engine (engine.reservePoolGeneration key) ∧ Frame engine (engine.reservePoolGeneration key).2 := by
  unfold AmmSyncEngine.reservePoolGeneration
  split
  · exact ⟨.unchanged h rfl, .refl engine⟩
  · rename_i generation hgeneration
    obtain ⟨hnew, hunreserved, hnext⟩ := nextReservation_inv hgeneration
    have hfresh : engine.lifecycles.pools.get ⟨key, generation⟩ = none :=
      Option.eq_none_iff_forall_ne_some.mpr fun state hs => lt_irrefl _ (h.fresh_pool hnext hs rfl)
    have hstates : ∀ p, (engine.lifecycles.setPool ⟨key, generation⟩ .queued).pools.get p =
        if p = ⟨key, generation⟩ then some .queued else engine.lifecycles.pools.get p := fun p => Map.get_insert ..
    refine ⟨⟨⟨{ h.toCoherent with lifecyclePools := ?_, lifecycleQueued := ?_ }, h.handlerNames, ?_, ?_, ?_,
      h.adapterLedger, h.serves⟩, fun _ heq => (by cases heq), ⟨?_, ?_, fun _ state hs => ⟨state, hs⟩, ?_⟩, ?_⟩,
        fun _ _ _ => ⟨rfl, rfl⟩⟩
    · intro p
      simp only [hstates]
      by_cases hp : p = ⟨key, generation⟩
      · rw [if_pos hp]
        refine ⟨fun hlive => ?_, fun howned => ?_⟩
        · obtain ⟨_, hs, -, hne⟩ := hlive
          exact absurd (Option.some.inj hs).symm hne
        · exact absurd (by rw [hp]) (h.not_owned hnew howned)
      · rw [if_neg hp]
        exact h.lifecyclePools p
    · intro p
      rw [hstates, List.mem_cons]
      by_cases hp : p = ⟨key, generation⟩
      · rw [if_pos hp]
        exact ⟨fun _ => .inl hp, fun _ => rfl⟩
      · rw [if_neg hp, h.lifecycleQueued]
        exact ⟨.inr, fun hmem => hmem.resolve_left hp⟩
    · refine List.nodup_cons.mpr ⟨fun hmem => ?_, h.reservationKeys⟩
      obtain ⟨reserved, hr, hkey⟩ := List.mem_map.mp hmem
      exact hunreserved reserved hr hkey
    · intro reserved hr
      rcases List.mem_cons.mp hr with rfl | hr
      · exact ⟨hnew, Map.get_insert_self ..⟩
      · exact ⟨(h.reserved reserved hr).1, (Map.get_insert_of_ne (hunreserved reserved hr)).trans
          (h.reserved reserved hr).2⟩
    · intro p state hp
      rw [hstates] at hp
      show ∃ last, (engine.generations.pools.insert key generation).get p.key = some last ∧ _
      by_cases hkey : p.key = key
      · rw [hkey, Map.get_insert_self]
        refine ⟨_, rfl, ?_⟩
        split_ifs at hp with heq
        · rw [heq]
        · exact (h.fresh_pool hnext hp hkey).le
      · rw [if_neg fun heq => hkey (by rw [heq])] at hp
        rw [Map.get_insert_of_ne hkey]
        exact h.poolLedger p state hp
    · intro p state hp
      have hne : p ≠ ⟨key, generation⟩ := by
        rintro rfl
        cases hfresh.symm.trans hp
      exact ⟨state, (hstates p).trans ((if_neg hne).trans hp)⟩
    · intro p state hnone hsome other state' hother hkey hne
      rw [hstates] at hsome hother
      split_ifs at hsome with hp
      · subst hp
        rw [if_neg hne] at hother
        exact h.fresh_pool hnext hother hkey
      · cases hnone.symm.trans hsome
    · intro adapter state hnone hsome
      cases hnone.symm.trans hsome
    · intro p state hs hne
      refine ⟨state, (hstates p).trans ?_, hne, id⟩
      rw [if_neg, hs]
      rintro rfl
      cases hfresh.symm.trans hs

theorem Inv.cancelPoolReservation {engine : AmmSyncEngine} (h : Inv handlerId engine) (reserved : PoolInstanceId) :
    Sound handlerId engine (engine.cancelPoolReservation reserved) ∧
      Frame engine (engine.cancelPoolReservation reserved).2 := by
  unfold AmmSyncEngine.cancelPoolReservation
  split_ifs with hstale
  · exact ⟨.unchanged h rfl, .refl engine⟩
  · have hmem : reserved ∈ engine.reservations := List.mem_of_find?_eq_some (not_not.mp hstale)
    have hqueued := (h.lifecycleQueued reserved).mpr hmem
    have hstates : ∀ p, (engine.lifecycles.setPool reserved .removed).pools.get p =
        if p = reserved then some .removed else engine.lifecycles.pools.get p := fun p => Map.get_insert ..
    refine ⟨⟨⟨{ h.toCoherent with lifecyclePools := ?_, lifecycleQueued := ?_ }, h.handlerNames, ?_, ?_, ?_,
      h.adapterLedger, h.serves⟩, nofun, SameDomain.grows ⟨?_, fun _ => .rfl⟩, ?_⟩, fun _ _ _ => ⟨rfl, rfl⟩⟩
    · intro p
      show (∃ state, (engine.lifecycles.setPool reserved .removed).pools.get p = some state ∧ _) ↔ Owned engine p
      rw [hstates]
      by_cases hp : p = reserved
      · rw [if_pos hp]
        refine ⟨fun ⟨_, hs, hne, _⟩ => absurd (Option.some.inj hs).symm hne, fun howned => ?_⟩
        exact absurd (by rw [hp]) (h.not_owned (h.reserved reserved hmem).1 howned)
      · rw [if_neg hp]
        exact h.lifecyclePools p
    · intro p
      show (engine.lifecycles.setPool reserved .removed).pools.get p = some .queued ↔
        p ∈ (engine.removeReservation reserved.key).reservations
      rw [hstates, mem_removeReservation]
      by_cases hp : p = reserved
      · rw [if_pos hp]
        exact ⟨nofun, fun hr => absurd (by rw [hp]) hr.2⟩
      · rw [if_neg hp, h.lifecycleQueued]
        exact ⟨fun hr => ⟨hr, fun hkey => hp (List.inj_on_of_nodup_map h.reservationKeys hr hmem hkey)⟩, And.left⟩
    · exact h.reservationKeys.sublist (List.filter_sublist.map _)
    · exact fun other ho => h.reserved other (mem_removeReservation.mp ho).1
    · intro p state hp
      have hs := (hstates p).symm.trans hp
      split_ifs at hs with heq
      · exact h.poolLedger p .queued (heq ▸ hqueued)
      · exact h.poolLedger p state hs
    · intro p
      show (engine.lifecycles.setPool reserved .removed).pools.get p = none ↔ _
      rw [hstates]
      by_cases hp : p = reserved
      · rw [if_pos hp, hp, hqueued]
        exact ⟨nofun, nofun⟩
      · rw [if_neg hp]
    · intro p state hs hne
      have hp : p ≠ reserved := fun hp => hne (Option.some.inj (hs.symm.trans (hp ▸ hqueued)))
      exact ⟨state, (hstates p).trans ((if_neg hp).trans hs), hne, id⟩

/-! ### Lifecycle states of owned pools -/

/-- A change of the lifecycle state of an owned pool. -/
theorem Inv.setPool {engine : AmmSyncEngine} (h : Inv handlerId engine) {pool : PoolInstanceId} (hp : Owned engine pool)
    {state : PoolRuntimeState} (hstate : state ≠ .removed ∧ state ≠ .queued) :
    Inv handlerId { engine with lifecycles := engine.lifecycles.setPool pool state } ∧
      SameDomain engine { engine with lifecycles := engine.lifecycles.setPool pool state } ∧
      Settled engine { engine with lifecycles := engine.lifecycles.setPool pool state } := by
  obtain ⟨previous, hprevious, hactive⟩ := h.state_of_owned hp
  have hstates : ∀ p, (engine.lifecycles.setPool pool state).pools.get p =
      if p = pool then some state else engine.lifecycles.pools.get p := fun p => Map.get_insert ..
  refine ⟨⟨{ h.toCoherent with lifecyclePools := ?_, lifecycleQueued := ?_ }, h.handlerNames, h.reservationKeys,
    h.reserved, ?_, h.adapterLedger, h.serves⟩, ⟨?_, fun _ => .rfl⟩, ?_⟩
  · intro p
    simp only [hstates]
    by_cases heq : p = pool
    · rw [if_pos heq]
      exact ⟨fun _ => heq ▸ hp, fun _ => ⟨state, rfl, hstate⟩⟩
    · rw [if_neg heq]
      exact h.lifecyclePools p
  · intro p
    rw [hstates, ← h.lifecycleQueued]
    by_cases heq : p = pool
    · rw [if_pos heq, heq, hprevious]
      exact ⟨fun hq => absurd (Option.some.inj hq) hstate.2, fun hq => absurd (Option.some.inj hq) hactive.2⟩
    · rw [if_neg heq]
  · intro p state' hs
    rw [hstates] at hs
    split_ifs at hs with heq
    · exact heq ▸ h.poolLedger pool previous hprevious
    · exact h.poolLedger p state' hs
  · intro p
    rw [hstates]
    by_cases heq : p = pool
    · rw [if_pos heq, heq, hprevious]
      exact ⟨nofun, nofun⟩
    · rw [if_neg heq]
  · intro p state' hs hne
    by_cases heq : p = pool
    · have hsame : state' = previous := Option.some.inj (hs.symm.trans (heq ▸ hprevious))
      exact ⟨state, (hstates p).trans (if_pos heq), hstate.2, fun hr => absurd (hsame ▸ hr) hactive.1⟩
    · exact ⟨state', (hstates p).trans ((if_neg heq).trans hs), hne, id⟩

theorem acknowledge_inv {engine : AmmSyncEngine} (h : Inv handlerId engine) {pool : PoolInstanceId} {turns : Bool}
    (hok : engine.acknowledge pool = .ok turns) : Owned engine pool := by
  unfold AmmSyncEngine.acknowledge at hok
  split_ifs at hok with hactive
  exact (h.active_iff.mp (not_not.mp hactive)).1

theorem liveTransitions_inv {engine : AmmSyncEngine} (h : Inv handlerId engine) {pools transitions : List PoolInstanceId}
    (hok : engine.liveTransitions pools = .ok transitions) : ∀ pool ∈ transitions, Owned engine pool := by
  induction pools generalizing transitions with
  | nil =>
    obtain rfl := Except.ok.inj hok
    exact fun _ hp => absurd hp List.not_mem_nil
  | cons pool rest ih =>
    simp only [AmmSyncEngine.liveTransitions, bind_eq_ok, pure_eq_ok] at hok
    obtain ⟨turns, hturns, transitions, hrest, rfl⟩ := hok
    intro p hp
    split_ifs at hp
    · rcases List.mem_cons.mp hp with rfl | hp
      · exact acknowledge_inv h hturns
      · exact ih hrest p hp
    · exact ih hrest p hp

theorem Inv.acknowledgeLiveDelivery {engine : AmmSyncEngine} (h : Inv handlerId engine) (pools : List PoolInstanceId) :
    Sound handlerId engine (engine.acknowledgeLiveDelivery pools) ∧
      Frame engine (engine.acknowledgeLiveDelivery pools).2 := by
  unfold AmmSyncEngine.acknowledgeLiveDelivery
  split
  · exact ⟨.unchanged h rfl, .refl engine⟩
  · rename_i transitions htransitions
    have howned := liveTransitions_inv h htransitions
    clear htransitions
    have hrun : ∀ (transitions : List PoolInstanceId) (lifecycles : RuntimeLifecycleMap),
        (∀ pool ∈ transitions, Owned engine pool) → Inv handlerId { engine with lifecycles } →
        let after : AmmSyncEngine :=
          { engine with lifecycles := transitions.foldl (fun lifecycles pool => lifecycles.setPool pool .live) lifecycles }
        Inv handlerId after ∧ SameDomain { engine with lifecycles } after ∧ Settled { engine with lifecycles } after := by
      intro transitions
      induction transitions with
      | nil => exact fun _ _ h => ⟨h, .refl _, .refl _⟩
      | cons pool rest ih =>
        intro lifecycles howned h
        obtain ⟨hinv, hsame, hsettled⟩ := h.setPool (howned pool List.mem_cons_self) (by decide : _ ∧
          PoolRuntimeState.live ≠ .queued)
        obtain ⟨hinv', hsame', hsettled'⟩ := ih _ (fun p hp => howned p (List.mem_cons_of_mem _ hp)) hinv
        exact ⟨hinv', hsame.trans hsame', hsettled.trans hsettled'⟩
    obtain ⟨hinv, hsame, hsettled⟩ := hrun transitions engine.lifecycles howned h
    exact ⟨⟨hinv, nofun, hsame.grows, hsettled⟩, fun _ _ _ => ⟨rfl, rfl⟩⟩

/-! ### Registrations that change -/

theorem recount_eq {count count' : Nat} {previous status : PoolStatus}
    (h : count' + (if previous = .degraded then 1 else 0) = count + (if status = .degraded then 1 else 0)) :
    recount count previous status = count' := by
  unfold recount
  by_cases hp : previous = .degraded <;> by_cases hs :
    status = .degraded <;> simp only [hp, hs, if_true, if_false] at h ⊢ <;>
    simp <;> omega

/-- A change of one registration in both registries, with the counter kept. -/
theorem Inv.modifyPool {engine : AmmSyncEngine} (h : Inv handlerId engine) {key : PoolKey} {r : PoolRegistration}
    (hr : engine.registry.pool key = some r) (f : PoolRegistration → PoolRegistration)
    (hf : ∀ r, r.key = key → (f r).key = key) :
    Inv handlerId { engine with
      registry := engine.registry.modifyPool key f hf
      routing := engine.routing.modifyPool key f hf
      degradedPoolCount := recount engine.degradedPoolCount r.status (f r).status } := by
  have hlookup : ∀ key', (∃ r', (engine.registry.modifyPool key f hf).pool key' = some r') ↔
      ∃ r', engine.registry.pool key' = some r' := fun key' => by
    rw [AdapterRegistry.pool_modifyPool]
    by_cases hkey : key' = key
    · rw [if_pos hkey, hkey, hr]
      exact ⟨fun _ => ⟨r, rfl⟩, fun _ => ⟨f r, rfl⟩⟩
    · rw [if_neg hkey]
  have hregistered := fun key' => (hlookup key').trans (h.registered key')
  refine ⟨{ h.toCoherent with routing := ?_, registered := hregistered, degraded := ?_ }, h.handlerNames, h.reservationKeys,
    fun pool hp => ⟨?_, (h.reserved pool hp).2⟩, h.poolLedger, h.adapterLedger, h.serves⟩
  · rw [h.routing]
  · refine recount_eq ?_
    rw [h.degraded]
    have hcount := AdapterRegistry.countP_modifyPool hr f hf fun r => decide (r.status = .degraded)
    simp only [decide_eq_true_eq] at hcount
    exact hcount
  · refine Option.eq_none_iff_forall_ne_some.mpr fun r' hr' => ?_
    obtain ⟨r'', hr''⟩ := (hlookup pool.key).mp ⟨r', hr'⟩
    cases (h.reserved pool hp).1.symm.trans hr''

theorem setPoolStatus_cases (engine : AmmSyncEngine) (status : PoolStatus) (key : PoolKey) (h : Inv handlerId engine) :
    engine.registry.pool key = none ∧ engine.setPoolStatus status key = engine ∨
    ∃ r pool, engine.registry.pool key = some r ∧ Owned engine pool ∧ pool.key = key ∧
      engine.setPoolStatus status key = { engine with
        degradedPoolCount := recount engine.degradedPoolCount r.status status
        registry := engine.registry.updatePoolStatus key status
        routing := engine.routing.updatePoolStatus key status
        lifecycles := engine.lifecycles.setPool pool (poolRuntimeState status) } := by
  cases hr : engine.registry.pool key with
  | none => exact .inl ⟨rfl, by rw [AmmSyncEngine.setPoolStatus, hr]⟩
  | some r =>
    obtain ⟨pool, hp, hkey, hactive⟩ := h.owned_of_registered hr
    exact .inr ⟨r, pool, rfl, hp, hkey, by rw [AmmSyncEngine.setPoolStatus, hr, hactive]⟩

theorem Inv.setPoolStatus {engine : AmmSyncEngine} (h : Inv handlerId engine) (status : PoolStatus) (key : PoolKey) :
    Inv handlerId (engine.setPoolStatus status key) ∧ SameDomain engine (engine.setPoolStatus status key) ∧
      Settled engine (engine.setPoolStatus status key) := by
  rcases setPoolStatus_cases engine status key h with ⟨-, hsame⟩ | ⟨r, pool, hr, hp, -, hset⟩
  · rw [hsame]
    exact ⟨h, .refl engine, .refl engine⟩
  · rw [hset]
    have hmodified := h.modifyPool hr (fun r => { r with status }) fun _ hkey => hkey
    obtain ⟨hinv, hdomain, hsettled⟩ := hmodified.setPool hp (poolRuntimeState_active status)
    exact ⟨hinv, ⟨hdomain.pools, hdomain.adapters⟩, hsettled⟩

/-! ### Refreshing a pool -/

/-- What every refresh token carries: the replacement keeps the owner, its name and its adapter. -/
structure TokenOk (handlerId : PoolInstanceId → HandlerId) (token : AmmPreparedPoolRefresh) : Prop where
  owner : token.replacementOwnership.instance = token.instance
  ownerName : token.replacementOwnership.handler = handlerId token.instance
  adapter : token.replacementOwnership.adapter = token.previousOwnership.adapter
  handlerName : token.replacementHandler.id = handlerId token.instance
  handlerPool : token.replacementHandler.instance = token.instance

/-- The ownership record that a token was prepared against is the present one. -/
def Accepted (engine : AmmSyncEngine) (token : AmmPreparedPoolRefresh) : Prop :=
  engine.ownership.pools.get token.instance = some token.previousOwnership

instance (engine : AmmSyncEngine) (token : AmmPreparedPoolRefresh) : Decidable (Accepted engine token) :=
  inferInstanceAs (Decidable (_ = _))

/-- A token holds what the engine has for its pool when it is prepared. -/
theorem preparePoolRefresh_inv {engine : AmmSyncEngine} {pool : PoolInstanceId} {replacement : PoolRegistration}
    {token : AmmPreparedPoolRefresh} (hok : engine.preparePoolRefresh handlerId pool replacement = .ok token) :
    TokenOk handlerId token ∧ Accepted engine token ∧
      engine.registry.pool token.instance.key = some token.previousRegistration ∧ token.instance = pool ∧
      token.replacementRegistration = replacement := by
  simp only [AmmSyncEngine.preparePoolRefresh, bind_eq_ok] at hok
  obtain ⟨-, -, hok⟩ := hok
  split at hok
  · cases hok
  · rename_i previousRegistration hprevious
    simp only [bind_eq_ok, orError_eq_ok, ensure_eq_ok, newPoolOwnership] at hok
    obtain ⟨previousOwnership, hown, adapter, -, ownership, howner, -, -, hok⟩ := hok
    split_ifs at howner hok with hserves hkey
    obtain rfl := Except.ok.inj howner
    obtain rfl := pure_eq_ok.mp hok
    exact ⟨⟨rfl, rfl, rfl, rfl, rfl⟩, hown, hprevious, rfl, rfl⟩

/-- The effect of a refresh on every structure. -/
def refreshed (engine : AmmSyncEngine) (token : AmmPreparedPoolRefresh) : AmmSyncEngine :=
  { engine with
    registry := engine.registry.updatePool token.replacementRegistration
    routing := engine.routing.updatePool token.replacementRegistration
    ownership := (engine.ownership.replacePool token.replacementOwnership).2
    handlers := engine.handlers.insert token.replacementHandler.id token.replacementHandler
    degradedPoolCount := recount engine.degradedPoolCount token.previousRegistration.status
      token.replacementRegistration.status
    lifecycles :=
      if engine.lifecycles.pools.get token.instance = some .live then engine.lifecycles
      else engine.lifecycles.setPool token.instance .searchable }

theorem exchangeHandler_eq {engine : AmmSyncEngine} {token : AmmPreparedPoolRefresh}
    (hname : token.previousOwnership.handler = token.replacementHandler.id) (old : AmmPoolReactiveHandler) :
    AmmSyncEngine.exchangeHandler token old engine = (.ok (), { engine with
      handlers := engine.handlers.insert token.replacementHandler.id token.replacementHandler }) := by
  have hfree : (engine.handlers.remove token.previousOwnership.handler).contains token.replacementHandler.id = false := by
    rw [Map.contains_eq_false, hname, Map.get_remove_self]
  have hinsert : (engine.handlers.remove token.previousOwnership.handler).insert token.replacementHandler.id
      token.replacementHandler = engine.handlers.insert token.replacementHandler.id token.replacementHandler := by
    ext1 name
    rw [hname, Map.get_insert, Map.get_insert, Map.get_remove]
    split_ifs <;> rfl
  rw [AmmSyncEngine.exchangeHandler]
  simp only [registerHandler, hfree, Bool.false_eq_true, if_false]
  rw [hinsert]

/-- A refresh goes through whole where its token is accepted. -/
theorem commitPoolRefresh_of_accepted {engine : AmmSyncEngine} {token : AmmPreparedPoolRefresh} (h : Inv handlerId engine)
    (ht : TokenOk handlerId token) (haccepted : Accepted engine token) :
    AmmSyncEngine.commitPoolRefresh token engine = (.ok (), refreshed engine token) := by
  obtain ⟨r, hr⟩ := h.registered_of_owned ⟨_, haccepted⟩
  have hname : token.previousOwnership.handler = handlerId token.instance := h.handlerNames _ _ haccepted
  obtain ⟨old, hold, -⟩ := h.handler_of_owned haccepted
  have hfresh : ¬ (engine.ownership.activePools.get token.instance.key ≠ some token.instance ∨
      engine.ownership.pools.get token.instance ≠ some token.previousOwnership) := by
    rw [not_or, not_not, not_not]
    exact ⟨h.active_iff.mpr ⟨⟨_, haccepted⟩, rfl⟩, haccepted⟩
  have hpresent : ¬ (engine.registry.pool token.instance.key = none ∨ engine.routing.pool token.instance.key = none) := by
    rw [h.routing, hr]
    simp
  obtain ⟨ownership, hreplace⟩ := Ownership.replacePool_of h.ownership (ht.owner.symm ▸ haccepted)
    (hname.trans ht.ownerName.symm) ht.adapter.symm
  rw [AmmSyncEngine.commitPoolRefresh, if_neg hfresh, if_neg hpresent, hold]
  simp only [exchangeHandler_eq (hname.trans ht.handlerName.symm)]
  rw [AmmSyncEngine.commitRegistration]
  simp only [h.routing, hr, Option.isNone_some, Bool.false_eq_true, if_false, hreplace]
  rw [refreshed, h.routing, hreplace]
  rfl

/-- A refresh of a coherent engine is refused and changes nothing, or it goes through whole. -/
theorem commitPoolRefresh_cases {engine : AmmSyncEngine} {token : AmmPreparedPoolRefresh} (h : Inv handlerId engine)
    (ht : TokenOk handlerId token) :
    (∃ error, AmmSyncEngine.commitPoolRefresh token engine = (.error error, engine)) ∨
    Accepted engine token ∧ AmmSyncEngine.commitPoolRefresh token engine = (.ok (), refreshed engine token) := by
  by_cases haccepted : Accepted engine token
  · exact .inr ⟨haccepted, commitPoolRefresh_of_accepted h ht haccepted⟩
  · have hstale : engine.ownership.activePools.get token.instance.key ≠ some token.instance ∨
        engine.ownership.pools.get token.instance ≠ some token.previousOwnership := .inr haccepted
    exact .inl ⟨_, by rw [AmmSyncEngine.commitPoolRefresh]; exact if_pos hstale⟩

/-- Exchanging the ownership record and the handler of an owned pool. -/
theorem Inv.replaceOwnership {engine : AmmSyncEngine} (h : Inv handlerId engine) {token : AmmPreparedPoolRefresh}
    (ht : TokenOk handlerId token) (haccepted : Accepted engine token) :
    Inv handlerId { engine with
      ownership := (engine.ownership.replacePool token.replacementOwnership).2
      handlers := engine.handlers.insert token.replacementHandler.id token.replacementHandler } ∧
    Ownership.Forward (engine.ownership.replacePool token.replacementOwnership).2
      (engine.ownership.pools.insert token.instance token.replacementOwnership) engine.ownership.adapters := by
  obtain ⟨ownership, hreplace⟩ := Ownership.replacePool_of h.ownership (ht.owner.symm ▸ haccepted)
    ((h.handlerNames _ _ haccepted).trans ht.ownerName.symm) ht.adapter.symm
  have hforward := Ownership.forward_replacePool hreplace
  have hinv : ownership.Inv := by
    have hkept := h.ownership.replacePool token.replacementOwnership
    rwa [hreplace] at hkept
  rw [ht.owner] at hforward
  simp only [hreplace]
  have howned : ∀ p, (∃ o, ownership.pools.get p = some o) ↔ Owned engine p := fun p => by
    rw [hforward.pools]
    by_cases hp : p = token.instance
    · rw [hp, Map.get_insert_self]
      exact ⟨fun _ => ⟨_, haccepted⟩, fun _ => ⟨_, rfl⟩⟩
    · rw [Map.get_insert_of_ne hp]
      rfl
  have hnames : ∀ p o, ownership.pools.get p = some o → o.handler = handlerId p := fun p o ho => by
    rw [hforward.pools, Map.get_insert_eq_some] at ho
    rcases ho with ⟨rfl, rfl⟩ | ⟨-, ho⟩
    · exact ht.ownerName
    · exact h.handlerNames p o ho
  have hserves : ∀ p o, ownership.pools.get p = some o → p.key.protocol ∈ o.adapter.key.protocols := fun p o ho => by
    rw [hforward.pools, Map.get_insert_eq_some] at ho
    rcases ho with ⟨rfl, rfl⟩ | ⟨-, ho⟩
    · rw [ht.adapter]
      exact h.serves _ _ haccepted
    · exact h.serves p o ho
  have hhandlers : ∀ name p, (∃ handler,
      (engine.handlers.insert token.replacementHandler.id token.replacementHandler).get name = some handler ∧
      handler.instance = p) ↔ (∃ o, ownership.pools.get p = some o) ∧ handlerId p = name := fun name p => by
    rw [howned, ← h.handlers_iff, Map.get_insert, ht.handlerName]
    by_cases hname : name = handlerId token.instance
    · obtain ⟨old, hold, holdp⟩ := h.handler_of_owned haccepted
      rw [h.handlerNames _ _ haccepted] at hold
      rw [if_pos hname, hname, hold]
      simp only [Option.some.injEq, exists_eq_left', ht.handlerPool, holdp]
    · rw [if_neg hname]
  refine ⟨⟨{ h.toCoherent with
    ownership := hinv
    registered := fun key => ?_
    handlers := handlers_coherent hinv hnames hhandlers
    adapters := ?_
    lifecyclePools := fun p => (h.lifecyclePools p).trans (howned p).symm
    lifecycleAdapters := ?_ }, hnames, h.reservationKeys, h.reserved, h.poolLedger, h.adapterLedger,
    hserves⟩, hforward⟩
  · exact (h.registered key).trans (exists_congr fun p => and_congr_left fun _ => (howned p).symm)
  · rw [hforward.adapters]
    exact h.adapters
  · rw [hforward.adapters]
    exact h.lifecycleAdapters

/-- A refresh whose previous registration is the present one keeps the invariant. -/
theorem Inv.refreshed {engine : AmmSyncEngine} (h : Inv handlerId engine) {token : AmmPreparedPoolRefresh}
    (ht : TokenOk handlerId token) (haccepted : Accepted engine token)
    (hr : engine.registry.pool token.instance.key = some token.previousRegistration) :
    Inv handlerId (SyncManager.refreshed engine token) ∧ SameDomain engine (SyncManager.refreshed engine token) ∧
      Settled engine (SyncManager.refreshed engine token) := by
  have hr' : engine.registry.pool token.replacementRegistration.key = some token.previousRegistration := by
    rw [token.replacement_key, hr]
  have hmodified := (h.modifyPool hr' (fun _ => token.replacementRegistration) fun _ _ => rfl).replaceOwnership ht haccepted
  by_cases hlive : engine.lifecycles.pools.get token.instance = some .live
  · have hsame : (SyncManager.refreshed engine token).lifecycles = engine.lifecycles := if_pos hlive
    refine ⟨?_, ⟨fun _ => by rw [hsame], fun _ => by rw [hsame]⟩,
      fun pool state hs hne => ⟨state, by rw [hsame, hs], hne, id⟩⟩
    rw [SyncManager.refreshed, if_pos hlive]
    exact hmodified.1
  · have howned : ∃ o, (engine.ownership.replacePool token.replacementOwnership).2.pools.get token.instance = some o :=
      ⟨_, by rw [hmodified.2.pools, Map.get_insert_self]⟩
    obtain ⟨hinv, hdomain, hsettled⟩ := hmodified.1.setPool howned (by decide : _ ∧ PoolRuntimeState.searchable ≠ .queued)
    rw [SyncManager.refreshed, if_neg hlive]
    exact ⟨hinv, ⟨hdomain.pools, hdomain.adapters⟩, hsettled⟩

/-! ### One removed pool -/

/-- The effect of one removal on every structure. -/
def dropPool (handlerId : PoolInstanceId → HandlerId) (engine : AmmSyncEngine) (pool : PoolInstanceId) : AmmSyncEngine :=
  { engine.unregisterAll pool.key with
    ownership := (engine.ownership.removePool pool).2
    handlers := engine.handlers.remove (handlerId pool)
    degradedPoolCount :=
      if (engine.registry.pool pool.key).any (·.status = .degraded) then engine.degradedPoolCount - 1
      else engine.degradedPoolCount
    lifecycles := engine.lifecycles.setPool pool .removed }

/-- A removal keeps the invariant; what the engine owns is what it owned before, without the pool. -/
theorem Inv.dropPool {engine : AmmSyncEngine} (h : Inv handlerId engine) {pool : PoolInstanceId} (hp : Owned engine pool) :
    Inv handlerId (SyncManager.dropPool handlerId engine pool) ∧
      (∀ p, Owned (SyncManager.dropPool handlerId engine pool) p ↔ p ≠ pool ∧ Owned engine p) ∧
      SameDomain engine (SyncManager.dropPool handlerId engine pool) ∧
      Settled engine (SyncManager.dropPool handlerId engine pool) := by
  have hforward := @Ownership.forward_removePool engine.ownership pool
  have hinv : (engine.ownership.removePool pool).2.Inv := h.ownership.removePool pool
  obtain ⟨previous, hprevious, hactive⟩ := h.state_of_owned hp
  obtain ⟨r, hr⟩ := h.registered_of_owned hp
  have hstates : ∀ p, (engine.lifecycles.setPool pool .removed).pools.get p =
      if p = pool then some .removed else engine.lifecycles.pools.get p := fun p => Map.get_insert ..
  have howned : ∀ p, (∃ o, (engine.ownership.removePool pool).2.pools.get p = some o) ↔ p ≠ pool ∧ Owned engine p := by
    intro p
    rw [hforward.pools]
    simp only [Map.get_remove_eq_some, exists_and_left]
    rfl
  have hnames : ∀ p o, (engine.ownership.removePool pool).2.pools.get p = some o → o.handler = handlerId p := by
    intro p o ho
    rw [hforward.pools, Map.get_remove_eq_some] at ho
    exact h.handlerNames p o ho.2
  have hserves : ∀ p o, (engine.ownership.removePool pool).2.pools.get p = some o →
      p.key.protocol ∈ o.adapter.key.protocols := by
    intro p o ho
    rw [hforward.pools, Map.get_remove_eq_some] at ho
    exact h.serves p o ho.2
  have hhandlers : ∀ name p, (∃ handler, (engine.handlers.remove (handlerId pool)).get name = some handler ∧
      handler.instance = p) ↔ (∃ o, (engine.ownership.removePool pool).2.pools.get p = some o) ∧ handlerId p = name := by
    intro name p
    rw [howned]
    by_cases hname : name = handlerId pool
    · rw [hname, Map.get_remove_self]
      refine ⟨fun hheld => ?_, fun hother => ?_⟩
      · obtain ⟨_, hnone, -⟩ := hheld
        cases hnone
      -- Two owned pools of one handler name are the same pool.
      obtain ⟨⟨hne, ho⟩, hid⟩ := hother
      refine absurd ?_ hne
      obtain ⟨handler, hhandler, rfl⟩ := h.handlers_iff.mpr ⟨ho, hid⟩
      obtain ⟨handler', hhandler', rfl⟩ := h.handlers_iff.mpr ⟨hp, rfl⟩
      rw [Option.some.inj (hhandler.symm.trans hhandler')]
    · rw [Map.get_remove_of_ne hname, h.handlers_iff]
      refine and_congr_left fun hid => ⟨fun ho => ⟨fun heq => hname ?_, ho⟩, And.right⟩
      rw [← hid, heq]
  have hregistry := AdapterRegistry.pool_unregisterPool engine.registry pool.key
  refine ⟨⟨⟨hinv, ?_, ?_, handlers_coherent hinv hnames hhandlers, ?_, ?_, ?_, ?_, ?_⟩, hnames, h.reservationKeys, ?_, ?_,
    h.adapterLedger, hserves⟩, howned, ⟨?_, fun _ => .rfl⟩, ?_⟩
  · show engine.routing.unregisterPool pool.key = engine.registry.unregisterPool pool.key
    rw [h.routing]
  · intro key
    show (∃ r, (engine.registry.unregisterPool pool.key).pool key = some r) ↔
      ∃ p, (∃ o, (engine.ownership.removePool pool).2.pools.get p = some o) ∧ p.key = key
    simp only [hregistry, howned]
    by_cases hkey : key = pool.key
    · rw [if_pos hkey]
      refine ⟨fun hregistered => ?_, fun hother => ?_⟩
      · obtain ⟨_, hnone⟩ := hregistered
        cases hnone
      · obtain ⟨p, ⟨hne, ho⟩, hpkey⟩ := hother
        exact absurd (h.owned_unique ho hp (hpkey.trans hkey)) hne
    · rw [if_neg hkey, h.registered]
      refine exists_congr fun p => and_congr_left fun hpkey => (and_iff_right fun heq => hkey ?_).symm
      rw [← hpkey, heq]
  · intro key
    show _ ↔ ∃ adapter ∈ (engine.ownership.removePool pool).2.adapters, _
    rw [hforward.adapters]
    exact h.adapters key
  · intro p
    show (∃ state, (engine.lifecycles.setPool pool .removed).pools.get p = some state ∧ _) ↔
      ∃ o, (engine.ownership.removePool pool).2.pools.get p = some o
    rw [hstates, howned]
    by_cases heq : p = pool
    · rw [if_pos heq]
      refine ⟨fun hlive => ?_, fun hother => absurd heq hother.1⟩
      obtain ⟨_, hs, hne, -⟩ := hlive
      exact absurd (Option.some.inj hs).symm hne
    · rw [if_neg heq, h.lifecyclePools]
      exact ⟨fun ho => ⟨heq, ho⟩, And.right⟩
  · intro p
    show (engine.lifecycles.setPool pool .removed).pools.get p = some .queued ↔ p ∈ engine.reservations
    rw [hstates, ← h.lifecycleQueued]
    by_cases heq : p = pool
    · rw [if_pos heq, heq, hprevious]
      exact ⟨fun heq => (by cases heq), fun hq => absurd (Option.some.inj hq) hactive.2⟩
    · rw [if_neg heq]
  · intro adapter
    show _ ↔ adapter ∈ (engine.ownership.removePool pool).2.adapters
    rw [hforward.adapters]
    exact h.lifecycleAdapters adapter
  · show (if _ then _ else _) = degradedPools (engine.registry.unregisterPool pool.key)
    have hcount := AdapterRegistry.countP_unregisterPool engine.registry pool.key fun r => decide (r.status = .degraded)
    rw [h.degraded]
    split_ifs at hcount ⊢
    · exact (Nat.eq_sub_of_add_eq hcount).symm
    · exact hcount.symm
  · intro reserved hreserved
    obtain ⟨hnone, hlast⟩ := h.reserved reserved hreserved
    refine ⟨?_, hlast⟩
    show (engine.registry.unregisterPool pool.key).pool reserved.key = none
    rw [hregistry, hnone, ite_self]
  · intro p state hs
    have hs := (hstates p).symm.trans hs
    split_ifs at hs with heq
    · exact heq ▸ h.poolLedger pool previous hprevious
    · exact h.poolLedger p state hs
  · intro p
    show (engine.lifecycles.setPool pool .removed).pools.get p = none ↔ _
    rw [hstates]
    by_cases heq : p = pool
    · rw [if_pos heq, heq, hprevious]
      exact ⟨fun hnone => (by cases hnone), fun hnone => by cases hnone⟩
    · rw [if_neg heq]
  · intro p state hs hne
    by_cases heq : p = pool
    · exact ⟨.removed, (hstates p).trans (if_pos heq), fun hsame => (by cases hsame), fun _ => rfl⟩
    · exact ⟨state, (hstates p).trans ((if_neg heq).trans hs), hne, id⟩

theorem frame_dropPool {engine : AmmSyncEngine} (h : Inv handlerId engine) {pool : PoolInstanceId}
    (hp : Owned engine pool) : Frame engine (SyncManager.dropPool handlerId engine pool) := by
  intro p hbefore hafter
  have hne : p ≠ pool := (((h.dropPool hp).2.1 p).mp hafter).1
  constructor
  · show (engine.ownership.removePool pool).2.pools.get p = _
    rw [(Ownership.forward_removePool pool).pools, Map.get_remove_of_ne hne]
  · show (engine.registry.unregisterPool pool.key).pool p.key = _
    rw [AdapterRegistry.pool_unregisterPool, if_neg fun hkey => hne (h.owned_unique hbefore hp hkey)]

/-- Removing several pools that are owned, each once. -/
theorem Inv.dropPools {engine : AmmSyncEngine} (h : Inv handlerId engine) {pools : List PoolInstanceId}
    (hp : ∀ pool ∈ pools, Owned engine pool) (hnodup : pools.Nodup) :
    let after := pools.foldl (SyncManager.dropPool handlerId) engine
    Inv handlerId after ∧ (∀ p, Owned after p ↔ p ∉ pools ∧ Owned engine p) ∧ SameDomain engine after ∧
      Settled engine after ∧ Frame engine after := by
  induction pools generalizing engine with
  | nil => exact ⟨h, fun p => ⟨fun ho => ⟨List.not_mem_nil, ho⟩, And.right⟩, .refl _, .refl _, .refl _⟩
  | cons pool rest ih =>
    obtain ⟨hpool, hrest⟩ := List.nodup_cons.mp hnodup
    have hfirst := hp pool List.mem_cons_self
    obtain ⟨hinv, howned, hdomain, hsettled⟩ := h.dropPool hfirst
    have hkept : ∀ p ∈ rest, Owned (SyncManager.dropPool handlerId engine pool) p := fun p hmem =>
      (howned p).mpr ⟨fun heq => hpool (heq ▸ hmem), hp p (List.mem_cons_of_mem _ hmem)⟩
    obtain ⟨hinv', howned', hdomain', hsettled', hframe'⟩ := ih hinv hkept hrest
    refine ⟨hinv', fun p => ?_, hdomain.trans hdomain', hsettled.trans hsettled',
      Frame.trans h hinv hinv' hsettled hsettled' (frame_dropPool h hfirst) hframe'⟩
    rw [List.foldl_cons, howned', howned, List.mem_cons, not_or]
    exact ⟨fun ⟨hr, hne, ho⟩ => ⟨⟨hne, hr⟩, ho⟩, fun ⟨⟨hne, hr⟩, ho⟩ => ⟨hr, hne, ho⟩⟩

/-! ### Removing pools -/

/-- A removal that fits the engine. -/
def Removable (handlerId : PoolInstanceId → HandlerId) (engine : AmmSyncEngine) (pool : AmmSyncEngine.PreparedRemoval) :
    Prop := Owned engine pool.instance ∧ pool.handler = handlerId pool.instance

theorem prepareRemoval_inv {engine : AmmSyncEngine} (h : Inv handlerId engine) {key : PoolKey}
    {prepared : Option AmmSyncEngine.PreparedRemoval} (hok : engine.prepareRemoval key = .ok prepared) :
    prepared.map (·.instance) = engine.ownership.activePools.get key ∧
      ∀ pool, prepared = some pool → Removable handlerId engine pool ∧ pool.instance.key = key := by
  unfold AmmSyncEngine.prepareRemoval at hok
  cases hactive : engine.ownership.activePools.get key with
  | none =>
    rw [hactive] at hok
    obtain rfl := Except.ok.inj hok
    exact ⟨rfl, nofun⟩
  | some pool =>
    simp only [hactive, bind_eq_ok, orError_eq_ok, ensure_eq_ok, pure_eq_ok] at hok
    obtain ⟨ownership, hown, -, -, -, -, lifecycle, -, rfl⟩ := hok
    refine ⟨rfl, fun p hp => ?_⟩
    obtain rfl := Option.some.inj hp
    exact ⟨⟨⟨ownership, hown⟩, h.handlerNames _ _ hown⟩, (h.active_iff.mp hactive).2⟩

theorem removals_inv {engine : AmmSyncEngine} (h : Inv handlerId engine) {keys : List PoolKey}
    {prepared : List (Option AmmSyncEngine.PreparedRemoval)}
    (hall : List.Forall₂ (fun key removal => engine.prepareRemoval key = .ok removal) keys prepared) :
    (∀ pool ∈ prepared.reduceOption, Removable handlerId engine pool ∧ pool.instance.key ∈ keys) ∧
      (keys.Nodup → (prepared.reduceOption.map (·.instance)).Nodup) ∧
      ∀ pool, Owned engine pool → pool.key ∈ keys → pool ∈ prepared.reduceOption.map (·.instance) := by
  induction hall with
  | nil => exact ⟨fun _ hp => absurd hp List.not_mem_nil, fun _ => .nil, fun _ _ hk => absurd hk List.not_mem_nil⟩
  | @cons key removal keys prepared hhead _ ih =>
    obtain ⟨hremovable, hnodup, howned⟩ := ih
    obtain ⟨hactive, hfirst⟩ := prepareRemoval_inv h hhead
    cases removal with
    | none =>
      rw [List.reduceOption_cons_of_none]
      refine ⟨fun pool hp => ⟨(hremovable pool hp).1, List.mem_cons_of_mem _ (hremovable pool hp).2⟩,
        fun hn => hnodup (List.nodup_cons.mp hn).2, fun pool ho hk => ?_⟩
      rcases List.mem_cons.mp hk with hkey | hk
      · rw [h.active_iff.mpr ⟨ho, hkey⟩] at hactive
        cases hactive
      · exact howned pool ho hk
    | some removal =>
      obtain ⟨hr, hkey⟩ := hfirst removal rfl
      rw [List.reduceOption_cons_of_some]
      refine ⟨fun pool hp => ?_, fun hn => ?_, fun pool ho hk => ?_⟩
      · rcases List.mem_cons.mp hp with rfl | hp
        · exact ⟨hr, hkey ▸ List.mem_cons_self⟩
        · exact ⟨(hremovable pool hp).1, List.mem_cons_of_mem _ (hremovable pool hp).2⟩
      · obtain ⟨hnot, hn⟩ := List.nodup_cons.mp hn
        refine List.nodup_cons.mpr ⟨fun hmem => hnot ?_, hnodup hn⟩
        obtain ⟨other, ho, heq⟩ := List.mem_map.mp hmem
        rw [← hkey, ← show other.instance = removal.instance from heq]
        exact (hremovable other ho).2
      · rcases List.mem_cons.mp hk with hpkey | hk
        · exact List.mem_cons.mpr (.inl (h.owned_unique ho hr.1 (hpkey.trans hkey.symm)))
        · exact List.mem_cons_of_mem _ (howned pool ho hk)

theorem prepareRemovals_inv {engine : AmmSyncEngine} (h : Inv handlerId engine) {keys : List PoolKey}
    {prepared : List AmmSyncEngine.PreparedRemoval} (hok : engine.prepareRemovals keys = .ok prepared) :
    (∀ pool ∈ prepared, Removable handlerId engine pool ∧ pool.instance.key ∈ keys) ∧ (prepared.map (·.instance)).Nodup ∧
      ∀ pool, Owned engine pool → pool.key ∈ keys → pool ∈ prepared.map (·.instance) := by
  simp only [AmmSyncEngine.prepareRemovals, bind_eq_ok, mapM_eq_ok, ensure_eq_ok, pure_eq_ok] at hok
  obtain ⟨prepared, hall, -, -, -, -, rfl⟩ := hok
  obtain ⟨hremovable, hnodup, howned⟩ := removals_inv h hall
  exact ⟨fun pool hp => ⟨(hremovable pool hp).1, (mem_sortDedup_iff _).mp (hremovable pool hp).2⟩,
    hnodup (nodup_sortDedup _ PoolKey.rank_injective _),
    fun pool ho hk => howned pool ho ((mem_sortDedup_iff _).mpr hk)⟩

/-- The handlers of a batch of removals are all there, and are all removed. -/
theorem removeHandlers_eq {prepared rest : List AmmSyncEngine.PreparedRemoval} (removed : List AmmPoolReactiveHandler)
    {engine : AmmSyncEngine} (hpresent : ∀ pool ∈ rest, ∃ handler, engine.handlers.get pool.handler = some handler)
    (hnodup : (rest.map (·.handler)).Nodup) :
    AmmSyncEngine.removeHandlers prepared removed rest engine = (.ok (), { engine with
      handlers := rest.foldl (fun handlers pool => handlers.remove pool.handler) engine.handlers }) := by
  induction rest generalizing removed engine with
  | nil => rfl
  | cons pool rest ih =>
    obtain ⟨hpool, hrest⟩ := List.nodup_cons.mp hnodup
    obtain ⟨handler, hhandler⟩ := hpresent pool List.mem_cons_self
    rw [AmmSyncEngine.removeHandlers, hhandler]
    simp only []
    rw [ih (removed ++ [handler]) _ hrest]
    · rfl
    · intro other ho
      obtain ⟨handler, hhandler⟩ := hpresent other (List.mem_cons_of_mem _ ho)
      exact ⟨handler, (Map.get_remove_of_ne fun heq => hpool (List.mem_map.mpr ⟨other, ho, heq⟩)).trans hhandler⟩

/-- Taking pools out one after another, with handlers and lifecycles set apart. -/
theorem foldl_detachPool (handlerId : PoolInstanceId → HandlerId) (prepared : List AmmSyncEngine.PreparedRemoval)
    (engine : AmmSyncEngine) (handlers : Map HandlerId AmmPoolReactiveHandler) (lifecycles : RuntimeLifecycleMap) :
    prepared.foldl AmmSyncEngine.detachPool { engine with handlers, lifecycles } =
      { (prepared.map (·.instance)).foldl (dropPool handlerId) engine with
        handlers
        lifecycles := (prepared.map (·.instance)).foldl
          (fun lifecycles pool => lifecycles.setPool pool .removed) lifecycles } := by
  induction prepared generalizing engine lifecycles with
  | nil => rfl
  | cons pool rest ih =>
    rw [List.map_cons, List.foldl_cons, List.foldl_cons, List.foldl_cons, ← ih]
    rfl

theorem handlers_dropPool (pools : List PoolInstanceId) (engine : AmmSyncEngine) :
    (pools.foldl (dropPool handlerId) engine).handlers =
      pools.foldl (fun handlers pool => handlers.remove (handlerId pool)) engine.handlers := by
  induction pools generalizing engine with
  | nil => rfl
  | cons pool rest ih => exact ih (dropPool handlerId engine pool)

theorem lifecycles_dropPool (pools : List PoolInstanceId) (engine : AmmSyncEngine) :
    (pools.foldl (dropPool handlerId) engine).lifecycles =
      pools.foldl (fun lifecycles pool => lifecycles.setPool pool .removed) engine.lifecycles := by
  induction pools generalizing engine with
  | nil => rfl
  | cons pool rest ih => exact ih (dropPool handlerId engine pool)

theorem foldl_setPool (pools : List PoolInstanceId) (state : PoolRuntimeState) (lifecycles : RuntimeLifecycleMap) :
    pools.foldl (fun lifecycles pool => lifecycles.setPool pool state) lifecycles =
      ⟨fun pool => if pool ∈ pools then some state else lifecycles.pools.get pool, lifecycles.adapters⟩ := by
  induction pools generalizing lifecycles with
  | nil => simp [Map.get]
  | cons pool rest ih =>
    rw [List.foldl_cons, ih]
    refine congrArg (RuntimeLifecycleMap.mk · _) (funext fun p => ?_)
    rw [RuntimeLifecycleMap.setPool]
    simp only [Map.get_insert, List.mem_cons]
    by_cases hp : p ∈ rest <;> by_cases heq : p = pool <;> simp [hp, heq]

/-- Removals are all done, or none of them. -/
theorem removePools_cases {engine : AmmSyncEngine} (h : Inv handlerId engine) (keys : List PoolKey) :
    (∃ error, engine.removePools keys = (.error error, engine)) ∨
    ∃ pools, (∀ pool, pool ∈ pools ↔ Owned engine pool ∧ pool.key ∈ keys) ∧ pools.Nodup ∧
      engine.removePools keys = (.ok pools, pools.foldl (dropPool handlerId) engine) := by
  cases hprepared : engine.prepareRemovals keys with
  | error error => exact .inl ⟨error, by rw [AmmSyncEngine.removePools, hprepared]⟩
  | ok prepared =>
    obtain ⟨hremovable, hnodup, hall⟩ := prepareRemovals_inv h hprepared
    have howned : ∀ pool ∈ prepared.map (·.instance), Owned engine pool ∧ pool.key ∈ keys := by
      intro pool hp
      obtain ⟨removal, hr, rfl⟩ := List.mem_map.mp hp
      exact ⟨(hremovable removal hr).1.1, (hremovable removal hr).2⟩
    refine .inr ⟨prepared.map (·.instance), fun pool => ⟨howned pool, fun hp => hall pool hp.1 hp.2⟩, hnodup, ?_⟩
    have hnames : prepared.map (·.handler) = (prepared.map (·.instance)).map handlerId := by
      rw [List.map_map]
      exact List.map_congr_left fun pool hp => (hremovable pool hp).1.2
    have hdistinct : (prepared.map (·.handler)).Nodup := by
      rw [hnames]
      refine hnodup.map_on fun a ha b hb heq => ?_
      obtain ⟨handler, hhandler, rfl⟩ := h.handlers_iff.mpr ⟨(howned a ha).1, heq⟩
      obtain ⟨handler', hhandler', rfl⟩ := h.handlers_iff.mpr ⟨(howned b hb).1, rfl⟩
      rw [Option.some.inj (hhandler.symm.trans hhandler')]
    have hpresent : ∀ pool ∈ prepared, ∃ handler, engine.handlers.get pool.handler = some handler := fun pool hp => by
      obtain ⟨⟨⟨o, ho⟩, hname⟩, -⟩ := hremovable pool hp
      obtain ⟨handler, hhandler, -⟩ := h.handler_of_owned ho
      exact ⟨handler, by rw [hname, ← h.handlerNames _ _ ho, hhandler]⟩
    have hhandlers : prepared.foldl (fun handlers pool => handlers.remove pool.handler) engine.handlers =
        (prepared.map (·.instance)).foldl (fun handlers pool => handlers.remove (handlerId pool)) engine.handlers := by
      have hfold : (prepared.map (·.handler)).foldl (fun handlers name => handlers.remove name) engine.handlers =
          prepared.foldl (fun handlers pool => handlers.remove pool.handler) engine.handlers := by rw [List.foldl_map]
      rw [← hfold, hnames, List.foldl_map]
    have hlifecycles : (prepared.map (·.instance)).foldl (fun lifecycles pool => lifecycles.setPool pool .removed)
        (prepared.foldl (fun lifecycles pool => lifecycles.setPool pool.instance .removing) engine.lifecycles) =
        (prepared.map (·.instance)).foldl (fun lifecycles pool => lifecycles.setPool pool .removed) engine.lifecycles := by
      have hremoving : prepared.foldl (fun lifecycles pool => lifecycles.setPool pool.instance
          .removing) engine.lifecycles =
          (prepared.map (·.instance)).foldl (fun lifecycles pool => lifecycles.setPool pool .removing)
            engine.lifecycles := by
        rw [List.foldl_map]
      rw [hremoving, foldl_setPool, foldl_setPool, foldl_setPool]
      refine congrArg (RuntimeLifecycleMap.mk · _) (funext fun p => ?_)
      by_cases hp : p ∈ prepared.map (·.instance)
      · rw [if_pos hp, if_pos hp]
      · rw [if_neg hp, if_neg hp]
        exact if_neg hp
    rw [AmmSyncEngine.removePools, hprepared]
    simp only [AmmSyncEngine.commitRemovals]
    rw [removeHandlers_eq]
    · simp only []
      rw [foldl_detachPool handlerId prepared engine, hhandlers, hlifecycles, ← handlers_dropPool, ← lifecycles_dropPool]
    · exact hpresent
    · exact hdistinct

theorem Inv.removePools {engine : AmmSyncEngine} (h : Inv handlerId engine) (keys : List PoolKey) :
    Sound handlerId engine (engine.removePools keys) ∧ Frame engine (engine.removePools keys).2 := by
  rcases removePools_cases h keys with ⟨error, herror⟩ | ⟨pools, howned, hnodup, hok⟩
  · rw [herror]
    exact ⟨.unchanged h rfl, .refl engine⟩
  · rw [hok]
    obtain ⟨hinv, -, hdomain, hsettled, hframe⟩ := h.dropPools (fun pool hp => ((howned pool).mp hp).1) hnodup
    exact ⟨⟨hinv, nofun, hdomain.grows, hsettled⟩, hframe⟩

end AmmState.SyncManager
