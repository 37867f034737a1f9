import AmmState.Eviction
import AmmState.Theorems.Recovery
import Mathlib.Data.List.ReduceOption

/-! What evictions purge. The reverse indexes that a purge consults are the image of the owned pools in every engine that a
    run reaches, so a purge spares what any remaining pool depends on; a removal purges exactly what only its pools had, and
    the fences that later ingests purge again are those of removals that no later event has retired. -/

namespace AmmState
open ReverseIndex SortDedup Checked

/-! ### The indexes behind a purge -/

namespace AmmOwnershipIndex

/-- The part of the invariant of an index that purges rest on. -/
structure Images (x : AmmOwnershipIndex) : Prop where
  addressPools : PoolImage x x.addressPools fun o a => a ∈ o.dependencies.associatedAddresses
  wholeAccountPools : PoolImage x x.wholeAccountPools fun o a => a ∈ o.dependencies.wholeAccounts
  slotPools : PoolImage x x.slotPools fun o s => s ∈ o.dependencies.slots
  activePools : ∀ k p, x.activePools.get k = some p → p.key = k

/-- A pool of the index depends on a slot: it names the slot, or the whole account. -/
def Depends (x : AmmOwnershipIndex) (slot : StateSlot) : Prop :=
  ∃ p o, x.pools.get p = some o ∧ (slot ∈ o.dependencies.slots ∨ slot.address ∈ o.dependencies.wholeAccounts)

/-- A pool of the index has state at an address. -/
def Associated (x : AmmOwnershipIndex) (address : Address) : Prop :=
  ∃ p o, x.pools.get p = some o ∧ address ∈ o.dependencies.associatedAddresses

variable {x y : AmmOwnershipIndex}

theorem Depends.associated {slot : StateSlot} (h : x.Depends slot) : x.Associated slot.address := by
  obtain ⟨p, o, hpool, hslot | haccount⟩ := h
  · exact ⟨p, o, hpool, o.dependencies.slots_associated slot hslot⟩
  · exact ⟨p, o, hpool, o.dependencies.whole_associated _ haccount⟩

theorem Depends.congr (h : y.pools = x.pools) {slot : StateSlot} : y.Depends slot ↔ x.Depends slot := by
  rw [Depends, Depends, h]

theorem Associated.congr (h : y.pools = x.pools) {address : Address} : y.Associated address ↔ x.Associated address := by
  rw [Associated, Associated, h]

namespace Images

theorem poolsForAddress_eq_nil (h : Images x) {address : Address} : x.poolsForAddress address = [] ↔
    ¬x.Associated address := by
  rw [List.eq_nil_iff_forall_not_mem]
  simp only [mem_poolsForAddress, h.addressPools.2, Associated]
  exact ⟨fun h ⟨p, hp⟩ => h p hp, fun h p hp => h ⟨p, hp⟩⟩

theorem poolsForSlot_eq_nil (h : Images x) {slot : StateSlot} : x.poolsForSlot slot = [] ↔ ¬x.Depends slot := by
  rw [List.eq_nil_iff_forall_not_mem]
  simp only [AmmOwnershipIndex.mem_poolsForSlot, h.slotPools.2, h.wholeAccountPools.2, Depends]
  constructor
  · rintro hnone ⟨p, o, hpool, hslot | haccount⟩
    · exact hnone p (.inl ⟨o, hpool, hslot⟩)
    · exact hnone p (.inr ⟨o, hpool, haccount⟩)
  · rintro hnone p (⟨o, hpool, hslot⟩ | ⟨o, hpool, haccount⟩)
    · exact hnone ⟨p, o, hpool, .inl hslot⟩
    · exact hnone ⟨p, o, hpool, .inr haccount⟩

theorem empty : Images empty :=
  ⟨inv_empty.addressPools, inv_empty.wholeAccountPools, inv_empty.slotPools, nofun⟩

theorem congr (h : Images x) (hsame : SyncManager.TargetedEngine.SameDependencies x y)
    (hactive : y.activePools = x.activePools) : Images y where
  addressPools := hsame.addressPools ▸ h.addressPools.congr hsame.pools
  wholeAccountPools := hsame.wholeAccountPools ▸ h.wholeAccountPools.congr hsame.pools
  slotPools := hsame.slotPools ▸ h.slotPools.congr hsame.pools
  activePools := hactive ▸ h.activePools

theorem insertAdapter (h : Images x) (adapter : AdapterInstanceId) : Images (insertAdapter adapter x).2 := by
  rcases insertAdapter_inv adapter x with ⟨e, he⟩ | ⟨-, he⟩ <;> rw [he]
  · exact h
  · exact h.congr ⟨rfl, rfl, rfl, rfl⟩ rfl

theorem insertPool (h : Images x) (o : PoolOwnership) : Images (insertPool o x).2 := by
  rcases insertPool_inv o x with ⟨e, he⟩ | ⟨-, -, hfresh, -, he⟩ <;> rw [he]
  · exact h
  · exact {
      addressPools := h.addressPools.insert hfresh rfl (noEmpty_insertOwners h.addressPools.1) fun _ _ => owns_insertOwners
      wholeAccountPools := h.wholeAccountPools.insert hfresh rfl (noEmpty_insertOwners h.wholeAccountPools.1)
        fun _ _ => owns_insertOwners
      slotPools := h.slotPools.insert hfresh rfl (noEmpty_insertOwners h.slotPools.1) fun _ _ => owns_insertOwners
      activePools := fun k p hactive => by
        rcases Map.get_insert_eq_some.mp hactive with ⟨hk, hp⟩ | ⟨-, hactive⟩
        · rw [← hp, hk]
        · exact h.activePools k p hactive }

theorem replacePool (h : Images x) (o : PoolOwnership) : Images (replacePool o x).2 := by
  rcases replacePool_inv o x with ⟨e, he⟩ | ⟨previous, hprevious, -, -, he⟩ <;> rw [he]
  · exact h
  · have hmoves : ∀ {K : Type} [DecidableEq K] {m : ReverseIndex K PoolInstanceId} {old new : List K} {k : K}
        {q : PoolInstanceId}, Owns (insertOwners (removeOwners m old o.instance) new o.instance) k q ↔
        (Owns m k q ∧ ¬(k ∈ old ∧ q = o.instance)) ∨ (k ∈ new ∧ q = o.instance) := by
      intro K _ m old new k q
      rw [owns_insertOwners, owns_removeOwners]
    exact {
      addressPools := h.addressPools.replace hprevious rfl
        (noEmpty_insertOwners (noEmpty_removeOwners h.addressPools.1)) fun _ _ => hmoves
      wholeAccountPools := h.wholeAccountPools.replace hprevious rfl
        (noEmpty_insertOwners (noEmpty_removeOwners h.wholeAccountPools.1)) fun _ _ => hmoves
      slotPools := h.slotPools.replace hprevious rfl
        (noEmpty_insertOwners (noEmpty_removeOwners h.slotPools.1)) fun _ _ => hmoves
      activePools := h.activePools }

theorem removePool (h : Images x) (pool : PoolInstanceId) : Images (removePool pool x).2 := by
  unfold AmmOwnershipIndex.removePool
  split
  · exact h
  rename_i ownership hpool
  exact {
    addressPools := h.addressPools.remove hpool rfl (noEmpty_removeOwners h.addressPools.1) fun _ _ => owns_removeOwners
    wholeAccountPools := h.wholeAccountPools.remove hpool rfl (noEmpty_removeOwners h.wholeAccountPools.1)
      fun _ _ => owns_removeOwners
    slotPools := h.slotPools.remove hpool rfl (noEmpty_removeOwners h.slotPools.1) fun _ _ => owns_removeOwners
    activePools := fun k p hactive => by
      refine h.activePools k p ?_
      simp only [unindexResources] at hactive
      split_ifs at hactive
      · exact (Map.get_remove_eq_some.mp hactive).2
      · exact hactive }

theorem removeAdapterPrevalidated (h : Images x) (adapter : AdapterInstanceId) :
    Images (removeAdapterPrevalidated adapter x).2 := by
  unfold AmmOwnershipIndex.removeAdapterPrevalidated
  split
  · exact h
  · exact h.congr ⟨rfl, rfl, rfl, rfl⟩ rfl

end Images

/-- The pools after one is taken out. -/
theorem pools_removePool (pool : PoolInstanceId) (x : AmmOwnershipIndex) :
    (removePool pool x).2.pools = x.pools.remove pool := by
  unfold removePool
  split
  · next hnone =>
    refine Map.ext fun p => ?_
    by_cases hp : p = pool
    · subst hp
      rw [Map.get_remove_self, hnone]
    · rw [Map.get_remove_of_ne hp]
  · rfl

end AmmOwnershipIndex

/-! ### The operations of the engine -/

namespace SyncManager
open AmmOwnershipIndex (Images)

section
variable {engine : AmmSyncEngine}

theorem ownership_registerHandlers (installed : List HandlerId) (prepared : List PreparedPoolAddition)
    (engine : AmmSyncEngine) : (AmmSyncEngine.registerHandlers installed prepared engine).2.ownership =
      engine.ownership := by
  induction prepared generalizing installed engine with
  | nil => rfl
  | cons pool rest ih =>
    rw [AmmSyncEngine.registerHandlers]
    split
    · rfl
    · exact ih _ _

theorem images_rollbackAddedPools (h : Images engine.ownership) (committed : List PoolInstanceId)
    (handlers : List HandlerId) : Images (AmmSyncEngine.rollbackAddedPools committed handlers engine).ownership := by
  rw [AmmSyncEngine.rollbackAddedPools, AmmSyncEngine.unregisterHandlers]
  induction committed with
  | nil => exact h
  | cons pool rest ih => exact ih.removePool pool

theorem images_installPool (h : Images engine.ownership) (pool : PreparedPoolAddition) :
    Images (AmmSyncEngine.installPool pool engine).2.ownership := by
  unfold AmmSyncEngine.installPool
  split
  · exact h
  split
  · exact h
  have hinsert := h.insertPool pool.ownership
  split
  · exact h
  · next heq =>
    rw [heq] at hinsert
    exact hinsert

theorem images_installPools (handlers : List HandlerId) (prepared : List PreparedPoolAddition)
    (committed : List PoolInstanceId) (h : Images engine.ownership) :
    Images (AmmSyncEngine.installPools handlers committed prepared engine).2.ownership := by
  induction prepared generalizing committed engine with
  | nil => exact h
  | cons pool rest ih =>
    have hpool := images_installPool h pool
    rw [AmmSyncEngine.installPools]
    split
    · next heq =>
      rw [heq] at hpool
      exact images_rollbackAddedPools hpool committed handlers
    · next heq =>
      rw [heq] at hpool
      exact ih _ hpool

theorem ownership_adoptLifecycle (prepared : List PreparedPoolAddition) (engine : AmmSyncEngine) :
    (prepared.foldl AmmSyncEngine.adoptLifecycle engine).ownership = engine.ownership := by
  induction prepared generalizing engine with
  | nil => rfl
  | cons pool rest ih => exact ih _

theorem images_commitPreparedPoolAdditions (h : Images engine.ownership) (prepared : List PreparedPoolAddition) :
    Images (AmmSyncEngine.commitPreparedPoolAdditions prepared engine).2.ownership := by
  have hregistered := ownership_registerHandlers [] prepared engine
  unfold AmmSyncEngine.commitPreparedPoolAdditions
  split
  · next heq =>
    rw [heq] at hregistered
    exact hregistered ▸ h
  · next heq =>
    rw [heq] at hregistered
    have hinstalled := images_installPools (prepared.map (·.ownership.handler)) prepared [] (hregistered ▸ h)
    split
    · next heq =>
      rw [heq] at hinstalled
      exact hinstalled
    · next heq =>
      rw [heq] at hinstalled
      exact (ownership_adoptLifecycle prepared _).symm ▸ hinstalled

section
variable (handlerId : PoolInstanceId → HandlerId)

theorem images_addPools (h : Images engine.ownership) (registrations : List PoolRegistration) :
    Images (AmmSyncEngine.addPools handlerId registrations engine).2.ownership := by
  unfold AmmSyncEngine.addPools
  split
  · exact h
  · exact images_commitPreparedPoolAdditions h _

theorem images_commitPoolReservation (h : Images engine.ownership) (reserved : PoolInstanceId)
    (registration : PoolRegistration) :
    Images (AmmSyncEngine.commitPoolReservation handlerId reserved registration engine).2.ownership := by
  unfold AmmSyncEngine.commitPoolReservation
  split
  · exact h
  · next prepared _ =>
    have hcommitted := images_commitPreparedPoolAdditions h [prepared]
    split
    · next heq =>
      rw [heq] at hcommitted
      exact hcommitted
    · next heq =>
      rw [heq] at hcommitted
      exact hcommitted

/-- A fresh index of a registry. -/
theorem images_ownershipForRegistry {registry : AdapterRegistry} {previous : RuntimeGenerationLedger}
    {built : AmmOwnershipIndex × RuntimeGenerationLedger}
    (hok : ownershipForRegistry handlerId registry previous = .ok built) : Images built.1 := by
  obtain ⟨acc, hfamilies, hpools⟩ := bind_eq_ok.mp hok
  have hadopt : ∀ {α : Type} {outcome : AmmOwnershipIndex.Outcome α} {x : AmmOwnershipIndex},
      adopt outcome = .ok x → outcome.2 = x := by
    rintro α ⟨_ | a, y⟩ x h
    · cases h
    · exact Except.ok.inj h
  have hacc : Images acc.1 := by
    refine foldlM_induct (fun _ (acc : AmmOwnershipIndex × RuntimeGenerationLedger) => Images acc.1) hfamilies .empty ?_
    intro _ key acc acc' _ hacc hstep
    simp only [insertFamily, bind_eq_ok, pure_eq_ok] at hstep
    obtain ⟨generation, -, ownership, hadopted, rfl⟩ := hstep
    exact hadopt hadopted ▸ hacc.insertAdapter _
  refine foldlM_induct (fun _ (acc : AmmOwnershipIndex × RuntimeGenerationLedger) => Images acc.1) hpools hacc ?_
  intro _ pool acc acc' _ hacc hstep
  simp only [insertRegistered, bind_eq_ok, pure_eq_ok] at hstep
  obtain ⟨_, -, _, -, _, -, owned, -, ownership, hadopted, rfl⟩ := hstep
  exact hadopt hadopted ▸ hacc.insertPool _

theorem images_withConfig {registry : AdapterRegistry} (hok : AmmSyncEngine.withConfig handlerId registry = .ok engine) :
    Images engine.ownership := by
  simp only [AmmSyncEngine.withConfig, bind_eq_ok, pure_eq_ok] at hok
  obtain ⟨built, hbuilt, handlers, -, rfl⟩ := hok
  exact images_ownershipForRegistry handlerId hbuilt

theorem images_replaceRegistry (h : Images engine.ownership) (registry : AdapterRegistry) :
    Images (AmmSyncEngine.replaceRegistry handlerId registry engine).2.ownership := by
  unfold AmmSyncEngine.replaceRegistry
  split
  · exact h
  · next hok =>
    simp only [AmmSyncEngine.replaced, bind_eq_ok, pure_eq_ok] at hok
    obtain ⟨-, -, built, hbuilt, handlers, -, rfl⟩ := hok
    exact images_ownershipForRegistry handlerId hbuilt

end

theorem ownership_reservePoolGeneration (key : PoolKey) (engine : AmmSyncEngine) :
    (AmmSyncEngine.reservePoolGeneration key engine).2.ownership = engine.ownership := by
  unfold AmmSyncEngine.reservePoolGeneration
  split <;> rfl

theorem ownership_cancelPoolReservation (reserved : PoolInstanceId) (engine : AmmSyncEngine) :
    (AmmSyncEngine.cancelPoolReservation reserved engine).2.ownership = engine.ownership := by
  unfold AmmSyncEngine.cancelPoolReservation
  split <;> rfl

theorem ownership_acknowledgeLiveDelivery (pools : List PoolInstanceId) (engine : AmmSyncEngine) :
    (AmmSyncEngine.acknowledgeLiveDelivery pools engine).2.ownership = engine.ownership := by
  unfold AmmSyncEngine.acknowledgeLiveDelivery
  split <;> rfl

theorem ownership_restoreHandler (old : AmmPoolReactiveHandler) (reason : String) (error : AmmSyncError)
    (engine : AmmSyncEngine) : (AmmSyncEngine.restoreHandler old reason error engine).2.ownership = engine.ownership := by
  unfold AmmSyncEngine.restoreHandler
  split <;> rfl

theorem ownership_exchangeHandler (prepared : AmmPreparedPoolRefresh) (old : AmmPoolReactiveHandler)
    (engine : AmmSyncEngine) : (AmmSyncEngine.exchangeHandler prepared old engine).2.ownership = engine.ownership := by
  unfold AmmSyncEngine.exchangeHandler
  dsimp only
  split
  · exact ownership_restoreHandler ..
  · rfl

theorem images_commitRegistration (h : Images engine.ownership) (prepared : AmmPreparedPoolRefresh)
    (old : AmmPoolReactiveHandler) : Images (AmmSyncEngine.commitRegistration prepared old engine).2.ownership := by
  unfold AmmSyncEngine.commitRegistration AmmSyncEngine.rollbackRefresh
  dsimp only
  have hreplace := h.replacePool prepared.replacementOwnership
  split
  · rw [ownership_restoreHandler]
    exact h
  split
  · rw [ownership_restoreHandler]
    exact h
  · next heq =>
    rw [heq] at hreplace
    exact hreplace

theorem images_commitPoolRefresh (h : Images engine.ownership) (prepared : AmmPreparedPoolRefresh) :
    Images (AmmSyncEngine.commitPoolRefresh prepared engine).2.ownership := by
  unfold AmmSyncEngine.commitPoolRefresh
  dsimp only
  split_ifs
  · exact h
  · exact h
  split
  · exact h
  next old _ =>
  have hexchange := ownership_exchangeHandler prepared old engine
  split
  · next heq =>
    rw [heq] at hexchange
    exact hexchange ▸ h
  · next heq =>
    rw [heq] at hexchange
    have hcommit := images_commitRegistration (hexchange ▸ h) prepared old
    split
    · next heq =>
      rw [heq] at hcommit
      exact hcommit
    · next heq =>
      rw [heq] at hcommit
      exact hcommit

theorem images_addAdapter (h : Images engine.ownership) (adapter : AmmAdapter) :
    Images (AmmSyncEngine.addAdapter adapter engine).2.ownership := by
  unfold AmmSyncEngine.addAdapter
  split
  · exact h
  next generation _ =>
  split
  · exact h
  split
  · exact h
  have hinsert := h.insertAdapter ⟨adapter.key, generation⟩
  split
  · exact h
  · next heq =>
    rw [heq] at hinsert
    exact hinsert

theorem images_removeAdapter (h : Images engine.ownership) (protocol : ProtocolId) :
    Images (AmmSyncEngine.removeAdapter protocol engine).2.ownership := by
  unfold AmmSyncEngine.removeAdapter
  split
  · exact h
  split
  · exact h
  · exact h.removeAdapterPrevalidated _

/-! ### Removals -/

theorem ownership_restoreHandlers (handlers : List AmmPoolReactiveHandler) (engine : AmmSyncEngine) :
    (AmmSyncEngine.restoreHandlers handlers engine).2.ownership = engine.ownership := by
  induction handlers generalizing engine with
  | nil => rfl
  | cons handler rest ih =>
    rw [AmmSyncEngine.restoreHandlers]
    split
    · rfl
    · exact ih _

theorem ownership_removeHandlers (prepared : List AmmSyncEngine.PreparedRemoval) (removed : List AmmPoolReactiveHandler)
    (rest : List AmmSyncEngine.PreparedRemoval) (engine : AmmSyncEngine) :
    (AmmSyncEngine.removeHandlers prepared removed rest engine).2.ownership = engine.ownership := by
  induction rest generalizing removed engine with
  | nil => rfl
  | cons pool rest ih =>
    rw [AmmSyncEngine.removeHandlers]
    split
    · have hrestored := ownership_restoreHandlers removed engine
      unfold AmmSyncEngine.rollbackRemovals
      split
      · next heq =>
        rw [heq] at hrestored
        exact hrestored
      · next heq =>
        rw [heq] at hrestored
        exact hrestored
    · exact ih _ _

theorem ownership_detachPool (prepared : List AmmSyncEngine.PreparedRemoval) (engine : AmmSyncEngine) :
    (prepared.foldl AmmSyncEngine.detachPool engine).ownership =
      (prepared.map (·.instance)).foldl (fun ownership pool => (ownership.removePool pool).2) engine.ownership := by
  induction prepared generalizing engine with
  | nil => rfl
  | cons pool rest ih => exact ih _

/-- A batch of removals takes its pools out of the index, or leaves the index. -/
theorem ownership_removePools (keys : List PoolKey) (engine : AmmSyncEngine) :
    (∃ error, (engine.removePools keys).1 = .error error ∧ (engine.removePools keys).2.ownership = engine.ownership) ∨
    ∃ prepared, engine.prepareRemovals keys = .ok prepared ∧
      (engine.removePools keys).1 = .ok (prepared.map (·.instance)) ∧
      (engine.removePools keys).2.ownership =
        (prepared.map (·.instance)).foldl (fun ownership pool => (ownership.removePool pool).2) engine.ownership := by
  unfold AmmSyncEngine.removePools
  split
  · next error _ => exact .inl ⟨error, rfl, rfl⟩
  next prepared hprepared =>
  have hhandlers := ownership_removeHandlers prepared [] prepared { engine with
    lifecycles := prepared.foldl (fun lifecycles pool => lifecycles.setPool pool.instance .removing) engine.lifecycles }
  unfold AmmSyncEngine.commitRemovals
  dsimp only
  split
  · next error _ heq =>
    rw [heq] at hhandlers
    exact .inl ⟨error, rfl, hhandlers⟩
  · next heq =>
    rw [heq] at hhandlers
    refine .inr ⟨prepared, hprepared, rfl, ?_⟩
    rw [ownership_detachPool, hhandlers]

theorem images_foldl_removePool (pools : List PoolInstanceId) {x : AmmOwnershipIndex} (h : Images x) :
    Images (pools.foldl (fun ownership pool => (ownership.removePool pool).2) x) := by
  induction pools generalizing x with
  | nil => exact h
  | cons pool rest ih => exact ih (h.removePool pool)

theorem pools_foldl_removePool (pools : List PoolInstanceId) (x : AmmOwnershipIndex) (p : PoolInstanceId) :
    (pools.foldl (fun ownership pool => (ownership.removePool pool).2) x).pools.get p =
      if p ∈ pools then none else x.pools.get p := by
  induction pools generalizing x with
  | nil => rfl
  | cons pool rest ih =>
    rw [List.foldl_cons, ih, AmmOwnershipIndex.pools_removePool]
    by_cases hp : p = pool
    · subst hp
      simp
    · simp [hp, Map.get_remove_of_ne hp]

/-- The prepared removals are those of the active generations of the keys. -/
theorem mem_prepareRemovals {keys : List PoolKey} {prepared : List AmmSyncEngine.PreparedRemoval}
    (hok : engine.prepareRemovals keys = .ok prepared) (h : Images engine.ownership) {pool : PoolInstanceId} :
    pool ∈ prepared.map (·.instance) ↔ pool.key ∈ keys ∧ engine.ownership.activePools.get pool.key = some pool := by
  simp only [AmmSyncEngine.prepareRemovals, bind_eq_ok, ensure_eq_ok, pure_eq_ok] at hok
  obtain ⟨removals, hall, -, -, -, -, rfl⟩ := hok
  have hone : ∀ {key : PoolKey} {removal : AmmSyncEngine.PreparedRemoval},
      engine.prepareRemoval key = .ok (some removal) → engine.ownership.activePools.get key = some removal.instance := by
    intro key removal hok
    unfold AmmSyncEngine.prepareRemoval at hok
    split at hok
    · cases hok
    · next hactive =>
      simp only [bind_eq_ok, pure_eq_ok] at hok
      obtain ⟨_, -, -, -, -, -, _, -, heq⟩ := hok
      rw [hactive, ← Option.some.inj heq]
  constructor
  · intro hmem
    obtain ⟨removal, hremoval, rfl⟩ := List.mem_map.mp hmem
    rw [List.reduceOption_mem_iff] at hremoval
    obtain ⟨key, hkey, hok⟩ := mem_mapM hall hremoval
    have hactive := hone hok
    rw [h.activePools _ _ hactive]
    exact ⟨(mem_sortDedup_iff _).mp hkey, hactive⟩
  · rintro ⟨hkey, hactive⟩
    obtain ⟨removal, hremoval, hok⟩ := mapM_mem hall ((mem_sortDedup_iff PoolKey.rank).mpr hkey)
    unfold AmmSyncEngine.prepareRemoval at hok
    rw [hactive] at hok
    simp only [bind_eq_ok, pure_eq_ok] at hok
    obtain ⟨_, -, -, -, -, -, _, -, rfl⟩ := hok
    exact List.mem_map.mpr ⟨_, List.reduceOption_mem_iff.mpr hremoval, rfl⟩

end

/-! ### What an eviction purges -/

/-- The slots that purges name, at an address that they do not purge whole. -/
def PurgesSlot (purges : List CachePurge) (slot : StateSlot) : Prop :=
  ∃ slots, .slots slot.address slots ∈ purges ∧ slot.slot ∈ slots

/-- A purge empties a storage cell. -/
def CachePurge.Hits : CachePurge → StateSlot → Prop
  | .storage address, cell => cell.address = address
  | .slots address named, cell => cell.address = address ∧ cell.slot ∈ named

/-- What the loops of an eviction purge for pools that had state at some addresses and named some slots there. -/
structure Evicted.Takes (remaining : AmmOwnershipIndex) (had : Address → Prop) (named : StateSlot → Prop)
    (evicted : Evicted) : Prop where
  accounts : ∀ address, address ∈ evicted.accounts ↔ had address ∧ ¬remaining.Associated address
  storage : ∀ address, .storage address ∈ evicted.purges ↔ had address ∧ ¬remaining.Associated address
  slots : ∀ slot, slot ∈ evicted.slots ↔ named slot ∧ remaining.Associated slot.address ∧ ¬remaining.Depends slot
  cells : ∀ slot, PurgesSlot evicted.purges slot ↔ named slot ∧ remaining.Associated slot.address ∧ ¬remaining.Depends slot

namespace Evicted.Takes
variable {remaining : AmmOwnershipIndex} {had had' : Address → Prop} {named named' : StateSlot → Prop} {evicted : Evicted}

theorem congr (h : evicted.Takes remaining had named) (hhad : ∀ address, had' address ↔ had address)
    (hnamed : ∀ slot, named' slot ↔ named slot) : evicted.Takes remaining had' named' where
  accounts address := by rw [h.accounts, hhad]
  storage address := by rw [h.storage, hhad]
  slots slot := by rw [h.slots, hnamed]
  cells slot := by rw [h.cells, hnamed]

theorem nil : Evicted.Takes remaining (fun _ => False) (fun _ => False) ⟨[], [], []⟩ where
  accounts _ := ⟨nofun, fun h => h.1.elim⟩
  storage _ := ⟨nofun, fun h => h.1.elim⟩
  slots _ := ⟨nofun, fun h => h.1.elim⟩
  cells _ := ⟨fun ⟨_, h, _⟩ => (nomatch h), fun h => h.1.elim⟩

theorem purgesSlot_concat {purges : List CachePurge} {purge : CachePurge} {slot : StateSlot} :
    PurgesSlot (purges ++ [purge]) slot ↔
      PurgesSlot purges slot ∨ ∃ slots, purge = .slots slot.address slots ∧ slot.slot ∈ slots := by
  simp only [PurgesSlot, List.mem_append, List.mem_singleton]
  constructor
  · rintro ⟨slots, hold | hnew, hmem⟩
    · exact .inl ⟨slots, hold, hmem⟩
    · exact .inr ⟨slots, hnew.symm, hmem⟩
  · rintro (⟨slots, hold, hmem⟩ | ⟨slots, hnew, hmem⟩)
    · exact ⟨slots, .inl hold, hmem⟩
    · exact ⟨slots, .inr hnew.symm, hmem⟩

theorem mem_exclusiveSlots (hi : Images remaining) {pool : PoolOwnership} {address : Address} {slot : StateSlot} :
    slot ∈ exclusiveSlots remaining pool address ↔
      slot ∈ pool.dependencies.slots ∧ slot.address = address ∧ ¬remaining.Depends slot := by
  rw [exclusiveSlots, List.mem_filter, Bool.and_eq_true, decide_eq_true_eq, decide_eq_true_eq, hi.poolsForSlot_eq_nil]

/-- One address of a pool. -/
theorem evictAddress (hi : Images remaining) (h : evicted.Takes remaining had named) (pool : PoolOwnership)
    (address : Address) :
    (evictAddress remaining pool evicted address).Takes remaining (fun other => had other ∨ other = address)
      fun slot => named slot ∨ slot ∈ pool.dependencies.slots ∧ slot.address = address := by
  unfold SyncManager.evictAddress
  split
  · next hfree =>
    rw [hi.poolsForAddress_eq_nil] at hfree
    have haccounts : ∀ other, (had other ∧ ¬remaining.Associated other) ∨ other = address ↔
        (had other ∨ other = address) ∧ ¬remaining.Associated other := fun other =>
      ⟨fun h => h.elim (fun h => ⟨.inl h.1, h.2⟩) fun h => ⟨.inr h, h ▸ hfree⟩,
        fun h => h.1.imp_left fun hhad => ⟨hhad, h.2⟩⟩
    have hslots : ∀ slot, (named slot ∧ remaining.Associated slot.address ∧ ¬remaining.Depends slot) ↔
        (named slot ∨ slot ∈ pool.dependencies.slots ∧ slot.address = address) ∧ remaining.Associated slot.address ∧
          ¬remaining.Depends slot := fun slot =>
      ⟨fun h => ⟨.inl h.1, h.2⟩, fun h => ⟨h.1.resolve_right fun hhere => hfree (hhere.2 ▸ h.2.1), h.2⟩⟩
    refine ⟨fun other => ?_, fun other => ?_, fun slot => (h.slots slot).trans (hslots slot), fun slot => ?_⟩
    · rw [List.mem_append, List.mem_singleton, h.accounts, haccounts]
    · rw [List.mem_append, List.mem_singleton, h.storage, CachePurge.storage.injEq, haccounts]
    · rw [purgesSlot_concat, h.cells, ← hslots]
      exact or_iff_left fun ⟨_, heq, _⟩ => (nomatch heq)
  · next hshared =>
    rw [hi.poolsForAddress_eq_nil, not_not] at hshared
    have haccounts : ∀ other, (had other ∧ ¬remaining.Associated other) ↔
        (had other ∨ other = address) ∧ ¬remaining.Associated other := fun other =>
      ⟨fun h => ⟨.inl h.1, h.2⟩, fun h => ⟨h.1.resolve_right fun heq => h.2 (heq ▸ hshared), h.2⟩⟩
    have hslots : ∀ slot, (named slot ∧ remaining.Associated slot.address ∧ ¬remaining.Depends slot) ∨
        slot ∈ exclusiveSlots remaining pool address ↔
        (named slot ∨ slot ∈ pool.dependencies.slots ∧ slot.address = address) ∧ remaining.Associated slot.address ∧
          ¬remaining.Depends slot := fun slot => by
      rw [mem_exclusiveSlots hi]
      constructor
      · rintro (⟨hnamed, hrest⟩ | ⟨hmem, rfl, hfree⟩)
        · exact ⟨.inl hnamed, hrest⟩
        · exact ⟨.inr ⟨hmem, rfl⟩, hshared, hfree⟩
      · rintro ⟨hnamed | ⟨hmem, rfl⟩, hrest⟩
        · exact .inl ⟨hnamed, hrest⟩
        · exact .inr ⟨hmem, rfl, hrest.2⟩
    dsimp only
    split_ifs with hnone
    · simp only [hnone, List.not_mem_nil, or_false] at hslots
      exact ⟨fun other => (h.accounts other).trans (haccounts other),
        fun other => (h.storage other).trans (haccounts other), fun slot => (h.slots slot).trans (hslots slot),
        fun slot => (h.cells slot).trans (hslots slot)⟩
    · refine ⟨fun other => (h.accounts other).trans (haccounts other), fun other => ?_, fun slot => ?_, fun slot => ?_⟩
      · rw [List.mem_append, List.mem_singleton, h.storage, ← haccounts]
        exact or_iff_left nofun
      · rw [List.mem_append, h.slots, hslots]
      · rw [purgesSlot_concat, h.cells, ← hslots]
        refine or_congr_right ⟨?_, fun hmem => ?_⟩
        · rintro ⟨_, heq, hmem⟩
          obtain ⟨rfl, rfl⟩ := CachePurge.slots.inj heq
          obtain ⟨other, hother, hsame⟩ := List.mem_map.mp hmem
          have haddress := ((mem_exclusiveSlots hi).mp hother).2.1
          cases slot
          cases other
          cases haddress
          cases hsame
          exact hother
        · obtain ⟨-, rfl, -⟩ := (mem_exclusiveSlots hi).mp hmem
          exact ⟨_, rfl, List.mem_map_of_mem hmem⟩

theorem evictPool (hi : Images remaining) (h : evicted.Takes remaining had named) (pool : PoolOwnership) :
    (evictPool remaining evicted pool).Takes remaining
      (fun address => had address ∨ address ∈ pool.dependencies.associatedAddresses)
      fun slot => named slot ∨ slot ∈ pool.dependencies.slots := by
  have hloop : ∀ (addresses : List Address) {evicted : Evicted} {had : Address → Prop} {named : StateSlot → Prop},
      evicted.Takes remaining had named → (addresses.foldl (SyncManager.evictAddress remaining pool)
        evicted).Takes remaining
        (fun address => had address ∨ address ∈ addresses)
        fun slot => named slot ∨ slot ∈ pool.dependencies.slots ∧ slot.address ∈ addresses := by
    intro addresses
    induction addresses with
    | nil => exact fun h => h.congr (by simp) (by simp)
    | cons address rest ih =>
      intro evicted had named h
      refine (ih (h.evictAddress hi pool address)).congr (fun other => ?_) fun slot => ?_
      · rw [List.mem_cons, or_assoc]
      · rw [List.mem_cons, or_assoc, ← and_or_left]
  exact (hloop _ h).congr (fun _ => Iff.rfl) fun slot => or_congr_right
    ⟨fun hslot => ⟨hslot, pool.dependencies.slots_associated slot hslot⟩, And.left⟩

theorem foldl_evictPool (hi : Images remaining) (removed : List PoolOwnership) :
    (removed.foldl (SyncManager.evictPool remaining) ⟨[], [], []⟩).Takes remaining
      (fun address => ∃ o ∈ removed, address ∈ o.dependencies.associatedAddresses)
      fun slot => ∃ o ∈ removed, slot ∈ o.dependencies.slots := by
  have hloop : ∀ (pools : List PoolOwnership) {evicted : Evicted} {had : Address → Prop} {named : StateSlot → Prop},
      evicted.Takes remaining had named → (pools.foldl (SyncManager.evictPool remaining) evicted).Takes remaining
        (fun address => had address ∨ ∃ o ∈ pools, address ∈ o.dependencies.associatedAddresses)
        fun slot => named slot ∨ ∃ o ∈ pools, slot ∈ o.dependencies.slots := by
    intro pools
    induction pools with
    | nil => exact fun h => h.congr (by simp) (by simp)
    | cons pool rest ih =>
      intro evicted had named h
      refine (ih (h.evictPool hi pool)).congr (fun other => ?_) fun slot => ?_
      · rw [List.exists_mem_cons_iff, or_assoc]
      · rw [List.exists_mem_cons_iff, or_assoc]
  exact (hloop removed .nil).congr (by simp) (by simp)

end Evicted.Takes

/-- The purges take exactly what the gone pools had and no pool of the index has: the accounts at which no pool of the index
    has state, and elsewhere the slots that they named and no pool of the index depends on. -/
structure TakesExclusive (gone : PoolOwnership → Prop) (remaining : AmmOwnershipIndex)
    (purges : List CachePurge) : Prop where
  accounts : ∀ address, .storage address ∈ purges ↔
    (∃ o, gone o ∧ address ∈ o.dependencies.associatedAddresses) ∧ ¬remaining.Associated address
  slots : ∀ slot, PurgesSlot purges slot ↔
    (∃ o, gone o ∧ slot ∈ o.dependencies.slots) ∧ remaining.Associated slot.address ∧ ¬remaining.Depends slot

/-- A report names what the purges take. -/
structure AmmEvictionReport.Of (report : AmmEvictionReport) (purges : List CachePurge) : Prop where
  accounts : ∀ address, address ∈ report.purgedAccounts ↔ .storage address ∈ purges
  slots : ∀ slot, slot ∈ report.purgedSlots ↔ PurgesSlot purges slot

/-- A purge empties no cell that a pool of the index depends on. -/
def CachePurge.Spares (purge : CachePurge) (remaining : AmmOwnershipIndex) : Prop :=
  ∀ cell, purge.Hits cell → ¬remaining.Depends cell

section
variable {gone gone' : PoolOwnership → Prop} {x y : AmmOwnershipIndex} {purges : List CachePurge}

theorem TakesExclusive.congr (h : TakesExclusive gone x purges) (hgone : ∀ o, gone' o ↔ gone o)
    (hpools : y.pools = x.pools) : TakesExclusive gone' y purges where
  accounts address := by simp only [h.accounts, hgone, AmmOwnershipIndex.Associated.congr hpools]
  slots slot := by
    simp only [h.slots, hgone, AmmOwnershipIndex.Associated.congr hpools, AmmOwnershipIndex.Depends.congr hpools]

theorem TakesExclusive.nil (h : ∀ o, ¬gone o) : TakesExclusive gone x [] where
  accounts _ := ⟨nofun, fun ⟨⟨o, ho, _⟩, _⟩ => absurd ho (h o)⟩
  slots _ := ⟨fun ⟨_, hmem, _⟩ => (nomatch hmem), fun ⟨⟨o, ho, _⟩, _⟩ => absurd ho (h o)⟩

/-- What is taken exclusively is spared by no pool that remains. -/
theorem TakesExclusive.spares (h : TakesExclusive gone x purges) {purge : CachePurge} (hpurge : purge ∈ purges) :
    purge.Spares x := by
  intro cell hhits hdepends
  cases purge with
  | storage address =>
    obtain rfl : cell.address = address := hhits
    exact ((h.accounts _).mp hpurge).2 hdepends.associated
  | slots address named =>
    obtain ⟨rfl, hcell⟩ := hhits
    exact ((h.slots cell).mp ⟨named, hpurge, hcell⟩).2.2 hdepends

theorem evictExclusiveState_spec (removed : List PoolOwnership) {remaining : AmmOwnershipIndex} (hi : Images remaining) :
    TakesExclusive (· ∈ removed) remaining (evictExclusiveState removed remaining).1 ∧
      (evictExclusiveState removed remaining).2.Of (evictExclusiveState removed remaining).1 := by
  have h := Evicted.Takes.foldl_evictPool hi removed
  refine ⟨⟨h.storage, h.cells⟩, fun address => ?_, fun slot => ?_⟩
  · exact (mem_sortDedup_iff _).trans ((h.accounts address).trans (h.storage address).symm)
  · exact (mem_sortDedup_iff _).trans ((h.slots slot).trans (h.cells slot).symm)

end

/-! ### One event -/

namespace EvictingEngine

/-- A pool of one index that is not in the other. -/
def Gone (x y : AmmOwnershipIndex) (o : PoolOwnership) : Prop := ∃ p, x.pools.get p = some o ∧ y.pools.get p = none

/-- A removal with eviction. -/
def Event.evicts : Event → Bool
  | .removePools _ policy _ | .removeAdapterCascade _ policy _ => decide (policy = .exclusive)
  | _ => false

/-- A canonical batch with a reorg, or a batch that fails. -/
def Event.enforces : Event → Bool
  | .ingest none _ _ _ => true
  | .ingest (some report) reorg _ _ => reorg && !report.preconfirmation
  | _ => false

section
variable {x : EvictingEngine} {journaled : Finset HandlerId} {outcome : EvictionOutcome}

theorem not_gone {x y : AmmOwnershipIndex} (h : y.pools = x.pools) (o : PoolOwnership) : ¬Gone x y o := by
  rintro ⟨p, hsome, hnone⟩
  rw [h, hsome] at hnone
  cases hnone

/-- A removal with eviction purges what its pools had for themselves, and fences those with journal entries. -/
structure Removes (x : EvictingEngine) (journaled : Finset HandlerId) (outcome : EvictionOutcome) : Prop where
  takes : TakesExclusive (Gone x.engine.ownership outcome.state.engine.ownership)
    outcome.state.engine.ownership outcome.purges
  report : ∀ report, outcome.report = some report → report.Of outcome.purges
  fences : ∀ o, o ∈ outcome.state.evictionFences ↔
    o ∈ x.evictionFences ∨ Gone x.engine.ownership outcome.state.engine.ownership o ∧ o.handler ∈ journaled

/-- A removal that does not take place. -/
theorem Removes.unchanged (hpurges : outcome.purges = []) (hreport : ∀ report, outcome.report = some report → report.Of [])
    (hpools : outcome.state.engine.ownership.pools = x.engine.ownership.pools)
    (hfences : outcome.state.evictionFences = x.evictionFences) : Removes x journaled outcome where
  takes := hpurges ▸ .nil (not_gone hpools)
  report := hpurges.symm ▸ hreport
  fences o := by
    rw [hfences]
    exact ⟨.inl, fun h => h.resolve_right fun hgone => not_gone hpools o hgone.1⟩

theorem Removes.evicting {engine : AmmSyncEngine} (hi : Images engine.ownership) {removed : List PoolOwnership}
    (hremoved : ∀ o, o ∈ removed ↔ Gone x.engine.ownership engine.ownership o) :
    Removes x journaled (({ x with engine } : EvictingEngine).evicting .exclusive journaled removed) := by
  obtain ⟨htakes, hreport⟩ := evictExclusiveState_spec removed hi
  refine ⟨htakes.congr (fun o => (hremoved o).symm) rfl, fun report hsome => ?_, fun o => ?_⟩
  · obtain rfl := Option.some.inj hsome
    exact hreport
  · show o ∈ x.evictionFences ++ removed.filter (·.handler ∈ journaled) ↔ _
    rw [List.mem_append, List.mem_filter, decide_eq_true_eq, hremoved]
    rfl

/-- The pools that a batch of removals takes out. -/
theorem gone_foldl_removePool {pools : List PoolInstanceId} {x : AmmOwnershipIndex} {o : PoolOwnership} :
    Gone x (pools.foldl (fun ownership pool => (ownership.removePool pool).2) x) o ↔
      ∃ p ∈ pools, x.pools.get p = some o := by
  simp only [Gone, pools_foldl_removePool]
  constructor
  · rintro ⟨p, hsome, hnone⟩
    split_ifs at hnone with hp
    · exact ⟨p, hp, hsome⟩
    · cases hsome.symm.trans hnone
  · rintro ⟨p, hp, hsome⟩
    exact ⟨p, hsome, if_pos hp⟩

theorem images_removePools {engine : AmmSyncEngine} (h : Images engine.ownership) (keys : List PoolKey) :
    Images (engine.removePools keys).2.ownership := by
  rcases ownership_removePools keys engine with ⟨_, -, hsame⟩ | ⟨prepared, -, -, hremoved⟩
  · exact hsame ▸ h
  · exact hremoved ▸ images_foldl_removePool _ h

theorem removePoolsWithPolicy_spec (hi : Images x.engine.ownership) (keys : List PoolKey) :
    Removes x journaled (x.removePoolsWithPolicy keys .exclusive journaled) := by
  have himages := images_removePools hi keys
  have hcases := ownership_removePools keys x.engine
  unfold removePoolsWithPolicy
  split
  · next heq =>
    rw [heq] at hcases
    rcases hcases with ⟨_, -, hsame⟩ | ⟨_, -, hok, -⟩
    · exact .unchanged rfl nofun (congrArg _ hsame) rfl
    · cases hok
  · next removed engine heq =>
    rw [heq] at hcases himages
    rcases hcases with ⟨_, herror, -⟩ | ⟨prepared, -, hok, hpools⟩
    · cases herror
    · obtain rfl := Except.ok.inj hok
      refine .evicting himages fun o => ?_
      rw [show engine.ownership = _ from hpools, gone_foldl_removePool, List.mem_filterMap]

/-- The pools of an adapter family are active under their keys. -/
theorem active_of_mem_poolsForAdapter {engine : AmmSyncEngine} (hi : Images engine.ownership) {adapter : AdapterInstanceId}
    {pool : PoolInstanceId} (h : pool ∈ engine.poolsForAdapter adapter) :
    engine.ownership.activePools.get pool.key = some pool := by
  obtain ⟨howned, -⟩ := List.mem_filter.mp h
  obtain ⟨registration, -, hactive⟩ := List.mem_filterMap.mp ((perm_sortBy _ _).mem_iff.mp howned)
  rwa [hi.activePools _ _ hactive]

/-- A cascade takes the pools of its adapter out of the index, or leaves the index. -/
theorem ownership_removeAdapterCascade {engine : AmmSyncEngine} {protocol : ProtocolId} {adapter : AmmAdapter}
    (hadapter : engine.registry.adapter protocol = some adapter) :
    (∃ error, (engine.removeAdapterCascade protocol).1 = .error error ∧
      (engine.removeAdapterCascade protocol).2.ownership = engine.ownership) ∨
    ∃ owned prepared, engine.ownership.activeAdapters.get adapter.key = some owned ∧
      engine.prepareRemovals ((engine.poolsForAdapter owned).map (·.key)) = .ok prepared ∧
      (engine.removeAdapterCascade protocol).1 = .ok () ∧
      (engine.removeAdapterCascade protocol).2.ownership = (((prepared.map (·.instance)).foldl
        (fun ownership pool => (ownership.removePool pool).2) engine.ownership).removeAdapterPrevalidated owned).2 := by
  unfold AmmSyncEngine.removeAdapterCascade
  rw [hadapter]
  dsimp only
  split
  · next error _ => exact .inl ⟨error, rfl, rfl⟩
  next _ _ hprepared =>
  simp only [AmmSyncEngine.prepareCascade, AmmSyncEngine.activeAdapter, bind_eq_ok, orError_eq_ok, ensure_eq_ok,
    pure_eq_ok] at hprepared
  obtain ⟨owned, hactive, -, -, -, -, heq⟩ := hprepared
  obtain ⟨rfl, rfl⟩ := Prod.mk.inj heq
  have hcases := ownership_removePools ((engine.poolsForAdapter owned).map (·.key)) engine
  split
  · next error _ hfailed =>
    rw [hfailed] at hcases
    rcases hcases with ⟨_, -, hsame⟩ | ⟨_, -, hok, -⟩
    · exact .inl ⟨error, rfl, hsame⟩
    · cases hok
  · next hdone =>
    rw [hdone] at hcases
    rcases hcases with ⟨_, herror, -⟩ | ⟨prepared, hremovals, -, hpools⟩
    · cases herror
    · refine .inr ⟨owned, prepared, hactive, hremovals, rfl, ?_⟩
      rw [← hpools]
      rfl

theorem images_removeAdapterCascade {engine : AmmSyncEngine} (h : Images engine.ownership) (protocol : ProtocolId) :
    Images (engine.removeAdapterCascade protocol).2.ownership := by
  cases hadapter : engine.registry.adapter protocol with
  | none =>
    rw [AmmSyncEngine.removeAdapterCascade, hadapter]
    exact h
  | some adapter =>
    rcases ownership_removeAdapterCascade hadapter with ⟨_, -, hsame⟩ | ⟨_, _, -, -, -, hremoved⟩
    · exact hsame ▸ h
    · exact hremoved ▸ (images_foldl_removePool _ h).removeAdapterPrevalidated _

theorem pools_removeAdapterPrevalidated (adapter : AdapterInstanceId) (x : AmmOwnershipIndex) :
    (x.removeAdapterPrevalidated adapter).2.pools = x.pools := by
  unfold AmmOwnershipIndex.removeAdapterPrevalidated
  split <;> rfl

theorem removeAdapterCascade_spec (hi : Images x.engine.ownership) (protocol : ProtocolId) :
    Removes x journaled (x.removeAdapterCascadeWithCache protocol .exclusive journaled) := by
  have himages := images_removeAdapterCascade hi protocol
  unfold removeAdapterCascadeWithCache
  split
  · refine .unchanged rfl (fun report hsome => ?_) rfl rfl
    obtain rfl := Option.some.inj hsome
    exact ⟨fun _ => ⟨nofun, nofun⟩, fun _ => ⟨nofun, fun ⟨_, hmem, _⟩ => (nomatch hmem)⟩⟩
  next adapter hadapter =>
  have hcases := ownership_removeAdapterCascade hadapter
  split
  · next heq =>
    rw [heq] at hcases
    rcases hcases with ⟨_, -, hsame⟩ | ⟨_, _, -, -, hok, -⟩
    · exact .unchanged rfl nofun (congrArg _ hsame) rfl
    · cases hok
  next engine heq =>
  rw [heq] at hcases himages
  rcases hcases with ⟨_, herror, -⟩ | ⟨owned, prepared, howned, hprepared, -, hpools⟩
  · cases herror
  refine .evicting himages fun o => ?_
  have hgone : Gone x.engine.ownership engine.ownership o ↔ ∃ p ∈ prepared.map (·.instance),
      x.engine.ownership.pools.get p = some o := by
    rw [← gone_foldl_removePool, Gone, Gone, show engine.ownership = _ from hpools, pools_removeAdapterPrevalidated]
  rw [hgone, dependentOwnership, hadapter, Option.bind_some, howned, List.mem_filterMap]
  refine exists_congr fun p => and_congr_left fun _ => ?_
  rw [mem_prepareRemovals hprepared hi]
  constructor
  · intro hp
    exact ⟨List.mem_map_of_mem hp, active_of_mem_poolsForAdapter hi hp⟩
  · rintro ⟨hkey, hactive⟩
    obtain ⟨q, hq, hsame⟩ := List.mem_map.mp hkey
    have hother := active_of_mem_poolsForAdapter hi hq
    rw [hsame, hactive] at hother
    rwa [Option.some.inj hother]

/-! ### Ingests -/

theorem images_trackPending (pending : List (PoolInstanceId × ResyncId)) {x : AmmOwnershipIndex} (h : Images x) :
    Images (trackPending pending x).2 := by
  induction pending generalizing x with
  | nil => exact h
  | cons head rest ih =>
    obtain ⟨pool, resync⟩ := head
    have hone : Images (x.trackResync pool resync).2 := by
      refine h.congr (TargetedEngine.SameDependencies.trackResync pool resync x) ?_
      unfold AmmOwnershipIndex.trackResync
      split_ifs <;> rfl
    rw [trackPending]
    split
    · next heq =>
      rw [heq] at hone
      exact hone
    · next heq =>
      rw [heq] at hone
      exact ih hone

theorem images_untrackResyncs (tracked : List ResyncId) {x : AmmOwnershipIndex} (h : Images x) :
    Images (tracked.foldl (fun ownership resync => (ownership.untrackResync resync).2) x) := by
  induction tracked generalizing x with
  | nil => exact h
  | cons resync rest ih =>
    have hactive : (x.untrackResync resync).2.activePools = x.activePools := by
      unfold AmmOwnershipIndex.untrackResync
      split
      · rfl
      · split <;> rfl
    exact ih (h.congr (TargetedEngine.SameDependencies.untrackResync resync x) hactive)

theorem ownership_setPoolStatus (status : PoolStatus) (keys : List PoolKey) (engine : AmmSyncEngine) :
    (keys.foldl (AmmSyncEngine.setPoolStatus status) engine).ownership = engine.ownership := by
  induction keys generalizing engine with
  | nil => rfl
  | cons key rest ih =>
    rw [List.foldl_cons, ih]
    unfold AmmSyncEngine.setPoolStatus
    split <;> rfl

/-- An ingest changes which resyncs the index tracks, and no pool. -/
theorem finishIngest_index (report : IngestReport) (deferRepairs : Bool) {engine : AmmSyncEngine}
    (h : Images engine.ownership) : Images (engine.finishIngest report deferRepairs).2.ownership ∧
      (engine.finishIngest report deferRepairs).2.ownership.pools = engine.ownership.pools := by
  have htracked : Images (engine.trackReportResyncs report).2.ownership ∧
      (engine.trackReportResyncs report).2.ownership.pools = engine.ownership.pools := by
    unfold AmmSyncEngine.trackReportResyncs
    split
    · exact ⟨h, rfl⟩
    · next tracking _ =>
      have himages := images_trackPending tracking.pending h
      have hpools := (TargetedEngine.SameDependencies.trackPending tracking.pending engine.ownership).pools
      split
      · next heq =>
        rw [heq] at himages hpools
        exact ⟨himages, hpools⟩
      · next heq =>
        rw [heq] at himages hpools
        exact ⟨himages, hpools⟩
  unfold AmmSyncEngine.finishIngest
  split_ifs
  · exact ⟨h, rfl⟩
  split
  · next heq =>
    rw [heq] at htracked
    exact htracked
  · next tracked engine heq =>
    rw [heq] at htracked
    have hsame : ∀ degraded : List PoolKey, ((AmmSyncEngine.recoveredBy report degraded
        (degraded.foldl (AmmSyncEngine.setPoolStatus .degraded) engine)).foldl (AmmSyncEngine.setPoolStatus .ready)
        (degraded.foldl (AmmSyncEngine.setPoolStatus .degraded) engine)).ownership = engine.ownership := fun degraded => by
      rw [ownership_setPoolStatus, ownership_setPoolStatus]
    dsimp only
    rw [hsame]
    exact ⟨images_untrackResyncs tracked htracked.1,
      (TargetedEngine.SameDependencies.untrackResyncs tracked engine.ownership).pools.trans htracked.2⟩

theorem enforceEvictionFences_spec (hi : Images x.engine.ownership) :
    TakesExclusive (· ∈ x.evictionFences) x.engine.ownership (x.enforceEvictionFences journaled).1 ∧
      (x.enforceEvictionFences journaled).2.engine = x.engine ∧
      ∀ o, o ∈ (x.enforceEvictionFences journaled).2.evictionFences ↔ o ∈ x.evictionFences ∧ o.handler ∈ journaled := by
  unfold enforceEvictionFences
  split_ifs with hnone
  · refine ⟨.nil fun o ho => ?_, rfl, fun o => ?_⟩
    · exact List.not_mem_nil (hnone ▸ ho)
    · rw [hnone]
      exact ⟨nofun, fun h => (nomatch h.1)⟩
  · refine ⟨(evictExclusiveState_spec x.evictionFences hi).1, rfl, fun o => ?_⟩
    exact List.mem_filter.trans (and_congr_right fun _ => decide_eq_true_iff)

/-- What an ingest purges: behind a reorg, and behind a batch that fails, what the fences have. -/
theorem ingestBatch_spec (hi : Images x.engine.ownership) (report : Option IngestReport) (reorg deferRepairs : Bool) :
    let outcome := x.ingestBatch report reorg deferRepairs journaled
    Images outcome.state.engine.ownership ∧
    (if (Event.ingest report reorg deferRepairs journaled).enforces
      then TakesExclusive (· ∈ x.evictionFences) outcome.state.engine.ownership outcome.purges
      else outcome.purges = []) ∧
    ∀ o, o ∈ outcome.state.evictionFences ↔
      o ∈ x.evictionFences ∧ ((∃ r, report = some r ∧ r.preconfirmation = true) ∨ o.handler ∈ journaled) := by
  obtain ⟨htakes, hengine, hfences⟩ := @enforceEvictionFences_spec x journaled hi
  cases report with
  | none =>
    refine ⟨(congrArg (Images ·.ownership) hengine).mpr hi, ?_, fun o => ?_⟩
    · rw [Event.enforces, if_pos rfl]
      exact htakes.congr (fun _ => Iff.rfl) (congrArg (·.ownership.pools) hengine)
    · exact (hfences o).trans (and_congr_right fun _ => ⟨.inr, fun h => h.resolve_left nofun⟩)
  | some report =>
    have hfinish := finishIngest_index report deferRepairs hi
    have hretired : ∀ o, o ∈ (x.retireEvictionFences journaled).evictionFences ↔
        o ∈ x.evictionFences ∧ o.handler ∈ journaled :=
      fun o => List.mem_filter.trans (and_congr_right fun _ => decide_eq_true_iff)
    rw [ingestBatch, Event.enforces]
    by_cases hpreview : report.preconfirmation = true
    · simp only [hpreview, if_true, Bool.not_true, Bool.and_false, Bool.false_eq_true, if_false]
      exact ⟨hfinish.1, rfl, fun o => ⟨fun h => ⟨h, .inl ⟨report, rfl, hpreview⟩⟩, And.left⟩⟩
    · have hages : ∀ o : PoolOwnership, (∃ r, some report = some r ∧ r.preconfirmation = true) ∨ o.handler ∈ journaled ↔
          o.handler ∈ journaled := fun o =>
        or_iff_right fun ⟨r, hr, htrue⟩ => hpreview (Option.some.inj hr ▸ htrue)
      simp only [hpreview, Bool.false_eq_true, if_false, Bool.not_false, Bool.and_true, hages]
      cases reorg with
      | false => exact ⟨hfinish.1, rfl, hretired⟩
      | true =>
        simp only [if_true, hengine]
        exact ⟨hfinish.1, htakes.congr (fun _ => Iff.rfl) hfinish.2, hfences⟩

end

/-! ### Runs -/

section
variable (handlerId : PoolInstanceId → HandlerId)

/-- An event adds a fence: it removes the pool with eviction, and the handler has journal entries. -/
def Records (x : EvictingEngine) (event : Event) (fence : PoolOwnership) : Prop :=
  match event with
  | .removePools _ .exclusive journaled | .removeAdapterCascade _ .exclusive journaled =>
    Gone x.engine.ownership (x.step handlerId event).state.engine.ownership fence ∧ fence.handler ∈ journaled
  | _ => False

/-- An event retires a fence: it registers the key again, replaces the registry, or finds the journal without the
    handler. -/
def Retires (x : EvictingEngine) (event : Event) (fence : PoolOwnership) : Prop :=
  match event with
  | .addPools registrations =>
    ∃ registered, (AmmSyncEngine.addPools handlerId registrations x.engine).1 = .ok registered ∧
      fence.instance.key ∈ registered.map (·.key)
  | .commitPoolReservation reserved registration =>
    ∃ registered, (AmmSyncEngine.commitPoolReservation handlerId reserved registration x.engine).1 = .ok registered ∧
      fence.instance.key ∈ registered.map (·.key)
  | .replaceRegistry registry => (AmmSyncEngine.replaceRegistry handlerId registry x.engine).1 = .ok ()
  | .ingest report _ _ journaled =>
    (∀ r, report = some r → r.preconfirmation = false) ∧ fence.handler ∉ journaled
  | _ => False

/-- A run has recorded a fence and not retired it since. -/
def Outstanding (x : EvictingEngine) (events : List Event) (fence : PoolOwnership) : Prop :=
  ∃ before event after, events = before ++ event :: after ∧ Records handlerId (x.run handlerId before) event fence ∧
    ∀ between next rest, after = between ++ next :: rest →
      ¬Retires handlerId (x.run handlerId (before ++ event :: between)) next fence

/-- What an event purges. -/
structure Purges (x : EvictingEngine) (event : Event) : Prop where
  spares : ∀ purge ∈ (x.step handlerId event).purges, purge.Spares (x.step handlerId event).state.engine.ownership
  removal : event.evicts = true →
    TakesExclusive (Gone x.engine.ownership (x.step handlerId event).state.engine.ownership)
      (x.step handlerId event).state.engine.ownership (x.step handlerId event).purges ∧
    ∀ report, (x.step handlerId event).report = some report → report.Of (x.step handlerId event).purges
  fences : event.enforces = true →
    TakesExclusive (· ∈ x.evictionFences) (x.step handlerId event).state.engine.ownership (x.step handlerId event).purges
  other : event.evicts = false → event.enforces = false → (x.step handlerId event).purges = []

variable {handlerId} {x : EvictingEngine}

theorem run_concat (events : List Event) (event : Event) :
    x.run handlerId (events ++ [event]) = ((x.run handlerId events).step handlerId event).state := by
  rw [run, List.foldl_append]
  rfl

theorem fence_adopting {operation : AmmSyncEngine → Outcome (List PoolInstanceId)} {fence : PoolOwnership} :
    fence ∈ (x.adopting operation).state.evictionFences ↔ fence ∈ x.evictionFences ∧
      ¬∃ registered, (operation x.engine).1 = .ok registered ∧ fence.instance.key ∈ registered.map (·.key) := by
  unfold adopting
  split
  · next heq =>
    rw [heq]
    exact ⟨fun h => ⟨h, fun ⟨_, hok, _⟩ => (nomatch hok)⟩, And.left⟩
  · next registered _ heq =>
    rw [heq, List.mem_filter, decide_eq_true_eq]
    refine and_congr_right fun _ => not_congr ⟨fun h => ⟨registered, rfl, h⟩, ?_⟩
    rintro ⟨_, hok, hmem⟩
    obtain rfl := Except.ok.inj hok
    exact hmem

theorem adopting_engine {operation : AmmSyncEngine → Outcome (List PoolInstanceId)} :
    (x.adopting operation).state.engine = (operation x.engine).2 ∧ (x.adopting operation).purges = [] := by
  unfold adopting
  split
  · next heq => exact ⟨by rw [heq], rfl⟩
  · next heq => exact ⟨by rw [heq], rfl⟩

theorem removePoolsWithPolicy_engine (keys : List PoolKey) (policy : AmmEvictionPolicy) (journaled : Finset HandlerId) :
    (x.removePoolsWithPolicy keys policy journaled).state.engine = (x.engine.removePools keys).2 := by
  unfold removePoolsWithPolicy
  split
  · next heq => rw [heq]
  · next heq =>
    rw [heq]
    cases policy <;> rfl

theorem removePoolsWithPolicy_retain (keys : List PoolKey) (journaled : Finset HandlerId) :
    (x.removePoolsWithPolicy keys .retain journaled).purges = [] ∧
      (x.removePoolsWithPolicy keys .retain journaled).state.evictionFences = x.evictionFences := by
  unfold removePoolsWithPolicy
  split <;> exact ⟨rfl, rfl⟩

theorem removeAdapterCascadeWithCache_engine (protocol : ProtocolId) (policy : AmmEvictionPolicy)
    (journaled : Finset HandlerId) : (x.removeAdapterCascadeWithCache protocol policy journaled).state.engine =
      (x.engine.removeAdapterCascade protocol).2 := by
  unfold removeAdapterCascadeWithCache
  split
  · next hnone => rw [AmmSyncEngine.removeAdapterCascade, hnone]
  split
  · next heq => rw [heq]
  · next heq =>
    rw [heq]
    cases policy <;> rfl

theorem removeAdapterCascadeWithCache_retain (protocol : ProtocolId) (journaled : Finset HandlerId) :
    (x.removeAdapterCascadeWithCache protocol .retain journaled).purges = [] ∧
      (x.removeAdapterCascadeWithCache protocol .retain journaled).state.evictionFences = x.evictionFences := by
  unfold removeAdapterCascadeWithCache
  split
  · exact ⟨rfl, rfl⟩
  split <;> exact ⟨rfl, rfl⟩

theorem images_step (hi : Images x.engine.ownership) (event : Event) :
    Images (x.step handlerId event).state.engine.ownership := by
  cases event with
  | addPools registrations =>
    rw [step, adopting_engine.1]
    exact images_addPools handlerId hi registrations
  | reservePoolGeneration key => exact (ownership_reservePoolGeneration key x.engine).symm ▸ hi
  | commitPoolReservation reserved registration =>
    rw [step, adopting_engine.1]
    exact images_commitPoolReservation handlerId hi reserved registration
  | cancelPoolReservation reserved => exact (ownership_cancelPoolReservation reserved x.engine).symm ▸ hi
  | commitPoolRefresh prepared => exact images_commitPoolRefresh hi prepared
  | acknowledgeLiveDelivery pools => exact (ownership_acknowledgeLiveDelivery pools x.engine).symm ▸ hi
  | addAdapter adapter => exact images_addAdapter hi adapter
  | removeAdapter protocol => exact images_removeAdapter hi protocol
  | removePools keys policy journaled =>
    rw [step, removePoolsWithPolicy_engine]
    exact images_removePools hi keys
  | removeAdapterCascade protocol policy journaled =>
    rw [step, removeAdapterCascadeWithCache_engine]
    exact images_removeAdapterCascade hi protocol
  | replaceRegistry registry =>
    have hreplaced := images_replaceRegistry handlerId hi registry
    rw [step, replaceRegistry]
    split
    · next heq =>
      rw [heq] at hreplaced
      exact hreplaced
    · next heq =>
      rw [heq] at hreplaced
      exact hreplaced
  | ingest report reorg deferRepairs journaled => exact (ingestBatch_spec hi report reorg deferRepairs).1

theorem Purges.quiet {event : Event} (hpurges : (x.step handlerId event).purges = []) (hevicts : event.evicts = false)
    (henforces : event.enforces = false) : Purges handlerId x event where
  spares purge hpurge := by
    rw [hpurges] at hpurge
    cases hpurge
  removal h := nomatch hevicts.symm.trans h
  fences h := nomatch henforces.symm.trans h
  other _ _ := hpurges

theorem Purges.removes {event : Event} {journaled : Finset HandlerId}
    (h : Removes x journaled (x.step handlerId event)) (hevicts : event.evicts = true)
    (henforces : event.enforces = false) : Purges handlerId x event where
  spares _ := h.takes.spares
  removal _ := ⟨h.takes, h.report⟩
  fences h := nomatch henforces.symm.trans h
  other h := nomatch hevicts.symm.trans h

/-- Every event purges what it may purge, and nothing else. -/
theorem purges_step (hi : Images x.engine.ownership) (event : Event) : Purges handlerId x event := by
  cases event with
  | addPools registrations => exact .quiet adopting_engine.2 rfl rfl
  | commitPoolReservation reserved registration => exact .quiet adopting_engine.2 rfl rfl
  | reservePoolGeneration key | cancelPoolReservation reserved | commitPoolRefresh prepared
  | acknowledgeLiveDelivery pools | addAdapter adapter | removeAdapter protocol => exact .quiet rfl rfl rfl
  | removePools keys policy journaled =>
    cases policy with
    | retain => exact .quiet (removePoolsWithPolicy_retain keys journaled).1 rfl rfl
    | exclusive => exact .removes (removePoolsWithPolicy_spec hi keys) rfl rfl
  | removeAdapterCascade protocol policy journaled =>
    cases policy with
    | retain => exact .quiet (removeAdapterCascadeWithCache_retain protocol journaled).1 rfl rfl
    | exclusive => exact .removes (removeAdapterCascade_spec hi protocol) rfl rfl
  | replaceRegistry registry =>
    refine .quiet ?_ rfl rfl
    rw [step, replaceRegistry]
    split <;> rfl
  | ingest report reorg deferRepairs journaled =>
    obtain ⟨-, hpurges, -⟩ := @ingestBatch_spec x journaled hi report reorg deferRepairs
    split_ifs at hpurges with henforces
    · exact ⟨fun _ => hpurges.spares, nofun, fun _ => hpurges, fun _ h => absurd henforces (by simp [h])⟩
    · exact .quiet hpurges rfl (Bool.eq_false_iff.mpr henforces)

/-- The fences after an event. -/
theorem fences_step (hi : Images x.engine.ownership) (event : Event) (fence : PoolOwnership) :
    fence ∈ (x.step handlerId event).state.evictionFences ↔
      fence ∈ x.evictionFences ∧ ¬Retires handlerId x event fence ∨ Records handlerId x event fence := by
  cases event with
  | addPools registrations =>
    exact fence_adopting.trans (or_iff_left id).symm
  | commitPoolReservation reserved registration =>
    exact fence_adopting.trans (or_iff_left id).symm
  | reservePoolGeneration key | cancelPoolReservation reserved | commitPoolRefresh prepared
  | acknowledgeLiveDelivery pools | addAdapter adapter | removeAdapter protocol =>
    exact ⟨fun h => .inl ⟨h, id⟩, fun h => (h.resolve_right id).1⟩
  | removePools keys policy journaled =>
    cases policy with
    | retain =>
      rw [step, (removePoolsWithPolicy_retain keys journaled).2]
      exact ⟨fun h => .inl ⟨h, id⟩, fun h => (h.resolve_right id).1⟩
    | exclusive =>
      exact ((removePoolsWithPolicy_spec hi keys).fences fence).trans (or_congr_left ⟨fun h => ⟨h, id⟩, And.left⟩)
  | removeAdapterCascade protocol policy journaled =>
    cases policy with
    | retain =>
      rw [step, (removeAdapterCascadeWithCache_retain protocol journaled).2]
      exact ⟨fun h => .inl ⟨h, id⟩, fun h => (h.resolve_right id).1⟩
    | exclusive =>
      exact ((removeAdapterCascade_spec hi protocol).fences fence).trans (or_congr_left ⟨fun h => ⟨h, id⟩, And.left⟩)
  | replaceRegistry registry =>
    refine Iff.trans ?_ (or_iff_left id).symm
    rw [step, replaceRegistry, Retires]
    split
    · next heq =>
      rw [heq]
      exact ⟨fun h => ⟨h, nofun⟩, And.left⟩
    · next heq =>
      rw [heq]
      exact ⟨nofun, fun h => absurd rfl h.2⟩
  | ingest report reorg deferRepairs journaled =>
    refine Iff.trans ?_ (or_iff_left id).symm
    refine ((ingestBatch_spec hi report reorg deferRepairs).2.2 fence).trans (and_congr_right fun _ => ?_)
    rw [Retires, not_and, not_not]
    constructor
    · rintro (⟨r, rfl, htrue⟩ | hmem) hcanonical
      · cases htrue.symm.trans (hcanonical r rfl)
      · exact hmem
    · intro h
      by_cases hpreview : ∃ r, report = some r ∧ r.preconfirmation = true
      · exact .inl hpreview
      · exact .inr (h fun r hr => Bool.eq_false_iff.mpr fun htrue => hpreview ⟨r, hr, htrue⟩)

theorem outstanding_concat {events : List Event} {event : Event} {fence : PoolOwnership} :
    Outstanding handlerId x (events ++ [event]) fence ↔
      Outstanding handlerId x events fence ∧ ¬Retires handlerId (x.run handlerId events) event fence ∨
        Records handlerId (x.run handlerId events) event fence := by
  constructor
  · rintro ⟨before, first, after, heq, hrecords, hkept⟩
    rcases List.eq_nil_or_concat' after with rfl | ⟨between, last, rfl⟩
    · obtain ⟨rfl, hlast⟩ := List.append_inj' heq rfl
      obtain rfl := (List.cons.inj hlast).1
      exact .inr hrecords
    · rw [← List.cons_append, ← List.append_assoc] at heq
      obtain ⟨rfl, hlast⟩ := List.append_inj' heq rfl
      obtain rfl := (List.cons.inj hlast).1
      refine .inl ⟨⟨before, first, between, rfl, hrecords, fun middle next rest hsplit => ?_⟩, hkept between event [] rfl⟩
      exact hkept middle next (rest ++ [event]) (by rw [hsplit, List.append_assoc, List.cons_append])
  · rintro (⟨⟨before, first, after, rfl, hrecords, hkept⟩, hretires⟩ | hrecords)
    · refine ⟨before, first, after ++ [event], by rw [List.append_assoc, List.cons_append], hrecords,
        fun middle next rest hsplit => ?_⟩
      rcases List.eq_nil_or_concat' rest with rfl | ⟨rest, last, rfl⟩
      · obtain ⟨rfl, hlast⟩ := List.append_inj' hsplit rfl
        obtain rfl := (List.cons.inj hlast).1
        exact hretires
      · rw [← List.cons_append, ← List.append_assoc] at hsplit
        exact hkept middle next rest (List.append_inj' hsplit rfl).1
    · exact ⟨events, event, [], rfl, hrecords, fun _ _ _ hnil => by simp at hnil⟩

/-- In every run the indexes stay images, and the fences are those that the run has recorded and not retired. -/
theorem run_spec (hi : Images x.engine.ownership) (hfences : x.evictionFences = []) (events : List Event) :
    Images (x.run handlerId events).engine.ownership ∧
      ∀ fence, fence ∈ (x.run handlerId events).evictionFences ↔ Outstanding handlerId x events fence := by
  induction events using List.reverseRecOn with
  | nil =>
    refine ⟨hi, fun fence => ⟨fun h => ?_, fun ⟨_, _, _, heq, _⟩ => by simp at heq⟩⟩
    rw [run, List.foldl_nil, hfences] at h
    cases h
  | append_singleton events event ih =>
    obtain ⟨himages, houtstanding⟩ := ih
    rw [run_concat]
    refine ⟨images_step himages event, fun fence => ?_⟩
    rw [fences_step himages, outstanding_concat, houtstanding]

/-- Evictions spare what other pools share. Whatever an engine has run through, no purge empties a cell that a pool of the
    index depends on; a removal with eviction purges exactly the accounts that only its pools had, and at shared accounts
    the slots that only they named; a reorg purges so what the fences have, which are those recorded and not yet retired. -/
theorem eviction_spares_shared {registry : AdapterRegistry} {engine : AmmSyncEngine}
    (hok : AmmSyncEngine.withConfig handlerId registry = .ok engine) (events : List Event) (event : Event) :
    Purges handlerId (run handlerId ⟨engine, []⟩ events) event ∧
      ∀ fence, fence ∈ (run handlerId ⟨engine, []⟩ events).evictionFences ↔
        Outstanding handlerId ⟨engine, []⟩ events fence := by
  obtain ⟨himages, hfences⟩ := @run_spec handlerId ⟨engine, []⟩ (images_withConfig handlerId hok) rfl events
  exact ⟨purges_step himages event, hfences⟩

end

/-! ### A shared account -/

namespace Shared

def account : Address := 7

/-- Its first pool depends on the whole account, any other on one slot there. -/
def adapter : AmmAdapter :=
  ⟨0, .uniswapV2, [.uniswapV2], List.mem_singleton_self _,
    fun registration => if registration.key = .uniswapV2 1
      then ⟨[account], [account], [], by simp, nofun⟩ else ⟨[account], [], [⟨account, 0⟩], nofun, by simp⟩,
    fun _ => []⟩

def registration (key : Address) : PoolRegistration := ⟨.uniswapV2 key, [], [], .unknown, .ready⟩

def handlerId (pool : PoolInstanceId) : HandlerId := if pool.key = .uniswapV2 1 then ⟨"first"⟩ else ⟨"other"⟩

/-- The engine of an empty registry. -/
def start : AmmSyncEngine where
  registry := .empty
  ownership := .empty
  handlers := .empty
  routing := .empty
  generations := .empty
  reservations := []
  lifecycles := lifecyclesFor .empty .empty ⟨.empty, .empty⟩
  degradedPoolCount := 0

def events : List Event := [.addAdapter adapter, .addPools [registration 1, registration 2]]

def removal : Event := .removePools [.uniswapV2 1] .exclusive ∅

/-- Both pools are removed while the handler of the first is in the journal. -/
def fenced : List Event := events ++ [.removePools [.uniswapV2 1, .uniswapV2 2] .exclusive {⟨"first"⟩}]

/-- A canonical batch in which nothing fails. -/
def batch (reorg : Bool) (journaled : Finset HandlerId) : Event :=
  .ingest (some ⟨false, [], [], [], [], [], [], [], false, []⟩) reorg false journaled

theorem withConfig_start : AmmSyncEngine.withConfig handlerId .empty = .ok start := rfl

def cell : StateSlot := ⟨account, 1⟩

/-- The removed pool depends on the cell, and no pool that remains does. -/
theorem exclusive_cell :
    (∃ o, Gone (run handlerId ⟨start, []⟩ events).engine.ownership
        ((run handlerId ⟨start, []⟩ events).step handlerId removal).state.engine.ownership o ∧
      (cell ∈ o.dependencies.slots ∨ cell.address ∈ o.dependencies.wholeAccounts)) ∧
    ¬((run handlerId ⟨start, []⟩ events).step handlerId removal).state.engine.ownership.Depends cell := by
  have hi := (@run_spec handlerId ⟨start, []⟩ (images_withConfig handlerId withConfig_start) rfl events).1
  refine ⟨⟨_, ⟨⟨.uniswapV2 1, 0⟩, rfl, rfl⟩, .inr (List.mem_singleton_self _)⟩, ?_⟩
  exact (images_step hi removal).poolsForSlot_eq_nil.mp rfl

end Shared

/-- The cells that a removal purges are exactly those that its pools depended on and no remaining pool depends on. -/
def EvictsExactly (handlerId : PoolInstanceId → HandlerId) (x : EvictingEngine) (event : Event) : Prop :=
  ∀ cell, (∃ purge ∈ (x.step handlerId event).purges, purge.Hits cell) ↔
    (∃ o, Gone x.engine.ownership (x.step handlerId event).state.engine.ownership o ∧
      (cell ∈ o.dependencies.slots ∨ cell.address ∈ o.dependencies.wholeAccounts)) ∧
    ¬(x.step handlerId event).state.engine.ownership.Depends cell

/-- What is left of an account that a pool shared stays in the cache, though no pool depends on it. -/
theorem not_evictsExactly_sharedAccount : AmmSyncEngine.withConfig Shared.handlerId .empty = .ok Shared.start ∧
    ¬EvictsExactly Shared.handlerId (run Shared.handlerId ⟨Shared.start, []⟩ Shared.events) Shared.removal := by
  refine ⟨Shared.withConfig_start, fun h => ?_⟩
  obtain ⟨purge, hpurge, -⟩ := (h Shared.cell).mpr Shared.exclusive_cell
  have hpurges : ((run Shared.handlerId ⟨Shared.start, []⟩ Shared.events).step Shared.handlerId Shared.removal).purges =
      [] := rfl
  rw [hpurges] at hpurge
  cases hpurge

/-- Both pools leave, and the first has journal entries: its fence purges the account again behind a reorg, and a batch
    that finds the journal empty retires it. -/
theorem eviction_spares_sharedAccount :
    (Purges Shared.handlerId (run Shared.handlerId ⟨Shared.start, []⟩ Shared.fenced) (Shared.batch true {⟨"first"⟩}) ∧
      ∀ fence, fence ∈ (run Shared.handlerId ⟨Shared.start, []⟩ Shared.fenced).evictionFences ↔
        Outstanding Shared.handlerId ⟨Shared.start, []⟩ Shared.fenced fence) ∧
    (run Shared.handlerId ⟨Shared.start, []⟩ Shared.fenced).evictionFences.map (·.handler) = [⟨"first"⟩] ∧
    ((run Shared.handlerId ⟨Shared.start, []⟩ Shared.fenced).step Shared.handlerId
      (Shared.batch true {⟨"first"⟩})).purges = [.storage Shared.account] ∧
    ((run Shared.handlerId ⟨Shared.start, []⟩ (Shared.fenced ++ [Shared.batch false ∅])).evictionFences = [] ∧
      ∀ fence, ¬Outstanding Shared.handlerId ⟨Shared.start, []⟩ (Shared.fenced ++ [Shared.batch false ∅]) fence) := by
  obtain ⟨-, hfences⟩ := eviction_spares_shared Shared.withConfig_start
    (Shared.fenced ++ [Shared.batch false ∅]) Shared.removal
  have hretired : (run Shared.handlerId ⟨Shared.start, []⟩ (Shared.fenced ++ [Shared.batch false ∅])).evictionFences = [] :=
    rfl
  refine ⟨eviction_spares_shared Shared.withConfig_start Shared.fenced (Shared.batch true {⟨"first"⟩}), rfl, rfl, hretired,
    fun fence houtstanding => ?_⟩
  have hmem := (hfences fence).mpr houtstanding
  rw [hretired] at hmem
  cases hmem

end EvictingEngine
end SyncManager
end AmmState
