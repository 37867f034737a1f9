import AmmState.Ownership

/-! The representation invariant of the ownership index: every reverse index is the image of the forward maps.
    Each mutation keeps it, and a mutation that fails leaves the index as it was. -/

namespace AmmState.AmmOwnershipIndex
open ReverseIndex

/-- `m` is exactly the image of the pools under the keys each of them declares. -/
def PoolImage {K : Type} (x : AmmOwnershipIndex) (m : ReverseIndex K PoolInstanceId)
    (declares : PoolOwnership → K → Prop) : Prop :=
  NoEmpty m ∧ ∀ k p, Owns m k p ↔ ∃ o, x.pools.get p = some o ∧ declares o k

/-- The representation invariant. -/
structure Inv (x : AmmOwnershipIndex) : Prop where
  activeAdapters : ∀ k a, x.activeAdapters.get k = some a ↔ a ∈ x.adapters ∧ a.key = k
  activePools : ∀ k p, x.activePools.get k = some p ↔ (∃ o, x.pools.get p = some o) ∧ p.key = k
  poolInstance : ∀ p o, x.pools.get p = some o → o.instance = p ∧ o.adapter ∈ x.adapters
  handlerPools : ∀ h p, x.handlerPools.get h = some p ↔ ∃ o, x.pools.get p = some o ∧ o.handler = h
  adapterPools : PoolImage x x.adapterPools fun o a => o.adapter = a
  addressPools : PoolImage x x.addressPools fun o a => a ∈ o.dependencies.associatedAddresses
  wholeAccountPools : PoolImage x x.wholeAccountPools fun o a => a ∈ o.dependencies.wholeAccounts
  slotPools : PoolImage x x.slotPools fun o s => s ∈ o.dependencies.slots
  emitterPools : PoolImage x x.emitterPools fun o a => a ∈ o.eventEmitters
  activeDiscovery : ∀ k d, x.activeDiscovery.get k = some d ↔ (∃ o, x.discovery.get d = some o) ∧ d.key = k
  discoveryInstance : ∀ d o, x.discovery.get d = some o → o.owner = d ∧ o.adapter ∈ x.adapters
  adapterDiscovery : NoEmpty x.adapterDiscovery ∧
    ∀ a d, Owns x.adapterDiscovery a d ↔ ∃ o, x.discovery.get d = some o ∧ o.adapter = a
  ownerWork : NoEmpty x.ownerWork ∧ ∀ owner w, Owns x.ownerWork owner w → w.owner = owner ∧ x.ownerLive owner
  resyncInverse : ∀ r p, x.resyncOwners.get r = some p ↔ ∃ rs, x.poolResyncs.get p = some rs ∧ r ∈ rs
  poolResyncs : ∀ p rs, x.poolResyncs.get p = some rs → rs ≠ [] ∧ rs.Nodup ∧ ∃ o, x.pools.get p = some o

/-! ### What an operation keeps -/

section
variable {x y : AmmOwnershipIndex} {K : Type} {m n : ReverseIndex K PoolInstanceId}
  {declares : PoolOwnership → K → Prop}

theorem PoolImage.congr (h : PoolImage x m declares) (hp : y.pools = x.pools) : PoolImage y m declares := by
  unfold PoolImage
  rw [hp]
  exact h

/-- Inserting a pool under the keys it declares keeps the image. -/
theorem PoolImage.insert {o : PoolOwnership} {p : PoolInstanceId} (h : PoolImage x m declares)
    (fresh : x.pools.get p = none) (hp : y.pools = x.pools.insert p o) (hn : NoEmpty n)
    (hown : ∀ k q, Owns n k q ↔ Owns m k q ∨ (declares o k ∧ q = p)) : PoolImage y n declares := by
  refine ⟨hn, fun k q => ?_⟩
  rw [hown, h.2, hp]
  by_cases hq : q = p
  · subst hq
    simp [fresh]
  · simp [Map.get_insert_of_ne hq, hq]

/-- Removing a pool from the keys it declares keeps the image. -/
theorem PoolImage.remove {o : PoolOwnership} {p : PoolInstanceId} (h : PoolImage x m declares)
    (present : x.pools.get p = some o) (hp : y.pools = x.pools.remove p) (hn : NoEmpty n)
    (hown : ∀ k q, Owns n k q ↔ Owns m k q ∧ ¬(declares o k ∧ q = p)) : PoolImage y n declares := by
  refine ⟨hn, fun k q => ?_⟩
  rw [hown, h.2, hp]
  by_cases hq : q = p
  · subst hq
    simp [present]
  · simp [Map.get_remove_of_ne hq, hq]

/-- Replacing what a pool declares moves it from its old keys to the new ones. -/
theorem PoolImage.replace {o o' : PoolOwnership} {p : PoolInstanceId} (h : PoolImage x m declares)
    (present : x.pools.get p = some o) (hp : y.pools = x.pools.insert p o') (hn : NoEmpty n)
    (hown : ∀ k q, Owns n k q ↔ (Owns m k q ∧ ¬(declares o k ∧ q = p)) ∨ (declares o' k ∧ q = p)) :
    PoolImage y n declares := by
  refine ⟨hn, fun k q => ?_⟩
  rw [hown, h.2, hp]
  by_cases hq : q = p
  · subst hq
    simp [present]
  · simp [Map.get_insert_of_ne hq, hq]

theorem ownerLive_iff {owner : RuntimeOwnerId} : x.ownerLive owner = true ↔
    (∃ p o, owner = .pool p ∧ x.pools.get p = some o) ∨ (∃ a, owner = .adapter a ∧ a ∈ x.adapters) ∨
      ∃ d o, owner = .discovery d ∧ x.discovery.get d = some o := by
  cases owner <;> simp [ownerLive, Map.contains_iff]

theorem ownerLive_mono (hp : ∀ p o, x.pools.get p = some o → ∃ o', y.pools.get p = some o')
    (ha : x.adapters ⊆ y.adapters) (hd : ∀ d o, x.discovery.get d = some o → ∃ o', y.discovery.get d = some o')
    {owner : RuntimeOwnerId} (h : x.ownerLive owner = true) : y.ownerLive owner = true := by
  rw [ownerLive_iff] at h ⊢
  rcases h with ⟨p, o, rfl, h⟩ | ⟨a, rfl, h⟩ | ⟨d, o, rfl, h⟩
  · obtain ⟨o', h'⟩ := hp p o h
    exact Or.inl ⟨p, o', rfl, h'⟩
  · exact Or.inr (Or.inl ⟨a, rfl, ha h⟩)
  · obtain ⟨o', h'⟩ := hd d o h
    exact Or.inr (Or.inr ⟨d, o', rfl, h'⟩)

/-- Work of live owners stays so when no owner goes away. -/
theorem Inv.work_mono (h : Inv x) (hp : ∀ p o, x.pools.get p = some o → ∃ o', y.pools.get p = some o')
    (ha : x.adapters ⊆ y.adapters) (hd : ∀ d o, x.discovery.get d = some o → ∃ o', y.discovery.get d = some o') :
    NoEmpty x.ownerWork ∧ ∀ owner w, Owns x.ownerWork owner w → w.owner = owner ∧ y.ownerLive owner :=
  ⟨h.ownerWork.1, fun owner w hw =>
    ⟨(h.ownerWork.2 owner w hw).1, ownerLive_mono hp ha hd (h.ownerWork.2 owner w hw).2⟩⟩

/-- An image is determined by the pools. -/
theorem PoolImage.ext (h : PoolImage x m declares) (hn : PoolImage y n declares) (hp : x.pools = y.pools) : m = n :=
  ext_of_owns h.1 hn.1 fun k p => by rw [h.2, hn.2, hp]

/-- Two maps with the same entries are equal. -/
theorem ext_of_get {K V : Type} {m n : Map K V} (h : ∀ k v, m.get k = some v ↔ n.get k = some v) : m = n :=
  Map.ext fun k => Option.ext fun v => h k v

/-- A well-formed index is determined by its forward maps, its work and its resyncs. -/
theorem Inv.ext (hx : Inv x) (hy : Inv y) (adapters : x.adapters = y.adapters) (pools : x.pools = y.pools)
    (discovery : x.discovery = y.discovery) (work : x.ownerWork = y.ownerWork)
    (resyncs : x.poolResyncs = y.poolResyncs) : x = y := by
  have hactive : x.activeAdapters = y.activeAdapters := ext_of_get fun k a => by
    rw [hx.activeAdapters, hy.activeAdapters, adapters]
  have hpools : x.activePools = y.activePools := ext_of_get fun k p => by rw [hx.activePools, hy.activePools, pools]
  have hhandlers : x.handlerPools = y.handlerPools := ext_of_get fun k p => by
    rw [hx.handlerPools, hy.handlerPools, pools]
  have hdiscovery : x.activeDiscovery = y.activeDiscovery := ext_of_get fun k d => by
    rw [hx.activeDiscovery, hy.activeDiscovery, discovery]
  have hadapters : x.adapterDiscovery = y.adapterDiscovery :=
    ext_of_owns hx.adapterDiscovery.1 hy.adapterDiscovery.1 fun a d => by
      rw [hx.adapterDiscovery.2, hy.adapterDiscovery.2, discovery]
  have hresyncs : x.resyncOwners = y.resyncOwners := ext_of_get fun r p => by
    rw [hx.resyncInverse, hy.resyncInverse, resyncs]
  have himages := hx.adapterPools.ext hy.adapterPools pools
  have haddresses := hx.addressPools.ext hy.addressPools pools
  have haccounts := hx.wholeAccountPools.ext hy.wholeAccountPools pools
  have hslots := hx.slotPools.ext hy.slotPools pools
  have hemitters := hx.emitterPools.ext hy.emitterPools pools
  cases x
  cases y
  congr

theorem validateOwner_eq_ok {owner : RuntimeOwnerId} (h : x.validateOwner owner = .ok ()) :
    x.ownerLive owner = true := by
  cases owner <;> simp only [validateOwner] at h <;> split at h <;> simp_all [ownerLive]

end

/-! ### What an operation does

    A fallible operation fails and leaves the index alone, or its checks held and it returns the new index. -/

section
variable {x : AmmOwnershipIndex}

theorem insertAdapter_inv (adapter : AdapterInstanceId) (x : AmmOwnershipIndex) :
    (∃ e, insertAdapter adapter x = (.error e, x)) ∨
    (x.activeAdapters.get adapter.key = none ∧ insertAdapter adapter x = (.ok (), { x with
      activeAdapters := x.activeAdapters.insert adapter.key adapter
      adapters := insert adapter x.adapters })) := by
  unfold insertAdapter
  split_ifs with hc
  · exact Or.inl ⟨_, rfl⟩
  · exact Or.inr ⟨by simpa [Map.contains] using hc, rfl⟩

theorem insertPool_inv (o : PoolOwnership) (x : AmmOwnershipIndex) :
    (∃ e, insertPool o x = (.error e, x)) ∨
    (o.adapter ∈ x.adapters ∧ x.activePools.get o.instance.key = none ∧ x.pools.get o.instance = none ∧
      x.handlerPools.get o.handler = none ∧
      insertPool o x = (.ok (), indexResources o o.instance { x with
        activePools := x.activePools.insert o.instance.key o.instance
        handlerPools := x.handlerPools.insert o.handler o.instance
        adapterPools := insertOwner x.adapterPools o.adapter o.instance
        pools := x.pools.insert o.instance o })) := by
  unfold insertPool
  by_cases hadapter : o.adapter ∉ x.adapters
  · exact Or.inl ⟨_, if_pos hadapter⟩
  by_cases hproto : o.instance.key.protocol ∉ o.adapter.key.protocols
  · exact Or.inl ⟨_, by rw [if_neg hadapter, if_pos hproto]⟩
  simp only [if_neg hadapter, if_neg hproto]
  split_ifs with hactive hpools hhandler
  · exact Or.inl ⟨_, rfl⟩
  · exact Or.inl ⟨_, rfl⟩
  · exact Or.inl ⟨_, rfl⟩
  · exact Or.inr ⟨not_not.mp hadapter, by simpa [Map.contains] using hactive,
      by simpa [Map.contains] using hpools, by simpa [Map.contains] using hhandler, rfl⟩

/-- The index after a pool's declared resources are replaced. -/
def replaced (previous o : PoolOwnership) (x : AmmOwnershipIndex) : AmmOwnershipIndex :=
  { indexResources o o.instance (unindexResources previous o.instance x) with pools := x.pools.insert o.instance o }

theorem replacePool_inv (o : PoolOwnership) (x : AmmOwnershipIndex) :
    (∃ e, replacePool o x = (.error e, x)) ∨
    (∃ previous, x.pools.get o.instance = some previous ∧ previous.handler = o.handler ∧
      previous.adapter = o.adapter ∧ replacePool o x = (.ok previous, replaced previous o x)) := by
  unfold replacePool
  simp only []
  split_ifs with hactive
  · exact Or.inl ⟨_, rfl⟩
  cases hp : x.pools.get o.instance with
  | none => exact Or.inl ⟨_, rfl⟩
  | some previous =>
    simp only []
    split_ifs with hident
    · exact Or.inl ⟨_, rfl⟩
    · simp only [not_or, not_not] at hident
      exact Or.inr ⟨previous, rfl, hident.1, hident.2.1, rfl⟩

theorem insertDiscovery_inv (o : DiscoveryOwnership) (x : AmmOwnershipIndex) :
    (∃ e, insertDiscovery o x = (.error e, x)) ∨
    (o.adapter ∈ x.adapters ∧ x.activeDiscovery.get o.owner.key = none ∧ x.discovery.get o.owner = none ∧
      insertDiscovery o x = (.ok (), { x with
        activeDiscovery := x.activeDiscovery.insert o.owner.key o.owner
        adapterDiscovery := insertOwner x.adapterDiscovery o.adapter o.owner
        discovery := x.discovery.insert o.owner o })) := by
  unfold insertDiscovery
  by_cases hadapter : o.adapter ∉ x.adapters
  · exact Or.inl ⟨_, if_pos hadapter⟩
  simp only [if_neg hadapter]
  split_ifs with hactive hdisc
  · exact Or.inl ⟨_, rfl⟩
  · exact Or.inl ⟨_, rfl⟩
  · exact Or.inr ⟨not_not.mp hadapter, by simpa [Map.contains] using hactive,
      by simpa [Map.contains] using hdisc, rfl⟩

theorem trackWork_inv (work : RuntimeWorkId) (x : AmmOwnershipIndex) :
    (∃ e, trackWork work x = (.error e, x)) ∨
    (x.ownerLive work.owner = true ∧
      trackWork work x = (.ok (), { x with ownerWork := insertOwner x.ownerWork work.owner work })) := by
  unfold trackWork
  cases hv : x.validateOwner work.owner with
  | error e => exact Or.inl ⟨e, rfl⟩
  | ok u =>
    simp only []
    split_ifs with hdup
    · -- The set that holds the work was there before `or_default()`.
      refine Or.inl ⟨.duplicateWork work, ?_⟩
      cases ho : x.ownerWork.get work.owner with
      | none => simp [ho] at hdup
      | some s => rw [Option.getD_some, Map.insert_get ho]
    · exact Or.inr ⟨validateOwner_eq_ok hv, rfl⟩

theorem trackResync_inv (pool : PoolInstanceId) (resync : ResyncId) (x : AmmOwnershipIndex) :
    (∃ e, trackResync pool resync x = (.error e, x)) ∨
    ((∃ o, x.pools.get pool = some o) ∧ x.resyncOwners.get resync = none ∧
      trackResync pool resync x = (.ok (), { x with
        resyncOwners := x.resyncOwners.insert resync pool
        poolResyncs := x.poolResyncs.insert pool ((x.poolResyncs.get pool).getD [] ++ [resync]) })) := by
  unfold trackResync
  split_ifs with hpool hdup
  · exact Or.inl ⟨_, rfl⟩
  · exact Or.inl ⟨_, rfl⟩
  · exact Or.inr ⟨Map.contains_iff.mp (by simpa using hpool), by simpa [Map.contains] using hdup, rfl⟩

theorem removeAdapter_inv (adapter : AdapterInstanceId) (x : AmmOwnershipIndex) :
    (∃ e, removeAdapter adapter x = (.error e, x)) ∨ removeAdapter adapter x = (.ok false, x) ∨
    (adapter ∈ x.adapters ∧ (∀ s, x.adapterPools.get adapter = some s → s = ∅) ∧
      (∀ s, x.adapterDiscovery.get adapter = some s → s = ∅) ∧
      removeAdapter adapter x = (.ok true, { x with
        adapters := x.adapters.erase adapter
        activeAdapters :=
          if x.activeAdapters.get adapter.key = some adapter then x.activeAdapters.remove adapter.key
          else x.activeAdapters
        ownerWork := x.ownerWork.remove (.adapter adapter) })) := by
  unfold removeAdapter removeAdapterPrevalidated
  by_cases huse : (x.adapterPools.get adapter).any (· ≠ ∅) ∨ (x.adapterDiscovery.get adapter).any (· ≠ ∅)
  · exact Or.inl ⟨_, if_pos huse⟩
  rw [if_neg huse]
  by_cases hmem : adapter ∉ x.adapters
  · exact Or.inr (Or.inl (by rw [if_pos hmem]))
  · rw [if_neg hmem]
    simp only [not_or, Option.any_eq_true, decide_eq_true_eq, not_exists, not_and, not_not] at huse hmem
    exact Or.inr (Or.inr ⟨hmem, huse.1, huse.2, rfl⟩)

end

theorem inv_empty : Inv empty where
  activeAdapters := by simp [empty]
  activePools := by simp [empty]
  poolInstance := by simp [empty]
  handlerPools := by simp [empty]
  adapterPools := ⟨noEmpty_empty, by simp [empty, not_owns_empty]⟩
  addressPools := ⟨noEmpty_empty, by simp [empty, not_owns_empty]⟩
  wholeAccountPools := ⟨noEmpty_empty, by simp [empty, not_owns_empty]⟩
  slotPools := ⟨noEmpty_empty, by simp [empty, not_owns_empty]⟩
  emitterPools := ⟨noEmpty_empty, by simp [empty, not_owns_empty]⟩
  activeDiscovery := by simp [empty]
  discoveryInstance := by simp [empty]
  adapterDiscovery := ⟨noEmpty_empty, by simp [empty, not_owns_empty]⟩
  ownerWork := ⟨noEmpty_empty, by simp [empty, not_owns_empty]⟩
  resyncInverse := by simp [empty]
  poolResyncs := by simp [empty]

/-! ### Insertions -/

section
variable {x : AmmOwnershipIndex}

theorem Inv.insertAdapter (h : Inv x) (adapter : AdapterInstanceId) : Inv (insertAdapter adapter x).2 := by
  rcases insertAdapter_inv adapter x with ⟨e, he⟩ | ⟨hnone, he⟩ <;> rw [he]
  · exact h
  · -- No registered adapter has the key: `activeAdapters` would name it.
    have hfresh : ∀ a ∈ x.adapters, a.key ≠ adapter.key := by
      intro a ha hk
      rw [(h.activeAdapters _ a).mpr ⟨ha, hk⟩] at hnone
      cases hnone
    exact
      { h with
        activeAdapters := fun k a => by
          simp only [Map.get_insert_eq_some, Finset.mem_insert, h.activeAdapters]
          constructor
          · rintro (⟨rfl, rfl⟩ | ⟨-, ha, rfl⟩)
            · exact ⟨Or.inl rfl, rfl⟩
            · exact ⟨Or.inr ha, rfl⟩
          · rintro ⟨rfl | ha, rfl⟩
            · exact Or.inl ⟨rfl, rfl⟩
            · exact Or.inr ⟨hfresh a ha, ha, rfl⟩
        poolInstance := fun p o hp =>
          ⟨(h.poolInstance p o hp).1, Finset.mem_insert_of_mem (h.poolInstance p o hp).2⟩
        discoveryInstance := fun d o hd =>
          ⟨(h.discoveryInstance d o hd).1, Finset.mem_insert_of_mem (h.discoveryInstance d o hd).2⟩
        ownerWork := h.work_mono (fun _ o ho => ⟨o, ho⟩) (Finset.subset_insert _ _) (fun _ o ho => ⟨o, ho⟩) }

theorem Inv.insertPool (h : Inv x) (ownership : PoolOwnership) : Inv (insertPool ownership x).2 := by
  rcases insertPool_inv ownership x with ⟨e, he⟩ | ⟨hadapter, hactive, hfresh, hhandler, he⟩ <;> rw [he]
  · exact h
  have hkey : ∀ p o, x.pools.get p = some o → p.key ≠ ownership.instance.key := by
    intro p o hp hk
    rw [(h.activePools _ p).mpr ⟨⟨o, hp⟩, hk⟩] at hactive
    cases hactive
  have hfreshHandler : ∀ p o, x.pools.get p = some o → o.handler ≠ ownership.handler := by
    intro p o hp hh
    rw [(h.handlerPools _ p).mpr ⟨o, hp, hh⟩] at hhandler
    cases hhandler
  have hne : ∀ {p : PoolInstanceId} {o : PoolOwnership}, x.pools.get p = some o → p ≠ ownership.instance := by
    rintro p o hp rfl
    rw [hfresh] at hp
    cases hp
  have hkeep : ∀ p o, x.pools.get p = some o → ∃ o', (x.pools.insert ownership.instance ownership).get p = some o' :=
    fun p o hp => ⟨o, by rw [Map.get_insert_of_ne (hne hp), hp]⟩
  exact
    { h with
      activePools := fun k p => by
        simp only [indexResources, Map.get_insert_eq_some, h.activePools]
        constructor
        · rintro (⟨rfl, rfl⟩ | ⟨-, ⟨o, hp⟩, rfl⟩)
          · exact ⟨⟨ownership, Or.inl ⟨rfl, rfl⟩⟩, rfl⟩
          · exact ⟨⟨o, Or.inr ⟨hne hp, hp⟩⟩, rfl⟩
        · rintro ⟨⟨o, ⟨rfl, rfl⟩ | ⟨-, hp⟩⟩, rfl⟩
          · exact Or.inl ⟨rfl, rfl⟩
          · exact Or.inr ⟨hkey p o hp, ⟨o, hp⟩, rfl⟩
      poolInstance := fun p o hp => by
        rcases Map.get_insert_eq_some.mp hp with ⟨rfl, rfl⟩ | ⟨-, hp⟩
        · exact ⟨rfl, hadapter⟩
        · exact h.poolInstance p o hp
      handlerPools := fun hd p => by
        simp only [indexResources, Map.get_insert_eq_some, h.handlerPools]
        constructor
        · rintro (⟨rfl, rfl⟩ | ⟨-, o, hp, rfl⟩)
          · exact ⟨ownership, Or.inl ⟨rfl, rfl⟩, rfl⟩
          · exact ⟨o, Or.inr ⟨hne hp, hp⟩, rfl⟩
        · rintro ⟨o, ⟨rfl, rfl⟩ | ⟨-, hp⟩, rfl⟩
          · exact Or.inl ⟨rfl, rfl⟩
          · exact Or.inr ⟨hfreshHandler p o hp, o, hp, rfl⟩
      adapterPools := h.adapterPools.insert hfresh rfl (noEmpty_insertOwner h.adapterPools.1)
        fun k q => owns_insertOwner.trans (by rw [eq_comm (a := k)])
      addressPools := h.addressPools.insert hfresh rfl (noEmpty_insertOwners h.addressPools.1)
        fun k q => owns_insertOwners
      wholeAccountPools := h.wholeAccountPools.insert hfresh rfl (noEmpty_insertOwners h.wholeAccountPools.1)
        fun k q => owns_insertOwners
      slotPools := h.slotPools.insert hfresh rfl (noEmpty_insertOwners h.slotPools.1) fun k q => owns_insertOwners
      emitterPools := h.emitterPools.insert hfresh rfl (noEmpty_insertOwners h.emitterPools.1)
        fun k q => owns_insertOwners
      ownerWork := h.work_mono hkeep (Finset.Subset.refl _) (fun _ o ho => ⟨o, ho⟩)
      poolResyncs := fun p rs hrs => by
        obtain ⟨hne', hnd, o, hp⟩ := h.poolResyncs p rs hrs
        exact ⟨hne', hnd, hkeep p o hp⟩ }

theorem Inv.replacePool (h : Inv x) (ownership : PoolOwnership) : Inv (replacePool ownership x).2 := by
  rcases replacePool_inv ownership x with ⟨e, he⟩ | ⟨previous, hprev, hhandler, hadapter, he⟩ <;> rw [he]
  · exact h
  have hkeep : ∀ p o, x.pools.get p = some o →
      ∃ o', (x.pools.insert ownership.instance ownership).get p = some o' := by
    intro p o hp
    by_cases hp' : p = ownership.instance
    · exact ⟨ownership, by rw [hp', Map.get_insert_self]⟩
    · exact ⟨o, by rw [Map.get_insert_of_ne hp', hp]⟩
  have hown : ∀ {K : Type} [DecidableEq K] (m : ReverseIndex K PoolInstanceId) (f : PoolOwnership → List K) k q,
      Owns (insertOwners (removeOwners m (f previous) ownership.instance) (f ownership) ownership.instance) k q ↔
        (Owns m k q ∧ ¬(k ∈ f previous ∧ q = ownership.instance)) ∨ (k ∈ f ownership ∧ q = ownership.instance) :=
    fun m f k q => by rw [owns_insertOwners, owns_removeOwners]
  exact
    { h with
      activePools := fun k p => by
        rw [show (replaced previous ownership x).activePools = x.activePools from rfl, h.activePools]
        refine and_congr_left fun _ => ⟨fun ⟨o, hp⟩ => hkeep p o hp, fun ⟨o, hp⟩ => ?_⟩
        rcases Map.get_insert_eq_some.mp hp with ⟨rfl, -⟩ | ⟨-, hp⟩
        · exact ⟨previous, hprev⟩
        · exact ⟨o, hp⟩
      poolInstance := fun p o hp => by
        rcases Map.get_insert_eq_some.mp hp with ⟨rfl, rfl⟩ | ⟨-, hp⟩
        · exact ⟨rfl, hadapter ▸ (h.poolInstance _ _ hprev).2⟩
        · exact h.poolInstance p o hp
      handlerPools := fun hd p => by
        rw [show (replaced previous ownership x).handlerPools = x.handlerPools from rfl, h.handlerPools]
        by_cases hp : p = ownership.instance
        · subst hp
          simp [replaced, hprev, hhandler]
        · simp [replaced, Map.get_insert_of_ne hp]
      adapterPools := by
        refine ⟨h.adapterPools.1, fun a p => (h.adapterPools.2 a p).trans ?_⟩
        by_cases hp : p = ownership.instance
        · subst hp
          simp [replaced, hprev, hadapter]
        · simp [replaced, Map.get_insert_of_ne hp]
      addressPools := h.addressPools.replace hprev rfl (noEmpty_insertOwners (noEmpty_removeOwners h.addressPools.1))
        (hown _ fun o => o.dependencies.associatedAddresses)
      wholeAccountPools := h.wholeAccountPools.replace hprev rfl
        (noEmpty_insertOwners (noEmpty_removeOwners h.wholeAccountPools.1)) (hown _ fun o => o.dependencies.wholeAccounts)
      slotPools := h.slotPools.replace hprev rfl (noEmpty_insertOwners (noEmpty_removeOwners h.slotPools.1))
        (hown _ fun o => o.dependencies.slots)
      emitterPools := h.emitterPools.replace hprev rfl (noEmpty_insertOwners (noEmpty_removeOwners h.emitterPools.1))
        (hown _ fun o => o.eventEmitters)
      ownerWork := h.work_mono hkeep (Finset.Subset.refl _) (fun _ o ho => ⟨o, ho⟩)
      poolResyncs := fun p rs hrs => by
        obtain ⟨hne', hnd, o, hp⟩ := h.poolResyncs p rs hrs
        exact ⟨hne', hnd, hkeep p o hp⟩ }

theorem Inv.insertDiscovery (h : Inv x) (ownership : DiscoveryOwnership) : Inv (insertDiscovery ownership x).2 := by
  rcases insertDiscovery_inv ownership x with ⟨e, he⟩ | ⟨hadapter, hactive, hfresh, he⟩ <;> rw [he]
  · exact h
  have hkey : ∀ d o, x.discovery.get d = some o → d.key ≠ ownership.owner.key := by
    intro d o hd hk
    rw [(h.activeDiscovery _ d).mpr ⟨⟨o, hd⟩, hk⟩] at hactive
    cases hactive
  have hne : ∀ {d : DiscoveryOwnerId} {o : DiscoveryOwnership}, x.discovery.get d = some o → d ≠ ownership.owner := by
    rintro d o hd rfl
    rw [hfresh] at hd
    cases hd
  exact
    { h with
      activeDiscovery := fun k d => by
        simp only [Map.get_insert_eq_some, h.activeDiscovery]
        constructor
        · rintro (⟨rfl, rfl⟩ | ⟨-, ⟨o, hd⟩, rfl⟩)
          · exact ⟨⟨ownership, Or.inl ⟨rfl, rfl⟩⟩, rfl⟩
          · exact ⟨⟨o, Or.inr ⟨hne hd, hd⟩⟩, rfl⟩
        · rintro ⟨⟨o, ⟨rfl, rfl⟩ | ⟨-, hd⟩⟩, rfl⟩
          · exact Or.inl ⟨rfl, rfl⟩
          · exact Or.inr ⟨hkey d o hd, ⟨o, hd⟩, rfl⟩
      discoveryInstance := fun d o hd => by
        rcases Map.get_insert_eq_some.mp hd with ⟨rfl, rfl⟩ | ⟨-, hd⟩
        · exact ⟨rfl, hadapter⟩
        · exact h.discoveryInstance d o hd
      adapterDiscovery := by
        refine ⟨noEmpty_insertOwner h.adapterDiscovery.1, fun a d => ?_⟩
        rw [owns_insertOwner, h.adapterDiscovery.2]
        by_cases hd : d = ownership.owner
        · subst hd
          simp [hfresh, eq_comm]
        · simp [Map.get_insert_of_ne hd, hd]
      ownerWork := h.work_mono (fun _ o ho => ⟨o, ho⟩) (Finset.Subset.refl _)
        fun d o hd => ⟨o, by rw [Map.get_insert_of_ne (hne hd), hd]⟩ }

/-! ### Work and resync requests -/

theorem Inv.trackWork (h : Inv x) (work : RuntimeWorkId) : Inv (trackWork work x).2 := by
  rcases trackWork_inv work x with ⟨e, he⟩ | ⟨hlive, he⟩ <;> rw [he]
  · exact h
  · refine { h with ownerWork := ⟨noEmpty_insertOwner h.ownerWork.1, fun owner w hw => ?_⟩ }
    rcases owns_insertOwner.mp hw with hw | ⟨rfl, rfl⟩
    · exact h.ownerWork.2 owner w hw
    · exact ⟨rfl, hlive⟩

theorem Inv.untrackWork (h : Inv x) (work : RuntimeWorkId) : Inv (untrackWork work x).2 := by
  unfold AmmOwnershipIndex.untrackWork
  split
  · exact h
  · exact { h with
      ownerWork := ⟨noEmpty_removeOwner h.ownerWork.1, fun owner w hw => h.ownerWork.2 owner w (owns_removeOwner.mp hw).1⟩ }

theorem Inv.trackResync (h : Inv x) (pool : PoolInstanceId) (resync : ResyncId) :
    Inv (trackResync pool resync x).2 := by
  rcases trackResync_inv pool resync x with ⟨e, he⟩ | ⟨hpool, hfresh, he⟩ <;> rw [he]
  · exact h
  -- The request is in no list: `resyncOwners` would name its pool.
  have hnew : ∀ p rs, x.poolResyncs.get p = some rs → resync ∉ rs := by
    intro p rs hrs hmem
    rw [(h.resyncInverse resync p).mpr ⟨rs, hrs, hmem⟩] at hfresh
    cases hfresh
  refine { h with resyncInverse := fun r p => ?_, poolResyncs := fun p rs hrs => ?_ }
  · by_cases hp : p = pool
    · subst hp
      rw [Map.get_insert_eq_some, Map.get_insert_self, h.resyncInverse]
      cases hl : x.poolResyncs.get p with
      | none => simp
      | some l =>
        have := hnew p l hl
        simp only [and_true, Option.some.injEq, exists_eq_left', Option.getD_some, List.mem_append,
          List.mem_singleton]
        constructor
        · rintro (rfl | ⟨-, hr⟩)
          · exact Or.inr rfl
          · exact Or.inl hr
        · rintro (hr | rfl)
          · exact Or.inr ⟨fun heq => this (heq ▸ hr), hr⟩
          · exact Or.inl rfl
    · rw [Map.get_insert_eq_some, Map.get_insert_of_ne hp, h.resyncInverse]
      constructor
      · rintro (⟨-, rfl⟩ | ⟨-, hr⟩)
        · exact absurd rfl hp
        · exact hr
      · rintro ⟨rs, hrs, hr⟩
        exact Or.inr ⟨fun heq => hnew p rs hrs (heq ▸ hr), rs, hrs, hr⟩
  · rcases Map.get_insert_eq_some.mp hrs with ⟨rfl, rfl⟩ | ⟨-, hrs⟩
    · refine ⟨by simp, ?_, hpool⟩
      cases hl : x.poolResyncs.get p with
      | none => simp
      | some l =>
        have hnd := (h.poolResyncs p l hl).2.1
        have := hnew p l hl
        simp only [Option.getD_some, List.nodup_append, hnd, List.nodup_singleton, true_and, List.mem_singleton]
        rintro a ha b rfl rfl
        exact this ha
    · exact h.poolResyncs p rs hrs

theorem Inv.untrackResync (h : Inv x) (resync : ResyncId) : Inv (untrackResync resync x).2 := by
  unfold AmmOwnershipIndex.untrackResync
  split
  · exact h
  rename_i pool howner
  obtain ⟨l, hl, hmem⟩ := (h.resyncInverse resync pool).mp howner
  simp only [hl]
  -- A resync other than the removed one has the same owner and stays in its pool's list.
  have hinv : ∀ r p, (∃ rs, (if l.filter (· ≠ resync) = [] then x.poolResyncs.remove pool
      else x.poolResyncs.insert pool (l.filter (· ≠ resync))).get p = some rs ∧ r ∈ rs) ↔
        r ≠ resync ∧ ∃ rs, x.poolResyncs.get p = some rs ∧ r ∈ rs := by
    intro r p
    by_cases hp : p = pool
    · subst hp
      split_ifs with hnil
      · simp only [Map.get_remove_self, reduceCtorEq, false_and, exists_false, hl, Option.some.injEq,
          exists_eq_left', false_iff, not_and]
        intro hne hr
        have : r ∈ l.filter (· ≠ resync) := List.mem_filter.mpr ⟨hr, by simpa using hne⟩
        rw [hnil] at this
        cases this
      · simp only [Map.get_insert_self, Option.some.injEq, exists_eq_left', List.mem_filter, hl,
          decide_eq_true_eq]
        exact and_comm
    · have hget : (if l.filter (· ≠ resync) = [] then x.poolResyncs.remove pool
          else x.poolResyncs.insert pool (l.filter (· ≠ resync))).get p = x.poolResyncs.get p := by
        split_ifs
        · exact Map.get_remove_of_ne hp
        · exact Map.get_insert_of_ne hp
      rw [hget]
      refine ⟨fun hlisted => ⟨?_, hlisted⟩, fun hr => hr.2⟩
      obtain ⟨rs, hrs, hr⟩ := hlisted
      rintro rfl
      rw [(h.resyncInverse r p).mpr ⟨rs, hrs, hr⟩] at howner
      exact hp (Option.some.inj howner)
  refine { h with resyncInverse := fun r p => ?_, poolResyncs := fun p rs hrs => ?_ }
  · rw [hinv, Map.get_remove_eq_some, h.resyncInverse]
  · simp only [] at hrs
    split_ifs at hrs with hnil
    · exact h.poolResyncs p rs (Map.get_remove_eq_some.mp hrs).2
    · rcases Map.get_insert_eq_some.mp hrs with ⟨rfl, rfl⟩ | ⟨-, hrs⟩
      · obtain ⟨-, hnd, hp⟩ := h.poolResyncs p l hl
        exact ⟨hnil, hnd.filter _, hp⟩
      · exact h.poolResyncs p rs hrs

/-! ### Removals -/

theorem get_foldl_remove {r : ResyncId} {p : PoolInstanceId} : ∀ {l : List ResyncId} {m : Map ResyncId PoolInstanceId},
    (l.foldl (fun m resync => m.remove resync) m).get r = some p ↔ r ∉ l ∧ m.get r = some p
  | [], m => by simp
  | a :: l, m => by
    rw [List.foldl_cons, get_foldl_remove (l := l), Map.get_remove_eq_some, List.mem_cons]
    tauto

/-- Removing the work of one owner keeps every other owner's work. -/
theorem owns_remove_work {owner o : RuntimeOwnerId} {w : RuntimeWorkId} :
    Owns (x.ownerWork.remove owner) o w ↔ o ≠ owner ∧ Owns x.ownerWork o w := by
  by_cases ho : o = owner
  · subst ho
    simp [Owns]
  · simp [Owns, Map.get_remove_of_ne ho, ho]

theorem noEmpty_remove_work {owner : RuntimeOwnerId} (h : NoEmpty x.ownerWork) : NoEmpty (x.ownerWork.remove owner) :=
  fun k s hs => h k s (Map.get_remove_eq_some.mp hs).2

theorem Inv.removePool (h : Inv x) (pool : PoolInstanceId) : Inv (removePool pool x).2 := by
  unfold AmmOwnershipIndex.removePool
  split
  · exact h
  rename_i ownership hpool
  obtain ⟨hinst, -⟩ := h.poolInstance pool ownership hpool
  have hactive : x.activePools.get pool.key = some pool := (h.activePools _ pool).mpr ⟨⟨_, hpool⟩, rfl⟩
  exact
    { h with
      activePools := fun k p => by
        simp only [unindexResources, hactive, ite_true, Map.get_remove_eq_some, h.activePools]
        constructor
        · rintro ⟨hk, ⟨o, hp⟩, rfl⟩
          exact ⟨⟨o, fun heq => hk (heq ▸ rfl), hp⟩, rfl⟩
        · rintro ⟨⟨o, hne, hp⟩, rfl⟩
          -- A second live instance of the key would also be the active one.
          refine ⟨fun hk => hne ?_, ⟨o, hp⟩, rfl⟩
          have := (h.activePools pool.key p).mpr ⟨⟨o, hp⟩, hk⟩
          rw [hactive] at this
          exact (Option.some.inj this).symm
      poolInstance := fun p o hp => h.poolInstance p o (Map.get_remove_eq_some.mp hp).2
      handlerPools := fun hd p => by
        simp only [unindexResources, Map.get_remove_eq_some, h.handlerPools]
        constructor
        · rintro ⟨hne, o, hp, rfl⟩
          refine ⟨o, ⟨?_, hp⟩, rfl⟩
          rintro rfl
          rw [hpool] at hp
          exact hne (by rw [Option.some.inj hp])
        · rintro ⟨o, ⟨hne, hp⟩, rfl⟩
          refine ⟨fun hh => hne ?_, o, hp, rfl⟩
          have h1 := (h.handlerPools o.handler p).mpr ⟨o, hp, rfl⟩
          rw [hh, (h.handlerPools _ pool).mpr ⟨ownership, hpool, rfl⟩] at h1
          exact (Option.some.inj h1).symm
      adapterPools := h.adapterPools.remove hpool rfl (noEmpty_removeOwner h.adapterPools.1)
        fun k q => owns_removeOwner.trans (by rw [eq_comm (a := k)])
      addressPools := h.addressPools.remove hpool rfl (noEmpty_removeOwners h.addressPools.1)
        fun k q => owns_removeOwners
      wholeAccountPools := h.wholeAccountPools.remove hpool rfl (noEmpty_removeOwners h.wholeAccountPools.1)
        fun k q => owns_removeOwners
      slotPools := h.slotPools.remove hpool rfl (noEmpty_removeOwners h.slotPools.1) fun k q => owns_removeOwners
      emitterPools := h.emitterPools.remove hpool rfl (noEmpty_removeOwners h.emitterPools.1)
        fun k q => owns_removeOwners
      ownerWork := ⟨noEmpty_remove_work h.ownerWork.1, fun owner w hw => by
        obtain ⟨hne, hw⟩ := owns_remove_work.mp hw
        obtain ⟨hown, hlive⟩ := h.ownerWork.2 owner w hw
        refine ⟨hown, ?_⟩
        rw [ownerLive_iff] at hlive ⊢
        rcases hlive with ⟨p, o, rfl, hp⟩ | hlive | hlive
        · exact Or.inl ⟨p, o, rfl, Map.get_remove_eq_some.mpr ⟨fun heq => hne (heq ▸ rfl), hp⟩⟩
        · exact Or.inr (Or.inl hlive)
        · exact Or.inr (Or.inr hlive)⟩
      resyncInverse := fun r p => by
        simp only [unindexResources, get_foldl_remove, Map.get_remove_eq_some, h.resyncInverse]
        constructor
        · rintro ⟨hr, rs, hrs, hmem⟩
          refine ⟨rs, ⟨?_, hrs⟩, hmem⟩
          rintro rfl
          rw [hrs] at hr
          exact hr hmem
        · rintro ⟨rs, ⟨hne, hrs⟩, hmem⟩
          refine ⟨fun hr => hne ?_, rs, hrs, hmem⟩
          cases hl : x.poolResyncs.get pool with
          | none => simp [hl] at hr
          | some l =>
            rw [hl, Option.getD_some] at hr
            have h1 := (h.resyncInverse r pool).mpr ⟨l, hl, hr⟩
            rw [(h.resyncInverse r p).mpr ⟨rs, hrs, hmem⟩] at h1
            exact Option.some.inj h1
      poolResyncs := fun p rs hrs => by
        obtain ⟨hne, hrs⟩ := Map.get_remove_eq_some.mp hrs
        obtain ⟨h1, h2, o, hp⟩ := h.poolResyncs p rs hrs
        exact ⟨h1, h2, o, Map.get_remove_eq_some.mpr ⟨hne, hp⟩⟩ }

theorem Inv.removeDiscovery (h : Inv x) (owner : DiscoveryOwnerId) : Inv (removeDiscovery owner x).2 := by
  unfold AmmOwnershipIndex.removeDiscovery
  split
  · exact h
  rename_i ownership hdisc
  have hactive : x.activeDiscovery.get owner.key = some owner := (h.activeDiscovery _ owner).mpr ⟨⟨_, hdisc⟩, rfl⟩
  exact
    { h with
      activeDiscovery := fun k d => by
        simp only [hactive, ite_true, Map.get_remove_eq_some, h.activeDiscovery]
        constructor
        · rintro ⟨hk, ⟨o, hd⟩, rfl⟩
          exact ⟨⟨o, fun heq => hk (heq ▸ rfl), hd⟩, rfl⟩
        · rintro ⟨⟨o, hne, hd⟩, rfl⟩
          refine ⟨fun hk => hne ?_, ⟨o, hd⟩, rfl⟩
          have := (h.activeDiscovery owner.key d).mpr ⟨⟨o, hd⟩, hk⟩
          rw [hactive] at this
          exact (Option.some.inj this).symm
      discoveryInstance := fun d o hd => h.discoveryInstance d o (Map.get_remove_eq_some.mp hd).2
      adapterDiscovery := by
        refine ⟨noEmpty_removeOwner h.adapterDiscovery.1, fun a d => ?_⟩
        rw [owns_removeOwner, h.adapterDiscovery.2]
        by_cases hd : d = owner
        · subst hd
          simp [hdisc, eq_comm]
        · simp [Map.get_remove_of_ne hd, hd]
      ownerWork := ⟨noEmpty_remove_work h.ownerWork.1, fun o w hw => by
        obtain ⟨hne, hw⟩ := owns_remove_work.mp hw
        obtain ⟨hown, hlive⟩ := h.ownerWork.2 o w hw
        refine ⟨hown, ?_⟩
        rw [ownerLive_iff] at hlive ⊢
        rcases hlive with hlive | hlive | ⟨d, o', rfl, hd⟩
        · exact Or.inl hlive
        · exact Or.inr (Or.inl hlive)
        · exact Or.inr (Or.inr ⟨d, o', rfl, Map.get_remove_eq_some.mpr ⟨fun heq => hne (heq ▸ rfl), hd⟩⟩)⟩ }

theorem Inv.removeAdapter (h : Inv x) (adapter : AdapterInstanceId) : Inv (removeAdapter adapter x).2 := by
  rcases removeAdapter_inv adapter x with ⟨e, he⟩ | he | ⟨hmem, hnopools, hnodisc, he⟩ <;> rw [he]
  · exact h
  · exact h
  -- An adapter that still serves a pool or a discovery owner has a nonempty entry.
  have hpools : ∀ p o, x.pools.get p = some o → o.adapter ≠ adapter := by
    rintro p o hp rfl
    obtain ⟨s, hs, hps⟩ := (h.adapterPools.2 o.adapter p).mpr ⟨o, hp, rfl⟩
    rw [hnopools s hs] at hps
    cases hps
  have hdisc : ∀ d o, x.discovery.get d = some o → o.adapter ≠ adapter := by
    rintro d o hd rfl
    obtain ⟨s, hs, hds⟩ := (h.adapterDiscovery.2 o.adapter d).mpr ⟨o, hd, rfl⟩
    rw [hnodisc s hs] at hds
    cases hds
  have hactive : x.activeAdapters.get adapter.key = some adapter := (h.activeAdapters _ adapter).mpr ⟨hmem, rfl⟩
  exact
    { h with
      activeAdapters := fun k a => by
        simp only [hactive, ite_true, Map.get_remove_eq_some, h.activeAdapters, Finset.mem_erase]
        constructor
        · rintro ⟨hk, ha, rfl⟩
          exact ⟨⟨fun heq => hk (heq ▸ rfl), ha⟩, rfl⟩
        · rintro ⟨⟨hne, ha⟩, rfl⟩
          refine ⟨fun hk => hne ?_, ha, rfl⟩
          have := (h.activeAdapters adapter.key a).mpr ⟨ha, hk⟩
          rw [hactive] at this
          exact (Option.some.inj this).symm
      poolInstance := fun p o hp =>
        ⟨(h.poolInstance p o hp).1, Finset.mem_erase.mpr ⟨hpools p o hp, (h.poolInstance p o hp).2⟩⟩
      discoveryInstance := fun d o hd =>
        ⟨(h.discoveryInstance d o hd).1, Finset.mem_erase.mpr ⟨hdisc d o hd, (h.discoveryInstance d o hd).2⟩⟩
      ownerWork := ⟨noEmpty_remove_work h.ownerWork.1, fun o w hw => by
        obtain ⟨hne, hw⟩ := owns_remove_work.mp hw
        obtain ⟨hown, hlive⟩ := h.ownerWork.2 o w hw
        refine ⟨hown, ?_⟩
        rw [ownerLive_iff] at hlive ⊢
        rcases hlive with hlive | ⟨a, rfl, ha⟩ | hlive
        · exact Or.inl hlive
        · exact Or.inr (Or.inl ⟨a, rfl, Finset.mem_erase.mpr ⟨fun heq => hne (heq ▸ rfl), ha⟩⟩)
        · exact Or.inr (Or.inr hlive)⟩ }

/-! ### Runs -/

theorem Inv.step (h : Inv x) (op : Op) : Inv (x.step op).2 := by
  cases op with
  | insertAdapter adapter => exact h.insertAdapter adapter
  | insertPool ownership => exact h.insertPool ownership
  | replacePool ownership => exact h.replacePool ownership
  | insertDiscovery ownership => exact h.insertDiscovery ownership
  | removePool pool => exact h.removePool pool
  | removeDiscovery owner => exact h.removeDiscovery owner
  | removeAdapter adapter => exact h.removeAdapter adapter
  | trackWork work => exact h.trackWork work
  | untrackWork work => exact h.untrackWork work
  | trackResync pool resync => exact h.trackResync pool resync
  | untrackResync resync => exact h.untrackResync resync

theorem Inv.foldl : ∀ (ops : List Op) {x : AmmOwnershipIndex}, Inv x → Inv (ops.foldl (fun x op => (x.step op).2) x)
  | [], _, h => h
  | op :: ops, _, h => Inv.foldl ops (h.step op)

theorem failure_error {α : Type} {r : Outcome α} (hr : (∃ e, r = (.error e, x)) ∨ ∃ a y, r = (.ok a, y))
    {error : AmmOwnershipError} (he : (step.failure r).1 = some error) : (step.failure r).2 = x := by
  rcases hr with ⟨e, rfl⟩ | ⟨a, y, rfl⟩
  · rfl
  · cases he

/-- A mutation that returns an error leaves the index as it was. -/
theorem step_error {op : Op} {error : AmmOwnershipError} (he : (x.step op).1 = some error) : (x.step op).2 = x := by
  cases op with
  | insertAdapter adapter =>
    exact failure_error ((insertAdapter_inv adapter x).imp_right fun h => ⟨_, _, h.2⟩) he
  | insertPool ownership =>
    exact failure_error ((insertPool_inv ownership x).imp_right fun h => ⟨_, _, h.2.2.2.2⟩) he
  | replacePool ownership =>
    refine failure_error ((replacePool_inv ownership x).imp_right ?_) he
    rintro ⟨previous, -, -, -, h⟩
    exact ⟨_, _, h⟩
  | insertDiscovery ownership =>
    exact failure_error ((insertDiscovery_inv ownership x).imp_right fun h => ⟨_, _, h.2.2.2⟩) he
  | removePool pool => cases he
  | removeDiscovery owner => cases he
  | removeAdapter adapter =>
    refine failure_error ((removeAdapter_inv adapter x).imp_right ?_) he
    rintro (h | ⟨-, -, -, h⟩)
    · exact ⟨_, _, h⟩
    · exact ⟨_, _, h⟩
  | trackWork work => exact failure_error ((trackWork_inv work x).imp_right fun h => ⟨_, _, h.2⟩) he
  | untrackWork work => cases he
  | trackResync pool resync =>
    exact failure_error ((trackResync_inv pool resync x).imp_right fun h => ⟨_, _, h.2.2⟩) he
  | untrackResync resync => cases he

end

/-- After any sequence of mutations every reverse index is the image of the forward maps, and a further mutation
    that fails changes nothing. -/
theorem run_inv (ops : List Op) : Inv (run ops) ∧
    ∀ op error, ((run ops).step op).1 = some error → ((run ops).step op).2 = run ops :=
  ⟨Inv.foldl ops inv_empty, fun _ _ he => step_error he⟩

end AmmState.AmmOwnershipIndex
