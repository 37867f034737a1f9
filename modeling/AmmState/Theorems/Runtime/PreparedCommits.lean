import AmmState.Theorems.EngineRestore
import AmmState.Theorems.SyncAdapters

/-! The prepared commits are atomic, except for one early return: a scheduled slot patch takes the next revision of its pool
    after it has written its storage, so that a pool whose revision is exhausted is left with the storage of a patch that
    was never published, under a runtime that is still trusted. -/

namespace AmmState.PreparedCommits
open Fallible SyncManager SortDedup
open Changes (AmmRuntimeHealth AmmStateQuality runtimeHealth)
open Repairs (AmmWorkKind)

/-! ### Storage that is written and put back -/

theorem get_foldl_write_of_notMem {prepared : List AmmPreparedStorage} {storage : Map StateSlot U256} {cell : StateSlot}
    (h : cell ∉ prepared.map (·.cell)) : (prepared.foldl write storage).get cell = storage.get cell :=
  Map.get_foldl_insert_of_notMem storage h

theorem get_foldl_putBack (rollback : List (StateSlot × Option U256)) (storage earlier : Map StateSlot U256)
    (h : ∀ entry ∈ rollback, entry.2 = earlier.get entry.1) (cell : StateSlot) :
    (rollback.foldl putBack storage).get cell =
      if cell ∈ rollback.map Prod.fst ∧ (earlier.get cell).isSome then earlier.get cell else storage.get cell := by
  induction rollback using List.reverseRecOn with
  | nil => simp
  | append_singleton rest last ih =>
    have hrest := ih fun entry hentry => h entry (List.mem_append_left _ hentry)
    have hlast := h last (List.mem_append_right _ (List.mem_singleton_self _))
    obtain ⟨other, value⟩ := last
    simp only [List.foldl_append, List.foldl_cons, List.foldl_nil, List.map_append, List.map_cons, List.map_nil,
      List.mem_append, List.mem_singleton]
    cases value with
    | none =>
      by_cases hcell : cell = other
      · have hnone : earlier.get cell = none := by rw [hcell, ← hlast]
        rw [show putBack _ (other, none) = rest.foldl putBack storage from rfl, hrest, hnone]
        simp
      · rw [show putBack _ (other, none) = rest.foldl putBack storage from rfl, hrest]
        simp only [hcell, or_false]
    | some value =>
      rw [show putBack (rest.foldl putBack storage) (other, some value) =
        (rest.foldl putBack storage).insert other value from
        rfl, Map.get_insert]
      by_cases hcell : cell = other
      · rw [if_pos hcell, hcell, ← hlast]
        simp
      · rw [if_neg hcell, hrest]
        simp only [hcell, or_false]

theorem get_foldl_purge (rollback : List (StateSlot × Option U256)) (storage earlier : Map StateSlot U256)
    (h : ∀ entry ∈ rollback, entry.2 = earlier.get entry.1) (cell : StateSlot) :
    (rollback.foldl purge storage).get cell =
      if cell ∈ rollback.map Prod.fst ∧ earlier.get cell = none then none else storage.get cell := by
  induction rollback using List.reverseRecOn with
  | nil => simp
  | append_singleton rest last ih =>
    have hrest := ih fun entry hentry => h entry (List.mem_append_left _ hentry)
    have hlast := h last (List.mem_append_right _ (List.mem_singleton_self _))
    obtain ⟨other, value⟩ := last
    simp only [List.foldl_append, List.foldl_cons, List.foldl_nil, List.map_append, List.map_cons, List.map_nil,
      List.mem_append, List.mem_singleton]
    cases value with
    | none =>
      rw [show purge (rest.foldl purge storage) (other, none) = (rest.foldl purge storage).remove other from rfl,
        Map.get_remove]
      by_cases hcell : cell = other
      · rw [if_pos hcell, hcell, ← hlast]
        simp
      · rw [if_neg hcell, hrest]
        simp only [hcell, or_false]
    | some value =>
      by_cases hcell : cell = other
      · have hsome : earlier.get cell = some value := by rw [hcell, ← hlast]
        rw [show purge _ (other, some value) = rest.foldl purge storage from rfl, hrest, hsome]
        simp
      · rw [show purge _ (other, some value) = rest.foldl purge storage from rfl, hrest]
        simp only [hcell, or_false]

/-- What the rollback of prepared storage says is what was there. -/
theorem restore_write (prepared : List AmmPreparedStorage) (storage : Map StateSlot U256) :
    let rollback := prepared.map fun entry => (entry.cell, storage.get entry.cell)
    rollback.foldl purge (rollback.foldl putBack (prepared.foldl write storage)) = storage := by
  intro rollback
  have hrollback : ∀ entry ∈ rollback, entry.2 = storage.get entry.1 := by
    intro entry hentry
    obtain ⟨written, -, rfl⟩ := List.mem_map.mp hentry
    rfl
  have hcells : rollback.map Prod.fst = prepared.map (·.cell) := by
    rw [List.map_map]
    rfl
  ext1 cell
  rw [get_foldl_purge rollback _ storage hrollback, get_foldl_putBack rollback _ storage hrollback, hcells]
  by_cases hcell : cell ∈ prepared.map (·.cell)
  · cases hold : storage.get cell <;> simp [hcell]
  · simp only [hcell, false_and, if_false]
    exact get_foldl_write_of_notMem hcell

/-- A patch writes nothing new where every cell holds its value already. -/
theorem foldl_write_eq_self_iff {prepared : List AmmPreparedStorage} {storage : Map StateSlot U256}
    (hcells : (prepared.map (·.cell)).Nodup) :
    prepared.foldl write storage = storage ↔ ∀ entry ∈ prepared, storage.get entry.cell = some entry.value := by
  constructor
  · intro h entry hentry
    rw [← h]
    exact Map.get_foldl_insert_mem hcells storage hentry
  · intro h
    ext1 cell
    by_cases hcell : cell ∈ prepared.map (·.cell)
    · obtain ⟨entry, hentry, rfl⟩ := List.mem_map.mp hcell
      rw [h entry hentry]
      exact Map.get_foldl_insert_mem hcells storage hentry
    · exact get_foldl_write_of_notMem hcell

/-! ### What may come of a command -/

/-- What a commit takes over is as it was, the states of the registered pools included. -/
structure Same (a a' : AmmRuntimeActor) : Prop where
  storage : a'.storage = a.storage
  registry : a'.engine.registry = a.engine.registry
  ownership : a'.engine.ownership = a.engine.ownership
  states : ∀ pool, Owned a.engine pool → a'.engine.lifecycles.pools.get pool = a.engine.lifecycles.pools.get pool
  revisions : a'.revisions = a.revisions
  commits : a'.commits = a.commits

/-- One more commit was published, and it holds what the actor holds. -/
def Published (a a' : AmmRuntimeActor) : Prop :=
  ∃ commit, a'.commits = a.commits ++ [commit] ∧ commit.storage = a'.storage ∧
    commit.registry.registry = a'.engine.registry ∧ commit.registry.activePools = a'.engine.ownership.activePools ∧
    commit.revisions = a'.revisions

/-- The pools that were registered keep their registration, their resources and their revision, but for the given one. -/
def OthersKept (changed : Option PoolInstanceId) (a a' : AmmRuntimeActor) : Prop :=
  ∀ pool, Owned a.engine pool → changed ≠ some pool →
    a'.engine.registry.pool pool.key = a.engine.registry.pool pool.key ∧
    a'.engine.ownership.pools.get pool = a.engine.ownership.pools.get pool ∧ a'.revisions.get pool = a.revisions.get pool

section
variable (handlerId : PoolInstanceId → HandlerId)

/-- The pools of an install are registered under the generations that were foreseen for them. -/
structure Installed (a base : AmmRuntimeActor) (r : PoolInstall) (a' : AmmRuntimeActor) : Prop where
  storage : a'.storage = r.storage.foldl write base.storage
  added : ∃ pools, r.additions.preview handlerId a.engine = .ok pools ∧ ∀ registration ∈ r.additions.registrations,
    ∃ pool ∈ pools, pool.key = registration.key ∧ Owned a'.engine pool ∧
      a'.engine.registry.pool pool.key = some registration ∧ a'.revisions.get pool = some 0
  others : OthersKept none base a'

/-- The registration of the pool is the given one, with the resources that it declares. -/
structure Refreshed (engine : AmmSyncEngine) (pool : PoolInstanceId) (registration : PoolRegistration)
    (a' : AmmRuntimeActor) : Prop where
  registered : a'.engine.registry.pool pool.key = some registration
  owned : ∃ token, engine.preparePoolRefresh handlerId pool registration = .ok token ∧
    a'.engine.ownership.pools.get pool = some token.replacementOwnership

/-- The storage is written and the revision of the pool is the next one. -/
structure Advanced (base : AmmRuntimeActor) (storage : List AmmPreparedStorage) (pool : PoolInstanceId)
    (a' : AmmRuntimeActor) : Prop where
  storage : a'.storage = storage.foldl write base.storage
  revision : a'.revisions = base.revisions.insert pool ((base.revisions.get pool).getD 0 + 1)
  others : OthersKept (some pool) base a'

/-- A repair registers the pool as ready; any other patch leaves its registration alone. -/
def Patched (a : AmmRuntimeActor) (r : SlotPatch) (a' : AmmRuntimeActor) : Prop :=
  ∃ entry registration, a.scheduledFollowups.get r.work = some entry ∧
    a.engine.registry.pool r.pool.key = some registration ∧
    match entry.kind with
    | .repair => Refreshed handlerId a.engine r.pool { registration with status := .ready } a'
    | _ => a'.engine.registry = a.engine.registry ∧ a'.engine.ownership.pools = a.engine.ownership.pools

/-- The prepared result of a command, taken over whole. The actor is the one before the command, and the base the one that
    its fence has left. -/
def Reflects (a base : AmmRuntimeActor) : PreparedCommit → AmmRuntimeActor → Prop
  | .installPreparedPools r, a' => Installed handlerId a base r a'
  | .commitScheduledRefresh r, a' =>
    Advanced base r.storage r.pool a' ∧ Refreshed handlerId a.engine r.pool r.registration a'
  | .commitScheduledSlotPatch r, a' => Advanced base r.storage r.pool a' ∧ Patched handlerId base r a'

/-- The actor that a command finds: an install without a subscriber takes the canonical batches that are ready first. -/
def World.found (w : World) (a : AmmRuntimeActor) : PreparedCommit → AmmRuntimeActor
  | .installPreparedPools _ => if a.subscriber then a else w.drained
  | _ => a

/-- The actors that a command may start from: the one that it finds, or the one that the subscriber fence leaves. A slot
    patch waits for no fence. -/
def Base (w : World) (a : AmmRuntimeActor) : PreparedCommit → AmmRuntimeActor → Prop
  | .commitScheduledSlotPatch _, base => base = a
  | _, base => base = a ∨ a.subscriber = true ∧ base = w.fence.2

/-- One commit that holds the prepared result, or an error that changes nothing, or a runtime that is not trusted. -/
def Atomic (w : World) (command : PreparedCommit) (a : AmmRuntimeActor)
    (outcome : Except AmmRuntimeCommandError Unit × AmmRuntimeActor) : Prop :=
  ∃ base, Base w (w.found a command) command base ∧
    (Published base outcome.2 ∧ Reflects handlerId (w.found a command) base command outcome.2 ∨
      outcome.1.isOk = false ∧ Same base outcome.2 ∨ outcome.2.trusted = false)

/-! ### The condition -/

/-- A slot patch that passes every check before its first write. -/
structure Admitted (w : World) (r : SlotPatch) (a : AmmRuntimeActor) (kind : AmmWorkKind)
    (registration : PoolRegistration) : Prop where
  task : ∃ entry slots, a.scheduledFollowups.get r.work = some entry ∧ entry.task = .slotPatch slots ∧ entry.kind = kind ∧
    entry.pool = r.pool ∧ checkSlotPatch a r (slots.map fun (address, slot) => ⟨address, slot⟩) = .ok registration
  baseline : r.baseline = a.point
  awaits : a.awaits r.work r.pool
  identity : ∃ identity, (nextCommitIdentity (1 + (decide (kind = .repair)).toNat + a.healthEvents
    (if kind = .repair ∧ hasOtherDegradedPool a.engine r.pool.key = false then .coherent
      else registryQuality a.engine))).run.run a = (.ok identity, a)
  critical : w.critical = none

/-- The cells hold the values of the patch already, and the repair of a pool finds it ready, with the resources that its
    registration declares. -/
structure Idle (r : SlotPatch) (a : AmmRuntimeActor) (kind : AmmWorkKind) (registration : PoolRegistration) : Prop where
  storage : ∀ entry ∈ r.storage, a.storage.get entry.cell = some entry.value
  repair : kind = .repair → registration.status = .ready ∧
    (a.engine.lifecycles.pools.get r.pool = some .live ∨ a.engine.lifecycles.pools.get r.pool = some .searchable) ∧
    ∀ token, a.engine.preparePoolRefresh handlerId r.pool registration = .ok token →
      token.replacementOwnership = token.previousOwnership

/-- No slot patch writes for a pool whose revision is exhausted. -/
def Countable (w : World) (a : AmmRuntimeActor) : PreparedCommit → Prop
  | .commitScheduledSlotPatch r => a.trusted = true → ∀ kind registration, Admitted w r a kind registration →
    (a.revisions.get r.pool).getD 0 + 1 < 2 ^ 64 ∨ Idle handlerId r a kind registration
  | _ => True

end

/-! ### Handlers that are done -/

section
variable {handlerId : PoolInstanceId → HandlerId}

/-- What the end of a follow-up leaves alone. -/
structure Finished (b a : AmmRuntimeActor) : Prop where
  storage : a.storage = b.storage
  registry : a.engine.registry = b.engine.registry
  pools : a.engine.ownership.pools = b.engine.ownership.pools
  active : a.engine.ownership.activePools = b.engine.ownership.activePools
  revisions : a.revisions = b.revisions
  commits : a.commits = b.commits

theorem nextEventSequence_reads (count : Nat) : Reads (nextEventSequence count) :=
  .bind .get fun _ => .bind (.ensure _ _) fun _ => .pure _

theorem nextCommitIdentity_reads (count : Nat) : Reads (nextCommitIdentity count) :=
  .bind .get fun _ => .bind (.ensure _ _) fun _ => .bind (nextEventSequence_reads count) fun _ => .pure _

theorem nextInterestRevision_reads (changed : Bool) : Reads (nextInterestRevision changed) :=
  .bind .get fun _ => .ite (.bind (.ensure _ _) fun _ => .pure _) (.pure _)

theorem lift_reads {α : Type} (x : Except AmmRuntimeCommandError α) : Reads (lift x) := fun s => by
  rw [lift, run_lift]

theorem untrackWork_frame (work : RuntimeWorkId) (x : AmmOwnershipIndex) :
    (x.untrackWork work).2.pools = x.pools ∧ (x.untrackWork work).2.activePools = x.activePools := by
  unfold AmmOwnershipIndex.untrackWork
  split
  · exact ⟨rfl, rfl⟩
  · exact ⟨rfl, rfl⟩

theorem finishFollowup_spec (work : RuntimeWorkId) (pool : PoolInstanceId) (b : AmmRuntimeActor) :
    Triple (fun a => Finished b a) (finishFollowup work pool) (fun _ a => Finished b a) (fun a => Finished b a) := by
  refine .bind (.modifies (Q := fun _ a => Finished b a) fun a h => ?_) fun _ => ?_
  · obtain ⟨hpools, hactive⟩ := untrackWork_frame work a.engine.ownership
    exact ⟨h.storage, h.registry, hpools.trans h.pools, hactive.trans h.active, h.revisions, h.commits⟩
  · refine .bind (.reads (nextEventSequence_reads 1) fun _ h => h) fun _ => ?_
    exact .modifies fun a h => ⟨h.storage, h.registry, h.pools, h.active, h.revisions, h.commits⟩

theorem markUntrusted_trusted (a : AmmRuntimeActor) : (exec markUntrusted a).trusted = false := by
  show (if a.health = .untrusted ∨ 2 ^ 64 ≤ a.eventSequence + 1 then { a with trusted := false }
    else { a with trusted := false, health := .untrusted, eventSequence := a.eventSequence + 1 } :
    AmmRuntimeActor).trusted = false
  split_ifs
  · rfl
  · rfl

theorem markUntrusted_spec {P E : AmmRuntimeActor → Prop} :
    Triple P markUntrusted (fun _ a => a.trusted = false) E := fun a _ => markUntrusted_trusted a

theorem orUntrusted_spec {P : AmmRuntimeActor → Prop} (failure : Option AmmRuntimeCommandError) :
    Triple P (orUntrusted failure) (fun _ => P) fun a => a.trusted = false := by
  cases failure with
  | none => exact .pure fun _ h => h
  | some error => exact .bind markUntrusted_spec fun _ => .throw fun _ h => h

/-! ### Publication -/

theorem lift_spec {α : Type} {x : Except AmmRuntimeCommandError α} {P E : AmmRuntimeActor → Prop}
    (herror : ∀ error, x = .error error → ∀ a, P a → E a) :
    Triple P (lift x) (fun value a => P a ∧ x = .ok value) E := by
  intro a ha
  rw [lift, run_lift]
  cases x with
  | error error => exact herror error rfl a ha
  | ok value => exact ⟨ha, rfl⟩

/-- A single change is a change set. -/
theorem changeSet_singleton (change : AmmPoolChange) : changeSet [change] = .ok [change] := rfl

theorem registrySnapshot_ok {engine coherent : AmmSyncEngine} (h : Inv handlerId coherent)
    (hregistry : coherent.registry = engine.registry) (hownership : coherent.ownership = engine.ownership) :
    registrySnapshot engine =
      .ok ⟨engine.registry, engine.ownership.activePools, engine.ownership.activeAdapters⟩ := by
  have hsnapshot := h.tryNew
  rw [hregistry, hownership] at hsnapshot
  rw [registrySnapshot, hsnapshot]

/-- The publication of one changed pool: a commit over the views of the actor, and the next revision. -/
structure Committed (c : AmmRuntimeActor) (pool : PoolInstanceId) (revision : Nat) (a : AmmRuntimeActor) : Prop where
  published : Published c a
  storage : a.storage = c.storage
  registry : a.engine.registry = c.engine.registry
  pools : a.engine.ownership.pools = c.engine.ownership.pools
  revisions : a.revisions = c.revisions.insert pool revision

theorem publish_spec (work : RuntimeWorkId) (change : AmmPoolChange) (version events : Nat) {c : AmmRuntimeActor}
    {coherent : AmmSyncEngine} (h : Inv handlerId coherent) (hregistry : coherent.registry = c.engine.registry)
    (hownership : coherent.ownership = c.engine.ownership) :
    Triple (fun a => a = c) (do
      let a ← get
      let snapshot ← lift (registrySnapshot a.engine)
      let changes ← lift (changeSet [change])
      publishCommit version snapshot (a.revisions.insert change.pool change.revision) changes events
      finishFollowup work change.pool)
    (fun _ a => Committed c change.pool change.revision a) (fun a => Committed c change.pool change.revision a) := by
  have hsnapshot := registrySnapshot_ok h hregistry hownership
  refine .read fun a ha => ?_
  obtain rfl := ha
  refine (lift_spec fun error herror => ?_).bind fun snapshot => ?_
  · cases hsnapshot.symm.trans herror
  refine (lift_spec fun error herror => ?_).bind fun changes => ?_
  · cases (changeSet_singleton change).symm.trans herror
  refine .bind (Q := fun _ b => Committed a change.pool change.revision b) (.modifies ?_) fun _ => ?_
  · rintro b ⟨⟨rfl, hsnap⟩, -⟩
    obtain rfl := Except.ok.inj (hsnapshot.symm.trans hsnap)
    exact ⟨⟨_, rfl, rfl, rfl, rfl, rfl⟩, rfl, rfl, rfl, rfl⟩
  · refine .pointwise fun b hb => ?_
    have hkept : ∀ d, Finished b d → Committed a change.pool change.revision d := fun d hd => by
      obtain ⟨commit, hcommits, hstorage, hregistered, hactive, hrevisions⟩ := hb.published
      exact ⟨⟨commit, hd.commits.trans hcommits, hstorage.trans hd.storage.symm, hregistered.trans hd.registry.symm,
        hactive.trans hd.active.symm, hrevisions.trans hd.revisions.symm⟩, hd.storage.trans hb.storage,
        hd.registry.trans hb.registry, hd.pools.trans hb.pools, hd.revisions.trans hb.revisions⟩
    refine (finishFollowup_spec work change.pool b).conseq ?_ (fun _ => hkept) hkept
    rintro _ rfl
    exact ⟨rfl, rfl, rfl, rfl, rfl, rfl⟩

/-! ### Refreshes -/

/-- The actor between the storage and registration of a refresh and its publication. -/
structure Staged (b : AmmRuntimeActor) (storage : List AmmPreparedStorage) (engine : AmmSyncEngine) (c : AmmRuntimeActor) :
    Prop where
  storage : c.storage = storage.foldl write b.storage
  registry : c.engine.registry = engine.registry
  ownership : c.engine.ownership = engine.ownership
  revisions : c.revisions = b.revisions
  commits : c.commits = b.commits

/-- The publication of a staged refresh takes over all of it. -/
theorem Committed.refreshed {b c a : AmmRuntimeActor} {engine : AmmSyncEngine} {storage : List AmmPreparedStorage}
    {token : AmmPreparedPoolRefresh} (hb : Inv handlerId b.engine) (ht : TokenOk handlerId token)
    (haccepted : Accepted b.engine token) (hc : Staged b storage (SyncManager.refreshed b.engine token) c)
    (hprepared : engine.preparePoolRefresh handlerId token.instance token.replacementRegistration = .ok token)
    (h : Committed c token.instance ((b.revisions.get token.instance).getD 0 + 1) a) :
    Published b a ∧ Advanced b storage token.instance a ∧
      Refreshed handlerId engine token.instance token.replacementRegistration a := by
  obtain ⟨hpools, hregistry⟩ := refreshed_pools hb ht haccepted
  have hregistered : ∀ key, a.engine.registry.pool key =
      if key = token.instance.key then some token.replacementRegistration else b.engine.registry.pool key := fun key => by
    rw [h.registry, hc.registry, hregistry]
  have howned : a.engine.ownership.pools = b.engine.ownership.pools.insert token.instance token.replacementOwnership := by
    rw [h.pools, hc.ownership, hpools]
  have hrevisions : a.revisions = b.revisions.insert token.instance ((b.revisions.get token.instance).getD 0 + 1) := by
    rw [h.revisions, hc.revisions]
  obtain ⟨commit, hcommits, hviews⟩ := h.published
  refine ⟨⟨commit, hc.commits ▸ hcommits, hviews⟩, ⟨h.storage.trans hc.storage, hrevisions, fun pool hpool hne => ?_⟩,
    ⟨by rw [hregistered, if_pos rfl], token, hprepared, by rw [howned, Map.get_insert_self]⟩⟩
  have hother : pool ≠ token.instance := fun heq => hne (congrArg some heq.symm)
  refine ⟨?_, ?_, ?_⟩
  · rw [hregistered, if_neg fun hkey => hother (hb.owned_unique hpool ⟨_, haccepted⟩ hkey)]
  · rw [howned, Map.get_insert_of_ne hother]
  · rw [hrevisions, Map.get_insert_of_ne hother]

theorem applyPreparedStorage_spec (prepared : List AmmPreparedStorage) (b : AmmRuntimeActor) {E : AmmRuntimeActor → Prop} :
    Triple (fun a => a = b) (applyPreparedStorage prepared)
      (fun rollback a => rollback = prepared.map (fun entry => (entry.cell, b.storage.get entry.cell)) ∧
        a = { b with storage := prepared.foldl write b.storage }) E := by
  rintro _ rfl
  exact ⟨rfl, rfl⟩

theorem onEngine_spec {α : Type} (operation : AmmSyncEngine → Outcome α) (b : AmmRuntimeActor)
    {E : AmmRuntimeActor → Prop} :
    Triple (fun a => a = b) (onEngine operation)
      (fun answer a => answer = (operation b.engine).1 ∧ a = { b with engine := (operation b.engine).2 }) E := by
  rintro _ rfl
  exact ⟨rfl, rfl⟩

/-- A refresh that has passed its checks is taken over whole, or it costs the trust. -/
theorem commitPreparedRefresh_spec {b : AmmRuntimeActor} (hb : Inv handlerId b.engine) (w : World) (r : ScheduledRefresh)
    {token : AmmPreparedPoolRefresh} {engine : AmmSyncEngine}
    (hprepared : engine.preparePoolRefresh handlerId r.pool r.registration = .ok token) (kind : AmmWorkKind)
    (interestRevision version events : Nat) :
    Triple (fun a => a = b)
      (commitPreparedRefresh w r token kind interestRevision version ((b.revisions.get r.pool).getD 0 + 1) events)
      (fun _ a => Published b a ∧ Advanced b r.storage r.pool a ∧ Refreshed handlerId engine r.pool r.registration a)
      (fun a => a.trusted = false ∨
        Published b a ∧ Advanced b r.storage r.pool a ∧ Refreshed handlerId engine r.pool r.registration a) := by
  obtain ⟨ht, -, -, hpool, hregistration⟩ := preparePoolRefresh_inv hprepared
  refine (applyPreparedStorage_spec r.storage b).bind fun rollback => .pointwise ?_
  rintro a ⟨rfl, rfl⟩
  refine (onEngine_spec _ _).bind fun answer => .pointwise ?_
  rintro a ⟨rfl, rfl⟩
  rcases commitPoolRefresh_cases hb ht with ⟨error, herror⟩ | ⟨haccepted, hok⟩
  · simp only [herror]
    exact .bind (.modifies (Q := fun _ _ => True) fun _ _ => trivial) fun _ =>
      (markUntrusted_spec (P := fun _ => True)).bind fun _ => .throw fun _ h => .inl h
  · simp only [hok]
    refine .bind (Q := fun _ a => Staged b r.storage (SyncManager.refreshed b.engine token) a) (.modifies ?_) fun _ => ?_
    · rintro _ rfl
      exact ⟨rfl, rfl, rfl, rfl, rfl⟩
    refine .bind ((orUntrusted_spec w.applied).conseq (fun _ h => h) (fun _ _ h => h) fun _ h => .inl h) fun _ => ?_
    refine .pointwise fun c hc => ?_
    obtain ⟨coherent, hcoherent, hregistry, hownership⟩ := coherent_refreshed hb ht haccepted
    have htaken : ∀ a, Committed c r.pool ((b.revisions.get r.pool).getD 0 + 1) a →
        Published b a ∧ Advanced b r.storage r.pool a ∧ Refreshed handlerId engine r.pool r.registration a := by
      rw [← hpool, ← hregistration] at hprepared ⊢
      exact fun a h => h.refreshed hb ht haccepted hc hprepared
    exact (publish_spec r.work ⟨r.pool, _, _⟩ version events hcoherent (hregistry.trans hc.registry.symm)
      (hownership.trans hc.ownership.symm)).conseq (fun _ h => h) (fun _ a h => htaken a h) fun a h => .inr (htaken a h)

theorem Same.refl (a : AmmRuntimeActor) : Same a a := ⟨rfl, rfl, rfl, fun _ _ => rfl, rfl, rfl⟩

/-- The actor before the command, or the one that its fence leaves. -/
def Fenced (w : World) (a b : AmmRuntimeActor) : Prop := b = a ∨ a.subscriber = true ∧ b = w.fence.2

/-- What a command that fails ends in, from one of the actors that it may start from: all of the prepared result, nothing of
    it, or a runtime that is not trusted. -/
def Ends (base : AmmRuntimeActor → Prop) (taken : AmmRuntimeActor → AmmRuntimeActor → Prop) (a' : AmmRuntimeActor) : Prop :=
  ∃ b, base b ∧ (taken b a' ∨ Same b a' ∨ a'.trusted = false)

section
variable {w : World} {a : AmmRuntimeActor} {taken : AmmRuntimeActor → AmmRuntimeActor → Prop}

theorem Fenced.ends {b : AmmRuntimeActor} (h : Fenced w a b) : Ends (Fenced w a) taken b := ⟨b, h, .inr (.inl (.refl b))⟩

/-- A check that fails leaves one of the actors that the command may start from. -/
theorem reads_ends {α : Type} {m : ActorM α} (hm : Reads m) {P : AmmRuntimeActor → Prop} (hP : ∀ b, P b → Fenced w a b) :
    Triple P m (fun _ => P) (Ends (Fenced w a) taken) := .reads hm fun b hb => (hP b hb).ends

theorem requireTrusted_reads : Reads requireTrusted := .bind .get fun _ => .ensure _ _

theorem requireBaseline_reads (baseline : AmmStatePoint) : Reads (requireBaseline baseline) :=
  .bind .get fun _ => .ensure _ _

theorem validatePreparedPoolState_reads (pools : List PoolRegistration) (storage : List AmmPreparedStorage)
    (requireArtifact : Bool) (allowedMissing : List StateSlot) :
    Reads (validatePreparedPoolState pools storage requireArtifact allowedMissing) := by
  refine .bind .get fun _ => .bind (lift_reads _) fun declared => ?_
  split
  · exact .throw _
  · exact .pure _

theorem nextRevision_spec (pool : PoolInstanceId) (b : AmmRuntimeActor) {E : AmmRuntimeActor → Prop} (hb : E b) :
    Triple (fun c => c = b) (nextRevision pool)
      (fun revision c => c = b ∧ revision = (b.revisions.get pool).getD 0 + 1) E := by
  refine .read fun c hc => ?_
  obtain rfl := hc
  refine .bind (.ensure _ _ ?_) fun _ => .pure fun _ h => ⟨h.1, rfl⟩
  rintro _ rfl
  exact hb

theorem awaitSubscriberFence_spec (w : World) (a : AmmRuntimeActor) (needed : Bool)
    {taken : AmmRuntimeActor → AmmRuntimeActor → Prop} :
    Triple (fun b => b = a) (awaitSubscriberFence w needed) (fun _ => Fenced w a) (Ends (Fenced w a) taken) := by
  refine .read fun b hb => ?_
  obtain rfl := hb
  refine .ite (fun hneeded => ?_) fun _ => .pure fun _ h => .inl h
  have hattached : b.subscriber = true := (Bool.and_eq_true _ _ ▸ hneeded).1
  refine .bind (Q := fun _ c => c = w.fence.2) (.sets fun _ _ => rfl) fun _ => ?_
  exact (reads_ends (.check w.fence.1) fun c hc => .inr ⟨hattached, hc⟩).conseq (fun _ h => h)
    (fun _ c hc => .inr ⟨hattached, hc⟩) fun _ h => h

end

/-- A scheduled refresh ends in all of the prepared result, in nothing, or in a runtime that is not trusted. -/
theorem commitScheduledRefresh_spec (w : World) (r : ScheduledRefresh) {a : AmmRuntimeActor} (ha : Inv handlerId a.engine)
    (hfence : Inv handlerId w.fence.2.engine) :
    let taken := fun b a' => Published b a' ∧ Advanced b r.storage r.pool a' ∧
      Refreshed handlerId a.engine r.pool r.registration a'
    Triple (fun b => b = a) (commitScheduledRefresh handlerId w r)
      (fun _ a' => ∃ b, Fenced w a b ∧ taken b a') (Ends (Fenced w a) taken) := by
  intro taken
  have hstart : ∀ b, b = a → Fenced w a b := fun b hb => .inl hb
  refine (reads_ends (.bind .get fun _ => lift_reads _) hstart).bind fun entry => ?_
  refine (reads_ends (requireBaseline_reads _) hstart).bind fun _ => ?_
  refine .read fun b hb => ?_
  obtain rfl := hb
  refine (reads_ends (.ensure _ _) hstart).bind fun _ => ?_
  refine (reads_ends (validatePreparedPoolState_reads _ _ _ _) hstart).bind fun _ => ?_
  refine (reads_ends (.check _) hstart).bind fun _ => ?_
  refine (lift_spec fun _ _ c hc => (hstart c hc).ends).bind fun token => ?_
  refine (reads_ends (.ensure _ _) fun c hc => hstart c hc.1).bind fun _ => ?_
  refine (reads_ends (nextInterestRevision_reads _) fun c hc => hstart c hc.1).bind fun interestRevision => ?_
  refine .pointwise ?_
  rintro b ⟨rfl, hprepared⟩
  have hprepared : b.engine.preparePoolRefresh handlerId r.pool r.registration = .ok token := by
    revert hprepared
    cases b.engine.preparePoolRefresh handlerId r.pool r.registration with
    | error error => exact nofun
    | ok value => exact fun h => congrArg _ (Except.ok.inj h)
  refine (awaitSubscriberFence_spec w b _).bind fun _ => .pointwise fun c hc => ?_
  have hc' : ∀ d, d = c → Fenced w b d := fun d hd => hd ▸ hc
  have hcoherent : Inv handlerId c.engine := by
    rcases hc with rfl | ⟨-, rfl⟩
    · exact ha
    · exact hfence
  refine (reads_ends requireTrusted_reads hc').bind fun _ => ?_
  refine .read fun d hd => ?_
  obtain rfl := hd
  refine (reads_ends (.ensure _ _) hc').bind fun _ => ?_
  refine (reads_ends (.ensure _ _) hc').bind fun _ => ?_
  refine (nextRevision_spec r.pool d hc.ends).bind fun revision => ?_
  refine .pointwise ?_
  rintro d ⟨rfl, rfl⟩
  refine (reads_ends (nextCommitIdentity_reads _) hc').bind fun identity => ?_
  refine (reads_ends (.check _) hc').bind fun _ => ?_
  refine (reads_ends (lift_reads _) hc').bind fun _ => ?_
  refine (commitPreparedRefresh_spec hcoherent w r hprepared _ _ _ _).conseq (fun _ h => h)
    (fun _ a' h => ⟨d, hc, h⟩) fun a' h => ⟨d, hc, ?_⟩
  exact h.elim (fun h => .inr (.inr h)) .inl

/-! ### Installs -/

/-- The additions of an install are all entered, or the engine stays as it was. -/
theorem Additions.commit_cases {engine : AmmSyncEngine} (h : Inv handlerId engine) (additions : Additions) :
    (∃ error, additions.commit handlerId engine = (.error error, engine)) ∨
    ∃ batch, Batch handlerId engine batch ∧ (batch.map (·.registration)).Perm additions.registrations ∧
      additions.commit handlerId engine = (.ok (batch.map (·.instance)), batch.foldl enterPool engine) := by
  cases additions with
  | fresh pools =>
    refine (addPools_cases h pools).imp_right ?_
    rintro ⟨batch, hb, hmap, hok⟩
    exact ⟨batch, hb, hmap ▸ perm_sortBy _ pools, hok⟩
  | reserved reservation registration =>
    refine (commitPoolReservation_cases h reservation registration).imp_right ?_
    rintro ⟨pool, hb, hregistration, hinstance, hok⟩
    exact ⟨[pool], hb, by rw [List.map_singleton, hregistration]; exact .refl _, by
      rw [List.map_singleton, hinstance]
      exact hok⟩

/-- The actor between the additions of an install and its publication. -/
structure Entered (handlerId : PoolInstanceId → HandlerId) (b : AmmRuntimeActor) (storage : List AmmPreparedStorage)
    (batch : List PreparedPoolAddition) (a : AmmRuntimeActor) : Prop where
  staged : Staged b storage (batch.foldl enterPool b.engine) a
  inv : Inv handlerId a.engine
  states : ∀ pool ∉ batch.map (·.instance), a.engine.lifecycles.pools.get pool = b.engine.lifecycles.pools.get pool

section
variable {b : AmmRuntimeActor} {storage : List AmmPreparedStorage} {batch : List PreparedPoolAddition}

theorem rollbackAddedPools_spec (hb : Inv handlerId b.engine) (hbatch : Batch handlerId b.engine batch) (w : World)
    {keys : List PoolKey} (hkeys : ∀ key, key ∈ keys ↔ key ∈ batch.map (·.instance.key)) {E : AmmRuntimeActor → Prop} :
    Triple (Entered handlerId b storage batch) (rollbackAddedPools w keys)
      (fun _ a => a.trusted = false ∨ Same b { a with storage := b.storage } ∧
        a.storage = storage.foldl write b.storage) E := by
  refine .pointwise fun a ha => ?_
  refine (onEngine_spec _ _).bind fun removed => .pointwise ?_
  rintro c ⟨rfl, rfl⟩
  refine .read fun d hd => .ite (fun _ => markUntrusted_spec.conseq (fun _ h => h) (fun _ _ h => .inl h) fun _ h => h) ?_
  obtain rfl := hd
  refine fun hkept => .pure ?_
  rintro _ rfl
  cases hremoved : a.engine.removePools keys with
  | mk answer after =>
    cases answer with
    | error error =>
      rw [hremoved] at hkept
      exact absurd (.inl nofun) hkept
    | ok removed =>
      obtain ⟨hregistry, hownership, hstates⟩ :=
        hbatch.restore hb ha.inv ha.staged.ownership ha.staged.registry hkeys hremoved
      refine .inr ⟨⟨rfl, hregistry, hownership, fun pool hpool => ?_, ha.staged.revisions, ha.staged.commits⟩,
        ha.staged.storage⟩
      have hold : pool ∉ batch.map (·.instance) := fun hmem => by
        obtain ⟨added, hadded, rfl⟩ := List.mem_map.mp hmem
        exact (hbatch.addable added hadded).not_owned hb hpool
      exact (hstates pool hold).trans (ha.states pool hold)

/-- A failure behind the additions leaves what was there before them, or costs the trust. -/
theorem orRollback_spec {α : Type} (hb : Inv handlerId b.engine) (hbatch : Batch handlerId b.engine batch) (w : World)
    (distrust : Bool) {keys : List PoolKey} (hkeys : ∀ key, key ∈ keys ↔ key ∈ batch.map (·.instance.key))
    (answer : Except AmmRuntimeCommandError α) :
    Triple (Entered handlerId b storage batch)
      (orRollback w distrust keys (storage.map fun entry => (entry.cell, b.storage.get entry.cell)) answer)
      (fun value a => Entered handlerId b storage batch a ∧ answer = .ok value)
      (fun a => a.trusted = false ∨ Same b a) := by
  cases answer with
  | ok value => exact .pure fun _ h => ⟨h, rfl⟩
  | error error =>
    refine (rollbackAddedPools_spec hb hbatch w hkeys).bind fun _ => ?_
    refine .bind (Q := fun _ a => a.trusted = false ∨ Same b a) (.modifies fun a ha => ?_) fun _ => ?_
    · refine Or.imp_right ?_ ha
      rintro ⟨hsame, hstorage⟩
      refine ⟨?_, hsame.registry, hsame.ownership, hsame.states, hsame.revisions, hsame.commits⟩
      show List.foldl purge (List.foldl putBack a.storage _) _ = b.storage
      rw [hstorage]
      exact restore_write storage b.storage
    · refine .ite (fun _ => markUntrusted_spec.bind fun _ => .throw fun _ h => .inl h) fun _ => .throw fun _ h => h

theorem entered_of_commit (hb : Inv handlerId b.engine) (hbatch : Batch handlerId b.engine batch) :
    Entered handlerId b storage batch
      { b with storage := storage.foldl write b.storage, engine := batch.foldl enterPool b.engine } where
  staged := ⟨rfl, rfl, rfl, rfl, rfl⟩
  inv := hbatch.inv hb
  states pool hpool := (lifecycle_enterPool batch b.engine pool).1.resolve_left hpool

/-- Acknowledging the delivery changes the states of the added pools only. -/
theorem acknowledgeLive_spec {E : AmmRuntimeActor → Prop} :
    Triple (Entered handlerId b storage batch) (acknowledgeLive (batch.map (·.instance)))
      (fun _ => Entered handlerId b storage batch) E := by
  refine .read fun a ha => .ite (fun _ => ?_) fun _ => .pure fun _ h => h ▸ ha
  refine (onEngine_spec _ a).conseq (fun _ h => h) ?_ fun _ h => h
  rintro answer _ ⟨-, rfl⟩
  have hinv := (ha.inv.acknowledgeLiveDelivery (batch.map (·.instance))).1.inv
  obtain ⟨lifecycles, hengine, hkept⟩ := acknowledgeLiveDelivery_frame (batch.map (·.instance)) a.engine
  rw [hengine] at hinv ⊢
  exact ⟨⟨ha.staged.storage, ha.staged.registry, ha.staged.ownership, ha.staged.revisions, ha.staged.commits⟩, hinv,
    fun pool hpool => (hkept pool hpool).trans (ha.states pool hpool)⟩

/-- What is published after the additions is the install. -/
theorem Entered.installed (hb : Inv handlerId b.engine) (hbatch : Batch handlerId b.engine batch) {r : PoolInstall}
    (hperm : (batch.map (·.registration)).Perm r.additions.registrations) {a c d : AmmRuntimeActor}
    (hexpected : r.additions.preview handlerId a.engine = .ok (batch.map (·.instance)))
    (hc : Entered handlerId b r.storage batch c) (hengine : d.engine = c.engine) (hstorage : d.storage = c.storage)
    (hrevisions : d.revisions = (batch.map (·.instance)).foldl
      (fun revisions pool => revisions.insert pool 0) b.revisions) :
    Installed handlerId a b r d where
  storage := hstorage.trans hc.staged.storage
  added := by
    refine ⟨_, hexpected, fun registration hr => ?_⟩
    obtain ⟨pool, hpool, rfl⟩ := List.mem_map.mp (hperm.mem_iff.mpr hr)
    refine ⟨pool.instance, List.mem_map_of_mem hpool, (hbatch.addable pool hpool).key, ?_, ?_, ?_⟩
    · have howned := (hbatch.owned_iff hb hc.inv hc.staged.ownership hc.staged.registry pool.instance).mpr
        (List.mem_map_of_mem hpool)
      rw [hengine]
      exact howned.1
    · rw [hengine, hc.staged.registry]
      exact pool_enterPool hb hbatch hpool
    · have hnodup : ((batch.map (·.instance)).map id).Nodup := by
        rw [List.map_id]
        exact List.Nodup.of_map PoolInstanceId.key (by rw [List.map_map]; exact hbatch.keys)
      rw [hrevisions]
      exact @Map.get_foldl_insert_mem _ _ _ _ id (fun _ => 0) _ hnodup b.revisions _ (List.mem_map_of_mem hpool)
  others pool hpool _ := by
    have hold : pool ∉ batch.map (·.instance) := fun hmem => by
      obtain ⟨added, hadded, rfl⟩ := List.mem_map.mp hmem
      exact (hbatch.addable added hadded).not_owned hb hpool
    have hkept : Owned (batch.foldl enterPool b.engine) pool := by
      rw [Owned, (hbatch.extends hb).pools pool hold]
      exact hpool
    obtain ⟨hown, hregistration⟩ := hbatch.frame hb pool hpool hkept
    refine ⟨?_, ?_, ?_⟩
    · rw [hengine, hc.staged.registry, hregistration]
    · rw [hengine, hc.staged.ownership, hown]
    · rw [hrevisions]
      exact @Map.get_foldl_insert_of_notMem _ _ _ _ id (fun _ => 0) _ b.revisions _ (by rwa [List.map_id])

end

theorem commitPreparedPools_spec {a b : AmmRuntimeActor} (hb : Inv handlerId b.engine) (w : World) (r : PoolInstall)
    {expected : List PoolInstanceId} (hexpected : r.additions.preview handlerId a.engine = .ok expected)
    (interestRevision version : Nat) :
    Triple (fun c => c = b) (commitPreparedPools handlerId w r expected interestRevision version)
      (fun _ c => Published b c ∧ Installed handlerId a b r c) (fun c => c.trusted = false ∨ Same b c) := by
  refine (applyPreparedStorage_spec r.storage b).bind fun rollback => .pointwise ?_
  rintro c ⟨rfl, rfl⟩
  refine (onEngine_spec _ _).bind fun answer => .pointwise ?_
  rintro c ⟨rfl, rfl⟩
  rcases Additions.commit_cases hb r.additions with ⟨error, herror⟩ | ⟨batch, hbatch, hperm, hok⟩
  · simp only [herror]
    refine .bind (Q := fun _ c => Same b c) (.modifies ?_) fun _ => .throw fun _ h => .inr h
    rintro _ rfl
    exact ⟨restore_write r.storage b.storage, rfl, rfl, fun _ _ => rfl, rfl, rfl⟩
  · have hkeys : ∀ key, key ∈ r.additions.registrations.map (·.key) ↔ key ∈ batch.map (·.instance.key) := fun key => by
      rw [← (hperm.map (·.key)).mem_iff, List.map_map]
      exact Eq.to_iff (congrArg (key ∈ ·) (List.map_congr_left fun pool hp => (hbatch.addable pool hp).key.symm))
    simp only [hok]
    refine (Triple.pre (orRollback_spec hb hbatch w true hkeys _) ?_).bind fun _ => ?_
    · rintro _ rfl
      exact entered_of_commit hb hbatch
    refine .pointwise fun c hc => ?_
    obtain ⟨hentered, hregistered⟩ := hc
    have hexpected : r.additions.preview handlerId a.engine = .ok (batch.map (·.instance)) := by
      split_ifs at hregistered with heq
      rw [heq, hexpected]
    refine (Triple.pre acknowledgeLive_spec fun _ h => h ▸ hentered).bind fun live => ?_
    refine (orRollback_spec hb hbatch w false hkeys _).bind fun transitions => ?_
    refine .read fun c hc => ?_
    refine (Triple.pre (orRollback_spec hb hbatch w false hkeys _) fun _ h => h ▸ hc.1).bind fun snapshot => ?_
    refine .pointwise ?_
    rintro d ⟨hd, hsnapshot⟩
    refine (Triple.pre (orRollback_spec hb hbatch w false hkeys _) fun _ h => h ▸ hd).bind fun changes => ?_
    refine (Triple.pre (orRollback_spec hb hbatch w true hkeys _) fun _ h => h.1).bind fun _ => ?_
    refine .bind (Q := fun _ => Entered handlerId b r.storage batch) (.modifies fun e he => ?_) fun _ => ?_
    · exact ⟨⟨he.1.staged.storage, he.1.staged.registry, he.1.staged.ownership, he.1.staged.revisions, he.1.staged.commits⟩,
        he.1.inv, he.1.states⟩
    refine .bind ((orUntrusted_spec w.applied).conseq (fun _ h => h) (fun _ _ h => h) fun _ h => .inl h) fun _ => ?_
    refine .modifies fun e he => ?_
    have hviews := registrySnapshot_ok hc.1.inv rfl rfl
    obtain rfl := Except.ok.inj (hviews.symm.trans hsnapshot)
    refine ⟨⟨_, congrArg (· ++ _) he.staged.commits, rfl, ?_, ?_, rfl⟩, ?_⟩
    · exact hc.1.staged.registry.trans he.staged.registry.symm
    · exact congrArg AmmOwnershipIndex.activePools (hc.1.staged.ownership.trans he.staged.ownership.symm)
    · refine he.installed hb hbatch hperm hexpected rfl rfl ?_
      show List.foldl _ c.revisions _ = _
      rw [hc.1.staged.revisions]

theorem drainReadyCanonical_spec (w : World) (r : PoolInstall) (a : AmmRuntimeActor) {E : AmmRuntimeActor → Prop} :
    Triple (fun b => b = a) (drainReadyCanonical w) (fun _ b => b = w.found a (.installPreparedPools r)) E := by
  refine .read fun b hb => ?_
  obtain rfl := hb
  unfold World.found
  cases b.subscriber with
  | true => exact .pure fun _ h => h
  | false => exact .sets fun _ _ => rfl

/-- An install ends in all of the prepared result, in nothing, or in a runtime that is not trusted. -/
theorem installPreparedPools_spec (w : World) (r : PoolInstall) (start : AmmRuntimeActor) {a : AmmRuntimeActor}
    (hfound : w.found start (.installPreparedPools r) = a) (ha : Inv handlerId a.engine)
    (hfence : Inv handlerId w.fence.2.engine) :
    let taken := fun b a' => Published b a' ∧ Installed handlerId a b r a'
    Triple (fun b => b = start) (installPreparedPools handlerId w r)
      (fun _ a' => ∃ b, Fenced w a b ∧ taken b a') (Ends (Fenced w a) taken) := by
  intro taken
  refine (drainReadyCanonical_spec w r start).bind fun _ => ?_
  rw [hfound]
  have hstart : ∀ b, b = a → Fenced w a b := fun b hb => .inl hb
  refine (reads_ends requireTrusted_reads hstart).bind fun _ => ?_
  refine (reads_ends (requireBaseline_reads _) hstart).bind fun _ => ?_
  refine (reads_ends (.check _) hstart).bind fun _ => ?_
  refine .read fun b hb => ?_
  obtain rfl := hb
  refine (reads_ends (.check _) hstart).bind fun _ => ?_
  refine (reads_ends (validatePreparedPoolState_reads _ _ _ _) hstart).bind fun _ => ?_
  refine (reads_ends (.check _) hstart).bind fun _ => ?_
  refine (reads_ends (nextInterestRevision_reads _) hstart).bind fun _ => ?_
  refine (reads_ends (nextCommitIdentity_reads _) hstart).bind fun _ => ?_
  refine (lift_spec fun _ _ c hc => (hstart c hc).ends).bind fun expected => .pointwise ?_
  rintro b ⟨rfl, hpreview⟩
  have hexpected : r.additions.preview handlerId b.engine = .ok expected := by
    revert hpreview
    cases r.additions.preview handlerId b.engine with
    | error error => exact nofun
    | ok value => exact fun h => congrArg _ (Except.ok.inj h)
  refine (awaitSubscriberFence_spec w b _).bind fun _ => .pointwise fun c hc => ?_
  have hc' : ∀ d, d = c → Fenced w b d := fun d hd => hd ▸ hc
  have hcoherent : Inv handlerId c.engine := by
    rcases hc with rfl | ⟨-, rfl⟩
    · exact ha
    · exact hfence
  refine (reads_ends requireTrusted_reads hc').bind fun _ => ?_
  refine (reads_ends (requireBaseline_reads _) hc').bind fun _ => ?_
  refine (reads_ends (validatePreparedPoolState_reads _ _ _ _) hc').bind fun _ => ?_
  refine (reads_ends (.check _) hc').bind fun _ => ?_
  refine (reads_ends (nextInterestRevision_reads _) hc').bind fun interestRevision => ?_
  refine (reads_ends (nextCommitIdentity_reads _) hc').bind fun identity => ?_
  refine (reads_ends (.check _) hc').bind fun _ => ?_
  refine (commitPreparedPools_spec hcoherent w r hexpected _ _).conseq (fun _ h => h)
    (fun _ a' h => ⟨c, hc, h⟩) fun a' h => ⟨c, hc, ?_⟩
  exact h.elim (fun h => .inr (.inr h)) fun h => .inr (.inl h)

/-! ### Slot patches -/

/-- What a slot patch does once its checks have passed, for every one that may pass them. -/
theorem commitScheduledSlotPatch_spec (w : World) (r : SlotPatch) {a : AmmRuntimeActor} {Q : Unit → AmmRuntimeActor → Prop}
    {E : AmmRuntimeActor → Prop} (hrefused : (∀ kind registration, ¬ Admitted w r a kind registration) → E a)
    (hadmitted : ∀ kind registration version events, Admitted w r a kind registration →
      Triple (fun b => b = a) (commitPreparedPatch handlerId r kind registration version events) Q E) :
    Triple (fun b => b = a) (commitScheduledSlotPatch handlerId w r) Q E := by
  have hrefuse : (∀ kind registration, ¬ Admitted w r a kind registration) → ∀ b, b = a → E b :=
    fun h b hb => hb ▸ hrefused h
  have hscheduled : Triple (fun b => b = a) (scheduled r.work)
      (fun entry b => a.scheduledFollowups.get r.work = some entry ∧ b = a) E := by
    refine .read fun b hb => ?_
    obtain rfl := hb
    refine (lift_spec fun error herror => ?_).conseq (fun _ h => h)
      (fun entry c hc => ⟨Checked.orError_eq_ok.mp hc.2, hc.1⟩) fun _ h => h
    refine hrefuse fun kind registration h => ?_
    obtain ⟨entry, -, hentry, -⟩ := h.task
    rw [hentry] at herror
    cases herror
  refine hscheduled.bind fun entry => .pointwise ?_
  rintro a ⟨hentry, rfl⟩
  have hpresent : ∀ kind registration, Admitted w r a kind registration → ∃ slots, entry.task = .slotPatch slots ∧
      entry.kind = kind ∧ entry.pool = r.pool ∧
      checkSlotPatch a r (slots.map fun (address, slot) => ⟨address, slot⟩) = .ok registration := by
    intro kind registration h
    obtain ⟨other, slots, hother, hrest⟩ := h.task
    obtain rfl := Option.some.inj (hentry.symm.trans hother)
    exact ⟨slots, hrest⟩
  split
  · rename_i hrefresh
    refine .throw (hrefuse fun kind registration h => ?_)
    obtain ⟨slots, htask, -⟩ := hpresent kind registration h
    cases hrefresh.symm.trans htask
  · rename_i slots htask
    have hchecked : ∀ kind registration, Admitted w r a kind registration → entry.kind = kind ∧ entry.pool = r.pool ∧
        checkSlotPatch a r (slots.map fun (address, slot) => ⟨address, slot⟩) = .ok registration := by
      intro kind registration h
      obtain ⟨slots', htask', hrest⟩ := hpresent kind registration h
      obtain rfl : slots = slots' := by simpa using htask.symm.trans htask'
      exact hrest
    have hbaseline : Triple (fun b => b = a) (requireBaseline r.baseline) (fun _ b => r.baseline = a.point ∧ b = a) E := by
      refine .read fun b hb => ?_
      obtain rfl := hb
      exact .ite (fun hbaseline => .pure fun _ hb => ⟨hbaseline, hb⟩) fun hstale =>
        .throw (hrefuse fun _ _ h => hstale h.baseline)
    refine hbaseline.bind fun _ => .pointwise ?_
    rintro a ⟨hbaseline, rfl⟩
    refine .read fun b hb => ?_
    obtain rfl := hb
    refine .ensure_bind (fun hstale => hrefuse fun kind registration h => hstale ⟨?_, h.awaits⟩) fun hawaits => ?_
    · exact (hchecked kind registration h).2.1
    refine .lift_bind (fun error herror => hrefuse fun kind registration h => ?_) fun registration hregistration => ?_
    · cases herror.symm.trans (hchecked kind registration h).2.2
    simp only []
    refine .bind (.reads_at (nextCommitIdentity_reads _) fun error herror => hrefused fun kind registration h => ?_)
      fun identity => .pointwise ?_
    · obtain rfl := (hchecked kind registration h).1
      obtain ⟨identity, hidentity⟩ := h.identity
      cases (congrArg Prod.fst herror).symm.trans (congrArg Prod.fst hidentity)
    rintro c ⟨hidentity, rfl⟩
    refine .bind (.reads_at (.check _) fun error herror => hrefused fun kind registration h => ?_) fun _ => .pointwise ?_
    · rw [h.critical] at herror
      cases congrArg Prod.fst herror
    rintro b ⟨hcritical, rfl⟩
    have hcritical : w.critical = none := by
      cases hw : w.critical with
      | none => rfl
      | some error =>
        rw [hw] at hcritical
        cases congrArg Prod.fst hcritical
    exact hadmitted entry.kind registration _ _
      ⟨⟨entry, slots, hentry, htask, rfl, hawaits.1, hregistration⟩, hbaseline, hawaits.2, ⟨_, hidentity⟩, hcritical⟩

/-- The engine of a slot patch: a repair refreshes the pool by its own registration as ready. -/
def PatchedEngine (handlerId : PoolInstanceId → HandlerId) (engine : AmmSyncEngine)
    (pool : PoolInstanceId) (kind : AmmWorkKind) (registration : PoolRegistration) (patched : AmmSyncEngine) : Prop :=
  if kind = .repair then
    ∃ token, engine.preparePoolRefresh handlerId pool { registration with status := .ready } = .ok token ∧
      patched = SyncManager.refreshed engine token
  else patched = engine

/-- The actor between the storage of a slot patch and its publication. -/
def PatchStaged (handlerId : PoolInstanceId → HandlerId) (a : AmmRuntimeActor) (r : SlotPatch) (kind : AmmWorkKind)
    (registration : PoolRegistration) (c : AmmRuntimeActor) : Prop :=
  ∃ patched, PatchedEngine handlerId a.engine r.pool kind registration patched ∧
    c = { a with storage := r.storage.foldl write a.storage, engine := patched }

/-- The repair of an active pool cannot fail. -/
theorem repairRegistration_spec {a : AmmRuntimeActor} (ha : Inv handlerId a.engine) {r : SlotPatch} {kind : AmmWorkKind}
    {registration : PoolRegistration} (hactive : a.engine.ownership.activePools.get r.pool.key = some r.pool)
    (hregistered : a.engine.registry.pool r.pool.key = some registration) (rollback : List (StateSlot × Option U256))
    {E : AmmRuntimeActor → Prop} :
    Triple (fun c => c = { a with storage := r.storage.foldl write a.storage })
      (repairRegistration handlerId kind r.pool registration rollback)
      (fun _ => PatchStaged handlerId a r kind registration) E := by
  refine .ite (fun hkind => ?_) fun hkind => .pure ?_
  · refine .read fun c hc => ?_
    have hkey : registration.key = r.pool.key := AdapterRegistry.key_of_pool hregistered
    obtain ⟨token, htoken⟩ : ∃ token, a.engine.preparePoolRefresh handlerId r.pool { registration with status := .ready } =
        .ok token := ha.preparePoolRefresh hactive hkey rfl
    obtain ⟨ht, haccepted, -⟩ := preparePoolRefresh_inv htoken
    have hengine : c.engine = a.engine := by rw [hc]
    refine .lift_bind (fun error herror => ?_) fun prepared hprepared => ?_
    · rw [hengine, htoken] at herror
      cases herror
    · rw [hengine, htoken] at hprepared
      obtain rfl := Except.ok.inj hprepared
      refine (onEngine_spec _ c).bind fun answer => .pointwise ?_
      rintro d ⟨rfl, rfl⟩
      rw [hengine, commitPoolRefresh_of_accepted ha ht haccepted]
      refine .pure ?_
      rintro _ rfl
      refine ⟨SyncManager.refreshed a.engine token, ?_, by rw [hc]⟩
      rw [PatchedEngine, if_pos hkind]
      exact ⟨token, htoken, rfl⟩
  · rintro _ rfl
    refine ⟨a.engine, ?_, rfl⟩
    rw [PatchedEngine, if_neg hkind]

theorem PatchedEngine.inv {engine patched : AmmSyncEngine} (h : Inv handlerId engine) {pool : PoolInstanceId}
    {kind : AmmWorkKind} {registration : PoolRegistration}
    (hpatched : PatchedEngine handlerId engine pool kind registration patched) : Inv handlerId patched := by
  rw [PatchedEngine] at hpatched
  split_ifs at hpatched
  · obtain ⟨token, htoken, rfl⟩ := hpatched
    obtain ⟨ht, haccepted, hprevious, -⟩ := preparePoolRefresh_inv htoken
    exact (h.refreshed ht haccepted hprevious).1
  · exact hpatched ▸ h

/-- A slot patch either finds the revision exhausted behind its writes, or is published. -/
theorem commitPreparedPatch_spec {a : AmmRuntimeActor} (ha : Inv handlerId a.engine) {r : SlotPatch} {kind : AmmWorkKind}
    {registration : PoolRegistration} (hactive : a.engine.ownership.activePools.get r.pool.key = some r.pool)
    (hregistered : a.engine.registry.pool r.pool.key = some registration) (version events : Nat)
    {Q : Unit → AmmRuntimeActor → Prop} {E : AmmRuntimeActor → Prop}
    (hexhausted : 2 ^ 64 ≤ (a.revisions.get r.pool).getD 0 + 1 → ∀ c, PatchStaged handlerId a r kind registration c → E c)
    (hpublished : (a.revisions.get r.pool).getD 0 + 1 < 2 ^ 64 → ∀ c, PatchStaged handlerId a r kind registration c →
      ∀ a', Committed c r.pool ((a.revisions.get r.pool).getD 0 + 1) a' → Q () a' ∧ E a') :
    Triple (fun c => c = a) (commitPreparedPatch handlerId r kind registration version events) Q E := by
  refine (applyPreparedStorage_spec r.storage a).bind fun rollback => .pointwise ?_
  rintro c ⟨-, rfl⟩
  refine (repairRegistration_spec ha hactive hregistered rollback).bind fun _ => .pointwise fun c hc => ?_
  have hstaged := hc
  obtain ⟨patched, hpatched, rfl⟩ := hc
  by_cases hbound : (a.revisions.get r.pool).getD 0 + 1 < 2 ^ 64
  · refine .bind (Q := fun revision d => d = { a with storage := r.storage.foldl write a.storage, engine := patched } ∧
      revision = (a.revisions.get r.pool).getD 0 + 1) ?_ fun revision => .pointwise ?_
    · refine .read fun d hd => ?_
      obtain rfl := hd
      exact .ensure_bind (fun h => absurd hbound h) fun _ => .pure fun _ h => ⟨h, rfl⟩
    · rintro d ⟨rfl, rfl⟩
      exact (publish_spec r.work ⟨r.pool, _, _⟩ version events (hpatched.inv ha) rfl rfl).conseq (fun _ h => h)
        (fun _ a' h => (hpublished hbound _ hstaged a' h).1) fun a' h => (hpublished hbound _ hstaged a' h).2
  · have hstop := hexhausted (Nat.not_lt.mp hbound) _ hstaged
    refine .bind (Q := fun _ _ => False) ?_ fun _ _ h => h.elim
    refine .read fun d hd => ?_
    obtain rfl := hd
    exact .ensure_bind (fun _ _ h => h ▸ hstop) fun h => absurd h hbound

theorem replaceOwnership_self {engine : AmmSyncEngine} (h : Inv handlerId engine) {token : AmmPreparedPoolRefresh}
    (ht : TokenOk handlerId token) (haccepted : Accepted engine token)
    (hsame : token.replacementOwnership = token.previousOwnership) :
    (engine.ownership.replacePool token.replacementOwnership).2 = engine.ownership := by
  obtain ⟨index, hreplace⟩ := Ownership.replacePool_of h.ownership (ht.owner.symm ▸ haccepted)
    ((h.handlerNames _ _ haccepted).trans ht.ownerName.symm) ht.adapter.symm
  have hinv := h.ownership.replacePool token.replacementOwnership
  rcases engine.ownership.replacePool_inv token.replacementOwnership with ⟨error, herror⟩ | ⟨previous, -, -, -, hok⟩
  · cases herror.symm.trans hreplace
  · rw [hok] at hinv ⊢
    refine hinv.ext h.ownership rfl ?_ rfl rfl rfl
    show engine.ownership.pools.insert token.replacementOwnership.instance token.replacementOwnership = _
    exact Map.insert_get (by rw [ht.owner, hsame]; exact haccepted)

/-- A staged slot patch has changed nothing exactly where there was nothing to change. -/
theorem PatchStaged.same_iff {a c : AmmRuntimeActor} (ha : Inv handlerId a.engine) {r : SlotPatch} {kind : AmmWorkKind}
    {registration : PoolRegistration} (hregistered : a.engine.registry.pool r.pool.key = some registration)
    (hcells : (r.storage.map (·.cell)).Nodup) (hc : PatchStaged handlerId a r kind registration c) :
    Same a c ↔ Idle handlerId r a kind registration := by
  obtain ⟨patched, hpatched, rfl⟩ := hc
  rw [PatchedEngine] at hpatched
  split_ifs at hpatched with hkind
  · obtain ⟨token, htoken, rfl⟩ := hpatched
    obtain ⟨ht, haccepted, -, hpool, hreplacement⟩ := preparePoolRefresh_inv htoken
    obtain ⟨hpools, hregistry⟩ := refreshed_pools ha ht haccepted
    have hown : a.engine.ownership.pools.get r.pool = some token.previousOwnership := by
      rw [← hpool]
      exact haccepted
    rw [hpool] at hpools
    constructor
    · intro hsame
      have hready : { registration with status := .ready } = registration := by
        have hkept : (SyncManager.refreshed a.engine token).registry.pool r.pool.key = some registration := by
          rw [hsame.registry, hregistered]
        rw [hregistry, hpool, if_pos rfl, hreplacement] at hkept
        exact Option.some.inj hkept
      refine ⟨(foldl_write_eq_self_iff hcells).mp hsame.storage,
        fun _ => ⟨congrArg PoolRegistration.status hready.symm, ?_, ?_⟩⟩
      · have hstate : (SyncManager.refreshed a.engine token).lifecycles.pools.get r.pool =
            a.engine.lifecycles.pools.get r.pool := hsame.states r.pool ⟨_, hown⟩
        by_cases hlive : a.engine.lifecycles.pools.get r.pool = some .live
        · exact .inl hlive
        · rw [SyncManager.refreshed, hpool, if_neg hlive] at hstate
          exact .inr (hstate.symm.trans (Map.get_insert_self ..))
      · intro other hother
        rw [hready, hother] at htoken
        obtain rfl := Except.ok.inj htoken
        have hkept : (SyncManager.refreshed a.engine other).ownership.pools.get r.pool = some other.previousOwnership := by
          rw [hsame.ownership, hown]
        rw [hpools, Map.get_insert_self] at hkept
        exact Option.some.inj hkept
    · intro hidle
      obtain ⟨hstatus, hstate, hresources⟩ := hidle.repair hkind
      have hready : { registration with status := .ready } = registration := by rw [← hstatus]
      refine ⟨(foldl_write_eq_self_iff hcells).mpr hidle.storage, ?_, ?_, fun pool _ => ?_, rfl, rfl⟩
      · refine AdapterRegistry.ext rfl ?_
        show a.engine.registry.pools.map _ = _
        refine (List.map_congr_left fun registered hr => ?_).trans (List.map_id _)
        rw [token.replacement_key, hpool]
        split_ifs with hkey
        · have hpresent := AdapterRegistry.pool_of_mem hr
          rw [hkey, hregistered] at hpresent
          rw [hreplacement, hready]
          exact Option.some.inj hpresent
        · rfl
      · exact replaceOwnership_self ha ht haccepted (hresources token (hready ▸ htoken))
      · show (if a.engine.lifecycles.pools.get token.instance = some .live then a.engine.lifecycles
          else a.engine.lifecycles.setPool token.instance .searchable).pools.get pool = _
        rw [hpool]
        split_ifs with hlive
        · rfl
        · exact congrArg (Map.get · pool) (Map.insert_get (hstate.resolve_left hlive))
  · subst hpatched
    refine ⟨fun hsame => ⟨(foldl_write_eq_self_iff hcells).mp hsame.storage, fun h => absurd h hkind⟩, fun hidle => ?_⟩
    exact ⟨(foldl_write_eq_self_iff hcells).mpr hidle.storage, rfl, rfl, fun _ _ => rfl, rfl, rfl⟩

/-- A published slot patch is taken over whole. -/
theorem Committed.patched {a c a' : AmmRuntimeActor} (ha : Inv handlerId a.engine) {r : SlotPatch}
    {entry : Repairs.AmmScheduledFollowUpWork} {registration : PoolRegistration}
    (hentry : a.scheduledFollowups.get r.work = some entry)
    (hregistered : a.engine.registry.pool r.pool.key = some registration)
    (hc : PatchStaged handlerId a r entry.kind registration c)
    (h : Committed c r.pool ((a.revisions.get r.pool).getD 0 + 1) a') :
    Published a a' ∧ Advanced a r.storage r.pool a' ∧ Patched handlerId a r a' := by
  obtain ⟨patched, hpatched, rfl⟩ := hc
  rw [PatchedEngine] at hpatched
  split_ifs at hpatched with hkind
  · obtain ⟨token, htoken, rfl⟩ := hpatched
    obtain ⟨ht, haccepted, -, hpool, hreplacement⟩ := preparePoolRefresh_inv htoken
    have hstaged : Staged a r.storage (SyncManager.refreshed a.engine token)
        { a with storage := r.storage.foldl write a.storage, engine := SyncManager.refreshed a.engine token } :=
      ⟨rfl, rfl, rfl, rfl, rfl⟩
    have htaken : Published a a' ∧ Advanced a r.storage r.pool a' ∧
        Refreshed handlerId a.engine r.pool { registration with status := .ready } a' := by
      rw [← hpool, ← hreplacement] at htoken ⊢
      rw [← hpool] at h
      exact h.refreshed ha ht haccepted hstaged htoken
    refine ⟨htaken.1, htaken.2.1, entry, registration, hentry, hregistered, ?_⟩
    rw [hkind]
    exact htaken.2.2
  · obtain rfl := hpatched
    obtain ⟨commit, hcommits, hviews⟩ := h.published
    refine ⟨⟨commit, hcommits, hviews⟩, ⟨h.storage, h.revisions, fun pool _ hne => ⟨?_, ?_, ?_⟩⟩, entry, registration,
      hentry, hregistered, ?_⟩
    · exact congrArg (AdapterRegistry.pool · pool.key) h.registry
    · exact congrArg (Map.get · pool) h.pools
    · rw [h.revisions, Map.get_insert_of_ne fun heq => hne (congrArg some heq.symm)]
    · revert hkind
      cases entry.kind with
      | repair => exact fun hkind => absurd rfl hkind
      | deferredWarmup => exact fun _ => ⟨h.registry, h.pools⟩

/-! ### Atomicity -/

theorem checkSlotPatch_inv {a : AmmRuntimeActor} {r : SlotPatch} {slots : List StateSlot} {registration : PoolRegistration}
    (h : checkSlotPatch a r slots = .ok registration) :
    a.engine.registry.pool r.pool.key = some registration ∧ (r.storage.map (·.cell)).Nodup := by
  simp only [checkSlotPatch, Checked.bind_eq_ok, Checked.ensure_eq_ok, Checked.orError_eq_ok, Checked.pure_eq_ok] at h
  obtain ⟨-, ⟨-, hcells⟩, registration', hregistered, -, -, -, -, rfl⟩ := h
  exact ⟨hregistered, hcells⟩

/-- The work of a slot patch and its registration are those of the actor. -/
theorem Admitted.unique {w : World} {r : SlotPatch} {a : AmmRuntimeActor} {kind kind' : AmmWorkKind}
    {registration registration' : PoolRegistration} (h : Admitted w r a kind registration)
    (h' : Admitted w r a kind' registration') : kind = kind' ∧ registration = registration' := by
  obtain ⟨entry, slots, hentry, -, rfl, -, hchecked⟩ := h.task
  obtain ⟨entry', slots', hentry', -, rfl, -, hchecked'⟩ := h'.task
  obtain rfl := Option.some.inj (hentry.symm.trans hentry')
  exact ⟨rfl, Option.some.inj ((checkSlotPatch_inv hchecked).1.symm.trans (checkSlotPatch_inv hchecked').1)⟩

theorem atomic_of_ends {a : AmmRuntimeActor} {base : AmmRuntimeActor → Prop}
    {taken : AmmRuntimeActor → AmmRuntimeActor → Prop} {m : ActorM Unit}
    (h : Triple (fun b => b = a) m (fun _ a' => ∃ b, base b ∧ taken b a') (Ends base taken)) :
    ∃ b, base b ∧ (taken b (m.run.run a).2 ∨ (m.run.run a).1.isOk = false ∧ Same b (m.run.run a).2 ∨
      (m.run.run a).2.trusted = false) := by
  have hrun := h a rfl
  revert hrun
  rcases m.run.run a with ⟨error | u, a'⟩
  · rintro ⟨b, hb, htaken | hsame | hdistrust⟩
    · exact ⟨b, hb, .inl htaken⟩
    · exact ⟨b, hb, .inr (.inl ⟨rfl, hsame⟩)⟩
    · exact ⟨b, hb, .inr (.inr hdistrust)⟩
  · rintro ⟨b, hb, htaken⟩
    exact ⟨b, hb, .inl htaken⟩

/-- A slot patch is atomic where no pool with an exhausted revision is written. -/
theorem slotPatch_atomic {w : World} {r : SlotPatch} {a : AmmRuntimeActor} (ha : Inv handlerId a.engine)
    (h : Countable handlerId w a (.commitScheduledSlotPatch r)) :
    let taken := fun b a' => Published b a' ∧ Advanced b r.storage r.pool a' ∧ Patched handlerId b r a'
    Triple (fun b => b = a) (commitScheduledSlotPatch handlerId w r)
      (fun _ a' => ∃ b, b = a ∧ taken b a') (Ends (fun b => b = a) taken) := by
  intro taken
  refine commitScheduledSlotPatch_spec w r (fun _ => ⟨a, rfl, .inr (.inl (.refl a))⟩)
    fun kind registration version events hadmitted => ?_
  obtain ⟨entry, slots, hentry, -, rfl, -, hchecked⟩ := hadmitted.task
  obtain ⟨hregistered, hcells⟩ := checkSlotPatch_inv hchecked
  refine commitPreparedPatch_spec ha hadmitted.awaits.2 hregistered version events (fun hexhausted c hc => ?_)
    fun _ c hc a' ha' => ?_
  · have htrusted : c.trusted = a.trusted := by
      obtain ⟨patched, -, rfl⟩ := hc
      rfl
    refine ⟨a, rfl, .inr ?_⟩
    cases hdistrust : a.trusted with
    | false => exact .inr (htrusted.trans hdistrust)
    | true =>
      rcases h hdistrust _ _ hadmitted with hbound | hidle
      · exact absurd hexhausted (Nat.not_le.mpr hbound)
      · exact .inl ((hc.same_iff ha hregistered hcells).mpr hidle)
  · have htaken := ha'.patched ha hentry hregistered hc
    exact ⟨⟨a, rfl, htaken⟩, a, rfl, .inl htaken⟩

/-- A slot patch that is written for a pool with an exhausted revision stays in the storage of a trusted actor,
    unpublished. -/
theorem slotPatch_stranded {w : World} {r : SlotPatch} {a : AmmRuntimeActor} (ha : Inv handlerId a.engine)
    {kind : AmmWorkKind} {registration : PoolRegistration} (hadmitted : Admitted w r a kind registration)
    (hexhausted : 2 ^ 64 ≤ (a.revisions.get r.pool).getD 0 + 1) :
    Triple (fun b => b = a) (commitScheduledSlotPatch handlerId w r) (fun _ _ => False)
      (PatchStaged handlerId a r kind registration) := by
  refine commitScheduledSlotPatch_spec w r (fun hnone => absurd hadmitted (hnone kind registration))
    fun kind' registration' version events hadmitted' => ?_
  obtain ⟨rfl, rfl⟩ := hadmitted.unique hadmitted'
  obtain ⟨-, slots, -, -, -, -, hchecked⟩ := hadmitted.task
  refine commitPreparedPatch_spec ha hadmitted.awaits.2 (checkSlotPatch_inv hchecked).1 version events
    (fun _ c hc => hc) fun hbound => absurd hexhausted (Nat.not_le.mpr hbound)

theorem not_atomic {w : World} {r : SlotPatch} {a : AmmRuntimeActor} (ha : Inv handlerId a.engine)
    (htrusted : a.trusted = true) {kind : AmmWorkKind} {registration : PoolRegistration}
    (hadmitted : Admitted w r a kind registration) (hexhausted : 2 ^ 64 ≤ (a.revisions.get r.pool).getD 0 + 1)
    (hidle : ¬ Idle handlerId r a kind registration) : ¬ Atomic handlerId w (.commitScheduledSlotPatch r) a
      ((handle handlerId w (.commitScheduledSlotPatch r)).run.run a) := by
  rintro ⟨base, rfl, hends⟩
  obtain ⟨-, slots, -, -, -, -, hchecked⟩ := hadmitted.task
  obtain ⟨hregistered, hcells⟩ := checkSlotPatch_inv hchecked
  have hrun := slotPatch_stranded ha hadmitted hexhausted base rfl
  have hstaged : PatchStaged handlerId base r kind registration
      ((handle handlerId w (.commitScheduledSlotPatch r)).run.run base).2 := by
    show PatchStaged handlerId base r kind registration ((commitScheduledSlotPatch handlerId w r).run.run base).2
    revert hrun
    rcases (commitScheduledSlotPatch handlerId w r).run.run base with ⟨error | u, a'⟩
    · exact id
    · exact False.elim
  rcases hends with ⟨⟨commit, hcommits, -⟩, -⟩ | ⟨-, hsame⟩ | hdistrust
  · obtain ⟨patched, -, heq⟩ := hstaged
    rw [heq] at hcommits
    simpa using congrArg List.length hcommits
  · exact hidle ((hstaged.same_iff ha hregistered hcells).mp hsame)
  · obtain ⟨patched, -, heq⟩ := hstaged
    rw [heq] at hdistrust
    cases htrusted.symm.trans hdistrust

/-- Prepared commits are atomic: exactly where no slot patch writes for a pool whose revision is exhausted, a command
    publishes one commit that holds all of its prepared result, or fails and changes nothing, or leaves a runtime that is
    not trusted. -/
theorem handle_atomic_iff (w : World) (command : PreparedCommit) {a : AmmRuntimeActor} (ha : Inv handlerId a.engine)
    (hfence : Inv handlerId w.fence.2.engine) (hdrained : Inv handlerId w.drained.engine) :
    Atomic handlerId w command a ((handle handlerId w command).run.run a) ↔ Countable handlerId w a command := by
  cases command with
  | installPreparedPools r =>
    refine ⟨fun _ => trivial, fun _ => ?_⟩
    refine atomic_of_ends (installPreparedPools_spec w r a rfl ?_ hfence)
    unfold World.found
    dsimp only
    split
    · exact ha
    · exact hdrained
  | commitScheduledRefresh r =>
    refine ⟨fun _ => trivial, fun _ => ?_⟩
    exact atomic_of_ends (commitScheduledRefresh_spec w r ha hfence)
  | commitScheduledSlotPatch r =>
    constructor
    · intro hatomic htrusted kind registration hadmitted
      by_contra hcondition
      rw [not_or, Nat.not_lt] at hcondition
      exact not_atomic ha htrusted hadmitted hcondition.1 hcondition.2 hatomic
    · exact fun hcondition => atomic_of_ends (slotPatch_atomic ha hcondition)

end

/-! ### A pool with an exhausted revision -/

namespace Exhausted

def cell : StateSlot := ⟨1, 8⟩

def adapter : AmmAdapter :=
  ⟨0, .uniswapV2, [.uniswapV2], List.mem_singleton_self _, fun _ => ⟨[1], [], [cell], nofun, by simp [cell]⟩,
    fun _ => []⟩

def pool : PoolInstanceId := ⟨.uniswapV2 1, 0⟩

def registration : PoolRegistration := ⟨pool.key, [], [], .unknown, .ready⟩

def handlerId (_ : PoolInstanceId) : HandlerId := ⟨"pool"⟩

/-- One registered pool of one adapter. -/
def engine : AmmSyncEngine := (AmmSyncEngine.addPools handlerId [registration] (AmmSyncEngine.empty.addAdapter adapter).2).2

theorem engine_inv : Inv handlerId engine := (Inv.addPools (inv_empty.addAdapter adapter).1.inv [registration]).1.inv

def work : RuntimeWorkId := ⟨.pool pool, 0⟩

def point : AmmStatePoint := ⟨1, 0, 0⟩

/-- A trusted actor that waits for a slot patch of the pool. -/
def actor (revision : Nat) : AmmRuntimeActor where
  trusted := true
  point
  health := .healthy
  version := 0
  eventSequence := 0
  interestRevision := 0
  engine
  storage := Map.empty.insert cell 5
  revisions := Map.empty.insert pool revision
  subscriber := false
  scheduledFollowups := Map.empty.insert work ⟨pool, .deferredWarmup, .slotPatch [(cell.address, cell.slot)], point⟩
  pendingPoolFollowup := Map.empty.insert pool work
  pendingPoolWork := .empty
  commits := []

def world : World := ⟨(none, actor 0), actor 0, none, none, none, none, true, none⟩

def patch : SlotPatch := ⟨work, pool, point, [⟨cell, 7⟩], []⟩

theorem admitted (revision : Nat) : Admitted world patch (actor revision) .deferredWarmup registration where
  task := ⟨_, _, rfl, rfl, rfl, rfl, rfl⟩
  baseline := rfl
  awaits := ⟨rfl, rfl⟩
  identity := ⟨_, rfl⟩
  critical := rfl

end Exhausted

/-- A slot patch of a pool below the last revision is atomic. -/
theorem handle_atomic_iff_patch : Atomic Exhausted.handlerId Exhausted.world (.commitScheduledSlotPatch Exhausted.patch)
    (Exhausted.actor 0)
    ((handle Exhausted.handlerId Exhausted.world (.commitScheduledSlotPatch Exhausted.patch)).run.run
      (Exhausted.actor 0)) :=
  (handle_atomic_iff Exhausted.world (.commitScheduledSlotPatch Exhausted.patch) Exhausted.engine_inv
    Exhausted.engine_inv Exhausted.engine_inv).mpr fun _ _ _ _ => .inl (by decide)

/-- Behind the last revision of its pool the patch stays in the storage, unpublished, and the runtime stays trusted. -/
theorem slotPatch_not_atomic : ¬ Atomic Exhausted.handlerId Exhausted.world (.commitScheduledSlotPatch Exhausted.patch)
    (Exhausted.actor (2 ^ 64 - 1))
    ((handle Exhausted.handlerId Exhausted.world (.commitScheduledSlotPatch Exhausted.patch)).run.run
      (Exhausted.actor (2 ^ 64 - 1))) := by
  refine not_atomic Exhausted.engine_inv rfl (Exhausted.admitted (2 ^ 64 - 1)) (by decide) fun hidle => ?_
  have hcell := hidle.storage ⟨Exhausted.cell, 7⟩ (List.mem_singleton_self _)
  exact absurd hcell (by decide)

end AmmState.PreparedCommits
