import AmmState.Runtime.ColdStart

/-! Queueing cold starts is all or nothing, except that a missing adapter after an accepted pool returns without giving the
    accepted reservations back. As long as that does not happen, and no commit fails after the engine took its
    reservation, the outstanding reservations are those of the scheduled work. -/

namespace AmmState.ColdStart
namespace AmmSyncEngine

/-- The adapter of a pool's protocol is registered and has an active generation. -/
def HasAdapter (engine : AmmSyncEngine) (pool : PoolRegistration) : Prop :=
  ∃ key adapter, engine.adapters.get pool.protocol = some key ∧ engine.activeAdapters.get key = some adapter

/-- A generation of the pool can be reserved. -/
def Reservable (engine : AmmSyncEngine) (pool : PoolRegistration) : Prop :=
  engine.HasAdapter pool ∧ engine.pools.get pool.key = none ∧ engine.reservations.get pool.key = none ∧
    (engine.nextPool pool.key).isSome = true

/-- What a reservation does to the engine. -/
theorem reservePoolGeneration_ok {engine engine' : AmmSyncEngine} {key : PoolKey} {reservation : PoolInstanceId}
    (h : engine.reservePoolGeneration key = .ok (engine', reservation)) :
    reservation.key = key ∧ engine.pools.get key = none ∧ engine.reservations.get key = none ∧
      (engine.nextPool key).isSome = true ∧ engine'.adapters = engine.adapters ∧
      engine'.activeAdapters = engine.activeAdapters ∧ engine'.pools = engine.pools ∧
      engine'.reservations = engine.reservations.insert key reservation ∧
      ∀ k, k ≠ key → engine'.generations.get k = engine.generations.get k := by
  rw [reservePoolGeneration] at h
  by_cases hpool : engine.pools.contains key = true
  · simp [hpool] at h
  rcases hreserved : engine.reservations.get key with _ | reserved
  · by_cases hadapter : engine.adapters.contains key.protocol = true
    · rcases hnext : engine.nextPool key with _ | generation
      · simp [hpool, hreserved, hadapter, hnext] at h
      · simp only [hpool, hreserved, hadapter, hnext, Bool.false_eq_true, if_false, Bool.not_true, Except.ok.injEq,
          Prod.mk.injEq] at h
        obtain ⟨rfl, rfl⟩ := h
        refine ⟨rfl, ?_, rfl, rfl, rfl, rfl, rfl, rfl, fun k hk => Map.get_insert_of_ne hk⟩
        exact Map.contains_eq_false.mp (Bool.eq_false_iff.mpr hpool)
    · simp [hpool, hreserved, hadapter] at h
  · simp [hpool, hreserved] at h

theorem reservePoolGeneration_of {engine : AmmSyncEngine} {pool : PoolRegistration} (h : engine.Reservable pool) :
    ∃ engine' reservation, engine.reservePoolGeneration pool.key = .ok (engine', reservation) := by
  obtain ⟨⟨adapterKey, adapter, hadapter, -⟩, hpool, hreserved, hnext⟩ := h
  obtain ⟨generation, hnext⟩ := Option.isSome_iff_exists.mp hnext
  have hcontains : engine.adapters.contains pool.key.protocol = true := Map.contains_iff.mpr ⟨_, hadapter⟩
  rw [reservePoolGeneration, Map.contains_eq_false.mpr hpool, hreserved]
  simp only [Bool.false_eq_true, if_false, hcontains, Bool.not_true, hnext]
  exact ⟨_, _, rfl⟩

theorem get_cancelPoolReservation (engine : AmmSyncEngine) (reservation : PoolInstanceId) (key : PoolKey) :
    (engine.cancelPoolReservation reservation).reservations.get key =
      if reservation.key = key ∧ engine.reservations.get key = some reservation then none
      else engine.reservations.get key := by
  rw [cancelPoolReservation]
  by_cases hheld : engine.reservations.get reservation.key = some reservation
  · rw [if_neg (not_not.mpr hheld), Map.get_remove]
    by_cases hkey : key = reservation.key
    · subst hkey
      simp [hheld]
    · rw [if_neg hkey, if_neg fun h => hkey h.1.symm]
  · rw [if_pos hheld, if_neg]
    rintro ⟨rfl, h⟩
    exact hheld h

end AmmSyncEngine

open AmmSyncEngine
namespace AmmRuntimeActor

theorem get_cancelAccepted (accepted : List Accepted) (engine : AmmSyncEngine) (key : PoolKey) :
    (cancelAccepted engine accepted).reservations.get key =
      if ∃ x ∈ accepted, x.reservation.key = key ∧ engine.reservations.get key = some x.reservation then none
      else engine.reservations.get key := by
  induction accepted generalizing engine with
  | nil => simp [cancelAccepted]
  | cons head rest ih =>
    show (cancelAccepted (engine.cancelPoolReservation head.reservation) rest).reservations.get key = _
    rw [ih, get_cancelPoolReservation]
    by_cases hhead : head.reservation.key = key ∧ engine.reservations.get key = some head.reservation
    · have hany : ∃ x ∈ head :: rest, x.reservation.key = key ∧ engine.reservations.get key = some x.reservation :=
        ⟨head, List.mem_cons_self, hhead⟩
      rw [if_pos hhead, if_pos hany]
      split_ifs <;> rfl
    · rw [if_neg hhead]
      have hiff : (∃ x ∈ head :: rest, x.reservation.key = key ∧ engine.reservations.get key = some x.reservation) ↔
          ∃ x ∈ rest, x.reservation.key = key ∧ engine.reservations.get key = some x.reservation := by
        simp only [List.mem_cons, exists_eq_or_imp, hhead, false_or]
      simp only [hiff]

/-! ### Accepting -/

/-- The engine after reserving for the accepted pools, all of them new. -/
structure Reserved (base engine : AmmSyncEngine) (accepted : List Accepted) : Prop where
  adapters : engine.adapters = base.adapters
  activeAdapters : engine.activeAdapters = base.activeAdapters
  pools : engine.pools = base.pools
  held : ∀ x ∈ accepted, engine.reservations.get x.registration.key = some x.reservation
  key : ∀ x ∈ accepted, x.reservation.key = x.registration.key
  fresh : ∀ x ∈ accepted, base.reservations.get x.registration.key = none
  frame : ∀ k ∉ accepted.map (·.registration.key), engine.reservations.get k = base.reservations.get k
  generations : ∀ k ∉ accepted.map (·.registration.key), engine.generations.get k = base.generations.get k

theorem Reserved.refl (engine : AmmSyncEngine) : Reserved engine engine [] :=
  ⟨rfl, rfl, rfl, by simp, by simp, by simp, fun _ _ => rfl, fun _ _ => rfl⟩

/-- Cancelling what was accepted, in any order, gives the reservations back. -/
theorem Reserved.cancel {base engine : AmmSyncEngine} {accepted : List Accepted}
    (h : Reserved base engine accepted) (cancelled : List Accepted) (hsame : ∀ x, x ∈ cancelled ↔ x ∈ accepted) :
    (cancelAccepted engine cancelled).reservations = base.reservations := by
  ext1 key
  rw [get_cancelAccepted]
  by_cases hmem : key ∈ accepted.map (·.registration.key)
  · obtain ⟨x, hx, rfl⟩ := List.mem_map.mp hmem
    rw [if_pos ⟨x, (hsame x).mpr hx, h.key x hx, h.held x hx⟩, h.fresh x hx]
  · rw [if_neg, h.frame key hmem]
    rintro ⟨x, hx, hkey, -⟩
    exact hmem (List.mem_map.mpr ⟨x, (hsame x).mp hx, (h.key x ((hsame x).mp hx)).symm.trans hkey⟩)

theorem Reserved.accept {base engine engine' : AmmSyncEngine} {accepted : List Accepted}
    (h : Reserved base engine accepted) {pool : PoolRegistration} {reservation : PoolInstanceId}
    (hnew : pool.key ∉ accepted.map (·.registration.key))
    (hreserve : engine.reservePoolGeneration pool.key = .ok (engine', reservation)) (adapter : AdapterInstanceId)
    (work : RuntimeWorkId) : Reserved base engine' (accepted ++ [⟨reservation, pool, adapter, work⟩]) := by
  obtain ⟨hkey, -, hnone, -, hadapters, hactive, hpools, hreservations, hgenerations⟩ := reservePoolGeneration_ok hreserve
  have hother : ∀ x ∈ accepted, x.registration.key ≠ pool.key :=
    fun x hx heq => hnew (List.mem_map.mpr ⟨x, hx, heq⟩)
  refine ⟨hadapters.trans h.adapters, hactive.trans h.activeAdapters, hpools.trans h.pools, ?_, ?_, ?_, ?_, ?_⟩
  · intro x hx
    rcases List.mem_append.mp hx with hx | hx
    · rw [hreservations, Map.get_insert_of_ne (hother x hx), h.held x hx]
    · obtain rfl := List.mem_singleton.mp hx
      rw [hreservations, Map.get_insert_self]
  · intro x hx
    rcases List.mem_append.mp hx with hx | hx
    · exact h.key x hx
    · obtain rfl := List.mem_singleton.mp hx
      exact hkey
  · intro x hx
    rcases List.mem_append.mp hx with hx | hx
    · exact h.fresh x hx
    · obtain rfl := List.mem_singleton.mp hx
      rw [← h.frame _ hnew, hnone]
  · intro k hk
    rw [List.map_append, List.mem_append, not_or] at hk
    have hne : k ≠ pool.key := fun heq => hk.2 (by simp [heq])
    rw [hreservations, Map.get_insert_of_ne hne, h.frame k hk.1]
  · intro k hk
    rw [List.map_append, List.mem_append, not_or] at hk
    have hne : k ≠ pool.key := fun heq => hk.2 (by simp [heq])
    rw [hgenerations k hne, h.generations k hk.1]

theorem Reserved.hasAdapter {base engine : AmmSyncEngine} {accepted : List Accepted} (h : Reserved base engine accepted)
    (pool : PoolRegistration) : engine.HasAdapter pool ↔ base.HasAdapter pool := by
  rw [HasAdapter, HasAdapter, h.adapters, h.activeAdapters]

theorem Reserved.reservable {base engine : AmmSyncEngine} {accepted : List Accepted} (h : Reserved base engine accepted)
    {pool : PoolRegistration} (hnew : pool.key ∉ accepted.map (·.registration.key)) :
    engine.Reservable pool ↔ base.Reservable pool := by
  rw [Reservable, Reservable, h.hasAdapter, h.pools, h.frame _ hnew, nextPool, nextPool, h.generations _ hnew]

/-- The numbers that accepted work takes. -/
def Numbered (first : Nat) (accepted : List Accepted) : Prop :=
  ∀ i (hi : i < accepted.length), accepted[i].work = ⟨.pool accepted[i].reservation, first + i⟩

theorem Numbered.append {first : Nat} {accepted : List Accepted} (h : Numbered first accepted) (x : Accepted)
    (hx : x.work = ⟨.pool x.reservation, first + accepted.length⟩) : Numbered first (accepted ++ [x]) := by
  intro i hi
  by_cases hlt : i < accepted.length
  · simp only [List.getElem_append_left hlt]
    exact h i hlt
  · have heq : i = accepted.length := by
      rw [List.length_append, List.length_singleton] at hi
      omega
    subst heq
    simpa using hx

/-- How accepting ends: with every pool, with the reservations as they were, or at a missing adapter. -/
theorem accept_spec {base : AmmSyncEngine} (first : Nat) (rest : List PoolRegistration) {engine : AmmSyncEngine}
    {accepted : List Accepted} (h : Reserved base engine accepted) (hnumbered : Numbered first accepted)
    (hkeys : (accepted.map (·.registration.key) ++ rest.map (·.key)).Nodup) :
    match accept rest engine (first + accepted.length) accepted with
    | (engine', .ok (next, all)) => Reserved base engine' all ∧ Numbered first all ∧
        all.map (·.registration) = accepted.map (·.registration) ++ rest ∧ next = first + all.length
    | (engine', .error _) => engine'.reservations = base.reservations ∨
        ∃ before pool after, rest = before ++ pool :: after ∧ (∀ q ∈ before, base.Reservable q) ∧
          ¬ base.HasAdapter pool ∧ (before ≠ [] → first + accepted.length + before.length < 2 ^ 64) ∧
          (before = [] → engine' = engine) := by
  induction rest generalizing engine accepted with
  | nil => exact ⟨h, hnumbered, by simp, rfl⟩
  | cons pool rest ih =>
    have hnew : pool.key ∉ accepted.map (·.registration.key) := by
      intro hmem
      exact (List.nodup_append.mp hkeys).2.2 _ hmem _ List.mem_cons_self rfl
    rw [accept]
    rcases hkey : engine.adapters.get pool.protocol with _ | adapterKey
    · have hnone : ¬ base.HasAdapter pool := by
        rw [← h.hasAdapter]
        rintro ⟨k, a, hk, -⟩
        rw [hkey] at hk
        cases hk
      exact .inr ⟨[], pool, rest, rfl, nofun, hnone, fun hne => absurd rfl hne, fun _ => rfl⟩
    dsimp only
    rcases hactive : engine.activeAdapters.get adapterKey with _ | adapter
    · have hnone : ¬ base.HasAdapter pool := by
        rw [← h.hasAdapter]
        rintro ⟨k, a, hk, ha⟩
        rw [hkey] at hk
        cases hk
        rw [hactive] at ha
        cases ha
      exact .inr ⟨[], pool, rest, rfl, nofun, hnone, fun hne => absurd rfl hne, fun _ => rfl⟩
    dsimp only
    rcases hreserve : engine.reservePoolGeneration pool.key with error | ⟨engine', reservation⟩
    · exact .inl (h.cancel accepted fun _ => Iff.rfl)
    dsimp only
    have hreserved := h.accept hnew hreserve adapter ⟨.pool reservation, first + accepted.length⟩
    by_cases hid : first + accepted.length + 1 < 2 ^ 64
    · rw [if_pos hid]
      have hreservable : base.Reservable pool := by
        obtain ⟨-, hpool, hnone, hnext, -⟩ := reservePoolGeneration_ok hreserve
        exact (h.reservable hnew).mp ⟨⟨_, _, hkey, hactive⟩, hpool, hnone, hnext⟩
      have hlength : first + (accepted ++ [(⟨reservation, pool, adapter, ⟨.pool reservation, first + accepted.length⟩⟩ :
          Accepted)]).length = first + accepted.length + 1 := by
        rw [List.length_append, List.length_singleton, Nat.add_assoc]
      have hrest := ih hreserved (hnumbered.append _ rfl) (by simpa using hkeys)
      rw [hlength] at hrest
      revert hrest
      rcases accept rest engine' (first + accepted.length + 1) _ with ⟨final, error | ⟨next, all⟩⟩
      · rintro (hsame | ⟨before, missing, after, rfl, hbefore, hmissing, hids, hfinal⟩)
        · exact .inl hsame
        · refine .inr ⟨pool :: before, missing, after, rfl, ?_, hmissing, fun _ => ?_, nofun⟩
          · intro q hq
            rcases List.mem_cons.mp hq with rfl | hq
            · exact hreservable
            · exact hbefore q hq
          · rw [List.length_cons]
            by_cases hnil : before = []
            · rw [hnil, List.length_nil]
              exact hid
            · have := hids hnil
              omega
      · rintro ⟨hall, hnumbers, hregistrations, hnext⟩
        exact ⟨hall, hnumbers, by simpa using hregistrations, hnext⟩
    · rw [if_neg hid]
      exact .inl (hreserved.cancel
        (⟨reservation, pool, adapter, ⟨.pool reservation, first + accepted.length⟩⟩ :: accepted) (by simp [or_comm]))

/-- A missing adapter after reservable pools leaves their reservations behind. -/
theorem accept_leak {base : AmmSyncEngine} (before : List PoolRegistration) {pool : PoolRegistration}
    {after : List PoolRegistration} {engine : AmmSyncEngine} {accepted : List Accepted} {next : Nat}
    (h : Reserved base engine accepted) (hkeys : (accepted.map (·.registration.key) ++ before.map (·.key)).Nodup)
    (hbefore : ∀ q ∈ before, base.Reservable q) (hids : next + before.length < 2 ^ 64)
    (hmissing : ¬ base.HasAdapter pool) :
    ∃ engine' error all, accept (before ++ pool :: after) engine next accepted = (engine', .error error) ∧
      Reserved base engine' all ∧ all.map (·.registration) = accepted.map (·.registration) ++ before := by
  induction before generalizing engine accepted next with
  | nil =>
    rw [List.nil_append, accept]
    rcases hkey : engine.adapters.get pool.protocol with _ | adapterKey
    · exact ⟨_, _, accepted, rfl, h, by simp⟩
    · dsimp only
      rcases hactive : engine.activeAdapters.get adapterKey with _ | adapter
      · exact ⟨_, _, accepted, rfl, h, by simp⟩
      · exact absurd ⟨_, _, hkey, hactive⟩ ((h.hasAdapter pool).not.mpr hmissing)
  | cons first before ih =>
    have hnew : first.key ∉ accepted.map (·.registration.key) := by
      intro hmem
      exact (List.nodup_append.mp hkeys).2.2 _ hmem _ List.mem_cons_self rfl
    have hreservable := (h.reservable hnew).mpr (hbefore first List.mem_cons_self)
    obtain ⟨engine', reservation, hreserve⟩ := reservePoolGeneration_of hreservable
    obtain ⟨⟨adapterKey, adapter, hkey, hactive⟩, -⟩ := hreservable
    rw [List.length_cons] at hids
    have hid : next + 1 < 2 ^ 64 := by omega
    rw [List.cons_append, accept, hkey]
    dsimp only
    rw [hactive]
    dsimp only
    rw [hreserve]
    dsimp only
    rw [if_pos hid]
    obtain ⟨final, error, all, heq, hall, hregistrations⟩ := ih
      (h.accept hnew hreserve adapter ⟨.pool reservation, next⟩) (by simpa using hkeys)
      (fun q hq => hbefore q (List.mem_cons_of_mem _ hq)) (by omega : next + 1 + before.length < 2 ^ 64)
    exact ⟨final, error, all, heq, hall, by simpa using hregistrations⟩

/-! ### Scheduling -/

/-- The scheduled work of an accepted pool. -/
def Accepted.scheduled (x : Accepted) (cls : AmmWorkClass) : AmmScheduledPoolWork where
  reservation := x.reservation
  registration := x.registration
  adapter := x.adapter
  discoveryOwner := none
  supportingDiscovery := ∅
  evidence := ⟨.stable "runtime.queue", []⟩
  cls := cls
  queued := true

theorem schedule_eq (cls : AmmWorkClass) (accepted : List Accepted) (a : AmmRuntimeActor) :
    (accepted.foldl (schedule cls) a).engine = a.engine ∧ (accepted.foldl (schedule cls) a).nextWorkId = a.nextWorkId ∧
    (accepted.foldl (schedule cls) a).scheduledWork =
      accepted.foldl (fun m x => m.insert x.work (x.scheduled cls)) a.scheduledWork ∧
    (accepted.foldl (schedule cls) a).pendingPoolWork =
      accepted.foldl (fun m x => m.insert x.registration.key x.work) a.pendingPoolWork ∧
    (accepted.foldl (schedule cls) a).pendingLifecycles =
      accepted.foldl (fun m x => m.insert x.reservation .queued) a.pendingLifecycles := by
  induction accepted generalizing a with
  | nil => exact ⟨rfl, rfl, rfl, rfl, rfl⟩
  | cons x rest ih => exact ih (schedule cls a x)

theorem schedule_queueDepths (cls : AmmWorkClass) (accepted : List Accepted) (a : AmmRuntimeActor) (c : AmmWorkClass) :
    (accepted.foldl (schedule cls) a).queueDepths c =
      if c = cls then (fun depth => min (depth + 1) (2 ^ 64 - 1))^[accepted.length] (a.queueDepths c)
      else a.queueDepths c := by
  induction accepted generalizing a with
  | nil => simp
  | cons x rest ih =>
    have hhead : (schedule cls a x).queueDepths c =
        if c = cls then min (a.queueDepths c + 1) (2 ^ 64 - 1) else a.queueDepths c := rfl
    rw [List.foldl_cons, ih, hhead, List.length_cons, Function.iterate_succ_apply]
    split_ifs <;> rfl

theorem Numbered.nodup {first : Nat} {accepted : List Accepted} (h : Numbered first accepted) :
    (accepted.map (·.work)).Nodup := by
  rw [List.nodup_iff_injective_getElem]
  rintro ⟨i, hi⟩ ⟨j, hj⟩ heq
  rw [List.length_map] at hi hj
  simp only [List.getElem_map, h i hi, h j hj, RuntimeWorkId.mk.injEq] at heq
  exact Fin.ext (by simpa using heq.2)

/-! ### All or nothing -/

/-- Every requested pool holds one new reservation, recorded by its scheduled work. -/
structure Scheduled (a a' : AmmRuntimeActor) (pools : List PoolRegistration) (cls : AmmWorkClass)
    (scheduled : List AmmScheduledPool) : Prop where
  keys : scheduled.map (·.pool.key) = pools.map (·.key)
  reserved : ∀ x ∈ scheduled, a.engine.reservations.get x.pool.key = none ∧
    a'.engine.reservations.get x.pool.key = some x.pool
  recorded : ∀ x ∈ scheduled, ∃ work, a'.scheduledWork.get x.work = some work ∧ work.reservation = x.pool ∧
    work.registration ∈ pools ∧ work.registration.key = x.pool.key ∧ work.evidence = ⟨.stable "runtime.queue", []⟩ ∧
    work.cls = cls ∧ work.queued = true
  pending : ∀ x ∈ scheduled, a'.pendingPoolWork.get x.pool.key = some x.work ∧
    a'.pendingLifecycles.get x.pool = some .queued
  frame : ∀ k ∉ pools.map (·.key), a'.engine.reservations.get k = a.engine.reservations.get k ∧
    a'.pendingPoolWork.get k = a.pendingPoolWork.get k
  depths : ∀ c, a'.queueDepths c =
    if c = cls then (fun depth => min (depth + 1) (2 ^ 64 - 1))^[pools.length] (a.queueDepths c) else a.queueDepths c

/-- Nothing of a refused request remains. -/
structure Unchanged (a a' : AmmRuntimeActor) : Prop where
  reservations : a'.engine.reservations = a.engine.reservations
  scheduledWork : a'.scheduledWork = a.scheduledWork
  pendingPoolWork : a'.pendingPoolWork = a.pendingPoolWork
  pendingLifecycles : a'.pendingLifecycles = a.pendingLifecycles
  activeWork : a'.activeWork = a.activeWork
  queueDepths : a'.queueDepths = a.queueDepths

def AllOrNothing (a : AmmRuntimeActor) (pools : List PoolRegistration) (cls : AmmWorkClass)
    (result : AmmRuntimeActor × Except AmmRuntimeCommandError (List AmmScheduledPool)) : Prop :=
  match result.2 with
  | .ok scheduled => Scheduled a result.1 pools cls scheduled
  | .error _ => Unchanged a result.1

/-- The request passes the checks that come before any reservation. -/
def Ready (a : AmmRuntimeActor) (pools : List PoolRegistration) : Prop :=
  a.trusted = true ∧ a.coldStartWorker = true ∧ a.nextEventSequence (pools.length * 2) = true ∧
    a.alreadyScheduled pools [] = none

/-- The request reaches a pool without an adapter after it reserved for others. -/
def Leaks (a : AmmRuntimeActor) (pools : List PoolRegistration) : Prop :=
  Ready a pools ∧ ∃ before pool after, pools = before ++ pool :: after ∧ before ≠ [] ∧
    (∀ q ∈ before, a.engine.Reservable q) ∧ a.nextWorkId + before.length < 2 ^ 64 ∧ ¬ a.engine.HasAdapter pool

theorem alreadyScheduled_none {a : AmmRuntimeActor} {pools : List PoolRegistration} {keys : List PoolKey}
    (h : a.alreadyScheduled pools keys = none) :
    (pools.map (·.key)).Nodup ∧ ∀ pool ∈ pools, pool.key ∉ keys ∧ a.pendingPoolWork.get pool.key = none := by
  induction pools generalizing keys with
  | nil => exact ⟨.nil, by simp⟩
  | cons pool rest ih =>
    rw [alreadyScheduled] at h
    by_cases hbusy : pool.key ∈ keys ∨ a.pendingPoolWork.contains pool.key ∨ a.engine.pools.contains pool.key
    · rw [if_pos hbusy] at h
      cases h
    rw [if_neg hbusy] at h
    obtain ⟨hnodup, hrest⟩ := ih h
    obtain ⟨hnew, hfree⟩ := not_or.mp hbusy
    have hpending : a.pendingPoolWork.get pool.key = none :=
      Map.contains_eq_false.mp (Bool.eq_false_iff.mpr (not_or.mp hfree).1)
    refine ⟨List.nodup_cons.mpr ⟨fun hmem => ?_, hnodup⟩, fun p hp => ?_⟩
    · obtain ⟨p, hp, heq⟩ := List.mem_map.mp hmem
      exact (hrest p hp).1 (heq ▸ List.mem_cons_self)
    · rcases List.mem_cons.mp hp with rfl | hp
      · exact ⟨hnew, hpending⟩
      · exact ⟨fun hmem => (hrest p hp).1 (List.mem_cons_of_mem _ hmem), (hrest p hp).2⟩

/-- The state that a successful request leaves. -/
theorem scheduled_of_accepted {a : AmmRuntimeActor} {pools : List PoolRegistration} (cls : AmmWorkClass)
    {engine : AmmSyncEngine} {accepted : List Accepted} {next sequence : Nat} (hkeys : (pools.map (·.key)).Nodup)
    (hreserved : Reserved a.engine engine accepted) (hnumbered : Numbered a.nextWorkId accepted)
    (hregistrations : accepted.map (·.registration) = pools) :
    Scheduled a { accepted.foldl (schedule cls) { a with engine := engine, nextWorkId := next } with
      eventSequence := sequence } pools cls (accepted.map fun x => ⟨x.reservation, x.work⟩) := by
  obtain ⟨hengine, -, hwork, hpending, hlifecycles⟩ :=
    schedule_eq cls accepted { a with engine := engine, nextWorkId := next }
  have hmap : accepted.map (·.registration.key) = pools.map (·.key) := by
    rw [← hregistrations, List.map_map]
    rfl
  have hreservations : (accepted.map (·.reservation)).Nodup := by
    have hkeys' : (accepted.map (·.reservation.key)).Nodup := by
      have heq : accepted.map (·.reservation.key) = accepted.map (·.registration.key) :=
        List.map_congr_left fun x hx => hreserved.key x hx
      rw [heq, hmap]
      exact hkeys
    rw [show accepted.map (·.reservation.key) = (accepted.map (·.reservation)).map (·.key) by simp] at hkeys'
    exact List.Nodup.of_map _ hkeys'
  refine ⟨?_, ?_, ?_, ?_, ?_, ?_⟩
  · rw [← hmap, List.map_map]
    exact List.map_congr_left fun x hx => hreserved.key x hx
  · intro y hy
    obtain ⟨x, hx, rfl⟩ := List.mem_map.mp hy
    refine ⟨?_, ?_⟩
    · show a.engine.reservations.get x.reservation.key = none
      rw [hreserved.key x hx, hreserved.fresh x hx]
    · show (accepted.foldl (schedule cls) _).engine.reservations.get x.reservation.key = some x.reservation
      rw [hengine, hreserved.key x hx]
      exact hreserved.held x hx
  · intro y hy
    obtain ⟨x, hx, rfl⟩ := List.mem_map.mp hy
    refine ⟨x.scheduled cls, ?_, rfl, ?_, (hreserved.key x hx).symm, rfl, rfl, rfl⟩
    · show (accepted.foldl (schedule cls) _).scheduledWork.get x.work = _
      rw [hwork]
      exact Map.get_foldl_insert_mem hnumbered.nodup _ hx
    · rw [← hregistrations]
      exact List.mem_map_of_mem hx
  · intro y hy
    obtain ⟨x, hx, rfl⟩ := List.mem_map.mp hy
    refine ⟨?_, ?_⟩
    · show (accepted.foldl (schedule cls) _).pendingPoolWork.get x.reservation.key = some x.work
      rw [hpending, hreserved.key x hx]
      exact Map.get_foldl_insert_mem (hmap ▸ hkeys) _ hx
    · show (accepted.foldl (schedule cls) _).pendingLifecycles.get x.reservation = _
      rw [hlifecycles]
      exact Map.get_foldl_insert_mem hreservations _ hx
  · intro k hk
    rw [← hmap] at hk
    refine ⟨?_, ?_⟩
    · show (accepted.foldl (schedule cls) _).engine.reservations.get k = _
      rw [hengine]
      exact hreserved.frame k hk
    · show (accepted.foldl (schedule cls) _).pendingPoolWork.get k = _
      rw [hpending]
      exact Map.get_foldl_insert_of_notMem _ hk
  · intro c
    have hlength : accepted.length = pools.length := by rw [← hregistrations, List.length_map]
    show (accepted.foldl (schedule cls) _).queueDepths c = _
    rw [schedule_queueDepths, hlength]

theorem unchanged_of_engine {a : AmmRuntimeActor} {engine : AmmSyncEngine}
    (h : engine.reservations = a.engine.reservations) : Unchanged a { a with engine := engine } :=
  ⟨h, rfl, rfl, rfl, rfl, rfl⟩

theorem queueColdStart_ready {a : AmmRuntimeActor} {pools : List PoolRegistration} (cls : AmmWorkClass) (submits : Bool)
    (h : Ready a pools) (hne : pools ≠ []) :
    a.queueColdStart pools cls submits = a.reserveAndSubmit pools cls submits := by
  obtain ⟨htrusted, hworker, hsequence, hbusy⟩ := h
  rw [queueColdStart, if_neg (by simp [htrusted]), if_neg (by simp [hworker]), if_neg hne,
    if_neg (by simp [hsequence]), hbusy]

theorem queueColdStart_not_ready {a : AmmRuntimeActor} {pools : List PoolRegistration} (cls : AmmWorkClass)
    (submits : Bool) (h : ¬ Ready a pools) :
    pools = [] ∧ a.queueColdStart pools cls submits = (a, .ok []) ∨
      ∃ error, a.queueColdStart pools cls submits = (a, .error error) := by
  rw [queueColdStart]
  by_cases htrusted : a.trusted = true
  swap
  · exact .inr ⟨_, if_pos (by simp [htrusted])⟩
  rw [if_neg (by simp [htrusted])]
  by_cases hworker : a.coldStartWorker = true
  swap
  · exact .inr ⟨_, if_pos (by simp [hworker])⟩
  rw [if_neg (by simp [hworker])]
  by_cases hempty : pools = []
  · exact .inl ⟨hempty, if_pos hempty⟩
  rw [if_neg hempty]
  by_cases hsequence : a.nextEventSequence (pools.length * 2) = true
  swap
  · exact .inr ⟨_, if_pos (by simp [hsequence])⟩
  rw [if_neg (by simp [hsequence])]
  rcases hbusy : a.alreadyScheduled pools [] with _ | key
  · exact absurd ⟨htrusted, hworker, hsequence, hbusy⟩ h
  · exact .inr ⟨_, rfl⟩

/-- How a request that does not leak ends: refused with the reservations as they were, empty, or accepted as a whole. -/
theorem queueColdStart_cases {a : AmmRuntimeActor} {pools : List PoolRegistration} (cls : AmmWorkClass) (submits : Bool)
    (h : ¬ Leaks a pools) :
    (∃ error engine, a.queueColdStart pools cls submits = ({ a with engine := engine }, .error error) ∧
      engine.reservations = a.engine.reservations) ∨
    (pools = [] ∧ a.queueColdStart pools cls submits = (a, .ok [])) ∨
    ∃ engine accepted, (pools.map (·.key)).Nodup ∧ Reserved a.engine engine accepted ∧
      Numbered a.nextWorkId accepted ∧ accepted.map (·.registration) = pools ∧
      a.queueColdStart pools cls submits =
        ({ accepted.foldl (schedule cls) { a with engine := engine, nextWorkId := a.nextWorkId + accepted.length } with
            eventSequence := a.eventSequence + 2 * accepted.length },
          .ok (accepted.map fun x => ⟨x.reservation, x.work⟩)) := by
  by_cases hready : Ready a pools
  swap
  · rcases queueColdStart_not_ready cls submits hready with hempty | ⟨error, heq⟩
    · exact .inr (.inl hempty)
    · exact .inl ⟨error, a.engine, heq, rfl⟩
  by_cases hempty : pools = []
  · subst hempty
    refine .inr (.inl ⟨rfl, ?_⟩)
    rw [queueColdStart, if_neg (by simp [hready.1]), if_neg (by simp [hready.2.1]), if_pos rfl]
  rw [queueColdStart_ready cls submits hready hempty, reserveAndSubmit]
  obtain ⟨hkeys, -⟩ := alreadyScheduled_none hready.2.2.2
  have hspec := accept_spec a.nextWorkId pools (Reserved.refl a.engine) (fun i hi => absurd hi (Nat.not_lt_zero i))
    (by simpa using hkeys)
  rw [List.length_nil, Nat.add_zero] at hspec
  rcases haccept : accept pools a.engine a.nextWorkId [] with ⟨engine, error | ⟨next, accepted⟩⟩
  · rw [haccept] at hspec
    rcases hspec with hsame | ⟨before, pool, after, rfl, hbefore, hmissing, hids, hengine⟩
    · exact .inl ⟨error, engine, rfl, hsame⟩
    · by_cases hnil : before = []
      · exact .inl ⟨error, engine, rfl, congrArg _ (hengine hnil)⟩
      · exact absurd ⟨hready, before, pool, after, rfl, hnil, hbefore, hids hnil, hmissing⟩ h
  · rw [haccept] at hspec
    obtain ⟨hreserved, hnumbered, hregistrations, rfl⟩ := hspec
    cases submits with
    | false => exact .inl ⟨_, _, rfl, hreserved.cancel accepted fun _ => Iff.rfl⟩
    | true => exact .inr (.inr ⟨engine, accepted, hkeys, hreserved, hnumbered, by simpa using hregistrations, rfl⟩)

/-- A request that does not leak is all or nothing. -/
theorem queueColdStart_all {a : AmmRuntimeActor} {pools : List PoolRegistration} (cls : AmmWorkClass) (submits : Bool)
    (h : ¬ Leaks a pools) : AllOrNothing a pools cls (a.queueColdStart pools cls submits) := by
  rcases queueColdStart_cases cls submits h with ⟨error, engine, heq, hsame⟩ | ⟨rfl, heq⟩ |
    ⟨engine, accepted, hkeys, hreserved, hnumbered, hregistrations, heq⟩
  · rw [heq]
    exact unchanged_of_engine hsame
  · rw [heq]
    exact ⟨rfl, by simp, by simp, by simp, fun _ _ => ⟨rfl, rfl⟩, by simp⟩
  · rw [heq]
    exact scheduled_of_accepted cls hkeys hreserved hnumbered hregistrations

/-- A request that leaks is refused with reservations left behind. -/
theorem queueColdStart_leak {a : AmmRuntimeActor} {pools : List PoolRegistration} (cls : AmmWorkClass) (submits : Bool)
    (h : Leaks a pools) :
    ∃ error engine, a.queueColdStart pools cls submits = ({ a with engine := engine }, .error error) ∧
      engine.reservations ≠ a.engine.reservations := by
  obtain ⟨hready, before, pool, after, rfl, hne, hbefore, hids, hmissing⟩ := h
  obtain ⟨hkeys, -⟩ := alreadyScheduled_none hready.2.2.2
  rw [List.map_append] at hkeys
  obtain ⟨engine, error, all, haccept, hreserved, hregistrations⟩ := accept_leak before (Reserved.refl a.engine)
    (by simpa using (List.nodup_append.mp hkeys).1) hbefore hids hmissing
  refine ⟨error, engine, ?_, fun hsame => ?_⟩
  · rw [queueColdStart_ready cls submits hready (by simp), reserveAndSubmit, haccept]
  · -- The first pool of the request holds a reservation that it did not hold before.
    obtain ⟨first, rest, rfl⟩ := List.exists_cons_of_ne_nil hne
    obtain ⟨x, hx, hfirst⟩ : ∃ x ∈ all, x.registration = first := by
      have hmem : first ∈ all.map (·.registration) := by
        rw [hregistrations]
        simp
      simpa using hmem
    have hheld := hreserved.held x hx
    rw [hsame, hreserved.fresh x hx] at hheld
    cases hheld

/-! ### Runs -/

/-- The outstanding reservations are those of the scheduled work, one for each pool key, and each key's pending work is the
    one that holds its reservation. -/
structure Accounted (reservations : Map PoolKey PoolInstanceId) (scheduled : Map RuntimeWorkId AmmScheduledPoolWork)
    (pending : Map PoolKey RuntimeWorkId) (nextWorkId : Nat) : Prop where
  held : ∀ key reservation, reservations.get key = some reservation ↔
    reservation.key = key ∧ ∃ work s, scheduled.get work = some s ∧ s.reservation = reservation
  unique : ∀ work work' s s', scheduled.get work = some s → scheduled.get work' = some s' →
    s.reservation.key = s'.reservation.key → work = work'
  pending : ∀ key work, pending.get key = some work ↔ ∃ s, scheduled.get work = some s ∧ s.reservation.key = key
  numbered : ∀ work s, scheduled.get work = some s → work.work < nextWorkId

/-- The reservations of an actor are accounted for. -/
def Sound (a : AmmRuntimeActor) : Prop :=
  Accounted a.engine.reservations a.scheduledWork a.pendingPoolWork a.nextWorkId

section Accounted
variable {reservations : Map PoolKey PoolInstanceId} {scheduled : Map RuntimeWorkId AmmScheduledPoolWork}
  {pending : Map PoolKey RuntimeWorkId} {nextWorkId : Nat}

theorem Accounted.mono (h : Accounted reservations scheduled pending nextWorkId) {next : Nat} (hle : nextWorkId ≤ next) :
    Accounted reservations scheduled pending next :=
  ⟨h.held, h.unique, h.pending, fun work s hs => Nat.lt_of_lt_of_le (h.numbered work s hs) hle⟩

/-- A change to scheduled work that keeps its reservation. -/
theorem Accounted.update (h : Accounted reservations scheduled pending nextWorkId) {work : RuntimeWorkId}
    {s s' : AmmScheduledPoolWork} (hs : scheduled.get work = some s) (hsame : s'.reservation = s.reservation) :
    Accounted reservations (scheduled.insert work s') pending nextWorkId := by
  -- Read through the update, every entry has the reservation it had before.
  have hback : ∀ w t, (scheduled.insert work s').get w = some t →
      ∃ t', scheduled.get w = some t' ∧ t'.reservation = t.reservation := by
    intro w t ht
    rcases Map.get_insert_eq_some.mp ht with ⟨rfl, rfl⟩ | ⟨-, ht⟩
    · exact ⟨s, hs, hsame.symm⟩
    · exact ⟨t, ht, rfl⟩
  have hforth : ∀ w t, scheduled.get w = some t →
      ∃ t', (scheduled.insert work s').get w = some t' ∧ t'.reservation = t.reservation := by
    intro w t ht
    by_cases hw : w = work
    · subst hw
      rw [hs] at ht
      cases ht
      exact ⟨s', Map.get_insert_self _ _ _, hsame⟩
    · exact ⟨t, (Map.get_insert_of_ne hw).trans ht, rfl⟩
  refine ⟨fun key reservation => (h.held key reservation).trans (and_congr_right' ⟨?_, ?_⟩), ?_, ?_, ?_⟩
  · rintro ⟨w, t, ht, rfl⟩
    obtain ⟨t', ht', heq⟩ := hforth w t ht
    exact ⟨w, t', ht', heq⟩
  · rintro ⟨w, t, ht, rfl⟩
    obtain ⟨t', ht', heq⟩ := hback w t ht
    exact ⟨w, t', ht', heq⟩
  · intro w w' t t' ht ht' hkey
    obtain ⟨u, hu, hequ⟩ := hback w t ht
    obtain ⟨u', hu', hequ'⟩ := hback w' t' ht'
    exact h.unique w w' u u' hu hu' (by rw [hequ, hequ', hkey])
  · intro key w
    refine (h.pending key w).trans ⟨?_, ?_⟩
    · rintro ⟨t, ht, hkey⟩
      obtain ⟨t', ht', heq⟩ := hforth w t ht
      exact ⟨t', ht', by rw [heq, hkey]⟩
    · rintro ⟨t, ht, hkey⟩
      obtain ⟨t', ht', heq⟩ := hback w t ht
      exact ⟨t', ht', by rw [heq, hkey]⟩
  · intro w t ht
    obtain ⟨t', ht', -⟩ := hback w t ht
    exact h.numbered w t' ht'

/-- Settling work: its entry, its reservation and its pending key go together. -/
theorem Accounted.settle (h : Accounted reservations scheduled pending nextWorkId) {work : RuntimeWorkId}
    {s : AmmScheduledPoolWork} (hs : scheduled.get work = some s) :
    Accounted (reservations.remove s.reservation.key) (scheduled.remove work) (pending.remove s.reservation.key)
      nextWorkId := by
  have hother : ∀ w t, (scheduled.remove work).get w = some t ↔
      scheduled.get w = some t ∧ t.reservation.key ≠ s.reservation.key := by
    intro w t
    rw [Map.get_remove_eq_some]
    constructor
    · rintro ⟨hw, ht⟩
      exact ⟨ht, fun hkey => hw (h.unique w work t s ht hs hkey)⟩
    · rintro ⟨ht, hkey⟩
      refine ⟨fun hw => hkey ?_, ht⟩
      rw [hw, hs] at ht
      cases ht
      rfl
  refine ⟨fun key reservation => ?_, ?_, fun key w => ?_, ?_⟩
  · rw [Map.get_remove_eq_some, h.held]
    constructor
    · rintro ⟨hne, rfl, w, t, ht, rfl⟩
      exact ⟨rfl, w, t, (hother w t).mpr ⟨ht, hne⟩, rfl⟩
    · rintro ⟨rfl, w, t, ht, rfl⟩
      obtain ⟨ht, hne⟩ := (hother w t).mp ht
      exact ⟨hne, rfl, w, t, ht, rfl⟩
  · intro w w' t t' ht ht'
    exact h.unique w w' t t' ((hother w t).mp ht).1 ((hother w' t').mp ht').1
  · rw [Map.get_remove_eq_some, h.pending]
    constructor
    · rintro ⟨hne, t, ht, rfl⟩
      exact ⟨t, (hother w t).mpr ⟨ht, hne⟩, rfl⟩
    · rintro ⟨t, ht, rfl⟩
      obtain ⟨ht, hne⟩ := (hother w t).mp ht
      exact ⟨hne, t, ht, rfl⟩
  · intro w t ht
    exact h.numbered w t ((hother w t).mp ht).1

/-- Recording one more accepted pool. -/
theorem Accounted.record (h : Accounted reservations scheduled pending nextWorkId) (work : RuntimeWorkId)
    (s : AmmScheduledPoolWork) (hnumber : nextWorkId ≤ work.work) (hnone : reservations.get s.reservation.key = none) :
    Accounted (reservations.insert s.reservation.key s.reservation) (scheduled.insert work s)
      (pending.insert s.reservation.key work) (work.work + 1) := by
  have hnew : ∀ w t, scheduled.get w = some t → w ≠ work := by
    rintro w t ht rfl
    have := h.numbered w t ht
    omega
  have hkey : ∀ w t, scheduled.get w = some t → t.reservation.key ≠ s.reservation.key := by
    intro w t ht heq
    have hheld := (h.held t.reservation.key t.reservation).mpr ⟨rfl, w, t, ht, rfl⟩
    rw [heq, hnone] at hheld
    cases hheld
  refine ⟨fun key reservation => ?_, ?_, fun key w => ?_, ?_⟩
  · rw [Map.get_insert_eq_some]
    constructor
    · rintro (⟨rfl, rfl⟩ | ⟨-, hheld⟩)
      · exact ⟨rfl, work, s, Map.get_insert_self _ _ _, rfl⟩
      · obtain ⟨rfl, w, t, ht, rfl⟩ := (h.held key reservation).mp hheld
        exact ⟨rfl, w, t, (Map.get_insert_of_ne (hnew w t ht)).trans ht, rfl⟩
    · rintro ⟨rfl, w, t, ht, rfl⟩
      rcases Map.get_insert_eq_some.mp ht with ⟨rfl, rfl⟩ | ⟨-, ht⟩
      · exact .inl ⟨rfl, rfl⟩
      · exact .inr ⟨hkey w t ht, (h.held _ _).mpr ⟨rfl, w, t, ht, rfl⟩⟩
  · intro w w' t t' ht ht' heq
    rcases Map.get_insert_eq_some.mp ht with ⟨rfl, rfl⟩ | ⟨-, hold⟩
    · rcases Map.get_insert_eq_some.mp ht' with ⟨rfl, -⟩ | ⟨-, hold'⟩
      · rfl
      · exact absurd heq.symm (hkey w' t' hold')
    · rcases Map.get_insert_eq_some.mp ht' with ⟨rfl, rfl⟩ | ⟨-, hold'⟩
      · exact absurd heq (hkey w t hold)
      · exact h.unique w w' t t' hold hold' heq
  · rw [Map.get_insert_eq_some]
    constructor
    · rintro (⟨rfl, rfl⟩ | ⟨-, hpending⟩)
      · exact ⟨s, Map.get_insert_self _ _ _, rfl⟩
      · obtain ⟨t, ht, rfl⟩ := (h.pending key w).mp hpending
        exact ⟨t, (Map.get_insert_of_ne (hnew w t ht)).trans ht, rfl⟩
    · rintro ⟨t, ht, rfl⟩
      rcases Map.get_insert_eq_some.mp ht with ⟨rfl, rfl⟩ | ⟨-, ht⟩
      · exact .inl ⟨rfl, rfl⟩
      · exact .inr ⟨hkey w t ht, (h.pending _ w).mpr ⟨t, ht, rfl⟩⟩
  · intro w t ht
    rcases Map.get_insert_eq_some.mp ht with ⟨rfl, rfl⟩ | ⟨-, ht⟩
    · exact Nat.lt_succ_self _
    · have := h.numbered w t ht
      omega

/-- Recording all accepted pools of a request. -/
theorem Accounted.recordAll (cls : AmmWorkClass) (accepted : List Accepted)
    (h : Accounted reservations scheduled pending nextWorkId) (hnumbered : Numbered nextWorkId accepted)
    (hkeys : (accepted.map (·.reservation.key)).Nodup)
    (hnone : ∀ x ∈ accepted, reservations.get x.reservation.key = none) :
    Accounted (accepted.foldl (fun m x => m.insert x.reservation.key x.reservation) reservations)
      (accepted.foldl (fun m x => m.insert x.work (x.scheduled cls)) scheduled)
      (accepted.foldl (fun m x => m.insert x.reservation.key x.work) pending) (nextWorkId + accepted.length) := by
  induction accepted using List.reverseRecOn with
  | nil => exact h
  | append_singleton rest last ih =>
    rw [List.map_append, List.nodup_append] at hkeys
    have hrest : Numbered nextWorkId rest := by
      intro i hi
      have hi' := hnumbered i (by rw [List.length_append]; omega)
      simpa only [List.getElem_append_left hi] using hi'
    have hlast : last.work.work = nextWorkId + rest.length := by
      have hwork := hnumbered rest.length (by simp)
      simp only [List.getElem_concat_length] at hwork
      rw [hwork]
    have hacc := ih hrest hkeys.1 fun x hx => hnone x (List.mem_append_left _ hx)
    have hfree : (rest.foldl (fun m x => m.insert x.reservation.key x.reservation) reservations).get
        last.reservation.key = none := by
      rw [Map.get_foldl_insert_of_notMem]
      · exact hnone last (by simp)
      · intro hmem
        exact hkeys.2.2 _ hmem _ (List.mem_singleton.mpr rfl) rfl
    have hrecord := hacc.record last.work (last.scheduled cls) (by rw [hlast]) hfree
    rw [hlast] at hrecord
    simpa only [List.foldl_append, List.foldl_cons, List.foldl_nil, List.length_append, List.length_singleton,
      Accepted.scheduled, Nat.add_assoc] using hrecord

end Accounted

section Steps
variable {a : AmmRuntimeActor}

/-- Releasing scheduled work gives its reservation back. -/
theorem Sound.release (h : Sound a) {work : RuntimeWorkId} {s : AmmScheduledPoolWork}
    (hs : a.scheduledWork.get work = some s) : Sound (a.release work s) := by
  have hheld : a.engine.reservations.get s.reservation.key = some s.reservation :=
    (h.held _ _).mpr ⟨rfl, work, s, hs, rfl⟩
  have hcancel : (a.engine.cancelPoolReservation s.reservation).reservations =
      a.engine.reservations.remove s.reservation.key := by
    rw [cancelPoolReservation, if_neg (not_not.mpr hheld)]
  have hsettled := h.settle hs
  rw [← hcancel] at hsettled
  rw [AmmRuntimeActor.release]
  by_cases hqueued : s.queued = true
  · rw [if_pos hqueued]
    exact hsettled
  · rw [if_neg hqueued]
    exact hsettled

theorem Sound.queueColdStart (h : Sound a) {pools : List PoolRegistration} (cls : AmmWorkClass) (submits : Bool)
    (hleak : ¬ Leaks a pools) : Sound (a.queueColdStart pools cls submits).1 := by
  rcases queueColdStart_cases cls submits hleak with ⟨error, engine, heq, hsame⟩ | ⟨-, heq⟩ |
    ⟨engine, accepted, hkeys, hreserved, hnumbered, hregistrations, heq⟩
  · rw [heq]
    show Accounted engine.reservations a.scheduledWork a.pendingPoolWork a.nextWorkId
    rw [hsame]
    exact h
  · rw [heq]
    exact h
  · have hmap : accepted.map (·.reservation.key) = pools.map (·.key) := by
      rw [← hregistrations, List.map_map]
      exact List.map_congr_left fun x hx => hreserved.key x hx
    have hreservations : engine.reservations =
        accepted.foldl (fun m x => m.insert x.reservation.key x.reservation) a.engine.reservations := by
      ext1 key
      by_cases hmem : key ∈ accepted.map (·.reservation.key)
      · obtain ⟨x, hx, rfl⟩ := List.mem_map.mp hmem
        rw [Map.get_foldl_insert_mem (hmap ▸ hkeys) _ hx, hreserved.key x hx, hreserved.held x hx]
      · rw [Map.get_foldl_insert_of_notMem _ hmem, hreserved.frame]
        rw [← List.map_congr_left fun x hx => hreserved.key x hx]
        exact hmem
    have hpending : ∀ pending : Map PoolKey RuntimeWorkId,
        accepted.foldl (fun m x => m.insert x.registration.key x.work) pending =
          accepted.foldl (fun m x => m.insert x.reservation.key x.work) pending :=
      fun pending => List.foldl_ext _ _ _ fun m x hx => by rw [hreserved.key x hx]
    obtain ⟨hengine, hnext, hwork, hpendingWork, -⟩ := schedule_eq cls accepted
      { a with engine := engine, nextWorkId := a.nextWorkId + accepted.length }
    have hall := Accounted.recordAll cls accepted h hnumbered (hmap ▸ hkeys) fun x hx => by
      rw [hreserved.key x hx]
      exact hreserved.fresh x hx
    rw [heq]
    show Accounted (accepted.foldl (schedule cls) _).engine.reservations (accepted.foldl (schedule cls) _).scheduledWork
      (accepted.foldl (schedule cls) _).pendingPoolWork (accepted.foldl (schedule cls) _).nextWorkId
    rw [hengine, hnext, hwork, hpendingWork, hpending]
    show Accounted engine.reservations _ _ _
    rw [hreservations]
    exact hall

theorem Sound.startScheduledWork (h : Sound a) (work : RuntimeWorkId) : Sound (a.startScheduledWork work).1 := by
  rw [AmmRuntimeActor.startScheduledWork]
  rcases hs : a.scheduledWork.get work with _ | s
  · exact h
  dsimp only
  split_ifs
  · exact h
  · exact h
  · exact Accounted.update h hs rfl
  · exact Accounted.update h hs rfl

theorem Sound.reportScheduledRound (h : Sound a) (work : RuntimeWorkId) (round : Nat) (nextRound : Option Nat) :
    Sound (a.reportScheduledRound work round nextRound).1 := by
  rw [AmmRuntimeActor.reportScheduledRound]
  rcases hs : a.scheduledWork.get work with _ | s
  · exact h
  dsimp only
  split_ifs
  · exact h
  · exact h
  · exact h
  · exact Accounted.update h hs rfl
  · exact h

theorem Sound.beginScheduledRound (h : Sound a) (work : RuntimeWorkId) (round : Nat) :
    Sound (a.beginScheduledRound work round).1 := by
  rw [AmmRuntimeActor.beginScheduledRound]
  rcases hs : a.scheduledWork.get work with _ | s
  · exact h
  dsimp only
  split_ifs
  · exact h
  · exact h
  · exact Accounted.update h hs rfl

theorem Sound.abandon (h : Sound a) (work : RuntimeWorkId) (events : Nat) (state : PoolRuntimeState) :
    Sound (a.abandon work events state).1 := by
  rw [AmmRuntimeActor.abandon]
  rcases hs : a.scheduledWork.get work with _ | s
  · exact h
  dsimp only
  split_ifs
  · exact h
  · exact h.release hs

theorem Sound.detachScheduledWork (h : Sound a) (work : RuntimeWorkId) : Sound (a.detachScheduledWork work) := by
  rw [AmmRuntimeActor.detachScheduledWork]
  by_cases hworker : a.coldStartWorker = true
  swap
  · rw [if_pos (by simp [hworker])]
    exact h
  rw [if_neg (by simp [hworker])]
  rcases hs : a.scheduledWork.get work with _ | s
  · exact h
  · exact h.release hs

theorem Sound.supportScheduledWork (h : Sound a) (work : RuntimeWorkId) (owner : DiscoveryOwnerId)
    (evidence : List RegistrationProvenance) : Sound (a.supportScheduledWork work owner evidence) := by
  rw [AmmRuntimeActor.supportScheduledWork]
  rcases hs : a.scheduledWork.get work with _ | s
  · exact h
  · exact Accounted.update h hs rfl

/-- The commit of scheduled work is refused before the engine takes the reservation, or it is published with a round
    reported. -/
def Settles (a : AmmRuntimeActor) (work : RuntimeWorkId) (outcome : InstallOutcome) : Prop :=
  outcome = .refused ∨ (∃ events, outcome = .installed events) ∧ a.activeWork.get work ≠ some 0

theorem Sound.commitScheduledPool (h : Sound a) (work : RuntimeWorkId) (pool : PoolInstanceId)
    (registration : PoolRegistration) (activeDiscovery : DiscoveryOwnerId → Bool) {outcome : InstallOutcome}
    (hsettles : Settles a work outcome) :
    Sound (a.commitScheduledPool work pool registration activeDiscovery outcome).1 := by
  rw [AmmRuntimeActor.commitScheduledPool]
  rcases hs : a.scheduledWork.get work with _ | s
  · exact h
  dsimp only
  split_ifs with hstale hsequence
  · exact h
  · exact h
  rw [installReserved]
  by_cases hreserved : registration.key ≠ s.reservation.key ∨ registration.status ≠ .ready ∨
    a.engine.reservations.get s.reservation.key ≠ some s.reservation
  · rw [if_pos hreserved]
    exact h
  rw [if_neg hreserved]
  rcases hsettles with rfl | ⟨⟨events, rfl⟩, hround⟩
  · exact h
  · dsimp only
    rw [if_neg hround]
    have hpool : s.reservation = pool := by
      by_contra hne
      exact hstale (.inl hne)
    rw [← hpool]
    exact Accounted.settle h hs

/-- What a run must keep to for its reservations to stay accounted for. -/
def Meets (a : AmmRuntimeActor) : Event → Prop
  | .queueColdStart pools _ _ => ¬ Leaks a pools
  | .commitScheduledPool work _ _ _ outcome => Settles a work outcome
  | _ => True

theorem Sound.step (h : Sound a) {event : Event} (hmeets : Meets a event) : Sound (a.step event) := by
  cases event with
  | queueColdStart pools cls submits => exact h.queueColdStart cls submits hmeets
  | startScheduledWork work => exact h.startScheduledWork work
  | reportScheduledRound work round nextRound => exact h.reportScheduledRound work round nextRound
  | beginScheduledRound work round => exact h.beginScheduledRound work round
  | failScheduledWork work => exact h.abandon work 2 .failed
  | cancelScheduledWork work => exact h.abandon work 3 .removed
  | detachScheduledWork work => exact h.detachScheduledWork work
  | commitScheduledPool work pool registration activeDiscovery outcome =>
    exact h.commitScheduledPool work pool registration activeDiscovery hmeets
  | supportScheduledWork work owner evidence => exact h.supportScheduledWork work owner evidence
  | other change => exact Accounted.mono h (Nat.le_add_right _ _)

end Steps

/-- Every event of a run meets its condition in the state it finds. -/
def RunMeets : AmmRuntimeActor → List Event → Prop
  | _, [] => True
  | a, event :: rest => Meets a event ∧ RunMeets (a.step event) rest

theorem Sound.run {a : AmmRuntimeActor} (h : Sound a) {events : List Event} (hmeets : RunMeets a events) :
    Sound (a.run events) := by
  induction events generalizing a with
  | nil => exact h
  | cons event rest ih => exact ih (h.step hmeets.1) hmeets.2

/-- An actor that has scheduled nothing yet. -/
structure Idle (a : AmmRuntimeActor) : Prop where
  reservations : a.engine.reservations = .empty
  scheduledWork : a.scheduledWork = .empty
  pendingPoolWork : a.pendingPoolWork = .empty

theorem Idle.sound {a : AmmRuntimeActor} (h : Idle a) : Sound a := by
  rw [Sound, h.reservations, h.scheduledWork, h.pendingPoolWork]
  exact ⟨by simp, by simp, by simp, by simp⟩

/-! ### Main result -/

/-- A request is all or nothing exactly if it does not reach a missing adapter after a reservation. In a run without such a
    request, and without a commit that fails after the engine took its reservation, the outstanding reservations are those
    of the scheduled work. -/
theorem queueColdStart_reservations (a : AmmRuntimeActor) :
    (∀ (pools : List PoolRegistration) (cls : AmmWorkClass) (submits : Bool),
      AllOrNothing a pools cls (a.queueColdStart pools cls submits) ↔ ¬ Leaks a pools) ∧
    ∀ events : List Event, Idle a → RunMeets a events → Sound (a.run events) := by
  refine ⟨fun pools cls submits => ⟨fun hall hleaks => ?_, queueColdStart_all cls submits⟩, ?_⟩
  · obtain ⟨error, engine, heq, hne⟩ := queueColdStart_leak cls submits hleaks
    rw [heq] at hall
    exact hne hall.reservations
  · intro events hidle hmeets
    exact hidle.sound.run hmeets

/-- A runtime with a worker and one adapter, which serves Uniswap V2. -/
def uniswapV2Only : AmmRuntimeActor where
  trusted := true
  coldStartWorker := true
  engine :=
    { adapters := Map.empty.insert .uniswapV2 ⟨[.uniswapV2]⟩
      activeAdapters := Map.empty.insert ⟨[.uniswapV2]⟩ ⟨⟨[.uniswapV2]⟩, 0⟩
      pools := .empty
      reservations := .empty
      generations := .empty
      lifecycles := .empty }
  scheduledWork := .empty
  pendingPoolWork := .empty
  pendingLifecycles := .empty
  activeWork := .empty
  queueDepths := fun _ => 0
  nextWorkId := 0
  eventSequence := 0

def uniswapPool (address : Address) : PoolRegistration := ⟨.uniswapV2 address, .ready⟩

def curvePool : PoolRegistration := ⟨.curve 7, .ready⟩

theorem hasAdapter_uniswapPool (address : Address) : uniswapV2Only.engine.HasAdapter (uniswapPool address) :=
  ⟨⟨[.uniswapV2]⟩, ⟨⟨[.uniswapV2]⟩, 0⟩, rfl, rfl⟩

theorem idle_uniswapV2Only : Idle uniswapV2Only := ⟨rfl, rfl, rfl⟩

/-- Two pools are queued; the first one commits and the second one fails. -/
def commitAndFail : List Event :=
  let first : PoolInstanceId := ⟨.uniswapV2 1, 0⟩
  let second : PoolInstanceId := ⟨.uniswapV2 2, 0⟩
  [.queueColdStart [uniswapPool 1, uniswapPool 2] .bootstrap true, .startScheduledWork ⟨.pool first, 0⟩,
    .reportScheduledRound ⟨.pool first, 0⟩ 0 none,
    .commitScheduledPool ⟨.pool first, 0⟩ first (uniswapPool 1) (fun _ => true) (.installed 3),
    .failScheduledWork ⟨.pool second, 1⟩]

theorem runMeets_commitAndFail : RunMeets uniswapV2Only commitAndFail := by
  refine ⟨?_, trivial, trivial, .inr ⟨⟨3, rfl⟩, by decide +kernel⟩, trivial, trivial⟩
  rintro ⟨-, before, pool, after, heq, -, -, -, hmissing⟩
  have hmem : pool ∈ [uniswapPool 1, uniswapPool 2] := by
    rw [heq]
    simp
  rcases List.mem_cons.mp hmem with rfl | hmem
  · exact hmissing (hasAdapter_uniswapPool 1)
  · rw [List.mem_singleton.mp hmem] at hmissing
    exact hmissing (hasAdapter_uniswapPool 2)

theorem queueColdStart_reservations_commitAndFail :
    Sound (uniswapV2Only.run commitAndFail) ∧
    (uniswapV2Only.run commitAndFail).engine.pools.get (.uniswapV2 1) = some (uniswapPool 1) ∧
    (uniswapV2Only.run commitAndFail).pendingLifecycles.get ⟨.uniswapV2 2, 0⟩ = some .failed :=
  ⟨(queueColdStart_reservations _).2 _ idle_uniswapV2Only runMeets_commitAndFail, by decide +kernel, by decide +kernel⟩

/-- A request for a Uniswap V2 and a Curve pool fails at the second one. No work remembers the reservation of the first, and
    a later request for it alone is refused. -/
theorem missing_adapter_leaks :
    Idle uniswapV2Only ∧
    (let result := uniswapV2Only.queueColdStart [uniswapPool 1, curvePool] .bootstrap true
     result.2 = .error (.lifecycleInvariant "cold-start registration has no active adapter") ∧
      ¬ AllOrNothing uniswapV2Only [uniswapPool 1, curvePool] .bootstrap result ∧
      result.1.engine.reservations.get (.uniswapV2 1) = some ⟨.uniswapV2 1, 0⟩ ∧
      result.1.scheduledWork = .empty ∧ ¬ Sound result.1 ∧
      (result.1.queueColdStart [uniswapPool 1] .bootstrap true).2 =
        .error (.poolReservationConflict ⟨.uniswapV2 1, 0⟩)) := by
  have hreserved : (uniswapV2Only.queueColdStart [uniswapPool 1, curvePool] .bootstrap true).1.engine.reservations.get
      (.uniswapV2 1) = some ⟨.uniswapV2 1, 0⟩ := rfl
  refine ⟨idle_uniswapV2Only, rfl, fun hall => ?_, rfl, rfl, fun hsound => ?_, rfl⟩
  · have hsame : (uniswapV2Only.queueColdStart [uniswapPool 1, curvePool] .bootstrap true).1.engine.reservations =
        uniswapV2Only.engine.reservations := Unchanged.reservations hall
    rw [hsame] at hreserved
    cases hreserved
  · obtain ⟨-, work, s, hs, -⟩ := (hsound.held _ _).mp hreserved
    cases hs

end AmmRuntimeActor
end AmmState.ColdStart
