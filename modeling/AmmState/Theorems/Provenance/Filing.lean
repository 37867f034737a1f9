import AmmState.Theorems.Provenance.Changes

/-! Scheduled pool work is filed under the key of its reservation, one work a key, and the reservation of a key with work is
    that of the work. A reservation is the newest generation of its key, so that an installation that waits at its fence can
    only take the reservation of its own work. -/

namespace AmmState.Provenance

/-- How scheduled work, the index by key and the reservations belong together. -/
structure Filed (a : AmmRuntimeActor) : Prop where
  fresh : ∀ work s, a.scheduledWork.get work = some s → work.work < a.nextWorkId
  keyed : ∀ work s, a.scheduledWork.get work = some s →
    s.reservation.key = s.registration.key ∧ a.pendingPoolWork.get s.registration.key = some work
  mapped : ∀ key work, a.pendingPoolWork.get key = some work → ∃ s, a.scheduledWork.get work = some s ∧
    s.registration.key = key
  newest : ∀ key pool, a.reservations.get key = some pool → pool.key = key ∧ a.generations.get key = some pool.generation
  booked : ∀ key pool work s, a.reservations.get key = some pool → a.pendingPoolWork.get key = some work →
    a.scheduledWork.get work = some s → s.reservation = pool
  issued : ∀ work s, a.scheduledWork.get work = some s →
    ∃ g, a.generations.get s.reservation.key = some g ∧ s.reservation.generation ≤ g
  attached : a.coldStartWorker = false → ∀ work, a.scheduledWork.get work = none
  pools : ∀ work s, a.scheduledWork.get work = some s → ∃ pool, work.owner = .pool pool
  discoveries : ∀ work d, a.scheduledDiscovery.get work = some d →
    (∃ owner, work.owner = .discovery owner) ∧ work.work < a.nextWorkId

/-- A reservation of the key stands for scheduled work, and is not what a request has left of pools that it could not
    queue. -/
def AmmRuntimeActor.Backed (a : AmmRuntimeActor) (key : PoolKey) : Prop :=
  (a.reservations.get key).isSome = true → (a.pendingPoolWork.get key).isSome = true

instance (a : AmmRuntimeActor) (key : PoolKey) : Decidable (a.Backed key) :=
  inferInstanceAs (Decidable ((a.reservations.get key).isSome = true → (a.pendingPoolWork.get key).isSome = true))

/-- No work is of a pool and of a discovery. -/
theorem Filed.undiscovered {a : AmmRuntimeActor} (h : Filed a) {work : RuntimeWorkId} {s : AmmScheduledPoolWork}
    (hs : a.scheduledWork.get work = some s) : a.scheduledDiscovery.get work = none := by
  by_contra hsome
  obtain ⟨d, hd⟩ := Option.ne_none_iff_exists'.mp hsome
  obtain ⟨pool, hpool⟩ := h.pools work s hs
  obtain ⟨owner, howner⟩ := (h.discoveries work d hd).1
  cases hpool.symm.trans howner

/-- The copy of the work that an installation holds: of a generation that was reserved, and that is reserved still only
    while the work is scheduled under it. -/
structure Held (a : AmmRuntimeActor) (work : RuntimeWorkId) (copy : AmmScheduledPoolWork) : Prop where
  key : copy.reservation.key = copy.registration.key
  generation : ∃ g, a.generations.get copy.reservation.key = some g ∧ copy.reservation.generation ≤ g
  scheduled : a.reservations.get copy.reservation.key = some copy.reservation →
    ∃ s, a.scheduledWork.get work = some s ∧ s.reservation = copy.reservation

/-- What a change leaves of a filed actor: filing, and what waiting installations hold. -/
structure Files (a b : AmmRuntimeActor) : Prop where
  filed : Filed b
  held : ∀ work copy, Held a work copy → Held b work copy

namespace Files
variable {a b c : AmmRuntimeActor}

theorem trans (h : Files a b) (h' : Filed b → Files b c) : Files a c :=
  ⟨(h' h.filed).filed, fun work copy hheld => (h' h.filed).held work copy (h.held work copy hheld)⟩

/-- Work is rewritten under its registration and its reservation. -/
theorem rewrite (h : Filed a) (hwork : ∀ work,
    Option.map (fun s => (s.reservation, s.registration)) (b.scheduledWork.get work) =
      Option.map (fun s => (s.reservation, s.registration)) (a.scheduledWork.get work))
    (hindex : b.pendingPoolWork = a.pendingPoolWork) (hreserved : b.reservations = a.reservations)
    (hgenerations : b.generations = a.generations) (hnext : a.nextWorkId ≤ b.nextWorkId)
    (hworker : a.coldStartWorker = true → b.coldStartWorker = true)
    (hdiscovery : ∀ work d, b.scheduledDiscovery.get work = some d →
      (a.scheduledDiscovery.get work).isSome = true ∨ a.IssuesDiscovery b work) :
    Files a b := by
  have hback : ∀ {work s}, b.scheduledWork.get work = some s → ∃ s', a.scheduledWork.get work = some s' ∧
      s'.reservation = s.reservation ∧ s'.registration = s.registration := by
    intro work s hs
    have heq := hwork work
    rw [hs, Option.map_some, eq_comm, Option.map_eq_some_iff] at heq
    obtain ⟨s', hs', heq⟩ := heq
    exact ⟨s', hs', (Prod.mk.inj heq).1, (Prod.mk.inj heq).2⟩
  have hforth : ∀ {work s}, a.scheduledWork.get work = some s → ∃ s', b.scheduledWork.get work = some s' ∧
      s'.reservation = s.reservation ∧ s'.registration = s.registration := by
    intro work s hs
    have heq := hwork work
    rw [hs, Option.map_some, Option.map_eq_some_iff] at heq
    obtain ⟨s', hs', heq⟩ := heq
    exact ⟨s', hs', (Prod.mk.inj heq).1, (Prod.mk.inj heq).2⟩
  refine ⟨⟨fun work s hs => ?_, fun work s hs => ?_, fun key work hkey => ?_, ?_,
    fun key pool work s hkey hindexed hs => ?_, fun work s hs => ?_, fun hnone work => ?_, fun work s hs => ?_,
    fun work d hd => ?_⟩, fun work copy hheld => ⟨hheld.key, ?_, ?_⟩⟩
  · obtain ⟨s', hs', -⟩ := hback hs
    exact (h.fresh work s' hs').trans_le hnext
  · obtain ⟨s', hs', hreservation, hregistration⟩ := hback hs
    rw [hindex, ← hreservation, ← hregistration]
    exact h.keyed work s' hs'
  · rw [hindex] at hkey
    obtain ⟨s, hs, hskey⟩ := h.mapped key work hkey
    obtain ⟨s', hs', -, hregistration⟩ := hforth hs
    exact ⟨s', hs', by rw [hregistration, hskey]⟩
  · rw [hreserved, hgenerations]
    exact h.newest
  · obtain ⟨s', hs', hreservation, -⟩ := hback hs
    exact hreservation.symm.trans (h.booked key pool work s' (hreserved ▸ hkey) (hindex ▸ hindexed) hs')
  · obtain ⟨s', hs', hreservation, -⟩ := hback hs
    rw [hgenerations, ← hreservation]
    exact h.issued work s' hs'
  · have hdetached : a.coldStartWorker = false := by
      by_contra hattached
      cases (hworker (Bool.not_eq_false _ ▸ hattached)).symm.trans hnone
    have heq := hwork work
    rwa [h.attached hdetached work, Option.map_none, Option.map_eq_none_iff] at heq
  · obtain ⟨s', hs', -⟩ := hback hs
    exact h.pools work s' hs'
  · rcases hdiscovery work d hd with hsome | ⟨howner, -, hissued⟩
    · obtain ⟨d', hd'⟩ := Option.isSome_iff_exists.mp hsome
      obtain ⟨howner, hfresh⟩ := h.discoveries work d' hd'
      exact ⟨howner, hfresh.trans_le hnext⟩
    · exact ⟨howner, hissued⟩
  · rw [hgenerations]
    exact hheld.generation
  · rw [hreserved]
    intro hreservation
    obtain ⟨s, hs, hsame⟩ := hheld.scheduled hreservation
    obtain ⟨s', hs', hreservation', -⟩ := hforth hs
    exact ⟨s', hs', hreservation'.trans hsame⟩

theorem aside (h : Filed a) (haside : Aside a b) : Files a b :=
  rewrite h (fun _ => by rw [haside.work]) haside.index haside.reservations haside.generations haside.next haside.worker
    haside.discovery

theorem refl (h : Filed a) : Files a a := rewrite h (fun _ => rfl) rfl rfl rfl le_rfl id (Aside.discovered rfl)

/-- Generations are only added, and none to a key with a reservation. -/
theorem regenerate (h : Filed a) {generations : Map PoolKey Nat}
    (hkept : ∀ key pool, a.reservations.get key = some pool → generations.get key = a.generations.get key)
    (hlater : ∀ key g, a.generations.get key = some g → ∃ g', generations.get key = some g' ∧ g ≤ g') :
    Files a { a with generations } := by
  have hissued : ∀ {pool : PoolInstanceId}, (∃ g, a.generations.get pool.key = some g ∧ pool.generation ≤ g) →
      ∃ g, generations.get pool.key = some g ∧ pool.generation ≤ g := by
    rintro pool ⟨g, hg, hle⟩
    obtain ⟨g', hg', hle'⟩ := hlater _ g hg
    exact ⟨g', hg', hle.trans hle'⟩
  refine ⟨⟨h.fresh, h.keyed, h.mapped, fun key pool hkey => ?_, h.booked,
    fun work s hs => hissued (h.issued work s hs), h.attached, h.pools, h.discoveries⟩,
    fun work copy hheld => ⟨hheld.key, hissued hheld.generation, hheld.scheduled⟩⟩
  obtain ⟨hpool, hnewest⟩ := h.newest key pool hkey
  exact ⟨hpool, (hkept key pool hkey).trans hnewest⟩

/-- A key without a reservation takes its next generation. -/
theorem bump (h : Filed a) {key : PoolKey} (hfree : a.reservations.get key = none) :
    Files a { a with generations := a.generations.insert key (a.nextPool key).generation } := by
  refine regenerate h (fun other pool hother => Map.get_insert_of_ne ?_) fun other g hg => ?_
  · rintro rfl
    cases hfree.symm.trans hother
  · by_cases hkey : other = key
    · subst hkey
      refine ⟨_, Map.get_insert_self _ _ _, ?_⟩
      rw [AmmRuntimeActor.nextPool, AmmRuntimeActor.reserve, hg]
      exact Nat.le_succ g
    · exact ⟨g, (Map.get_insert_of_ne hkey).trans hg, le_rfl⟩

theorem burn (h : Filed a) {key : PoolKey} (hfree : a.reservations.get key = none) :
    Files a ((a.reserve key).2.cancelPoolReservation (a.nextPool key)) := by
  have hrestored : (a.reservations.insert key (a.nextPool key)).remove key = a.reservations := by
    refine Map.ext fun other => ?_
    by_cases hkey : other = key
    · rw [hkey, Map.get_remove_self, hfree]
    · rw [Map.get_remove_of_ne hkey, Map.get_insert_of_ne hkey]
  rw [AmmRuntimeActor.burn_eq, hrestored]
  exact bump h hfree

/-- No copy of work is of the next generation of a key. -/
theorem held_ne_nextPool {key : PoolKey} {work : RuntimeWorkId} {copy : AmmScheduledPoolWork} (hheld : Held a work copy)
    (hkey : copy.reservation.key = key) : a.nextPool key ≠ copy.reservation := by
  intro hpool
  obtain ⟨g, hg, hle⟩ := hheld.generation
  have hgeneration : (a.generations.get key).elim 0 (· + 1) = copy.reservation.generation :=
    congrArg PoolInstanceId.generation hpool
  rw [← hkey, hg] at hgeneration
  exact absurd hle (not_le.mpr (hgeneration ▸ Nat.lt_succ_self g))

/-- A key is reserved without work. -/
theorem strand (h : Filed a) {key : PoolKey} (hqueue : a.Queueable key) : Files a (a.reserve key).2 := by
  have hbumped := bump h hqueue.unreserved
  refine ⟨⟨h.fresh, h.keyed, h.mapped, fun other pool hother => ?_, fun other pool work s hother hindexed hs => ?_,
    hbumped.filed.issued, h.attached, h.pools, h.discoveries⟩, fun work copy hheld =>
      ⟨hheld.key, (hbumped.held work copy hheld).generation, fun hreserved => ?_⟩⟩
  · rcases Map.get_insert_eq_some.mp hother with ⟨rfl, rfl⟩ | ⟨hne, hold⟩
    · exact ⟨rfl, Map.get_insert_self _ _ _⟩
    · obtain ⟨hpool, hnewest⟩ := h.newest other pool hold
      exact ⟨hpool, (Map.get_insert_of_ne hne).trans hnewest⟩
  · rcases Map.get_insert_eq_some.mp hother with ⟨rfl, -⟩ | ⟨-, hold⟩
    · cases hqueue.unscheduled.symm.trans hindexed
    · exact h.booked other pool work s hold hindexed hs
  · rcases Map.get_insert_eq_some.mp hreserved with ⟨hsame, hpool⟩ | ⟨-, hold⟩
    · exact absurd hpool (held_ne_nextPool hheld hsame)
    · exact hheld.scheduled hold

/-- A reservation is used up; its work may stay scheduled. -/
theorem unreserve (h : Filed a) (pool : PoolInstanceId) :
    Files a { a with reservations := a.reservations.remove pool.key } := by
  refine ⟨⟨h.fresh, h.keyed, h.mapped, fun key reserved hkey => ?_,
    fun key reserved work s hkey => ?_, h.issued, h.attached, h.pools, h.discoveries⟩,
    fun work copy hheld => ⟨hheld.key, hheld.generation, fun hkey => ?_⟩⟩
  · exact h.newest key reserved (Map.get_remove_eq_some.mp hkey).2
  · exact h.booked key reserved work s (Map.get_remove_eq_some.mp hkey).2
  · exact hheld.scheduled (Map.get_remove_eq_some.mp hkey).2

/-- Work leaves with its entry in the index and the reservation of its key. -/
theorem settle (h : Filed a) {work : RuntimeWorkId} {s : AmmScheduledPoolWork} (hs : a.scheduledWork.get work = some s)
    (hwork : b.scheduledWork = a.scheduledWork.remove work)
    (hindex : b.pendingPoolWork = a.pendingPoolWork.remove s.reservation.key)
    (hreserved : b.reservations = a.reservations.remove s.reservation.key) (hgenerations : b.generations = a.generations)
    (hnext : b.nextWorkId = a.nextWorkId) (hworker : b.coldStartWorker = a.coldStartWorker)
    (hdiscovery : b.scheduledDiscovery = a.scheduledDiscovery) : Files a b := by
  have hget : ∀ {other t}, b.scheduledWork.get other = some t → other ≠ work ∧ a.scheduledWork.get other = some t := by
    intro other t ht
    rw [hwork, Table.get_remove] at ht
    split_ifs at ht with hsame
    exact ⟨hsame, ht⟩
  have hkept : ∀ {other t}, other ≠ work → a.scheduledWork.get other = some t → b.scheduledWork.get other = some t := by
    intro other t hne ht
    rw [hwork, Table.get_remove, if_neg hne, ht]
  obtain ⟨hskey, hsindex⟩ := h.keyed work s hs
  have hother : ∀ {key other}, key ≠ s.reservation.key → a.pendingPoolWork.get key = some other → other ≠ work := by
    rintro key other hkey hother rfl
    obtain ⟨t, ht, htkey⟩ := h.mapped key other hother
    obtain rfl := Option.some.inj (hs.symm.trans ht)
    exact hkey (htkey.symm.trans hskey.symm)
  refine ⟨⟨fun other t ht => ?_, fun other t ht => ?_, fun key other hkey => ?_, fun key pool hkey => ?_,
    fun key pool other t hkey hindexed ht => ?_, fun other t ht => hgenerations ▸ h.issued other t (hget ht).2,
    fun hdetached other => ?_, fun other t ht => h.pools other t (hget ht).2,
    fun other d hd => hnext ▸ h.discoveries other d (hdiscovery ▸ hd)⟩,
    fun other copy hheld => ⟨hheld.key, hgenerations ▸ hheld.generation, fun hkey => ?_⟩⟩
  · exact hnext ▸ h.fresh other t (hget ht).2
  · obtain ⟨hne, ht⟩ := hget ht
    obtain ⟨htkey, htindex⟩ := h.keyed other t ht
    refine ⟨htkey, ?_⟩
    rw [hindex, Map.get_remove_of_ne, htindex]
    intro hsame
    rw [hsame, hskey, hsindex] at htindex
    exact hne (Option.some.inj htindex).symm
  · rw [hindex, Map.get_remove_eq_some] at hkey
    obtain ⟨t, ht, htkey⟩ := h.mapped key other hkey.2
    exact ⟨t, hkept (hother hkey.1 hkey.2) ht, htkey⟩
  · rw [hreserved, Map.get_remove_eq_some] at hkey
    rw [hgenerations]
    exact h.newest key pool hkey.2
  · rw [hreserved, Map.get_remove_eq_some] at hkey
    rw [hindex, Map.get_remove_eq_some] at hindexed
    exact h.booked key pool other t hkey.2 hindexed.2 (hget ht).2
  · rw [hwork, Table.get_remove, h.attached (hworker ▸ hdetached)]
    exact ite_self _
  · rw [hreserved, Map.get_remove_eq_some] at hkey
    obtain ⟨t, ht, htpool⟩ := hheld.scheduled hkey.2
    refine ⟨t, hkept ?_ ht, htpool⟩
    rintro rfl
    obtain rfl := Option.some.inj (hs.symm.trans ht)
    exact hkey.1 (congrArg PoolInstanceId.key htpool.symm)

/-- Under the key of scheduled work no other reservation stands. -/
theorem reserved_of_scheduled (h : Filed a) {work : RuntimeWorkId} {s : AmmScheduledPoolWork}
    (hs : a.scheduledWork.get work = some s) {pool : PoolInstanceId}
    (hpool : a.reservations.get s.reservation.key = some pool) : pool = s.reservation := by
  obtain ⟨hskey, hsindex⟩ := h.keyed work s hs
  exact (h.booked _ pool work s hpool (hskey ▸ hsindex) hs).symm

/-- Scheduled work that is released leaves its key without a reservation. -/
theorem release_reservations (h : Filed a) {work : RuntimeWorkId} {s : AmmScheduledPoolWork}
    (hs : a.scheduledWork.get work = some s) :
    (a.release work s).reservations = a.reservations.remove s.reservation.key := by
  unfold AmmRuntimeActor.release AmmRuntimeActor.cancelPoolReservation
  dsimp only
  split_ifs with hfree
  · rfl
  · refine Map.ext fun key => ?_
    by_cases hkey : key = s.reservation.key
    · rw [hkey, Map.get_remove_self]
      cases hpool : a.reservations.get s.reservation.key with
      | none => rfl
      | some pool => exact absurd (hpool.trans (congrArg some (reserved_of_scheduled h hs hpool))) hfree
    · rw [Map.get_remove_of_ne hkey]

theorem release (h : Filed a) {work : RuntimeWorkId} {s : AmmScheduledPoolWork} (hs : a.scheduledWork.get work = some s) :
    Files a (a.release work s) := by
  have hreserved := release_reservations h hs
  unfold AmmRuntimeActor.release AmmRuntimeActor.cancelPoolReservation at hreserved ⊢
  dsimp only at hreserved ⊢
  split_ifs at hreserved ⊢ <;> exact settle h hs rfl rfl hreserved rfl rfl rfl rfl

theorem install (h : Filed a) {work : RuntimeWorkId} {copy s : AmmScheduledPoolWork}
    (hs : a.scheduledWork.get work = some s) (hsame : s.reservation = copy.reservation) : Files a (a.install work copy) :=
  settle h hs rfl (by rw [hsame]; rfl) (by rw [hsame]; rfl) rfl rfl rfl rfl

/-- New work is filed under a key that had none. -/
theorem enqueue (h : Filed a) {registration : PoolRegistration} (hqueue : a.Queueable registration.key)
    (adapter : AdapterInstanceId) (cls : AmmWorkClass) : Files a (a.enqueue registration adapter cls) := by
  have hget : ∀ {other : RuntimeWorkId} {t}, (a.enqueue registration adapter cls).scheduledWork.get other = some t →
      (other = ⟨.pool (a.nextPool registration.key), a.nextWorkId⟩ ∧ t.reservation = a.nextPool registration.key ∧
        t.registration = registration) ∨
        other ≠ ⟨.pool (a.nextPool registration.key), a.nextWorkId⟩ ∧ a.scheduledWork.get other = some t := by
    intro other t ht
    rw [AmmRuntimeActor.enqueue, AmmRuntimeActor.schedule] at ht
    dsimp only at ht
    rw [Table.get_set] at ht
    split_ifs at ht with hnew
    · obtain rfl := Option.some.inj ht
      exact .inl ⟨hnew, rfl, rfl⟩
    · exact .inr ⟨hnew, ht⟩
  have hset : ∃ t, (a.enqueue registration adapter cls).scheduledWork.get
      ⟨.pool (a.nextPool registration.key), a.nextWorkId⟩ = some t ∧
      t.reservation = a.nextPool registration.key ∧ t.registration = registration := by
    rw [AmmRuntimeActor.enqueue, AmmRuntimeActor.schedule]
    dsimp only
    exact ⟨_, Table.get_set.trans (if_pos rfl), rfl, rfl⟩
  have hkept : ∀ {other t}, a.scheduledWork.get other = some t →
      (a.enqueue registration adapter cls).scheduledWork.get other = some t := by
    intro other t ht
    refine (Table.get_set.trans (if_neg ?_)).trans ht
    rintro rfl
    exact absurd (h.fresh _ t ht) (lt_irrefl _)
  have hbumped := bump h hqueue.unreserved
  refine ⟨⟨fun other t ht => ?_, fun other t ht => ?_, fun key other hkey => ?_, fun key pool hkey => ?_,
    fun key pool other t hkey hindexed ht => ?_, fun other t ht => ?_, fun hdetached => ?_, fun other t ht => ?_,
    fun other d hd => (h.discoveries other d hd).imp_right Nat.lt_succ_of_lt⟩, fun other copy hheld =>
      ⟨hheld.key, (hbumped.held other copy hheld).generation, fun hkey => ?_⟩⟩
  · rcases hget ht with ⟨rfl, -, -⟩ | ⟨-, ht⟩
    · exact Nat.lt_succ_self _
    · exact Nat.lt_succ_of_lt (h.fresh other t ht)
  · rcases hget ht with ⟨rfl, hreservation, hregistration⟩ | ⟨-, ht⟩
    · rw [hreservation, hregistration]
      exact ⟨rfl, Map.get_insert_self _ _ _⟩
    · obtain ⟨htkey, htindex⟩ := h.keyed other t ht
      refine ⟨htkey, (Map.get_insert_of_ne ?_).trans htindex⟩
      intro hsame
      rw [hsame] at htindex
      cases hqueue.unscheduled.symm.trans htindex
  · rcases Map.get_insert_eq_some.mp hkey with ⟨rfl, rfl⟩ | ⟨hne, hkey⟩
    · obtain ⟨t, ht, -, hregistration⟩ := hset
      exact ⟨t, ht, congrArg PoolRegistration.key hregistration⟩
    · obtain ⟨t, ht, htkey⟩ := h.mapped key other hkey
      exact ⟨t, hkept ht, htkey⟩
  · rcases Map.get_insert_eq_some.mp hkey with ⟨rfl, rfl⟩ | ⟨hne, hkey⟩
    · exact ⟨rfl, Map.get_insert_self _ _ _⟩
    · obtain ⟨hpool, hnewest⟩ := h.newest key pool hkey
      exact ⟨hpool, (Map.get_insert_of_ne hne).trans hnewest⟩
  · rcases Map.get_insert_eq_some.mp hkey with ⟨rfl, rfl⟩ | ⟨hne, hkey⟩
    · obtain ⟨t', ht', hreservation, -⟩ := hset
      obtain rfl := Option.some.inj ((Map.get_insert_self _ _ _).symm.trans hindexed)
      obtain rfl := Option.some.inj (ht'.symm.trans ht)
      exact hreservation
    · obtain ⟨-, hold⟩ := (Map.get_insert_eq_some.mp hindexed).resolve_left fun hsame => hne hsame.1
      rcases hget ht with ⟨rfl, -, -⟩ | ⟨-, ht⟩
      · obtain ⟨t', ht', -⟩ := h.mapped key _ hold
        exact absurd (h.fresh _ t' ht') (lt_irrefl _)
      · exact h.booked key pool other t hkey hold ht
  · rcases hget ht with ⟨-, hreservation, -⟩ | ⟨-, ht⟩
    · rw [hreservation]
      exact ⟨_, Map.get_insert_self _ _ _, le_rfl⟩
    · exact hbumped.filed.issued other t ht
  · cases hqueue.worker.symm.trans hdetached
  · rcases hget ht with ⟨rfl, -, -⟩ | ⟨-, ht⟩
    · exact ⟨_, rfl⟩
    · exact h.pools other t ht
  · rcases Map.get_insert_eq_some.mp hkey with ⟨hsame, hpool⟩ | ⟨-, hkey⟩
    · exact absurd hpool (held_ne_nextPool hheld hsame)
    · obtain ⟨t, ht, htpool⟩ := hheld.scheduled hkey
      exact ⟨t, hkept ht, htpool⟩

/-- A pass over the scheduled work that leaves registrations and reservations. -/
theorem of_map (h : Filed a) {f : RuntimeWorkId → AmmScheduledPoolWork → AmmScheduledPoolWork}
    (hf : ∀ work s, (f work s).reservation = s.reservation ∧ (f work s).registration = s.registration)
    (hwork : b.scheduledWork = a.scheduledWork.map f) (hindex : b.pendingPoolWork = a.pendingPoolWork)
    (hreserved : b.reservations = a.reservations) (hgenerations : b.generations = a.generations)
    (hnext : b.nextWorkId = a.nextWorkId) (hworker : b.coldStartWorker = a.coldStartWorker)
    (hdiscovery : b.scheduledDiscovery = a.scheduledDiscovery) : Files a b := by
  refine rewrite h (fun work => ?_) hindex hreserved hgenerations hnext.ge (fun hattached => hworker.trans hattached)
    (Aside.discovered hdiscovery)
  rw [hwork, Table.get_map, Option.map_map]
  congr 1
  exact funext fun s => Prod.ext (hf work s).1 (hf work s).2

theorem modifyWork (h : Filed a) (work : RuntimeWorkId) {f : AmmScheduledPoolWork → AmmScheduledPoolWork}
    (hf : ∀ s, (f s).reservation = s.reservation ∧ (f s).registration = s.registration) :
    Files a (a.modifyWork work f) := by
  unfold AmmRuntimeActor.modifyWork
  split
  · next s hs =>
    refine rewrite h (fun other => ?_) rfl rfl rfl le_rfl id (Aside.discovered rfl)
    dsimp only
    rw [Table.get_set]
    split_ifs with hsame
    · rw [hsame, hs, Option.map_some, Option.map_some, (hf s).1, (hf s).2]
    · rfl
  · exact refl h

theorem of_eq (h : Filed a) (hwork : b.scheduledWork = a.scheduledWork) (hindex : b.pendingPoolWork = a.pendingPoolWork)
    (hreserved : b.reservations = a.reservations) (hgenerations : b.generations = a.generations)
    (hnext : b.nextWorkId = a.nextWorkId) (hworker : b.coldStartWorker = a.coldStartWorker)
    (hdiscovery : b.scheduledDiscovery = a.scheduledDiscovery) : Files a b :=
  rewrite h (fun _ => by rw [hwork]) hindex hreserved hgenerations hnext.ge (fun hattached => hworker.trans hattached)
    (Aside.discovered hdiscovery)

theorem withoutOwner_filed (s : AmmScheduledPoolWork) (owner : DiscoveryOwnerId) :
    (s.withoutOwner owner).reservation = s.reservation ∧ (s.withoutOwner owner).registration = s.registration := by
  unfold AmmScheduledPoolWork.withoutOwner
  split_ifs <;> exact ⟨rfl, rfl⟩

theorem cross_filed (s : AmmScheduledPoolWork) (dropped : List B256) :
    (s.cross dropped).reservation = s.reservation ∧ (s.cross dropped).registration = s.registration := by
  unfold AmmScheduledPoolWork.cross
  split <;> exact ⟨rfl, rfl⟩

/-- Every change keeps the filing, and what installations hold. -/
theorem change (h : Filed a) {change : Change} (hfits : change.Fits a) : Files a (change.apply a) := by
  have hpopped : ∀ rest, Files a { a with pendingFactoryCandidates := rest } := fun _ => of_eq h rfl rfl rfl rfl rfl rfl rfl
  cases change with
  | aside b => exact aside h hfits
  | join candidate rest work => exact (hpopped rest).trans fun hb => modifyWork hb work fun _ => ⟨rfl, rfl⟩
  | burn key => exact burn h hfits.unreserved
  | strand key => exact strand h hfits
  | queue registration adapter cls => exact enqueue h hfits.1 adapter cls
  | adopt candidate rest adapter =>
    obtain ⟨-, hqueue, -⟩ := hfits
    have hqueue : { a with pendingFactoryCandidates := rest }.Queueable candidate.registration.key :=
      ⟨hqueue.trusted, hqueue.worker, hqueue.unscheduled, hqueue.inactive, hqueue.unreserved⟩
    exact (hpopped rest).trans fun hb => (enqueue hb hqueue adapter .focused).trans fun hc =>
      modifyWork hc _ fun _ => ⟨rfl, rfl⟩
  | release work s => exact release h hfits
  | unreserve pool => exact unreserve h pool
  | install work copy =>
    obtain ⟨-, -, s, hs, hsame⟩ := hfits
    exact install h hs hsame
  | prepare registration => exact (bump h hfits.2.2).trans fun hb => of_eq hb rfl rfl rfl rfl rfl rfl rfl
  | regenerate generations => exact regenerate h hfits.1 hfits.2
  | force active generations =>
    exact (regenerate h hfits.1.1 hfits.1.2).trans fun hb => of_eq hb rfl rfl rfl rfl rfl rfl rfl
  | withdraw owner => exact of_map h (fun _ s => withoutOwner_filed s owner) rfl rfl rfl rfl rfl rfl rfl
  | reconcilePending dropped => exact of_map h (fun _ s => cross_filed s dropped) rfl rfl rfl rfl rfl rfl rfl
  | support key pool evidence | retain candidate | drop candidate rest answer | activate pool | dropPool pool
  | dropOwner owner | revise pool evidence | reconcileRegistered dropped | publish point =>
    exact of_eq h rfl rfl rfl rfl rfl rfl rfl

end Files

theorem Changes.files {allow : AmmRuntimeActor → Change → Prop} {a b : AmmRuntimeActor}
    (h : Changes allow a b) (ha : Filed a) : Files a b := by
  induction h with
  | refl => exact .refl ha
  | tail _ hstep ih =>
    obtain ⟨change, hfits, -, rfl⟩ := hstep
    exact ih.trans fun hb => .change hb hfits

/-- Only a change that strands the key leaves it reserved without work. -/
theorem Change.backed {a : AmmRuntimeActor} {key : PoolKey} (h : Filed a) {change : Change} (hfits : change.Fits a)
    (hstrands : change ≠ .strand key) (hbacked : a.Backed key) : (change.apply a).Backed key := by
  have hinsert : ∀ (other : PoolKey) (pool : PoolInstanceId) (work : RuntimeWorkId),
      ((a.reservations.insert other pool).get key).isSome = true →
        ((a.pendingPoolWork.insert other work).get key).isSome = true := by
    intro other pool work hreserved
    by_cases hkey : key = other
    · rw [hkey, Map.get_insert_self, Option.isSome_some]
    · rw [Map.get_insert_of_ne hkey] at hreserved ⊢
      exact hbacked hreserved
  have hremove : ∀ other : PoolKey,
      ((a.reservations.remove other).get key).isSome = true → ((a.pendingPoolWork.remove other).get key).isSome = true := by
    intro other hreserved
    by_cases hkey : key = other
    · rw [hkey, Map.get_remove_self, Option.isSome_none] at hreserved
      cases hreserved
    · rw [Map.get_remove_of_ne hkey] at hreserved ⊢
      exact hbacked hreserved
  cases change with
  | aside b =>
    rw [Change.apply, AmmRuntimeActor.Backed, hfits.reservations, hfits.index]
    exact hbacked
  | join candidate rest work =>
    unfold Change.apply AmmRuntimeActor.modifyWork
    dsimp only
    split <;> exact hbacked
  | burn other =>
    rw [Change.apply, AmmRuntimeActor.burn_eq]
    refine fun hreserved => ?_
    obtain ⟨pool, hpool⟩ := Option.isSome_iff_exists.mp hreserved
    obtain ⟨hkey, hpool⟩ := Map.get_remove_eq_some.mp hpool
    exact hbacked (Option.isSome_of_eq_some ((Map.get_insert_of_ne hkey).symm.trans hpool))
  | strand other =>
    refine fun hreserved => ?_
    obtain ⟨pool, hpool⟩ := Option.isSome_iff_exists.mp hreserved
    refine hbacked (Option.isSome_of_eq_some ((Map.get_insert_of_ne ?_).symm.trans hpool))
    exact fun hsame => hstrands (congrArg Change.strand hsame.symm)
  | queue registration adapter cls => exact hinsert _ _ _
  | adopt candidate rest adapter =>
    rw [Change.adopt_apply]
    exact hinsert _ _ _
  | release work s =>
    have hindex : (a.release work s).pendingPoolWork = a.pendingPoolWork.remove s.reservation.key := by
      unfold AmmRuntimeActor.release AmmRuntimeActor.cancelPoolReservation
      dsimp only
      split_ifs <;> rfl
    rw [Change.apply, AmmRuntimeActor.Backed, Files.release_reservations h hfits, hindex]
    exact hremove _
  | unreserve pool =>
    refine fun hreserved => ?_
    obtain ⟨reserved, hpool⟩ := Option.isSome_iff_exists.mp hreserved
    exact hbacked (Option.isSome_of_eq_some (Map.get_remove_eq_some.mp hpool).2)
  | install work copy => exact hremove _
  | support | retain | drop | activate | prepare | regenerate | force | dropPool | dropOwner | withdraw
  | revise | reconcilePending | reconcileRegistered | publish => exact hbacked

/-- What changes that do not strand a key leave of it. -/
theorem Changes.backed {allow : AmmRuntimeActor → Change → Prop} {a b : AmmRuntimeActor} {key : PoolKey}
    (h : Changes allow a b) (hallow : ∀ c change, change.Fits c → allow c change → change ≠ .strand key) (ha : Filed a)
    (hbacked : a.Backed key) : b.Backed key := by
  induction h with
  | refl => exact hbacked
  | tail hchanges hstep ih =>
    obtain ⟨change, hfits, hkind, rfl⟩ := hstep
    refine change.backed (Changes.files hchanges ha).filed hfits (fun hstrands => ?_) ih
    rcases hkind with hharmless | hallowed
    · rw [hstrands] at hharmless
      exact hharmless
    · exact hallow _ change hfits hallowed hstrands

/-- Changes that leave no key reserved without work. -/
abbrev BackingChanges : AmmRuntimeActor → AmmRuntimeActor → Prop := Changes fun _ change => ∀ key, change ≠ .strand key

theorem BackingChanges.backed {a b : AmmRuntimeActor} {key : PoolKey} (h : BackingChanges a b) (ha : Filed a)
    (hbacked : a.Backed key) : b.Backed key := Changes.backed h (fun _ _ _ hallowed => hallowed key) ha hbacked

/-- No change brings trust back. -/
theorem Change.trusted {a : AmmRuntimeActor} {change : Change} (hfits : change.Fits a)
    (h : (change.apply a).trusted = true) : a.trusted = true := by
  have hmodified : ∀ (b : AmmRuntimeActor) work f, (b.modifyWork work f).trusted = b.trusted := by
    intro b work f
    unfold AmmRuntimeActor.modifyWork
    split <;> rfl
  cases change with
  | aside b => exact hfits.trust h
  | join candidate rest work =>
    exact (hmodified { a with pendingFactoryCandidates := rest } work (·.support candidate)).symm.trans h
  | burn key =>
    rw [apply, AmmRuntimeActor.burn_eq] at h
    exact h
  | adopt candidate rest adapter =>
    rw [adopt_apply] at h
    exact h
  | release work s =>
    unfold apply AmmRuntimeActor.release AmmRuntimeActor.cancelPoolReservation at h
    dsimp only at h
    split_ifs at h <;> exact h
  | force => cases h
  | support key pool evidence | retain candidate | drop candidate rest answer | strand key | queue registration adapter cls
  | unreserve pool | activate pool | install work copy | prepare registration | regenerate generations
  | dropPool pool | dropOwner owner
  | withdraw owner | revise pool evidence | reconcilePending dropped | reconcileRegistered dropped | publish point =>
    exact h

theorem Changes.trusted {allow : AmmRuntimeActor → Change → Prop} {a b : AmmRuntimeActor} (h : Changes allow a b)
    (hb : b.trusted = true) : a.trusted = true := by
  induction h with
  | refl => exact hb
  | tail _ hstep ih =>
    obtain ⟨change, hfits, -, rfl⟩ := hstep
    exact ih (change.trusted hfits hb)

/-- Active pools are entered under their own keys. -/
def Entered (a : AmmRuntimeActor) : Prop := ∀ key pool, a.activePools.get key = some pool → pool.key = key

theorem Entered.insert {a b : AmmRuntimeActor} (h : Entered a) {pool : PoolInstanceId}
    (hactive : b.activePools = a.activePools.insert pool.key pool) : Entered b := by
  intro key other hkey
  rw [hactive] at hkey
  rcases Map.get_insert_eq_some.mp hkey with ⟨hsame, rfl⟩ | ⟨-, hold⟩
  · exact hsame.symm
  · exact h key other hold

/-- While it is trusted, the actor enters pools under their own keys. -/
theorem Entered.change {a : AmmRuntimeActor} (h : Entered a) {change : Change} (hfits : change.Fits a)
    (htrusted : (change.apply a).trusted = true) : Entered (change.apply a) := by
  have hmodified : ∀ (b : AmmRuntimeActor) work f, (b.modifyWork work f).activePools = b.activePools := by
    intro b work f
    unfold AmmRuntimeActor.modifyWork
    split <;> rfl
  cases change with
  | aside b =>
    intro key pool hkey
    exact h key pool (hfits.active ▸ hkey)
  | join candidate rest work =>
    exact fun key pool hkey =>
      h key pool (hmodified { a with pendingFactoryCandidates := rest } work (·.support candidate) ▸ hkey)
  | burn key =>
    rw [Change.apply, AmmRuntimeActor.burn_eq]
    exact h
  | adopt candidate rest adapter =>
    rw [Change.adopt_apply]
    exact h
  | release work s =>
    unfold Change.apply AmmRuntimeActor.release AmmRuntimeActor.cancelPoolReservation
    dsimp only
    split_ifs <;> exact h
  | activate pool | prepare registration => exact h.insert rfl
  | install work copy => exact h.insert (b := a.install work copy) rfl
  | force => cases htrusted
  | dropPool pool => exact fun key other hkey => h key other (Map.get_remove_eq_some.mp hkey).2
  | support key pool evidence | retain candidate | drop candidate rest answer | strand key | queue registration adapter cls
  | unreserve pool | regenerate generations | dropOwner owner | withdraw owner | revise pool evidence
  | reconcilePending dropped | reconcileRegistered dropped | publish point => exact h

theorem Changes.entered {allow : AmmRuntimeActor → Change → Prop} {a b : AmmRuntimeActor} (h : Changes allow a b)
    (ha : a.trusted = true → Entered a) : b.trusted = true → Entered b := by
  induction h with
  | refl => exact ha
  | tail _ hstep ih =>
    obtain ⟨change, hfits, -, rfl⟩ := hstep
    exact fun hb => (ih (change.trusted hfits hb)).change hfits hb

/-! ### Runs -/

namespace Machine
open AmmRuntimeActor

/-- The actor is filed, and the installations that wait hold copies of its work. -/
structure InOrder (m : Machine) : Prop where
  filed : Filed m.actor
  entered : m.actor.trusted = true → Entered m.actor
  held : ∀ work copy baseline, Suspended.install work copy baseline ∈ m.suspended → Held m.actor work copy

variable {m : Machine}

/-- What waits for an installation is a copy of scheduled work. -/
theorem held_of_installable {a : AmmRuntimeActor} (h : Filed a) {work : RuntimeWorkId} {pool : PoolInstanceId}
    {registration : PoolRegistration} {baseline : AmmStatePoint} {copy : AmmScheduledPoolWork}
    (hcopy : a.installable work pool registration baseline = some copy) : Held a work copy := by
  obtain ⟨hwork, -⟩ := Option.filter_eq_some_iff.mp hcopy
  exact ⟨(h.keyed work copy hwork).1, h.issued work copy hwork, fun _ => ⟨copy, hwork, rfl⟩⟩

/-- Changes of any kind. -/
abbrev AnyChanges : AmmRuntimeActor → AmmRuntimeActor → Prop := Changes fun _ _ => True

/-- A command brings in no candidates but those that a completed discovery reports, or that a failed attempt goes on as, and
    leaves no pools reserved but those of a request for a pool without an adapter. -/
theorem handle_changes {allow : AmmRuntimeActor → Change → Prop} {a : AmmRuntimeActor} (h : Filed a) (command : Command)
    (hallow : ∀ b change, change.Commanded → allow b change)
    (hstranded : ∀ pools cls answer, command = .queueColdStart pools cls answer → ∀ b, ∀ pool ∈ pools,
      (∃ unserved ∈ pools, a.adapterFor unserved.protocol = none) → allow b (.strand pool.key))
    (hreported : ∀ work owner report numbered answers,
      command = .commitScheduledDiscovery work owner report numbered answers →
      ∀ scheduled registration b, a.scheduledDiscovery.get work = some scheduled →
        a.acceptsReport scheduled owner report = true →
        allow b (.retain (reportedCandidate scheduled registration)))
    (hretried : ∀ work numbered answer answers,
      command = .failScheduledWork work true numbered answer answers → numbered = true →
      ∀ scheduled candidate b, a.scheduledWork.get work = some scheduled → a.retryCandidate scheduled = some candidate →
        allow b (.retain candidate)) : Changes allow a (handle a command).actor := by
  cases command with
  | attachColdStartWorker answers => exact attachColdStartWorker_changes answers fun b _ _ _ _ => hallow b _ trivial
  | addFactoryWatcher key adapter accepted => exact a.addFactoryWatcher_changes key adapter accepted
  | removeFactoryWatcher owner accepted =>
    exact removeFactoryWatcher_changes owner accepted h.attached (hallow a _ trivial) (fun b _ _ _ _ => hallow b _ trivial)
      fun b _ => hallow b _ trivial
  | queueColdStart pools cls answer => exact a.queueColdStart_changes pools cls answer (hstranded pools cls answer rfl)
  | queueDiscovery owner request options answer => exact a.queueDiscovery_changes owner request options answer
  | commitScheduledDiscovery work owner report numbered answers =>
    rw [handle_commitScheduledDiscovery]
    exact commitScheduledDiscovery_changes work owner report numbered answers (fun _ _ b _ _ _ _ _ _ => hallow b _ trivial)
      (fun _ _ b _ _ _ _ _ _ _ _ _ _ => hallow b _ trivial) (hreported work owner report numbered answers rfl)
      fun b _ _ _ _ => hallow b _ trivial
  | commitScheduledPool work pool registration baseline =>
    rw [handle_commitScheduledPool]
    exact .refl a
  | installPreparedPools pools baseline answer =>
    exact a.installPreparedPools_changes pools baseline answer fun b _ _ _ _ _ => hallow b _ trivial
  | failScheduledWork work stale numbered answer answers =>
    refine failScheduledWork_changes work stale numbered answer answers (fun _ _ _ _ => hallow a _ trivial) ?_
      fun _ _ b _ _ _ _ => hallow b _ trivial
    rintro scheduled candidate b hs hnumbered rfl hretry
    exact hretried work numbered answer answers rfl hnumbered scheduled candidate b hs hretry
  | cancelScheduledWork work numbered => exact cancelScheduledWork_changes work numbered fun _ _ _ _ => hallow a _ trivial
  | removePool pool answer =>
    exact removePoolSerialized_changes pool answer (fun _ _ => hallow a _ trivial) (hallow _ _ trivial)
  | addAdapter adapter accepted => exact a.addAdapter_changes adapter accepted
  | removeAdapter adapter accepted => exact removeAdapter_changes adapter accepted fun b _ _ _ _ => hallow b _ trivial
  | removeAdapterCascade adapter pools owners accepted =>
    exact removeAdapterCascade_changes adapter pools owners accepted (fun b _ _ _ _ => hallow b _ trivial)
      (fun b _ _ _ => hallow b _ trivial) fun b _ _ => hallow b _ trivial
  | distrust => exact a.markUntrusted_changes

theorem proceed_anyChanges (a : AmmRuntimeActor) (reorg : Reorg) (numbered : Nat) (answers : Answers)
    (waiting : List Suspended) : AnyChanges a (proceed a reorg numbered answers waiting).actor :=
  proceed_changes reorg numbered answers waiting (fun _ _ _ _ _ _ => trivial) (fun _ _ => trivial) (fun _ _ _ _ => trivial)
    (fun _ => trivial) (fun _ _ _ => trivial) fun _ _ _ _ _ => trivial

theorem step_changes (h : InOrder m) (event : Event) : AnyChanges m.actor (m.step event).actor := by
  cases event with
  | command command =>
    obtain ⟨a, suspended⟩ := m
    cases suspended with
    | nil =>
      exact handle_changes h.filed command (fun _ _ _ => trivial) (fun _ _ _ _ _ _ _ _ => trivial)
        (fun _ _ _ _ _ _ _ _ _ _ _ => trivial)
        fun _ _ _ _ _ _ _ _ _ _ _ => trivial
    | cons frame waiting => exact .refl a
  | ingest batch answer numbered answers =>
    rw [step]
    rcases m.ingest_cases batch answer numbered answers with heq | heq | ⟨-, -, heq⟩
    · rw [heq]
      exact .refl _
    · rw [heq]
      exact m.actor.markUntrusted_changes
    · rw [heq]
      exact (published_changes batch trivial).trans (proceed_anyChanges _ _ _ _ _)
  | resume install removal numbered answers =>
    exact m.resume_changes install removal numbered answers
      (fun work copy baseline waiting hframe => (h.held work copy baseline (hframe ▸ List.mem_cons_self)).scheduled)
      (fun _ _ _ _ _ _ _ _ _ => trivial) (fun _ _ _ _ _ _ _ => trivial) (fun _ _ _ _ _ _ _ => trivial) (fun _ => trivial)
      fun _ _ _ b _ _ => proceed_anyChanges b _ _ _ _

/-- What goes on waits as before, but for an ingest that waits for another removal. -/
theorem proceed_suspended (a : AmmRuntimeActor) (reorg : Reorg) (numbered : Nat) (answers : Answers)
    (waiting : List Suspended) : (proceed a reorg numbered answers waiting).suspended = waiting ∨
      ∃ pool actions, (proceed a reorg numbered answers waiting).suspended =
        .reorg pool { reorg with actions } :: waiting := by
  unfold proceed
  split
  · exact .inl rfl
  · exact .inr ⟨_, _, rfl⟩

/-- An installation that waits has waited before, or begins to with a copy of its work. -/
theorem step_installs (m : Machine) (event : Event) {work : RuntimeWorkId} {copy : AmmScheduledPoolWork}
    {baseline : AmmStatePoint} (h : Suspended.install work copy baseline ∈ (m.step event).suspended) :
    Suspended.install work copy baseline ∈ m.suspended ∨ (m.step event).actor = m.actor ∧
      ∃ pool registration, m.actor.installable work pool registration baseline = some copy := by
  have hproceed : ∀ {a reorg numbered answers waiting}, Suspended.install work copy baseline ∈
      (proceed a reorg numbered answers waiting).suspended → Suspended.install work copy baseline ∈ waiting := by
    intro a reorg numbered answers waiting hmem
    rcases proceed_suspended a reorg numbered answers waiting with heq | ⟨pool, actions, heq⟩
    · exact heq ▸ hmem
    · rw [heq] at hmem
      rcases List.mem_cons.mp hmem with hnew | hold
      · cases hnew
      · exact hold
  cases event with
  | command command =>
    obtain ⟨a, suspended⟩ := m
    cases suspended with
    | cons frame waiting => exact .inl h
    | nil =>
      have hidle : ∀ {b : AmmRuntimeActor}, Suspended.install work copy baseline ∉
          (⟨b, []⟩ : Machine).suspended := List.not_mem_nil
      cases command with
      | commitScheduledDiscovery _ owner report numbered answers =>
        simp only [step, handle, List.isEmpty_nil, if_true] at h
        split at h
        · exact absurd h hidle
        · cases List.mem_singleton.mp h
      | commitScheduledPool _ pool registration _ =>
        simp only [step, handle, List.isEmpty_nil, if_true] at h
        split at h
        · exact absurd h hidle
        · next scheduled hcopy =>
          cases List.mem_singleton.mp h
          exact .inr ⟨handle_commitScheduledPool a work pool registration baseline, pool, registration, hcopy⟩
      | attachColdStartWorker | addFactoryWatcher | removeFactoryWatcher | queueColdStart | queueDiscovery
      | installPreparedPools | failScheduledWork | cancelScheduledWork | removePool | addAdapter | removeAdapter
      | removeAdapterCascade | distrust =>
        exact absurd h hidle
  | ingest batch answer numbered answers =>
    rw [step] at h
    rcases m.ingest_cases batch answer numbered answers with heq | heq | ⟨-, -, heq⟩
    · exact .inl (heq ▸ h)
    · exact .inl (by rwa [heq] at h)
    · rw [heq] at h
      exact .inl (hproceed h)
  | resume install removal numbered answers =>
    rw [step] at h
    unfold resume at h
    split at h
    · exact .inl h
    · next hframe => exact .inl (hframe ▸ List.mem_cons_of_mem _ h)
    · next hframe =>
      split at h <;> exact .inl (hframe ▸ List.mem_cons_of_mem _ h)
    · next hframe =>
      split at h
      · exact .inl (hframe ▸ List.mem_cons_of_mem _ (hproceed h))
      · exact .inl (hframe ▸ List.mem_cons_of_mem _ h)

theorem step_inOrder (h : InOrder m) (event : Event) : InOrder (m.step event) := by
  have hchanges := step_changes h event
  have hfiles := hchanges.files h.filed
  refine ⟨hfiles.filed, hchanges.entered h.entered, fun work copy baseline hmem => ?_⟩
  rcases m.step_installs event hmem with hold | ⟨hactor, pool, registration, hcopy⟩
  · exact hfiles.held work copy (h.held work copy baseline hold)
  · rw [hactor]
    exact held_of_installable h.filed hcopy

theorem run_inOrder (h : InOrder m) (events : List Event) : InOrder (m.run events) := by
  induction events generalizing m with
  | nil => exact h
  | cons event rest ih => exact ih (step_inOrder h event)

/-- Trust that a run ends with was there all along. -/
theorem run_trusted (h : InOrder m) (events : List Event) (htrusted : (m.run events).actor.trusted = true) :
    m.actor.trusted = true := by
  induction events generalizing m with
  | nil => exact htrusted
  | cons event rest ih => exact (step_changes h event).trusted (ih (step_inOrder h event) htrusted)

theorem start_inOrder (point : AmmStatePoint) (adapters : List AdapterInstanceId) (pools : List PoolInstanceId) :
    InOrder (start point adapters pools) := by
  have hwork : ∀ work s, (start point adapters pools).actor.scheduledWork.get work ≠ some s :=
    fun work s hs => nomatch Table.get_empty.symm.trans hs
  have hdiscovery : ∀ work d, (start point adapters pools).actor.scheduledDiscovery.get work ≠ some d :=
    fun work d hd => nomatch Table.get_empty.symm.trans hd
  refine ⟨⟨fun work s hs => absurd hs (hwork work s), fun work s hs => absurd hs (hwork work s), fun key work hkey => ?_,
    fun key pool hkey => ?_, fun key pool work s hkey => ?_, fun work s hs => absurd hs (hwork work s),
      fun _ work => Table.get_empty,
    fun work s hs => absurd hs (hwork work s), fun work d hd => absurd hd (hdiscovery work d)⟩,
    fun _ => ?_, fun work copy baseline hmem => absurd hmem List.not_mem_nil⟩
  · cases hkey
  · cases hkey
  · cases hkey
  · have hentered : ∀ (l : List PoolInstanceId) (active : Map PoolKey PoolInstanceId),
      (∀ key pool, active.get key = some pool → pool.key = key) →
        ∀ key pool, (l.foldl (fun active pool => active.insert pool.key pool) active).get key =
          some pool → pool.key = key := by
      intro l
      induction l with
      | nil => exact fun active hactive => hactive
      | cons head rest ih =>
        refine fun active hactive => ih _ fun key pool hkey => ?_
        rcases Map.get_insert_eq_some.mp hkey with ⟨hsame, rfl⟩ | ⟨-, hold⟩
        · exact hsame.symm
        · exact hactive key pool hold
    exact hentered pools .empty fun key pool hkey => nomatch hkey

end Machine

end AmmState.Provenance
