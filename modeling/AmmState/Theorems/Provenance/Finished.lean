import AmmState.Theorems.Provenance.Filing

/-! Work ends once. Numbers of work are given out once, so that work that is no longer scheduled never is again; and a
    generation of a pool that is neither reserved nor entered any more never is again, whatever still waits at a fence. -/

namespace AmmState.Provenance
open AmmRuntimeActor

variable {a b c : AmmRuntimeActor} {pool : PoolInstanceId}

/-- The work is scheduled, for a pool or for a discovery. -/
def AmmRuntimeActor.Scheduled (a : AmmRuntimeActor) (work : RuntimeWorkId) : Prop :=
  (a.scheduledWork.get work).isSome = true ∨ (a.scheduledDiscovery.get work).isSome = true

/-! ### Numbers of work -/

/-- Numbers are given out in order, and only work under a new number is scheduled. -/
structure Numbers (a b : AmmRuntimeActor) : Prop where
  next : a.nextWorkId ≤ b.nextWorkId
  new : ∀ work, b.Scheduled work → a.Scheduled work ∨ a.nextWorkId ≤ work.work

namespace Numbers

theorem trans (h : Numbers a b) (h' : Numbers b c) : Numbers a c := by
  refine ⟨h.next.trans h'.next, fun work hwork => ?_⟩
  rcases h'.new work hwork with hold | hnew
  · exact h.new work hold
  · exact .inr (h.next.trans hnew)

theorem of_work (hnext : a.nextWorkId ≤ b.nextWorkId) (hdiscovery : b.scheduledDiscovery = a.scheduledDiscovery)
    (hwork : ∀ work, (b.scheduledWork.get work).isSome = true →
      (a.scheduledWork.get work).isSome = true ∨ a.nextWorkId ≤ work.work) : Numbers a b := by
  refine ⟨hnext, fun work hscheduled => ?_⟩
  rcases hscheduled with hpool | hfound
  · exact (hwork work hpool).imp_left .inl
  · exact .inl (.inr (hdiscovery ▸ hfound))

theorem of_eq (hwork : b.scheduledWork = a.scheduledWork) (hdiscovery : b.scheduledDiscovery = a.scheduledDiscovery)
    (hnext : b.nextWorkId = a.nextWorkId) : Numbers a b :=
  of_work hnext.ge hdiscovery fun _ hsome => .inl (hwork ▸ hsome)

theorem refl (a : AmmRuntimeActor) : Numbers a a := of_eq rfl rfl rfl

theorem aside (h : Aside a b) : Numbers a b := by
  refine ⟨h.next, fun work hscheduled => ?_⟩
  rcases hscheduled with hpool | hfound
  · exact .inl (.inl (h.work ▸ hpool))
  · obtain ⟨scheduled, hget⟩ := Option.isSome_iff_exists.mp hfound
    rcases h.discovery work scheduled hget with hold | ⟨-, hissued, -⟩
    · exact .inl (.inr hold)
    · exact .inr hissued

/-- Entries are rewritten in place. -/
theorem modifyWork (a : AmmRuntimeActor) (work : RuntimeWorkId) (f : AmmScheduledPoolWork → AmmScheduledPoolWork) :
    Numbers a (a.modifyWork work f) := by
  unfold AmmRuntimeActor.modifyWork
  split
  · next s hs =>
    refine of_work le_rfl rfl fun other hsome => .inl ?_
    dsimp only at hsome
    rw [Table.get_set] at hsome
    split_ifs at hsome with hsame
    · rw [hsame, hs]
      rfl
    · exact hsome
  · exact refl a

theorem remove (hwork : ∃ work, b.scheduledWork = a.scheduledWork.remove work)
    (hdiscovery : b.scheduledDiscovery = a.scheduledDiscovery) (hnext : b.nextWorkId = a.nextWorkId) : Numbers a b := by
  obtain ⟨work, hwork⟩ := hwork
  refine of_work hnext.ge hdiscovery fun other hsome => .inl ?_
  rw [hwork, Table.get_remove] at hsome
  split_ifs at hsome
  · cases hsome
  · exact hsome

theorem map {f : RuntimeWorkId → AmmScheduledPoolWork → AmmScheduledPoolWork}
    (hwork : b.scheduledWork = a.scheduledWork.map f) (hdiscovery : b.scheduledDiscovery = a.scheduledDiscovery)
    (hnext : b.nextWorkId = a.nextWorkId) : Numbers a b := by
  refine of_work hnext.ge hdiscovery fun work hsome => .inl ?_
  rwa [hwork, Table.get_map, Option.isSome_map] at hsome

theorem enqueue (a : AmmRuntimeActor) (registration : PoolRegistration) (adapter : AdapterInstanceId) (cls : AmmWorkClass) :
    Numbers a (a.enqueue registration adapter cls) := by
  refine of_work (Nat.le_succ a.nextWorkId) rfl fun work hsome => ?_
  rw [AmmRuntimeActor.enqueue_get] at hsome
  split_ifs at hsome with hnew
  · exact .inr (hnew ▸ le_rfl)
  · exact .inl hsome

/-- Every change gives numbers out in order. -/
theorem change {change : Change} (hfits : change.Fits a) : Numbers a (change.apply a) := by
  have hpopped : ∀ rest, Numbers a { a with pendingFactoryCandidates := rest } := fun _ => of_eq rfl rfl rfl
  cases change with
  | aside b => exact aside hfits
  | join candidate rest work => exact (hpopped rest).trans (modifyWork _ _ _)
  | burn key =>
    rw [Change.apply, AmmRuntimeActor.burn_eq]
    exact of_eq rfl rfl rfl
  | strand key => exact of_eq rfl rfl rfl
  | queue registration adapter cls => exact enqueue a registration adapter cls
  | adopt candidate rest adapter =>
    exact (hpopped rest).trans ((enqueue _ candidate.registration adapter .focused).trans (modifyWork _ _ _))
  | release work s =>
    unfold Change.apply AmmRuntimeActor.release cancelPoolReservation
    dsimp only
    split_ifs <;> exact remove ⟨work, rfl⟩ rfl rfl
  | install work copy => exact remove ⟨work, rfl⟩ rfl rfl
  | withdraw owner => exact map (f := fun _ s => s.withoutOwner owner) rfl rfl rfl
  | reconcilePending dropped => exact map (f := fun _ s => s.cross dropped) rfl rfl rfl
  | support key pool evidence | retain candidate | drop candidate rest answer | unreserve pool | activate pool
  | prepare registration
  | regenerate generations | force active generations | dropPool pool | dropOwner owner | revise pool evidence
  | reconcileRegistered dropped | publish point => exact of_eq rfl rfl rfl

end Numbers

theorem Changes.numbers {allow : AmmRuntimeActor → Change → Prop} (h : Changes allow a b) : Numbers a b :=
  h.keeps (P := Numbers a) (fun _ _ hc hfits _ => hc.trans (.change hfits)) (.refl a)

/-! ### Reservations and entries -/

/-- A pool whose generation has been given out, and that is neither reserved nor entered any more. -/
structure Spent (a : AmmRuntimeActor) (pool : PoolInstanceId) : Prop where
  issued : ∃ g, a.generations.get pool.key = some g ∧ pool.generation ≤ g
  unreserved : a.reservations.get pool.key ≠ some pool
  inactive : a.activePools.get pool.key ≠ some pool

/-- While the actor is trusted, no reserved pool is entered. -/
def Vacant (a : AmmRuntimeActor) : Prop :=
  a.trusted = true → ∀ key pool, a.reservations.get key = some pool → a.activePools.get key = none

/-- The change enters the pool whose reservation has been used up just before. -/
def Change.Activates (pool : PoolInstanceId) : Change → Prop
  | .activate other => other = pool
  | _ => False

theorem Change.Activates.eq {change : Change} (h : change.Activates pool) : change = .activate pool := by
  cases change with
  | activate other => exact congrArg Change.activate h
  | aside | support | retain | join | drop | burn | strand | queue | adopt | release | unreserve | install
  | prepare | regenerate | force
  | dropPool | dropOwner | withdraw | revise | reconcilePending | reconcileRegistered | publish => exact h.elim

/-- What a change does to generations, reservations and entries: a reservation is new and of a key without an entry, and an
    entry is of a reserved or of a new pool, whose reservation is used up. -/
structure PoolEffect (a b : AmmRuntimeActor) (change : Change) : Prop where
  generations : ∀ key g, a.generations.get key = some g → ∃ g', b.generations.get key = some g' ∧ g ≤ g'
  reserved : ∀ key pool, b.reservations.get key = some pool →
    a.reservations.get key = some pool ∨ a.New key pool ∧ a.activePools.get key = none
  entered : ∀ key pool, b.activePools.get key = some pool → a.activePools.get key = some pool ∨
    (a.reservations.get key = some pool ∨ a.New key pool ∨ change.Activates pool) ∧
      (b.trusted = true → b.reservations.get key = none)

namespace PoolEffect
variable {change : Change}

/-- Reservations and entries are only given up. -/
theorem shrinks (hgenerations : ∀ key g, a.generations.get key = some g → ∃ g', b.generations.get key = some g' ∧ g ≤ g')
    (hreserved : ∀ key pool, b.reservations.get key = some pool → a.reservations.get key = some pool)
    (hactive : ∀ key pool, b.activePools.get key = some pool → a.activePools.get key = some pool) : PoolEffect a b change :=
  ⟨hgenerations, fun key pool h => .inl (hreserved key pool h), fun key pool h => .inl (hactive key pool h)⟩

theorem of_eq (hgenerations : b.generations = a.generations) (hreserved : b.reservations = a.reservations)
    (hactive : b.activePools = a.activePools) : PoolEffect a b change :=
  shrinks (fun _ g hg => ⟨g, hgenerations ▸ hg, le_rfl⟩) (fun _ _ h => hreserved ▸ h) fun _ _ h => hactive ▸ h

/-- A reservation of a key is given up. -/
theorem unreserve (key : PoolKey) (hgenerations : b.generations = a.generations)
    (hreserved : b.reservations = a.reservations.remove key) (hactive : b.activePools = a.activePools) :
    PoolEffect a b change := by
  refine shrinks (fun _ g hg => ⟨g, hgenerations ▸ hg, le_rfl⟩) (fun other pool hother => ?_) fun _ _ h => hactive ▸ h
  rw [hreserved] at hother
  exact (Map.get_remove_eq_some.mp hother).2

/-- The next generation of a key is new, and above the present ones. -/
theorem new_nextPool (a : AmmRuntimeActor) (key : PoolKey) : a.New key (a.nextPool key) := by
  intro g hg
  rw [nextPool, reserve, hg]
  exact Nat.lt_succ_self g

theorem nextPool_later (a : AmmRuntimeActor) (key other : PoolKey) (g : Nat) (hg : a.generations.get other = some g) :
    ∃ g', (a.generations.insert key (a.nextPool key).generation).get other = some g' ∧ g ≤ g' := by
  by_cases hkey : other = key
  · subst hkey
    exact ⟨_, Map.get_insert_self _ _ _, (new_nextPool a other g hg).le⟩
  · exact ⟨g, (Map.get_insert_of_ne hkey).trans hg, le_rfl⟩

/-- The next generation of a key without an entry is reserved. -/
theorem reserve {key : PoolKey} (hinactive : a.activePools.get key = none)
    (hgenerations : b.generations = a.generations.insert key (a.nextPool key).generation)
    (hreserved : b.reservations = a.reservations.insert key (a.nextPool key)) (hactive : b.activePools = a.activePools) :
    PoolEffect a b change := by
  refine ⟨fun other g hg => hgenerations ▸ nextPool_later a key other g hg, fun other pool hother => ?_,
    fun _ _ h => .inl (hactive ▸ h)⟩
  rw [hreserved] at hother
  rcases Map.get_insert_eq_some.mp hother with ⟨rfl, rfl⟩ | ⟨-, hold⟩
  · exact .inr ⟨new_nextPool a _, hinactive⟩
  · exact .inl hold

/-- A pool is entered, and its key has no reservation any more. -/
theorem enter (pool : PoolInstanceId) (hpool : a.reservations.get pool.key = some pool ∨ a.New pool.key pool ∨
    change.Activates pool)
    (hgenerations : ∀ key g, a.generations.get key = some g → ∃ g', b.generations.get key = some g' ∧ g ≤ g')
    (hreserved : b.reservations = a.reservations.remove pool.key)
    (hactive : b.activePools = a.activePools.insert pool.key pool) : PoolEffect a b change := by
  refine ⟨hgenerations, fun key other hkey => .inl ?_, fun key other hkey => ?_⟩
  · rw [hreserved] at hkey
    exact (Map.get_remove_eq_some.mp hkey).2
  · rw [hactive] at hkey
    rcases Map.get_insert_eq_some.mp hkey with ⟨rfl, rfl⟩ | ⟨-, hold⟩
    · exact .inr ⟨hpool, fun _ => hreserved ▸ Map.get_remove_self _ _⟩
    · exact .inl hold

theorem remove_free {key : PoolKey} (hfree : a.reservations.get key = none) :
    a.reservations = a.reservations.remove key := by
  refine Map.ext fun other => ?_
  by_cases hkey : other = key
  · rw [hkey, Map.get_remove_self, hfree]
  · rw [Map.get_remove_of_ne hkey]

theorem of_fits (change : Change) (hfits : change.Fits a) : PoolEffect a (change.apply a) change := by
  cases change with
  | aside b => exact of_eq hfits.generations hfits.reservations hfits.active
  | join candidate rest work =>
    unfold Change.apply AmmRuntimeActor.modifyWork
    dsimp only
    split <;> exact of_eq rfl rfl rfl
  | burn key =>
    rw [Change.apply, AmmRuntimeActor.burn_eq]
    refine shrinks (nextPool_later a key) (fun other pool hother => ?_) fun _ _ => id
    obtain ⟨hkey, hother⟩ := Map.get_remove_eq_some.mp hother
    exact (Map.get_insert_of_ne hkey).symm.trans hother
  | strand key => exact reserve hfits.inactive rfl rfl rfl
  | queue registration adapter cls => exact reserve hfits.1.inactive rfl rfl rfl
  | adopt candidate rest adapter =>
    rw [Change.adopt_apply]
    exact reserve hfits.2.1.inactive rfl rfl rfl
  | release work s =>
    unfold Change.apply AmmRuntimeActor.release cancelPoolReservation
    dsimp only
    split_ifs
    · exact unreserve s.reservation.key rfl rfl rfl
    · exact of_eq rfl rfl rfl
  | unreserve pool => exact unreserve pool.key rfl rfl rfl
  | activate pool => exact enter pool (.inr (.inr rfl)) (fun _ g hg => ⟨g, hg, le_rfl⟩) (remove_free hfits.2) rfl
  | install work copy => exact enter copy.reservation (.inl hfits.1) (fun _ g hg => ⟨g, hg, le_rfl⟩) rfl rfl
  | prepare registration =>
    exact enter (a.nextPool registration.key) (.inr (.inl (new_nextPool a registration.key)))
      (nextPool_later a registration.key) (remove_free hfits.2.2) rfl
  | regenerate generations => exact shrinks hfits.2 (fun _ _ => id) fun _ _ => id
  | force active generations =>
    refine ⟨hfits.1.2, fun _ _ h => .inl h, fun key pool hkey => ?_⟩
    rcases hfits.2 key pool hkey with hold | hreserved | hnew
    · exact .inl hold
    · exact .inr ⟨.inl hreserved, fun htrusted => by cases htrusted⟩
    · exact .inr ⟨.inr (.inl hnew), fun htrusted => by cases htrusted⟩
  | dropPool pool =>
    exact shrinks (fun _ g hg => ⟨g, hg, le_rfl⟩) (fun _ _ => id) fun _ _ h => (Map.get_remove_eq_some.mp h).2
  | support key pool evidence | retain candidate | drop candidate rest answer | dropOwner owner | withdraw owner
  | revise pool evidence | reconcilePending dropped | reconcileRegistered dropped | publish point => exact of_eq rfl rfl rfl

/-- A pool that is spent stays so, but for the entry that its reservation was given up for. -/
theorem spent (h : PoolEffect a b change) (hspares : ¬change.Activates pool) (hspent : Spent a pool) : Spent b pool := by
  obtain ⟨g, hg, hle⟩ := hspent.issued
  obtain ⟨g', hg', hle'⟩ := h.generations _ g hg
  have hold : ¬a.New pool.key pool := fun hnew => absurd hle (not_le.mpr (hnew g hg))
  refine ⟨⟨g', hg', hle.trans hle'⟩, fun hreserved => ?_, fun hactive => ?_⟩
  · rcases h.reserved _ _ hreserved with hkept | ⟨hnew, -⟩
    · exact hspent.unreserved hkept
    · exact hold hnew
  · rcases h.entered _ _ hactive with hkept | ⟨hreserved | hnew | hactivates, -⟩
    · exact hspent.inactive hkept
    · exact hspent.unreserved hreserved
    · exact hold hnew
    · exact hspares hactivates

theorem vacant (h : PoolEffect a b change) (htrust : b.trusted = true → a.trusted = true)
    (hvacant : Vacant a) : Vacant b := by
  intro htrusted key pool hreserved
  rw [Option.eq_none_iff_forall_ne_some]
  intro entered hentered
  rcases h.entered key entered hentered with hkept | ⟨-, hfree⟩
  · rcases h.reserved key pool hreserved with hearlier | ⟨-, hinactive⟩
    · cases (hvacant (htrust htrusted) key pool hearlier).symm.trans hkept
    · cases hinactive.symm.trans hkept
  · cases (hfree htrusted).symm.trans hreserved

end PoolEffect

namespace Changes
variable {allow : AmmRuntimeActor → Change → Prop}

theorem vacant (h : Changes allow a b) (hvacant : Vacant a) : Vacant b :=
  h.keeps (P := Vacant) (fun _ change hc hfits _ => (PoolEffect.of_fits change hfits).vacant
    (Change.trusted hfits) hc) hvacant

theorem spent (h : Changes allow a b) (hallow : ∀ c change, allow c change → ¬change.Activates pool)
    (hspent : Spent a pool) : Spent b pool := by
  refine h.keeps (P := (Spent · pool)) (fun c change hc hfits hkind => ?_) hspent
  refine (PoolEffect.of_fits change hfits).spent (fun hactivates => ?_) hc
  rcases hkind with hharmless | hallowed
  · rw [hactivates.eq] at hharmless
    exact hharmless
  · exact hallow c change hallowed hactivates

end Changes

/-! ### Runs -/

/-- The work that a command names. -/
def Command.work : Command → Option RuntimeWorkId
  | .commitScheduledDiscovery work .. | .commitScheduledPool work .. | .failScheduledWork work ..
  | .cancelScheduledWork work _ =>
    some work
  | .attachColdStartWorker _ | .addFactoryWatcher .. | .removeFactoryWatcher .. | .queueColdStart .. | .queueDiscovery ..
  | .installPreparedPools .. | .removePool .. | .addAdapter .. | .removeAdapter ..
  | .removeAdapterCascade .. | .distrust => none

/-- How scheduled work, the index of pending pools, reservations and entries belong together. -/
structure Tracked (a : AmmRuntimeActor) : Prop where
  disjoint : ∀ work, a.scheduledWork.get work = none ∨ a.scheduledDiscovery.get work = none
  indexed : ∀ key work, a.pendingPoolWork.get key = some work ↔ ∃ s, a.scheduledWork.get work = some s ∧
    s.registration.key = key
  reserved : ∀ key pool work s, a.reservations.get key = some pool → a.scheduledWork.get work = some s →
    s.registration.key = key → s.reservation = pool
  vacant : Vacant a

namespace Machine

/-- Work that has ended: a command or an installation that still names it changes nothing. -/
structure Ended (m : Machine) (work : RuntimeWorkId) : Prop where
  unscheduled : ¬m.actor.Scheduled work
  refused : ∀ command : Command, command.work = some work → m.step (.command command) = m
  fenced : ∀ copy baseline waiting install removal numbered answers, m.suspended = .install work copy baseline :: waiting →
    m.step (.resume install removal numbered answers) = ⟨m.actor, waiting⟩

/-- What a later state keeps of an earlier one: numbers of work are given out once, work that has ended stays so, and a pool
    generation that has been given up stays so. -/
structure EndsOnce (m m' : Machine) : Prop where
  numbers : Numbers m.actor m'.actor
  ended : ∀ work, work.work < m.actor.nextWorkId → ¬m.actor.Scheduled work → Ended m' work
  spent : ∀ pool, Spent m.actor pool → Spent m'.actor pool

variable {m : Machine} {pool : PoolInstanceId} {work : RuntimeWorkId}

theorem tracked_of_inOrder (h : InOrder m) (hvacant : Vacant m.actor) : Tracked m.actor := by
  refine ⟨fun work => ?_, fun key work => ⟨h.filed.mapped key work, ?_⟩, fun key pool work s hkey hs hskey => ?_, hvacant⟩
  · cases hs : m.actor.scheduledWork.get work with
    | none => exact .inl rfl
    | some s => exact .inr (h.filed.undiscovered hs)
  · rintro ⟨s, hs, rfl⟩
    exact (h.filed.keyed work s hs).2
  · exact h.filed.booked key pool work s hkey (hskey ▸ (h.filed.keyed work s hs).2) hs

theorem not_scheduled (h : ¬m.actor.Scheduled work) :
    m.actor.scheduledWork.get work = none ∧ m.actor.scheduledDiscovery.get work = none := by
  rw [AmmRuntimeActor.Scheduled, not_or, Bool.not_eq_true, Bool.not_eq_true, Option.isSome_eq_false_iff,
    Option.isSome_eq_false_iff,
    Option.isNone_iff_eq_none, Option.isNone_iff_eq_none] at h
  exact h

/-- An installation without its reservation changes nothing. -/
theorem resume_unreserved {copy : AmmScheduledPoolWork} {baseline : AmmStatePoint} {waiting : List Suspended}
    (hframe : m.suspended = .install work copy baseline :: waiting)
    (hunreserved : m.actor.reservations.get copy.reservation.key ≠ some copy.reservation) (install : InstallAnswer)
    (removal : RemovalAnswer) (numbered : Nat) (answers : Answers) :
    m.resume install removal numbered answers = ⟨m.actor, waiting⟩ := by
  have hrefused : m.actor.finishInstall work copy baseline install = m.actor := by
    unfold finishInstall
    dsimp only
    rw [if_pos]
    simp only [hunreserved, ne_eq, not_false_eq_true, decide_true, Bool.or_true, Bool.true_or]
  obtain ⟨a, suspended⟩ := m
  cases hframe
  simp only [resume, hrefused]

/-- What names work that is not scheduled changes nothing. -/
theorem ended_of_unscheduled (h : InOrder m) (hunscheduled : ¬m.actor.Scheduled work) : Ended m work := by
  obtain ⟨hpool, hdiscovery⟩ := not_scheduled hunscheduled
  refine ⟨hunscheduled, fun command hcommand => ?_, fun copy baseline waiting install removal numbered answers hframe => ?_⟩
  · obtain ⟨a, suspended⟩ := m
    cases suspended with
    | cons frame waiting => rfl
    | nil =>
      cases command with
      | commitScheduledDiscovery other owner report numbered answers =>
        obtain rfl := Option.some.inj hcommand
        simp only [step, handle, commitScheduledDiscovery, hdiscovery, List.isEmpty_nil, if_true]
      | commitScheduledPool other pool registration baseline =>
        obtain rfl := Option.some.inj hcommand
        simp only [step, handle, installable, hpool, Option.filter_none, List.isEmpty_nil, if_true]
      | failScheduledWork other stale numbered answer answers =>
        obtain rfl := Option.some.inj hcommand
        simp only [step, handle, failScheduledWork, hdiscovery, hpool, List.isEmpty_nil, if_true]
      | cancelScheduledWork other numbered =>
        obtain rfl := Option.some.inj hcommand
        simp only [step, handle, cancelScheduledWork, hdiscovery, hpool, List.isEmpty_nil, if_true]
      | attachColdStartWorker | addFactoryWatcher | removeFactoryWatcher | queueColdStart | queueDiscovery
      | installPreparedPools | removePool | addAdapter | removeAdapter | removeAdapterCascade | distrust => cases hcommand
  · have hheld := h.held work copy baseline (hframe ▸ List.mem_cons_self)
    have hunreserved : m.actor.reservations.get copy.reservation.key ≠ some copy.reservation := by
      intro hreserved
      obtain ⟨s, hs, -⟩ := hheld.scheduled hreserved
      cases hpool.symm.trans hs
    exact resume_unreserved hframe hunreserved install removal numbered answers

/-- Changes that enter no pool whose reservation has been used up. -/
abbrev EntersNone (pool : PoolInstanceId) : AmmRuntimeActor → AmmRuntimeActor → Prop :=
  Changes fun _ change => ¬change.Activates pool

theorem proceed_entersNone (a : AmmRuntimeActor) (reorg : Reorg) (numbered : Nat) (answers : Answers)
    (waiting : List Suspended) : EntersNone pool a (proceed a reorg numbered answers waiting).actor :=
  proceed_changes reorg numbered answers waiting (fun _ _ _ _ _ _ => id) (fun _ _ => id) (fun _ _ _ _ => id) (fun _ => id)
    (fun _ _ _ => id) fun _ _ _ _ _ => id

theorem handle_entersNone {a : AmmRuntimeActor} (h : Filed a) (command : Command) :
    EntersNone pool a (handle a command).actor := by
  refine handle_changes h command (fun b change hcommanded hactivates => ?_) (fun _ _ _ _ _ _ _ _ => id)
    (fun _ _ _ _ _ _ _ _ _ _ _ => id)
    fun _ _ _ _ _ _ _ _ _ _ _ => id
  rw [hactivates.eq] at hcommanded
  exact hcommanded

/-- A step enters a spent pool in no way: its installation would need the reservation. -/
theorem step_entersNone (h : InOrder m) (event : Event) (hspent : Spent m.actor pool) :
    EntersNone pool m.actor (m.step event).actor := by
  cases event with
  | command command =>
    obtain ⟨a, suspended⟩ := m
    cases suspended with
    | nil => exact handle_entersNone h.filed command
    | cons frame waiting => exact .refl a
  | ingest batch answer numbered answers =>
    exact ingest_changes fun _ _ => (published_changes batch id).trans (proceed_entersNone _ _ _ _ _)
  | resume install removal numbered answers =>
    rw [step]
    by_cases hwaits : ∃ work copy baseline waiting, m.suspended = .install work copy baseline :: waiting ∧
      copy.reservation = pool
    · obtain ⟨work, copy, baseline, waiting, hframe, rfl⟩ := hwaits
      rw [resume_unreserved hframe hspent.unreserved]
      exact .refl _
    · exact m.resume_changes install removal numbered answers
        (fun work copy baseline waiting hframe => (h.held work copy baseline (hframe ▸ List.mem_cons_self)).scheduled)
        (fun work copy baseline waiting b hframe _ _ _ hentered => hwaits ⟨work, copy, baseline, waiting, hframe, hentered⟩)
        (fun _ _ _ _ _ _ _ => id) (fun _ _ _ _ _ _ _ => id) (fun _ => id) fun _ _ _ b _ _ => proceed_entersNone b _ _ _ _

theorem step_spent (h : InOrder m) (event : Event) (hspent : Spent m.actor pool) : Spent (m.step event).actor pool :=
  (step_entersNone h event hspent).spent (fun _ _ => id) hspent

/-- A request for pools names only pools that a family serves. -/
def Served (m : Machine) : Event → Prop
  | .command (.queueColdStart pools _ _) =>
    m.suspended = [] → ∀ pool ∈ pools, (m.actor.adapterFor pool.protocol).isSome = true
  | _ => True

/-- Every request of a run does. -/
def RunServed : Machine → List Event → Prop
  | _, [] => True
  | m, event :: events => Served m event ∧ RunServed (m.step event) events

theorem proceed_backing (a : AmmRuntimeActor) (reorg : Reorg) (numbered : Nat) (answers : Answers)
    (waiting : List Suspended) : BackingChanges a (proceed a reorg numbered answers waiting).actor :=
  proceed_changes reorg numbered answers waiting (fun _ _ _ _ _ _ _ => nofun) (fun _ _ _ => nofun) (fun _ _ _ _ _ => nofun)
    (fun _ _ => nofun) (fun _ _ _ _ => nofun) fun _ _ _ _ _ _ => nofun

/-- No key is left reserved without work. -/
theorem step_backing (h : InOrder m) {event : Event} (hserved : Served m event) :
    BackingChanges m.actor (m.step event).actor := by
  cases event with
  | command command =>
    obtain ⟨a, suspended⟩ := m
    cases suspended with
    | cons frame waiting => exact .refl a
    | nil =>
      refine handle_changes h.filed command (fun b change hcommanded key hstrands => ?_) ?_
        (fun _ _ _ _ _ _ _ _ _ _ _ _ => nofun)
        fun _ _ _ _ _ _ _ _ _ _ _ _ => nofun
      · rw [hstrands] at hcommanded
        exact hcommanded
      · rintro pools cls answer rfl b pool hpool ⟨unserved, hmem, hnone⟩
        exact absurd (hserved rfl unserved hmem) (by rw [hnone]; decide)
  | ingest batch answer numbered answers =>
    exact ingest_changes fun _ _ => (published_changes batch fun _ => nofun).trans (proceed_backing _ _ _ _ _)
  | resume install removal numbered answers =>
    exact m.resume_changes install removal numbered answers
      (fun work copy baseline waiting hframe => (h.held work copy baseline (hframe ▸ List.mem_cons_self)).scheduled)
      (fun _ _ _ _ _ _ _ _ _ _ => nofun) (fun _ _ _ _ _ _ _ _ => nofun) (fun _ _ _ _ _ _ _ _ => nofun) (fun _ _ => nofun)
      fun _ _ _ b _ _ => proceed_backing b _ _ _ _

theorem run_backed (h : InOrder m) {events : List Event} (hserved : RunServed m events) {key : PoolKey}
    (hbacked : m.actor.Backed key) : (m.run events).actor.Backed key := by
  induction events generalizing m with
  | nil => exact hbacked
  | cons event rest ih =>
    exact ih (step_inOrder h event) hserved.2 (BackingChanges.backed (step_backing h hserved.1) h.filed hbacked)

/-- What every step keeps, every run keeps. -/
theorem run_keeps {P : Machine → Prop} (hstep : ∀ m, InOrder m → ∀ event, P m → P (m.step event)) (h : InOrder m) (hP : P m)
    (events : List Event) : P (m.run events) := by
  induction events generalizing m with
  | nil => exact hP
  | cons event rest ih => exact ih (step_inOrder h event) (hstep m h event hP)

theorem run_numbers (h : InOrder m) (events : List Event) : Numbers m.actor (m.run events).actor :=
  run_keeps (P := fun m' => Numbers m.actor m'.actor)
    (fun _ h event hP => hP.trans (step_changes h event).numbers) h (.refl _) events

theorem start_vacant (point : AmmStatePoint) (adapters : List AdapterInstanceId) (pools : List PoolInstanceId) :
    Vacant (start point adapters pools).actor := by
  intro _ key pool hkey
  cases hkey

/-- Every later state keeps what has ended. -/
theorem run_endsOnce (h : InOrder m) (events : List Event) : EndsOnce m (m.run events) := by
  have hnumbers := run_numbers h events
  refine ⟨hnumbers, fun work hissued hunscheduled => ?_, fun pool hspent => ?_⟩
  · refine ended_of_unscheduled (run_inOrder h events) fun hscheduled => ?_
    rcases hnumbers.new work hscheduled with hold | hnew
    · exact hunscheduled hold
    · exact absurd hissued (not_lt.mpr hnew)
  · exact run_keeps (fun _ h event => step_spent h event) h hspent events

/-- Work that a step takes out of the schedule while its pool is reserved has its pool entered by that step, or never. -/
theorem step_settles (h : InOrder m) (event : Event) {s : AmmScheduledPoolWork}
    (hs : m.actor.scheduledWork.get work = some s) (hsettled : (m.step event).actor.scheduledWork.get work = none)
    (hout : (m.step event).actor.isActivePool s.reservation = false) (events : List Event) :
    ((m.step event).run events).actor.isActivePool s.reservation = false := by
  have horder := step_inOrder h event
  have hheld : Held (m.step event).actor work s := by
    refine ((step_changes h event).files h.filed).held work s
      ⟨(h.filed.keyed work s hs).1, h.filed.issued work s hs, fun _ => ⟨s, hs, rfl⟩⟩
  have hspent : Spent (m.step event).actor s.reservation := by
    refine ⟨hheld.generation, fun hreserved => ?_, of_decide_eq_false hout⟩
    obtain ⟨t, ht, -⟩ := hheld.scheduled hreserved
    cases hsettled.symm.trans ht
  exact decide_eq_false (run_keeps (fun _ h event => step_spent h event) horder hspent events).inactive

/-- Work ends once. In every state that the actor reaches, scheduled work, the index of pending pools and reservations
    belong together, and a reservation stands for scheduled work where no request has named a pool without an adapter; work
    that has ended never goes on, whatever names it; and scheduled pool work that a step takes out of the schedule, as done,
    failed or cancelled, has its pool entered then or never. -/
theorem work_ends_once (point : AmmStatePoint) (adapters : List AdapterInstanceId) (pools : List PoolInstanceId)
    (before after : List Event) :
    let m := (start point adapters pools).run before
    Tracked m.actor ∧
      (RunServed (start point adapters pools) before → ∀ key pool, m.actor.reservations.get key = some pool →
        ∃ work s, m.actor.scheduledWork.get work = some s ∧ s.registration.key = key ∧ s.reservation = pool) ∧
      EndsOnce m (m.run after) ∧
      ∀ event work s, m.actor.scheduledWork.get work = some s → (m.step event).actor.scheduledWork.get work = none →
        (m.step event).actor.isActivePool s.reservation = true ∨
          ((m.step event).run after).actor.isActivePool s.reservation = false := by
  intro m
  have horder : InOrder m := run_inOrder (start_inOrder point adapters pools) before
  have hvacant : Vacant m.actor :=
    run_keeps (fun _ h event => (step_changes h event).vacant) (start_inOrder point adapters pools)
      (start_vacant point adapters pools)
      before
  refine ⟨tracked_of_inOrder horder hvacant, fun hserved key pool hkey => ?_, run_endsOnce horder after,
    fun event work s hs hsettled => ?_⟩
  · have hbacked : m.actor.Backed key := run_backed (start_inOrder point adapters pools) hserved
      fun hreserved => nomatch hreserved
    obtain ⟨work, hindexed⟩ := Option.isSome_iff_exists.mp (hbacked (Option.isSome_of_eq_some hkey))
    obtain ⟨s, hs, hskey⟩ := horder.filed.mapped key work hindexed
    exact ⟨work, s, hs, hskey, horder.filed.booked key pool work s hkey hindexed hs⟩
  by_cases hentered : (m.step event).actor.isActivePool s.reservation = true
  · exact .inl hentered
  · exact .inr (step_settles horder event hs hsettled (Bool.eq_false_iff.mpr hentered) after)

end Machine

end AmmState.Provenance
