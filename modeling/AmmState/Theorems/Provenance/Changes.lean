import AmmState.Provenance.Machine
import Mathlib.Data.List.TakeWhile
import Mathlib.Logic.Relation

/-! What the handlers do to candidates, scheduled work and evidence, as chains of elementary changes. An invariant of the
    actor is shown for each change once, and holds after every handler that makes only changes that keep it. -/

namespace AmmState.Provenance

/-! ### Changes -/

/-- Every pool that is checked again after a reorg has a source that checks it. -/
def Asked (a : AmmRuntimeActor) : Prop :=
  ∀ pool requests, a.registrationRevalidation.get pool = some requests → requests.entries ≠ []

/-- The work is of a discovery, under a number that the first actor has still to give out. -/
def AmmRuntimeActor.IssuesDiscovery (a b : AmmRuntimeActor) (work : RuntimeWorkId) : Prop :=
  (∃ owner, work.owner = .discovery owner) ∧ a.nextWorkId ≤ work.work ∧ work.work < b.nextWorkId

/-- The actor differs in nothing that candidates, pool work and registration evidence are kept in. -/
structure Aside (a b : AmmRuntimeActor) : Prop where
  work : b.scheduledWork = a.scheduledWork
  index : b.pendingPoolWork = a.pendingPoolWork
  reservations : b.reservations = a.reservations
  generations : b.generations = a.generations
  pending : b.pendingFactoryCandidates = a.pendingFactoryCandidates
  active : b.activePools = a.activePools
  evidence : b.registrationEvidence = a.registrationEvidence
  next : a.nextWorkId ≤ b.nextWorkId
  worker : a.coldStartWorker = true → b.coldStartWorker = true
  discovery : ∀ work scheduled, b.scheduledDiscovery.get work = some scheduled →
    (a.scheduledDiscovery.get work).isSome = true ∨ a.IssuesDiscovery b work
  live : ∀ owner, a.isActiveDiscovery owner = true → b.isActiveDiscovery owner = true
  trust : b.trusted = true → a.trusted = true
  point : b.point = a.point
  asked : Asked a → Asked b

/-- Every discovery work is there still. -/
theorem Aside.discovered {a b : AmmRuntimeActor} (h : b.scheduledDiscovery = a.scheduledDiscovery) (work : RuntimeWorkId)
    (scheduled : AmmScheduledDiscoveryWork) (hwork : b.scheduledDiscovery.get work = some scheduled) :
    (a.scheduledDiscovery.get work).isSome = true ∨ a.IssuesDiscovery b work := by
  rw [h] at hwork
  exact .inl (Option.isSome_of_eq_some hwork)

inductive Change
  | aside (b : AmmRuntimeActor)
  /-- Evidence is added to the active pool of a key. -/
  | support (key : PoolKey) (pool : PoolInstanceId) (evidence : RegistrationEvidenceSet)
  /-- A candidate waits, or is merged into one that waits. -/
  | retain (candidate : AmmFactoryCandidate)
  /-- The first candidate joins the work of its pool. -/
  | join (candidate : AmmFactoryCandidate) (rest : List AmmFactoryCandidate) (work : RuntimeWorkId)
  /-- The first candidate is dropped. -/
  | drop (candidate : AmmFactoryCandidate) (rest : List AmmFactoryCandidate) (answer : QueueAnswer)
  /-- A generation is reserved and given up again. -/
  | burn (key : PoolKey)
  /-- A generation is reserved, and no work is scheduled for it. -/
  | strand (key : PoolKey)
  | queue (registration : PoolRegistration) (adapter : AdapterInstanceId) (cls : AmmWorkClass)
  /-- The first candidate is queued. -/
  | adopt (candidate : AmmFactoryCandidate) (rest : List AmmFactoryCandidate) (adapter : AdapterInstanceId)
  | release (work : RuntimeWorkId) (scheduled : AmmScheduledPoolWork)
  /-- A reservation is used up, and the pool is entered or not. -/
  | unreserve (pool : PoolInstanceId)
  | activate (pool : PoolInstanceId)
  /-- Work is done: its pool is entered with the evidence of a copy of the work. -/
  | install (work : RuntimeWorkId) (copy : AmmScheduledPoolWork)
  | prepare (registration : PoolRegistration)
  | regenerate (generations : Map PoolKey Nat)
  /-- Pools are left entered without their evidence, by an actor that loses trust. -/
  | force (active : Map PoolKey PoolInstanceId) (generations : Map PoolKey Nat)
  | dropPool (pool : PoolInstanceId)
  | dropOwner (owner : DiscoveryOwnerId)
  /-- The evidence of an owner is taken from pools and from the work that others support as well. -/
  | withdraw (owner : DiscoveryOwnerId)
  | revise (pool : PoolInstanceId) (evidence : RegistrationEvidenceSet)
  | reconcilePending (dropped : List B256)
  | reconcileRegistered (dropped : List B256)
  /-- The point of the actor moves on. -/
  | publish (point : AmmStatePoint)

/-- Scheduled work after a reorg, unless it is to be cancelled. -/
def AmmScheduledPoolWork.cross (dropped : List B256) (scheduled : AmmScheduledPoolWork) : AmmScheduledPoolWork :=
  match crossing dropped scheduled.evidence with
  | some evidence => scheduled.reconcile evidence
  | none => scheduled

namespace AmmRuntimeActor

/-- The generation of the pool is above all that have been given out. -/
def New (a : AmmRuntimeActor) (key : PoolKey) (pool : PoolInstanceId) : Prop :=
  ∀ g, a.generations.get key = some g → g < pool.generation

/-- The next generation of a pool. -/
def nextPool (a : AmmRuntimeActor) (key : PoolKey) : PoolInstanceId := (a.reserve key).1

/-- Reserve a pool and schedule its work. -/
def enqueue (a : AmmRuntimeActor) (registration : PoolRegistration) (adapter : AdapterInstanceId) (cls : AmmWorkClass) :
    AmmRuntimeActor :=
  (a.reserve registration.key).2.schedule registration adapter (a.nextPool registration.key) cls

/-- The checks of a queueing call for one pool. -/
structure Queueable (a : AmmRuntimeActor) (key : PoolKey) : Prop where
  trusted : a.trusted = true
  worker : a.coldStartWorker = true
  unscheduled : a.pendingPoolWork.get key = none
  inactive : a.activePools.get key = none
  unreserved : a.reservations.get key = none

/-- Scheduled work and pending candidates after a reorg. -/
def reconcilePending (a : AmmRuntimeActor) (dropped : List B256) : AmmRuntimeActor :=
  { a with
    pendingFactoryCandidates := a.pendingFactoryCandidates.filterMap (reconcileCandidate dropped)
    scheduledWork := a.scheduledWork.map fun _ scheduled => scheduled.cross dropped }

/-- Take the evidence of an owner from pools and scheduled work. -/
def withdrawOwner (a : AmmRuntimeActor) (owner : DiscoveryOwnerId) : AmmRuntimeActor :=
  { a with
    scheduledWork := a.scheduledWork.map fun _ scheduled => scheduled.withoutOwner owner
    pendingRevalidations := a.pendingRevalidations.filter fun key _ => key.2 ≠ owner
    registrationRevalidation := a.registrationRevalidation.filterMap fun _ requests =>
      let requests := requests.remove owner
      if requests.entries.isEmpty then none else some requests
    registrationEvidence := a.registrationEvidence.map fun _ set => (set.withoutOwner owner).getD set }

/-- Enter the pool of a copy of scheduled work. -/
def install (a : AmmRuntimeActor) (work : RuntimeWorkId) (copy : AmmScheduledPoolWork) : AmmRuntimeActor :=
  let pool := copy.reservation
  let a := { a with reservations := a.reservations.remove pool.key }.activate pool
  { a with
    registrationEvidence := a.registrationEvidence.set pool copy.evidence
    registrationRevalidation :=
      if copy.revalidations.entries.isEmpty then a.registrationRevalidation
      else a.registrationRevalidation.set pool copy.revalidations
    scheduledWork := a.scheduledWork.remove work
    pendingPoolWork := a.pendingPoolWork.remove pool.key }

end AmmRuntimeActor

namespace Change

def apply (a : AmmRuntimeActor) : Change → AmmRuntimeActor
  | .aside b => b
  | .support _ pool evidence => a.supportPool pool evidence
  | .retain candidate => { a with
      pendingFactoryCandidates :=
        if a.pendingFactoryCandidates.any candidate.sameAs then
          AmmRuntimeActor.mergeCandidate candidate a.pendingFactoryCandidates
        else a.pendingFactoryCandidates ++ [candidate] }
  | .join candidate rest work => { a with pendingFactoryCandidates := rest }.modifyWork work (·.support candidate)
  | .drop _ rest _ => { a with pendingFactoryCandidates := rest }
  | .burn key => (a.reserve key).2.cancelPoolReservation (a.nextPool key)
  | .strand key => (a.reserve key).2
  | .queue registration adapter cls => a.enqueue registration adapter cls
  | .adopt candidate rest adapter =>
    ({ a with pendingFactoryCandidates := rest }.enqueue candidate.registration adapter .focused).modifyWork
      ⟨.pool (a.nextPool candidate.registration.key), a.nextWorkId⟩ (·.adopt candidate)
  | .release work scheduled => a.release work scheduled
  | .unreserve pool => { a with reservations := a.reservations.remove pool.key }
  | .activate pool => a.activate pool
  | .install work copy => a.install work copy
  | .prepare registration => a.activatePrepared registration
  | .regenerate generations => { a with generations }
  | .force active generations => { a with activePools := active, generations, trusted := false }
  | .dropPool pool => a.dropPool pool
  | .dropOwner owner => a.removeDiscovery owner
  | .withdraw owner => a.withdrawOwner owner
  | .revise pool evidence => { a with registrationEvidence := a.registrationEvidence.set pool evidence }
  | .reconcilePending dropped => a.reconcilePending dropped
  | .reconcileRegistered dropped => a.reconcileRegistered dropped
  | .publish point => { a with point }

/-- Generations are only added, and none to a key with a reservation. -/
def Regenerates (a : AmmRuntimeActor) (generations : Map PoolKey Nat) : Prop :=
  (∀ key pool, a.reservations.get key = some pool → generations.get key = a.generations.get key) ∧
    ∀ key g, a.generations.get key = some g → ∃ g', generations.get key = some g' ∧ g ≤ g'

/-- What holds where a change is made. -/
def Fits (a : AmmRuntimeActor) : Change → Prop
  | .aside b => Aside a b
  | .support key pool _ => a.activePools.get key = some pool
  | .retain candidate => a.activePools.get candidate.registration.key = none
  | .join candidate rest work => a.pendingFactoryCandidates = candidate :: rest ∧
      a.pendingPoolWork.get candidate.registration.key = some work ∧ (a.scheduledWork.get work).isSome = true
  | .drop candidate rest answer => a.pendingFactoryCandidates = candidate :: rest ∧
      a.pendingWork candidate.registration.key = none ∧ a.coldStartWorker = true ∧
      (a.isActiveDiscovery candidate.owner = false ∨ a.activePools.contains candidate.registration.key = true ∨
        ({ a with pendingFactoryCandidates := rest }.queueOne candidate.registration .focused answer).1 = .error .other)
  | .burn key | .strand key => a.Queueable key
  | .queue registration adapter _ => a.Queueable registration.key ∧ a.adapterFor registration.protocol = some adapter
  | .adopt candidate rest adapter => a.pendingFactoryCandidates = candidate :: rest ∧
      a.Queueable candidate.registration.key ∧ a.adapterFor candidate.registration.protocol = some adapter
  | .release work scheduled => a.scheduledWork.get work = some scheduled
  | .unreserve pool => a.reservations.get pool.key = some pool
  | .activate pool => a.activePools.get pool.key = none ∧ a.reservations.get pool.key = none
  | .install work copy => a.reservations.get copy.reservation.key = some copy.reservation ∧
      a.activePools.get copy.reservation.key = none ∧
      ∃ scheduled, a.scheduledWork.get work = some scheduled ∧ scheduled.reservation = copy.reservation
  | .prepare registration => a.pendingPoolWork.get registration.key = none ∧ a.activePools.get registration.key = none ∧
      a.reservations.get registration.key = none
  | .regenerate generations => Regenerates a generations
  | .force active generations => Regenerates a generations ∧ ∀ key pool, active.get key = some pool →
      a.activePools.get key = some pool ∨ a.reservations.get key = some pool ∨ a.New key pool
  | .withdraw owner => ∀ work scheduled, a.scheduledWork.get work = some scheduled → scheduled.supportingDiscovery ≠ {owner}
  | .dropPool _ | .dropOwner _ | .revise _ _ | .reconcilePending _ | .reconcileRegistered _ | .publish _ => True

/-- A change that takes nothing away while the actor is trusted, and brings no candidate and no pool in. -/
def Harmless : Change → Prop
  | .aside _ | .support .. | .join .. | .burn _ | .queue .. | .adopt .. | .unreserve _ | .regenerate _ | .force .. => True
  | .retain _ | .drop .. | .release .. | .activate _ | .install .. | .prepare _ | .dropPool _ | .dropOwner _ | .withdraw _
  | .revise .. | .reconcilePending _ | .reconcileRegistered _ | .publish _ | .strand _ => False

/-- A change that a command can make without waiting, beside bringing candidates in. -/
def Commanded : Change → Prop
  | .retain _ | .strand _ | .activate _ | .reconcilePending _ | .reconcileRegistered _ | .publish _ => False
  | _ => True

end Change

/-- The work that a queueing call schedules. -/
def queuedWork (pool : PoolInstanceId) (registration : PoolRegistration) (adapter : AdapterInstanceId)
    (cls : AmmWorkClass) : AmmScheduledPoolWork where
  reservation := pool
  registration := registration
  adapter := adapter
  cls := cls
  discoveryOwner := none
  supportingDiscovery := ∅
  evidence := .one (.stable "runtime.queue")
  revalidations := .empty

theorem AmmRuntimeActor.enqueue_get (a : AmmRuntimeActor) (registration : PoolRegistration)
    (adapter : AdapterInstanceId) (cls : AmmWorkClass) (work : RuntimeWorkId) :
    (a.enqueue registration adapter cls).scheduledWork.get work =
      if work = ⟨.pool (a.nextPool registration.key), a.nextWorkId⟩
      then some (queuedWork (a.nextPool registration.key) registration adapter cls) else a.scheduledWork.get work :=
  Table.get_set

/-- A queued candidate is scheduled at once with its own evidence. -/
theorem Change.adopt_apply (a : AmmRuntimeActor) (candidate : AmmFactoryCandidate) (rest : List AmmFactoryCandidate)
    (adapter : AdapterInstanceId) : (Change.adopt candidate rest adapter).apply a =
      { { a with pendingFactoryCandidates := rest }.enqueue candidate.registration adapter .focused with
        scheduledWork :=
          ({ a with pendingFactoryCandidates := rest }.enqueue candidate.registration adapter .focused).scheduledWork.set
            ⟨.pool (a.nextPool candidate.registration.key), a.nextWorkId⟩
            ((queuedWork (a.nextPool candidate.registration.key) candidate.registration adapter .focused).adopt
              candidate) } := by
  have hget := (({ a with pendingFactoryCandidates := rest } : AmmRuntimeActor).enqueue_get
    candidate.registration adapter .focused ⟨.pool (a.nextPool candidate.registration.key), a.nextWorkId⟩).trans
    (if_pos rfl)
  unfold Change.apply AmmRuntimeActor.modifyWork
  dsimp only
  rw [hget]
  rfl

theorem Change.adopt_get (a : AmmRuntimeActor) (candidate : AmmFactoryCandidate) (rest : List AmmFactoryCandidate)
    (adapter : AdapterInstanceId) (work : RuntimeWorkId) :
    ((Change.adopt candidate rest adapter).apply a).scheduledWork.get work =
      if work = ⟨.pool (a.nextPool candidate.registration.key), a.nextWorkId⟩
      then some ((queuedWork (a.nextPool candidate.registration.key) candidate.registration adapter
        .focused).adopt candidate)
      else a.scheduledWork.get work := by
  rw [adopt_apply, Table.get_set]
  split_ifs with hnew
  · rfl
  · exact (({ a with pendingFactoryCandidates := rest } : AmmRuntimeActor).enqueue_get _ _ _ work).trans (if_neg hnew)

/-- A chain of changes that are harmless or allowed where they are made. -/
def Changes (allow : AmmRuntimeActor → Change → Prop) : AmmRuntimeActor → AmmRuntimeActor → Prop :=
  Relation.ReflTransGen fun a b => ∃ change : Change, change.Fits a ∧
    (change.Harmless ∨ allow a change) ∧ b = change.apply a

namespace Changes
variable {allow : AmmRuntimeActor → Change → Prop} {a b c : AmmRuntimeActor}

theorem refl (a : AmmRuntimeActor) : Changes allow a a := Relation.ReflTransGen.refl

theorem trans (h : Changes allow a b) (h' : Changes allow b c) : Changes allow a c := Relation.ReflTransGen.trans h h'

theorem allowed (change : Change) (hfits : change.Fits a) (hallow : allow a change) : Changes allow a (change.apply a) :=
  .single ⟨change, hfits, .inr hallow, rfl⟩

theorem harmless (change : Change) (hfits : change.Fits a) (hharmless : change.Harmless) :
    Changes allow a (change.apply a) :=
  .single ⟨change, hfits, .inl hharmless, rfl⟩

theorem aside (h : Aside a b) : Changes allow a b := harmless (.aside b) h trivial

theorem of_eq (h : a = b) : Changes allow a b := h ▸ refl a

theorem foldl {α : Type} {f : AmmRuntimeActor → α → AmmRuntimeActor} (hf : ∀ a x, Changes allow a (f a x)) (l : List α)
    (a : AmmRuntimeActor) : Changes allow a (l.foldl f a) := by
  induction l generalizing a with
  | nil => exact refl a
  | cons x rest ih => exact (hf a x).trans (ih (f a x))

/-- What every change keeps holds after a chain of them. -/
theorem keeps {P : AmmRuntimeActor → Prop}
    (hkeeps : ∀ a change, P a → change.Fits a → change.Harmless ∨ allow a change → P (change.apply a))
    (h : Changes allow a b) (ha : P a) : P b := by
  induction h with
  | refl => exact ha
  | tail _ hstep ih =>
    obtain ⟨change, hfits, hallow, rfl⟩ := hstep
    exact hkeeps _ change ih hfits hallow

end Changes

/-! ### Candidates and queueing -/

namespace AmmRuntimeActor
variable {allow : AmmRuntimeActor → Change → Prop} (a : AmmRuntimeActor)

theorem markUntrusted_changes : Changes allow a a.markUntrusted :=
  .aside ⟨rfl, rfl, rfl, rfl, rfl, rfl, rfl, le_rfl, id, Aside.discovered rfl, fun _ h => h, (fun h => nomatch h), rfl, id⟩

theorem removeDiscoveryWork_changes (work : RuntimeWorkId) : Changes allow a (a.removeDiscoveryWork work) := by
  refine .aside ⟨rfl, rfl, rfl, rfl, rfl, rfl, rfl, le_rfl, id, fun other scheduled h => ?_, fun _ h => h, id, rfl, id⟩
  rw [removeDiscoveryWork, Table.get_remove] at h
  split_ifs at h
  exact .inl (Option.isSome_of_eq_some h)

theorem setRevalidation_changes (pool : PoolInstanceId) (owner : DiscoveryOwnerId) (request : TokenEdgeDiscoveryRequest) :
    Changes allow a (a.setRevalidation pool owner request) := by
  refine .aside ⟨rfl, rfl, rfl, rfl, rfl, rfl, rfl, le_rfl, id, Aside.discovered rfl, fun _ h => h, id, rfl,
    fun hasked other requests hget => ?_⟩
  unfold setRevalidation at hget
  dsimp only at hget
  rw [Table.get_set] at hget
  split_ifs at hget
  · rw [← Option.some.inj hget]
    exact Table.entries_set_ne_nil
  · exact hasked other requests hget

theorem retainFactoryCandidate_changes {candidate : AmmFactoryCandidate} (hretain : allow a (.retain candidate)) :
    Changes allow a (a.retainFactoryCandidate candidate) := by
  unfold retainFactoryCandidate
  split
  · next pool hactive =>
    have hsupported : Changes allow a (a.supportPool pool candidate.evidence) :=
      .harmless (.support candidate.registration.key pool candidate.evidence) hactive trivial
    dsimp only
    split
    · exact hsupported.trans (setRevalidation_changes _ _ _ _)
    · exact hsupported
  · next hinactive =>
    have hretained := Changes.allowed (a := a) (.retain candidate) hinactive hretain
    unfold Change.apply at hretained
    dsimp only at hretained
    by_cases hmerged : a.pendingFactoryCandidates.any candidate.sameAs = true
    · rw [if_pos hmerged] at hretained ⊢
      exact hretained
    · rw [if_neg hmerged] at hretained ⊢
      split_ifs
      · exact hretained
      · exact a.markUntrusted_changes

theorem retainFactoryCandidate_adapters (candidate : AmmFactoryCandidate) :
    (a.retainFactoryCandidate candidate).adapters = a.adapters := by
  unfold retainFactoryCandidate
  split
  · dsimp only
    split <;> rfl
  · split_ifs <;> rfl

/-- Candidates are retained one by one. -/
theorem foldl_retain_changes (candidates : List AmmFactoryCandidate) (hretain : ∀ b, ∀ candidate ∈ candidates,
    allow b (.retain candidate)) :
    Changes allow a (candidates.foldl retainFactoryCandidate a) ∧
      (candidates.foldl retainFactoryCandidate a).adapters = a.adapters := by
  induction candidates generalizing a with
  | nil => exact ⟨.refl a, rfl⟩
  | cons candidate rest ih =>
    obtain ⟨hrest, hadapters⟩ := ih (a.retainFactoryCandidate candidate) fun b other hother =>
      hretain b other (List.mem_cons_of_mem _ hother)
    exact ⟨(a.retainFactoryCandidate_changes (hretain a candidate List.mem_cons_self)).trans hrest,
      hadapters.trans (a.retainFactoryCandidate_adapters candidate)⟩

/-- A reservation that is given up at once leaves its generation used. -/
theorem burn_eq (key : PoolKey) : (a.reserve key).2.cancelPoolReservation (a.nextPool key) =
    { a with
      generations := a.generations.insert key (a.nextPool key).generation
      reservations := (a.reservations.insert key (a.nextPool key)).remove key } := by
  unfold cancelPoolReservation
  rw [if_pos]
  · rfl
  · exact Map.get_insert_self _ _ _

/-- A queueing call leaves the actor as it is, gives a generation up, or schedules work. -/
theorem queueOne_spec (registration : PoolRegistration) (cls : AmmWorkClass) (answer : QueueAnswer) :
    (∃ error, a.queueOne registration cls answer = (.error error, a)) ∨
      (a.Queueable registration.key ∧ a.queueOne registration cls answer = (.error .coldStartWorker,
        (a.reserve registration.key).2.cancelPoolReservation (a.nextPool registration.key))) ∨
      ∃ adapter, a.Queueable registration.key ∧ a.adapterFor registration.protocol = some adapter ∧
        a.queueOne registration cls answer =
          (.ok ⟨.pool (a.nextPool registration.key), a.nextWorkId⟩, a.enqueue registration adapter cls) := by
  unfold queueOne
  split_ifs with huntrusted hworker hreserved
  · exact .inl ⟨_, rfl⟩
  · exact .inl ⟨_, rfl⟩
  · exact .inl ⟨_, rfl⟩
  · simp only [Bool.or_eq_true, not_or, Bool.not_eq_true, Map.contains_eq_false, Bool.not_eq_eq_eq_not, Bool.not_true,
      Bool.not_eq_false] at huntrusted hworker hreserved
    have hqueueable : a.Queueable registration.key := ⟨huntrusted, hworker, hreserved.1.1, hreserved.1.2, hreserved.2⟩
    split
    · exact .inl ⟨_, rfl⟩
    · exact .inl ⟨_, rfl⟩
    · exact .inr (.inl ⟨hqueueable, rfl⟩)
    · next adapter hadapter => exact .inr (.inr ⟨adapter, hqueueable, hadapter, rfl⟩)

theorem queueOne_changes (registration : PoolRegistration) (cls : AmmWorkClass) (answer : QueueAnswer) :
    Changes allow a (a.queueOne registration cls answer).2 := by
  rcases a.queueOne_spec registration cls answer with ⟨error, h⟩ | ⟨hqueueable, h⟩ | ⟨adapter, hqueueable, hadapter, h⟩
  · rw [h]
    exact .refl a
  · rw [h]
    exact .harmless (.burn registration.key) hqueueable trivial
  · rw [h]
    exact .harmless (.queue registration adapter cls) ⟨hqueueable, hadapter⟩ trivial

/-- Reserving a key leaves the other keys as they are. -/
theorem Queueable.reserve {a : AmmRuntimeActor} {key other : PoolKey} (h : a.Queueable key) (hother : key ≠ other) :
    (a.reserve other).2.Queueable key :=
  ⟨h.trusted, h.worker, h.unscheduled, h.inactive, (Map.get_insert_of_ne hother).trans h.unreserved⟩

/-- Pools that a request leaves reserved. -/
theorem foldl_reserve_changes {pools : List PoolRegistration} (hdistinct : (pools.map (·.key)).Nodup)
    (hqueueable : ∀ pool ∈ pools, a.Queueable pool.key) (hstrand : ∀ b, ∀ pool ∈ pools, allow b (.strand pool.key)) :
    Changes allow a (pools.foldl (fun a pool => (a.reserve pool.key).2) a) := by
  induction pools generalizing a with
  | nil => exact .refl a
  | cons pool rest ih =>
    rw [List.map_cons, List.nodup_cons] at hdistinct
    refine (Changes.allowed (.strand pool.key) (hqueueable pool List.mem_cons_self)
      (hstrand a pool List.mem_cons_self)).trans
      (ih _ hdistinct.2 (fun other hother => ?_) fun b other hother => hstrand b other (List.mem_cons_of_mem _ hother))
    refine (hqueueable other (List.mem_cons_of_mem _ hother)).reserve fun hsame => hdistinct.1 ?_
    exact hsame ▸ List.mem_map.mpr ⟨other, hother, rfl⟩

/-- A request leaves pools reserved only where one of its pools has no adapter. -/
theorem queueColdStart_changes (pools : List PoolRegistration) (cls : AmmWorkClass) (answer : QueueAnswer)
    (hstrand : ∀ b, ∀ pool ∈ pools, (∃ unserved ∈ pools, a.adapterFor unserved.protocol = none) →
      allow b (.strand pool.key)) :
    Changes allow a (a.queueColdStart pools cls answer) := by
  unfold queueColdStart
  dsimp only
  split_ifs with hrefused hreserved hmissing
  · exact .refl a
  · exact .foldl (fun a pool => a.queueOne_changes pool cls .refuses) _ a
  · simp only [Bool.or_eq_true, not_or, Bool.not_eq_true, Bool.not_eq_eq_eq_not, Bool.not_true, Bool.not_eq_false,
      decide_eq_false_iff_not, not_not, List.any_eq_false, Map.contains_eq_false] at hrefused hreserved
    obtain ⟨⟨⟨⟨htrusted, hworker⟩, -⟩, hdistinct⟩, hfree⟩ := hrefused
    have hserved := List.takeWhile_sublist (l := pools) fun pool => (a.adapterFor pool.protocol).isSome
    refine foldl_reserve_changes _ (hdistinct.sublist (hserved.map _)) (fun pool hpool => ?_) fun b pool hpool =>
      hstrand b pool (hserved.subset hpool) ?_
    · exact ⟨htrusted, hworker, (hfree pool (hserved.subset hpool)).1,
        (hfree pool (hserved.subset hpool)).2, hreserved pool hpool⟩
    · by_contra hall
      have hwhole : (pools.takeWhile fun pool => (a.adapterFor pool.protocol).isSome) = pools :=
        List.takeWhile_eq_self_iff.mpr fun pool hpool => Option.isSome_iff_ne_none.mpr fun hnone =>
          hall ⟨pool, hpool, hnone⟩
      rw [hwhole] at hmissing
      exact lt_irrefl _ hmissing
  · exact .foldl (fun a pool => a.queueOne_changes pool cls answer) pools a

/-- The actor serves the same pools and sources as before. -/
structure Serves (a b : AmmRuntimeActor) : Prop where
  trusted : b.trusted = a.trusted
  active : b.activePools = a.activePools
  discovery : b.activeDiscovery = a.activeDiscovery
  adapters : b.adapters = a.adapters
  evidence : b.registrationEvidence = a.registrationEvidence
  requests : b.registrationRevalidation = a.registrationRevalidation
  revalidations : b.pendingRevalidations = a.pendingRevalidations
  discoveries : b.scheduledDiscovery = a.scheduledDiscovery
  pending : ∀ candidate ∈ b.pendingFactoryCandidates, candidate ∈ a.pendingFactoryCandidates

theorem Serves.refl : Serves a a := ⟨rfl, rfl, rfl, rfl, rfl, rfl, rfl, rfl, fun _ h => h⟩

variable {a} in
theorem Serves.trans {b c : AmmRuntimeActor} (h : Serves a b) (h' : Serves b c) : Serves a c :=
  ⟨h'.trusted.trans h.trusted, h'.active.trans h.active, h'.discovery.trans h.discovery, h'.adapters.trans h.adapters,
    h'.evidence.trans h.evidence, h'.requests.trans h.requests, h'.revalidations.trans h.revalidations,
    h'.discoveries.trans h.discoveries, fun candidate hc => h.pending candidate (h'.pending candidate hc)⟩

theorem modifyWork_serves (work : RuntimeWorkId) (f : AmmScheduledPoolWork → AmmScheduledPoolWork) :
    Serves a (a.modifyWork work f) := by
  unfold modifyWork
  split <;> exact ⟨rfl, rfl, rfl, rfl, rfl, rfl, rfl, rfl, fun _ h => h⟩

variable {a} in
theorem pop_serves {candidate : AmmFactoryCandidate} {rest : List AmmFactoryCandidate}
    (h : a.pendingFactoryCandidates = candidate :: rest) : Serves a { a with pendingFactoryCandidates := rest } :=
  ⟨rfl, rfl, rfl, rfl, rfl, rfl, rfl, rfl, fun _ hc => h ▸ List.mem_cons_of_mem _ hc⟩

/-- What the loop does with its first candidate: it ends with the actor as it is or without a generation, or goes on. -/
inductive Drained (a : AmmRuntimeActor) (candidate : AmmFactoryCandidate) (rest : List AmmFactoryCandidate)
    (answer : QueueAnswer) : Bool × AmmRuntimeActor → Prop
  | waits : Drained a candidate rest answer (false, a)
  | burns : (Change.burn candidate.registration.key).Fits a →
      Drained a candidate rest answer (false, (Change.burn candidate.registration.key).apply a)
  | joins (work : RuntimeWorkId) : (Change.join candidate rest work).Fits a →
      Drained a candidate rest answer (true, (Change.join candidate rest work).apply a)
  | adopts (adapter : AdapterInstanceId) : (Change.adopt candidate rest adapter).Fits a →
      Drained a candidate rest answer (true, (Change.adopt candidate rest adapter).apply a)
  | drops : (Change.drop candidate rest answer).Fits a →
      Drained a candidate rest answer (true, (Change.drop candidate rest answer).apply a)

variable {a} in
/-- A candidate is put back after its generation is given up. -/
theorem restore_burnt {candidate : AmmFactoryCandidate} {rest : List AmmFactoryCandidate}
    (h : a.pendingFactoryCandidates = candidate :: rest) (key : PoolKey) :
    { ({ a with pendingFactoryCandidates := rest }.reserve key).2.cancelPoolReservation
        ({ a with pendingFactoryCandidates := rest }.nextPool key) with
      pendingFactoryCandidates := candidate ::
        (({ a with pendingFactoryCandidates := rest }.reserve key).2.cancelPoolReservation
        ({ a with pendingFactoryCandidates := rest }.nextPool key)).pendingFactoryCandidates } =
      (Change.burn key).apply a := by
  rw [burn_eq, Change.apply, burn_eq, ← h]
  rfl

variable {a} in
theorem drainCandidate_spec {candidate : AmmFactoryCandidate} {rest : List AmmFactoryCandidate}
    (h : a.pendingFactoryCandidates = candidate :: rest) (answer : QueueAnswer) :
    Drained a candidate rest answer ({ a with pendingFactoryCandidates := rest }.drainCandidate candidate answer) := by
  have hrestored : { a with pendingFactoryCandidates := candidate :: rest } = a := h ▸ rfl
  unfold drainCandidate
  split
  · next work hwork =>
    obtain ⟨hindexed, hscheduled⟩ := Option.filter_eq_some_iff.mp hwork
    exact .joins work ⟨h, hindexed, hscheduled⟩
  · next hunscheduled =>
    split_ifs with hworker hdropped
    · dsimp only
      rw [hrestored]
      exact .waits
    · simp only [Bool.or_eq_true, Bool.not_eq_eq_eq_not, Bool.not_true] at hdropped hworker
      exact .drops ⟨h, hunscheduled, Bool.not_eq_false _ ▸ hworker, hdropped.imp id .inl⟩
    · simp only [Bool.not_eq_eq_eq_not, Bool.not_true, Bool.not_eq_false] at hworker
      rcases { a with pendingFactoryCandidates := rest }.queueOne_spec candidate.registration .focused answer with
        ⟨error, hqueue⟩ | ⟨hqueueable, hqueue⟩ | ⟨adapter, hqueueable, hadapter, hqueue⟩
      · rw [hqueue]
        cases error with
        | other => exact .drops ⟨h, hunscheduled, hworker, .inr (.inr (congrArg Prod.fst hqueue))⟩
        | coldStartWorkerUnavailable | coldStartWorker =>
          dsimp only
          rw [hrestored]
          exact .waits
      · rw [hqueue]
        dsimp only
        rw [restore_burnt h]
        exact .burns ⟨hqueueable.trusted, hworker, hqueueable.unscheduled, hqueueable.inactive, hqueueable.unreserved⟩
      · rw [hqueue]
        exact .adopts adapter ⟨h, ⟨hqueueable.trusted, hworker, hqueueable.unscheduled, hqueueable.inactive,
          hqueueable.unreserved⟩, hadapter⟩

variable {a} in
theorem Drained.serves {candidate : AmmFactoryCandidate} {rest : List AmmFactoryCandidate}
    {answer : QueueAnswer} {goes : Bool} {b : AmmRuntimeActor} (h : Drained a candidate rest answer (goes, b))
    (hpending : a.pendingFactoryCandidates = candidate :: rest) : Serves a b := by
  have hpopped := pop_serves hpending
  cases h with
  | waits => exact .refl a
  | burns _ =>
    rw [Change.apply, burn_eq]
    exact ⟨rfl, rfl, rfl, rfl, rfl, rfl, rfl, rfl, fun _ h => h⟩
  | joins work _ => exact hpopped.trans (modifyWork_serves _ _ _)
  | adopts adapter _ =>
    have hqueued : Serves { a with pendingFactoryCandidates := rest }
        ({ a with pendingFactoryCandidates := rest }.enqueue candidate.registration adapter .focused) :=
      ⟨rfl, rfl, rfl, rfl, rfl, rfl, rfl, rfl, fun _ h => h⟩
    exact hpopped.trans (hqueued.trans (modifyWork_serves _ _ _))
  | drops _ => exact hpopped

variable {a} in
theorem Drained.changes {candidate : AmmFactoryCandidate} {rest : List AmmFactoryCandidate}
    {answer : QueueAnswer} {goes : Bool} {b : AmmRuntimeActor} (h : Drained a candidate rest answer (goes, b))
    (hdrop : allow a (.drop candidate rest answer)) : Changes allow a b := by
  cases h with
  | waits => exact .refl a
  | burns hfits => exact .harmless _ hfits trivial
  | joins work hfits => exact .harmless _ hfits trivial
  | adopts adapter hfits => exact .harmless _ hfits trivial
  | drops hfits => exact .allowed _ hfits hdrop

/-- The drops of the loop are of waiting candidates, by an actor that serves what it did when the loop began. -/
theorem drainLoop_changes (attempts : Nat) (answers : Nat → QueueAnswer)
    (hdrop : ∀ b candidate rest n, Serves a b → b.pendingFactoryCandidates = candidate :: rest →
      allow b (.drop candidate rest (answers n))) : Changes allow a (drainLoop attempts a answers) := by
  induction attempts generalizing a with
  | zero => exact .refl a
  | succ attempts ih =>
    unfold drainLoop
    split
    · exact .refl a
    · next candidate rest hpending =>
      have hspec := drainCandidate_spec hpending (answers attempts)
      have hone := hdrop a candidate rest attempts (.refl a) hpending
      split
      · next b heq =>
        rw [heq] at hspec
        exact (hspec.changes hone).trans (ih b fun c candidate rest n hserves => hdrop c candidate rest n
          ((hspec.serves hpending).trans hserves))
      · next b heq =>
        rw [heq] at hspec
        exact hspec.changes hone

theorem drainLoop_serves (attempts : Nat) (answers : Nat → QueueAnswer) : Serves a (drainLoop attempts a answers) := by
  induction attempts generalizing a with
  | zero => exact .refl a
  | succ attempts ih =>
    unfold drainLoop
    split
    · exact .refl a
    · next candidate rest hpending =>
      have hspec := drainCandidate_spec hpending (answers attempts)
      split
      · next b heq =>
        rw [heq] at hspec
        exact (hspec.serves hpending).trans (ih b)
      · next b heq =>
        rw [heq] at hspec
        exact hspec.serves hpending

theorem drainFactoryCandidates_changes (answers : Nat → QueueAnswer)
    (hdrop : ∀ b candidate rest n, Serves a b → b.pendingFactoryCandidates = candidate :: rest →
      allow b (.drop candidate rest (answers n))) : Changes allow a (a.drainFactoryCandidates answers) :=
  a.drainLoop_changes _ answers hdrop

/-! ### Discovery work -/

theorem queueDiscovery_changes (owner : DiscoveryOwnerId) (request : TokenEdgeDiscoveryRequest)
    (options : AmmDiscoveryOptions) (answer : QueueAnswer) :
    Changes allow a (a.queueDiscovery owner request options answer).2 := by
  unfold queueDiscovery
  split_ifs
  · exact .refl a
  · exact .refl a
  · exact .refl a
  · split
    · exact .refl a
    · split_ifs
      · exact .refl a
      · split
        · exact .refl a
        · exact .refl a
        · refine .aside ⟨rfl, rfl, rfl, rfl, rfl, rfl, rfl, Nat.le_succ _, id, fun work scheduled h => ?_,
            fun _ h => h, id, rfl, id⟩
          dsimp only at h
          rw [Table.get_set] at h
          split_ifs at h with hnew
          · rw [hnew]
            exact .inr ⟨⟨owner, rfl⟩, le_rfl, Nat.lt_succ_self a.nextWorkId⟩
          · exact .inl (Option.isSome_of_eq_some h)

theorem setRevalidatePool_changes (work : RuntimeWorkId) (pool : PoolInstanceId) :
    Changes allow a (a.setRevalidatePool work pool) := by
  unfold setRevalidatePool
  split
  · next present hpresent =>
    refine .aside ⟨rfl, rfl, rfl, rfl, rfl, rfl, rfl, le_rfl, id, fun other scheduled h => ?_, fun _ h => h, id, rfl, id⟩
    dsimp only at h
    rw [Table.get_set] at h
    split_ifs at h with hsame
    · exact .inl (Option.isSome_of_eq_some (hsame ▸ hpresent))
    · exact .inl (Option.isSome_of_eq_some h)
  · exact .refl a

theorem dropRevalidation_changes (pool : PoolInstanceId) (owner : DiscoveryOwnerId) :
    Changes allow a (a.dropRevalidation pool owner) :=
  .aside ⟨rfl, rfl, rfl, rfl, rfl, rfl, rfl, le_rfl, id, Aside.discovered rfl, fun _ h => h, id, rfl, id⟩

theorem revalidationLoop_changes (pending : List
    (Sigma fun _ : PoolInstanceId × DiscoveryOwnerId => TokenEdgeDiscoveryRequest)) (answers : Nat → QueueAnswer) : Changes
    allow a (revalidationLoop pending a answers) := by
  induction pending generalizing a with
  | nil => exact .refl a
  | cons head rest ih =>
    obtain ⟨⟨pool, owner⟩, request⟩ := head
    have hqueued : Changes allow a (a.queueDiscovery owner request (AmmDiscoveryOptions.default.withClass .repair)
        (answers rest.length)).2 := a.queueDiscovery_changes owner request _ _
    unfold revalidationLoop
    split_ifs
    · exact (a.dropRevalidation_changes pool owner).trans (ih _)
    · exact a.markUntrusted_changes
    · split
      · next heq =>
        rw [heq] at hqueued
        exact hqueued.trans ((setRevalidatePool_changes _ _ _).trans ((dropRevalidation_changes _ _ _).trans (ih _)))
      · next heq =>
        rw [heq] at hqueued
        exact hqueued.trans (markUntrusted_changes _)
      · next heq =>
        rw [heq] at hqueued
        exact hqueued

theorem drainRevalidations_changes (answers : Nat → QueueAnswer) : Changes allow a (a.drainRevalidations answers) := by
  unfold drainRevalidations
  split_ifs
  · exact a.revalidationLoop_changes _ _
  · exact .refl a

theorem dropRequest_changes (pool : PoolInstanceId) (owner : DiscoveryOwnerId) :
    Changes allow a (a.dropRequest pool owner) := by
  unfold dropRequest
  split
  · exact .refl a
  · refine .aside ⟨rfl, rfl, rfl, rfl, rfl, rfl, rfl, le_rfl, id, Aside.discovered rfl, fun _ h => h, id, rfl,
      fun hasked other left hget => ?_⟩
    dsimp only at hget
    split_ifs at hget with hempty
    · rw [Table.get_remove] at hget
      split_ifs at hget
      exact hasked other left hget
    · rw [Table.get_set] at hget
      split_ifs at hget
      · rw [← Option.some.inj hget]
        exact fun hnil => hempty (hnil ▸ rfl)
      · exact hasked other left hget

/-- The evidence of a pool after a revalidation that has found it. -/
def confirmedEvidence (pool : PoolInstanceId) (owner : DiscoveryOwnerId) : RegistrationEvidenceSet :=
  .new (queryEvidence owner a.point) (match a.registrationEvidence.get pool with
    | some set => set.evidence.filter (·.querySource ≠ some owner)
    | none => ∅)

theorem confirmPool_changes (pool : PoolInstanceId) (owner : DiscoveryOwnerId) (request : TokenEdgeDiscoveryRequest)
    (hrevise : allow a (.revise pool (a.confirmedEvidence pool owner))) :
    Changes allow a (a.confirmPool pool owner request) := by
  have hrevised := Changes.allowed (a := a) (.revise pool (a.confirmedEvidence pool owner)) trivial hrevise
  exact hrevised.trans (setRevalidation_changes _ _ _ _)

/-- What a completed revalidation may do to the evidence of its pool. -/
theorem commitRevalidation_changes (pool : PoolInstanceId) (scheduled : AmmScheduledDiscoveryWork) (found : Bool)
    (answers : Answers) (hconfirm : found = true → allow a (.revise pool (a.confirmedEvidence pool scheduled.owner)))
    (hwithdraw : found = false → ∀ b set retained, a.registrationEvidence.get pool = some set →
      b.registrationEvidence = a.registrationEvidence → b.activePools = a.activePools →
      set.withoutOwner scheduled.owner = some retained → allow b (.revise pool retained)) :
    Changes allow a (a.commitRevalidation pool scheduled found answers).1 := by
  unfold commitRevalidation
  split_ifs with hfound hactive
  · exact (a.confirmPool_changes pool _ _ (hconfirm hfound)).trans (drainRevalidations_changes _ _)
  · exact a.drainRevalidations_changes _
  · have hdropped : Changes allow a (a.dropRequest pool scheduled.owner) := a.dropRequest_changes pool scheduled.owner
    have hevidence : (a.dropRequest pool scheduled.owner).registrationEvidence = a.registrationEvidence ∧
        (a.dropRequest pool scheduled.owner).activePools = a.activePools := by
      unfold dropRequest
      split <;> exact ⟨rfl, rfl⟩
    dsimp only
    split
    · next retained hretained =>
      rw [hevidence.1] at hretained
      obtain ⟨set, hset, hretained⟩ := Option.bind_eq_some_iff.mp hretained
      have hrevised := Changes.allowed (a := a.dropRequest pool scheduled.owner) (.revise pool retained) trivial
        (hwithdraw (Bool.not_eq_true _ ▸ hfound) _ set retained hset hevidence.1 hevidence.2 hretained)
      exact hdropped.trans (hrevised.trans (drainRevalidations_changes _ _))
    · exact hdropped

variable {a} in
theorem commitScheduledDiscovery_changes (work : RuntimeWorkId) (owner : DiscoveryOwnerId)
    (report : TokenEdgeDiscoveryReport) (numbered : Bool) (answers : Answers)
    (hconfirm : ∀ scheduled pool b, a.scheduledDiscovery.get work = some scheduled → scheduled.revalidatePool = some pool →
      a.acceptsReport scheduled owner report = true → numbered = true → b.registrationEvidence = a.registrationEvidence →
        b.activePools = a.activePools →
      allow b (.revise pool (b.confirmedEvidence pool scheduled.owner)))
    (hwithdraw : ∀ scheduled pool b set retained, a.scheduledDiscovery.get work = some scheduled →
      scheduled.revalidatePool = some pool → a.acceptsReport scheduled owner report = true → numbered = true →
      a.registrationEvidence.get pool = some set → b.registrationEvidence = a.registrationEvidence →
        b.activePools = a.activePools →
      set.withoutOwner scheduled.owner = some retained → allow b (.revise pool retained))
    (hretain : ∀ scheduled registration b, a.scheduledDiscovery.get work = some scheduled →
      a.acceptsReport scheduled owner report = true → allow b (.retain (reportedCandidate scheduled registration)))
    (hdrop : ∀ b candidate rest n, b.adapters = a.adapters → allow b (.drop candidate rest (answers.candidates n))) :
    Changes allow a (a.commitScheduledDiscovery work owner report numbered answers).1 := by
  unfold commitScheduledDiscovery
  split
  · exact .refl a
  · next scheduled hwork =>
    by_cases haccepted : (!a.acceptsReport scheduled owner report) = true
    · rw [if_pos haccepted]
      exact .refl a
    rw [if_neg haccepted]
    have haccepted := Bool.not_eq_false _ ▸ Bool.not_eq_true' _ ▸ haccepted
    split
    · exact .refl a
    · next protocols _ =>
      split
      · next pool hpool =>
        by_cases hnumbered : (!numbered) = true
        · rw [if_pos hnumbered]
          exact .refl a
        rw [if_neg hnumbered]
        have hnumbered := Bool.not_eq_false _ ▸ Bool.not_eq_true' _ ▸ hnumbered
        exact (a.removeDiscoveryWork_changes work).trans (commitRevalidation_changes _ pool scheduled _ answers
          (fun _ => hconfirm scheduled pool _ hwork hpool haccepted hnumbered rfl rfl)
          fun _ b set retained hset hevidence hactive hretained =>
            hwithdraw scheduled pool b set retained hwork hpool haccepted hnumbered hset hevidence hactive hretained)
      · dsimp only
        obtain ⟨hall, hadapters⟩ := a.foldl_retain_changes
          ((report.admitted protocols scheduled.maxCandidates).map (reportedCandidate scheduled)) fun b candidate hmem => by
            obtain ⟨registration, -, rfl⟩ := List.mem_map.mp hmem
            exact hretain scheduled registration b hwork haccepted
        rw [List.foldl_map] at hall hadapters
        split_ifs
        · exact hall
        · refine hall.trans ((removeDiscoveryWork_changes _ work).trans ((drainFactoryCandidates_changes _ _ ?_).trans
            (drainRevalidations_changes _ _)))
          exact fun b candidate rest n hserves _ => hdrop b candidate rest n (hserves.adapters.trans hadapters)

/-! ### Settling scheduled work -/

variable {a} in
theorem release_changes {work : RuntimeWorkId} {scheduled : AmmScheduledPoolWork}
    (hwork : a.scheduledWork.get work = some scheduled) (hrelease : allow a (.release work scheduled)) :
    Changes allow a (a.release work scheduled) :=
  .allowed (.release work scheduled) hwork hrelease

variable {a} in
theorem detachScheduledWork_changes (work : RuntimeWorkId)
    (hrelease : ∀ scheduled, a.scheduledWork.get work = some scheduled → allow a (.release work scheduled)) :
    Changes allow a (a.detachScheduledWork work) := by
  unfold detachScheduledWork
  split_ifs
  · exact .refl a
  · split
    · next scheduled hwork => exact release_changes hwork (hrelease scheduled hwork)
    · exact a.removeDiscoveryWork_changes work

theorem release_get (work other : RuntimeWorkId) (scheduled : AmmScheduledPoolWork) :
    (a.release work scheduled).scheduledWork.get other = if other = work then none else a.scheduledWork.get other := by
  unfold release cancelPoolReservation
  dsimp only
  split_ifs <;> exact Table.get_remove.trans (by simp_all)

theorem detachScheduledWork_get (work other : RuntimeWorkId) :
    (a.detachScheduledWork work).scheduledWork.get other =
      if other = work ∧ a.coldStartWorker = true then none else a.scheduledWork.get other := by
  unfold detachScheduledWork
  by_cases hworker : a.coldStartWorker = true
  · rw [hworker, Bool.not_true, if_neg Bool.false_ne_true]
    simp only [and_true]
    split
    · exact a.release_get work other _
    · next hnone =>
      by_cases hsame : other = work
      · rw [if_pos hsame, hsame]
        exact hnone
      · rw [if_neg hsame]
        rfl
  · rw [Bool.not_eq_true] at hworker
    rw [hworker, Bool.not_false, if_pos rfl]
    simp only [Bool.false_eq_true, and_false, if_false]

theorem detachScheduledWork_worker (work : RuntimeWorkId) :
    (a.detachScheduledWork work).coldStartWorker = a.coldStartWorker := by
  unfold detachScheduledWork
  split_ifs
  · rfl
  · split
    · unfold release cancelPoolReservation
      dsimp only
      split_ifs <;> rfl
    · rfl

/-- Detaching takes the listed work out and no other. -/
theorem foldl_detach_get (works : List RuntimeWorkId) (other : RuntimeWorkId) :
    (works.foldl detachScheduledWork a).scheduledWork.get other =
      if other ∈ works ∧ a.coldStartWorker = true then none else a.scheduledWork.get other := by
  induction works generalizing a with
  | nil => simp
  | cons work rest ih =>
    rw [List.foldl_cons, ih, detachScheduledWork_worker, detachScheduledWork_get]
    by_cases hrest : other ∈ rest <;> by_cases hsame : other = work <;> by_cases hworker : a.coldStartWorker = true <;>
      simp [hrest, hsame, hworker]

theorem foldl_detach_pending (works : List RuntimeWorkId) :
    (works.foldl detachScheduledWork a).pendingFactoryCandidates = a.pendingFactoryCandidates := by
  induction works generalizing a with
  | nil => rfl
  | cons work rest ih =>
    refine (ih _).trans ?_
    unfold detachScheduledWork
    split_ifs
    · rfl
    · split
      · unfold release cancelPoolReservation
        dsimp only
        split_ifs <;> rfl
      · rfl

theorem foldl_detach_changes (works : List RuntimeWorkId)
    (hrelease : ∀ b work scheduled, work ∈ works → a.scheduledWork.get work = some scheduled →
      b.scheduledWork.get work = some scheduled →
      allow b (.release work scheduled)) :
    Changes allow a (works.foldl detachScheduledWork a) := by
  induction works generalizing a with
  | nil => exact .refl a
  | cons work rest ih =>
    have hone : Changes allow a (a.detachScheduledWork work) :=
      detachScheduledWork_changes work fun scheduled hwork => hrelease a work scheduled List.mem_cons_self hwork hwork
    refine hone.trans (ih _ fun b other scheduled hother hget hb => hrelease b other scheduled
      (List.mem_cons_of_mem _ hother) ?_ hb)
    rw [detachScheduledWork_get] at hget
    split_ifs at hget
    exact hget

theorem failScheduledDiscovery_changes (work : RuntimeWorkId) (scheduled : AmmScheduledDiscoveryWork)
    (stale numbered : Bool) (answer : QueueAnswer) (answers : Answers) :
    Changes allow a (a.failScheduledDiscovery work scheduled stale numbered answer answers) := by
  have hremoved : Changes allow a (a.removeDiscoveryWork work) := a.removeDiscoveryWork_changes work
  unfold failScheduledDiscovery
  dsimp only
  cases numbered with
  | false => exact hremoved
  | true =>
    rw [Bool.not_true, if_neg Bool.false_ne_true]
    split
    · next pool _ =>
      split_ifs
      · have hpending : Changes allow (a.removeDiscoveryWork work) { a.removeDiscoveryWork work with
            pendingRevalidations := (a.removeDiscoveryWork work).pendingRevalidations.set (pool, scheduled.owner)
              scheduled.request } := .aside ⟨rfl, rfl, rfl, rfl, rfl, rfl, rfl, le_rfl, id, Aside.discovered rfl,
                fun _ h => h, id, rfl, id⟩
        exact hremoved.trans (hpending.trans (drainRevalidations_changes _ _))
      · exact hremoved.trans (markUntrusted_changes _)
    · split_ifs
      · exact hremoved.trans (queueDiscovery_changes _ _ _ _ _)
      · exact hremoved

theorem release_retryCandidate (work : RuntimeWorkId) (released scheduled : AmmScheduledPoolWork) :
    (a.release work released).retryCandidate scheduled = a.retryCandidate scheduled := by
  unfold release cancelPoolReservation
  dsimp only
  split_ifs <;> rfl

theorem release_adapters (work : RuntimeWorkId) (scheduled : AmmScheduledPoolWork) :
    (a.release work scheduled).adapters = a.adapters := by
  unfold release cancelPoolReservation
  dsimp only
  split_ifs <;> rfl

variable {a} in
theorem failScheduledWork_changes (work : RuntimeWorkId) (stale numbered : Bool) (answer : QueueAnswer) (answers : Answers)
    (hrelease : ∀ scheduled, a.scheduledDiscovery.get work = none →
      a.scheduledWork.get work = some scheduled → numbered = true →
      allow a (.release work scheduled))
    (hretain : ∀ scheduled candidate b, a.scheduledWork.get work = some scheduled → numbered = true → stale = true →
      a.retryCandidate scheduled = some candidate → allow b (.retain candidate))
    (hdrop : numbered = true → stale = true → ∀ b candidate rest n, b.adapters = a.adapters →
      allow b (.drop candidate rest (answers.candidates n))) :
    Changes allow a (a.failScheduledWork work stale numbered answer answers) := by
  unfold failScheduledWork
  split
  · exact a.failScheduledDiscovery_changes _ _ _ _ _ _
  · next hdiscovery =>
    split
    · exact .refl a
    · next scheduled hwork =>
      cases numbered with
      | false => exact .refl a
      | true =>
        rw [Bool.not_true, if_neg Bool.false_ne_true]
        have hreleased := release_changes hwork (hrelease scheduled hdiscovery hwork rfl)
        dsimp only
        split
        · next candidate hretry =>
          split_ifs at hretry with hstale
          rw [release_retryCandidate] at hretry
          refine hreleased.trans ((retainFactoryCandidate_changes _
            (hretain scheduled candidate _ hwork rfl hstale hretry)).trans (drainFactoryCandidates_changes _ _ ?_))
          exact fun b waiting rest n hserves _ => hdrop rfl hstale b waiting rest n (hserves.adapters.trans
            ((retainFactoryCandidate_adapters _ _).trans (a.release_adapters work scheduled)))
        · exact hreleased

variable {a} in
theorem cancelScheduledWork_changes (work : RuntimeWorkId) (numbered : Bool)
    (hrelease : ∀ scheduled, a.scheduledDiscovery.get work = none →
      a.scheduledWork.get work = some scheduled → numbered = true →
      allow a (.release work scheduled)) :
    Changes allow a (a.cancelScheduledWork work numbered) := by
  unfold cancelScheduledWork
  split
  · exact a.removeDiscoveryWork_changes work
  · next hdiscovery =>
    split
    · exact .refl a
    · next scheduled hwork =>
      split_ifs with hnumbered
      · exact release_changes hwork (hrelease scheduled hdiscovery hwork hnumbered)
      · exact .refl a

/-! ### Installing and removing pools -/

variable {a} in
/-- An installation behind its fence, of work that is scheduled still while its reservation stands. -/
theorem finishInstall_changes (work : RuntimeWorkId) (scheduled : AmmScheduledPoolWork) (baseline : AmmStatePoint)
    (answer : InstallAnswer)
    (hheld : a.reservations.get scheduled.reservation.key = some scheduled.reservation →
      ∃ current, a.scheduledWork.get work = some current ∧ current.reservation = scheduled.reservation)
    (hactivate : ∀ b, b.pendingFactoryCandidates = a.pendingFactoryCandidates → baseline = a.point →
      answer = .installs false →
      allow b (.activate scheduled.reservation))
    (hinstall : baseline = a.point → answer = .installs true → allow a (.install work scheduled)) :
    Changes allow a (a.finishInstall work scheduled baseline answer) := by
  unfold finishInstall
  dsimp only
  by_cases hrefused : (!a.trusted || baseline ≠ a.point || a.reservations.get scheduled.reservation.key ≠
    some scheduled.reservation ||
      a.activePools.contains scheduled.reservation.key) = true
  · rw [if_pos hrefused]
    exact .refl a
  · rw [if_neg hrefused]
    simp only [Bool.or_eq_true, decide_eq_true_eq, not_or, not_not, Bool.not_eq_true, Map.contains_eq_false] at hrefused
    obtain ⟨⟨htrusted, hreserved⟩, hinactive⟩ := hrefused
    have hbaseline := htrusted.2
    have htrusted : a.trusted = true := by simpa using htrusted.1
    have htaken : Changes allow a { a with reservations := a.reservations.remove scheduled.reservation.key } :=
      .harmless (.unreserve scheduled.reservation) hreserved trivial
    cases answer with
    | refuses => exact .refl a
    | rollsBack trusted =>
      exact htaken.trans (.aside ⟨rfl, rfl, rfl, rfl, rfl, rfl, rfl, le_rfl, id, Aside.discovered rfl, fun _ h => h,
        fun _ => htrusted, rfl, id⟩)
    | patchFails =>
      have hforced : Changes allow a { a with
          activePools := a.activePools.insert scheduled.reservation.key scheduled.reservation, trusted := false } := by
        refine .harmless (.force _ a.generations) ⟨⟨fun _ _ _ => rfl, fun _ g hg => ⟨g, hg, le_rfl⟩⟩,
          fun key pool hkey => ?_⟩ trivial
        rcases Map.get_insert_eq_some.mp hkey with ⟨rfl, rfl⟩ | ⟨-, hold⟩
        · exact .inr (.inl hreserved)
        · exact .inl hold
      exact hforced.trans (.harmless (.unreserve scheduled.reservation) hreserved trivial)
    | installs reported =>
      cases reported with
      | false =>
        exact htaken.trans (.allowed (.activate scheduled.reservation) ⟨hinactive, Map.get_remove_self _ _⟩
          (hactivate _ rfl hbaseline rfl))
      | true => exact .allowed (.install work scheduled) ⟨hreserved, hinactive, hheld hreserved⟩ (hinstall hbaseline rfl)

theorem activatePrepared_get_of_ne {registration : PoolRegistration} {key : PoolKey} (h : key ≠ registration.key) :
    (a.activatePrepared registration).activePools.get key = a.activePools.get key := Map.get_insert_of_ne h

/-- Prepared pools are entered one by one, where each has no work, no entry and no reservation. -/
theorem foldl_activatePrepared_changes (pools : List PoolRegistration) (hdistinct : (pools.map (·.key)).Nodup)
    (hfree : ∀ pool ∈ pools, a.pendingPoolWork.get pool.key = none ∧ a.activePools.get pool.key = none ∧
      a.reservations.get pool.key = none)
    (hprepare : ∀ b, b.pendingFactoryCandidates = a.pendingFactoryCandidates → ∀ pool ∈ pools, allow b (.prepare pool)) :
    Changes allow a (pools.foldl activatePrepared a) := by
  induction pools generalizing a with
  | nil => exact .refl a
  | cons pool rest ih =>
    rw [List.map_cons, List.nodup_cons] at hdistinct
    have hone : Changes allow a (a.activatePrepared pool) :=
      .allowed (.prepare pool) (hfree pool List.mem_cons_self) (hprepare a rfl pool List.mem_cons_self)
    refine hone.trans (ih _ hdistinct.2 (fun other hother => ?_) fun b hb other hother => hprepare b hb other
      (List.mem_cons_of_mem _ hother))
    obtain ⟨hunscheduled, hinactive, hunreserved⟩ := hfree other (List.mem_cons_of_mem _ hother)
    refine ⟨hunscheduled, ?_, hunreserved⟩
    have hne : other.key ≠ pool.key := fun heq => hdistinct.1 (heq ▸ List.mem_map_of_mem hother)
    rwa [activatePrepared_get_of_ne a hne]

/-- The generations that prepared pools take are new, and none of a reserved pool. -/
theorem foldl_activatePrepared_generations (pools : List PoolRegistration)
    (hfree : ∀ pool ∈ pools, a.reservations.get pool.key = none) :
    (Change.regenerate (pools.foldl activatePrepared a).generations).Fits a := by
  induction pools generalizing a with
  | nil => exact ⟨fun _ _ _ => rfl, fun _ g hg => ⟨g, hg, le_rfl⟩⟩
  | cons pool rest ih =>
    obtain ⟨hreserved, hlater⟩ := ih (a.activatePrepared pool) fun other hother =>
      hfree other (List.mem_cons_of_mem _ hother)
    refine ⟨fun key reserved hkey => (hreserved key reserved hkey).trans (Map.get_insert_of_ne ?_), fun key g hg => ?_⟩
    · rintro rfl
      cases (hfree pool List.mem_cons_self).symm.trans hkey
    · by_cases hkey : key = pool.key
      · obtain ⟨g', hg', hle⟩ := hlater key (g + 1) (by
          rw [hkey] at hg ⊢
          refine (Map.get_insert_self _ _ _).trans ?_
          rw [hg]
          rfl)
        exact ⟨g', hg', Nat.le_of_succ_le hle⟩
      · exact hlater key g ((Map.get_insert_of_ne hkey).trans hg)

/-- A pool that is entered among prepared ones was so before, or is of a new generation. -/
theorem foldl_activatePrepared_entered (pools : List PoolRegistration) {key : PoolKey} {pool : PoolInstanceId}
    (h : (pools.foldl activatePrepared a).activePools.get key = some pool) :
    a.activePools.get key = some pool ∨ a.New key pool := by
  induction pools generalizing a with
  | nil => exact .inl h
  | cons head rest ih =>
    rcases ih (a.activatePrepared head) h with hactive | hnew
    · rcases Map.get_insert_eq_some.mp hactive with ⟨rfl, rfl⟩ | ⟨-, hold⟩
      · refine .inr fun g hg => ?_
        dsimp only
        rw [hg]
        exact Nat.lt_succ_self g
      · exact .inl hold
    · refine .inr fun g hg => ?_
      by_cases hkey : key = head.key
      · subst hkey
        have hnext := hnew _ (Map.get_insert_self _ _ _)
        dsimp only at hnext
        rw [hg] at hnext
        exact (Nat.lt_succ_self g).trans hnext
      · exact hnew g ((Map.get_insert_of_ne hkey).trans hg)

theorem installPreparedPools_changes (pools : List PoolRegistration) (baseline : AmmStatePoint) (answer : InstallAnswer)
    (hprepare : ∀ b, b.pendingFactoryCandidates = a.pendingFactoryCandidates → ∀ reported, answer = .installs reported →
      ∀ pool ∈ pools, allow b (.prepare pool)) :
    Changes allow a (a.installPreparedPools pools baseline answer) := by
  unfold installPreparedPools
  by_cases hrefused : (!a.trusted || baseline ≠ a.point || decide (¬(pools.map (·.key)).Nodup) || pools.any (fun pool =>
      a.pendingPoolWork.contains pool.key || a.activePools.contains pool.key || a.reservations.contains pool.key)) = true
  · rw [if_pos hrefused]
    exact .refl a
  · rw [if_neg hrefused]
    simp only [Bool.or_eq_true, decide_eq_true_eq, not_or, not_not, List.any_eq_true, not_exists, not_and,
      Bool.not_eq_true, Map.contains_eq_false] at hrefused
    obtain ⟨⟨htrusted, hdistinct⟩, hfree⟩ := hrefused
    have htrusted : a.trusted = true := by simpa using htrusted.1
    have hfree : ∀ pool ∈ pools, a.pendingPoolWork.get pool.key = none ∧ a.activePools.get pool.key = none ∧
        a.reservations.get pool.key = none := fun pool hpool =>
          ⟨(hfree pool hpool).1.1, (hfree pool hpool).1.2, (hfree pool hpool).2⟩
    have hgenerations : Changes allow a { a with generations := (pools.foldl activatePrepared a).generations } :=
      .harmless (.regenerate _) (a.foldl_activatePrepared_generations pools fun pool
        hpool => (hfree pool hpool).2.2) trivial
    cases answer with
    | refuses => exact .refl a
    | rollsBack trusted =>
      exact hgenerations.trans (.aside ⟨rfl, rfl, rfl, rfl, rfl, rfl, rfl, le_rfl, id, Aside.discovered rfl, fun _ h => h,
        fun _ => htrusted, rfl, id⟩)
    | patchFails =>
      exact .harmless (.force _ _) ⟨a.foldl_activatePrepared_generations pools fun pool hpool => (hfree pool hpool).2.2,
        fun key pool hkey => (a.foldl_activatePrepared_entered pools hkey).imp_right .inr⟩ trivial
    | installs reported =>
      exact a.foldl_activatePrepared_changes pools hdistinct hfree fun b hb pool hpool =>
        hprepare b hb reported rfl pool hpool

variable {a} in
theorem removePoolSerialized_changes (pool : PoolInstanceId) (answer : RemovalAnswer)
    (hdrop : a.isActivePool pool = true → answer = .removes → allow a (.dropPool pool))
    (hdistrusts : allow a.markUntrusted (.dropPool pool)) :
    Changes allow a (a.removePoolSerialized pool answer).2 := by
  unfold removePoolSerialized
  split_ifs with hrefused
  · exact .refl a
  · rw [Bool.or_eq_true, not_or, Bool.not_eq_true, Bool.not_eq_true, Bool.not_eq_false', Bool.not_eq_false'] at hrefused
    cases answer with
    | refuses => exact .refl a
    | breaks => exact a.markUntrusted_changes
    | distrusts => exact a.markUntrusted_changes.trans (.allowed (.dropPool pool) trivial hdistrusts)
    | removes => exact .allowed (.dropPool pool) trivial (hdrop hrefused.2 rfl)

/-- A removal that goes through takes the pool out. -/
theorem removePoolSerialized_eq_true {b : AmmRuntimeActor} {pool : PoolInstanceId} {answer : RemovalAnswer}
    (h : a.removePoolSerialized pool answer = (true, b)) : answer = .removes ∧ b = a.dropPool pool := by
  unfold removePoolSerialized at h
  split_ifs at h
  · cases h
  · cases answer with
    | refuses | breaks | distrusts => cases h
    | removes => exact ⟨rfl, (Prod.mk.inj h).2.symm⟩

/-! ### Watchers and adapters -/

theorem addFactoryWatcher_changes (key : DiscoveryOwnerKey) (adapter : AdapterInstanceId) (accepted : Bool) :
    Changes allow a (a.addFactoryWatcher key adapter accepted) := by
  unfold addFactoryWatcher
  split_ifs with hrefused
  · exact .refl a
  · refine .aside ⟨rfl, rfl, rfl, rfl, rfl, rfl, rfl, le_rfl, id, Aside.discovered rfl, fun owner h => ?_, id, rfl, id⟩
    have hactive : a.activeDiscovery.get owner.key = some owner := of_decide_eq_true h
    refine decide_eq_true ((Map.get_insert_of_ne ?_).trans hactive)
    rintro rfl
    simp only [Bool.or_eq_true, not_or, Bool.not_eq_true, Map.contains_eq_false] at hrefused
    cases hrefused.1.2.symm.trans hactive

variable {a} in
/-- The removal of a watcher: its candidates go, then its work, then its evidence. -/
theorem removeFactoryWatcher_changes (owner : DiscoveryOwnerId) (accepted : Bool)
    (hattached : a.coldStartWorker = false → ∀ work, a.scheduledWork.get work = none)
    (hcandidates : allow a (.dropOwner owner))
    (hrelease : ∀ b work scheduled, a.scheduledWork.get work = some scheduled → work ∈ a.cancelledWork owner →
      allow b (.release work scheduled))
    (hwithdraw : ∀ b, (∀ work scheduled, b.scheduledWork.get work = some scheduled →
      a.scheduledWork.get work = some scheduled) →
      allow b (.withdraw owner)) :
    Changes allow a (a.removeFactoryWatcher owner accepted) := by
  unfold removeFactoryWatcher
  split_ifs
  · exact .refl a
  · have hremoved : Changes allow a (a.removeDiscovery owner) := .allowed (.dropOwner owner) trivial hcandidates
    have hcancelled : Changes allow (a.removeDiscovery owner)
        ((a.cancelledWork owner).foldl detachScheduledWork (a.removeDiscovery owner)) :=
      foldl_detach_changes _ _ fun b work scheduled hwork hget _ => hrelease b work scheduled hget hwork
    refine hremoved.trans (hcancelled.trans ?_)
    have hkept : ∀ work scheduled, ((a.cancelledWork owner).foldl detachScheduledWork
        (a.removeDiscovery owner)).scheduledWork.get work =
        some scheduled → a.scheduledWork.get work = some scheduled ∧
          (work ∉ a.cancelledWork owner ∨ a.coldStartWorker = false) := by
      intro work scheduled hget
      rw [foldl_detach_get] at hget
      split_ifs at hget with hlisted
      refine ⟨hget, ?_⟩
      by_cases hworker : a.coldStartWorker = true
      · exact .inl fun hmem => hlisted ⟨hmem, hworker⟩
      · exact .inr (Bool.not_eq_true _ ▸ hworker)
    refine .allowed (.withdraw owner) (fun work scheduled hget hsole => ?_)
      (hwithdraw _ fun work scheduled hget => (hkept work scheduled hget).1)
    obtain ⟨hscheduled, hlisted | hworker⟩ := hkept work scheduled hget
    · refine hlisted (List.mem_append_right _ (Table.mem_keysWhere.mpr ⟨scheduled, hscheduled, ?_⟩))
      exact decide_eq_true hsole
    · cases (hattached hworker work).symm.trans hscheduled

theorem addAdapter_changes (adapter : AdapterInstanceId) (accepted : Bool) :
    Changes allow a (a.addAdapter adapter accepted) := by
  unfold addAdapter
  split_ifs
  · exact .aside ⟨rfl, rfl, rfl, rfl, rfl, rfl, rfl, le_rfl, id, Aside.discovered rfl, fun _ h => h, id, rfl, id⟩
  · exact .refl a

variable {a} in
theorem detachAdapter_changes (adapter : AdapterInstanceId)
    (hrelease : ∀ b work scheduled, a.scheduledWork.get work = some scheduled → scheduled.adapter = adapter →
      allow b (.release work scheduled)) :
    Changes allow a (a.detachAdapter adapter) := by
  have hdetached : Changes allow a { a with adapters := a.adapters.filter (· ≠ adapter) } :=
    .aside ⟨rfl, rfl, rfl, rfl, rfl, rfl, rfl, le_rfl, id, Aside.discovered rfl, fun _ h => h, id, rfl, id⟩
  refine hdetached.trans (foldl_detach_changes _ _ fun b work scheduled hwork hget _ => ?_)
  obtain ⟨listed, hlisted, hadapter⟩ := Table.mem_keysWhere.mp hwork
  obtain rfl := Option.some.inj (hlisted.symm.trans hget)
  exact hrelease b work listed hget (of_decide_eq_true hadapter)

variable {a} in
theorem removeAdapter_changes (adapter : AdapterInstanceId) (accepted : Bool)
    (hrelease : ∀ b work scheduled, a.scheduledWork.get work = some scheduled → scheduled.adapter = adapter →
      allow b (.release work scheduled)) :
    Changes allow a (a.removeAdapter adapter accepted) := by
  unfold removeAdapter
  split_ifs
  · exact detachAdapter_changes adapter hrelease
  · exact .refl a

variable {a} in
theorem removeAdapterCascade_changes (adapter : AdapterInstanceId) (pools : List PoolInstanceId)
    (owners : List DiscoveryOwnerId) (accepted : Bool)
    (hrelease : ∀ b work scheduled, a.scheduledWork.get work = some scheduled →
      scheduled.adapter = adapter ∨ work ∈ a.scheduledDiscovery.keysWhere (fun _ scheduled => scheduled.owner ∈ owners) →
      allow b (.release work scheduled))
    (howner : ∀ b, b.pendingFactoryCandidates ⊆ a.pendingFactoryCandidates → ∀ owner ∈ owners, allow b (.dropOwner owner))
    (hpool : ∀ b, ∀ pool ∈ pools, allow b (.dropPool pool)) :
    Changes allow a (a.removeAdapterCascade adapter pools owners accepted) := by
  unfold removeAdapterCascade
  split_ifs
  · exact .refl a
  · dsimp only
    have hdetached : Changes allow a (a.detachAdapter adapter) := detachAdapter_changes adapter
      fun b work scheduled hget hadapter => hrelease b work scheduled hget (.inl hadapter)
    have hdiscoveries : Changes allow (a.detachAdapter adapter) ((a.scheduledDiscovery.keysWhere fun _ scheduled =>
        scheduled.owner ∈ owners).foldl detachScheduledWork (a.detachAdapter adapter)) := by
      refine foldl_detach_changes _ _ fun b work scheduled hwork hget _ => hrelease b work scheduled ?_ (.inr hwork)
      rw [detachAdapter, foldl_detach_get] at hget
      split_ifs at hget
      exact hget
    have howners : ∀ l ⊆ owners, ∀ b : AmmRuntimeActor, b.pendingFactoryCandidates ⊆ a.pendingFactoryCandidates →
        Changes allow b (l.foldl removeDiscovery b) := by
      intro l hl
      induction l with
      | nil => exact fun b _ => .refl b
      | cons owner rest ih =>
        intro b hb
        rw [List.cons_subset] at hl
        have hone : Changes allow b (b.removeDiscovery owner) :=
          .allowed (.dropOwner owner) trivial (howner b hb owner hl.1)
        exact hone.trans (ih hl.2 _ fun candidate hmem => hb (List.mem_of_mem_filter hmem))
    have hpending : ((a.scheduledDiscovery.keysWhere fun _ scheduled => scheduled.owner ∈ owners).foldl detachScheduledWork
        (a.detachAdapter adapter)).pendingFactoryCandidates ⊆ a.pendingFactoryCandidates := by
      rw [foldl_detach_pending, detachAdapter, foldl_detach_pending]
      exact List.Subset.refl _
    have hpools : ∀ l ⊆ pools, ∀ b : AmmRuntimeActor, Changes allow b (l.foldl dropPool b) := by
      intro l hl
      induction l with
      | nil => exact fun b => .refl b
      | cons pool rest ih =>
        intro b
        rw [List.cons_subset] at hl
        have hone : Changes allow b (b.dropPool pool) := .allowed (.dropPool pool) trivial (hpool b pool hl.1)
        exact hone.trans (ih hl.2 _)
    exact hdetached.trans (hdiscoveries.trans
      ((howners owners (List.Subset.refl _) _ hpending).trans (hpools pools (List.Subset.refl _) _)))

/-! ### Reorgs -/

theorem cancelScheduledWork_get {work other : RuntimeWorkId} {numbered : Bool} {scheduled : AmmScheduledPoolWork}
    (h : (a.cancelScheduledWork work numbered).scheduledWork.get other = some scheduled) :
    a.scheduledWork.get other = some scheduled := by
  unfold cancelScheduledWork at h
  split at h
  · exact h
  · split at h
    · exact h
    · split_ifs at h
      · rw [release_get] at h
        split_ifs at h
        exact h
      · exact h

theorem cancelOrphans_changes (orphaned : List RuntimeWorkId) (numbered : Nat)
    (hrelease : ∀ b work scheduled, work ∈ orphaned → a.scheduledWork.get work = some scheduled →
      allow b (.release work scheduled)) :
    Changes allow a (cancelOrphans orphaned numbered a).2 := by
  induction orphaned generalizing a numbered with
  | nil => cases numbered <;> exact .refl a
  | cons work rest ih =>
    cases numbered with
    | zero => exact .refl a
    | succ numbered =>
      have hone : Changes allow a (a.cancelScheduledWork work true) := cancelScheduledWork_changes work true
        fun scheduled _ hget _ => hrelease a work scheduled List.mem_cons_self hget
      exact hone.trans (ih _ numbered fun b other scheduled hother hget =>
        hrelease b other scheduled (List.mem_cons_of_mem _ hother) (a.cancelScheduledWork_get hget))

/-- Scheduled work whose evidence does not cross a reorg. -/
def orphanedWork (dropped : List B256) : List RuntimeWorkId :=
  a.scheduledWork.keysWhere fun _ scheduled => (crossing dropped scheduled.evidence).isNone

theorem reconcile_eq {dropped : List B256} (h : dropped ≠ []) (numbered : Nat) :
    a.reconcileOrphanedPendingRegistrations dropped numbered =
      match cancelOrphans (a.orphanedWork dropped) numbered (a.reconcilePending dropped) with
      | (false, b) => (false, b)
      | (true, b) => (true, b.reconcileRegistered dropped) := if_neg h

variable {a} in
theorem reconcile_changes (dropped : List B256) (numbered : Nat) (hpending : allow a (.reconcilePending dropped))
    (hrelease : ∀ b work scheduled, crossing dropped scheduled.evidence = none → allow b (.release work scheduled))
    (hregistered : ∀ b, allow b (.reconcileRegistered dropped)) :
    Changes allow a (a.reconcileOrphanedPendingRegistrations dropped numbered).2 := by
  by_cases hdropped : dropped = []
  · subst hdropped
    exact .refl a
  · have hfirst : Changes allow a (a.reconcilePending dropped) := .allowed (.reconcilePending dropped) trivial hpending
    have hcancelled : Changes allow (a.reconcilePending dropped) (cancelOrphans (a.orphanedWork dropped) numbered
        (a.reconcilePending dropped)).2 := (a.reconcilePending dropped).cancelOrphans_changes
          (a.orphanedWork dropped) numbered (by
        intro b work scheduled hwork hget
        obtain ⟨orphan, horphan, hnone⟩ := Table.mem_keysWhere.mp hwork
        rw [Option.isNone_iff_eq_none] at hnone
        rw [reconcilePending, Table.get_map, horphan, Option.map_some, AmmScheduledPoolWork.cross, hnone] at hget
        obtain rfl := Option.some.inj hget
        exact hrelease b work orphan hnone)
    rw [reconcile_eq a hdropped]
    split
    · next heq =>
      rw [heq] at hcancelled
      exact hfirst.trans hcancelled
    · next b heq =>
      rw [heq] at hcancelled
      exact (hfirst.trans hcancelled).trans (.allowed (.reconcileRegistered dropped) trivial (hregistered b))

theorem revalidatePool_changes (pool : PoolInstanceId) (requests : Revalidations) (dropped : List B256)
    (hrevise : ∀ set retained, a.registrationEvidence.get pool = some set →
      set.retain (fun item => item.isQuery || item.offBlocks dropped) = some retained → allow a (.revise pool retained)) :
    Changes allow a (a.revalidatePool pool requests dropped) := by
  unfold revalidatePool
  dsimp only
  split
  · exact .aside ⟨rfl, rfl, rfl, rfl, rfl, rfl, rfl, le_rfl, id, Aside.discovered rfl, fun _ h => h, id, rfl, id⟩
  · next set hset =>
    split
    · exact a.markUntrusted_changes
    · next retained hretained =>
      have hrevised := Changes.allowed (a := a) (.revise pool retained) trivial (hrevise set retained hset hretained)
      exact hrevised.trans (.aside ⟨rfl, rfl, rfl, rfl, rfl, rfl, rfl, le_rfl, id, Aside.discovered rfl,
        fun _ h => h, id, rfl, id⟩)

theorem takeActions_changes (dropped : List B256)
    (actions : List (PoolInstanceId × RegistrationReorgAction × Option Revalidations))
    (hrevise : ∀ b pool set retained, b.registrationEvidence.get pool = some set →
      set.retain (fun item => item.isQuery || item.offBlocks dropped) = some retained → allow b (.revise pool retained)) :
    Changes allow a (takeActions dropped actions a).1 := by
  induction actions generalizing a with
  | nil => exact .refl a
  | cons head rest ih =>
    obtain ⟨pool, action, requests⟩ := head
    unfold takeActions
    split_ifs
    · exact ih a
    · split
      · exact .refl a
      · exact (a.revalidatePool_changes pool _ dropped (hrevise a pool)).trans (ih _)
      · exact a.markUntrusted_changes.trans (ih a.markUntrusted)
      · exact ih a

theorem cancelOrphans_adapters (orphaned : List RuntimeWorkId) (numbered : Nat) :
    (cancelOrphans orphaned numbered a).2.adapters = a.adapters := by
  induction orphaned generalizing a numbered with
  | nil => cases numbered <;> rfl
  | cons work rest ih =>
    cases numbered with
    | zero => rfl
    | succ numbered =>
      refine (ih _ numbered).trans ?_
      unfold cancelScheduledWork
      split
      · rfl
      · split
        · rfl
        · exact a.release_adapters _ _

theorem reconcile_adapters (dropped : List B256) (numbered : Nat) :
    (a.reconcileOrphanedPendingRegistrations dropped numbered).2.adapters = a.adapters := by
  by_cases hdropped : dropped = []
  · subst hdropped
    rfl
  · have hcancelled := (a.reconcilePending dropped).cancelOrphans_adapters (a.orphanedWork dropped) numbered
    rw [reconcile_eq a hdropped]
    split
    · next heq =>
      rw [heq] at hcancelled
      exact hcancelled
    · next heq =>
      rw [heq] at hcancelled
      exact hcancelled

theorem queueDiscovery_adapters (owner : DiscoveryOwnerId) (request : TokenEdgeDiscoveryRequest)
    (options : AmmDiscoveryOptions) (answer : QueueAnswer) :
    (a.queueDiscovery owner request options answer).2.adapters = a.adapters := by
  unfold queueDiscovery
  split_ifs
  · rfl
  · rfl
  · rfl
  · split
    · rfl
    · split_ifs
      · rfl
      · split <;> rfl

theorem setRevalidatePool_adapters (work : RuntimeWorkId) (pool : PoolInstanceId) :
    (a.setRevalidatePool work pool).adapters = a.adapters := by
  unfold setRevalidatePool
  split <;> rfl

theorem drainRevalidations_adapters (answers : Nat → QueueAnswer) :
    (a.drainRevalidations answers).adapters = a.adapters := by
  have hloop : ∀ (l : List (Sigma fun _ : PoolInstanceId × DiscoveryOwnerId => TokenEdgeDiscoveryRequest))
      (b : AmmRuntimeActor),
      (revalidationLoop l b answers).adapters = b.adapters := by
    intro l
    induction l with
    | nil => exact fun b => rfl
    | cons head rest ih =>
      intro b
      obtain ⟨⟨pool, owner⟩, request⟩ := head
      have hqueued := b.queueDiscovery_adapters owner request
        (AmmDiscoveryOptions.default.withClass .repair) (answers rest.length)
      unfold revalidationLoop
      split_ifs
      · exact ih _
      · rfl
      · split
        · next c heq =>
          rw [heq] at hqueued
          exact (ih _).trans ((c.setRevalidatePool_adapters _ pool).trans hqueued)
        · next heq =>
          rw [heq] at hqueued
          exact hqueued
        · next heq =>
          rw [heq] at hqueued
          exact hqueued
  unfold drainRevalidations
  split_ifs
  · exact hloop _ a
  · rfl

theorem takeActions_adapters (dropped : List B256)
    (actions : List (PoolInstanceId × RegistrationReorgAction × Option Revalidations)) :
    (takeActions dropped actions a).1.adapters = a.adapters := by
  induction actions generalizing a with
  | nil => rfl
  | cons head rest ih =>
    obtain ⟨pool, action, requests⟩ := head
    unfold takeActions
    split_ifs
    · exact ih a
    · split
      · rfl
      · refine (ih _).trans ?_
        unfold revalidatePool
        dsimp only
        split
        · rfl
        · split <;> rfl
      · exact ih a.markUntrusted
      · exact ih a

variable {a} in
theorem finishIngest_changes (reorg : Reorg) (numbered : Nat) (answers : Answers)
    (hpending : allow a (.reconcilePending reorg.droppedHashes))
    (hrelease : ∀ b work scheduled, crossing reorg.droppedHashes scheduled.evidence = none →
    allow b (.release work scheduled))
    (hregistered : ∀ b, allow b (.reconcileRegistered reorg.droppedHashes))
    (hretain : ∀ b, ∀ candidate ∈ reorg.candidates, allow b (.retain candidate))
    (hdrop : ∀ b candidate rest n, b.adapters = a.adapters → allow b (.drop candidate rest (answers.candidates n))) :
    Changes allow a (a.finishIngest reorg numbered answers) := by
  have hreconciled := reconcile_changes reorg.droppedHashes numbered hpending hrelease hregistered
  have hadapters := a.reconcile_adapters reorg.droppedHashes numbered
  unfold finishIngest
  split
  · next heq =>
    rw [heq] at hreconciled
    exact hreconciled
  · next b heq =>
    rw [heq] at hreconciled hadapters
    obtain ⟨hretained, hkept⟩ := (b.drainRevalidations answers.revalidations).foldl_retain_changes reorg.candidates hretain
    refine hreconciled.trans ((b.drainRevalidations_changes _).trans
      (hretained.trans (drainFactoryCandidates_changes _ _ ?_)))
    exact fun c candidate rest n hserves _ => hdrop c candidate rest n
      (hserves.adapters.trans (hkept.trans ((b.drainRevalidations_adapters _).trans hadapters)))

end AmmRuntimeActor

/-! ### The machine -/

/-- The actor takes a batch of its chain that leads on from its point. -/
def AmmRuntimeActor.accepts (a : AmmRuntimeActor) (batch : AmmCanonicalBatch) : Bool :=
  a.trusted && batch.chainId = a.point.chainId &&
    !(batch.blockNumber = a.point.blockNumber && batch.blockHash = a.point.blockHash)

namespace Machine
open AmmRuntimeActor
variable {allow : AmmRuntimeActor → Change → Prop} {a : AmmRuntimeActor}

/-- A completion leaves the actor as it is, whether or not it waits. -/
theorem handle_commitScheduledDiscovery (a : AmmRuntimeActor) (work : RuntimeWorkId) (owner : DiscoveryOwnerId)
    (report : TokenEdgeDiscoveryReport) (numbered : Bool) (answers : Answers) :
    (handle a (.commitScheduledDiscovery work owner report numbered answers)).actor =
      (a.commitScheduledDiscovery work owner report numbered answers).1 := by
  simp only [handle]
  split
  · next heq => rw [heq]
  · next heq => rw [heq]

theorem handle_commitScheduledPool (a : AmmRuntimeActor) (work : RuntimeWorkId) (pool : PoolInstanceId)
    (registration : PoolRegistration) (baseline : AmmStatePoint) :
    (handle a (.commitScheduledPool work pool registration baseline)).actor = a := by
  simp only [handle]
  split <;> rfl

theorem attachColdStartWorker_changes (answers : Answers)
    (hdrop : ∀ b candidate rest n, b.adapters = a.adapters → allow b (.drop candidate rest (answers.candidates n))) :
    Changes allow a (attachColdStartWorker a answers) := by
  unfold attachColdStartWorker
  split_ifs
  · exact .refl a
  · have hattached : Changes allow a { a with coldStartWorker := true } :=
      .aside ⟨rfl, rfl, rfl, rfl, rfl, rfl, rfl, le_rfl, fun _ => rfl, Aside.discovered rfl, fun _ h => h, id, rfl, id⟩
    have hdrained := drainFactoryCandidates_changes { a with coldStartWorker := true } answers.candidates
      fun b candidate rest n hserves _ => hdrop b candidate rest n hserves.adapters
    exact hattached.trans (hdrained.trans (drainRevalidations_changes _ _))

theorem proceed_changes (reorg : Reorg) (numbered : Nat) (answers : Answers) (waiting : List Suspended)
    (hrevise : ∀ b pool set retained, b.registrationEvidence.get pool = some set →
      set.retain (fun item => item.isQuery || item.offBlocks reorg.droppedHashes) = some retained →
        allow b (.revise pool retained))
    (hpending : ∀ b, takeActions reorg.droppedHashes reorg.actions a = (b, none) →
      allow b (.reconcilePending reorg.droppedHashes))
    (hrelease : ∀ b work scheduled, crossing reorg.droppedHashes scheduled.evidence = none →
      allow b (.release work scheduled))
    (hregistered : ∀ b, allow b (.reconcileRegistered reorg.droppedHashes))
    (hretain : ∀ b, ∀ candidate ∈ reorg.candidates, allow b (.retain candidate))
    (hdrop : ∀ b candidate rest n, b.adapters = a.adapters → allow b (.drop candidate rest (answers.candidates n))) :
    Changes allow a (proceed a reorg numbered answers waiting).actor := by
  have htaken := a.takeActions_changes reorg.droppedHashes reorg.actions hrevise
  have hadapters := a.takeActions_adapters reorg.droppedHashes reorg.actions
  unfold proceed
  split
  · next b heq =>
    rw [heq] at htaken hadapters
    exact htaken.trans (finishIngest_changes reorg numbered answers (hpending b heq) hrelease hregistered hretain
      fun c candidate rest n hc => hdrop c candidate rest n (hc.trans hadapters))
  · next heq =>
    rw [heq] at htaken
    exact htaken

/-- The point of a batch, and what its reorg asks for. -/
def published (a : AmmRuntimeActor) (batch : AmmCanonicalBatch) : AmmRuntimeActor :=
  { a with point := ⟨batch.chainId, batch.blockNumber, batch.blockHash⟩ }

def reorgOf (a : AmmRuntimeActor) (batch : AmmCanonicalBatch) : Reorg :=
  ⟨a.reorgActions batch.droppedHashes, batch.droppedHashes, a.factoryCandidates batch.creations⟩

theorem published_changes (batch : AmmCanonicalBatch)
    (hpublish : allow a (.publish ⟨batch.chainId, batch.blockNumber, batch.blockHash⟩)) :
    Changes allow a (published a batch) := .allowed (.publish _) trivial hpublish

/-- A batch is refused, breaks the actor, or is published. -/
theorem ingest_cases (m : Machine) (batch : AmmCanonicalBatch) (answer : IngestAnswer)
    (numbered : Nat) (answers : Answers) : m.ingest batch answer numbered answers = m ∨
      m.ingest batch answer numbered answers = ⟨m.actor.markUntrusted, m.suspended⟩ ∨
      m.actor.accepts batch = true ∧ answer = .publishes ∧ m.ingest batch answer numbered answers =
        proceed (published m.actor batch) (reorgOf m.actor batch) numbered answers m.suspended := by
  unfold ingest
  dsimp only
  split_ifs with hrefused
  · exact .inl rfl
  · cases answer with
    | refuses => exact .inl rfl
    | breaks => exact .inr (.inl rfl)
    | publishes =>
      refine .inr (.inr ⟨?_, rfl, rfl⟩)
      simpa [accepts, imp_iff_not_or] using hrefused

theorem ingest_changes {m : Machine} {batch : AmmCanonicalBatch} {answer : IngestAnswer}
    {numbered : Nat} {answers : Answers} (h : m.actor.accepts batch = true → answer = .publishes →
    Changes allow m.actor (proceed (published m.actor batch) (reorgOf m.actor batch) numbered
    answers m.suspended).actor) :
    Changes allow m.actor (m.ingest batch answer numbered answers).actor := by
  rcases m.ingest_cases batch answer numbered answers with heq | heq | ⟨haccepts, hpublishes, heq⟩
  · rw [heq]
    exact .refl _
  · rw [heq]
    exact m.actor.markUntrusted_changes
  · rw [heq]
    exact h haccepts hpublishes

theorem ingest_of_accepts {m : Machine} {batch : AmmCanonicalBatch}
    (haccepts : m.actor.accepts batch = true) (numbered : Nat) (answers : Answers) :
    m.ingest batch .publishes numbered answers =
      proceed (published m.actor batch) (reorgOf m.actor batch) numbered answers m.suspended := by
  refine if_neg ?_
  simpa [accepts, imp_iff_not_or] using haccepts

/-- An ingest at the fence of a removal goes on once the removal has gone through. -/
theorem resume_reorg {m : Machine} {pool : PoolInstanceId} {rest : Reorg} {waiting : List Suspended}
    (h : m.suspended = .reorg pool rest :: waiting) (install : InstallAnswer) (removal : RemovalAnswer)
    (numbered : Nat) (answers : Answers) :
    m.resume install removal numbered answers = match m.actor.removePoolSerialized pool removal with
      | (true, a) => proceed a rest numbered answers waiting
      | (false, a) => ⟨a, waiting⟩ := by
  obtain ⟨actor, suspended⟩ := m
  cases h
  rfl

theorem resume_reorg_changes {m : Machine} {pool : PoolInstanceId} {rest : Reorg} {waiting : List Suspended}
    {removal : RemovalAnswer} (h : m.suspended = .reorg pool rest :: waiting) (install : InstallAnswer)
    (numbered : Nat) (answers : Answers) (hremove : m.actor.isActivePool pool = true → removal = .removes →
    allow m.actor (.dropPool pool))
    (hdistrusted : ∀ pool, allow m.actor.markUntrusted (.dropPool pool))
    (hproceed : ∀ b, m.actor.removePoolSerialized pool removal = (true, b) →
      Changes allow b (proceed b rest numbered answers waiting).actor) :
    Changes allow m.actor (m.resume install removal numbered answers).actor := by
  have hremoved := removePoolSerialized_changes pool removal hremove (hdistrusted pool)
  rw [resume_reorg h]
  split
  · next b heq =>
    rw [heq] at hremoved
    exact hremoved.trans (hproceed b heq)
  · next heq =>
    rw [heq] at hremoved
    exact hremoved

theorem resume_changes (m : Machine) (install : InstallAnswer) (removal : RemovalAnswer)
    (numbered : Nat) (answers : Answers) (hheld : ∀ work copy baseline waiting,
    m.suspended = .install work copy baseline :: waiting →
      m.actor.reservations.get copy.reservation.key = some copy.reservation →
      ∃ current, m.actor.scheduledWork.get work = some current ∧ current.reservation = copy.reservation)
    (hactivate : ∀ work copy baseline waiting b, m.suspended = .install work copy baseline :: waiting →
      b.pendingFactoryCandidates = m.actor.pendingFactoryCandidates → baseline = m.actor.point → install = .installs false →
      allow b (.activate copy.reservation))
    (hinstall : ∀ work copy baseline waiting, m.suspended = .install work copy baseline :: waiting →
      baseline = m.actor.point →
      install = .installs true → allow m.actor (.install work copy))
    (hremove : ∀ pool frame waiting, m.suspended = frame :: waiting → frame = .revalidation pool ∨
      (∃ rest, frame = .reorg pool rest) →
      m.actor.isActivePool pool = true → removal = .removes → allow m.actor (.dropPool pool))
    (hdistrusted : ∀ pool, allow m.actor.markUntrusted (.dropPool pool))
    (hproceed : ∀ pool rest waiting b, m.suspended = .reorg pool rest :: waiting →
      m.actor.removePoolSerialized pool removal = (true, b) →
      Changes allow b (proceed b rest numbered answers waiting).actor) :
    Changes allow m.actor (m.resume install removal numbered answers).actor := by
  unfold resume
  split
  · exact .refl _
  · next work copy baseline waiting hframe =>
    exact finishInstall_changes work copy baseline install (hheld work copy baseline waiting hframe)
      (fun b hb => hactivate work copy baseline waiting b hframe hb) (hinstall work copy baseline waiting hframe)
  · next pool waiting hframe =>
    have hremoved := removePoolSerialized_changes (a := m.actor) pool removal
      (fun hactive hremoves => hremove pool _ waiting hframe (.inl rfl) hactive hremoves) (hdistrusted pool)
    split
    · next heq =>
      rw [heq] at hremoved
      exact hremoved.trans (drainRevalidations_changes _ _)
    · next heq =>
      rw [heq] at hremoved
      exact hremoved
  · next pool rest waiting hframe =>
    have hresumed := resume_reorg_changes hframe install numbered answers
      (fun hactive hremoves => hremove pool _ waiting hframe (.inr ⟨rest, rfl⟩) hactive hremoves) hdistrusted
      (fun b heq => hproceed pool rest waiting b hframe heq)
    rwa [resume_reorg hframe] at hresumed

end Machine

end AmmState.Provenance
