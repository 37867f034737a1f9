import AmmState.Theorems.Provenance.Bound
import AmmState.Theorems.Provenance.Carried

/-! The supporters of scheduled work are the owners that its evidence names, in every run that keeps them together: a retry
    stands for one supporter, a watcher is not removed from under evidence that does not need it, and no reorg leaves a
    candidate with the evidence of others alone. -/

namespace AmmState.Provenance

/-- The candidate has evidence of its own owner and of no other. -/
def AmmFactoryCandidate.Own (candidate : AmmFactoryCandidate) : Prop :=
  ∀ owner, candidate.evidence.containsOwner owner = true ↔ owner = candidate.owner

/-- The supporters of the work are the owners of its evidence. -/
def AmmScheduledPoolWork.Supported (s : AmmScheduledPoolWork) : Prop :=
  ∀ owner, owner ∈ s.supportingDiscovery ↔ s.evidence.containsOwner owner = true

/-- A reorg leaves some evidence of the candidate, and none of its own watcher. -/
def AmmFactoryCandidate.Stranded (dropped : List B256) (candidate : AmmFactoryCandidate) : Prop :=
  (∃ item ∈ candidate.evidence.evidence, item.offBlocks dropped = true) ∧
    ∀ item ∈ candidate.evidence.evidence, item.offBlocks dropped = true → item.source ≠ some candidate.owner

/-- Supporters and evidence agree, on scheduled work and on the candidates that wait. -/
structure Consistent (a : AmmRuntimeActor) : Prop where
  work : ∀ work s, a.scheduledWork.get work = some s → s.Supported
  pending : ∀ candidate ∈ a.pendingFactoryCandidates, candidate.Own

/-- The changes that keep supporters and evidence together. -/
def Agrees (a : AmmRuntimeActor) : Change → Prop
  | .retain candidate => candidate.Own
  | .reconcilePending dropped => ∀ candidate ∈ a.pendingFactoryCandidates, ¬candidate.Stranded dropped
  | _ => True

/-! ### Changes -/

theorem AmmFactoryCandidate.Own.merge {candidate waiting : AmmFactoryCandidate} (h : waiting.Own) (hc : candidate.Own)
    (howner : waiting.owner = candidate.owner) (revalidate : Option TokenEdgeDiscoveryRequest) :
    AmmFactoryCandidate.Own { waiting with evidence := waiting.evidence.merge candidate.evidence, revalidate } := by
  intro owner
  rw [RegistrationEvidenceSet.containsOwner_merge, h owner, hc owner, howner, or_self]

theorem mergeCandidate_own {candidate : AmmFactoryCandidate} (hc : candidate.Own) {pending : List AmmFactoryCandidate}
    (h : ∀ waiting ∈ pending, waiting.Own) : ∀ waiting ∈ AmmRuntimeActor.mergeCandidate candidate pending, waiting.Own := by
  induction pending with
  | nil => exact h
  | cons head rest ih =>
    rw [List.forall_mem_cons] at h
    unfold AmmRuntimeActor.mergeCandidate
    split_ifs with hsame
    · rw [List.forall_mem_cons]
      unfold AmmFactoryCandidate.sameAs at hsame
      rw [Bool.and_eq_true, decide_eq_true_iff, decide_eq_true_iff] at hsame
      exact ⟨h.1.merge hc hsame.1 _, h.2⟩
    · rw [List.forall_mem_cons]
      exact ⟨h.1, ih h.2⟩

theorem AmmScheduledPoolWork.Supported.support {s : AmmScheduledPoolWork} (h : s.Supported)
    {candidate : AmmFactoryCandidate} (hc : candidate.Own) : (s.support candidate).Supported := by
  intro owner
  unfold AmmScheduledPoolWork.support
  dsimp only
  rw [Finset.mem_insert, RegistrationEvidenceSet.containsOwner_merge, h owner, hc owner, or_comm]

theorem queuedWork_supported (pool : PoolInstanceId) (registration : PoolRegistration) (adapter : AdapterInstanceId)
    (cls : AmmWorkClass) : (queuedWork pool registration adapter cls).Supported := by
  intro owner
  refine iff_of_false (Finset.notMem_empty owner) fun h => ?_
  cases RegistrationEvidenceSet.containsOwner_one.mp h

theorem adopt_supported (pool : PoolInstanceId) (registration : PoolRegistration)
    (adapter : AdapterInstanceId) (cls : AmmWorkClass) {candidate : AmmFactoryCandidate} (hc : candidate.Own) :
    ((queuedWork pool registration adapter cls).adopt candidate).Supported := by
  intro owner
  unfold AmmScheduledPoolWork.adopt queuedWork
  dsimp only
  rw [Finset.mem_insert, hc owner]
  simp only [Finset.notMem_empty, or_false]

theorem AmmScheduledPoolWork.Supported.withoutOwner {s : AmmScheduledPoolWork} (h : s.Supported) {owner : DiscoveryOwnerId}
    (hothers : s.supportingDiscovery ≠ {owner}) : (s.withoutOwner owner).Supported := by
  unfold AmmScheduledPoolWork.withoutOwner
  by_cases hsupports : owner ∉ s.supportingDiscovery
  · rw [if_pos hsupports]
    exact h
  · rw [if_neg hsupports]
    rw [not_not] at hsupports
    intro other
    dsimp only
    cases hretained : s.evidence.withoutOwner owner with
    | none =>
      rw [RegistrationEvidenceSet.withoutOwner_eq_none] at hretained
      refine absurd (Finset.eq_singleton_iff_unique_mem.mpr ⟨hsupports, fun supporter hsupporter => ?_⟩) hothers
      obtain ⟨item, hitem, hsource⟩ := RegistrationEvidenceSet.containsOwner_iff.mp ((h supporter).mp hsupporter)
      exact Option.some.inj (hsource.symm.trans (hretained item hitem))
    | some retained =>
      rw [Option.getD_some, Finset.mem_erase, h other, RegistrationEvidenceSet.containsOwner_iff,
        RegistrationEvidenceSet.containsOwner_iff]
      constructor
      · rintro ⟨hne, item, hitem, hsource⟩
        refine ⟨item, (RegistrationEvidenceSet.mem_withoutOwner hretained).mpr ⟨hitem, fun heq => hne ?_⟩, hsource⟩
        exact Option.some.inj (hsource.symm.trans heq)
      · rintro ⟨item, hitem, hsource⟩
        obtain ⟨hitem, hne⟩ := (RegistrationEvidenceSet.mem_withoutOwner hretained).mp hitem
        exact ⟨fun heq => hne (heq ▸ hsource), item, hitem, hsource⟩

theorem AmmScheduledPoolWork.Supported.cross {s : AmmScheduledPoolWork} (h : s.Supported) (dropped : List B256) :
    (s.cross dropped).Supported := by
  unfold AmmScheduledPoolWork.cross
  cases hcrossing : crossing dropped s.evidence with
  | none => exact h
  | some evidence =>
    intro owner
    unfold AmmScheduledPoolWork.reconcile
    dsimp only
    rw [Finset.mem_filter, h owner]
    refine and_iff_right_of_imp fun hcontains => ?_
    obtain ⟨item, hitem, hsource⟩ := RegistrationEvidenceSet.containsOwner_iff.mp hcontains
    exact RegistrationEvidenceSet.containsOwner_iff.mpr ⟨item, ((mem_crossing hcrossing).mp hitem).1, hsource⟩

theorem AmmFactoryCandidate.Own.reconcile {candidate kept : AmmFactoryCandidate} {dropped : List B256} (h : candidate.Own)
    (hstranded : ¬candidate.Stranded dropped) (hkept : reconcileCandidate dropped candidate = some kept) : kept.Own := by
  rw [reconcileCandidate_eq, Option.map_eq_some_iff] at hkept
  obtain ⟨evidence, hcrossing, rfl⟩ := hkept
  intro owner
  rw [RegistrationEvidenceSet.containsOwner_iff]
  constructor
  · rintro ⟨item, hitem, hsource⟩
    exact (h owner).mp (RegistrationEvidenceSet.containsOwner_iff.mpr
      ⟨item, ((mem_crossing hcrossing).mp hitem).1, hsource⟩)
  · rintro rfl
    by_contra hnone
    refine hstranded ⟨exists_offBlocks_of_crossing hcrossing, fun item hitem hoff hsource => hnone ?_⟩
    exact ⟨item, (mem_crossing hcrossing).mpr ⟨hitem, hoff⟩, hsource⟩

theorem Consistent.modifyWork {a : AmmRuntimeActor} (h : Consistent a) (work : RuntimeWorkId)
    {f : AmmScheduledPoolWork → AmmScheduledPoolWork} (hf : ∀ s, s.Supported → (f s).Supported) :
    Consistent (a.modifyWork work f) := by
  unfold AmmRuntimeActor.modifyWork
  split
  · next found hfound =>
    refine ⟨fun other s hs => ?_, h.pending⟩
    dsimp only at hs
    rw [Table.get_set] at hs
    split_ifs at hs
    · obtain rfl := Option.some.inj hs
      exact hf found (h.work work found hfound)
    · exact h.work other s hs
  · exact h

/-- Every change but two kinds keeps supporters and evidence together. -/
theorem Consistent.change {a : AmmRuntimeActor} (h : Consistent a) {change : Change} (hfits : change.Fits a)
    (hagrees : change.Harmless ∨ Agrees a change) : Consistent (change.apply a) := by
  cases change with
  | aside b =>
    exact ⟨fun work s hs => h.work work s (hfits.work ▸ hs), fun candidate hc => h.pending candidate (hfits.pending ▸ hc)⟩
  | retain candidate =>
    refine ⟨h.work, ?_⟩
    have hown := hagrees.resolve_left id
    unfold Change.apply
    dsimp only
    split_ifs
    · exact mergeCandidate_own hown h.pending
    · intro waiting hmem
      rcases List.mem_append.mp hmem with hold | hnew
      · exact h.pending waiting hold
      · rw [List.mem_singleton.mp hnew]
        exact hown
  | join candidate rest work =>
    have hpending := h.pending
    rw [hfits.1, List.forall_mem_cons] at hpending
    have hpopped : Consistent { a with pendingFactoryCandidates := rest } := ⟨h.work, hpending.2⟩
    exact hpopped.modifyWork work fun s hs => hs.support hpending.1
  | drop candidate rest answer =>
    have hpending := h.pending
    rw [hfits.1, List.forall_mem_cons] at hpending
    exact ⟨h.work, hpending.2⟩
  | burn key =>
    rw [Change.apply, AmmRuntimeActor.burn_eq]
    exact ⟨h.work, h.pending⟩
  | strand key => exact ⟨h.work, h.pending⟩
  | queue registration adapter cls =>
    refine ⟨fun work s hs => ?_, h.pending⟩
    rw [Change.apply, AmmRuntimeActor.enqueue_get] at hs
    split_ifs at hs
    · obtain rfl := Option.some.inj hs
      exact queuedWork_supported _ _ _ _
    · exact h.work work s hs
  | adopt candidate rest adapter =>
    have hpending := h.pending
    rw [hfits.1, List.forall_mem_cons] at hpending
    refine ⟨fun work s hs => ?_, ?_⟩
    · rw [Change.adopt_get] at hs
      split_ifs at hs
      · obtain rfl := Option.some.inj hs
        exact adopt_supported _ _ _ _ hpending.1
      · exact h.work work s hs
    · rw [Change.adopt_apply]
      exact hpending.2
  | release work s =>
    refine ⟨fun other t ht => ?_, ?_⟩
    · rw [Change.apply, AmmRuntimeActor.release_get] at ht
      split_ifs at ht
      exact h.work other t ht
    · unfold Change.apply AmmRuntimeActor.release AmmRuntimeActor.cancelPoolReservation
      dsimp only
      split_ifs <;> exact h.pending
  | install work copy =>
    refine ⟨fun other t ht => ?_, h.pending⟩
    have ht : (a.scheduledWork.remove work).get other = some t := ht
    rw [Table.get_remove] at ht
    split_ifs at ht
    exact h.work other t ht
  | dropOwner owner => exact ⟨h.work, fun candidate hc => h.pending candidate (List.mem_of_mem_filter hc)⟩
  | withdraw owner =>
    refine ⟨fun work s hs => ?_, h.pending⟩
    have hs : (a.scheduledWork.map fun _ s => s.withoutOwner owner).get work = some s := hs
    rw [Table.get_map, Option.map_eq_some_iff] at hs
    obtain ⟨t, ht, rfl⟩ := hs
    exact (h.work work t ht).withoutOwner (hfits work t ht)
  | reconcilePending dropped =>
    refine ⟨fun work s hs => ?_, fun kept hkept => ?_⟩
    · have hs : (a.scheduledWork.map fun _ s => s.cross dropped).get work = some s := hs
      rw [Table.get_map, Option.map_eq_some_iff] at hs
      obtain ⟨t, ht, rfl⟩ := hs
      exact (h.work work t ht).cross dropped
    · obtain ⟨candidate, hc, hkept⟩ := List.mem_filterMap.mp hkept
      exact (h.pending candidate hc).reconcile (hagrees.resolve_left id candidate hc) hkept
  | support key pool evidence | unreserve pool | activate pool | prepare registration | regenerate generations
  | force active generations
  | dropPool pool | revise pool evidence | reconcileRegistered dropped | publish point => exact ⟨h.work, h.pending⟩

/-! ### Runs -/

/-- If the ingest goes on to its end from here, its reorg strands no candidate. -/
def KeepsOwners (a : AmmRuntimeActor) (reorg : Reorg) : Prop :=
  (AmmRuntimeActor.takeActions reorg.droppedHashes reorg.actions a).2 = none →
    ∀ candidate ∈ a.pendingFactoryCandidates, ¬candidate.Stranded reorg.droppedHashes

/-- A removal of the watcher passes every check. -/
def AmmRuntimeActor.Removable (a : AmmRuntimeActor) (owner : DiscoveryOwnerId) (accepted : Bool) : Prop :=
  accepted = true ∧ a.trusted = true ∧ a.isActiveDiscovery owner = true ∧ a.ownerInUse owner = false ∧
    a.factoryWatchers.contains owner = true

/-- The event keeps supporters and evidence together: a retry stands for all supporters of its work, the work and the
    candidates that go with a watcher have no other evidence, and a reorg strands no candidate. -/
def KeepsSupport (m : Machine) : Event → Prop
  | .command (.failScheduledWork work stale numbered _ _) => m.suspended = [] → stale = true → numbered = true →
      ∀ s candidate, m.actor.scheduledWork.get work = some s → m.actor.retryCandidate s = some candidate →
        s.supportingDiscovery ⊆ {candidate.owner}
  | .command (.removeFactoryWatcher owner accepted) => m.suspended = [] → m.actor.Removable owner accepted →
      (∀ work s, m.actor.scheduledWork.get work = some s → s.supportingDiscovery = {owner} →
        ∀ item ∈ s.evidence.evidence, item.source = some owner) ∧
      ∀ candidate ∈ m.actor.pendingFactoryCandidates, candidate.owner = owner →
        ∀ item ∈ candidate.evidence.evidence, item.source = some owner
  | .ingest batch answer _ _ => m.actor.accepts batch = true → answer = .publishes →
      KeepsOwners (Machine.published m.actor batch) (Machine.reorgOf m.actor batch)
  | .resume _ removal _ _ => ∀ pool rest waiting b, m.suspended = .reorg pool rest :: waiting →
      m.actor.removePoolSerialized pool removal = (true, b) → KeepsOwners b rest
  | _ => True

/-- All events of a run keep supporters and evidence together. -/
def RunKeepsSupport : Machine → List Event → Prop
  | _, [] => True
  | m, event :: events => KeepsSupport m event ∧ RunKeepsSupport (m.step event) events

/-- Supporters and evidence agree, also on the candidates of ingests that wait. -/
structure Supports (m : Machine) : Prop where
  consistent : Consistent m.actor
  waiting : ∀ pool rest, Suspended.reorg pool rest ∈ m.suspended → ∀ candidate ∈ rest.candidates, candidate.Own

theorem own_of_one {owner : DiscoveryOwnerId} {registration : PoolRegistration} {item : RegistrationProvenance}
    (h : item.source = some owner) (revalidate : Option TokenEdgeDiscoveryRequest) :
    AmmFactoryCandidate.Own ⟨owner, registration, .one item, revalidate⟩ := by
  intro other
  rw [RegistrationEvidenceSet.containsOwner_one, h, Option.some.injEq, eq_comm]

/-- The candidate of a creation log, which is its evidence. -/
def Creation.candidate (creation : Creation) (chainId : Nat) : AmmFactoryCandidate :=
  ⟨creation.owner, creation.discovered.registration, .one (.factoryLog creation.owner creation.factory chainId
    creation.blockNumber creation.blockHash creation.transactionHash creation.logIndex), none⟩

theorem AmmRuntimeActor.mem_factoryCandidates (a : AmmRuntimeActor) {creations all : List Creation}
    (hall : creations ⊆ all) :
    ∀ candidate ∈ a.factoryCandidates creations, ∃ creation ∈ all, candidate = creation.candidate a.point.chainId := by
  unfold AmmRuntimeActor.factoryCandidates
  generalize hstart : (([], []) : List (DiscoveryOwnerId × PoolKey) × List AmmFactoryCandidate) = acc
  have hacc : ∀ candidate ∈ acc.2, ∃ creation ∈ all, candidate = creation.candidate a.point.chainId := by
    rw [← hstart]
    exact fun _ h => absurd h List.not_mem_nil
  clear hstart
  induction creations generalizing acc with
  | nil => exact hacc
  | cons creation rest ih =>
    rw [List.cons_subset] at hall
    rw [List.foldl_cons]
    refine ih hall.2 _ ?_
    split
    · exact hacc
    · dsimp only
      split_ifs
      · intro candidate hmem
        rcases List.mem_append.mp hmem with hold | hnew
        · exact hacc candidate hold
        · exact ⟨creation, hall.1, List.mem_singleton.mp hnew⟩
      · exact hacc

theorem AmmRuntimeActor.factoryCandidates_own (a : AmmRuntimeActor) (creations : List Creation) :
    ∀ candidate ∈ a.factoryCandidates creations, candidate.Own := by
  intro candidate hmem
  obtain ⟨creation, -, rfl⟩ := a.mem_factoryCandidates (List.Subset.refl _) candidate hmem
  exact own_of_one rfl none

/-- A retry that stands for every supporter has evidence of its own owner only. -/
theorem AmmRuntimeActor.retryCandidate_own {a : AmmRuntimeActor} {s : AmmScheduledPoolWork}
    {candidate : AmmFactoryCandidate} (hs : s.Supported) (h : a.retryCandidate s = some candidate)
    (hall : s.supportingDiscovery ⊆ {candidate.owner}) : candidate.Own := by
  obtain ⟨owner, hfound, rfl⟩ := Option.map_eq_some_iff.mp h
  have howner : owner ∈ s.supportingDiscovery := SortDedup.mem_sorted.mp (List.mem_of_find?_eq_some hfound)
  intro other
  rw [← hs other]
  exact ⟨fun hother => Finset.mem_singleton.mp (hall hother), fun heq => heq ▸ howner⟩

theorem AmmRuntimeActor.takeActions_pending (dropped : List B256)
    (actions : List (PoolInstanceId × RegistrationReorgAction × Option Revalidations)) (a : AmmRuntimeActor) :
    (takeActions dropped actions a).1.pendingFactoryCandidates = a.pendingFactoryCandidates := by
  induction actions generalizing a with
  | nil => rfl
  | cons head rest ih =>
    obtain ⟨pool, action, requests⟩ := head
    unfold takeActions
    split_ifs
    · exact ih a
    · split
      · rfl
      · refine (ih _).trans ?_
        unfold revalidatePool
        dsimp only
        split
        · rfl
        · split <;> rfl
      · exact ih a.markUntrusted
      · exact ih a

namespace Machine
open AmmRuntimeActor
variable {m : Machine}

theorem proceed_agrees {a : AmmRuntimeActor} {reorg : Reorg} (hcandidates : ∀ candidate ∈ reorg.candidates, candidate.Own)
    (hkeeps : KeepsOwners a reorg) (numbered : Nat) (answers : Answers) (waiting : List Suspended) :
    Changes Agrees a (proceed a reorg numbered answers waiting).actor := by
  refine proceed_changes reorg numbered answers waiting (fun _ _ _ _ _ _ => trivial) (fun b hb => ?_)
    (fun _ _ _ _ => trivial)
    (fun _ => trivial) (fun _ candidate hmem => hcandidates candidate hmem) fun _ _ _ _ _ => trivial
  have hpending := takeActions_pending reorg.droppedHashes reorg.actions a
  rw [hb] at hpending
  intro candidate hmem
  exact hkeeps (congrArg Prod.snd hb) candidate (hpending ▸ hmem)

theorem handle_agrees {a : AmmRuntimeActor} (hfiled : Filed a) (h : Consistent a) (command : Command)
    (hkeeps : KeepsSupport ⟨a, []⟩ (.command command)) : Changes Agrees a (handle a command).actor := by
  refine handle_changes hfiled command (fun b change hcommanded => ?_) (fun _ _ _ _ _ _ _ _ => trivial)
    (fun _ _ _ _ _ _ _ _ _ _ _ => own_of_one rfl _) ?_
  · cases change <;> trivial
  · rintro work numbered answer answers rfl hnumbered s candidate b hs hretry
    exact retryCandidate_own (h.work work s hs) hretry (hkeeps rfl rfl hnumbered s candidate hs hretry)

theorem step_agrees (horder : InOrder m) (h : Supports m) (event : Event) (hkeeps : KeepsSupport m event) :
    Changes Agrees m.actor (m.step event).actor := by
  cases event with
  | command command =>
    obtain ⟨a, suspended⟩ := m
    cases suspended with
    | nil => exact handle_agrees horder.filed h.consistent command hkeeps
    | cons frame waiting => exact .refl a
  | ingest batch answer numbered answers =>
    rw [step]
    rcases m.ingest_cases batch answer numbered answers with heq | heq | ⟨haccepts, hpublishes, heq⟩
    · rw [heq]
      exact .refl _
    · rw [heq]
      exact m.actor.markUntrusted_changes
    · rw [heq]
      exact (published_changes batch trivial).trans (proceed_agrees (m.actor.factoryCandidates_own batch.creations)
        (hkeeps haccepts hpublishes) numbered answers m.suspended)
  | resume install removal numbered answers =>
    refine m.resume_changes install removal numbered answers
      (fun work copy baseline waiting hframe => (horder.held work copy baseline (hframe ▸ List.mem_cons_self)).scheduled)
      (fun _ _ _ _ _ _ _ _ _ => trivial) (fun _ _ _ _ _ _ _ => trivial) (fun _ _ _ _ _ _ _ => trivial) (fun _ => trivial)
      fun pool rest waiting b hframe hremoved => ?_
    exact proceed_agrees (h.waiting pool rest (hframe ▸ List.mem_cons_self))
      (hkeeps pool rest waiting b hframe hremoved) _ _ _

/-- An ingest that waits holds the candidates of its batch. -/
theorem step_reorgs (m : Machine) (event : Event) {pool : PoolInstanceId} {rest : Reorg}
    (h : Suspended.reorg pool rest ∈ (m.step event).suspended) :
    (∃ pool' actions, Suspended.reorg pool' { rest with actions } ∈ m.suspended) ∨
      ∃ batch answer numbered answers, event = .ingest batch answer numbered answers ∧
        rest.candidates = m.actor.factoryCandidates batch.creations := by
  have hproceed : ∀ {a reorg numbered answers waiting},
      Suspended.reorg pool rest ∈ (proceed a reorg numbered answers waiting).suspended →
      Suspended.reorg pool rest ∈ waiting ∨ ∃ actions, rest = { reorg with actions } := by
    intro a reorg numbered answers waiting hmem
    rcases proceed_suspended a reorg numbered answers waiting with heq | ⟨pool, actions, heq⟩
    · exact .inl (heq ▸ hmem)
    · rw [heq] at hmem
      rcases List.mem_cons.mp hmem with hnew | hold
      · cases hnew
        exact .inr ⟨actions, rfl⟩
      · exact .inl hold
  have hold : Suspended.reorg pool rest ∈ m.suspended →
      ∃ pool' actions, Suspended.reorg pool' { rest with actions } ∈ m.suspended :=
    fun hmem => ⟨pool, rest.actions, hmem⟩
  cases event with
  | command command =>
    obtain ⟨a, suspended⟩ := m
    cases suspended with
    | cons frame waiting => exact .inl (hold h)
    | nil =>
      have hidle : ∀ {b : AmmRuntimeActor}, Suspended.reorg pool rest ∉ (⟨b, []⟩ : Machine).suspended := List.not_mem_nil
      cases command with
      | commitScheduledDiscovery work owner report numbered answers =>
        simp only [step, handle, List.isEmpty_nil, if_true] at h
        split at h
        · exact absurd h hidle
        · cases List.mem_singleton.mp h
      | commitScheduledPool work pool registration baseline =>
        simp only [step, handle, List.isEmpty_nil, if_true] at h
        split at h
        · exact absurd h hidle
        · cases List.mem_singleton.mp h
      | attachColdStartWorker | addFactoryWatcher | removeFactoryWatcher | queueColdStart | queueDiscovery
      | installPreparedPools | failScheduledWork | cancelScheduledWork | removePool | addAdapter | removeAdapter
      | removeAdapterCascade | distrust =>
        exact absurd h hidle
  | ingest batch answer numbered answers =>
    rw [step] at h
    rcases m.ingest_cases batch answer numbered answers with heq | heq | ⟨-, -, heq⟩
    · exact .inl (hold (heq ▸ h))
    · exact .inl (hold (by rwa [heq] at h))
    · rw [heq] at h
      rcases hproceed h with hwaiting | ⟨actions, rfl⟩
      · exact .inl (hold hwaiting)
      · exact .inr ⟨batch, answer, numbered, answers, rfl, rfl⟩
  | resume install removal numbered answers =>
    rw [step] at h
    unfold resume at h
    split at h
    · exact .inl (hold h)
    · next hframe => exact .inl (hold (hframe ▸ List.mem_cons_of_mem _ h))
    · next hframe =>
      split at h <;> exact .inl (hold (hframe ▸ List.mem_cons_of_mem _ h))
    · next removed reorg waiting hframe =>
      split at h
      · rcases hproceed h with hwaiting | ⟨actions, rfl⟩
        · exact .inl (hold (hframe ▸ List.mem_cons_of_mem _ hwaiting))
        · exact .inl ⟨removed, reorg.actions, hframe ▸ List.mem_cons_self⟩
      · exact .inl (hold (hframe ▸ List.mem_cons_of_mem _ h))

theorem step_supports (horder : InOrder m) (h : Supports m) (event : Event) (hkeeps : KeepsSupport m event) :
    Supports (m.step event) := by
  refine ⟨(step_agrees horder h event hkeeps).keeps (fun _ _ hb hfits hagrees => hb.change hfits hagrees) h.consistent,
    fun pool rest hmem => ?_⟩
  rcases step_reorgs m event hmem with ⟨pool', actions, hold⟩ | ⟨batch, -, -, -, -, hcandidates⟩
  · exact h.waiting pool' { rest with actions } hold
  · rw [hcandidates]
    exact m.actor.factoryCandidates_own batch.creations

theorem run_supports (horder : InOrder m) (h : Supports m) (events : List Event) (hkeeps : RunKeepsSupport m events) :
    Supports (m.run events) := by
  induction events generalizing m with
  | nil => exact h
  | cons event rest ih => exact ih (step_inOrder horder event) (step_supports horder h event hkeeps.1) hkeeps.2

theorem start_supports (point : AmmStatePoint) (adapters : List AdapterInstanceId) (pools : List PoolInstanceId) :
    Supports (start point adapters pools) :=
  ⟨⟨(fun _ _ hs => nomatch Table.get_empty.symm.trans hs), fun _ hmem => absurd hmem List.not_mem_nil⟩,
    fun _ _ hmem => absurd hmem List.not_mem_nil⟩

end Machine

/-! ### Removing a watcher -/

namespace AmmRuntimeActor
variable {a : AmmRuntimeActor}

/-- A removal that fails a check does nothing. -/
theorem removeFactoryWatcher_refused {owner : DiscoveryOwnerId} {accepted : Bool} (hrefused : ¬a.Removable owner accepted) :
    a.removeFactoryWatcher owner accepted = a := by
  unfold removeFactoryWatcher
  refine if_pos ?_
  contrapose! hrefused
  simpa [Removable, and_assoc] using hrefused

/-- A watcher is gone only after a removal that passes every check. -/
theorem removable_of_gone {owner : DiscoveryOwnerId} {accepted : Bool} (hactive : a.isActiveDiscovery owner = true)
    (hgone : (a.removeFactoryWatcher owner accepted).isActiveDiscovery owner = false) : a.Removable owner accepted := by
  by_contra hrefused
  rw [removeFactoryWatcher_refused hrefused] at hgone
  cases hactive.symm.trans hgone

/-- A removal that passes every check cancels the listed work and takes the candidates. -/
theorem removeFactoryWatcher_takes {owner : DiscoveryOwnerId} {accepted : Bool} (hremovable : a.Removable owner accepted) :
    (∀ work, (a.removeFactoryWatcher owner accepted).scheduledWork.get work =
      if work ∈ a.cancelledWork owner ∧ a.coldStartWorker = true then none else (a.scheduledWork.get work).map
        (·.withoutOwner owner)) ∧
      (a.removeFactoryWatcher owner accepted).pendingFactoryCandidates = a.pendingFactoryCandidates.filter
      (·.owner ≠ owner) := by
  obtain ⟨haccepted, htrusted, hactive, hunused, hwatches⟩ := hremovable
  unfold removeFactoryWatcher
  rw [haccepted, htrusted, hactive, hunused, hwatches, if_neg (by decide)]
  refine ⟨fun work => ?_, foldl_detach_pending _ _⟩
  dsimp only
  rw [Table.get_map, foldl_detach_get]
  by_cases hlisted : work ∈ a.cancelledWork owner ∧ a.coldStartWorker = true
  · rw [if_pos hlisted]
    exact congrArg _ (if_pos hlisted)
  · rw [if_neg hlisted]
    exact congrArg _ (if_neg hlisted)

/-- Work that a removal lists is supported by the watcher alone. -/
theorem mem_cancelledWork (hfiled : Filed a) {owner : DiscoveryOwnerId} {work : RuntimeWorkId} {s : AmmScheduledPoolWork}
    (hs : a.scheduledWork.get work = some s) : work ∈ a.cancelledWork owner ↔ s.supportingDiscovery = {owner} := by
  rw [cancelledWork, List.mem_append]
  constructor
  · rintro (hdiscovery | hwork)
    · obtain ⟨scheduled, hscheduled, -⟩ := Table.mem_keysWhere.mp hdiscovery
      cases (hfiled.undiscovered hs).symm.trans hscheduled
    · obtain ⟨t, ht, hsole⟩ := Table.mem_keysWhere.mp hwork
      obtain rfl := Option.some.inj (hs.symm.trans ht)
      exact of_decide_eq_true hsole
  · exact fun hsole => .inr (Table.mem_keysWhere.mpr ⟨s, hs, decide_eq_true hsole⟩)

/-- Where supporters and evidence agree, and work of the watcher alone has no evidence of others, a removal cancels what has
    no evidence but the watcher's. -/
theorem removeFactoryWatcher_cancels (hfiled : Filed a) (h : Consistent a) {owner : DiscoveryOwnerId} {accepted : Bool}
    (hremovable : a.Removable owner accepted)
    {work : RuntimeWorkId} {s : AmmScheduledPoolWork} (hs : a.scheduledWork.get work = some s)
    (hsole : s.supportingDiscovery = {owner} → ∀ item ∈ s.evidence.evidence, item.source = some owner) :
    (a.removeFactoryWatcher owner accepted).scheduledWork.get work = none ↔ s.evidence.withoutOwner owner = none := by
  have hworker : a.coldStartWorker = true := by
    by_contra hdetached
    cases (hfiled.attached (Bool.not_eq_true _ ▸ hdetached) work).symm.trans hs
  rw [(removeFactoryWatcher_takes hremovable).1 work, hs, RegistrationEvidenceSet.withoutOwner_eq_none]
  constructor
  · intro hnone
    by_cases hlisted : work ∈ a.cancelledWork owner ∧ a.coldStartWorker = true
    · exact hsole ((mem_cancelledWork hfiled hs).mp hlisted.1)
    · rw [if_neg hlisted] at hnone
      cases hnone
  · intro hall
    refine if_pos ⟨(mem_cancelledWork hfiled hs).mpr ?_, hworker⟩
    obtain ⟨item, hitem⟩ := s.evidence.nonempty
    refine Finset.eq_singleton_iff_unique_mem.mpr ⟨?_, fun supporter hsupporter => ?_⟩
    · exact (h.work work s hs owner).mpr (RegistrationEvidenceSet.containsOwner_iff.mpr ⟨item, hitem, hall item hitem⟩)
    · obtain ⟨other, hother, hsource⟩ := RegistrationEvidenceSet.containsOwner_iff.mp
        ((h.work work s hs supporter).mp hsupporter)
      exact Option.some.inj (hsource.symm.trans (hall other hother))

/-- A removal takes the candidates that have no evidence but the watcher's. -/
theorem removeFactoryWatcher_drops (h : Consistent a) {owner : DiscoveryOwnerId} {accepted : Bool}
    (hremovable : a.Removable owner accepted)
    {candidate : AmmFactoryCandidate} (hmem : candidate ∈ a.pendingFactoryCandidates)
    (hsole : candidate.owner = owner → ∀ item ∈ candidate.evidence.evidence, item.source = some owner) :
    candidate ∉ (a.removeFactoryWatcher owner accepted).pendingFactoryCandidates ↔
      candidate.evidence.withoutOwner owner = none := by
  rw [(removeFactoryWatcher_takes hremovable).2, RegistrationEvidenceSet.withoutOwner_eq_none,
    List.mem_filter, decide_eq_true_iff,
    not_and, not_not]
  refine ⟨fun hdropped => hsole (hdropped hmem), fun hall _ => ?_⟩
  obtain ⟨item, hitem⟩ := candidate.evidence.nonempty
  exact ((h.pending candidate hmem owner).mp
    (RegistrationEvidenceSet.containsOwner_iff.mpr ⟨item, hitem, hall item hitem⟩)).symm

/-- A retry that goes on as the only supporter keeps the evidence and the supporters of the work recorded. -/
theorem failScheduledWork_carries (hfiled : Filed a) (hentered : a.trusted = true → Entered a) {work : RuntimeWorkId}
    {answer : QueueAnswer} {answers : Answers} {s : AmmScheduledPoolWork} {candidate : AmmFactoryCandidate}
    (hs : a.scheduledWork.get work = some s) (hretry : a.retryCandidate s = some candidate)
    (hall : s.supportingDiscovery ⊆ {candidate.owner}) (hadapter : (a.adapterFor s.registration.protocol).isSome = true)
    (hanswers : ∀ n, answers.candidates n ≠ .fails)
    (htrusted : (a.failScheduledWork work true true answer answers).trusted = true) :
    Carries (a.failScheduledWork work true true answer answers) s.registration.key s.evidence.evidence
      s.supportingDiscovery :=
  (failScheduledWork_retries hfiled hentered hs hretry hadapter hanswers htrusted).mono (Finset.Subset.refl _) hall

end AmmRuntimeActor

/-- In a run that keeps supporters and evidence together they agree on all scheduled work, the removal of a watcher cancels
    what has no evidence but the watcher's, and a retry keeps the evidence and the supporters of its work. -/
theorem support_consistent (point : AmmStatePoint) (adapters : List AdapterInstanceId) (pools : List PoolInstanceId)
    (events : List Event) (hkeeps : RunKeepsSupport (Machine.start point adapters pools) events) :
    let m := (Machine.start point adapters pools).run events
    (∀ work s, m.actor.scheduledWork.get work = some s → s.Supported) ∧
      (∀ owner accepted, KeepsSupport m (.command (.removeFactoryWatcher owner accepted)) →
        m.actor.isActiveDiscovery owner = true →
        (m.step (.command (.removeFactoryWatcher owner accepted))).actor.isActiveDiscovery owner = false →
        (∀ work s, m.actor.scheduledWork.get work = some s →
          ((m.step (.command (.removeFactoryWatcher owner accepted))).actor.scheduledWork.get work = none ↔
            ∀ item ∈ s.evidence.evidence, item.source = some owner)) ∧
        ∀ candidate ∈ m.actor.pendingFactoryCandidates,
          (candidate ∉ (m.step (.command (.removeFactoryWatcher owner accepted))).actor.pendingFactoryCandidates ↔
            ∀ item ∈ candidate.evidence.evidence, item.source = some owner)) ∧
      ∀ work answer answers s candidate, m.suspended = [] →
        KeepsSupport m (.command (.failScheduledWork work true true answer answers)) →
        m.actor.scheduledWork.get work = some s → m.actor.retryCandidate s = some candidate →
        (m.actor.adapterFor s.registration.protocol).isSome = true → (∀ n, answers.candidates n ≠ .fails) →
        (m.step (.command (.failScheduledWork work true true answer answers))).actor.trusted = true →
        Carries (m.step (.command (.failScheduledWork work true true answer answers))).actor s.registration.key
          s.evidence.evidence s.supportingDiscovery := by
  have horder := Machine.run_inOrder (Machine.start_inOrder point adapters pools) events
  have hsupports := Machine.run_supports (Machine.start_inOrder point adapters pools)
    (Machine.start_supports point adapters pools)
    events hkeeps
  intro m
  refine ⟨hsupports.consistent.work, fun owner accepted hremoves hactive hgone => ?_, ?_⟩
  · have hidle : m.suspended = [] := by
      by_contra hwaits
      rw [Machine.step, if_neg fun h => hwaits (List.isEmpty_iff.mp h)] at hgone
      cases hactive.symm.trans hgone
    have hstep : (m.step (.command (.removeFactoryWatcher owner accepted))).actor =
        m.actor.removeFactoryWatcher owner accepted := by
      rw [Machine.step, hidle]
      rfl
    rw [hstep] at hgone ⊢
    have hremovable := AmmRuntimeActor.removable_of_gone hactive hgone
    obtain ⟨hwork, hpending⟩ := hremoves hidle hremovable
    refine ⟨fun work s hs => ?_, fun candidate hmem => ?_⟩
    · rw [AmmRuntimeActor.removeFactoryWatcher_cancels horder.filed hsupports.consistent hremovable hs (hwork work s hs),
        RegistrationEvidenceSet.withoutOwner_eq_none]
    · rw [AmmRuntimeActor.removeFactoryWatcher_drops hsupports.consistent hremovable hmem (hpending candidate hmem),
        RegistrationEvidenceSet.withoutOwner_eq_none]
  · intro work answer answers s candidate hidle hretries hs hretry hadapter hanswers htrusted
    have hstep : (m.step (.command (.failScheduledWork work true true answer answers))).actor =
        m.actor.failScheduledWork work true true answer answers := by
      rw [Machine.step, hidle]
      rfl
    rw [hstep] at htrusted ⊢
    exact AmmRuntimeActor.failScheduledWork_carries horder.filed horder.entered hs hretry
      (hretries hidle rfl rfl s candidate hs hretry)
      hadapter hanswers htrusted

/-! ### Two watchers of one pool -/

def secondWatcher : DiscoveryOwnerId := ⟨⟨"second"⟩, 0⟩

/-- The creation of a pool in the first block, as a watcher sees it. -/
def seenBy (owner : DiscoveryOwnerId) : Creation := ⟨owner, ⟨.uniswapV2 1, poolAt 1⟩, 5, 1, 1, 1, 0⟩

/-- The work of the pool. -/
def poolWork (generation id : Nat) : RuntimeWorkId := ⟨.pool ⟨.uniswapV2 1, generation⟩, id⟩

def staleRetry : Event := .command (.failScheduledWork (poolWork 0 0) true true .accepts accepting)

/-- One watcher sees the pool created. -/
def seenByOne : List Event := watched ++ [blockAt 1 1 [seenBy firstWatcher] []]

/-- One watcher sees a pool created: its work can be retried, and goes with the watcher. -/
theorem support_consistent_seen :
    (∃ s, (chainStart.run seenByOne).actor.scheduledWork.get (poolWork 0 0) = some s ∧ s.Supported ∧
      Carries ((chainStart.run seenByOne).step staleRetry).actor s.registration.key s.evidence.evidence
        s.supportingDiscovery) ∧
    ((chainStart.run seenByOne).step (.command (.removeFactoryWatcher firstWatcher true))).actor.scheduledWork.get
      (poolWork 0 0) = none := by
  have hpending : (Machine.published (chainStart.run watched).actor ⟨1, 1, 1, [seenBy firstWatcher],
      []⟩).pendingFactoryCandidates = [] :=
    rfl
  have hkeeps : RunKeepsSupport chainStart seenByOne := by
    refine ⟨trivial, trivial, trivial, And.intro (fun _ _ _ candidate hmem => ?_) trivial⟩
    cases (hpending ▸ hmem : candidate ∈ [])
  obtain ⟨hwork, hremoval, hretry⟩ := support_consistent ⟨1, 0, 0⟩ [] [] seenByOne hkeeps
  have hsole : ∀ entry ∈ (chainStart.run seenByOne).actor.scheduledWork.entries, ∀ item ∈ entry.2.evidence.evidence,
      item.source = some firstWatcher := by decide +kernel
  have hremoves : KeepsSupport (chainStart.run seenByOne) (.command (.removeFactoryWatcher firstWatcher true)) := by
    refine fun _ _ => ⟨fun work s hs _ => hsole ⟨work, s⟩ (Table.get_eq_some_iff.mp hs), fun candidate hmem => ?_⟩
    cases (hmem : candidate ∈ [])
  refine ⟨⟨_, rfl, hwork (poolWork 0 0) _ rfl, ?_⟩, ?_⟩
  · refine hretry (poolWork 0 0) .accepts accepting _ _ rfl (fun _ _ _ s candidate hs hretry => ?_) rfl rfl
      (by decide +kernel) (fun _ => nofun) (by decide +kernel)
    cases hs
    cases hretry
    decide +kernel
  · exact ((hremoval firstWatcher true hremoves (by decide +kernel) (by decide +kernel)).1 (poolWork 0 0) _ rfl).mpr
      (hsole ⟨poolWork 0 0, _⟩ (Table.get_eq_some_iff.mp rfl))

/-- Both watchers see the pool created. -/
def seenByBoth : List Event :=
  watched ++ [.command (.addFactoryWatcher ⟨"second"⟩ v2Family true),
    blockAt 1 1 [seenBy firstWatcher, seenBy secondWatcher] []]

/-- A retry of work with two supporters leaves one of them, and its removal cancels work with evidence of the other. A
    client that has asked for a pool loses it with the watcher that has seen it too. -/
theorem support_drifts :
    (∃ s, (chainStart.run (seenByBoth ++ [staleRetry])).actor.scheduledWork.get (poolWork 1 1) = some s ∧
      secondWatcher ∉ s.supportingDiscovery ∧ s.evidence.containsOwner secondWatcher = true) ∧
    (chainStart.run (seenByBoth ++ [staleRetry,
      .command (.removeFactoryWatcher firstWatcher true)])).actor.scheduledWork.get
      (poolWork 1 1) = none ∧
    (∃ s, (chainStart.run (watched ++ [.command (.queueColdStart [poolAt 1] .focused .accepts),
      blockAt 1 1 [seenBy firstWatcher] []
        ])).actor.scheduledWork.get (poolWork 0 0) = some s ∧ .stable "runtime.queue" ∈ s.evidence.evidence) ∧
    (chainStart.run (watched ++ [.command (.queueColdStart [poolAt 1] .focused .accepts),
      blockAt 1 1 [seenBy firstWatcher] [], .command (.removeFactoryWatcher firstWatcher true)])).actor.scheduledWork.get
      (poolWork 0 0) = none := by
  refine ⟨⟨_, rfl, ?_, ?_⟩, ?_, ⟨_, rfl, ?_⟩, ?_⟩
  all_goals decide +kernel
end AmmState.Provenance
