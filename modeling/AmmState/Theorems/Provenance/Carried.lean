import AmmState.Theorems.Provenance.Evidence
import AmmState.Theorems.Provenance.Filing

/-! Where the evidence for a pool is recorded: with the active pool, with the scheduled work of its key, or with a candidate
    of a live watcher that waits for it. A change that spares some evidence leaves it recorded. -/

namespace AmmState.Provenance

/-- The evidence, and the owners that it supports work with, are recorded for a key. -/
inductive Carries (a : AmmRuntimeActor) (key : PoolKey) (items : Finset RegistrationProvenance)
    (owners : Finset DiscoveryOwnerId) : Prop
  | active (pool : PoolInstanceId) (set : RegistrationEvidenceSet) (hpool : a.activePools.get key = some pool)
      (hset : a.registrationEvidence.get pool = some set) (hitems : items ⊆ set.evidence)
  | scheduled (work : RuntimeWorkId) (s : AmmScheduledPoolWork) (hindex : a.pendingPoolWork.get key = some work)
      (hwork : a.scheduledWork.get work = some s) (hitems : items ⊆ s.evidence.evidence)
        (howners : owners ⊆ s.supportingDiscovery)
  | pending (candidate : AmmFactoryCandidate) (hinactive : a.activePools.get key = none)
      (hpending : candidate ∈ a.pendingFactoryCandidates) (hkey : candidate.registration.key = key)
      (hlive : a.isActiveDiscovery candidate.owner = true) (hitems : items ⊆ candidate.evidence.evidence)
      (howners : owners ⊆ {candidate.owner})

/-- The evidence waits with a candidate of the key. -/
def Waits (a : AmmRuntimeActor) (key : PoolKey) (items : Finset RegistrationProvenance) : Prop :=
  ∃ candidate ∈ a.pendingFactoryCandidates, candidate.registration.key = key ∧ items ⊆ candidate.evidence.evidence

/-- The change takes none of the evidence, as far as it is recorded for the key. -/
def Spares (key : PoolKey) (items : Finset RegistrationProvenance) (owners : Finset DiscoveryOwnerId)
    (a : AmmRuntimeActor) : Change → Prop
  | .drop candidate _ answer => candidate.registration.key = key → items ⊆ candidate.evidence.evidence →
      (a.adapterFor key.protocol).isSome = true ∧ answer ≠ .fails
  | .strand other => other ≠ key
  | .release _ s => s.registration.key = key → ¬items ⊆ s.evidence.evidence
  | .activate pool => pool.key = key → ¬Waits a key items
  | .prepare registration => registration.key = key → ¬Waits a key items
  | .install work copy => copy.reservation.key = key →
      (∀ s, a.scheduledWork.get work = some s → items ⊆ s.evidence.evidence →
        items ⊆ copy.evidence.evidence) ∧ ¬Waits a key items
  | .dropPool pool => pool.key = key → ∀ active set, a.activePools.get key = some active →
      a.registrationEvidence.get active = some set → ¬items ⊆ set.evidence
  | .dropOwner owner => ∀ candidate ∈ a.pendingFactoryCandidates, candidate.registration.key = key →
      items ⊆ candidate.evidence.evidence → candidate.owner ≠ owner
  | .withdraw owner => (∀ item ∈ items, item.source ≠ some owner) ∧ owner ∉ owners
  | .revise pool evidence => a.activePools.get key = some pool → ∀ set, a.registrationEvidence.get pool = some set →
      items ⊆ set.evidence → items ⊆ evidence.evidence
  | .reconcilePending dropped => items.Nonempty ∧ owners = ∅ ∧ ∀ item ∈ items, item.offBlocks dropped = true
  | .reconcileRegistered dropped => ∀ item ∈ items, item.offBlocks dropped = true
  | _ => True

/-- A queueing call that passes every check of the actor fails only where another check does. -/
theorem AmmRuntimeActor.queueOne_ne_other {a : AmmRuntimeActor} {registration : PoolRegistration}
    (hqueue : a.Queueable registration.key) (hadapter : (a.adapterFor registration.protocol).isSome = true)
    (cls : AmmWorkClass) {answer : QueueAnswer} (hanswer : answer ≠ .fails) :
    (a.queueOne registration cls answer).1 ≠ .error .other := by
  obtain ⟨adapter, hadapter⟩ := Option.isSome_iff_exists.mp hadapter
  unfold queueOne
  rw [hqueue.trusted, hqueue.worker, Map.contains_eq_false.mpr hqueue.unscheduled,
    Map.contains_eq_false.mpr hqueue.inactive,
    Map.contains_eq_false.mpr hqueue.unreserved, hadapter]
  cases answer with
  | accepts | refuses => exact nofun
  | fails => exact absurd rfl hanswer

namespace Carries
variable {a b : AmmRuntimeActor} {key : PoolKey} {items : Finset RegistrationProvenance} {owners : Finset DiscoveryOwnerId}

theorem mono (h : Carries a key items owners) {fewer : Finset RegistrationProvenance} {supporters : Finset DiscoveryOwnerId}
    (hfewer : fewer ⊆ items) (hsupporters : supporters ⊆ owners) : Carries a key fewer supporters := by
  cases h with
  | active pool set hpool hset hitems => exact .active pool set hpool hset (hfewer.trans hitems)
  | scheduled work s hkey hs hitems howners =>
    exact .scheduled work s hkey hs (hfewer.trans hitems) (hsupporters.trans howners)
  | pending candidate hinactive hmem hkey howner hitems howners =>
    exact .pending candidate hinactive hmem hkey howner (hfewer.trans hitems) (hsupporters.trans howners)

/-- The record is in what stays the same. -/
theorem of_eq (h : Carries a key items owners) (hactive : b.activePools = a.activePools)
    (hevidence : b.registrationEvidence = a.registrationEvidence) (hindex : b.pendingPoolWork = a.pendingPoolWork)
    (hwork : b.scheduledWork = a.scheduledWork) (hpending : b.pendingFactoryCandidates = a.pendingFactoryCandidates)
    (hlive : ∀ owner, a.isActiveDiscovery owner = true → b.isActiveDiscovery owner = true) :
    Carries b key items owners := by
  cases h with
  | active pool set hpool hset hitems => exact .active pool set (hactive ▸ hpool) (hevidence ▸ hset) hitems
  | scheduled work s hkey hs hitems howners => exact .scheduled work s (hindex ▸ hkey) (hwork ▸ hs) hitems howners
  | pending candidate hinactive hmem hkey howner hitems howners =>
    exact .pending candidate (hactive ▸ hinactive) (hpending ▸ hmem) hkey (hlive _ howner) hitems howners

/-- Scheduled work is rewritten so that what it records of the evidence stays. -/
theorem of_work (h : Carries a key items owners) (hactive : b.activePools = a.activePools)
    (hevidence : b.registrationEvidence = a.registrationEvidence) (hindex : b.pendingPoolWork = a.pendingPoolWork)
    (hwork : ∀ work s, a.scheduledWork.get work = some s → items ⊆ s.evidence.evidence → owners ⊆ s.supportingDiscovery →
      ∃ s', b.scheduledWork.get work = some s' ∧ items ⊆ s'.evidence.evidence ∧ owners ⊆ s'.supportingDiscovery)
    (hpending : ∀ candidate ∈ a.pendingFactoryCandidates, candidate.registration.key = key →
      a.isActiveDiscovery candidate.owner = true →
      items ⊆ candidate.evidence.evidence → owners ⊆ {candidate.owner} → a.activePools.get key = none →
        Carries b key items owners) :
    Carries b key items owners := by
  cases h with
  | active pool set hpool hset hitems => exact .active pool set (hactive ▸ hpool) (hevidence ▸ hset) hitems
  | scheduled work s hkey hs hitems howners =>
    obtain ⟨s', hs', hitems', howners'⟩ := hwork work s hs hitems howners
    exact .scheduled work s' (hindex ▸ hkey) hs' hitems' howners'
  | pending candidate hinactive hmem hkey howner hitems howners =>
    exact hpending candidate hmem hkey howner hitems howners hinactive

/-- A merged candidate keeps its owner and its pool, and all of its evidence. -/
theorem mem_mergeCandidate {candidate waiting : AmmFactoryCandidate} {pending : List AmmFactoryCandidate}
    (h : waiting ∈ pending) : ∃ merged ∈ AmmRuntimeActor.mergeCandidate candidate pending, merged.owner = waiting.owner ∧
      merged.registration = waiting.registration ∧ waiting.evidence.evidence ⊆ merged.evidence.evidence := by
  induction pending with
  | nil => cases h
  | cons head rest ih =>
    unfold AmmRuntimeActor.mergeCandidate
    split_ifs with hsame
    · rcases List.mem_cons.mp h with rfl | hrest
      · exact ⟨_, List.mem_cons_self, rfl, rfl, Finset.subset_union_left⟩
      · exact ⟨waiting, List.mem_cons_of_mem _ hrest, rfl, rfl, Finset.Subset.refl _⟩
    · rcases List.mem_cons.mp h with rfl | hrest
      · exact ⟨waiting, List.mem_cons_self, rfl, rfl, Finset.Subset.refl _⟩
      · obtain ⟨merged, hmerged, hfacts⟩ := ih hrest
        exact ⟨merged, List.mem_cons_of_mem _ hmerged, hfacts⟩

/-- A candidate that is merged is found with its own evidence. -/
theorem mem_mergeCandidate_of_sameAs {candidate : AmmFactoryCandidate} {pending : List AmmFactoryCandidate}
    (h : pending.any candidate.sameAs = true) : ∃ merged ∈ AmmRuntimeActor.mergeCandidate candidate pending,
      merged.owner = candidate.owner ∧ merged.registration.key = candidate.registration.key ∧
        candidate.evidence.evidence ⊆ merged.evidence.evidence := by
  induction pending with
  | nil => cases h
  | cons head rest ih =>
    unfold AmmRuntimeActor.mergeCandidate
    split_ifs with hsame
    · unfold AmmFactoryCandidate.sameAs at hsame
      rw [Bool.and_eq_true, decide_eq_true_iff, decide_eq_true_iff] at hsame
      exact ⟨_, List.mem_cons_self, hsame.1, hsame.2, Finset.subset_union_right⟩
    · rw [List.any_cons, Bool.or_eq_true] at h
      obtain ⟨merged, hmem, hfacts⟩ := ih (h.resolve_left hsame)
      exact ⟨merged, List.mem_cons_of_mem _ hmem, hfacts⟩

theorem retain (h : Carries a key items owners) (candidate : AmmFactoryCandidate) :
    Carries ((Change.retain candidate).apply a) key items owners := by
  refine h.of_work rfl rfl rfl (fun work s hs hitems howners => ⟨s, hs, hitems, howners⟩)
    fun waiting hmem hkey howner hitems howners hinactive => ?_
  unfold Change.apply
  dsimp only
  split_ifs
  · obtain ⟨merged, hmerged, howned, hregistered, hevidence⟩ := mem_mergeCandidate hmem
    exact .pending merged hinactive hmerged (hregistered ▸ hkey) (howned ▸ howner)
      (hitems.trans hevidence) (howned ▸ howners)
  · exact .pending waiting hinactive (List.mem_append_left _ hmem) hkey howner hitems howners

theorem join (h : Carries a key items owners) {candidate : AmmFactoryCandidate} {rest : List AmmFactoryCandidate}
    {work : RuntimeWorkId} (hfits : (Change.join candidate rest work).Fits a) :
    Carries ((Change.join candidate rest work).apply a) key items owners := by
  obtain ⟨hpending, hindex, hsome⟩ := hfits
  obtain ⟨s, hs⟩ := Option.isSome_iff_exists.mp hsome
  have happly : (Change.join candidate rest work).apply a = { a with
      pendingFactoryCandidates := rest
      scheduledWork := a.scheduledWork.set work (s.support candidate) } := by
    unfold Change.apply AmmRuntimeActor.modifyWork
    dsimp only
    rw [hs]
  rw [happly]
  refine h.of_work rfl rfl rfl (fun other t ht hitems howners => ?_)
    fun waiting hmem hkey howner hitems howners hinactive => ?_
  · dsimp only
    rw [Table.get_set]
    split_ifs with hsame
    · obtain rfl := Option.some.inj (hs.symm.trans (hsame ▸ ht))
      exact ⟨_, rfl, hitems.trans Finset.subset_union_left, howners.trans (Finset.subset_insert _ _)⟩
    · exact ⟨t, ht, hitems, howners⟩
  · rw [hpending] at hmem
    rcases List.mem_cons.mp hmem with rfl | hrest
    · exact .scheduled work _ (hkey ▸ hindex) (Table.get_set.trans (if_pos rfl)) (hitems.trans Finset.subset_union_right)
        (howners.trans (Finset.singleton_subset_iff.mpr (Finset.mem_insert_self _ _)))
    · exact .pending waiting hinactive hrest hkey howner hitems howners

/-- A candidate is dropped only where a watcher is gone, its pool is active, or its queueing fails for good. -/
theorem drop (hfiled : Filed a) (hbacked : a.Backed key) (htrusted : a.trusted = true) (h : Carries a key items owners)
    {candidate : AmmFactoryCandidate} {rest : List AmmFactoryCandidate} {answer : QueueAnswer}
    (hfits : (Change.drop candidate rest answer).Fits a)
    (hspares : Spares key items owners a (.drop candidate rest answer)) :
    Carries ((Change.drop candidate rest answer).apply a) key items owners := by
  obtain ⟨hpending, hunscheduled, hworker, hdropped⟩ := hfits
  refine h.of_work rfl rfl rfl (fun work s hs hitems howners => ⟨s, hs, hitems, howners⟩)
    fun waiting hmem hkey howner hitems howners hinactive => ?_
  rw [hpending] at hmem
  rcases List.mem_cons.mp hmem with rfl | hrest
  · exfalso
    obtain ⟨hadapter, hanswer⟩ := hspares hkey hitems
    rcases hdropped with hgone | hactive | hfailed
    · cases howner.symm.trans hgone
    · rw [Map.contains_iff, hkey, hinactive] at hactive
      exact nomatch hactive
    · have hindex : a.pendingPoolWork.get waiting.registration.key = none := by
        cases hindex : a.pendingPoolWork.get waiting.registration.key with
        | none => rfl
        | some work =>
          obtain ⟨s, hs, -⟩ := hfiled.mapped _ work hindex
          rw [AmmRuntimeActor.pendingWork, hindex, Option.filter_some, hs, Option.isSome_some, if_pos rfl] at hunscheduled
          cases hunscheduled
      have hreserved : a.reservations.get waiting.registration.key = none := by
        cases hpool : a.reservations.get waiting.registration.key with
        | none => rfl
        | some pool =>
          have hscheduled := hbacked (Option.isSome_of_eq_some (hkey ▸ hpool))
          rw [← hkey, hindex] at hscheduled
          cases hscheduled
      refine AmmRuntimeActor.queueOne_ne_other (a := { a with pendingFactoryCandidates := rest })
        ⟨htrusted, hworker, hindex, hkey ▸ hinactive, hreserved⟩ ?_ .focused hanswer hfailed
      rw [PoolRegistration.protocol, hkey]
      exact hadapter
  · exact .pending waiting hinactive hrest hkey howner hitems howners

theorem enqueue (hfiled : Filed a) (h : Carries a key items owners) {registration : PoolRegistration}
    (hqueue : a.Queueable registration.key) (adapter : AdapterInstanceId) (cls : AmmWorkClass) :
    Carries (a.enqueue registration adapter cls) key items owners := by
  cases h with
  | active pool set hpool hset hitems => exact .active pool set hpool hset hitems
  | scheduled work s hkey hs hitems howners =>
    refine .scheduled work s ((Map.get_insert_of_ne ?_).trans hkey)
      ((Table.get_set.trans (if_neg ?_)).trans hs) hitems howners
    · rintro rfl
      cases hqueue.unscheduled.symm.trans hkey
    · rintro rfl
      exact absurd (hfiled.fresh _ s hs) (lt_irrefl _)
  | pending candidate hinactive hmem hkey howner hitems howners =>
    exact .pending candidate hinactive hmem hkey howner hitems howners

theorem adopt (hfiled : Filed a) (h : Carries a key items owners) {candidate : AmmFactoryCandidate}
    {rest : List AmmFactoryCandidate} {adapter : AdapterInstanceId} (hfits : (Change.adopt candidate rest adapter).Fits a) :
    Carries ((Change.adopt candidate rest adapter).apply a) key items owners := by
  obtain ⟨hpending, hqueue, -⟩ := hfits
  have hget := Change.adopt_get a candidate rest adapter
  have happly := Change.adopt_apply a candidate rest adapter
  cases h with
  | active pool set hpool hset hitems => exact .active pool set (happly ▸ hpool) (happly ▸ hset) hitems
  | scheduled work s hkey hs hitems howners =>
    refine .scheduled work s ?_ ?_ hitems howners
    · rw [happly]
      refine (Map.get_insert_of_ne ?_).trans hkey
      rintro rfl
      cases hqueue.unscheduled.symm.trans hkey
    · rw [hget, if_neg, hs]
      rintro rfl
      exact absurd (hfiled.fresh _ s hs) (lt_irrefl _)
  | pending waiting hinactive hmem hkey howner hitems howners =>
    rw [hpending] at hmem
    rcases List.mem_cons.mp hmem with rfl | hrest
    · refine .scheduled _ _ ?_ ((hget _).trans (if_pos rfl)) hitems
        (howners.trans (Finset.singleton_subset_iff.mpr (Finset.mem_insert_self _ _)))
      rw [happly, ← hkey]
      exact Map.get_insert_self _ _ _
    · refine .pending waiting ?_ ?_ hkey ?_ hitems howners
      · rw [happly]
        exact hinactive
      · rw [happly]
        exact hrest
      · rw [happly]
        exact howner

theorem release (hfiled : Filed a) (h : Carries a key items owners) {work : RuntimeWorkId} {s : AmmScheduledPoolWork}
    (hs : a.scheduledWork.get work = some s) (hspares : Spares key items owners a (.release work s)) :
    Carries (a.release work s) key items owners := by
  have hfields : (a.release work s).activePools = a.activePools ∧
      (a.release work s).registrationEvidence = a.registrationEvidence ∧
      (a.release work s).pendingFactoryCandidates = a.pendingFactoryCandidates ∧
      (a.release work s).pendingPoolWork = a.pendingPoolWork.remove s.reservation.key ∧
      (a.release work s).activeDiscovery = a.activeDiscovery := by
    unfold AmmRuntimeActor.release AmmRuntimeActor.cancelPoolReservation
    dsimp only
    split_ifs <;> exact ⟨rfl, rfl, rfl, rfl, rfl⟩
  obtain ⟨hactive, hevidence, hpending, hindex, hdiscovery⟩ := hfields
  obtain ⟨hskey, hsindex⟩ := hfiled.keyed work s hs
  cases h with
  | active pool set hpool hset hitems => exact .active pool set (hactive ▸ hpool) (hevidence ▸ hset) hitems
  | scheduled other t hkey ht hitems howners =>
    have hother : other ≠ work := by
      rintro rfl
      obtain rfl := Option.some.inj (hs.symm.trans ht)
      obtain ⟨t, ht', htkey⟩ := hfiled.mapped key other hkey
      obtain rfl := Option.some.inj (hs.symm.trans ht')
      exact hspares htkey hitems
    refine .scheduled other t ?_ ?_ hitems howners
    · rw [hindex, Map.get_remove_of_ne, hkey]
      rintro rfl
      rw [hskey, hsindex] at hkey
      exact hother (Option.some.inj hkey).symm
    · rw [AmmRuntimeActor.release_get, if_neg hother, ht]
  | pending candidate hinactive hmem hkey howner hitems howners =>
    refine .pending candidate (hactive ▸ hinactive) (hpending ▸ hmem) hkey ?_ hitems howners
    rw [AmmRuntimeActor.isActiveDiscovery, hdiscovery]
    exact howner

theorem activate (h : Carries a key items owners) {pool : PoolInstanceId} (hfits : (Change.activate pool).Fits a)
    (hspares : pool.key = key → ¬Waits a key items) : Carries (a.activate pool) key items owners := by
  have hentered : key ≠ pool.key → (a.activate pool).activePools.get key = a.activePools.get key :=
    fun hne => Map.get_insert_of_ne hne
  cases h with
  | active other set hpool hset hitems =>
    refine .active other set ((hentered ?_).trans hpool) ?_ hitems
    · rintro rfl
      cases hfits.1.symm.trans hpool
    · unfold AmmRuntimeActor.activate
      dsimp only
      split_ifs with hsome
      · exact hset
      · refine (Table.get_set.trans (if_neg ?_)).trans hset
        rintro rfl
        exact hsome (Option.isSome_of_eq_some hset)
  | scheduled work s hkey hs hitems howners => exact .scheduled work s hkey hs hitems howners
  | pending candidate hinactive hmem hkey howner hitems howners =>
    refine .pending candidate ((hentered ?_).trans hinactive) hmem hkey howner hitems howners
    rintro rfl
    exact hspares rfl ⟨candidate, hmem, hkey, hitems⟩

theorem install (hfiled : Filed a) (hentered : ∀ key pool, a.activePools.get key = some pool → pool.key = key)
    (h : Carries a key items owners) {work : RuntimeWorkId} {copy : AmmScheduledPoolWork}
    (hfits : (Change.install work copy).Fits a) (hspares : Spares key items owners a (.install work copy)) :
    Carries (a.install work copy) key items owners := by
  obtain ⟨-, hinactive, s, hs, hsame⟩ := hfits
  obtain ⟨hskey, hsindex⟩ := hfiled.keyed work s hs
  have hevidence : ∀ {other}, other ≠ copy.reservation →
      (a.install work copy).registrationEvidence.get other = a.registrationEvidence.get other := by
    intro other hother
    refine (Table.get_set.trans (if_neg hother)).trans ?_
    unfold AmmRuntimeActor.activate
    dsimp only
    split_ifs
    · rfl
    · exact Table.get_set.trans (if_neg hother)
  cases h with
  | active pool set hpool hset hitems =>
    have hne : key ≠ copy.reservation.key := by
      rintro rfl
      cases hinactive.symm.trans hpool
    refine .active pool set ((Map.get_insert_of_ne hne).trans hpool) ((hevidence ?_).trans hset) hitems
    rintro rfl
    exact hne (hentered key _ hpool).symm
  | scheduled other t hkey ht hitems howners =>
    by_cases hother : other = work
    · subst hother
      obtain rfl := Option.some.inj (hs.symm.trans ht)
      obtain ⟨t, ht', htkey⟩ := hfiled.mapped key other hkey
      obtain rfl := Option.some.inj (hs.symm.trans ht')
      have hcopy : copy.reservation.key = key := by rw [← hsame, hskey, htkey]
      exact .active copy.reservation copy.evidence (hcopy ▸ Map.get_insert_self _ _ _) (Table.get_set.trans (if_pos rfl))
        ((hspares hcopy).1 s hs hitems)
    · refine .scheduled other t ((Map.get_remove_of_ne ?_).trans hkey)
        (Table.get_remove.trans ((if_neg hother).trans ht)) hitems howners
      rintro rfl
      rw [← hsame, hskey, hsindex] at hkey
      exact hother (Option.some.inj hkey).symm
  | pending candidate hinactive' hmem hkey howner hitems howners =>
    refine .pending candidate ((Map.get_insert_of_ne ?_).trans hinactive') hmem hkey howner hitems howners
    rintro rfl
    exact (hspares rfl).2 ⟨candidate, hmem, hkey, hitems⟩

theorem dropPool (hentered : ∀ key pool, a.activePools.get key = some pool → pool.key = key)
    (h : Carries a key items owners) {pool : PoolInstanceId} (hspares : Spares key items owners a (.dropPool pool)) :
    Carries (a.dropPool pool) key items owners := by
  cases h with
  | active other set hpool hset hitems =>
    have hkey : key ≠ pool.key := by
      rintro rfl
      exact hspares rfl other set hpool hset hitems
    have hother : other ≠ pool := by
      rintro rfl
      exact hkey (hentered key _ hpool).symm
    exact .active other set ((Map.get_remove_of_ne hkey).trans hpool)
      ((Table.get_remove.trans (if_neg hother)).trans hset) hitems
  | scheduled work s hkey hs hitems howners => exact .scheduled work s hkey hs hitems howners
  | pending candidate hinactive hmem hkey howner hitems howners =>
    refine .pending candidate ?_ hmem hkey howner hitems howners
    refine (Map.get_remove _ _ _).trans ?_
    split_ifs
    · rfl
    · exact hinactive

theorem dropOwner (h : Carries a key items owners) {owner : DiscoveryOwnerId}
    (hspares : Spares key items owners a (.dropOwner owner)) : Carries (a.removeDiscovery owner) key items owners := by
  refine h.of_work rfl rfl rfl (fun work s hs hitems howners => ⟨s, hs, hitems, howners⟩)
    fun candidate hmem hkey howner hitems howners hinactive => ?_
  have hother := hspares candidate hmem hkey hitems
  refine .pending candidate hinactive (List.mem_filter.mpr ⟨hmem, decide_eq_true hother⟩) hkey ?_ hitems howners
  have hlive : a.activeDiscovery.get candidate.owner.key = some candidate.owner := of_decide_eq_true howner
  refine decide_eq_true ?_
  unfold AmmRuntimeActor.removeDiscovery
  dsimp only
  split_ifs with hactive
  · refine (Map.get_remove_of_ne fun hsame => hother ?_).trans hlive
    have hremoved : a.activeDiscovery.get owner.key = some owner := of_decide_eq_true hactive
    rw [← hsame, hlive] at hremoved
    exact Option.some.inj hremoved
  · exact hlive

theorem subset_withoutOwner {set : RegistrationEvidenceSet} {owner : DiscoveryOwnerId} (hitems : items ⊆ set.evidence)
    (hother : ∀ item ∈ items, item.source ≠ some owner) : items ⊆ ((set.withoutOwner owner).getD set).evidence := by
  cases hretained : set.withoutOwner owner with
  | none => exact hitems
  | some retained =>
    exact fun item hitem => (RegistrationEvidenceSet.mem_withoutOwner hretained).mpr ⟨hitems hitem, hother item hitem⟩

theorem withdraw (h : Carries a key items owners) {owner : DiscoveryOwnerId}
    (hspares : Spares key items owners a (.withdraw owner)) : Carries (a.withdrawOwner owner) key items owners := by
  obtain ⟨hother, hsupporter⟩ := hspares
  cases h with
  | active pool set hpool hset hitems =>
    exact .active pool _ hpool (Table.get_map.trans (congrArg _ hset)) (subset_withoutOwner hitems hother)
  | scheduled work s hkey hs hitems howners =>
    refine .scheduled work (s.withoutOwner owner) hkey (Table.get_map.trans (congrArg _ hs)) ?_ ?_
    · unfold AmmScheduledPoolWork.withoutOwner
      by_cases hsupports : owner ∉ s.supportingDiscovery
      · rw [if_pos hsupports]
        exact hitems
      · rw [if_neg hsupports]
        exact subset_withoutOwner hitems hother
    · unfold AmmScheduledPoolWork.withoutOwner
      by_cases hsupports : owner ∉ s.supportingDiscovery
      · rw [if_pos hsupports]
        exact howners
      · rw [if_neg hsupports]
        exact Finset.subset_erase.mpr ⟨howners, hsupporter⟩
  | pending candidate hinactive hmem hkey howner hitems howners =>
    exact .pending candidate hinactive hmem hkey howner hitems howners

/-- Evidence off the dropped blocks crosses a reorg. -/
theorem exists_crossing {set : RegistrationEvidenceSet} {dropped : List B256} (hitems : items ⊆ set.evidence)
    (hsome : items.Nonempty) (hoff : ∀ item ∈ items, item.offBlocks dropped = true) :
    ∃ evidence, crossing dropped set = some evidence ∧ items ⊆ evidence.evidence := by
  obtain ⟨item, hitem⟩ := hsome
  obtain ⟨evidence, hcrossing⟩ := Option.isSome_iff_exists.mp (crossing_isSome ⟨item, hitems hitem, hoff item hitem⟩)
  exact ⟨evidence, hcrossing, fun other hother => (mem_crossing hcrossing).mpr ⟨hitems hother, hoff other hother⟩⟩

theorem reconcilePending (h : Carries a key items owners) {dropped : List B256}
    (hspares : Spares key items owners a (.reconcilePending dropped)) :
    Carries (a.reconcilePending dropped) key items owners := by
  obtain ⟨hsome, rfl, hoff⟩ := hspares
  refine h.of_work rfl rfl rfl (fun work s hs hitems _ => ?_) fun candidate hmem hkey howner hitems _ hinactive => ?_
  · obtain ⟨evidence, hcrossing, hcrossed⟩ := exists_crossing hitems hsome hoff
    refine ⟨s.cross dropped, Table.get_map.trans (congrArg _ hs), ?_, Finset.empty_subset _⟩
    rw [AmmScheduledPoolWork.cross, hcrossing]
    exact hcrossed
  · obtain ⟨evidence, hcrossing, hcrossed⟩ := exists_crossing hitems hsome hoff
    have hkept := reconcileCandidate_eq dropped candidate
    rw [hcrossing, Option.map_some] at hkept
    exact .pending { candidate with
      evidence
      revalidate := if evidence.containsStateQueryOwner candidate.owner then candidate.revalidate else none } hinactive
      (List.mem_filterMap.mpr ⟨candidate, hmem, hkept⟩) hkey howner hcrossed (Finset.empty_subset _)

theorem reconcileRegistered (h : Carries a key items owners) {dropped : List B256}
    (hspares : Spares key items owners a (.reconcileRegistered dropped)) :
    Carries (a.reconcileRegistered dropped) key items owners := by
  cases h with
  | active pool set hpool hset hitems =>
    refine .active pool ((crossing dropped set).getD set) hpool (Table.get_map.trans (congrArg _ hset)) ?_
    cases hcrossing : crossing dropped set with
    | none => exact hitems
    | some evidence => exact fun item hitem => (mem_crossing hcrossing).mpr ⟨hitems hitem, hspares item hitem⟩
  | scheduled work s hkey hs hitems howners => exact .scheduled work s hkey hs hitems howners
  | pending candidate hinactive hmem hkey howner hitems howners =>
    exact .pending candidate hinactive hmem hkey howner hitems howners

/-- A change that spares the evidence leaves it recorded, while the actor stays trusted. -/
theorem change (hfiled : Filed a) (hbacked : a.Backed key)
    (hentered : ∀ key pool, a.activePools.get key = some pool → pool.key = key) (h : Carries a key items owners)
    {change : Change} (hfits : change.Fits a) (hspares : change.Harmless ∨ Spares key items owners a change)
    (htrusted : (change.apply a).trusted = true) : Carries (change.apply a) key items owners := by
  cases change with
  | aside b => exact h.of_eq hfits.active hfits.evidence hfits.index hfits.work hfits.pending hfits.live
  | support other pool evidence =>
    cases h with
    | active present set hpool hset hitems =>
      by_cases hsame : present = pool
      · subst hsame
        refine .active present (set.merge evidence) hpool (Table.get_set.trans ((if_pos rfl).trans ?_))
          (hitems.trans Finset.subset_union_left)
        rw [hset]
      · exact .active present set hpool ((Table.get_set.trans (if_neg hsame)).trans hset) hitems
    | scheduled work s hkey hs hitems howners => exact .scheduled work s hkey hs hitems howners
    | pending candidate hinactive hmem hkey howner hitems howners =>
      exact .pending candidate hinactive hmem hkey howner hitems howners
  | retain candidate => exact h.retain candidate
  | join candidate rest work => exact h.join hfits
  | drop candidate rest answer => exact h.drop hfiled hbacked htrusted hfits (hspares.resolve_left id)
  | burn other =>
    rw [Change.apply, AmmRuntimeActor.burn_eq]
    exact h.of_eq rfl rfl rfl rfl rfl fun _ hlive => hlive
  | strand other => exact h.of_eq rfl rfl rfl rfl rfl fun _ hlive => hlive
  | queue registration adapter cls => exact enqueue hfiled h hfits.1 adapter cls
  | adopt candidate rest adapter => exact adopt hfiled h hfits
  | release work s => exact release hfiled h hfits (hspares.resolve_left id)
  | unreserve pool | regenerate generations | publish point => exact h.of_eq rfl rfl rfl rfl rfl fun _ hlive => hlive
  | activate pool => exact h.activate hfits (hspares.resolve_left id)
  | install work copy => exact install hfiled hentered h hfits (hspares.resolve_left id)
  | prepare registration =>
    have hbumped : Carries { a with generations := (a.activatePrepared registration).generations } key items owners :=
      h.of_eq rfl rfl rfl rfl rfl fun _ hlive => hlive
    exact hbumped.activate ⟨hfits.2.1, hfits.2.2⟩ (hspares.resolve_left id)
  | force => cases htrusted
  | dropPool pool => exact dropPool hentered h (hspares.resolve_left id)
  | dropOwner owner => exact h.dropOwner (hspares.resolve_left id)
  | withdraw owner => exact h.withdraw (hspares.resolve_left id)
  | revise pool evidence =>
    cases h with
    | active present set hpool hset hitems =>
      by_cases hsame : present = pool
      · subst hsame
        exact .active present evidence hpool (Table.get_set.trans (if_pos rfl))
          (hspares.resolve_left id hpool set hset hitems)
      · exact .active present set hpool ((Table.get_set.trans (if_neg hsame)).trans hset) hitems
    | scheduled work s hkey hs hitems howners => exact .scheduled work s hkey hs hitems howners
    | pending candidate hinactive hmem hkey howner hitems howners =>
      exact .pending candidate hinactive hmem hkey howner hitems howners
  | reconcilePending dropped => exact h.reconcilePending (hspares.resolve_left id)
  | reconcileRegistered dropped => exact h.reconcileRegistered (hspares.resolve_left id)

end Carries

/-- Changes that a trusted actor makes spare the evidence. -/
abbrev SparingChanges (key : PoolKey) (items : Finset RegistrationProvenance) (owners : Finset DiscoveryOwnerId) :
    AmmRuntimeActor → AmmRuntimeActor → Prop :=
  Changes fun a change => a.trusted = true → Spares key items owners a change

/-- The key stays without a stranded reservation. -/
theorem Changes.sparesBacked {a b : AmmRuntimeActor} {key : PoolKey} {items : Finset RegistrationProvenance}
    {owners : Finset DiscoveryOwnerId} (h : SparingChanges key items owners a b) (hfiled : Filed a)
    (hbacked : a.Backed key) : b.Backed key := by
  refine Changes.backed h (fun c change hfits hspares hstrands => ?_) hfiled hbacked
  subst hstrands
  exact hspares hfits.trusted rfl

theorem Changes.carries {a b : AmmRuntimeActor} {key : PoolKey} {items : Finset RegistrationProvenance}
    {owners : Finset DiscoveryOwnerId} (h : SparingChanges key items owners a b) (hfiled : Filed a)
    (hbacked : a.Backed key) (hentered : a.trusted = true → Entered a) (hcarries : Carries a key items owners)
    (hb : b.trusted = true) : Carries b key items owners := by
  induction h with
  | refl => exact hcarries
  | tail hchanges hstep ih =>
    obtain ⟨change, hfits, hspares, rfl⟩ := hstep
    have htrusted := change.trusted hfits hb
    exact (ih htrusted).change (Changes.files hchanges hfiled).filed (Changes.sparesBacked hchanges hfiled hbacked)
      (Changes.entered hchanges hentered htrusted) hfits
      (hspares.imp_right fun hspares => hspares htrusted) hb

/-! ### Candidates that are retained -/

namespace AmmRuntimeActor
variable {a : AmmRuntimeActor}

/-- A candidate of a live watcher that is retained carries its evidence, unless trust is lost. -/
theorem retainFactoryCandidate_carries (candidate : AmmFactoryCandidate)
    (hlive : a.isActiveDiscovery candidate.owner = true) (htrusted : (a.retainFactoryCandidate candidate).trusted = true) :
    Carries (a.retainFactoryCandidate candidate) candidate.registration.key candidate.evidence.evidence
      {candidate.owner} := by
  unfold retainFactoryCandidate at htrusted ⊢
  split
  · next pool hactive =>
    have hsupported : Carries (a.supportPool pool candidate.evidence) candidate.registration.key candidate.evidence.evidence
        {candidate.owner} := by
      refine .active pool _ hactive (Table.get_set.trans (if_pos rfl)) ?_
      cases a.registrationEvidence.get pool with
      | none => exact Finset.Subset.refl _
      | some present => exact Finset.subset_union_right
    dsimp only
    split
    · exact hsupported.of_eq rfl rfl rfl rfl rfl fun _ h => h
    · exact hsupported
  · next hinactive =>
    rw [hinactive] at htrusted
    dsimp only at htrusted
    split_ifs at htrusted ⊢ with hmerged
    · obtain ⟨merged, hmem, howner, hkey, hevidence⟩ := Carries.mem_mergeCandidate_of_sameAs hmerged
      exact .pending merged hinactive hmem hkey (howner ▸ hlive) hevidence (howner ▸ Finset.Subset.refl _)
    · exact .pending candidate hinactive (List.mem_append_right _ List.mem_cons_self) rfl hlive (Finset.Subset.refl _)
        (Finset.Subset.refl _)
    · cases htrusted

/-- A retry keeps the evidence of the work recorded, with the owner that it goes on as. -/
theorem failScheduledWork_retries (hfiled : Filed a) (hentered : a.trusted = true → Entered a) {work : RuntimeWorkId}
    {answer : QueueAnswer} {answers : Answers} {s : AmmScheduledPoolWork} {candidate : AmmFactoryCandidate}
    (hs : a.scheduledWork.get work = some s) (hretry : a.retryCandidate s = some candidate)
    (hadapter : (a.adapterFor s.registration.protocol).isSome = true) (hanswers : ∀ n, answers.candidates n ≠ .fails)
    (htrusted : (a.failScheduledWork work true true answer answers).trusted = true) :
    Carries (a.failScheduledWork work true true answer answers) s.registration.key s.evidence.evidence
      {candidate.owner} := by
  obtain ⟨owner, hfound, rfl⟩ := Option.map_eq_some_iff.mp hretry
  have hactive : (a.release work s).activeDiscovery = a.activeDiscovery := by
    unfold release cancelPoolReservation
    dsimp only
    split_ifs <;> rfl
  have hlive : (a.release work s).isActiveDiscovery owner = true := by
    have hfound := List.find?_some hfound
    rwa [isActiveDiscovery, hactive]
  have hfails : a.failScheduledWork work true true answer answers = ((a.release work s).retainFactoryCandidate
      ⟨owner, s.registration, s.evidence, s.revalidations.get owner⟩).drainFactoryCandidates answers.candidates := by
    unfold failScheduledWork
    rw [hfiled.undiscovered hs, hs]
    dsimp only
    rw [Bool.not_true, if_neg Bool.false_ne_true, if_pos rfl, release_retryCandidate, hretry]
  rw [hfails] at htrusted ⊢
  have hreleased : BackingChanges a (a.release work s) := release_changes hs (by rintro _ ⟨⟩)
  generalize hretained : (a.release work s).retainFactoryCandidate
    ⟨owner, s.registration, s.evidence, s.revalidations.get owner⟩ =
    b at htrusted ⊢
  have hchanges : BackingChanges a b := hretained ▸ hreleased.trans (retainFactoryCandidate_changes _ (by rintro _ ⟨⟩))
  have hbacked : a.Backed s.registration.key := fun _ => Option.isSome_of_eq_some (hfiled.keyed work s hs).2
  have hadapters : b.adapters = a.adapters := by
    rw [← hretained, retainFactoryCandidate_adapters, release_adapters]
  have hany : Machine.AnyChanges b (b.drainFactoryCandidates answers.candidates) :=
    b.drainFactoryCandidates_changes _ fun _ _ _ _ _ _ => trivial
  have hserving := hany.trusted htrusted
  have hcarries : Carries b s.registration.key s.evidence.evidence {owner} := by
    rw [← hretained] at hserving ⊢
    exact retainFactoryCandidate_carries _ hlive hserving
  -- The drain drops no candidate of the pool: the actor serves what it did, and no call fails for good.
  have hdrained : SparingChanges s.registration.key s.evidence.evidence {owner} b
      (b.drainFactoryCandidates answers.candidates) := by
    refine b.drainFactoryCandidates_changes _ fun c candidate rest n hserves _ _ _ _ => ⟨?_, hanswers n⟩
    rw [adapterFor, hserves.adapters, hadapters]
    exact hadapter
  exact hdrained.carries (hchanges.files hfiled).filed (hchanges.backed hfiled hbacked)
    (hchanges.entered hentered) hcarries htrusted

end AmmRuntimeActor

end AmmState.Provenance
