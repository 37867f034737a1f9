import AmmState.Theorems.Provenance.Kept

/-! What an ingested reorg leaves behind: no pool that is active or pending has all of its evidence on dropped blocks,
    unless it is being revalidated; what has other evidence is kept. -/

namespace AmmState.Provenance

/-- All of the evidence was seen on dropped blocks: no item of it is stable or off them. A query of a final block, which the
    actor never makes, counts as stable. -/
def RegistrationEvidenceSet.OnDropped (set : RegistrationEvidenceSet) (dropped : List B256) : Prop :=
  ∀ item ∈ set.evidence, item.keeps dropped = false

/-- A source of the pool is to check it again, or does so. -/
def Revalidating (a : AmmRuntimeActor) (pool : PoolInstanceId) : Prop :=
  (∃ owner requests, (a.pendingRevalidations.get (pool, owner)).isSome = true ∧
    a.registrationRevalidation.get pool = some requests ∧ (requests.get owner).isSome = true) ∨
  ∃ work d, a.scheduledDiscovery.get work = some d ∧ d.revalidatePool = some pool

/-! ### Tables of active pools -/

/-- Every active pool has evidence. -/
def Evident (a : AmmRuntimeActor) : Prop :=
  ∀ key pool, a.activePools.get key = some pool → (a.registrationEvidence.get pool).isSome = true

variable {a b : AmmRuntimeActor}

theorem asked_filterMap {f : PoolInstanceId → Revalidations → Option Revalidations}
    (hf : ∀ pool requests left, f pool requests = some left → requests.entries ≠ [] → left.entries ≠ []) (h : Asked a)
    (heq : b.registrationRevalidation = a.registrationRevalidation.filterMap f) : Asked b := by
  intro pool left hleft
  rw [heq, Table.get_filterMap, Option.bind_eq_some_iff] at hleft
  obtain ⟨requests, hrequests, hleft⟩ := hleft
  exact hf pool requests left hleft (h pool requests hrequests)

theorem reconcileRegistered_revalidation (a : AmmRuntimeActor) (dropped : List B256) :
    (a.reconcileRegistered dropped).registrationRevalidation = a.registrationRevalidation.filterMap fun pool requests =>
      match (a.registrationEvidence.get pool).bind (crossing dropped) with
      | none => some requests
      | some evidence =>
        let requests := requests.filter fun owner _ => evidence.containsStateQueryOwner owner
        if requests.entries.isEmpty then none else some requests := rfl

theorem Asked.change (h : Asked a) {change : Change} (hfits : change.Fits a) : Asked (change.apply a) := by
  cases change with
  | aside b => exact hfits.asked h
  | burn key =>
    rw [Change.apply, AmmRuntimeActor.burn_eq]
    exact h
  | adopt candidate rest adapter =>
    rw [Change.adopt_apply]
    exact h
  | join candidate rest work =>
    unfold Change.apply AmmRuntimeActor.modifyWork
    dsimp only
    split <;> exact h
  | release work s =>
    unfold Change.apply AmmRuntimeActor.release AmmRuntimeActor.cancelPoolReservation
    dsimp only
    split_ifs <;> exact h
  | install work copy =>
    intro pool requests hrequests
    unfold Change.apply AmmRuntimeActor.install at hrequests
    dsimp only at hrequests
    split_ifs at hrequests with hempty
    · exact h pool requests hrequests
    · rw [Table.get_set] at hrequests
      split_ifs at hrequests
      · rw [← Option.some.inj hrequests]
        exact fun hnil => hempty (hnil ▸ rfl)
      · exact h pool requests hrequests
  | dropPool pool =>
    intro other requests hrequests
    have hrequests : (a.registrationRevalidation.remove pool).get other = some requests := hrequests
    rw [Table.get_remove] at hrequests
    split_ifs at hrequests
    exact h other requests hrequests
  | withdraw owner =>
    have hfiltered : (a.withdrawOwner owner).registrationRevalidation =
        a.registrationRevalidation.filterMap fun _ requests =>
        let requests := requests.remove owner
        if requests.entries.isEmpty then none else some requests := rfl
    refine asked_filterMap (fun pool requests left hleft _ => ?_) h hfiltered
    dsimp only at hleft
    split_ifs at hleft with hempty
    rw [← Option.some.inj hleft]
    exact fun hnil => hempty (hnil ▸ rfl)
  | reconcileRegistered dropped =>
    refine asked_filterMap (fun pool requests left hleft hrequests => ?_) h (reconcileRegistered_revalidation a dropped)
    dsimp only at hleft
    split at hleft
    · rw [← Option.some.inj hleft]
      exact hrequests
    · split_ifs at hleft with hempty
      rw [← Option.some.inj hleft]
      exact fun hnil => hempty (hnil ▸ rfl)
  | support | retain | drop | strand | queue | unreserve | activate | prepare | regenerate | force | dropOwner | revise
  | reconcilePending | publish => exact h

theorem Evident.activate (h : Evident a) {pool : PoolInstanceId} : Evident (a.activate pool) := by
  intro key other hactive
  unfold AmmRuntimeActor.activate
  dsimp only
  rcases Map.get_insert_eq_some.mp hactive with ⟨rfl, rfl⟩ | ⟨-, hold⟩
  · split_ifs with hsome
    · exact hsome
    · rw [Table.get_set, if_pos rfl]
      rfl
  · split_ifs
    · exact h key other hold
    · rw [Table.get_set]
      split_ifs
      · rfl
      · exact h key other hold

theorem Evident.change (hentered : Entered a) (h : Evident a) {change : Change} (hfits : change.Fits a)
    (htrusted : (change.apply a).trusted = true) : Evident (change.apply a) := by
  have hset : ∀ {c : AmmRuntimeActor} {pool : PoolInstanceId} {set : RegistrationEvidenceSet},
      c.activePools = a.activePools →
      c.registrationEvidence = a.registrationEvidence.set pool set → Evident c := by
    intro c pool set hactive hevidence key other hother
    rw [hevidence, Table.get_set]
    split_ifs
    · rfl
    · exact h key other (hactive ▸ hother)
  have hmap : ∀ {c : AmmRuntimeActor} {f : PoolInstanceId → RegistrationEvidenceSet → RegistrationEvidenceSet},
      c.activePools = a.activePools → c.registrationEvidence = a.registrationEvidence.map f → Evident c := by
    intro c f hactive hevidence key other hother
    rw [hevidence, Table.get_map, Option.isSome_map]
    exact h key other (hactive ▸ hother)
  cases change with
  | aside b => exact fun key pool hactive => hfits.evidence ▸ h key pool (hfits.active ▸ hactive)
  | burn key =>
    rw [Change.apply, AmmRuntimeActor.burn_eq]
    exact h
  | adopt candidate rest adapter =>
    rw [Change.adopt_apply]
    exact h
  | join candidate rest work =>
    unfold Change.apply AmmRuntimeActor.modifyWork
    dsimp only
    split <;> exact h
  | release work s =>
    unfold Change.apply AmmRuntimeActor.release AmmRuntimeActor.cancelPoolReservation
    dsimp only
    split_ifs <;> exact h
  | support key pool evidence => exact hset rfl rfl
  | revise pool evidence => exact hset rfl rfl
  | withdraw owner => exact hmap (f := fun _ set => (set.withoutOwner owner).getD set) rfl rfl
  | reconcileRegistered dropped => exact hmap (f := fun _ set => (crossing dropped set).getD set) rfl rfl
  | activate pool => exact h.activate
  | prepare registration =>
    have hbumped : Evident { a with generations := (a.activatePrepared registration).generations } := h
    exact hbumped.activate
  | install work copy =>
    intro key other hother
    have hentered : Evident ({ a with reservations := a.reservations.remove copy.reservation.key
      }.activate copy.reservation) :=
      Evident.activate (a := { a with reservations := a.reservations.remove copy.reservation.key }) h
    refine (congrArg Option.isSome Table.get_set).trans ?_
    split_ifs
    · rfl
    · exact hentered key other hother
  | dropPool pool =>
    intro key other hother
    obtain ⟨hkey, hkept⟩ := Map.get_remove_eq_some.mp hother
    have hne : other ≠ pool := by
      rintro rfl
      exact hkey (hentered key _ hkept).symm
    rw [Change.apply, AmmRuntimeActor.dropPool, Table.get_remove, if_neg hne]
    exact h key other hkept
  | force => cases htrusted
  | retain | drop | strand | queue | unreserve | regenerate | dropOwner | reconcilePending | publish => exact h

/-! ### What evidence grows through -/

/-- The active pools stay, their evidence and its sources grow, and those that are being revalidated still are. -/
structure Grows (a b : AmmRuntimeActor) : Prop where
  active : b.activePools = a.activePools
  evidence : ∀ pool set, a.registrationEvidence.get pool = some set →
    ∃ grown, b.registrationEvidence.get pool = some grown ∧ set.evidence ⊆ grown.evidence
  sources : ∀ pool owner requests, a.registrationRevalidation.get pool = some requests →
    (requests.get owner).isSome = true →
    ∃ grown, b.registrationRevalidation.get pool = some grown ∧ (grown.get owner).isSome = true
  revalidating : ∀ pool, a.isActivePool pool = true → Revalidating a pool → Revalidating b pool

namespace Grows
variable {c : AmmRuntimeActor}

theorem refl (a : AmmRuntimeActor) : Grows a a :=
  ⟨rfl, fun _ set h => ⟨set, h, Finset.Subset.refl _⟩, fun _ _ requests h howner => ⟨requests, h, howner⟩, fun _ _ h => h⟩

theorem trans (h : Grows a b) (h' : Grows b c) : Grows a c := by
  refine ⟨h'.active.trans h.active, fun pool set hset => ?_, fun pool owner requests hrequests howner => ?_,
    fun pool hactive hpool => ?_⟩
  · obtain ⟨grown, hgrown, hle⟩ := h.evidence pool set hset
    obtain ⟨later, hlater, hle'⟩ := h'.evidence pool grown hgrown
    exact ⟨later, hlater, hle.trans hle'⟩
  · obtain ⟨grown, hgrown, hsource⟩ := h.sources pool owner requests hrequests howner
    exact h'.sources pool owner grown hgrown hsource
  · refine h'.revalidating pool ?_ (h.revalidating pool hactive hpool)
    rwa [AmmRuntimeActor.isActivePool, h.active]

/-- Sources are added, and everything else stays. -/
theorem of_sources (hactive : b.activePools = a.activePools) (hevidence : b.registrationEvidence = a.registrationEvidence)
    (hsources : ∀ pool owner requests, a.registrationRevalidation.get pool = some requests →
      (requests.get owner).isSome = true →
      ∃ grown, b.registrationRevalidation.get pool = some grown ∧ (grown.get owner).isSome = true)
    (hpending : b.pendingRevalidations = a.pendingRevalidations)
    (hdiscovery : b.scheduledDiscovery = a.scheduledDiscovery) : Grows a b := by
  refine ⟨hactive, fun pool set hset => ⟨set, hevidence ▸ hset, Finset.Subset.refl _⟩, hsources, fun pool _ hpool => ?_⟩
  rcases hpool with ⟨owner, requests, howner, hrequests, hsource⟩ | ⟨work, d, hd, hrevalidates⟩
  · obtain ⟨grown, hgrown, hsource⟩ := hsources pool owner requests hrequests hsource
    exact .inl ⟨owner, grown, hpending ▸ howner, hgrown, hsource⟩
  · exact .inr ⟨work, d, hdiscovery ▸ hd, hrevalidates⟩

theorem serves (h : AmmRuntimeActor.Serves a b) : Grows a b :=
  of_sources h.active h.evidence (fun _ _ requests hrequests howner => ⟨requests, h.requests ▸ hrequests,
    howner⟩) h.revalidations
    h.discoveries

theorem setRevalidation (pool : PoolInstanceId) (owner : DiscoveryOwnerId) (request : TokenEdgeDiscoveryRequest) :
    Grows a (a.setRevalidation pool owner request) := by
  refine of_sources rfl rfl (fun other source requests hrequests hsource => ?_) rfl rfl
  unfold AmmRuntimeActor.setRevalidation
  dsimp only
  rw [Table.get_set]
  split_ifs with hsame
  · refine ⟨_, rfl, ?_⟩
    rw [← hsame, hrequests, Option.getD_some, Table.get_set]
    split_ifs
    · rfl
    · exact hsource
  · exact ⟨requests, hrequests, hsource⟩

theorem supportPool (pool : PoolInstanceId) (evidence : RegistrationEvidenceSet) :
    Grows a (a.supportPool pool evidence) := by
  refine ⟨rfl, fun other set hset => ?_, fun _ _ requests hrequests howner => ⟨requests, hrequests, howner⟩, fun _ _ h => h⟩
  unfold AmmRuntimeActor.supportPool
  dsimp only
  rw [Table.get_set]
  split_ifs with hsame
  · refine ⟨_, rfl, ?_⟩
    rw [← hsame, hset]
    exact Finset.subset_union_left
  · exact ⟨set, hset, Finset.Subset.refl _⟩

theorem retainFactoryCandidate (candidate : AmmFactoryCandidate) : Grows a (a.retainFactoryCandidate candidate) := by
  unfold AmmRuntimeActor.retainFactoryCandidate
  split
  · dsimp only
    split
    · exact (supportPool _ _).trans (setRevalidation _ _ _)
    · exact supportPool _ _
  · split_ifs <;> exact of_sources rfl rfl (fun _ _ requests hrequests howner => ⟨requests, hrequests, howner⟩) rfl rfl

theorem foldl_retain (candidates : List AmmFactoryCandidate) :
    Grows a (candidates.foldl AmmRuntimeActor.retainFactoryCandidate a) := by
  induction candidates generalizing a with
  | nil => exact refl a
  | cons candidate rest ih => exact (retainFactoryCandidate candidate).trans ih

/-- The revalidations of a pool that is not active are dropped. -/
theorem dropRevalidation {pool : PoolInstanceId} (hinactive : a.isActivePool pool = false) (owner : DiscoveryOwnerId) :
    Grows a (a.dropRevalidation pool owner) := by
  refine ⟨rfl, fun _ set h => ⟨set, h, Finset.Subset.refl _⟩, fun _ _ requests h howner => ⟨requests, h, howner⟩,
    fun other hactive h => ?_⟩
  refine h.imp_left fun ⟨source, requests, hpending, hrequests⟩ => ⟨source, requests, ?_, hrequests⟩
  rw [AmmRuntimeActor.dropRevalidation, Table.get_remove, if_neg]
  · exact hpending
  · intro hsame
    obtain ⟨rfl, -⟩ := Prod.mk.inj hsame
    cases hinactive.symm.trans hactive

/-- A pending revalidation becomes scheduled work. -/
theorem queueRevalidation (hfiled : Filed a) {pool : PoolInstanceId} {owner : DiscoveryOwnerId}
    {request : TokenEdgeDiscoveryRequest} {options : AmmDiscoveryOptions} {answer : QueueAnswer} {work : RuntimeWorkId}
    (h : a.queueDiscovery owner request options answer = (.ok work, b)) :
    Grows a ((b.setRevalidatePool work pool).dropRevalidation pool owner) := by
  rcases a.queueDiscovery_spec owner request options answer with ⟨error, hfails⟩ | hqueued
  · cases hfails.symm.trans h
  · cases hqueued.symm.trans h
    unfold AmmRuntimeActor.setRevalidatePool
    rw [Table.get_set, if_pos rfl]
    refine ⟨rfl, fun _ set h => ⟨set, h, Finset.Subset.refl _⟩,
      fun _ _ requests h howner => ⟨requests, h, howner⟩, fun other _ h => ?_⟩
    rcases h with ⟨source, requests, hpending, hrequests⟩ | ⟨earlier, d, hd, hrevalidates⟩
    · by_cases hsame : (other, source) = (pool, owner)
      · obtain ⟨rfl, rfl⟩ := Prod.mk.inj hsame
        exact .inr ⟨_, _, Table.get_set.trans (if_pos rfl), rfl⟩
      · refine .inl ⟨source, requests, ?_, hrequests⟩
        rw [AmmRuntimeActor.dropRevalidation, Table.get_remove, if_neg hsame]
        exact hpending
    · refine .inr ⟨earlier, d, ?_, hrevalidates⟩
      have hne : earlier ≠ ⟨.discovery owner, a.nextWorkId⟩ := by
        rintro rfl
        exact absurd (hfiled.discoveries _ d hd).2 (lt_irrefl _)
      exact (Table.get_set.trans (if_neg hne)).trans ((Table.get_set.trans (if_neg hne)).trans hd)

theorem revalidationLoop (hfiled : Filed a)
    (pending : List (Sigma fun _ : PoolInstanceId × DiscoveryOwnerId => TokenEdgeDiscoveryRequest)) (answers : Nat →
    QueueAnswer) (htrusted : (AmmRuntimeActor.revalidationLoop pending a answers).trusted = true) :
    Grows a (AmmRuntimeActor.revalidationLoop pending a answers) := by
  induction pending generalizing a with
  | nil => exact refl a
  | cons head rest ih =>
    obtain ⟨⟨pool, owner⟩, request⟩ := head
    have hkept : ∀ {error b}, a.queueDiscovery owner request (AmmDiscoveryOptions.default.withClass .repair)
        (answers rest.length) = (.error error, b) → b = a := by
      intro error b h
      rcases a.queueDiscovery_spec owner request (AmmDiscoveryOptions.default.withClass .repair) (answers rest.length) with
        ⟨_, hfails⟩ | hqueued
      · cases hfails.symm.trans h
        rfl
      · cases hqueued.symm.trans h
    unfold AmmRuntimeActor.revalidationLoop at htrusted ⊢
    by_cases hactive : (!a.isActivePool pool) = true
    · rw [if_pos hactive] at htrusted ⊢
      rw [Bool.not_eq_true'] at hactive
      have hdropped : Machine.AnyChanges a (a.dropRevalidation pool owner) := a.dropRevalidation_changes pool owner
      exact (dropRevalidation hactive owner).trans (ih (hdropped.files hfiled).filed htrusted)
    · rw [if_neg hactive] at htrusted ⊢
      by_cases hlive : (!a.isActiveDiscovery owner) = true
      · rw [if_pos hlive] at htrusted
        cases htrusted
      · rw [if_neg hlive] at htrusted ⊢
        have hqueued : Machine.AnyChanges a (a.queueDiscovery owner request (AmmDiscoveryOptions.default.withClass .repair)
            (answers rest.length)).2 := a.queueDiscovery_changes owner request _ _
        split at htrusted
        · next work b heq =>
          rw [heq] at hqueued
          have hall : Machine.AnyChanges a ((b.setRevalidatePool work pool).dropRevalidation pool owner) :=
            hqueued.trans ((b.setRevalidatePool_changes work pool).trans
              (AmmRuntimeActor.dropRevalidation_changes _ pool owner))
          exact (queueRevalidation hfiled heq).trans (ih (hall.files hfiled).filed htrusted)
        · cases htrusted
        · next error b hne heq =>
          obtain rfl := hkept heq
          exact refl _

theorem drainRevalidations (hfiled : Filed a) (answers : Nat → QueueAnswer)
    (htrusted : (a.drainRevalidations answers).trusted = true) : Grows a (a.drainRevalidations answers) := by
  unfold AmmRuntimeActor.drainRevalidations at htrusted ⊢
  split_ifs at htrusted ⊢
  · exact revalidationLoop hfiled _ answers htrusted
  · exact refl a

end Grows

/-! ### A reorg under way -/

/-- A source that the entry has check its pool is to check it still. -/
def Feasible (a : AmmRuntimeActor) : PoolInstanceId × RegistrationReorgAction × Option Revalidations → Prop
  | (_, .keep, _) => False
  | (pool, .revalidate, some requests) => a.isActivePool pool = true → ∃ owner current, (requests.get owner).isSome = true ∧
      a.registrationRevalidation.get pool = some current ∧ (current.get owner).isSome = true
  | _ => True

/-- Each active pool that has all of its evidence on dropped blocks is being revalidated, or is in the list of what is
    left. -/
structure Reorging (a : AmmRuntimeActor) (dropped : List B256)
    (left : List (PoolInstanceId × RegistrationReorgAction × Option Revalidations)) : Prop where
  handled : ∀ pool set, a.isActivePool pool = true → a.registrationEvidence.get pool = some set → set.OnDropped dropped →
    Revalidating a pool ∨ ∃ entry ∈ left, entry.1 = pool
  feasible : ∀ entry ∈ left, Feasible a entry

/-- What is left where the actions of a reorg stop. -/
def leftOver : Option (PoolInstanceId × List (PoolInstanceId × RegistrationReorgAction × Option Revalidations)) →
    List (PoolInstanceId × RegistrationReorgAction × Option Revalidations)
  | none => []
  | some (pool, rest) => (pool, .remove, none) :: rest

theorem RegistrationEvidenceSet.OnDropped.not_keep {set : RegistrationEvidenceSet} {dropped : List B256}
    (h : set.OnDropped dropped) : set.reorgAction dropped ≠ .keep := by
  unfold reorgAction
  rw [if_neg]
  · split_ifs <;> nofun
  · rintro ⟨item, hitem, hkeeps⟩
    cases (h item hitem).symm.trans hkeeps

namespace Reorging
variable {dropped : List B256} {left rest : List (PoolInstanceId × RegistrationReorgAction × Option Revalidations)}

/-- What a reorg asks for covers every pool. -/
theorem start (hasked : Asked a) : Reorging a dropped (a.reorgActions dropped) := by
  unfold AmmRuntimeActor.reorgActions
  refine ⟨fun pool set _ hset honly => .inr ?_, fun entry hentry => ?_⟩
  · split_ifs with hnone
    · obtain ⟨item, hitem⟩ := set.nonempty
      have hlost := honly item hitem
      rw [hnone] at hlost
      unfold RegistrationProvenance.keeps at hlost
      split at hlost <;> simp at hlost
    · refine ⟨(pool, set.reorgAction dropped, a.registrationRevalidation.get pool), List.mem_filterMap.mpr ?_, rfl⟩
      refine ⟨⟨pool, set⟩, Table.get_eq_some_iff.mp hset, ?_⟩
      have hkeep := honly.not_keep
      dsimp only
      split
      · next heq => exact absurd heq hkeep
      · rfl
  · split_ifs at hentry
    · cases hentry
    · obtain ⟨⟨pool, set⟩, -, hentry⟩ := List.mem_filterMap.mp hentry
      dsimp only at hentry
      split at hentry
      · cases hentry
      · next hkeep =>
        obtain rfl := Option.some.inj hentry
        cases haction : set.reorgAction dropped with
        | keep => exact absurd haction hkeep
        | remove => exact trivial
        | revalidate =>
          cases hrequests : a.registrationRevalidation.get pool with
          | none => exact trivial
          | some requests =>
            intro _
            obtain ⟨⟨owner, request⟩, hmem⟩ := List.exists_mem_of_ne_nil _ (hasked pool requests hrequests)
            have howner := Option.isSome_of_eq_some (Table.get_eq_some_iff.mpr hmem)
            exact ⟨owner, requests, howner, hrequests, howner⟩

theorem grows (h : Reorging a dropped left) (hevident : Evident a) (hgrows : Grows a b) : Reorging b dropped left := by
  have hactive : ∀ pool, b.isActivePool pool = a.isActivePool pool := fun pool => by
    rw [AmmRuntimeActor.isActivePool, AmmRuntimeActor.isActivePool, hgrows.active]
  refine ⟨fun pool set hpool hset honly => ?_, fun entry hentry => ?_⟩
  · rw [hactive] at hpool
    obtain ⟨earlier, hearlier⟩ := Option.isSome_iff_exists.mp (hevident _ pool (of_decide_eq_true hpool))
    obtain ⟨grown, hgrown, hle⟩ := hgrows.evidence pool earlier hearlier
    obtain rfl := Option.some.inj (hset.symm.trans hgrown)
    exact (h.handled pool earlier hpool hearlier fun item hitem => honly item (hle hitem)).imp_left
      (hgrows.revalidating pool hpool)
  · have hfeasible := h.feasible entry hentry
    unfold Feasible at hfeasible ⊢
    split at hfeasible
    · exact hfeasible
    · next pool requests =>
      intro hpool
      obtain ⟨owner, current, howner, hcurrent, hsource⟩ := hfeasible (hactive pool ▸ hpool)
      obtain ⟨grown, hgrown, hsource⟩ := hgrows.sources pool owner current hcurrent hsource
      exact ⟨owner, grown, howner, hgrown, hsource⟩
    · trivial

/-- Requests become pending for a pool, beside those that are. -/
theorem isSome_pend {pool : PoolInstanceId} {key : PoolInstanceId × DiscoveryOwnerId}
    (requests : List (Sigma fun _ : DiscoveryOwnerId => TokenEdgeDiscoveryRequest))
    (pending : Table (PoolInstanceId × DiscoveryOwnerId) TokenEdgeDiscoveryRequest)
    (h : (pending.get key).isSome = true ∨ ∃ entry ∈ requests, key = (pool, entry.1)) :
    ((requests.foldl (fun pending entry => pending.set (pool, entry.1) entry.2) pending).get key).isSome = true := by
  induction requests generalizing pending with
  | nil =>
    refine h.resolve_right fun hlisted => ?_
    obtain ⟨entry, hentry, -⟩ := hlisted
    exact List.not_mem_nil hentry
  | cons head rest ih =>
    refine ih _ ?_
    rw [Table.get_set]
    split_ifs with hsame
    · exact .inl rfl
    · refine h.imp_right fun hlisted => ?_
      obtain ⟨entry, hentry, hkey⟩ := hlisted
      refine ⟨entry, ?_, hkey⟩
      refine (List.mem_cons.mp hentry).resolve_left ?_
      rintro rfl
      exact hsame hkey

/-- A pool whose sources are to check it again is revalidated from then on. -/
theorem revalidatePool {pool : PoolInstanceId} {requests : Revalidations}
    (h : Reorging a dropped ((pool, .revalidate, some requests) :: rest)) (hactive : a.isActivePool pool = true)
    (htrusted : (a.revalidatePool pool requests dropped).trusted = true) :
    Reorging (a.revalidatePool pool requests dropped) dropped rest := by
  obtain ⟨owner, current, howner, hcurrent, hsource⟩ := h.feasible _ List.mem_cons_self hactive
  obtain ⟨request, hrequest⟩ := Option.isSome_iff_exists.mp howner
  have hpended : ∀ evidence : Table PoolInstanceId RegistrationEvidenceSet,
      (∀ other, other ≠ pool → evidence.get other = a.registrationEvidence.get other) → Reorging { a with
        registrationEvidence := evidence
        pendingRevalidations := requests.entries.foldl (fun pending entry => pending.set (pool, entry.1) entry.2)
          a.pendingRevalidations } dropped rest := by
    refine fun evidence hothers => ⟨fun other set hother hset honly => ?_,
      fun entry hentry => h.feasible entry (List.mem_cons_of_mem _ hentry)⟩
    by_cases hsame : other = pool
    · subst hsame
      exact .inl (.inl ⟨owner, current, isSome_pend _ _
        (.inr ⟨⟨owner, request⟩, Table.get_eq_some_iff.mp hrequest, rfl⟩), hcurrent, hsource⟩)
    · refine (h.handled other set hother ((hothers other hsame).symm.trans hset) honly).imp ?_
        fun ⟨entry, hentry, hpool⟩ => ⟨entry, ?_, hpool⟩
      · exact fun hrevalidating => hrevalidating.imp_left fun ⟨source, requests, hpending, hfound⟩ =>
          ⟨source, requests, isSome_pend _ _ (.inl hpending), hfound⟩
      · refine (List.mem_cons.mp hentry).resolve_left ?_
        rintro rfl
        exact hsame hpool.symm
  unfold AmmRuntimeActor.revalidatePool at htrusted ⊢
  dsimp only at htrusted ⊢
  split at htrusted
  · exact hpended _ fun _ _ => rfl
  · split at htrusted
    · cases htrusted
    · exact hpended _ fun other hother => Table.get_set.trans (if_neg hother)

/-- The actions of a reorg are taken up to a pool that is to be removed. -/
theorem takeActions (h : Reorging a dropped left)
    (htrusted : (AmmRuntimeActor.takeActions dropped left a).1.trusted = true) :
    Reorging (AmmRuntimeActor.takeActions dropped left a).1 dropped
      (leftOver (AmmRuntimeActor.takeActions dropped left a).2) := by
  induction left generalizing a with
  | nil => exact h
  | cons head rest ih =>
    obtain ⟨pool, action, requests⟩ := head
    unfold AmmRuntimeActor.takeActions at htrusted ⊢
    by_cases hactive : (!a.isActivePool pool) = true
    · rw [if_pos hactive] at htrusted ⊢
      rw [Bool.not_eq_true'] at hactive
      refine ih ⟨fun other set hother hset honly => ?_,
        fun entry hentry => h.feasible entry (List.mem_cons_of_mem _ hentry)⟩ htrusted
      refine (h.handled other set hother hset honly).imp_right fun hlisted => ?_
      obtain ⟨entry, hentry, hpool⟩ := hlisted
      refine ⟨entry, ?_, hpool⟩
      refine (List.mem_cons.mp hentry).resolve_left ?_
      rintro rfl
      rw [← hpool] at hother
      cases hactive.symm.trans hother
    · rw [if_neg hactive] at htrusted ⊢
      rw [Bool.not_eq_true', Bool.not_eq_false] at hactive
      cases action with
      | keep => exact absurd (h.feasible _ List.mem_cons_self) id
      | remove =>
        refine ⟨fun other set hother hset honly => ?_, fun entry hentry => ?_⟩
        · refine (h.handled other set hother hset honly).imp_right fun hlisted => ?_
          obtain ⟨entry, hentry, hpool⟩ := hlisted
          rcases List.mem_cons.mp hentry with rfl | hrest
          · exact ⟨_, List.mem_cons_self, hpool⟩
          · exact ⟨entry, List.mem_cons_of_mem _ hrest, hpool⟩
        · rcases List.mem_cons.mp hentry with rfl | hrest
          · exact trivial
          · exact h.feasible entry (List.mem_cons_of_mem _ hrest)
      | revalidate =>
        cases requests with
        | none =>
          dsimp only at htrusted
          have hchanges : Machine.AnyChanges _ _ :=
            a.markUntrusted.takeActions_changes dropped rest fun _ _ _ _ _ _ => trivial
          cases hchanges.trusted htrusted
        | some requests =>
          dsimp only at htrusted ⊢
          have hchanges : Machine.AnyChanges _ _ :=
            (a.revalidatePool pool requests dropped).takeActions_changes dropped rest
            fun _ _ _ _ _ _ => trivial
          exact ih (h.revalidatePool hactive (hchanges.trusted htrusted)) htrusted

/-- A pool that is taken out leaves the others as they are. -/
theorem dropPool {pool : PoolInstanceId} {requests : Option Revalidations}
    (h : Reorging a dropped ((pool, .remove, requests) :: rest)) : Reorging (a.dropPool pool) dropped rest := by
  have hkept : ∀ {other}, (a.dropPool pool).isActivePool other = true → other ≠ pool ∧ a.isActivePool other = true := by
    intro other hother
    obtain ⟨hkey, hactive⟩ := Map.get_remove_eq_some.mp (of_decide_eq_true hother)
    exact ⟨fun hsame => hkey (congrArg PoolInstanceId.key hsame), decide_eq_true hactive⟩
  refine ⟨fun other set hother hset honly => ?_, fun entry hentry => ?_⟩
  · obtain ⟨hne, hactive⟩ := hkept hother
    rw [AmmRuntimeActor.dropPool, Table.get_remove, if_neg hne] at hset
    refine (h.handled other set hactive hset honly).imp (fun hrevalidating => hrevalidating.imp_left ?_)
      fun ⟨entry, hentry, hpool⟩ => ⟨entry, ?_, hpool⟩
    · rintro ⟨owner, requests, hpending, hrequests, hsource⟩
      obtain ⟨request, hrequest⟩ := Option.isSome_iff_exists.mp hpending
      refine ⟨owner, requests, Option.isSome_of_eq_some
        (Table.get_filter_eq_some.mpr ⟨hrequest, decide_eq_true hne⟩), ?_, hsource⟩
      rw [AmmRuntimeActor.dropPool, Table.get_remove, if_neg hne, hrequests]
    · refine (List.mem_cons.mp hentry).resolve_left ?_
      rintro rfl
      exact hne hpool.symm
  · have hfeasible := h.feasible entry (List.mem_cons_of_mem _ hentry)
    unfold Feasible at hfeasible ⊢
    split at hfeasible
    · exact hfeasible
    · next other requests =>
      intro hother
      obtain ⟨hne, hactive⟩ := hkept hother
      obtain ⟨owner, current, howner, hcurrent, hsource⟩ := hfeasible hactive
      refine ⟨owner, current, howner, ?_, hsource⟩
      rw [AmmRuntimeActor.dropPool, Table.get_remove, if_neg hne, hcurrent]
    · trivial

/-- Evidence that crosses a reorg is not on its blocks; pools that have no other are left as they are. -/
theorem reconcileRegistered (h : Reorging a dropped []) : Reorging (a.reconcileRegistered dropped) dropped [] := by
  refine ⟨fun pool set hactive hset honly => .inl ?_, fun entry hentry => absurd hentry List.not_mem_nil⟩
  have hset : (a.registrationEvidence.map fun _ set => (crossing dropped set).getD set).get pool = some set := hset
  rw [Table.get_map, Option.map_eq_some_iff] at hset
  obtain ⟨earlier, hearlier, hcrossed⟩ := hset
  cases hcrossing : crossing dropped earlier with
  | some kept =>
    rw [hcrossing, Option.getD_some] at hcrossed
    subst hcrossed
    obtain ⟨item, hitem⟩ := kept.nonempty
    have hkeeps := RegistrationProvenance.keeps_of_offBlocks ((mem_crossing hcrossing).mp hitem).2
    cases (honly item hitem).symm.trans hkeeps
  | none =>
    rw [hcrossing, Option.getD_none] at hcrossed
    subst hcrossed
    rcases h.handled pool earlier hactive hearlier honly with hrevalidating | ⟨entry, hentry, -⟩
    · refine hrevalidating.imp_left fun ⟨owner, requests, hpending, hrequests, hsource⟩ => ?_
      have hkept : (a.reconcileRegistered dropped).registrationRevalidation.get pool = some requests := by
        refine Table.get_filterMap.trans ?_
        rw [hrequests, Option.bind_some, hearlier, Option.bind_some, hcrossing]
      obtain ⟨request, hrequest⟩ := Option.isSome_iff_exists.mp hpending
      refine ⟨owner, requests, Option.isSome_of_eq_some (Table.get_filter_eq_some.mpr ⟨hrequest, ?_⟩), hkept, hsource⟩
      exact (congrArg (fun current => (current.bind (Table.get · owner)).isSome) hkept).trans hsource
    · exact absurd hentry List.not_mem_nil

end Reorging

/-! ### Cancelled work -/

/-- Pool work is released, or is not there. -/
theorem cancelScheduledWork_grows {work : RuntimeWorkId} (h : a.scheduledDiscovery.get work = none) :
    Grows a (a.cancelScheduledWork work true) ∧
      (a.cancelScheduledWork work true).scheduledDiscovery = a.scheduledDiscovery ∧
      (a.cancelScheduledWork work true).scheduledWork.get work = none := by
  unfold AmmRuntimeActor.cancelScheduledWork
  rw [h]
  dsimp only
  split
  · next hgone => exact ⟨.refl a, rfl, hgone⟩
  · next scheduled _ =>
    rw [if_pos rfl, AmmRuntimeActor.release_get, if_pos rfl]
    unfold AmmRuntimeActor.release AmmRuntimeActor.cancelPoolReservation
    dsimp only
    split_ifs <;>
      exact ⟨.of_sources rfl rfl (fun _ _ requests hrequests howner => ⟨requests, hrequests, howner⟩) rfl rfl, rfl, rfl⟩

/-- With enough numbers all of the work is cancelled. -/
theorem cancelOrphans_grows {orphaned : List RuntimeWorkId} (h : ∀ work ∈ orphaned, a.scheduledDiscovery.get work = none)
    {numbered : Nat} (hnumbered : orphaned.length ≤ numbered) :
    (AmmRuntimeActor.cancelOrphans orphaned numbered a).1 = true ∧
    Grows a (AmmRuntimeActor.cancelOrphans orphaned numbered a).2 ∧
      ∀ work s, (AmmRuntimeActor.cancelOrphans orphaned numbered a).2.scheduledWork.get work = some s →
        work ∉ orphaned ∧ a.scheduledWork.get work = some s := by
  induction orphaned generalizing a numbered with
  | nil => cases numbered <;> exact ⟨rfl, .refl a, fun work s hs => ⟨List.not_mem_nil, hs⟩⟩
  | cons work rest ih =>
    obtain ⟨numbered, rfl⟩ : ∃ n, numbered = n + 1 :=
      Nat.exists_eq_succ_of_ne_zero (Nat.ne_of_gt (Nat.lt_of_lt_of_le (Nat.succ_pos _) hnumbered))
    obtain ⟨hgrows, hdiscovery, hgone⟩ := cancelScheduledWork_grows (h work List.mem_cons_self)
    have hrest : ∀ other ∈ rest, (a.cancelScheduledWork work true).scheduledDiscovery.get other = none :=
      fun other hother => by
      rw [hdiscovery]
      exact h other (List.mem_cons_of_mem _ hother)
    obtain ⟨hall, hgrown, hkept⟩ := ih hrest (Nat.le_of_succ_le_succ hnumbered)
    refine ⟨hall, hgrows.trans hgrown, fun other s hs => ?_⟩
    obtain ⟨hunlisted, hs⟩ := hkept other s hs
    refine ⟨?_, a.cancelScheduledWork_get hs⟩
    rw [List.mem_cons, not_or]
    refine ⟨?_, hunlisted⟩
    rintro rfl
    cases hgone.symm.trans hs

theorem AmmRuntimeActor.cancelOrphans_pending (a : AmmRuntimeActor) (orphaned : List RuntimeWorkId) (numbered : Nat) :
    (cancelOrphans orphaned numbered a).2.pendingFactoryCandidates = a.pendingFactoryCandidates := by
  induction orphaned generalizing a numbered with
  | nil => cases numbered <;> rfl
  | cons work rest ih =>
    cases numbered with
    | zero => rfl
    | succ numbered =>
      refine (ih _ numbered).trans ?_
      unfold cancelScheduledWork
      split
      · rfl
      · split
        · rfl
        · rw [if_pos rfl]
          unfold release cancelPoolReservation
          dsimp only
          split_ifs <;> rfl

/-! ### Evidence on dropped blocks -/

theorem RegistrationProvenance.offBlocks_nil (item : RegistrationProvenance) : item.offBlocks [] = true := by
  cases item <;> simp [offBlocks, block]

/-- None of the evidence was seen on dropped blocks. -/
def RegistrationEvidenceSet.OffDropped (set : RegistrationEvidenceSet) (dropped : List B256) : Prop :=
  ∀ item ∈ set.evidence, item.offBlocks dropped = true

theorem RegistrationEvidenceSet.OffDropped.not_onDropped {set : RegistrationEvidenceSet} {dropped : List B256}
    (h : set.OffDropped dropped) : ¬set.OnDropped dropped := by
  obtain ⟨item, hitem⟩ := set.nonempty
  intro honly
  cases (honly item hitem).symm.trans (RegistrationProvenance.keeps_of_offBlocks (h item hitem))

theorem RegistrationEvidenceSet.OffDropped.one {item : RegistrationProvenance} {dropped : List B256}
    (h : item.offBlocks dropped = true) : (RegistrationEvidenceSet.one item).OffDropped dropped := by
  intro other hother
  rcases Finset.mem_insert.mp hother with rfl | hnone
  · exact h
  · exact absurd hnone (Finset.notMem_empty other)

theorem RegistrationEvidenceSet.OffDropped.merge {set other : RegistrationEvidenceSet} {dropped : List B256}
    (h : set.OffDropped dropped) (h' : other.OffDropped dropped) : (set.merge other).OffDropped dropped :=
  fun item hitem => (Finset.mem_union.mp hitem).elim (h item) (h' item)

theorem RegistrationEvidenceSet.OffDropped.subset {set part : RegistrationEvidenceSet} {dropped : List B256}
    (h : set.OffDropped dropped) (hpart : part.evidence ⊆ set.evidence) : part.OffDropped dropped :=
  fun item hitem => h item (hpart hitem)

/-- Scheduled work and the candidates that wait have no evidence on dropped blocks. -/
structure Cleared (a : AmmRuntimeActor) (dropped : List B256) : Prop where
  work : ∀ work s, a.scheduledWork.get work = some s → s.evidence.OffDropped dropped
  pending : ∀ candidate ∈ a.pendingFactoryCandidates, candidate.evidence.OffDropped dropped

/-- A change brings nothing in from the blocks. -/
def Leaves (blocks : List B256) (_ : AmmRuntimeActor) : Change → Prop
  | .retain candidate => candidate.evidence.OffDropped blocks
  | .publish point => point.blockHash ∉ blocks
  | _ => True

namespace Cleared
variable {dropped : List B256}

theorem of_eq (h : Cleared a dropped) (hwork : b.scheduledWork = a.scheduledWork)
    (hpending : b.pendingFactoryCandidates = a.pendingFactoryCandidates) : Cleared b dropped :=
  ⟨fun work s hs => h.work work s (hwork ▸ hs), fun candidate hmem => h.pending candidate (hpending ▸ hmem)⟩

theorem mergeCandidate {candidate : AmmFactoryCandidate} (hcandidate : candidate.evidence.OffDropped dropped)
    {pending : List AmmFactoryCandidate} (h : ∀ waiting ∈ pending, waiting.evidence.OffDropped dropped) :
    ∀ waiting ∈ AmmRuntimeActor.mergeCandidate candidate pending, waiting.evidence.OffDropped dropped := by
  induction pending with
  | nil => exact h
  | cons head rest ih =>
    rw [List.forall_mem_cons] at h
    unfold AmmRuntimeActor.mergeCandidate
    split_ifs
    · exact List.forall_mem_cons.mpr ⟨h.1.merge hcandidate, h.2⟩
    · exact List.forall_mem_cons.mpr ⟨h.1, ih h.2⟩

theorem modifyWork (h : Cleared a dropped) (work : RuntimeWorkId) {f : AmmScheduledPoolWork → AmmScheduledPoolWork}
    (hf : ∀ s, s.evidence.OffDropped dropped → (f s).evidence.OffDropped dropped) :
    Cleared (a.modifyWork work f) dropped := by
  unfold AmmRuntimeActor.modifyWork
  split
  · next found hfound =>
    refine ⟨fun other s hs => ?_, h.pending⟩
    dsimp only at hs
    rw [Table.get_set] at hs
    split_ifs at hs
    · rw [← Option.some.inj hs]
      exact hf found (h.work work found hfound)
    · exact h.work other s hs
  · exact h

/-- Work that is rewritten keeps a part of its evidence. -/
theorem of_map (h : Cleared a dropped) {f : RuntimeWorkId → AmmScheduledPoolWork → AmmScheduledPoolWork}
    (hf : ∀ work s, (f work s).evidence.evidence ⊆ s.evidence.evidence) (hwork : b.scheduledWork = a.scheduledWork.map f)
    (hpending : ∀ candidate ∈ b.pendingFactoryCandidates, candidate.evidence.OffDropped dropped) : Cleared b dropped := by
  refine ⟨fun work s hs => ?_, hpending⟩
  rw [hwork, Table.get_map, Option.map_eq_some_iff] at hs
  obtain ⟨earlier, hearlier, rfl⟩ := hs
  exact (h.work work earlier hearlier).subset (hf work earlier)

theorem withoutOwner_subset (s : AmmScheduledPoolWork) (owner : DiscoveryOwnerId) :
    (s.withoutOwner owner).evidence.evidence ⊆ s.evidence.evidence := by
  unfold AmmScheduledPoolWork.withoutOwner
  split
  · exact Finset.Subset.refl _
  · dsimp only
    cases hretained : s.evidence.withoutOwner owner with
    | none => exact Finset.Subset.refl _
    | some retained => exact fun item hitem => ((RegistrationEvidenceSet.mem_withoutOwner hretained).mp hitem).1

theorem cross_subset (s : AmmScheduledPoolWork) (blocks : List B256) :
    (s.cross blocks).evidence.evidence ⊆ s.evidence.evidence := by
  unfold AmmScheduledPoolWork.cross
  split
  · next hcrossing => exact fun item hitem => ((mem_crossing hcrossing).mp hitem).1
  · exact Finset.Subset.refl _

/-- Only a candidate that begins to wait can bring evidence on dropped blocks in. -/
theorem change (h : Cleared a dropped) {change : Change} (hfits : change.Fits a)
    (hretain : ∀ candidate, change = .retain candidate → candidate.evidence.OffDropped dropped) :
    Cleared (change.apply a) dropped := by
  cases change with
  | aside b => exact h.of_eq hfits.work hfits.pending
  | retain candidate =>
    refine ⟨h.work, fun waiting hmem => ?_⟩
    unfold Change.apply at hmem
    dsimp only at hmem
    split_ifs at hmem
    · exact mergeCandidate (hretain candidate rfl) h.pending waiting hmem
    · rcases List.mem_append.mp hmem with hold | hnew
      · exact h.pending waiting hold
      · rw [List.mem_singleton.mp hnew]
        exact hretain candidate rfl
  | join candidate rest work =>
    have hcandidate := h.pending candidate (hfits.1 ▸ List.mem_cons_self)
    have hpopped : Cleared { a with pendingFactoryCandidates := rest } dropped :=
      ⟨h.work, fun waiting hmem => h.pending waiting (hfits.1 ▸ List.mem_cons_of_mem _ hmem)⟩
    exact hpopped.modifyWork work fun s hs => hs.merge hcandidate
  | drop candidate rest answer =>
    exact ⟨h.work, fun waiting hmem => h.pending waiting (hfits.1 ▸ List.mem_cons_of_mem _ hmem)⟩
  | burn key =>
    rw [Change.apply, AmmRuntimeActor.burn_eq]
    exact h.of_eq rfl rfl
  | strand key => exact h.of_eq rfl rfl
  | queue registration adapter cls =>
    refine ⟨fun work s hs => ?_, h.pending⟩
    rw [Change.apply, AmmRuntimeActor.enqueue_get] at hs
    split_ifs at hs
    · rw [← Option.some.inj hs]
      exact .one rfl
    · exact h.work work s hs
  | adopt candidate rest adapter =>
    refine ⟨fun work s hs => ?_, fun waiting hmem => ?_⟩
    · rw [Change.adopt_get] at hs
      split_ifs at hs
      · rw [← Option.some.inj hs]
        exact h.pending candidate (hfits.1 ▸ List.mem_cons_self)
      · exact h.work work s hs
    · rw [Change.adopt_apply] at hmem
      exact h.pending waiting (hfits.1 ▸ List.mem_cons_of_mem _ hmem)
  | release work scheduled =>
    refine ⟨fun other s hs => ?_, fun waiting hmem => h.pending waiting ?_⟩
    · rw [Change.apply, AmmRuntimeActor.release_get] at hs
      split_ifs at hs
      exact h.work other s hs
    · unfold Change.apply AmmRuntimeActor.release AmmRuntimeActor.cancelPoolReservation at hmem
      dsimp only at hmem
      split_ifs at hmem <;> exact hmem
  | install work copy =>
    refine ⟨fun other s hs => ?_, h.pending⟩
    have hs : (a.scheduledWork.remove work).get other = some s := hs
    rw [Table.get_remove] at hs
    split_ifs at hs
    exact h.work other s hs
  | dropOwner owner => exact ⟨h.work, fun waiting hmem => h.pending waiting (List.mem_of_mem_filter hmem)⟩
  | withdraw owner => exact h.of_map (fun _ s => withoutOwner_subset s owner) rfl h.pending
  | reconcilePending blocks =>
    refine h.of_map (fun _ s => cross_subset s blocks) rfl fun waiting hmem => ?_
    obtain ⟨earlier, hearlier, hcrossed⟩ := List.mem_filterMap.mp hmem
    rw [reconcileCandidate_eq, Option.map_eq_some_iff] at hcrossed
    obtain ⟨evidence, hcrossing, rfl⟩ := hcrossed
    exact (h.pending earlier hearlier).subset fun item hitem => ((mem_crossing hcrossing).mp hitem).1
  | support | unreserve | activate | prepare | regenerate | force | dropPool | revise | reconcileRegistered | publish =>
    exact h.of_eq rfl rfl

theorem changes (h : Cleared a dropped) (hchanges : Changes (Leaves dropped) a b) : Cleared b dropped := by
  refine hchanges.keeps (P := fun c => Cleared c dropped)
    (fun c change hc hfits hallow => hc.change hfits fun candidate heq => ?_) h
  subst heq
  exact hallow.resolve_left id

/-- Pool work has no entry among the discoveries. -/
theorem orphans_undiscovered (hfiled : Filed a) :
    ∀ work ∈ a.orphanedWork dropped, (a.reconcilePending dropped).scheduledDiscovery.get work = none := by
  intro work hwork
  obtain ⟨s, hs, -⟩ := Table.mem_keysWhere.mp hwork
  exact hfiled.undiscovered hs

/-- A reorg that cancels all orphans clears scheduled work and candidates. -/
theorem reconciled (hfiled : Filed a) {numbered : Nat} (hnumbered : (a.orphanedWork dropped).length ≤ numbered) :
    (a.reconcileOrphanedPendingRegistrations dropped numbered).1 = true ∧
      Cleared (a.reconcileOrphanedPendingRegistrations dropped numbered).2 dropped := by
  by_cases hdropped : dropped = []
  · subst hdropped
    exact ⟨rfl, fun _ s _ item _ => item.offBlocks_nil, fun candidate _ item _ => item.offBlocks_nil⟩
  · obtain ⟨hall, -, hkept⟩ := cancelOrphans_grows (orphans_undiscovered hfiled) hnumbered
    have hpending := (a.reconcilePending dropped).cancelOrphans_pending (a.orphanedWork dropped) numbered
    obtain ⟨b, hb⟩ : ∃ b, AmmRuntimeActor.cancelOrphans (a.orphanedWork dropped) numbered
        (a.reconcilePending dropped) = (true, b) :=
      ⟨_, Prod.ext hall rfl⟩
    rw [a.reconcile_eq hdropped, hb]
    rw [hb] at hkept hpending
    refine ⟨rfl, fun work s hs item hitem => ?_, fun candidate hmem item hitem => ?_⟩
    · obtain ⟨hunlisted, hs⟩ := hkept work s hs
      rw [AmmRuntimeActor.reconcilePending, Table.get_map, Option.map_eq_some_iff] at hs
      obtain ⟨earlier, hearlier, rfl⟩ := hs
      cases hcrossing : crossing dropped earlier.evidence with
      | none => exact absurd (Table.mem_keysWhere.mpr ⟨earlier, hearlier, by rw [hcrossing]; rfl⟩) hunlisted
      | some evidence =>
        rw [AmmScheduledPoolWork.cross, hcrossing] at hitem
        exact ((mem_crossing hcrossing).mp hitem).2
    · have hmem : candidate ∈ (a.reconcilePending dropped).pendingFactoryCandidates := hpending ▸ hmem
      obtain ⟨earlier, -, hcrossed⟩ := List.mem_filterMap.mp hmem
      rw [reconcileCandidate_eq, Option.map_eq_some_iff] at hcrossed
      obtain ⟨evidence, hcrossing, rfl⟩ := hcrossed
      exact ((mem_crossing hcrossing).mp hitem).2

end Cleared

/-- A reorg that cancels all orphans leaves its pools to be revalidated. -/
theorem Reorging.reconciled {dropped : List B256} (h : Reorging a dropped []) (hfiled : Filed a)
    (hevident : Evident a) {numbered : Nat} (hnumbered : (a.orphanedWork dropped).length ≤ numbered) :
    Reorging (a.reconcileOrphanedPendingRegistrations dropped numbered).2 dropped [] := by
  by_cases hdropped : dropped = []
  · subst hdropped
    exact h
  · obtain ⟨hall, hgrows, -⟩ := cancelOrphans_grows (Cleared.orphans_undiscovered hfiled) hnumbered
    obtain ⟨b, hb⟩ : ∃ b, AmmRuntimeActor.cancelOrphans (a.orphanedWork dropped) numbered
        (a.reconcilePending dropped) = (true, b) :=
      ⟨_, Prod.ext hall rfl⟩
    have hfirst : Grows a (a.reconcilePending dropped) :=
      .of_sources rfl rfl (fun _ _ requests hrequests howner => ⟨requests, hrequests, howner⟩) rfl rfl
    rw [a.reconcile_eq hdropped, hb]
    rw [hb] at hgrows
    exact (h.grows hevident (hfirst.trans hgrows)).reconcileRegistered

end AmmState.Provenance
