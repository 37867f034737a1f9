import AmmState.Provenance.Ledger
import AmmState.Theorems.Provenance.Changes

/-! The bound of a discovery request. Apart from the queueing of a request and its retry, every handler only drops discovery
    work or queues revalidations, so that a bounded request that is not retried is served by one work and admits once. -/

namespace AmmState.Provenance
open SortDedup

/-! ### Discovery work -/

/-- What a handler leaves of discovery work: some of it, and revalidations under later numbers. -/
structure Discovers (a a' : AmmRuntimeActor) : Prop where
  next : a.nextWorkId ≤ a'.nextWorkId
  work : ∀ work scheduled, a'.scheduledDiscovery.get work = some scheduled →
    a.scheduledDiscovery.get work = some scheduled ∨
    a.nextWorkId ≤ work.work ∧ work.work < a'.nextWorkId ∧ scheduled.revalidatePool.isSome = true

namespace Discovers
variable {a b c : AmmRuntimeActor}

theorem of_eq (hwork : b.scheduledDiscovery = a.scheduledDiscovery) (hnext : a.nextWorkId ≤ b.nextWorkId) : Discovers a b :=
  ⟨hnext, fun _ _ h => .inl (hwork ▸ h)⟩

theorem refl (a : AmmRuntimeActor) : Discovers a a := of_eq rfl le_rfl

theorem trans (h : Discovers a b) (h' : Discovers b c) : Discovers a c := by
  refine ⟨h.next.trans h'.next, fun work scheduled hc => ?_⟩
  have hab := h.next
  have hbc := h'.next
  rcases h'.work work scheduled hc with hb | ⟨hge, hlt, hpool⟩
  · rcases h.work work scheduled hb with ha | ⟨hge, hlt, hpool⟩
    · exact .inl ha
    · exact .inr ⟨hge, by omega, hpool⟩
  · exact .inr ⟨by omega, hlt, hpool⟩

theorem foldl {α : Type} {f : AmmRuntimeActor → α → AmmRuntimeActor} (hf : ∀ a x, Discovers a (f a x)) (l : List α)
    (a : AmmRuntimeActor) : Discovers a (l.foldl f a) := by
  induction l generalizing a with
  | nil => exact refl a
  | cons x rest ih => exact (hf a x).trans (ih (f a x))

theorem removeDiscoveryWork (a : AmmRuntimeActor) (work : RuntimeWorkId) : Discovers a (a.removeDiscoveryWork work) := by
  refine ⟨le_rfl, fun other scheduled h => ?_⟩
  rw [AmmRuntimeActor.removeDiscoveryWork, Table.get_remove] at h
  split_ifs at h
  exact .inl h

end Discovers

namespace AmmRuntimeActor
variable (a : AmmRuntimeActor)

theorem retainFactoryCandidate_discovers (candidate : AmmFactoryCandidate) :
    Discovers a (a.retainFactoryCandidate candidate) := by
  unfold retainFactoryCandidate
  split
  · split <;> exact .of_eq rfl le_rfl
  · split_ifs <;> exact .of_eq rfl le_rfl

theorem cancelPoolReservation_discovers (pool : PoolInstanceId) : Discovers a (a.cancelPoolReservation pool) := by
  unfold cancelPoolReservation
  split_ifs <;> exact .of_eq rfl le_rfl

theorem modifyWork_discovers (work : RuntimeWorkId) (f : AmmScheduledPoolWork → AmmScheduledPoolWork) :
    Discovers a (a.modifyWork work f) := by
  unfold modifyWork
  split <;> exact .of_eq rfl le_rfl

theorem queueOne_discovers (registration : PoolRegistration) (cls : AmmWorkClass) (answer : QueueAnswer) :
    Discovers a (a.queueOne registration cls answer).2 := by
  unfold queueOne
  split_ifs
  · exact .refl a
  · exact .refl a
  · exact .refl a
  · split
    · exact .refl a
    · exact .refl a
    · have hreserved : Discovers a (a.reserve registration.key).2 := .of_eq rfl le_rfl
      exact hreserved.trans (cancelPoolReservation_discovers _ _)
    · exact .of_eq rfl (Nat.le_succ _)

theorem queueColdStart_discovers (pools : List PoolRegistration) (cls : AmmWorkClass) (answer : QueueAnswer) :
    Discovers a (a.queueColdStart pools cls answer) := by
  unfold queueColdStart
  dsimp only
  split_ifs
  · exact .refl a
  · exact .foldl (fun a pool => a.queueOne_discovers pool cls .refuses) _ a
  · have hreserves : ∀ (b : AmmRuntimeActor) (pool : PoolRegistration), Discovers b (b.reserve pool.key).2 :=
      fun _ _ => .of_eq rfl le_rfl
    exact .foldl hreserves _ a
  · exact .foldl (fun a pool => a.queueOne_discovers pool cls answer) pools a

theorem drainCandidate_discovers (candidate : AmmFactoryCandidate) (answer : QueueAnswer) :
    Discovers a (a.drainCandidate candidate answer).2 := by
  have hqueued := a.queueOne_discovers candidate.registration .focused answer
  unfold drainCandidate
  split
  · exact a.modifyWork_discovers _ _
  · split_ifs
    · exact .of_eq rfl le_rfl
    · exact .refl a
    · split
      · next heq =>
        rw [heq] at hqueued
        exact hqueued.trans (modifyWork_discovers _ _ _)
      · next heq =>
        rw [heq] at hqueued
        exact hqueued
      · next heq =>
        rw [heq] at hqueued
        exact hqueued.trans (.of_eq rfl le_rfl)

theorem drainLoop_discovers (attempts : Nat) (answers : Nat → QueueAnswer) :
    Discovers a (drainLoop attempts a answers) := by
  induction attempts generalizing a with
  | zero => exact .refl a
  | succ attempts ih =>
    unfold drainLoop
    split
    · exact .refl a
    · next candidate rest _ =>
      have hone := drainCandidate_discovers { a with pendingFactoryCandidates := rest } candidate (answers attempts)
      have hpopped : Discovers a { a with pendingFactoryCandidates := rest } := .of_eq rfl le_rfl
      split
      · next heq =>
        rw [heq] at hone
        exact (hpopped.trans hone).trans (ih _)
      · next heq =>
        rw [heq] at hone
        exact hpopped.trans hone

theorem drainFactoryCandidates_discovers (answers : Nat → QueueAnswer) : Discovers a (a.drainFactoryCandidates answers) :=
  drainLoop_discovers _ _ _

/-- A queued request is new work without a pool to revalidate. -/
theorem queueDiscovery_spec (owner : DiscoveryOwnerId) (request : TokenEdgeDiscoveryRequest) (options : AmmDiscoveryOptions)
    (answer : QueueAnswer) :
    (∃ error, a.queueDiscovery owner request options answer = (.error error, a)) ∨
      a.queueDiscovery owner request options answer = (.ok ⟨.discovery owner, a.nextWorkId⟩, { a with
        nextWorkId := a.nextWorkId + 1
        scheduledDiscovery := a.scheduledDiscovery.set ⟨.discovery owner, a.nextWorkId⟩
          ⟨owner, request, a.point, options.cls, options.maxCandidates, none⟩ }) := by
  unfold queueDiscovery
  split_ifs
  · exact .inl ⟨_, rfl⟩
  · exact .inl ⟨_, rfl⟩
  · exact .inl ⟨_, rfl⟩
  · split
    · exact .inl ⟨_, rfl⟩
    · split_ifs
      · exact .inl ⟨_, rfl⟩
      · split
        · exact .inl ⟨_, rfl⟩
        · exact .inl ⟨_, rfl⟩
        · exact .inr rfl

/-- A queued revalidation. -/
theorem queueRevalidation_discovers {owner : DiscoveryOwnerId} {request : TokenEdgeDiscoveryRequest}
    {options : AmmDiscoveryOptions} {answer : QueueAnswer} {work : RuntimeWorkId} {b : AmmRuntimeActor}
    (h : a.queueDiscovery owner request options answer = (.ok work, b)) (pool : PoolInstanceId) :
    Discovers a (b.setRevalidatePool work pool) := by
  rcases a.queueDiscovery_spec owner request options answer with ⟨error, hfails⟩ | hqueued
  · cases hfails.symm.trans h
  · cases hqueued.symm.trans h
    unfold setRevalidatePool
    rw [Table.get_set, if_pos rfl]
    dsimp only
    refine ⟨Nat.le_succ _, fun work scheduled hwork => ?_⟩
    rw [Table.get_set, Table.get_set] at hwork
    split_ifs at hwork with hnew
    · obtain rfl := hnew
      cases hwork
      exact .inr ⟨le_rfl, Nat.lt_succ_self _, rfl⟩
    · exact .inl hwork

theorem dropRevalidation_discovers (pool : PoolInstanceId) (owner : DiscoveryOwnerId) :
    Discovers a (a.dropRevalidation pool owner) := .of_eq rfl le_rfl

theorem revalidationLoop_discovers (pending : List
    (Sigma fun _ : PoolInstanceId × DiscoveryOwnerId => TokenEdgeDiscoveryRequest)) (answers : Nat →
    QueueAnswer) : Discovers a (revalidationLoop pending a answers) := by
  induction pending generalizing a with
  | nil => exact .refl a
  | cons head rest ih =>
    obtain ⟨⟨pool, owner⟩, request⟩ := head
    unfold revalidationLoop
    split_ifs
    · exact (a.dropRevalidation_discovers pool owner).trans (ih _)
    · exact .of_eq rfl le_rfl
    · have hkept : ∀ {error b}, a.queueDiscovery owner request (AmmDiscoveryOptions.default.withClass .repair)
          (answers rest.length) = (.error error, b) → b = a := by
        intro error b h
        rcases a.queueDiscovery_spec owner request (AmmDiscoveryOptions.default.withClass .repair)
          (answers rest.length) with
          ⟨_, hfails⟩ | hqueued
        · cases hfails.symm.trans h
          rfl
        · cases hqueued.symm.trans h
      split
      · next h =>
        exact ((a.queueRevalidation_discovers h pool).trans (dropRevalidation_discovers _ _ _)).trans (ih _)
      · next h =>
        obtain rfl := hkept h
        exact .of_eq rfl le_rfl
      · next h =>
        obtain rfl := hkept h
        exact .refl _

theorem drainRevalidations_discovers (answers : Nat → QueueAnswer) : Discovers a (a.drainRevalidations answers) := by
  unfold drainRevalidations
  split_ifs
  · exact revalidationLoop_discovers _ _ _
  · exact .refl a

theorem dropRequest_discovers (pool : PoolInstanceId) (owner : DiscoveryOwnerId) :
    Discovers a (a.dropRequest pool owner) := by
  unfold dropRequest
  split <;> exact .of_eq rfl le_rfl

theorem commitRevalidation_discovers (pool : PoolInstanceId) (scheduled : AmmScheduledDiscoveryWork) (found : Bool)
    (answers : Answers) : Discovers a (a.commitRevalidation pool scheduled found answers).1 := by
  unfold commitRevalidation
  split_ifs
  · have hconfirmed : Discovers a (a.confirmPool pool scheduled.owner scheduled.request) := .of_eq rfl le_rfl
    exact hconfirmed.trans (drainRevalidations_discovers _ _)
  · exact a.drainRevalidations_discovers _
  · have hdropped := a.dropRequest_discovers pool scheduled.owner
    dsimp only
    split
    · next retained _ =>
      have hretained : Discovers (a.dropRequest pool scheduled.owner) { a.dropRequest pool scheduled.owner with
          registrationEvidence := (a.dropRequest pool scheduled.owner).registrationEvidence.set pool retained } :=
        .of_eq rfl le_rfl
      exact hdropped.trans (hretained.trans (drainRevalidations_discovers _ _))
    · exact hdropped

theorem release_discovers (work : RuntimeWorkId) (scheduled : AmmScheduledPoolWork) :
    Discovers a (a.release work scheduled) := by
  unfold release cancelPoolReservation
  dsimp only
  split_ifs <;> exact .of_eq rfl le_rfl

theorem detachScheduledWork_discovers (work : RuntimeWorkId) : Discovers a (a.detachScheduledWork work) := by
  unfold detachScheduledWork
  split_ifs
  · exact .refl a
  · split
    · exact a.release_discovers _ _
    · exact .removeDiscoveryWork a work

theorem cancelScheduledWork_discovers (work : RuntimeWorkId) (numbered : Bool) :
    Discovers a (a.cancelScheduledWork work numbered) := by
  unfold cancelScheduledWork
  split
  · exact .removeDiscoveryWork a work
  · split
    · exact .refl a
    · split_ifs
      · exact a.release_discovers _ _
      · exact .refl a

theorem activatePrepared_discovers (registration : PoolRegistration) : Discovers a (a.activatePrepared registration) :=
  .of_eq rfl le_rfl

theorem finishInstall_discovers (work : RuntimeWorkId) (scheduled : AmmScheduledPoolWork) (baseline : AmmStatePoint)
    (answer : InstallAnswer) : Discovers a (a.finishInstall work scheduled baseline answer) := by
  unfold finishInstall
  dsimp only
  by_cases hrefused : (!a.trusted || baseline ≠ a.point || a.reservations.get scheduled.reservation.key ≠
    some scheduled.reservation ||
      a.activePools.contains scheduled.reservation.key) = true
  · rw [if_pos hrefused]
    exact .refl a
  · rw [if_neg hrefused]
    cases answer with
    | refuses => exact .refl a
    | rollsBack trusted => exact .of_eq rfl le_rfl
    | patchFails => exact .of_eq rfl le_rfl
    | installs reported => cases reported <;> exact .of_eq rfl le_rfl

theorem installPreparedPools_discovers (pools : List PoolRegistration) (baseline : AmmStatePoint) (answer : InstallAnswer) :
    Discovers a (a.installPreparedPools pools baseline answer) := by
  unfold installPreparedPools
  split_ifs
  · exact .refl a
  · cases answer with
    | refuses => exact .refl a
    | rollsBack trusted => exact .of_eq rfl le_rfl
    | patchFails => exact .of_eq rfl le_rfl
    | installs reported => exact .foldl activatePrepared_discovers pools a

theorem removePoolSerialized_discovers (pool : PoolInstanceId) (answer : RemovalAnswer) :
    Discovers a (a.removePoolSerialized pool answer).2 := by
  unfold removePoolSerialized
  split_ifs
  · exact .refl a
  · cases answer <;> exact .of_eq rfl le_rfl

theorem addFactoryWatcher_discovers (key : DiscoveryOwnerKey) (adapter : AdapterInstanceId) (accepted : Bool) :
    Discovers a (a.addFactoryWatcher key adapter accepted) := by
  unfold addFactoryWatcher
  split_ifs <;> exact .of_eq rfl le_rfl

theorem removeFactoryWatcher_discovers (owner : DiscoveryOwnerId) (accepted : Bool) :
    Discovers a (a.removeFactoryWatcher owner accepted) := by
  unfold removeFactoryWatcher
  split_ifs
  · exact .refl a
  · have hremoved : Discovers a (a.removeDiscovery owner) := .of_eq rfl le_rfl
    exact (hremoved.trans (.foldl detachScheduledWork_discovers _ _)).trans (.of_eq rfl le_rfl)

theorem addAdapter_discovers (adapter : AdapterInstanceId) (accepted : Bool) :
    Discovers a (a.addAdapter adapter accepted) := by
  unfold addAdapter
  split_ifs <;> exact .of_eq rfl le_rfl

theorem detachAdapter_discovers (adapter : AdapterInstanceId) : Discovers a (a.detachAdapter adapter) := by
  have hdetached : Discovers a { a with adapters := a.adapters.filter (· ≠ adapter) } := .of_eq rfl le_rfl
  exact hdetached.trans (.foldl detachScheduledWork_discovers _ _)

theorem removeAdapter_discovers (adapter : AdapterInstanceId) (accepted : Bool) :
    Discovers a (a.removeAdapter adapter accepted) := by
  unfold removeAdapter
  split_ifs
  · exact a.detachAdapter_discovers adapter
  · exact .refl a

theorem removeAdapterCascade_discovers (adapter : AdapterInstanceId) (pools : List PoolInstanceId)
    (owners : List DiscoveryOwnerId) (accepted : Bool) :
    Discovers a (a.removeAdapterCascade adapter pools owners accepted) := by
  unfold removeAdapterCascade
  split_ifs
  · exact .refl a
  · have hwatchers : ∀ b : AmmRuntimeActor, Discovers b (owners.foldl removeDiscovery b) :=
      Discovers.foldl (f := removeDiscovery) (fun _ _ => .of_eq rfl le_rfl) owners
    have hpools : ∀ b : AmmRuntimeActor, Discovers b (pools.foldl dropPool b) :=
      Discovers.foldl (f := dropPool) (fun _ _ => .of_eq rfl le_rfl) pools
    have hdetached := Discovers.foldl detachScheduledWork_discovers
      (a.scheduledDiscovery.keysWhere fun _ scheduled => scheduled.owner ∈ owners) (a.detachAdapter adapter)
    exact (a.detachAdapter_discovers adapter).trans (hdetached.trans ((hwatchers _).trans (hpools _)))

/-! ### Reorgs -/

theorem cancelOrphans_discovers (orphaned : List RuntimeWorkId) (numbered : Nat) :
    Discovers a (cancelOrphans orphaned numbered a).2 := by
  induction orphaned generalizing a numbered with
  | nil => cases numbered <;> exact .refl a
  | cons work rest ih =>
    cases numbered with
    | zero => exact .refl a
    | succ numbered => exact (a.cancelScheduledWork_discovers work true).trans (ih _ numbered)

/-- The end of a reconciliation, whether or not every orphan is cancelled. -/
theorem reconcile_discovers (dropped : List B256) (numbered : Nat) :
    Discovers a (a.reconcileOrphanedPendingRegistrations dropped numbered).2 := by
  unfold reconcileOrphanedPendingRegistrations
  split_ifs
  · exact .refl a
  · dsimp only
    generalize hreconciled : ({ a with
      pendingFactoryCandidates := a.pendingFactoryCandidates.filterMap (reconcileCandidate dropped)
      scheduledWork := _ } : AmmRuntimeActor) = reconciled
    have hfirst : Discovers a reconciled := hreconciled ▸ .of_eq rfl le_rfl
    have hcancelled := fun orphaned => cancelOrphans_discovers reconciled orphaned numbered
    split
    · next heq =>
      have h := hcancelled (a.scheduledWork.keysWhere fun _ scheduled => (crossing dropped scheduled.evidence).isNone)
      rw [heq] at h
      exact hfirst.trans h
    · next heq =>
      have h := hcancelled (a.scheduledWork.keysWhere fun _ scheduled => (crossing dropped scheduled.evidence).isNone)
      rw [heq] at h
      exact (hfirst.trans h).trans (.of_eq rfl le_rfl)

theorem revalidatePool_discovers (pool : PoolInstanceId) (requests : Revalidations) (dropped : List B256) :
    Discovers a (a.revalidatePool pool requests dropped) := by
  unfold revalidatePool
  dsimp only
  split
  · exact .of_eq rfl le_rfl
  · split <;> exact .of_eq rfl le_rfl

theorem takeActions_discovers (dropped : List B256)
    (actions : List (PoolInstanceId × RegistrationReorgAction × Option Revalidations)) :
    Discovers a (takeActions dropped actions a).1 := by
  induction actions generalizing a with
  | nil => exact .refl a
  | cons head rest ih =>
    obtain ⟨pool, action, requests⟩ := head
    unfold takeActions
    split_ifs
    · exact ih a
    · split
      · exact .refl a
      · exact (a.revalidatePool_discovers pool _ dropped).trans (ih _)
      · have hdistrusted : Discovers a a.markUntrusted := .of_eq rfl le_rfl
        exact hdistrusted.trans (ih a.markUntrusted)
      · exact ih a

theorem finishIngest_discovers (reorg : Reorg) (numbered : Nat) (answers : Answers) :
    Discovers a (a.finishIngest reorg numbered answers) := by
  have hreconciled := a.reconcile_discovers reorg.droppedHashes numbered
  unfold finishIngest
  split
  · next heq =>
    rw [heq] at hreconciled
    exact hreconciled
  · next b heq =>
    rw [heq] at hreconciled
    have hretained := Discovers.foldl retainFactoryCandidate_discovers reorg.candidates
      (b.drainRevalidations answers.revalidations)
    exact hreconciled.trans ((b.drainRevalidations_discovers answers.revalidations).trans
      (hretained.trans (drainFactoryCandidates_discovers _ _)))

end AmmRuntimeActor

/-! ### Requests -/

/-- Every discovery work of a client serves a request under its bound, a bounded request is served by its own work alone,
    and it has admitted nothing while that work is scheduled. -/
structure Bounded (a : AmmRuntimeActor) (l : Ledger) : Prop where
  fresh : ∀ work scheduled, a.scheduledDiscovery.get work = some scheduled → work.work < a.nextWorkId
  named : ∀ work request, l.serves work = some request → work.work < a.nextWorkId ∧ request.work < a.nextWorkId
  requested : ∀ request n, l.maxCandidates request = some n → request.work < a.nextWorkId
  served : ∀ work scheduled, a.scheduledDiscovery.get work = some scheduled → scheduled.revalidatePool = none →
    ∃ request, l.serves work = some request ∧ scheduled.maxCandidates = l.maxCandidates request
  alone : ∀ work request n, l.serves work = some request → l.maxCandidates request = some n → work = request
  waiting : ∀ request n scheduled, l.maxCandidates request = some n → a.scheduledDiscovery.get request = some scheduled →
    l.admitted request = []
  within : ∀ request n, l.maxCandidates request = some n → (l.admitted request).length ≤ n

namespace Bounded
variable {a b : AmmRuntimeActor} {l : Ledger}

theorem discovers (h : Bounded a l) (hd : Discovers a b) : Bounded b l where
  fresh work scheduled hwork := by
    have hnext := hd.next
    rcases hd.work work scheduled hwork with hold | ⟨-, hlt, -⟩
    · exact (h.fresh work scheduled hold).trans_le hnext
    · exact hlt
  named work request hserves := by
    have hnext := hd.next
    obtain ⟨hwork, hrequest⟩ := h.named work request hserves
    exact ⟨hwork.trans_le hnext, hrequest.trans_le hnext⟩
  requested request n hbound := (h.requested request n hbound).trans_le hd.next
  served work scheduled hwork hclient := by
    rcases hd.work work scheduled hwork with hold | ⟨-, -, hpool⟩
    · exact h.served work scheduled hold hclient
    · rw [hclient] at hpool
      cases hpool
  alone := h.alone
  waiting request n scheduled hbound hwork := by
    rcases hd.work request scheduled hwork with hold | ⟨hge, -, -⟩
    · exact h.waiting request n scheduled hbound hold
    · exact absurd (h.requested request n hbound) (not_lt.mpr hge)
  within := h.within

/-- A request is queued under its own name. -/
theorem queue (h : Bounded a l) (owner : DiscoveryOwnerId) (request : TokenEdgeDiscoveryRequest)
    (options : AmmDiscoveryOptions) (answer : QueueAnswer) : Bounded (a.queueDiscovery owner request options answer).2
      (l.queue options (a.queueDiscovery owner request options answer).1) := by
  rcases a.queueDiscovery_spec owner request options answer with ⟨error, hfails⟩ | hqueued
  · rw [hfails]
    exact h
  · rw [hqueued]
    have hold : ∀ {request : RuntimeWorkId}, request.work < a.nextWorkId → request ≠ ⟨.discovery owner, a.nextWorkId⟩ := by
      rintro request hlt rfl
      exact Nat.lt_irrefl _ hlt
    refine ⟨fun work scheduled hwork => ?_, fun work request hserves => ?_, fun request n hbound => ?_,
      fun work scheduled hwork hclient => ?_, fun work request n hserves hbound => ?_,
      fun request n scheduled hbound hwork => ?_, fun request n hbound => ?_⟩
    · dsimp only at hwork ⊢
      rw [Table.get_set] at hwork
      split_ifs at hwork with hnew
      · exact hnew ▸ Nat.lt_succ_self _
      · exact Nat.lt_succ_of_lt (h.fresh work scheduled hwork)
    · dsimp only [Ledger.queue] at hserves ⊢
      rw [Function.update_apply] at hserves
      split_ifs at hserves with hnew
      · cases hserves
        exact ⟨hnew ▸ Nat.lt_succ_self _, Nat.lt_succ_self _⟩
      · obtain ⟨hwork, hrequest⟩ := h.named work request hserves
        exact ⟨Nat.lt_succ_of_lt hwork, Nat.lt_succ_of_lt hrequest⟩
    · dsimp only [Ledger.queue] at hbound ⊢
      rw [Function.update_apply] at hbound
      split_ifs at hbound with hnew
      · exact hnew ▸ Nat.lt_succ_self _
      · exact Nat.lt_succ_of_lt (h.requested request n hbound)
    · dsimp only [Ledger.queue] at hwork ⊢
      rw [Table.get_set] at hwork
      split_ifs at hwork with hnew
      · cases hwork
        exact ⟨_, by rw [Function.update_apply, if_pos hnew], by rw [Function.update_self]⟩
      · obtain ⟨request, hserves, hbound⟩ := h.served work scheduled hwork hclient
        refine ⟨request, by rw [Function.update_apply, if_neg hnew, hserves], ?_⟩
        rw [Function.update_apply, if_neg (hold (h.named work request hserves).2), hbound]
    · dsimp only [Ledger.queue] at hserves hbound
      rw [Function.update_apply] at hserves hbound
      split_ifs at hserves with hnew
      · cases hserves
        exact hnew
      · rw [if_neg (hold (h.named work request hserves).2)] at hbound
        exact h.alone work request n hserves hbound
    · dsimp only [Ledger.queue] at hbound hwork ⊢
      rw [Function.update_apply] at hbound ⊢
      rw [Table.get_set] at hwork
      split_ifs at hbound hwork ⊢ with hnew
      · rfl
      · exact h.waiting request n scheduled hbound hwork
    · dsimp only [Ledger.queue] at hbound ⊢
      rw [Function.update_apply] at hbound ⊢
      split_ifs at hbound ⊢ with hnew
      · exact Nat.zero_le n
      · exact h.within request n hbound

/-- An unbounded request is queued again. -/
theorem retry (h : Bounded a l) {work : RuntimeWorkId} {scheduled : AmmScheduledDiscoveryWork} {stale numbered : Bool}
    (hretried : a.retried work stale numbered = some scheduled) (hunbounded : scheduled.maxCandidates = none)
    (answer : QueueAnswer) :
    Bounded ((a.removeDiscoveryWork work).queueDiscovery scheduled.owner scheduled.request
        (AmmDiscoveryOptions.default.withClass scheduled.cls) answer).2
      (l.retry work ((a.removeDiscoveryWork work).queueDiscovery scheduled.owner scheduled.request
        (AmmDiscoveryOptions.default.withClass scheduled.cls) answer).1) := by
  have hb := h.discovers (.removeDiscoveryWork a work)
  obtain ⟨hwork, hclient⟩ := Option.filter_eq_some_iff.mp hretried
  have hclient : scheduled.revalidatePool = none := by
    simp only [Bool.and_eq_true, Option.isNone_iff_eq_none] at hclient
    exact hclient.1.2
  obtain ⟨request, hserves, hbound⟩ := h.served work scheduled hwork hclient
  rw [hunbounded] at hbound
  rcases (a.removeDiscoveryWork work).queueDiscovery_spec scheduled.owner scheduled.request
      (AmmDiscoveryOptions.default.withClass scheduled.cls) answer with ⟨error, hfails⟩ | hqueued
  · rw [hfails]
    exact hb
  · rw [hqueued]
    refine ⟨fun other entry hother => ?_, fun other served hother => ?_, fun served n hn => ?_,
      fun other entry hother hentry => ?_, fun other served n hother hn => ?_,
        fun served n entry hn hother => ?_, hb.within⟩
    · dsimp only at hother ⊢
      rw [Table.get_set] at hother
      split_ifs at hother with hnew
      · exact hnew ▸ Nat.lt_succ_self _
      · exact Nat.lt_succ_of_lt (hb.fresh other entry hother)
    · dsimp only [Ledger.retry] at hother ⊢
      rw [Function.update_apply, hserves] at hother
      split_ifs at hother with hnew
      · cases hother
        exact ⟨hnew ▸ Nat.lt_succ_self _, Nat.lt_succ_of_lt (hb.named work request hserves).2⟩
      · obtain ⟨h₁, h₂⟩ := hb.named other served hother
        exact ⟨Nat.lt_succ_of_lt h₁, Nat.lt_succ_of_lt h₂⟩
    · exact Nat.lt_succ_of_lt (hb.requested served n hn)
    · dsimp only [Ledger.retry] at hother ⊢
      rw [Table.get_set] at hother
      rw [Function.update_apply, hserves]
      split_ifs at hother ⊢ with hnew
      · cases hother
        exact ⟨request, rfl, hbound⟩
      · exact hb.served other entry hother hentry
    · dsimp only [Ledger.retry] at hother hn
      rw [Function.update_apply, hserves] at hother
      split_ifs at hother with hnew
      · cases hother
        cases hbound.trans hn
      · exact hb.alone other served n hother hn
    · dsimp only [Ledger.retry] at hother hn
      rw [Table.get_set] at hother
      split_ifs at hother with hnew
      · exact absurd (hb.requested served n hn) (not_lt.mpr (hnew ▸ le_rfl))
      · exact hb.waiting served n entry hn hother

/-- An unbounded request may admit any number of pools. -/
theorem credit_unbounded (h : Bounded a l) {work : RuntimeWorkId}
    (hunbounded : ∀ request, l.serves work = some request → l.maxCandidates request = none) (keys : List PoolKey) :
    Bounded a (l.credit work keys) := by
  unfold Ledger.credit
  split
  · next request hserves =>
    have hnone := hunbounded request hserves
    have hkept : ∀ {other n}, l.maxCandidates other = some n → other ≠ request := by
      rintro other n hbound rfl
      cases hnone.symm.trans hbound
    refine ⟨h.fresh, h.named, h.requested, h.served, h.alone, fun other n scheduled hbound hwork => ?_,
      fun other n hbound => ?_⟩
    · dsimp only
      rw [Function.update_of_ne (hkept hbound)]
      exact h.waiting other n scheduled hbound hwork
    · dsimp only
      rw [Function.update_of_ne (hkept hbound)]
      exact h.within other n hbound
  · exact h

/-- Work admits for its request when it is completed. -/
theorem credit (h : Bounded a l) {work : RuntimeWorkId} {scheduled : AmmScheduledDiscoveryWork}
    (hwork : a.scheduledDiscovery.get work = some scheduled)
    (hclient : scheduled.revalidatePool = none) {keys : List PoolKey} (hkeys : ∀ n, scheduled.maxCandidates = some n →
    keys.length ≤ n) : Bounded (a.removeDiscoveryWork work) (l.credit work keys) := by
  obtain ⟨request, hserves, hbound⟩ := h.served work scheduled hwork hclient
  have hb := h.discovers (.removeDiscoveryWork a work)
  rw [Ledger.credit, hserves]
  refine ⟨hb.fresh, hb.named, hb.requested, hb.served, hb.alone, fun other n entry hn hother => ?_, fun other n hn => ?_⟩
  · dsimp only at hn ⊢
    by_cases hsame : other = request
    · subst hsame
      obtain rfl := h.alone work other n hserves hn
      rw [AmmRuntimeActor.removeDiscoveryWork, Table.get_remove, if_pos rfl] at hother
      cases hother
    · rw [Function.update_of_ne hsame]
      exact hb.waiting other n entry hn hother
  · dsimp only at hn ⊢
    by_cases hsame : other = request
    · subst hsame
      obtain rfl := h.alone work other n hserves hn
      rw [Function.update_self, h.waiting work n scheduled hn hwork, List.nil_append]
      exact hkeys n (hbound.trans hn)
    · rw [Function.update_of_ne hsame]
      exact h.within other n hn

end Bounded

theorem Ledger.credit_nil (l : Ledger) (work : RuntimeWorkId) : l.credit work [] = l := by
  unfold Ledger.credit
  split
  · rw [List.append_nil, Function.update_eq_self]
  · rfl

namespace AmmRuntimeActor
variable {a : AmmRuntimeActor}

theorem retainFactoryCandidate_discovery (a : AmmRuntimeActor) (candidate : AmmFactoryCandidate) :
    (a.retainFactoryCandidate candidate).scheduledDiscovery = a.scheduledDiscovery ∧
      (a.retainFactoryCandidate candidate).nextWorkId = a.nextWorkId := by
  unfold retainFactoryCandidate
  split
  · split <;> exact ⟨rfl, rfl⟩
  · split_ifs <;> exact ⟨rfl, rfl⟩

theorem foldl_retain_discovery {α : Type} (f : α → AmmFactoryCandidate) (l : List α) (a : AmmRuntimeActor) :
    (l.foldl (fun a x => a.retainFactoryCandidate (f x)) a).scheduledDiscovery = a.scheduledDiscovery ∧
      (l.foldl (fun a x => a.retainFactoryCandidate (f x)) a).nextWorkId = a.nextWorkId := by
  induction l generalizing a with
  | nil => exact ⟨rfl, rfl⟩
  | cons x rest ih =>
    obtain ⟨hwork, hnext⟩ := a.retainFactoryCandidate_discovery (f x)
    rw [List.foldl_cons, (ih _).1, (ih _).2]
    exact ⟨hwork, hnext⟩

theorem admitted_length (report : TokenEdgeDiscoveryReport) (protocols : List ProtocolId) (n : Nat) :
    (report.admitted protocols (some n)).length ≤ n := List.length_take_le n _

/-- A completion keeps the bound, unless it leaves bounded work scheduled. -/
theorem commitScheduledDiscovery_bounded {l : Ledger} (h : Bounded a l) (work : RuntimeWorkId) (owner : DiscoveryOwnerId)
    (report : TokenEdgeDiscoveryReport) (numbered : Bool) (answers : Answers)
    (hnumbered : ∀ scheduled, a.scheduledDiscovery.get work = some scheduled →
      scheduled.maxCandidates ≠ none → numbered = true) :
    Bounded (a.commitScheduledDiscovery work owner report numbered answers).1
      (l.credit work ((a.admits work owner report).map (·.key))) := by
  unfold commitScheduledDiscovery admits
  cases hwork : a.scheduledDiscovery.get work with
  | none =>
    dsimp only
    rw [List.map_nil, l.credit_nil]
    exact h
  | some scheduled =>
    dsimp only
    cases hprotocols : a.watcherProtocols owner with
    | none =>
      dsimp only
      rw [List.map_nil, l.credit_nil]
      split_ifs <;> exact h
    | some protocols =>
      dsimp only
      cases haccepts : a.acceptsReport scheduled owner report with
      | false =>
        rw [Bool.false_and, if_neg Bool.false_ne_true, List.map_nil, l.credit_nil, Bool.not_false, if_pos rfl]
        exact h
      | true =>
        rw [Bool.true_and, if_neg (by simp)]
        cases hpool : scheduled.revalidatePool with
        | some pool =>
          dsimp only
          rw [Option.isNone_some, if_neg Bool.false_ne_true, List.map_nil, l.credit_nil]
          split_ifs
          · exact h
          · exact h.discovers (.trans (.removeDiscoveryWork a work) (commitRevalidation_discovers _ _ _ _ _))
        | none =>
          dsimp only
          rw [Option.isNone_none, if_pos rfl]
          obtain ⟨hkept, hnext⟩ := foldl_retain_discovery (reportedCandidate scheduled)
            (report.admitted protocols scheduled.maxCandidates) a
          generalize (report.admitted protocols scheduled.maxCandidates).foldl
            (fun a registration => a.retainFactoryCandidate (reportedCandidate scheduled registration))
              a = b at hkept hnext ⊢
          have hb := h.discovers (.of_eq hkept hnext.ge)
          rw [← hkept] at hwork
          cases numbered with
          | false =>
            rw [Bool.not_false, if_pos rfl]
            have hunbounded : scheduled.maxCandidates = none := by
              by_contra hbounded
              cases hnumbered scheduled (hkept ▸ hwork) hbounded
            refine hb.credit_unbounded (fun request hserves => ?_) _
            obtain ⟨request', hserves', hbound⟩ := hb.served work scheduled hwork hpool
            cases hserves.symm.trans hserves'
            exact hbound.symm.trans hunbounded
          | true =>
            rw [if_neg (by simp)]
            have hadmitted : Bounded (b.removeDiscoveryWork work)
                (l.credit work ((report.admitted protocols scheduled.maxCandidates).map (·.key))) := by
              refine hb.credit hwork hpool fun n hn => ?_
              rw [hn, List.length_map]
              exact admitted_length report protocols n
            exact hadmitted.discovers (.trans (drainFactoryCandidates_discovers _ _) (drainRevalidations_discovers _ _))

/-- A failure keeps the bound, unless it retries bounded work. -/
theorem failScheduledWork_bounded {l : Ledger} (h : Bounded a l) (work : RuntimeWorkId) (stale numbered : Bool)
    (answer : QueueAnswer) (answers : Answers)
    (hunbounded : ∀ scheduled, a.retried work stale numbered = some scheduled → scheduled.maxCandidates = none) :
    Bounded (a.failScheduledWork work stale numbered answer answers)
      (match a.retried work stale numbered with
        | some scheduled => l.retry work ((a.removeDiscoveryWork work).queueDiscovery scheduled.owner scheduled.request
            (AmmDiscoveryOptions.default.withClass scheduled.cls) answer).1
        | none => l) := by
  cases hretried : a.retried work stale numbered with
  | some scheduled =>
    have hbounded := h.retry hretried (hunbounded scheduled hretried) answer
    obtain ⟨hwork, hclient⟩ := Option.filter_eq_some_iff.mp hretried
    simp only [Bool.and_eq_true, Option.isNone_iff_eq_none] at hclient
    obtain ⟨⟨⟨rfl, rfl⟩, hpool⟩, hactive⟩ := hclient
    unfold failScheduledWork failScheduledDiscovery
    rw [hwork]
    dsimp only
    rw [hpool, if_neg (by simp)]
    dsimp only
    have hremoved : (a.removeDiscoveryWork work).isActiveDiscovery scheduled.owner = true := hactive
    rw [hremoved, if_pos (by rfl)]
    exact hbounded
  | none =>
    refine h.discovers ?_
    unfold failScheduledWork
    cases hwork : a.scheduledDiscovery.get work with
    | some scheduled =>
      have hremoved := Discovers.removeDiscoveryWork a work
      dsimp only
      unfold failScheduledDiscovery
      dsimp only
      cases hnumbered : numbered with
      | false =>
        rw [Bool.not_false, if_pos rfl]
        exact hremoved
      | true =>
        rw [Bool.not_true, if_neg Bool.false_ne_true]
        cases hpool : scheduled.revalidatePool with
        | some pool =>
          dsimp only
          split_ifs
          · have hpending : Discovers a { a.removeDiscoveryWork work with
                pendingRevalidations := (a.removeDiscoveryWork work).pendingRevalidations.set (pool, scheduled.owner)
                  scheduled.request } := hremoved.trans (.of_eq rfl le_rfl)
            exact hpending.trans (drainRevalidations_discovers _ _)
          · exact hremoved.trans (.of_eq rfl le_rfl)
        | none =>
          dsimp only
          split_ifs with hretry
          · have hactive : (stale && a.isActiveDiscovery scheduled.owner) = true := hretry
            rw [Bool.and_eq_true] at hactive
            rw [retried, hwork, Option.filter_some, if_pos] at hretried
            · cases hretried
            · rw [hactive.1, hactive.2, hnumbered, hpool]
              rfl
          · exact hremoved
    | none =>
      dsimp only
      split
      · exact .refl a
      · next scheduled _ =>
        have hreleased := a.release_discovers work scheduled
        cases numbered with
        | false => exact .refl a
        | true =>
          rw [Bool.not_true, if_neg Bool.false_ne_true]
          split
          · exact hreleased.trans ((retainFactoryCandidate_discovers _ _).trans (drainFactoryCandidates_discovers _ _))
          · exact hreleased

end AmmRuntimeActor

/-! ### Runs -/

/-- An event keeps the bounds of requests: no bounded work is retried after its baseline went stale, and none is left
    scheduled by a completion whose event has no number. -/
def KeepsBounds (m : Machine) : Event → Prop
  | .command (.failScheduledWork work stale numbered _ _) => m.suspended = [] →
    ∀ scheduled, m.actor.retried work stale numbered = some scheduled → scheduled.maxCandidates = none
  | .command (.commitScheduledDiscovery work _ _ numbered _) => m.suspended = [] →
    ∀ scheduled, m.actor.scheduledDiscovery.get work = some scheduled → scheduled.maxCandidates ≠ none → numbered = true
  | _ => True

/-- All events of a run keep the bounds. -/
def RunKeepsBounds : Machine → List Event → Prop
  | _, [] => True
  | m, event :: events => KeepsBounds m event ∧ RunKeepsBounds (m.step event) events

namespace Machine

theorem handle_bounded {a : AmmRuntimeActor} {l : Ledger} (h : Bounded a l) (command : Command)
    (hkeeps : KeepsBounds ⟨a, []⟩ (.command command)) :
    Bounded (handle a command).actor (l.record ⟨a, []⟩ (.command command)) := by
  cases command with
  | attachColdStartWorker answers =>
    refine h.discovers ?_
    unfold handle attachColdStartWorker
    split_ifs
    · exact .refl a
    · have hattached : Discovers a { a with coldStartWorker := true } := .of_eq rfl le_rfl
      exact hattached.trans ((AmmRuntimeActor.drainFactoryCandidates_discovers _ _).trans
        (AmmRuntimeActor.drainRevalidations_discovers _ _))
  | addFactoryWatcher key adapter accepted => exact h.discovers (a.addFactoryWatcher_discovers key adapter accepted)
  | removeFactoryWatcher owner accepted => exact h.discovers (a.removeFactoryWatcher_discovers owner accepted)
  | queueColdStart pools cls answer => exact h.discovers (a.queueColdStart_discovers pools cls answer)
  | queueDiscovery owner request options answer => exact h.queue owner request options answer
  | commitScheduledDiscovery work owner report numbered answers =>
    rw [handle_commitScheduledDiscovery]
    exact AmmRuntimeActor.commitScheduledDiscovery_bounded h work owner report numbered answers (hkeeps rfl)
  | commitScheduledPool work pool registration baseline =>
    rw [handle_commitScheduledPool]
    exact h
  | installPreparedPools pools baseline answer => exact h.discovers (a.installPreparedPools_discovers pools baseline answer)
  | failScheduledWork work stale numbered answer answers =>
    exact AmmRuntimeActor.failScheduledWork_bounded h work stale numbered answer answers (hkeeps rfl)
  | cancelScheduledWork work numbered => exact h.discovers (a.cancelScheduledWork_discovers work numbered)
  | removePool pool answer => exact h.discovers (a.removePoolSerialized_discovers pool answer)
  | addAdapter adapter accepted => exact h.discovers (a.addAdapter_discovers adapter accepted)
  | removeAdapter adapter accepted => exact h.discovers (a.removeAdapter_discovers adapter accepted)
  | removeAdapterCascade adapter pools owners accepted =>
    exact h.discovers (a.removeAdapterCascade_discovers adapter pools owners accepted)
  | distrust => exact h.discovers (.of_eq rfl le_rfl)

theorem proceed_discovers (a : AmmRuntimeActor) (reorg : Reorg) (numbered : Nat) (answers : Answers)
    (waiting : List Suspended) : Discovers a (proceed a reorg numbered answers waiting).actor := by
  have htaken := a.takeActions_discovers reorg.droppedHashes reorg.actions
  unfold proceed
  split
  · next heq =>
    rw [heq] at htaken
    exact htaken.trans (AmmRuntimeActor.finishIngest_discovers _ _ _ _)
  · next heq =>
    rw [heq] at htaken
    exact htaken

theorem ingest_discovers (m : Machine) (batch : AmmCanonicalBatch) (answer : IngestAnswer)
    (numbered : Nat) (answers : Answers) : Discovers m.actor (m.ingest batch answer numbered answers).actor := by
  unfold ingest
  dsimp only
  split_ifs
  · exact .refl _
  · cases answer with
    | refuses => exact .refl _
    | breaks => exact .of_eq rfl le_rfl
    | publishes =>
      have hpoint : Discovers m.actor { m.actor with point := ⟨batch.chainId, batch.blockNumber, batch.blockHash⟩ } :=
        .of_eq rfl le_rfl
      exact hpoint.trans (proceed_discovers _ _ _ _ _)

theorem resume_discovers (m : Machine) (install : InstallAnswer) (removal : RemovalAnswer)
    (numbered : Nat) (answers : Answers) : Discovers m.actor (m.resume install removal numbered answers).actor := by
  unfold resume
  split
  · exact .refl _
  · exact AmmRuntimeActor.finishInstall_discovers _ _ _ _ _
  · next pool waiting _ =>
    have hremoved := m.actor.removePoolSerialized_discovers pool removal
    split
    · next heq =>
      rw [heq] at hremoved
      exact hremoved.trans (AmmRuntimeActor.drainRevalidations_discovers _ _)
    · next heq =>
      rw [heq] at hremoved
      exact hremoved
  · next pool rest waiting _ =>
    have hremoved := m.actor.removePoolSerialized_discovers pool removal
    split
    · next heq =>
      rw [heq] at hremoved
      exact hremoved.trans (proceed_discovers _ _ _ _ _)
    · next heq =>
      rw [heq] at hremoved
      exact hremoved

theorem step_bounded {m : Machine} {l : Ledger} (h : Bounded m.actor l) (event : Event) (hkeeps : KeepsBounds m event) :
    Bounded (m.step event).actor (l.record m event) := by
  cases event with
  | command command =>
    obtain ⟨a, suspended⟩ := m
    cases suspended with
    | nil => exact handle_bounded h command hkeeps
    | cons frame waiting => exact h
  | ingest batch answer numbered answers => exact h.discovers (m.ingest_discovers batch answer numbered answers)
  | resume install removal numbered answers => exact h.discovers (m.resume_discovers install removal numbered answers)

theorem run_bounded {m : Machine} {l : Ledger} (h : Bounded m.actor l) (events : List Event)
    (hkeeps : RunKeepsBounds m events) : Bounded (runLedger m l events).1.actor (runLedger m l events).2 := by
  induction events generalizing m l with
  | nil => exact h
  | cons event events ih => exact ih (step_bounded h event hkeeps.1) hkeeps.2

theorem start_scheduledDiscovery (point : AmmStatePoint) (adapters : List AdapterInstanceId) (pools : List PoolInstanceId) :
    (start point adapters pools).actor.scheduledDiscovery = .empty := rfl

theorem start_bounded (point : AmmStatePoint) (adapters : List AdapterInstanceId) (pools : List PoolInstanceId) :
    Bounded (start point adapters pools).actor .empty := by
  have hserves : ∀ work request, Ledger.empty.serves work ≠ some request := fun _ _ => nofun
  have hbound : ∀ request n, Ledger.empty.maxCandidates request ≠ some n := fun _ _ => nofun
  refine ⟨fun work scheduled h => ?_, fun work request h => absurd h (hserves work request),
    fun request n h => absurd h (hbound request n), fun work scheduled h => ?_,
    fun work request n h => absurd h (hserves work request), fun request n scheduled h => absurd h (hbound request n),
    fun request n h => absurd h (hbound request n)⟩
  · rw [start_scheduledDiscovery, Table.get_empty] at h
    cases h
  · rw [start_scheduledDiscovery, Table.get_empty] at h
    cases h

end Machine

/-- In a run in which no bounded discovery is retried, no request is served with more pools than it asked for. -/
theorem admitted_within_bound (point : AmmStatePoint) (adapters : List AdapterInstanceId) (pools : List PoolInstanceId)
    (events : List Event) (hkeeps : RunKeepsBounds (Machine.start point adapters pools) events) :
    ∀ request n, (runLedger (Machine.start point adapters pools) .empty events).2.maxCandidates request = some n →
      ((runLedger (Machine.start point adapters pools) .empty events).2.admitted request).length ≤ n :=
  (Machine.run_bounded (Machine.start_bounded point adapters pools) events hkeeps).within

/-! ### A watched chain -/

def v2Family : AdapterInstanceId := ⟨⟨[.uniswapV2]⟩, 0⟩

/-- The watcher that is registered first. -/
def firstWatcher : DiscoveryOwnerId := ⟨⟨"first"⟩, 0⟩

def poolAt (address : Address) : PoolRegistration := ⟨.uniswapV2 address, [], [], .unknown, .pending⟩

def accepting : Answers := ⟨fun _ => .accepts, fun _ => .accepts⟩

def blockAt (number : Nat) (hash : B256) (creations : List Creation) (dropped : List B256) : Event :=
  .ingest ⟨1, number, hash, creations, dropped⟩ .publishes 9 accepting

/-- An actor of one family with a worker and a watcher. -/
def watched : List Event :=
  [.command (.addAdapter v2Family true), .command (.attachColdStartWorker accepting),
    .command (.addFactoryWatcher ⟨"first"⟩ v2Family true)]

def chainStart : Machine := .start ⟨1, 0, 0⟩ [] []

/-- One pool of a token is asked for. -/
def oneWanted : Event := .command (.queueDiscovery firstWatcher ⟨7, [], none⟩ ⟨.focused, some 1⟩ .accepts)

/-- The completion of the watcher's discovery, which has found two pools. -/
def twoFound (work : Nat) : Event :=
  .command (.commitScheduledDiscovery ⟨.discovery firstWatcher, work⟩ firstWatcher
    ⟨⟨7, [], none⟩, [⟨.uniswapV2 1, poolAt 1⟩, ⟨.uniswapV2 2, poolAt 2⟩]⟩ true accepting)

theorem admitted_within_bound_watched :
    ((runLedger chainStart .empty (watched ++ [oneWanted, twoFound 0])).2.admitted
      ⟨.discovery firstWatcher, 0⟩).length ≤ 1 :=
  admitted_within_bound ⟨1, 0, 0⟩ [] [] (watched ++ [oneWanted, twoFound 0])
    (by
      refine ⟨trivial, trivial, trivial, trivial, fun _ _ _ _ => rfl, trivial⟩)
    ⟨.discovery firstWatcher, 0⟩ 1 (by decide +kernel)

/-- A block arrives during the discovery; its retry has lost the bound and admits both pools. -/
theorem admitted_beyond_bound : ∃ events request n,
    (runLedger chainStart .empty events).2.maxCandidates request = some n ∧
      n < ((runLedger chainStart .empty events).2.admitted request).dedup.length := by
  refine ⟨watched ++ [oneWanted, blockAt 1 1 [] [],
    .command (.failScheduledWork ⟨.discovery firstWatcher, 0⟩ true true .accepts accepting), twoFound 1],
    ⟨.discovery firstWatcher, 0⟩, 1, ?_, ?_⟩
  · decide +kernel
  · decide +kernel

end AmmState.Provenance
