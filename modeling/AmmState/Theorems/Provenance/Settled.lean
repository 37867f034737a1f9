import AmmState.Theorems.Provenance.Reorged

/-! No pool outlives its evidence across a reorg: once the reorg is ingested, an active pool with all of its evidence on
    dropped blocks is being revalidated, nothing that waits or is scheduled has any such evidence, and what has other
    evidence stays. A reorg that waits for a removal at its fence has to go on undisturbed for that. -/

namespace AmmState.Provenance

variable {a b : AmmRuntimeActor}

/-! ### The end of an ingest -/

theorem Changes.asked {allow : AmmRuntimeActor → Change → Prop} (h : Changes allow a b) (ha : Asked a) : Asked b :=
  h.keeps (P := Asked) (fun _ _ hc hfits _ => hc.change hfits) ha

theorem Changes.evident {allow : AmmRuntimeActor → Change → Prop} (h : Changes allow a b)
    (hentered : a.trusted = true → Entered a) (ha : a.trusted = true → Evident a) : b.trusted = true → Evident b := by
  have hboth := h.keeps (P := fun c => c.trusted = true → Entered c ∧ Evident c) (fun c change hc hfits _ htrusted => ?_)
    fun htrusted => ⟨hentered htrusted, ha htrusted⟩
  · exact fun htrusted => (hboth htrusted).2
  · obtain ⟨hentered, hevident⟩ := hc (change.trusted hfits htrusted)
    exact ⟨hentered.change hfits htrusted, hevident.change hentered hfits htrusted⟩

/-- What the changes of a handler keep up. -/
structure Sound (a : AmmRuntimeActor) : Prop where
  filed : Filed a
  entered : a.trusted = true → Entered a
  evident : a.trusted = true → Evident a
  asked : Asked a

theorem Changes.sound {allow : AmmRuntimeActor → Change → Prop} (h : Changes allow a b) (ha : Sound a) : Sound b :=
  ⟨(h.files ha.filed).filed, h.entered ha.entered, h.evident ha.entered ha.evident, h.asked ha.asked⟩

/-- What an ingest does after the reconciliation. -/
def AmmRuntimeActor.finishReconciled (a : AmmRuntimeActor) (candidates : List AmmFactoryCandidate) (answers : Answers) :
    AmmRuntimeActor :=
  (candidates.foldl retainFactoryCandidate
    (a.drainRevalidations answers.revalidations)).drainFactoryCandidates answers.candidates

theorem AmmRuntimeActor.finishReconciled_changes {allow : AmmRuntimeActor → Change → Prop} (a : AmmRuntimeActor)
    (candidates : List AmmFactoryCandidate) (answers : Answers)
    (hretain : ∀ b, ∀ candidate ∈ candidates, allow b (.retain candidate))
    (hdrop : ∀ b candidate rest answer, allow b (.drop candidate rest answer)) :
    Changes allow a (a.finishReconciled candidates answers) :=
  (a.drainRevalidations_changes _).trans ((foldl_retain_changes _ candidates hretain).1.trans
    (drainFactoryCandidates_changes _ _ fun b candidate rest _ _ _ => hdrop b candidate rest _))

theorem AmmRuntimeActor.finishReconciled_grows (hfiled : Filed a)
    (candidates : List AmmFactoryCandidate) (answers : Answers)
    (htrusted : (a.finishReconciled candidates answers).trusted = true) :
    Grows a (a.finishReconciled candidates answers) := by
  have hserves : Serves _ (a.finishReconciled candidates answers) := drainLoop_serves _ _ _
  have hretained : Machine.AnyChanges _ _ := ((a.drainRevalidations answers.revalidations).foldl_retain_changes candidates
    fun _ _ _ => trivial).1
  have hdrained := hretained.trusted (hserves.trusted.symm.trans htrusted)
  exact (Grows.drainRevalidations hfiled _ hdrained).trans ((Grows.foldl_retain candidates).trans (.serves hserves))

/-- An ingest that has nothing to cancel without a number gets to its end, with nothing left on dropped blocks. -/
theorem AmmRuntimeActor.finishIngest_settles (hsound : Sound a) {reorg : Reorg} {numbered : Nat} {answers : Answers}
    (h : a.trusted = true → Reorging a reorg.droppedHashes [])
    (hcandidates : ∀ candidate ∈ reorg.candidates, candidate.evidence.OffDropped reorg.droppedHashes)
    (hnumbered : (a.orphanedWork reorg.droppedHashes).length ≤ numbered)
    (htrusted : (a.finishIngest reorg numbered answers).trusted = true) :
    Reorging (a.finishIngest reorg numbered answers) reorg.droppedHashes [] ∧
      Cleared (a.finishIngest reorg numbered answers) reorg.droppedHashes := by
  obtain ⟨hreached, hcleared⟩ := Cleared.reconciled hsound.filed hnumbered
  have hreconciles : Machine.AnyChanges a (a.reconcileOrphanedPendingRegistrations reorg.droppedHashes numbered).2 :=
    reconcile_changes _ _ trivial (fun _ _ _ _ => trivial) fun _ => trivial
  obtain ⟨b, hb⟩ : ∃ b, a.reconcileOrphanedPendingRegistrations reorg.droppedHashes numbered = (true, b) :=
    ⟨_, Prod.ext hreached rfl⟩
  have hfinish : a.finishIngest reorg numbered answers = b.finishReconciled reorg.candidates answers := by
    rw [finishIngest, hb]
    rfl
  rw [hb] at hcleared hreconciles
  rw [hfinish] at htrusted ⊢
  have hsettles : Machine.AnyChanges b (b.finishReconciled reorg.candidates answers) :=
    b.finishReconciled_changes _ _ (fun _ _ _ => trivial) fun _ _ _ _ => trivial
  have hserving := hreconciles.trusted (hsettles.trusted htrusted)
  have hreconciled := (h hserving).reconciled hsound.filed (hsound.evident hserving) hnumbered
  rw [hb] at hreconciled
  have hreconciledSound := hreconciles.sound hsound
  refine ⟨hreconciled.grows (hreconciledSound.evident (hsettles.trusted htrusted)) ?_, hcleared.changes ?_⟩
  · exact finishReconciled_grows hreconciledSound.filed _ _ htrusted
  · exact b.finishReconciled_changes _ _ (fun _ => hcandidates) fun _ _ _ _ => trivial

/-- A nested ingest drops no blocks and lets what is under way grow. -/
theorem AmmRuntimeActor.finishIngest_grows (hfiled : Filed a) {reorg : Reorg}
    (hdropped : reorg.droppedHashes = []) {numbered : Nat} {answers : Answers}
    (htrusted : (a.finishIngest reorg numbered answers).trusted = true) :
    Grows a (a.finishIngest reorg numbered answers) := by
  have hfinish : a.finishIngest reorg numbered answers = a.finishReconciled reorg.candidates answers := by
    rw [finishIngest, hdropped]
    rfl
  rw [hfinish] at htrusted ⊢
  exact finishReconciled_grows hfiled _ _ htrusted

/-! ### Fences of a reorg -/

namespace Machine
open AmmRuntimeActor
variable {m : Machine} {dropped : List B256} {waiting : List Suspended}

/-- A reorg waits at the fence of a removal, above the handlers that waited before. -/
structure AtFence (m : Machine) (dropped : List B256) (waiting : List Suspended) (pool : PoolInstanceId)
    (rest : Reorg) : Prop where
  suspended : m.suspended = .reorg pool rest :: waiting
  blocks : rest.droppedHashes = dropped
  candidates : ∀ candidate ∈ rest.candidates, candidate.evidence.OffDropped dropped
  active : m.actor.trusted = true → m.actor.isActivePool pool = true
  reorging : m.actor.trusted = true → Reorging m.actor dropped ((pool, .remove, none) :: rest.actions)

/-- The reorg is through. -/
structure Through (m : Machine) (dropped : List B256) (waiting : List Suspended) : Prop where
  suspended : m.suspended = waiting
  reorged : m.actor.trusted = true → Reorging m.actor dropped []
  cleared : m.actor.trusted = true → Cleared m.actor dropped

/-- The reorg waits at a fence, or is through. -/
def GoesOn (m : Machine) (dropped : List B256) (waiting : List Suspended) : Prop :=
  (∃ pool rest, AtFence m dropped waiting pool rest) ∨ Through m dropped waiting

theorem takeActions_work (actions : List (PoolInstanceId × RegistrationReorgAction × Option Revalidations))
    (a : AmmRuntimeActor) : (takeActions dropped actions a).1.scheduledWork = a.scheduledWork := by
  induction actions generalizing a with
  | nil => rfl
  | cons head rest ih =>
    obtain ⟨pool, action, requests⟩ := head
    unfold takeActions
    split_ifs
    · exact ih a
    · split
      · rfl
      · refine (ih _).trans ?_
        unfold revalidatePool
        dsimp only
        split
        · rfl
        · split <;> rfl
      · exact ih a.markUntrusted
      · exact ih a

/-- The actions of a reorg stop at an active pool. -/
theorem takeActions_active {actions rest : List (PoolInstanceId × RegistrationReorgAction × Option Revalidations)}
    {pool : PoolInstanceId} (h : takeActions dropped actions a = (b, some (pool, rest))) : b.isActivePool pool = true := by
  induction actions generalizing a with
  | nil => cases h
  | cons head tail ih =>
    obtain ⟨other, action, requests⟩ := head
    unfold takeActions at h
    by_cases hactive : (!a.isActivePool other) = true
    · rw [if_pos hactive] at h
      exact ih h
    · rw [if_neg hactive] at h
      split at h
      · cases h
        rwa [Bool.not_eq_true', Bool.not_eq_false] at hactive
      · exact ih h
      · exact ih h
      · exact ih h

/-- An ingest goes on to the fence of the next removal, or to its end. -/
theorem proceed_goesOn {reorg : Reorg} {numbered : Nat} {answers : Answers} (hsound : Sound a)
    (h : a.trusted = true → Reorging a reorg.droppedHashes reorg.actions)
    (hcandidates : ∀ candidate ∈ reorg.candidates, candidate.evidence.OffDropped reorg.droppedHashes)
    (hnumbered : (a.orphanedWork reorg.droppedHashes).length ≤ numbered) :
    GoesOn (proceed a reorg numbered answers waiting) reorg.droppedHashes waiting := by
  have htakes : AnyChanges a (takeActions reorg.droppedHashes reorg.actions a).1 :=
    a.takeActions_changes _ _ fun _ _ _ _ _ _ => trivial
  have hwork : (takeActions reorg.droppedHashes reorg.actions a).1.scheduledWork = a.scheduledWork :=
    takeActions_work reorg.actions a
  have htaken := fun htrusted => (h (htakes.trusted htrusted)).takeActions htrusted
  unfold proceed
  split
  · next b heq =>
    rw [heq] at htakes hwork htaken
    have hnumbered : (b.orphanedWork reorg.droppedHashes).length ≤ numbered := by
      rw [orphanedWork, hwork]
      exact hnumbered
    have hsettles (htrusted : (b.finishIngest reorg numbered answers).trusted = true) :=
      finishIngest_settles (htakes.sound hsound) htaken hcandidates hnumbered htrusted
    exact .inr ⟨rfl, fun htrusted => (hsettles htrusted).1, fun htrusted => (hsettles htrusted).2⟩
  · next b pool rest heq =>
    have hactive := takeActions_active heq
    rw [heq] at htaken
    exact .inl ⟨pool, { reorg with actions := rest }, rfl, rfl, hcandidates, fun _ => hactive, htaken⟩

/-- An ingest that drops no blocks lets a reorg under way grow. -/
theorem proceed_grows {reorg : Reorg} {numbered : Nat} {answers : Answers} (hfiled : Filed a)
    (hdropped : reorg.droppedHashes = []) (hactions : reorg.actions = [])
    (htrusted : (proceed a reorg numbered answers waiting).actor.trusted = true) :
    Grows a (proceed a reorg numbered answers waiting).actor ∧
      (proceed a reorg numbered answers waiting).suspended = waiting := by
  have hproceed : proceed a reorg numbered answers waiting = ⟨a.finishIngest reorg numbered answers, waiting⟩ := by
    rw [proceed, hactions]
    rfl
  rw [hproceed] at htrusted ⊢
  exact ⟨finishIngest_grows hfiled hdropped htrusted, rfl⟩

end Machine

/-! ### Undisturbed reorgs -/

/-- The batch has the logs of its own block, as every verified one, and does not go back to one of the blocks. -/
structure AmmCanonicalBatch.LeavesBehind (batch : AmmCanonicalBatch) (blocks : List B256) : Prop where
  logs : ∀ creation ∈ batch.creations, creation.blockHash = batch.blockHash
  block : batch.blockHash ∉ blocks

/-- Nothing goes back to one of the blocks. -/
def Event.LeavesBehind (blocks : List B256) : Event → Prop
  | .ingest batch _ _ _ => batch.LeavesBehind blocks
  | _ => True

/-- The event lets a reorg that waits go on: no other reorg is ingested, the pool may be removed and has no new evidence
    then, and there are numbers for what is cancelled. -/
def LetsPass (dropped : List B256) (m : Machine) : Event → Prop
  | .command _ => True
  | .ingest batch answer _ _ => m.actor.accepts batch = true → answer = .publishes →
      batch.droppedHashes = [] ∧ batch.LeavesBehind dropped
  | .resume _ removal numbered _ => removal ≠ .refuses ∧ (m.actor.orphanedWork dropped).length ≤ numbered ∧
      ∀ pool rest waiting set, m.suspended = .reorg pool rest :: waiting → removal = .removes →
        m.actor.registrationEvidence.get pool = some set → set.OnDropped dropped

/-- A run of events that let a reorg pass, until only the handlers wait that waited before it. -/
def Undisturbed (dropped : List B256) (waiting : List Suspended) : Machine → List Event → Prop
  | m, [] => m.suspended = waiting
  | m, event :: events =>
    m.suspended ≠ waiting ∧ LetsPass dropped m event ∧ Undisturbed dropped waiting (m.step event) events

namespace Machine
open AmmRuntimeActor
variable {m : Machine} {dropped : List B256} {waiting : List Suspended}

theorem published_grows (batch : AmmCanonicalBatch) : Grows a (published a batch) :=
  .of_sources rfl rfl (fun _ _ requests hrequests howner => ⟨requests, hrequests, howner⟩) rfl rfl

theorem reorgOf_off {batch : AmmCanonicalBatch} {blocks : List B256} (h : batch.LeavesBehind blocks) :
    ∀ candidate ∈ (reorgOf a batch).candidates, candidate.evidence.OffDropped blocks := by
  intro candidate hmem
  obtain ⟨creation, hcreation, rfl⟩ := a.mem_factoryCandidates (List.Subset.refl _) candidate hmem
  refine .one (decide_eq_true ?_)
  rw [h.logs creation hcreation]
  exact h.block

/-- A reorg goes on to its first fence, or to its end. -/
theorem ingest_goesOn (hsound : Sound m.actor) {batch : AmmCanonicalBatch} (haccepts : m.actor.accepts batch = true)
    (hbatch : batch.LeavesBehind batch.droppedHashes) {numbered : Nat} (answers : Answers)
    (hnumbered : (m.actor.orphanedWork batch.droppedHashes).length ≤ numbered) :
    GoesOn (m.step (.ingest batch .publishes numbered answers)) batch.droppedHashes m.suspended := by
  have hpublished : AnyChanges m.actor (published m.actor batch) := published_changes batch trivial
  have hstep : m.step (.ingest batch .publishes numbered answers) =
      proceed (published m.actor batch) (reorgOf m.actor batch) numbered answers m.suspended :=
        ingest_of_accepts haccepts _ _
  rw [hstep]
  have hreorging (htrusted : (published m.actor batch).trusted = true) :
      Reorging (published m.actor batch) (reorgOf m.actor batch).droppedHashes (reorgOf m.actor batch).actions :=
    (Reorging.start hsound.asked).grows (hsound.evident htrusted) (published_grows batch)
  exact proceed_goesOn (hpublished.sound hsound) hreorging (reorgOf_off hbatch) hnumbered

/-- An event lets a reorg that waits at its fence go on. -/
theorem step_goesOn (hsound : Sound m.actor) {pool : PoolInstanceId} {rest : Reorg}
    (h : AtFence m dropped waiting pool rest) (event : Event) (hlets : LetsPass dropped m event) :
    GoesOn (m.step event) dropped waiting := by
  cases event with
  | command command =>
    refine .inl ⟨pool, rest, ?_⟩
    rw [step, h.suspended]
    exact h
  | ingest batch answer numbered answers =>
    refine .inl ⟨pool, rest, ?_⟩
    rw [step]
    rcases m.ingest_cases batch answer numbered answers with heq | heq | ⟨haccepts, hpublishes, heq⟩
    · rw [heq]
      exact h
    · rw [heq]
      exact ⟨h.suspended, h.blocks, h.candidates, fun htrusted => (by cases htrusted), fun htrusted => by cases htrusted⟩
    · obtain ⟨hdropped, -⟩ := hlets haccepts hpublishes
      have hactions : (reorgOf m.actor batch).actions = [] := by rw [reorgOf, hdropped]; rfl
      have hpublished : AnyChanges m.actor (published m.actor batch) := published_changes batch trivial
      have hchanges := proceed_anyChanges (published m.actor batch) (reorgOf m.actor batch) numbered answers m.suspended
      rw [heq]
      set next := proceed (published m.actor batch) (reorgOf m.actor batch) numbered answers m.suspended with hnext
      have hgrows (htrusted : next.actor.trusted = true) : Grows (published m.actor batch) next.actor :=
        (proceed_grows (hpublished.sound hsound).filed hdropped hactions htrusted).1
      have hsuspended : next.suspended = m.suspended := by
        rw [hnext, proceed, hactions]
        rfl
      refine ⟨hsuspended.trans h.suspended, h.blocks, h.candidates, fun htrusted => ?_, fun htrusted => ?_⟩
      · have hactive := h.active (hchanges.trusted htrusted)
        rwa [isActivePool, (hgrows htrusted).active]
      · have hserving := hchanges.trusted htrusted
        exact (h.reorging hserving).grows (hsound.evident hserving) ((published_grows batch).trans (hgrows htrusted))
  | resume install removal numbered answers =>
    obtain ⟨hallowed, hnumbered, -⟩ := hlets
    have hfails : ∀ {b : AmmRuntimeActor}, b.trusted = false → GoesOn ⟨b, waiting⟩ dropped waiting := fun huntrusted =>
      .inr ⟨rfl, (fun htrusted => by cases huntrusted.symm.trans htrusted),
        fun htrusted => by cases huntrusted.symm.trans htrusted⟩
    rw [step, resume_reorg h.suspended]
    by_cases htrusted : m.actor.trusted = true
    · unfold removePoolSerialized
      rw [htrusted, h.active htrusted]
      cases removal with
      | refuses => exact absurd rfl hallowed
      | breaks | distrusts => exact hfails rfl
      | removes =>
        have hchanges : AnyChanges m.actor (m.actor.dropPool pool) := .allowed (.dropPool pool) trivial trivial
        have hdropped := h.blocks
        subst hdropped
        exact proceed_goesOn (hchanges.sound hsound) (fun _ => (h.reorging htrusted).dropPool) h.candidates hnumbered
    · rw [Bool.not_eq_true] at htrusted
      unfold removePoolSerialized
      rw [htrusted]
      exact hfails htrusted

/-- A reorg that is not disturbed gets through, with what its steps keep. -/
theorem run_through {P : Machine → Prop} (hstep : ∀ m pool rest, AtFence m dropped waiting pool rest →
    ∀ event, LetsPass dropped m event →
      P m → P (m.step event)) (horder : InOrder m) (hsound : Sound m.actor)
        (h : GoesOn m dropped waiting) (events : List Event)
    (hundisturbed : Undisturbed dropped waiting m events) (hP : P m) : Through (m.run events) dropped waiting ∧
      P (m.run events) := by
  induction events generalizing m with
  | nil =>
    rcases h with ⟨pool, rest, hfence⟩ | hthrough
    · exact absurd (hfence.suspended.symm.trans hundisturbed) (List.cons_ne_self _ _)
    · exact ⟨hthrough, hP⟩
  | cons event rest ih =>
    obtain ⟨hwaits, hlets, hrest⟩ := hundisturbed
    rcases h with ⟨pool, reorg, hfence⟩ | hthrough
    · exact ih (step_inOrder horder event) ((step_changes horder event).sound hsound)
        (step_goesOn hsound hfence event hlets) hrest
        (hstep m pool reorg hfence event hlets hP)
    · exact absurd hthrough.suspended hwaits

end Machine

/-! ### Pools that stay -/

/-- The pool is active, on evidence that a reorg does not take from it. -/
def Stands (dropped : List B256) (pool : PoolInstanceId) (a : AmmRuntimeActor) : Prop :=
  a.isActivePool pool = true ∧ ∃ set, a.registrationEvidence.get pool = some set ∧ ¬set.OnDropped dropped

/-- The changes that an actor makes to the pool while a reorg goes on leave it standing. -/
def Upholds (dropped : List B256) (pool : PoolInstanceId) (a : AmmRuntimeActor) : Change → Prop
  | .dropPool other => a.trusted = true → Stands dropped pool a → other.key ≠ pool.key
  | .revise other evidence =>
    ∀ set, a.registrationEvidence.get other = some set → ¬set.OnDropped dropped → ¬evidence.OnDropped dropped
  | .reconcileRegistered blocks => blocks = dropped ∨ blocks = []
  | .install .. | .activate _ | .prepare _ | .withdraw _ => False
  | _ => True

theorem RegistrationEvidenceSet.not_onDropped_mono {set grown : RegistrationEvidenceSet} {dropped : List B256}
    (h : ¬set.OnDropped dropped) (hle : set.evidence ⊆ grown.evidence) : ¬grown.OnDropped dropped :=
  fun honly => h fun item hitem => honly item (hle hitem)

theorem RegistrationProvenance.keeps_or {dropped : List B256} {item : RegistrationProvenance}
    (h : item.keeps dropped = true) : item.isQuery = true ∨ item.offBlocks dropped = true := by
  cases item with
  | stable => exact .inr rfl
  | stateQuery => exact .inl rfl
  | factoryLog => exact .inr h

/-- What a reorg leaves of evidence that it does not take. -/
theorem crossing_stands {dropped blocks : List B256} {set : RegistrationEvidenceSet} (h : ¬set.OnDropped dropped)
    (hblocks : blocks = dropped ∨ blocks = []) : ¬((crossing blocks set).getD set).OnDropped dropped := by
  cases hcrossing : crossing blocks set with
  | none => exact h
  | some kept =>
    rw [Option.getD_some]
    rcases hblocks with rfl | rfl
    · obtain ⟨item, hitem⟩ := kept.nonempty
      intro honly
      cases (honly item hitem).symm.trans (RegistrationProvenance.keeps_of_offBlocks ((mem_crossing hcrossing).mp hitem).2)
    · exact RegistrationEvidenceSet.not_onDropped_mono h fun item hitem =>
        (mem_crossing hcrossing).mpr ⟨hitem, item.offBlocks_nil⟩

namespace Stands
variable {dropped : List B256} {pool : PoolInstanceId}

theorem of_eq (h : Stands dropped pool a) (hactive : b.activePools = a.activePools)
    (hevidence : b.registrationEvidence = a.registrationEvidence) : Stands dropped pool b := by
  refine ⟨?_, hevidence ▸ h.2⟩
  rw [AmmRuntimeActor.isActivePool, hactive]
  exact h.1

theorem set (h : Stands dropped pool a) {other : PoolInstanceId} {evidence : RegistrationEvidenceSet}
    (hevidence : ∀ set, a.registrationEvidence.get other = some set → ¬set.OnDropped dropped → ¬evidence.OnDropped dropped)
    (hactive : b.activePools = a.activePools) (hset : b.registrationEvidence = a.registrationEvidence.set other evidence) :
    Stands dropped pool b := by
  obtain ⟨hpool, set, hget, hstands⟩ := h
  refine ⟨?_, ?_⟩
  · rw [AmmRuntimeActor.isActivePool, hactive]
    exact hpool
  · rw [hset, Table.get_set]
    split_ifs with hsame
    · exact ⟨evidence, rfl, hevidence set (hsame ▸ hget) hstands⟩
    · exact ⟨set, hget, hstands⟩

theorem change (h : Stands dropped pool a) {change : Change} (hfits : change.Fits a) (hallow : change.Harmless ∨
    Upholds dropped pool a change)
    (htrusted : (change.apply a).trusted = true) : Stands dropped pool (change.apply a) := by
  cases change with
  | aside b => exact h.of_eq hfits.active hfits.evidence
  | support key other evidence =>
    refine h.set (fun set hget hstands => ?_) rfl rfl
    rw [hget]
    exact RegistrationEvidenceSet.not_onDropped_mono hstands Finset.subset_union_left
  | join candidate rest work =>
    unfold Change.apply AmmRuntimeActor.modifyWork
    dsimp only
    split <;> exact h
  | burn key =>
    rw [Change.apply, AmmRuntimeActor.burn_eq]
    exact h
  | adopt candidate rest adapter =>
    rw [Change.adopt_apply]
    exact h
  | release work s =>
    unfold Change.apply AmmRuntimeActor.release AmmRuntimeActor.cancelPoolReservation
    dsimp only
    split_ifs <;> exact h
  | force => cases htrusted
  | dropPool other =>
    have hkey := (hallow.resolve_left id) htrusted h
    refine ⟨decide_eq_true ?_, ?_⟩
    · rw [Change.apply, AmmRuntimeActor.dropPool, Map.get_remove_of_ne hkey.symm]
      exact of_decide_eq_true h.1
    · rw [Change.apply, AmmRuntimeActor.dropPool, Table.get_remove,
        if_neg fun hsame => hkey (congrArg PoolInstanceId.key hsame.symm)]
      exact h.2
  | revise other evidence => exact h.set (hallow.resolve_left id) rfl rfl
  | reconcileRegistered blocks =>
    obtain ⟨hpool, set, hget, hstands⟩ := h
    refine ⟨hpool, _, ?_, crossing_stands hstands (hallow.resolve_left id)⟩
    refine Table.get_map.trans ?_
    rw [hget]
    rfl
  | activate | install | prepare | withdraw => exact (hallow.elim id id).elim
  | retain | drop | strand | queue | unreserve | regenerate | dropOwner | reconcilePending | publish =>
    exact h.of_eq rfl rfl

theorem changes (h : a.trusted = true → Stands dropped pool a) (hchanges : Changes (Upholds dropped pool) a b) :
    b.trusted = true → Stands dropped pool b :=
  hchanges.keeps (P := fun c => c.trusted = true → Stands dropped pool c)
    (fun _ change hc hfits hallow htrusted => (hc (change.trusted hfits htrusted)).change hfits hallow htrusted) h

end Stands

namespace Machine
open AmmRuntimeActor
variable {m : Machine} {dropped : List B256} {waiting : List Suspended} {pool : PoolInstanceId}

theorem proceed_upholds (reorg : Reorg) (hblocks : reorg.droppedHashes = dropped ∨
    reorg.droppedHashes = []) (numbered : Nat)
    (answers : Answers) : Changes (Upholds dropped pool) a (proceed a reorg numbered answers waiting).actor := by
  refine proceed_changes reorg numbered answers waiting
    (fun b other set retained hset hretained earlier hearlier hstands honly => ?_)
    (fun _ _ => trivial) (fun _ _ _ _ => trivial) (fun _ => hblocks) (fun _ _ _ => trivial) fun _ _ _ _ _ => trivial
  obtain rfl := Option.some.inj (hset.symm.trans hearlier)
  refine hstands fun item hitem => ?_
  by_contra hkept
  rw [Bool.not_eq_false] at hkept
  have hmem : item ∈ retained.evidence := by
    rw [RegistrationEvidenceSet.evidence_retain hretained, Finset.mem_filter]
    refine ⟨hitem, ?_⟩
    rcases hblocks with heq | heq
    · rw [heq, Bool.or_eq_true]
      exact RegistrationProvenance.keeps_or hkept
    · rw [heq, item.offBlocks_nil, Bool.or_true]
  cases (honly item hmem).symm.trans hkept

/-- A pool that stands is not the one that a reorg removes. -/
theorem step_upholds {removed : PoolInstanceId} {rest : Reorg} (h : AtFence m dropped waiting removed rest) (event : Event)
    (hlets : LetsPass dropped m event) : Changes (Upholds dropped pool) m.actor (m.step event).actor := by
  cases event with
  | command command =>
    rw [step, h.suspended]
    exact .refl _
  | ingest batch answer numbered answers =>
    refine ingest_changes fun haccepts hpublishes => ?_
    obtain ⟨hdropped, -⟩ := hlets haccepts hpublishes
    exact (published_changes batch trivial).trans (proceed_upholds (reorgOf m.actor batch) (.inr hdropped) numbered answers)
  | resume install removal numbered answers =>
    obtain ⟨-, -, hremovable⟩ := hlets
    refine resume_reorg_changes h.suspended install numbered answers (fun hactive hremoves htrusted hstands hkey => ?_)
      (fun other htrusted => by cases htrusted) fun b _ => proceed_upholds _ (.inl h.blocks) numbered answers
    have hpool : removed = pool := by
      have hpools : m.actor.activePools.get removed.key = some pool := hkey ▸ of_decide_eq_true hstands.1
      exact Option.some.inj ((of_decide_eq_true hactive).symm.trans hpools)
    obtain ⟨set, hset, honly⟩ := hstands.2
    subst hpool
    exact honly (hremovable _ _ _ set h.suspended hremoves hset)

end Machine

/-! ### Evidence that stays -/

/-- No queueing call for the key fails for good while a reorg goes on: the key is not reserved without work, and no other
    check fails. -/
def RunQueues (key : PoolKey) : Machine → List Event → Prop
  | _, [] => True
  | m, event :: events => (m.actor.Backed key ∧ match event with
      | .command _ => True
      | .ingest _ _ _ answers | .resume _ _ _ answers => m.actor.Queues key answers) ∧ RunQueues key (m.step event) events

namespace Machine
open AmmRuntimeActor
variable {m : Machine} {dropped : List B256} {waiting : List Suspended} {key : PoolKey} {item : RegistrationProvenance}

/-- While a reorg goes on, an item off the dropped blocks lasts and is not lost. -/
theorem undisturbed_lasts (horder : InOrder m) (hsound : Sound m.actor) (h : GoesOn m dropped waiting) (events : List Event)
    (hundisturbed : Undisturbed dropped waiting m events) (hoff : item.offBlocks dropped = true)
    (hqueues : RunQueues key m events) : RunLasts key item m events ∧ RunRetains key item m events := by
  induction events generalizing m with
  | nil => exact ⟨trivial, trivial⟩
  | cons event rest ih =>
    obtain ⟨hwaits, hlets, hrest⟩ := hundisturbed
    obtain ⟨⟨hbacked, hqueue⟩, hqueues⟩ := hqueues
    rcases h with ⟨removed, reorg, hfence⟩ | hthrough
    · obtain ⟨hlast, hretain⟩ := ih (step_inOrder horder event) ((step_changes horder event).sound hsound)
        (step_goesOn hsound hfence event hlets) hrest hqueues
      have hframe : ∀ {frame rest}, m.suspended = frame :: rest → frame = .reorg removed reorg := fun hother =>
        (List.cons.inj (hother.symm.trans hfence.suspended)).1
      refine ⟨⟨⟨hbacked, ?_⟩, hlast⟩, ?_, hretain⟩
      · cases event with
        | command command =>
          intro hidle
          cases hidle.symm.trans hfence.suspended
        | ingest batch answer numbered answers =>
          intro haccepts hpublishes
          rw [(hlets haccepts hpublishes).1]
          exact ⟨item.offBlocks_nil, hqueue⟩
        | resume install removal numbered answers =>
          intro pool rest waiting hother _
          obtain ⟨-, rfl⟩ := Suspended.reorg.inj (hframe hother)
          exact ⟨hfence.blocks ▸ hoff, hqueue⟩
      · cases event with
        | command command =>
          intro hidle
          cases hidle.symm.trans hfence.suspended
        | ingest batch answer numbered answers => exact trivial
        | resume install removal numbered answers =>
          refine ⟨fun work copy baseline rest hother => (nomatch hframe hother), ?_⟩
          intro pool frame rest set hother hkind _ hremoves _ hset hitem
          have hsame : pool = removed := by
            rcases hkind with rfl | ⟨rest, rfl⟩
            · cases hframe hother
            · exact (Suspended.reorg.inj (hframe hother)).1
          subst hsame
          have honly := hlets.2.2 _ _ _ set hfence.suspended hremoves hset
          cases (honly item hitem).symm.trans (RegistrationProvenance.keeps_of_offBlocks hoff)
    · exact absurd hthrough.suspended hwaits

/-! ### After a reorg -/

/-- The actor has left the blocks behind: its point, what waits and what is scheduled are not on them. -/
structure Behind (m : Machine) (blocks : List B256) : Prop where
  point : m.actor.point.blockHash ∉ blocks
  cleared : Cleared m.actor blocks
  waiting : ∀ pool rest, Suspended.reorg pool rest ∈ m.suspended → ∀ candidate ∈ rest.candidates,
    candidate.evidence.OffDropped blocks

/-- The point of the actor moves on with a publication only. -/
theorem point_change {change : Change} (hfits : change.Fits a) :
    (change.apply a).point = a.point ∨ change = .publish (change.apply a).point := by
  cases change with
  | aside b => exact .inl hfits.point
  | join candidate rest work =>
    unfold Change.apply modifyWork
    dsimp only
    split <;> exact .inl rfl
  | burn key =>
    rw [Change.apply, burn_eq]
    exact .inl rfl
  | adopt candidate rest adapter =>
    rw [Change.adopt_apply]
    exact .inl rfl
  | release work s =>
    unfold Change.apply release cancelPoolReservation
    dsimp only
    split_ifs <;> exact .inl rfl
  | publish point => exact .inr rfl
  | support | retain | drop | strand | queue | unreserve | activate | install | prepare | regenerate | force
  | dropPool | dropOwner | withdraw | revise | reconcilePending | reconcileRegistered => exact .inl rfl

variable {blocks : List B256}

theorem point_changes (h : Changes (Leaves blocks) a b) (hpoint : a.point.blockHash ∉ blocks) :
    b.point.blockHash ∉ blocks := by
  refine h.keeps (P := fun c => c.point.blockHash ∉ blocks) (fun c change hc hfits hallow => ?_) hpoint
  rcases point_change hfits with heq | heq
  · rw [heq]
    exact hc
  · rw [heq] at hallow
    exact hallow.resolve_left id

theorem proceed_leaves (reorg : Reorg) (h : ∀ candidate ∈ reorg.candidates,
    candidate.evidence.OffDropped blocks) (numbered : Nat)
    (answers : Answers) : Changes (Leaves blocks) a (proceed a reorg numbered answers waiting).actor :=
  proceed_changes reorg numbered answers waiting (fun _ _ _ _ _ _ => trivial) (fun _ _ => trivial) (fun _ _ _ _ => trivial)
    (fun _ => trivial) (fun _ => h) fun _ _ _ _ _ => trivial

/-- A completed discovery reports what it has seen at the point of the actor. -/
theorem step_leaves (horder : InOrder m) (h : Behind m blocks) (event : Event) (hevent : event.LeavesBehind blocks) :
    Changes (Leaves blocks) m.actor (m.step event).actor := by
  cases event with
  | command command =>
    obtain ⟨a, suspended⟩ := m
    cases suspended with
    | cons frame waiting => exact .refl a
    | nil =>
      refine handle_changes horder.filed command (fun b change hcommanded => ?_) (fun _ _ _ _ _ _ _ _ => trivial) ?_ ?_
      · cases change <;> trivial
      · intro work owner report numbered answers _ scheduled registration b _ haccepts
        simp only [acceptsReport, Bool.and_eq_true, decide_eq_true_iff] at haccepts
        refine .one (decide_eq_true ?_)
        rw [haccepts.1.1.1]
        exact h.point
      · intro work numbered answer answers _ _ scheduled candidate b hs hretry
        obtain ⟨owner, -, rfl⟩ := Option.map_eq_some_iff.mp hretry
        exact h.cleared.work work scheduled hs
  | ingest batch answer numbered answers =>
    exact ingest_changes fun _ _ => (published_changes batch hevent.block).trans
      (proceed_leaves _ (reorgOf_off hevent) numbered answers)
  | resume install removal numbered answers =>
    refine m.resume_changes install removal numbered answers
      (fun work copy baseline waiting hframe => (horder.held work copy baseline (hframe ▸ List.mem_cons_self)).scheduled)
      (fun _ _ _ _ _ _ _ _ _ => trivial) (fun _ _ _ _ _ _ _ => trivial) (fun _ _ _ _ _ _ _ => trivial) (fun _ => trivial)
      fun pool rest waiting b hframe _ => ?_
    exact proceed_leaves rest (h.waiting pool rest (hframe ▸ List.mem_cons_self)) numbered answers

theorem step_behind (horder : InOrder m) (h : Behind m blocks) (event : Event) (hevent : event.LeavesBehind blocks) :
    Behind (m.step event) blocks := by
  have hleaves := step_leaves horder h event hevent
  refine ⟨point_changes hleaves h.point, h.cleared.changes hleaves, fun pool rest hmem => ?_⟩
  rcases step_reorgs m event hmem with ⟨pool', actions, hold⟩ | ⟨batch, answer, numbered, answers, rfl, hcandidates⟩
  · exact h.waiting pool' { rest with actions } hold
  · rw [hcandidates]
    exact reorgOf_off (a := m.actor) hevent

/-- No later run that goes back to none of the blocks brings evidence on them in. -/
theorem run_behind (horder : InOrder m) (h : Behind m blocks) (events : List Event)
    (hevents : ∀ event ∈ events, event.LeavesBehind blocks) : Behind (m.run events) blocks := by
  induction events generalizing m with
  | nil => exact h
  | cons event rest ih =>
    rw [List.forall_mem_cons] at hevents
    exact ih (step_inOrder horder event) (step_behind horder h event hevents.1) hevents.2

/-- A reorg that goes on brings nothing in from the dropped blocks. -/
theorem goesOn_leaves {pool : PoolInstanceId} {rest : Reorg} (h : AtFence m dropped waiting pool rest) (event : Event)
    (hlets : LetsPass dropped m event) : Changes (Leaves dropped) m.actor (m.step event).actor := by
  cases event with
  | command command =>
    rw [step, h.suspended]
    exact .refl _
  | ingest batch answer numbered answers =>
    refine ingest_changes fun haccepts hpublishes => ?_
    obtain ⟨-, hbehind⟩ := hlets haccepts hpublishes
    exact (published_changes batch hbehind.block).trans (proceed_leaves _ (reorgOf_off hbehind) numbered answers)
  | resume install removal numbered answers =>
    exact resume_reorg_changes h.suspended install numbered answers (fun _ _ => trivial) (fun _ => trivial) fun b _ =>
      proceed_leaves _ h.candidates numbered answers

/-- The pools that the engine comes with have evidence, and none is revalidated. -/
theorem start_sound (point : AmmStatePoint) (adapters : List AdapterInstanceId) (pools : List PoolInstanceId) :
    Sound (start point adapters pools).actor := by
  have horder := start_inOrder point adapters pools
  refine ⟨horder.filed, horder.entered, fun _ => ?_, fun pool requests h => by cases Table.get_empty.symm.trans h⟩
  have hevident : ∀ (l : List PoolInstanceId) (active : Map PoolKey PoolInstanceId)
      (evidence : Table PoolInstanceId RegistrationEvidenceSet),
      (∀ key pool, active.get key = some pool → (evidence.get pool).isSome = true) → ∀ key pool,
        (l.foldl (fun active pool => active.insert pool.key pool) active).get key = some pool →
          ((l.foldl (fun evidence pool => evidence.set pool (.one (.stable "runtime.initial"))) evidence).get
            pool).isSome = true := by
    intro l
    induction l with
    | nil => exact fun active evidence h => h
    | cons head rest ih =>
      refine fun active evidence h => ih _ _ fun key pool hkey => ?_
      rw [Table.get_set]
      split_ifs with hsame
      · rfl
      · rcases Map.get_insert_eq_some.mp hkey with ⟨-, rfl⟩ | ⟨-, hold⟩
        · exact absurd rfl hsame
        · exact h key pool hold
  exact hevident pools .empty .empty fun key pool hkey => by cases hkey

theorem run_sound (horder : InOrder m) (hsound : Sound m.actor) (events : List Event) : Sound (m.run events).actor := by
  induction events generalizing m with
  | nil => exact hsound
  | cons event rest ih => exact ih (step_inOrder horder event) ((step_changes horder event).sound hsound)

/-- The state is one that a run from a new actor gets to. -/
def Reachable (m : Machine) : Prop := ∃ point adapters pools events, m = (start point adapters pools).run events

end Machine

/-- What a reorg leaves: active pools with evidence that is not all on dropped blocks, or that are being revalidated, and
    neither scheduled work nor candidates that have no other evidence. -/
structure Settled (a : AmmRuntimeActor) (dropped : List B256) : Prop where
  active : ∀ pool, a.isActivePool pool = true → ∃ set, a.registrationEvidence.get pool = some set ∧
    (set.OnDropped dropped → Revalidating a pool)
  scheduled : ∀ work s, a.scheduledWork.get work = some s → ¬s.evidence.OnDropped dropped
  pending : ∀ candidate ∈ a.pendingFactoryCandidates, ¬candidate.evidence.OnDropped dropped

/-- A verified batch that drops blocks is ingested while no other ingest waits at a fence, and goes on undisturbed to its
    end. If the actor is trusted then, no pool outlives its evidence; a pool with other evidence is active still, and
    evidence off the dropped blocks is recorded still where queueing does not fail for good; and no later run that goes back
    to none of the blocks has candidates or work with evidence on them. -/
theorem reorg_settles (m : Machine) (hreachable : m.Reachable) (batch : AmmCanonicalBatch)
    (numbered : Nat) (answers : Answers) (during : List Event) (haccepts : m.actor.accepts batch = true)
    (hbatch : batch.LeavesBehind batch.droppedHashes) (halone : ∀ pool rest, Suspended.reorg pool rest ∉ m.suspended)
    (hnumbered : (m.actor.orphanedWork batch.droppedHashes).length ≤ numbered)
    (hundisturbed : Undisturbed batch.droppedHashes m.suspended (m.step (.ingest batch .publishes numbered answers)) during)
    (htrusted : (m.run (.ingest batch .publishes numbered answers :: during)).actor.trusted = true) :
    Settled (m.run (.ingest batch .publishes numbered answers :: during)).actor batch.droppedHashes ∧
    (∀ pool set, m.actor.isActivePool pool = true → m.actor.registrationEvidence.get pool = some set →
      ¬set.OnDropped batch.droppedHashes →
      (m.run (.ingest batch .publishes numbered answers :: during)).actor.isActivePool pool = true) ∧
    (∀ key item, Recorded m.actor key item → item.offBlocks batch.droppedHashes = true →
      RunQueues key m (.ingest batch .publishes numbered answers :: during) →
      Recorded (m.run (.ingest batch .publishes numbered answers :: during)).actor key item) ∧
    ∀ after, (∀ event ∈ after, event.LeavesBehind batch.droppedHashes) →
      Cleared (m.run (.ingest batch .publishes numbered answers :: (during ++ after))).actor batch.droppedHashes := by
  obtain ⟨point, adapters, pools, before, rfl⟩ := hreachable
  have horder := Machine.run_inOrder (Machine.start_inOrder point adapters pools) before
  have hsound := Machine.run_sound (Machine.start_inOrder point adapters pools)
    (Machine.start_sound point adapters pools) before
  generalize (Machine.start point adapters pools).run before = m at *
  have hgoes := Machine.ingest_goesOn hsound haccepts hbatch answers hnumbered
  have hstep : m.step (.ingest batch .publishes numbered answers) =
      Machine.proceed (Machine.published m.actor batch) (Machine.reorgOf m.actor batch) numbered answers m.suspended :=
    Machine.ingest_of_accepts haccepts _ _
  have horder' := Machine.step_inOrder horder (.ingest batch .publishes numbered answers)
  have hsound' := (Machine.step_changes horder (.ingest batch .publishes numbered answers)).sound hsound
  obtain ⟨hthrough, -⟩ := Machine.run_through (P := fun _ => True) (fun _ _ _ _ _ _ => id) horder' hsound' hgoes
    during hundisturbed trivial
  have hevident := (Machine.run_sound horder' hsound' during).evident htrusted
  have hcleared := hthrough.cleared htrusted
  refine ⟨⟨fun pool hactive => ?_, fun work s hs => (hcleared.work work s hs).not_onDropped,
    fun candidate hmem => (hcleared.pending candidate hmem).not_onDropped⟩, fun pool set hactive hset hstands => ?_,
    fun key item hrecorded hoff hqueues => ?_, fun after hafter => ?_⟩
  · obtain ⟨set, hset⟩ := Option.isSome_iff_exists.mp (hevident pool.key pool (of_decide_eq_true hactive))
    refine ⟨set, hset, fun honly => ?_⟩
    exact ((hthrough.reorged htrusted).handled pool set hactive hset honly).resolve_right fun ⟨entry, hentry, _⟩ =>
      List.not_mem_nil hentry
  · have hupholds : Changes (Upholds batch.droppedHashes pool) m.actor
      (m.step (.ingest batch .publishes numbered answers)).actor := by
      rw [hstep]
      exact (Machine.published_changes batch trivial).trans
        (Machine.proceed_upholds (Machine.reorgOf m.actor batch) (.inl rfl) _ _)
    exact ((Machine.run_through (P := fun m => m.actor.trusted = true → Stands batch.droppedHashes pool m.actor)
      (fun m _ _ hfence event hlets hP => Stands.changes hP (Machine.step_upholds hfence event hlets)) horder' hsound'
        hgoes during hundisturbed
      (Stands.changes (fun _ => ⟨hactive, set, hset, hstands⟩) hupholds)).2 htrusted).1
  · obtain ⟨hlasts, hretains⟩ := Machine.undisturbed_lasts horder' hsound' hgoes during hundisturbed hoff hqueues.2
    exact Machine.run_recorded horder (.ingest batch .publishes numbered answers :: during)
      ⟨⟨hqueues.1.1, fun _ _ => ⟨hoff, hqueues.1.2⟩⟩, hlasts⟩ ⟨trivial, hretains⟩ hrecorded htrusted
  · have hpoint : (m.step (.ingest batch .publishes numbered answers)).actor.point.blockHash ∉ batch.droppedHashes := by
      have hleaves : Changes (Leaves batch.droppedHashes) (Machine.published m.actor batch)
          (m.step (.ingest batch .publishes numbered answers)).actor := by
        rw [hstep]
        exact Machine.proceed_leaves _ (Machine.reorgOf_off hbatch) numbered answers
      exact Machine.point_changes hleaves hbatch.block
    have hbehind : Machine.Behind (m.run (.ingest batch .publishes numbered answers :: during)) batch.droppedHashes := by
      refine ⟨(Machine.run_through (P := fun m => m.actor.point.blockHash ∉ batch.droppedHashes)
        (fun m _ _ hfence event hlets => Machine.point_changes (Machine.goesOn_leaves hfence event hlets))
          horder' hsound' hgoes during
        hundisturbed hpoint).2, hcleared, fun pool rest hmem => ?_⟩
      exact absurd (hthrough.suspended ▸ hmem) (halone pool rest)
    have hrun : m.run (.ingest batch .publishes numbered answers :: (during ++ after)) =
        (m.run (.ingest batch .publishes numbered answers :: during)).run after := by
      rw [Machine.run, List.foldl_cons, List.foldl_append]
      rfl
    rw [hrun]
    exact (Machine.run_behind (Machine.run_inOrder horder' during) hbehind after hafter).cleared

/-! ### A removal that a reorg asks for -/

instance (set : RegistrationEvidenceSet) (dropped : List B256) : Decidable (set.OnDropped dropped) :=
  inferInstanceAs (Decidable (∀ item ∈ set.evidence, item.keeps dropped = false))

/-- The pool that a removal waits for has its evidence on the dropped blocks. -/
def Machine.removes (m : Machine) (dropped : List B256) : Bool :=
  match m.suspended with
  | .reorg pool _ :: _ => (m.actor.registrationEvidence.get pool).all fun set => decide (set.OnDropped dropped)
  | _ => true

theorem letsPass_resume {m : Machine} {dropped : List B256} (hremoves : m.removes dropped = true) (install : InstallAnswer)
    {numbered : Nat} (hnumbered : (m.actor.orphanedWork dropped).length ≤ numbered) (answers : Answers) :
    LetsPass dropped m (.resume install .removes numbered answers) := by
  refine ⟨nofun, hnumbered, fun pool rest waiting set hframe _ hset => ?_⟩
  rw [Machine.removes, hframe] at hremoves
  dsimp only at hremoves
  rw [hset, Option.all_some, decide_eq_true_iff] at hremoves
  exact hremoves

/-- The pool that is seen created on the first block is installed. -/
def installedOne : List Event :=
  watched ++ [blockAt 1 1 [seenBy firstWatcher] [],
    .command (.commitScheduledPool (poolWork 0 0) ⟨.uniswapV2 1, 0⟩ (poolAt 1) ⟨1, 1, 1⟩),
    .resume (.installs true) .removes 9 accepting]

/-- A reorg of the first block. -/
def firstDropped : AmmCanonicalBatch := ⟨1, 1, 2, [], [1]⟩

/-- The removal of the pool by the reorg goes through. -/
theorem reorg_settles_removed :
    (chainStart.run installedOne).actor.isActivePool ⟨.uniswapV2 1, 0⟩ = true ∧
      Settled ((chainStart.run installedOne).run (.ingest firstDropped .publishes 9 accepting ::
        [.resume .refuses .removes 9 accepting])).actor [1] := by
  have hbefore : (chainStart.run installedOne).suspended = [] := List.isEmpty_iff.mp (by decide +kernel)
  have hwaits : ((chainStart.run installedOne).step (.ingest firstDropped .publishes 9 accepting)).suspended.length =
      1 := by
    decide +kernel
  have hafter : (((chainStart.run installedOne).step (.ingest firstDropped .publishes 9 accepting)).step
      (.resume .refuses .removes 9 accepting)).suspended = [] := List.isEmpty_iff.mp (by decide +kernel)
  have hpasses : LetsPass [1] ((chainStart.run installedOne).step (.ingest firstDropped .publishes 9 accepting))
      (.resume .refuses .removes 9 accepting) := letsPass_resume (by decide +kernel) _ (by decide +kernel) _
  refine ⟨by decide +kernel, (reorg_settles (chainStart.run installedOne) ⟨⟨1, 0, 0⟩, [], [], installedOne, rfl⟩
    firstDropped 9 accepting
    [.resume .refuses .removes 9 accepting] (by decide +kernel) ⟨fun _ hmem => absurd hmem List.not_mem_nil, by decide⟩
    (fun pool rest => ?_) (by decide +kernel)
    ⟨fun hnone => ?_, hpasses, hafter.trans hbefore.symm⟩ (by decide +kernel)).1⟩
  · rw [hbefore]
    exact List.not_mem_nil
  · rw [hnone, hbefore] at hwaits
    cases hwaits

end AmmState.Provenance
