import AmmState.Theorems.Provenance.Support

/-! An item of evidence that a candidate brings in stays recorded for its pool in every trusted run, until one of the events
    that end its record: its watcher or its pool goes away, its block is dropped, its cold start fails for another reason
    than a stale baseline or is cancelled, its watcher has revalidated the pool, or a queueing call fails for good, as all
    do for a pool that an earlier request has left reserved. -/

namespace AmmState.Provenance

/-! ### Events that end a record -/

/-- An item is recorded for a key. -/
def Recorded (a : AmmRuntimeActor) (key : PoolKey) (item : RegistrationProvenance) : Prop := Carries a key {item} ∅

/-- The work is of the key and has the item. -/
def AmmRuntimeActor.Holds (a : AmmRuntimeActor) (key : PoolKey) (item : RegistrationProvenance)
    (work : RuntimeWorkId) : Prop :=
  ∃ s, a.scheduledWork.get work = some s ∧ s.registration.key = key ∧ item ∈ s.evidence.evidence

/-- No queueing call for the key fails for good: a family serves it, and the other checks pass. -/
def AmmRuntimeActor.Queues (a : AmmRuntimeActor) (key : PoolKey) (answers : Answers) : Prop :=
  (a.adapterFor key.protocol).isSome = true ∧ ∀ n, answers.candidates n ≠ .fails

/-- The family is there to be removed. -/
def AmmRuntimeActor.Detaches (a : AmmRuntimeActor) (adapter : AdapterInstanceId) (accepted : Bool) : Prop :=
  accepted = true ∧ a.activeAdapter adapter.key = some adapter

/-- A command does not end the record of the item. -/
def LastsThrough (a : AmmRuntimeActor) (key : PoolKey) (item : RegistrationProvenance) : Command → Prop
  | .attachColdStartWorker answers => a.Queues key answers
  | .removeFactoryWatcher owner accepted => a.Removable owner accepted → item.source ≠ some owner
  | .commitScheduledDiscovery work owner report numbered answers => a.Queues key answers ∧
      ∀ scheduled pool, a.scheduledDiscovery.get work = some scheduled → a.acceptsReport scheduled owner report = true →
        numbered = true → scheduled.revalidatePool = some pool → pool.key = key → item.source ≠ some scheduled.owner
  | .failScheduledWork work stale numbered _ answers => numbered = true →
      (a.Holds key item work → stale = true) ∧ (stale = true → a.Queues key answers)
  | .cancelScheduledWork work numbered => numbered = true → ¬a.Holds key item work
  | .queueColdStart pools _ _ =>
    (∃ unserved ∈ pools, a.adapterFor unserved.protocol = none) → ∀ pool ∈ pools, pool.key ≠ key
  | .removePool pool answer => a.isActivePool pool = true → answer = .removes → pool.key ≠ key
  | .removeAdapter adapter accepted => a.Detaches adapter accepted →
      ∀ work s, a.scheduledWork.get work = some s → s.adapter = adapter → ¬a.Holds key item work
  | .removeAdapterCascade adapter pools owners accepted => a.Detaches adapter accepted →
      (∀ work s, a.scheduledWork.get work = some s → s.adapter = adapter → ¬a.Holds key item work) ∧
        (∀ pool ∈ pools, pool.key ≠ key) ∧ ∀ owner ∈ owners, item.source ≠ some owner
  | _ => True

/-- The event does not end the record of the item. -/
def Lasts (m : Machine) (key : PoolKey) (item : RegistrationProvenance) : Event → Prop
  | .command command => m.suspended = [] → LastsThrough m.actor key item command
  | .ingest batch answer _ answers => m.actor.accepts batch = true → answer = .publishes →
      item.offBlocks batch.droppedHashes = true ∧ m.actor.Queues key answers
  | .resume _ removal _ answers => ∀ pool rest waiting, m.suspended = .reorg pool rest :: waiting → removal = .removes →
      item.offBlocks rest.droppedHashes = true ∧ m.actor.Queues key answers

/-- A command loses no item that should last: no watcher stands for the evidence of another that goes with it, no work with
    live evidence has lost all live supporters, and no pool is entered while evidence for it waits. -/
def RetainsThrough (a : AmmRuntimeActor) (key : PoolKey) (item : RegistrationProvenance) : Command → Prop
  | .removeFactoryWatcher owner accepted => a.Removable owner accepted →
      (∀ work s, a.scheduledWork.get work = some s → s.supportingDiscovery = {owner} → ¬a.Holds key item work) ∧
        ∀ candidate ∈ a.pendingFactoryCandidates, candidate.owner = owner → candidate.registration.key = key →
          item ∉ candidate.evidence.evidence
  | .removeAdapterCascade adapter _ owners accepted => a.Detaches adapter accepted →
      ∀ candidate ∈ a.pendingFactoryCandidates, candidate.owner ∈ owners → candidate.registration.key = key →
        item ∉ candidate.evidence.evidence
  | .installPreparedPools pools _ answer => ∀ reported, answer = .installs reported → ∀ pool ∈ pools, pool.key = key →
      ¬Waits a key {item}
  | .failScheduledWork work stale numbered _ _ => numbered = true → stale = true →
      ∀ s, a.scheduledWork.get work = some s → s.registration.key = key → item ∈ s.evidence.evidence →
        (a.retryCandidate s).isSome = true
  | _ => True

/-- The event loses no item that should last: it is no such command, no work is installed while more evidence has joined it
    or waits for its pool, and no pool is removed for the lack of evidence that it has by now. -/
def Retains (m : Machine) (key : PoolKey) (item : RegistrationProvenance) : Event → Prop
  | .command command => m.suspended = [] → RetainsThrough m.actor key item command
  | .ingest .. => True
  | .resume install removal _ _ =>
    (∀ work copy baseline waiting, m.suspended = .install work copy baseline :: waiting → baseline = m.actor.point →
      copy.reservation.key = key → ∀ reported, install = .installs reported → ¬Waits m.actor key {item} ∧
        ∀ s, m.actor.scheduledWork.get work = some s → item ∈ s.evidence.evidence → item ∈ copy.evidence.evidence) ∧
    ∀ pool frame waiting set, m.suspended = frame :: waiting → frame = .revalidation pool ∨
      (∃ rest, frame = .reorg pool rest) →
      m.actor.isActivePool pool = true → removal = .removes → pool.key = key →
        m.actor.registrationEvidence.get pool = some set →
        item ∉ set.evidence

/-- Every event of a run lets the item last, and its key is never reserved without work. -/
def RunLasts (key : PoolKey) (item : RegistrationProvenance) : Machine → List Event → Prop
  | _, [] => True
  | m, event :: events => (m.actor.Backed key ∧ Lasts m key item event) ∧ RunLasts key item (m.step event) events

/-- No event of a run loses the item. -/
def RunRetains (key : PoolKey) (item : RegistrationProvenance) : Machine → List Event → Prop
  | _, [] => True
  | m, event :: events => Retains m key item event ∧ RunRetains key item (m.step event) events

/-- The candidates that an ingest retains, if it goes on to its end from here. -/
def AmmRuntimeActor.passedOn (a : AmmRuntimeActor) (reorg : Reorg) (numbered : Nat) : List AmmFactoryCandidate :=
  match takeActions reorg.droppedHashes reorg.actions a with
  | (b, none) => if (b.reconcileOrphanedPendingRegistrations reorg.droppedHashes numbered).1 then reorg.candidates else []
  | (_, some _) => []

/-- The candidates of a completed discovery that revalidates no pool. -/
def AmmRuntimeActor.reported (a : AmmRuntimeActor) (work : RuntimeWorkId) (owner : DiscoveryOwnerId)
    (report : TokenEdgeDiscoveryReport) : List AmmFactoryCandidate :=
  match a.scheduledDiscovery.get work, a.watcherProtocols owner with
  | some scheduled, some protocols =>
    if a.acceptsReport scheduled owner report && scheduled.revalidatePool.isNone
    then (report.admitted protocols scheduled.maxCandidates).map (reportedCandidate scheduled)
    else []
  | _, _ => []

/-- The candidates of creation logs and discovery reports that an event has retained. -/
def Machine.passed (m : Machine) : Event → List AmmFactoryCandidate
  | .command (.commitScheduledDiscovery work owner report _ _) =>
    if m.suspended.isEmpty then m.actor.reported work owner report else []
  | .ingest batch answer numbered _ =>
    if m.actor.accepts batch && decide (answer = .publishes)
    then (published m.actor batch).passedOn (reorgOf m.actor batch) numbered
    else []
  | .resume _ removal numbered _ =>
    match m.suspended with
    | .reorg pool rest :: _ =>
      match m.actor.removePoolSerialized pool removal with
      | (true, a) => a.passedOn rest numbered
      | (false, _) => []
    | _ => []
  | _ => []

namespace Machine
open AmmRuntimeActor
variable {m : Machine} {a : AmmRuntimeActor} {key : PoolKey} {item : RegistrationProvenance}

/-- Changes that a trusted actor makes spare the item. -/
abbrev ItemSpared (key : PoolKey) (item : RegistrationProvenance) : AmmRuntimeActor → AmmRuntimeActor → Prop :=
  SparingChanges key {item} ∅

theorem spares_release {b : AmmRuntimeActor} {work : RuntimeWorkId} {s : AmmScheduledPoolWork}
    (hs : a.scheduledWork.get work = some s) (hheld : ¬a.Holds key item work) : Spares key {item} ∅ b (.release work s) :=
  fun hkey hitem => hheld ⟨s, hs, hkey, Finset.singleton_subset_iff.mp hitem⟩

theorem spares_drop {b : AmmRuntimeActor} {answers : Answers} (hqueues : a.Queues key answers)
    (hadapters : b.adapters = a.adapters) (candidate : AmmFactoryCandidate) (rest : List AmmFactoryCandidate) (n : Nat) :
    Spares key {item} ∅ b (.drop candidate rest (answers.candidates n)) := by
  refine fun _ _ => ⟨?_, hqueues.2 n⟩
  rw [adapterFor, hadapters]
  exact hqueues.1

/-- An item that a set has is among what a part of it keeps. -/
theorem spares_revise {b : AmmRuntimeActor} {pool : PoolInstanceId} {revised : RegistrationEvidenceSet}
    (hkept : ∀ set, b.activePools.get key = some pool → b.registrationEvidence.get pool = some set → item ∈ set.evidence →
      item ∈ revised.evidence) : Spares key {item} ∅ b (.revise pool revised) :=
  fun hpool set hset hitem => Finset.singleton_subset_iff.mpr (hkept set hpool hset (Finset.singleton_subset_iff.mp hitem))

theorem mem_confirmedEvidence {b : AmmRuntimeActor} {pool : PoolInstanceId} {owner : DiscoveryOwnerId}
    {set : RegistrationEvidenceSet} (hset : b.registrationEvidence.get pool = some set) (hitem : item ∈ set.evidence)
    (hsource : item.source ≠ some owner) : item ∈ (b.confirmedEvidence pool owner).evidence := by
  unfold confirmedEvidence
  rw [hset]
  refine Finset.mem_insert_of_mem (Finset.mem_filter.mpr ⟨hitem, fun hquery => hsource ?_⟩)
  cases item with
  | stateQuery => exact hquery
  | stable | factoryLog => cases hquery

/-! ### Steps -/

theorem handle_spares (hfiled : Filed a) (hentered : Entered a) (command : Command)
    (hlasts : LastsThrough a key item command) (hretains : RetainsThrough a key item command)
    (hother : ∀ work numbered answer answers,
      command = .failScheduledWork work true numbered answer answers → numbered = true →
      ¬a.Holds key item work) : ItemSpared key item a (handle a command).actor := by
  cases command with
  | attachColdStartWorker answers =>
    exact attachColdStartWorker_changes answers fun b candidate rest n hb _ => spares_drop hlasts hb candidate rest n
  | addFactoryWatcher key adapter accepted => exact a.addFactoryWatcher_changes key adapter accepted
  | removeFactoryWatcher owner accepted =>
    by_cases hremovable : a.Removable owner accepted
    · obtain ⟨hwork, hpending⟩ := hretains hremovable
      refine removeFactoryWatcher_changes owner accepted hfiled.attached ?_
        (fun b work s hs hlisted _ => ?_) fun b _ _ => ?_
      · exact fun _ candidate hmem hkey hitem howner =>
          hpending candidate hmem howner hkey (Finset.singleton_subset_iff.mp hitem)
      · exact spares_release hs (hwork work s hs ((mem_cancelledWork hfiled hs).mp hlisted))
      · refine ⟨fun other hmem => ?_, Finset.notMem_empty owner⟩
        rw [Finset.mem_singleton.mp hmem]
        exact hlasts hremovable
    · exact .of_eq (removeFactoryWatcher_refused hremovable).symm
  | queueColdStart pools cls answer =>
    exact a.queueColdStart_changes pools cls answer fun b pool hpool hunserved _ => hlasts hunserved pool hpool
  | queueDiscovery owner request options answer => exact a.queueDiscovery_changes owner request options answer
  | commitScheduledDiscovery work owner report numbered answers =>
    obtain ⟨hqueues, hsource⟩ := hlasts
    rw [handle_commitScheduledDiscovery]
    refine commitScheduledDiscovery_changes work owner report numbered answers ?_ ?_ (fun _ _ _ _ _ _ => trivial)
      fun b candidate rest n hb _ => spares_drop hqueues hb candidate rest n
    · refine fun scheduled pool b hwork hpool haccepts hnumbered hevidence hactive htrusted => ?_
      refine spares_revise fun set hentry hset hitem => mem_confirmedEvidence hset hitem ?_
      exact hsource scheduled pool hwork haccepts hnumbered hpool (hentered key pool (hactive ▸ hentry))
    · refine fun scheduled pool b set retained hwork hpool haccepts hnumbered hset hevidence hactive
        hretained htrusted => ?_
      refine spares_revise fun other hentry hother hitem => ?_
      obtain rfl := Option.some.inj (hset.symm.trans (hevidence ▸ hother))
      refine (RegistrationEvidenceSet.mem_withoutOwner hretained).mpr ⟨hitem, ?_⟩
      exact hsource scheduled pool hwork haccepts hnumbered hpool (hentered key pool (hactive ▸ hentry))
  | commitScheduledPool work pool registration baseline =>
    rw [handle_commitScheduledPool]
    exact .refl a
  | installPreparedPools pools baseline answer =>
    refine a.installPreparedPools_changes pools baseline answer fun b hb reported hanswer pool hpool _ hkey => ?_
    rw [Waits, hb]
    exact hretains reported hanswer pool hpool hkey
  | failScheduledWork work stale numbered answer answers =>
    refine failScheduledWork_changes work stale numbered answer answers ?_ (fun _ _ _ _ _ _ _ _ => trivial) ?_
    · refine fun s _ hs hnumbered _ => spares_release hs fun hholds => ?_
      obtain rfl := (hlasts hnumbered).1 hholds
      exact hother work numbered answer answers rfl hnumbered hholds
    · exact fun hnumbered hstale b candidate rest n hb _ => spares_drop ((hlasts hnumbered).2 hstale) hb candidate rest n
  | cancelScheduledWork work numbered =>
    exact cancelScheduledWork_changes work numbered fun s _ hs hnumbered _ => spares_release hs (hlasts hnumbered)
  | removePool pool answer =>
    refine removePoolSerialized_changes pool answer (fun hactive hremoves _ hkey => ?_) (fun htrusted => nomatch htrusted)
    exact absurd hkey (hlasts hactive hremoves)
  | addAdapter adapter accepted => exact a.addAdapter_changes adapter accepted
  | removeAdapter adapter accepted =>
    by_cases hdetaches : a.Detaches adapter accepted
    · exact removeAdapter_changes adapter accepted fun b work s hs hadapter _ =>
        spares_release hs (hlasts hdetaches work s hs hadapter)
    · refine .of_eq (if_neg fun hremoved => hdetaches ?_).symm
      rw [Bool.and_eq_true, Bool.and_eq_true, decide_eq_true_iff] at hremoved
      exact ⟨hremoved.1.1, hremoved.2⟩
  | removeAdapterCascade adapter pools owners accepted =>
    by_cases hdetaches : a.Detaches adapter accepted
    · obtain ⟨hwork, hpools, -⟩ := hlasts hdetaches
      refine removeAdapterCascade_changes adapter pools owners accepted (fun b work s hs hlisted _ => ?_)
        (fun b hb owner howner _ => ?_)
        fun b pool hpool _ hkey => absurd hkey (hpools pool hpool)
      · rcases hlisted with hadapter | hdiscovery
        · exact spares_release hs (hwork work s hs hadapter)
        · obtain ⟨scheduled, hscheduled, -⟩ := Table.mem_keysWhere.mp hdiscovery
          cases (hfiled.undiscovered hs).symm.trans hscheduled
      · rintro candidate hmem hkey hitem rfl
        exact hretains hdetaches candidate (hb hmem) howner hkey (Finset.singleton_subset_iff.mp hitem)
    · refine .of_eq (if_pos ?_).symm
      rw [Detaches, not_and_or, Bool.not_eq_true] at hdetaches
      rcases hdetaches with hrefused | hgone
      · rw [hrefused]
        rfl
      · rw [decide_eq_true hgone, Bool.or_true, Bool.true_or]
  | distrust => exact a.markUntrusted_changes

theorem proceed_spares {reorg : Reorg} {answers : Answers} (hoff : item.offBlocks reorg.droppedHashes = true)
    (hqueues : a.Queues key answers) (numbered : Nat) (waiting : List Suspended) :
    ItemSpared key item a (proceed a reorg numbered answers waiting).actor := by
  refine proceed_changes reorg numbered answers waiting (fun b pool set retained hset hretained _ => ?_) (fun b _ _ => ?_)
    (fun b work s hcrossing _ _ hitem => ?_) (fun b _ other hmem => ?_) (fun _ _ _ _ => trivial)
    fun b candidate rest n hb _ => spares_drop hqueues hb candidate rest n
  · refine spares_revise fun other _ hother hitem => ?_
    obtain rfl := Option.some.inj (hset.symm.trans hother)
    rw [RegistrationEvidenceSet.evidence_retain hretained, Finset.mem_filter, hoff, Bool.or_true]
    exact ⟨hitem, rfl⟩
  · exact ⟨Finset.singleton_nonempty item, rfl, fun other hmem => Finset.mem_singleton.mp hmem ▸ hoff⟩
  · cases hoff.symm.trans (crossing_eq_none.mp hcrossing item (Finset.singleton_subset_iff.mp hitem))
  · exact Finset.mem_singleton.mp hmem ▸ hoff

/-- What a pool that a fence removes has of the item is none. -/
theorem resume_spares (horder : InOrder m) {install : InstallAnswer} {removal : RemovalAnswer}
    {numbered : Nat} {answers : Answers} (hlasts : Lasts m key item (.resume install removal numbered answers))
    (hretains : Retains m key item (.resume install removal numbered answers)) :
    ItemSpared key item m.actor (m.resume install removal numbered answers).actor := by
  obtain ⟨hinstall, hremove⟩ := hretains
  refine m.resume_changes install removal numbered answers
    (fun work copy baseline waiting hframe => (horder.held work copy baseline (hframe ▸ List.mem_cons_self)).scheduled)
    (fun work copy baseline waiting b hframe hb hbaseline hanswer _ hkey => ?_)
    (fun work copy baseline waiting hframe hbaseline hanswer _ hkey => ?_)
    (fun pool frame waiting hframe hkind hactive hremoves _ hkey active set hpool hset hitem => ?_)
    (fun _ htrusted => nomatch htrusted) (fun pool rest waiting b hframe hremoved => ?_)
  · rw [Waits, hb]
    exact (hinstall work copy baseline waiting hframe hbaseline hkey false hanswer).1
  · obtain ⟨hwaits, hjoined⟩ := hinstall work copy baseline waiting hframe hbaseline hkey true hanswer
    exact ⟨fun s hs hitem => Finset.singleton_subset_iff.mpr (hjoined s hs (Finset.singleton_subset_iff.mp hitem)), hwaits⟩
  · subst hkey
    obtain rfl := Option.some.inj (hpool.symm.trans (of_decide_eq_true hactive))
    exact hremove active frame waiting set hframe hkind hactive hremoves rfl hset (Finset.singleton_subset_iff.mp hitem)
  · obtain ⟨hremoves, rfl⟩ := removePoolSerialized_eq_true _ hremoved
    obtain ⟨hoff, hqueues⟩ := hlasts pool rest waiting hframe hremoves
    exact proceed_spares (a := m.actor.dropPool pool) hoff hqueues numbered waiting

theorem step_recorded (horder : InOrder m) (hbacked : m.actor.Backed key) (event : Event) (hlasts : Lasts m key item event)
    (hretains : Retains m key item event) (hrecorded : Recorded m.actor key item)
    (htrusted : (m.step event).actor.trusted = true) : Recorded (m.step event).actor key item := by
  have hserving := (step_changes horder event).trusted htrusted
  have hspared : ItemSpared key item m.actor (m.step event).actor → Recorded (m.step event).actor key item :=
    fun hchanges => hchanges.carries horder.filed hbacked horder.entered hrecorded htrusted
  cases event with
  | command command =>
    obtain ⟨a, suspended⟩ := m
    cases suspended with
    | cons frame waiting => exact hspared (.refl a)
    | nil =>
      by_cases hretried : ∃ work numbered answer answers, command = .failScheduledWork work true numbered answer answers ∧
          numbered = true ∧ a.Holds key item work
      · obtain ⟨work, numbered, answer, answers, rfl, rfl, s, hs, rfl, hitem⟩ := hretried
        obtain ⟨candidate, hretry⟩ := Option.isSome_iff_exists.mp (hretains rfl rfl rfl s hs rfl hitem)
        obtain ⟨hadapter, hanswers⟩ := (hlasts rfl rfl).2 rfl
        have hretries := failScheduledWork_retries horder.filed horder.entered hs hretry hadapter hanswers htrusted
        exact hretries.mono (Finset.singleton_subset_iff.mpr hitem) (Finset.empty_subset _)
      · exact hspared (handle_spares horder.filed (horder.entered hserving) command (hlasts rfl) (hretains rfl)
          fun work numbered answer answers hcommand hnumbered hholds =>
            hretried ⟨work, numbered, answer, answers, hcommand, hnumbered, hholds⟩)
  | ingest batch answer numbered answers =>
    refine hspared ?_
    rw [step]
    rcases m.ingest_cases batch answer numbered answers with heq | heq | ⟨haccepts, hpublishes, heq⟩
    · rw [heq]
      exact .refl _
    · rw [heq]
      exact m.actor.markUntrusted_changes
    · rw [heq]
      obtain ⟨hoff, hqueues⟩ := hlasts haccepts hpublishes
      exact (published_changes batch fun _ => trivial).trans
        (proceed_spares (a := published m.actor batch) hoff hqueues numbered m.suspended)
  | resume install removal numbered answers => exact hspared (resume_spares horder hlasts hretains)

/-- A run leaves an item recorded that it lasts through and does not lose. -/
theorem run_recorded (horder : InOrder m) (events : List Event) (hlasts : RunLasts key item m events)
    (hretains : RunRetains key item m events) (hrecorded : Recorded m.actor key item)
    (htrusted : (m.run events).actor.trusted = true) : Recorded (m.run events).actor key item := by
  induction events generalizing m with
  | nil => exact hrecorded
  | cons event rest ih =>
    have hstep := step_inOrder horder event
    exact ih hstep hlasts.2 hretains.2
      (step_recorded horder hlasts.1.1 event hlasts.1.2 hretains.1 hrecorded (run_trusted hstep rest htrusted)) htrusted

/-! ### Candidates that are passed on -/

/-- The watchers that are live stay so. -/
theorem live_of_changes {b : AmmRuntimeActor} {owner : DiscoveryOwnerId}
    (h : Changes (fun _ change => ∀ owner, change ≠ .dropOwner owner) a b) (hlive : a.isActiveDiscovery owner = true) :
    b.isActiveDiscovery owner = true := by
  refine h.keeps (P := fun a => a.isActiveDiscovery owner = true) (fun c change hc hfits hkept => ?_) hlive
  cases change with
  | aside b => exact hfits.live owner hc
  | dropOwner other => exact absurd rfl (hkept.resolve_left id other)
  | burn key =>
    rw [Change.apply, burn_eq]
    exact hc
  | adopt candidate rest adapter =>
    rw [Change.adopt_apply]
    exact hc
  | join candidate rest work =>
    unfold Change.apply modifyWork
    dsimp only
    split <;> exact hc
  | release work s =>
    unfold Change.apply release cancelPoolReservation
    dsimp only
    split_ifs <;> exact hc
  | support | retain | drop | strand | queue | unreserve | activate | install | prepare | regenerate
  | force | dropPool | withdraw | revise | reconcilePending | reconcileRegistered | publish => exact hc

/-- Each candidate of a live watcher that is retained is carried when all of them are. -/
theorem foldl_retain_carries (hfiled : Filed a) (hentered : a.trusted = true → Entered a)
    {candidates : List AmmFactoryCandidate} {candidate : AmmFactoryCandidate}
    (hbacked : a.Backed candidate.registration.key) (hmem : candidate ∈ candidates)
    (hlive : a.isActiveDiscovery candidate.owner = true)
    (htrusted : (candidates.foldl retainFactoryCandidate a).trusted = true) :
    Carries (candidates.foldl retainFactoryCandidate a) candidate.registration.key candidate.evidence.evidence ∅ := by
  obtain ⟨before, after, rfl⟩ := List.append_of_mem hmem
  rw [List.foldl_append, List.foldl_cons] at htrusted ⊢
  generalize hb : before.foldl retainFactoryCandidate a = b at htrusted ⊢
  have hbefore : BackingChanges a b := hb ▸ (a.foldl_retain_changes before fun _ _ _ _ => nofun).1
  have hlive' : b.isActiveDiscovery candidate.owner = true :=
    live_of_changes (hb ▸ (a.foldl_retain_changes before fun _ _ _ => nofun).1) hlive
  have hone : BackingChanges b (b.retainFactoryCandidate candidate) := b.retainFactoryCandidate_changes fun _ => nofun
  have hafter : SparingChanges candidate.registration.key candidate.evidence.evidence ∅ (b.retainFactoryCandidate candidate)
      (after.foldl retainFactoryCandidate (b.retainFactoryCandidate candidate)) :=
    (foldl_retain_changes _ after fun _ _ _ _ => trivial).1
  have hretained := retainFactoryCandidate_carries candidate hlive' (hafter.trusted htrusted)
  have hchanges := hbefore.trans hone
  exact hafter.carries (hchanges.files hfiled).filed (BackingChanges.backed hchanges hfiled hbacked)
    (hchanges.entered hentered)
    (hretained.mono (Finset.Subset.refl _) (Finset.empty_subset _)) htrusted

theorem reported_recorded (hfiled : Filed a) (hentered : a.trusted = true → Entered a) {work : RuntimeWorkId}
    {owner : DiscoveryOwnerId} {report : TokenEdgeDiscoveryReport} {numbered : Bool} {answers : Answers}
    {candidate : AmmFactoryCandidate} (hbacked : a.Backed candidate.registration.key)
    (hmem : candidate ∈ a.reported work owner report) (hlive : a.isActiveDiscovery candidate.owner = true)
    (hitem : item ∈ candidate.evidence.evidence) (hqueues : a.Queues candidate.registration.key answers)
    (htrusted : (a.commitScheduledDiscovery work owner report numbered answers).1.trusted = true) :
    Recorded (a.commitScheduledDiscovery work owner report numbered answers).1 candidate.registration.key item := by
  unfold reported at hmem
  split at hmem
  · next scheduled protocols hwork hprotocols =>
    by_cases haccepted : (a.acceptsReport scheduled owner report && scheduled.revalidatePool.isNone) = true
    · rw [if_pos haccepted] at hmem
      rw [Bool.and_eq_true, Option.isNone_iff_eq_none] at haccepted
      have hcommit : (a.commitScheduledDiscovery work owner report numbered answers).1 =
          (let b := ((report.admitted protocols scheduled.maxCandidates).map (reportedCandidate scheduled)).foldl
            retainFactoryCandidate a
          if !numbered then b
          else ((b.removeDiscoveryWork work).drainFactoryCandidates answers.candidates).drainRevalidations
            answers.revalidations) := by
        unfold commitScheduledDiscovery
        rw [hwork]
        dsimp only
        rw [haccepted.1, Bool.not_true, if_neg Bool.false_ne_true, hprotocols, haccepted.2, List.foldl_map]
        cases numbered <;> rfl
      rw [hcommit] at htrusted ⊢
      generalize hcandidates : (report.admitted protocols scheduled.maxCandidates).map
        (reportedCandidate scheduled) = candidates
        at hmem htrusted ⊢
      obtain ⟨hretained, hadapters⟩ : BackingChanges a (candidates.foldl retainFactoryCandidate a) ∧ _ :=
        a.foldl_retain_changes candidates fun _ _ _ _ => nofun
      have hcarries := foldl_retain_carries hfiled hentered hbacked hmem hlive
      generalize candidates.foldl retainFactoryCandidate a = b at htrusted hretained hadapters hcarries ⊢
      have hsettled : ItemSpared candidate.registration.key item b (if !numbered then b
          else ((b.removeDiscoveryWork work).drainFactoryCandidates answers.candidates).drainRevalidations
            answers.revalidations) := by
        cases numbered with
        | false => exact .refl b
        | true =>
          refine (b.removeDiscoveryWork_changes work).trans
            ((drainFactoryCandidates_changes _ _ ?_).trans (drainRevalidations_changes _ _))
          exact fun c waiting rest n hserves _ _ => spares_drop hqueues (hserves.adapters.trans hadapters) waiting rest n
      exact hsettled.carries (hretained.files hfiled).filed (hretained.backed hfiled hbacked) (hretained.entered hentered)
        ((hcarries (hsettled.trusted htrusted)).mono (Finset.singleton_subset_iff.mpr hitem)
          (Finset.Subset.refl _)) htrusted
    · rw [if_neg haccepted] at hmem
      cases hmem
  · cases hmem

/-- What an ingest does before it retains its candidates takes no watcher away. -/
theorem settled_changes {allow : AmmRuntimeActor → Change → Prop}
    (hallow : ∀ b change, (∀ owner, change ≠ .dropOwner owner) → (∀ key, change ≠ .strand key) → allow b change)
    {dropped : List B256} {actions : List (PoolInstanceId × RegistrationReorgAction × Option Revalidations)}
    {numbered : Nat} {b c : AmmRuntimeActor} (htaken : takeActions dropped actions a = (b, none))
    (hreconciled : b.reconcileOrphanedPendingRegistrations dropped numbered = (true, c)) (answers : Nat → QueueAnswer) :
    Changes allow a (c.drainRevalidations answers) ∧ (c.drainRevalidations answers).adapters = a.adapters := by
  have htakes : Changes allow a (takeActions dropped actions a).1 :=
    a.takeActions_changes _ _ fun b pool _ retained _ _ => hallow b _ nofun nofun
  have hreconciles : Changes allow b (b.reconcileOrphanedPendingRegistrations dropped numbered).2 :=
    reconcile_changes _ _ (hallow b _ nofun nofun) (fun d work s _ => hallow d _ nofun nofun) fun d =>
      hallow d _ nofun nofun
  have htakenAdapters := a.takeActions_adapters dropped actions
  have hreconciledAdapters := b.reconcile_adapters dropped numbered
  rw [htaken] at htakes htakenAdapters
  rw [hreconciled] at hreconciles hreconciledAdapters
  exact ⟨htakes.trans (hreconciles.trans (drainRevalidations_changes _ _)),
    (c.drainRevalidations_adapters _).trans (hreconciledAdapters.trans htakenAdapters)⟩

theorem passedOn_recorded (hfiled : Filed a) (hentered : a.trusted = true → Entered a) {reorg : Reorg} {numbered : Nat}
    {answers : Answers} {waiting : List Suspended} {candidate : AmmFactoryCandidate}
    (hbacked : a.Backed candidate.registration.key) (hmem : candidate ∈ a.passedOn reorg numbered)
    (hlive : a.isActiveDiscovery candidate.owner = true) (hitem : item ∈ candidate.evidence.evidence)
    (hqueues : a.Queues candidate.registration.key answers)
    (htrusted : (proceed a reorg numbered answers waiting).actor.trusted = true) :
    Recorded (proceed a reorg numbered answers waiting).actor candidate.registration.key item := by
  unfold passedOn at hmem
  unfold proceed at htrusted ⊢
  split at hmem
  · next b htaken =>
    rw [htaken] at htrusted ⊢
    dsimp only at htrusted ⊢
    split_ifs at hmem with hreached
    · obtain ⟨c, hreconciled⟩ : ∃ c, b.reconcileOrphanedPendingRegistrations reorg.droppedHashes numbered = (true, c) :=
        ⟨_, Prod.ext hreached rfl⟩
      unfold finishIngest at htrusted ⊢
      rw [hreconciled] at htrusted ⊢
      dsimp only at htrusted ⊢
      obtain ⟨hsettled, hadapters⟩ : BackingChanges a _ ∧ _ :=
        settled_changes (fun _ _ _ hstrands => hstrands) htaken hreconciled answers.revalidations
      have hlive := live_of_changes (settled_changes (fun _ _ hkept _ => hkept) htaken hreconciled
        answers.revalidations).1 hlive
      generalize c.drainRevalidations answers.revalidations = d at htrusted hsettled hadapters hlive ⊢
      obtain ⟨hretained, hkept⟩ : BackingChanges d (reorg.candidates.foldl retainFactoryCandidate d) ∧ _ :=
        d.foldl_retain_changes reorg.candidates fun _ _ _ _ => nofun
      have hcarries := foldl_retain_carries (hsettled.files hfiled).filed (hsettled.entered hentered)
        (BackingChanges.backed hsettled hfiled hbacked) hmem hlive
      have hall := hsettled.trans hretained
      generalize reorg.candidates.foldl retainFactoryCandidate d = e at htrusted hretained hkept hcarries hall ⊢
      have hdrained : ItemSpared candidate.registration.key item e (e.drainFactoryCandidates answers.candidates) :=
        e.drainFactoryCandidates_changes _ fun f waiting rest n hserves _ _ =>
          spares_drop hqueues (hserves.adapters.trans (hkept.trans hadapters)) waiting rest n
      exact hdrained.carries (hall.files hfiled).filed (BackingChanges.backed hall hfiled hbacked) (hall.entered hentered)
        ((hcarries (hdrained.trusted htrusted)).mono (Finset.singleton_subset_iff.mpr hitem)
          (Finset.Subset.refl _)) htrusted
    · cases hmem
  · cases hmem

/-- A candidate of a live watcher that an event retains is recorded after it. -/
theorem step_passes (horder : InOrder m) {event : Event} {candidate : AmmFactoryCandidate}
    (hmem : candidate ∈ m.passed event) (hlive : m.actor.isActiveDiscovery candidate.owner = true)
    (hitem : item ∈ candidate.evidence.evidence) (hbacked : m.actor.Backed candidate.registration.key)
    (hlasts : Lasts m candidate.registration.key item event) (htrusted : (m.step event).actor.trusted = true) :
    Recorded (m.step event).actor candidate.registration.key item := by
  cases event with
  | command command =>
    obtain ⟨a, suspended⟩ := m
    cases command with
    | commitScheduledDiscovery work owner report numbered answers =>
      cases suspended with
      | nil =>
        have hstep : ((⟨a, []⟩ : Machine).step (.command
            (.commitScheduledDiscovery work owner report numbered answers))).actor =
            (a.commitScheduledDiscovery work owner report numbered answers).1 :=
          handle_commitScheduledDiscovery a work owner report numbered answers
        rw [hstep] at htrusted ⊢
        exact reported_recorded horder.filed horder.entered hbacked hmem hlive hitem (hlasts rfl).1 htrusted
      | cons frame waiting => cases hmem
    | attachColdStartWorker | addFactoryWatcher | removeFactoryWatcher | queueColdStart
    | queueDiscovery | commitScheduledPool
    | installPreparedPools | failScheduledWork | cancelScheduledWork | removePool | addAdapter | removeAdapter
    | removeAdapterCascade | distrust => cases hmem
  | ingest batch answer numbered answers =>
    unfold passed at hmem
    dsimp only at hmem
    split_ifs at hmem with hpublished
    · rw [Bool.and_eq_true, decide_eq_true_iff] at hpublished
      obtain ⟨haccepts, rfl⟩ := hpublished
      obtain ⟨-, hqueues⟩ := hlasts haccepts rfl
      have hchanges : BackingChanges m.actor (published m.actor batch) := published_changes batch (by rintro _ ⟨⟩)
      have hstep : m.step (.ingest batch .publishes numbered answers) =
          proceed (published m.actor batch) (reorgOf m.actor batch) numbered answers m.suspended :=
            ingest_of_accepts haccepts _ _
      rw [hstep] at htrusted ⊢
      exact passedOn_recorded (hchanges.files horder.filed).filed (hchanges.entered horder.entered)
        (hchanges.backed horder.filed hbacked) hmem hlive hitem hqueues htrusted
    · cases hmem
  | resume install removal numbered answers =>
    unfold passed at hmem
    dsimp only at hmem
    split at hmem
    · next pool rest waiting hframe =>
      split at hmem
      · next a hremoved =>
        have hstep : m.step (.resume install removal numbered answers) = proceed a rest numbered answers waiting := by
          rw [step, resume, hframe]
          dsimp only
          rw [hremoved]
        rw [hstep] at htrusted ⊢
        obtain ⟨hremoves, rfl⟩ := removePoolSerialized_eq_true _ hremoved
        obtain ⟨-, hqueues⟩ := hlasts pool rest waiting hframe hremoves
        have hchanges : BackingChanges m.actor (m.actor.dropPool pool) := .allowed (.dropPool pool) trivial (by rintro _ ⟨⟩)
        exact passedOn_recorded (hchanges.files horder.filed).filed (hchanges.entered horder.entered)
          (hchanges.backed horder.filed hbacked) hmem hlive hitem hqueues htrusted
      · cases hmem
    · cases hmem

end Machine

/-- The evidence of a candidate of a live watcher is recorded for its pool after the event that has it retained, and after
    every later run that it lasts through and that does not lose it, while the actor is trusted. -/
theorem evidence_kept (point : AmmStatePoint) (adapters : List AdapterInstanceId)
    (pools : List PoolInstanceId) (before : List Event) (event : Event) (after : List Event)
    (candidate : AmmFactoryCandidate) (item : RegistrationProvenance)
    (hpassed : candidate ∈ ((Machine.start point adapters pools).run before).passed event)
    (hlive : ((Machine.start point adapters pools).run before).actor.isActiveDiscovery candidate.owner = true)
    (hitem : item ∈ candidate.evidence.evidence)
    (hlasts : RunLasts candidate.registration.key item ((Machine.start point adapters pools).run before) (event :: after))
    (hretains : RunRetains candidate.registration.key item
    (((Machine.start point adapters pools).run before).step event) after) (htrusted :
    ((Machine.start point adapters pools).run (before ++ event :: after)).actor.trusted = true) :
    Recorded ((Machine.start point adapters pools).run (before ++ event :: after)).actor
      candidate.registration.key item := by
  have horder := Machine.run_inOrder (Machine.start_inOrder point adapters pools) before
  rw [Machine.run, List.foldl_append, List.foldl_cons] at htrusted ⊢
  have hstep := Machine.step_inOrder horder event
  exact Machine.run_recorded hstep after hlasts.2 hretains
    (Machine.step_passes horder hpassed hlive hitem hlasts.1.1 hlasts.1.2
      (Machine.run_trusted hstep after htrusted)) htrusted

/-! ### Records that end -/

/-- The candidate of the pool that the first watcher sees created. -/
def seenCandidate : AmmFactoryCandidate := ⟨firstWatcher, poolAt 1, .one (.factoryLog firstWatcher 5 1 1 1 1 0), none⟩

/-- The evidence of a pool that is seen created is recorded also after a retry. -/
theorem evidence_kept_retried :
    Recorded (chainStart.run (watched ++ [blockAt 1 1 [seenBy firstWatcher] [], staleRetry])).actor (.uniswapV2 1)
      (.factoryLog firstWatcher 5 1 1 1 1 0) := by
  refine evidence_kept ⟨1, 0, 0⟩ [] [] watched (blockAt 1 1 [seenBy firstWatcher] []) [staleRetry] seenCandidate _
    List.mem_cons_self (by decide +kernel) (by decide +kernel) ⟨⟨by decide +kernel, ?_⟩, ⟨by decide +kernel, ?_⟩, trivial⟩
    ⟨?_, trivial⟩ (by decide +kernel)
  · exact fun _ _ => ⟨by decide +kernel, by decide +kernel, fun _ => nofun⟩
  · exact fun _ _ => ⟨fun _ => rfl, fun _ => ⟨by decide +kernel, fun _ => nofun⟩⟩
  · intro _ _ _ s hs _ _
    cases hs
    decide +kernel

/-- A discovery of the first watcher. -/
def discovery : Event := .command (.queueDiscovery firstWatcher ⟨7, [], none⟩ .default .accepts)

/-- A discovery of the first watcher is completed, and has found a pool. -/
def oneFound (work : Nat) : Event :=
  .command (.commitScheduledDiscovery ⟨.discovery firstWatcher, work⟩ firstWatcher
    ⟨⟨7, [], none⟩, [⟨.uniswapV2 1, poolAt 1⟩]⟩ true accepting)

/-- A pool is discovered and installed, a reorg drops the block of its discovery, and it is discovered again. -/
def rediscovered : List Event :=
  watched ++ [discovery, oneFound 0, .command (.commitScheduledPool (poolWork 0 1) ⟨.uniswapV2 1, 0⟩ (poolAt 1) ⟨1, 0, 0⟩),
    .resume (.installs true) .removes 9 accepting, blockAt 1 1 [] [0], discovery]

/-- The revalidation of the pool is completed one block later. -/
def revalidated : List Event :=
  [blockAt 2 2 [] [], .command (.failScheduledWork ⟨.discovery firstWatcher, 2⟩ true true .accepts accepting), oneFound 4]

/-- A watcher of an actor that has no worker. -/
def unattended : List Event := [.command (.addAdapter v2Family true), .command (.addFactoryWatcher ⟨"first"⟩ v2Family true)]

/-- A client installs the pool before the worker is attached. -/
def installedMeanwhile : List Event :=
  [.command (.installPreparedPools [poolAt 1] ⟨1, 1, 1⟩ (.installs true)), .command (.attachColdStartWorker accepting)]

/-- No pool of the key has the item, and nothing is scheduled or waits. -/
theorem not_recorded {a : AmmRuntimeActor} {key : PoolKey} {item : RegistrationProvenance}
    (hactive : (a.activePools.get key).all (fun pool => (a.registrationEvidence.get pool).all (item ∉ ·.evidence)) = true)
    (hindex : a.pendingPoolWork.get key = none) (hpending : a.pendingFactoryCandidates.isEmpty = true) :
    ¬Recorded a key item := by
  rintro (⟨pool, set, hpool, hset, hitem⟩ | ⟨work, s, hkey, -, -⟩ | ⟨candidate, -, hmem, -⟩)
  · rw [hpool, Option.all_some, hset, Option.all_some, decide_eq_true_iff] at hactive
    exact hactive (Finset.singleton_subset_iff.mp hitem)
  · cases hindex.symm.trans hkey
  · rw [List.isEmpty_iff] at hpending
    exact List.not_mem_nil (hpending ▸ hmem)

/-- The pool is live and its watcher too, but a revalidation puts a newer query in the place of the item, or a drain drops
    the item with the candidate that waits for the pool. -/
theorem evidence_lost :
    ((∃ candidate ∈ (chainStart.run rediscovered).passed (oneFound 3), candidate.registration.key = .uniswapV2 1 ∧
        queryEvidence firstWatcher ⟨1, 1, 1⟩ ∈ candidate.evidence.evidence) ∧
      (chainStart.run (rediscovered ++ oneFound 3 :: revalidated)).actor.trusted = true ∧
      ¬Recorded (chainStart.run (rediscovered ++ oneFound 3 :: revalidated)).actor (.uniswapV2 1)
        (queryEvidence firstWatcher ⟨1, 1, 1⟩)) ∧
    (∃ candidate ∈ (chainStart.run unattended).passed (blockAt 1 1 [seenBy firstWatcher] []),
      candidate.registration.key = .uniswapV2 1 ∧ .factoryLog firstWatcher 5 1 1 1 1 0 ∈ candidate.evidence.evidence) ∧
      (chainStart.run (unattended ++ blockAt 1 1 [seenBy firstWatcher] [] :: installedMeanwhile)).actor.trusted = true ∧
      ¬Recorded (chainStart.run (unattended ++ blockAt 1 1 [seenBy firstWatcher] [] :: installedMeanwhile)).actor
        (.uniswapV2 1) (.factoryLog firstWatcher 5 1 1 1 1 0) := by
  refine ⟨⟨?_, ?_, not_recorded ?_ ?_ ?_⟩, ?_, ?_, not_recorded ?_ ?_ ?_⟩
  all_goals decide +kernel
end AmmState.Provenance
