import AmmState.Theorems.Runtime.Revisions

/-! What every handler of the runtime actor keeps. The handlers are proved once, for any property of the trust that follows
    a few rules, and with or without the deliveries: what commits deliver and what a loss of trust stops both follow. -/

namespace AmmState.Changes
open Fallible

variable {Contents : Type}

/-! ### Rules -/

/-- What trust and its loss rest on. -/
structure Standing (Contents : Type) where
  lost : Option (Loss Contents)
  trusted : Bool
  version : Nat
  point : AmmStatePoint
  snapshots : List (AmmStateSnapshot Contents)
  health : AmmRuntimeHealth
  status : AmmRuntimeStatusSnapshot
  eventSequence : Nat

def AmmRuntimeActor.standing (a : AmmRuntimeActor Contents) : Standing Contents :=
  ⟨a.lost, a.trusted, a.version, a.point, a.snapshots, a.health, a.status, a.eventSequence⟩

/-- What is proved of the handlers: the deliveries after `first`, where there is one, and a property that is `safe` in every
    state and `trusted` between a trust check and the commit. -/
structure Rules (Contents : Type) where
  first : Option (AmmStateSnapshot Contents)
  safe : AmmRuntimeActor Contents → Prop
  trusted : AmmRuntimeActor Contents → Prop
  safe_of_trusted : ∀ {a}, trusted a → safe a
  check : ∀ {a}, safe a → a.trusted = true → trusted a
  keep : ∀ {a b : AmmRuntimeActor Contents}, b.standing = a.standing → (safe a → safe b) ∧ (trusted a → trusted b)
  announce : ∀ {a} (count : Nat), safe a → a.eventSequence + 1 < 2 ^ 64 → safe (a.announce (a.eventSequence + 1) count)
  loseTrust : ∀ {a}, safe a → safe a.loseTrust
  shutDown : ∀ {a}, safe a → safe { a with health := .shuttingDown }
  publish : ∀ {a b : AmmRuntimeActor Contents}, trusted a → b.lost = a.lost → b.trusted = a.trusted →
    b.health ≠ .untrusted → safe b

namespace Rules
variable (R : Rules Contents)

/-- Whether trust has been checked. -/
def assured : Bool → AmmRuntimeActor Contents → Prop
  | true => R.trusted
  | false => R.safe

structure Sound (a : AmmRuntimeActor Contents) : Prop where
  delivered : ∀ first ∈ R.first, Inv first a
  safe : R.safe a

/-- The invariant, with a fact that a handler has established on its way. -/
structure With (held : Bool) (G : AmmRuntimeActor Contents → Prop) (a : AmmRuntimeActor Contents) : Prop where
  delivered : ∀ first ∈ R.first, Inv first a
  trust : R.assured held a
  fact : G a

end Rules

variable {R : Rules Contents} {held : Bool} {G : AmmRuntimeActor Contents → Prop}

theorem Rules.assured_of {a b : AmmRuntimeActor Contents} (h : R.assured held a) (hsame : b.standing = a.standing) :
    R.assured held b := by
  cases held with
  | true => exact (R.keep hsame).2 h
  | false => exact (R.keep hsame).1 h

theorem Rules.With.sound {a : AmmRuntimeActor Contents} (h : R.With held G a) : R.Sound a := by
  refine ⟨h.delivered, ?_⟩
  have htrust := h.trust
  cases held with
  | true => exact R.safe_of_trusted htrust
  | false => exact htrust

theorem Rules.Sound.start {a : AmmRuntimeActor Contents} (h : R.Sound a) : R.With false (fun _ => True) a :=
  ⟨h.delivered, h.safe, trivial⟩

/-- Changes of the engine, the channel and the interest revision keep the rest. -/
theorem Rules.Sound.of {a b : AmmRuntimeActor Contents} (h : R.Sound a) (hsame : b.standing = a.standing)
    (hinv : ∀ first ∈ R.first, Inv first a → Inv first b) : R.Sound b :=
  ⟨fun first hfirst => hinv first hfirst (h.delivered first hfirst), (R.keep hsame).1 h.safe⟩

theorem Rules.With.of {a b : AmmRuntimeActor Contents} {G' : AmmRuntimeActor Contents → Prop} (h : R.With held G a)
    (hsame : b.standing = a.standing) (hinv : ∀ first ∈ R.first, Inv first a → Inv first b) (hG : G' b) :
    R.With held G' b :=
  ⟨fun first hfirst => hinv first hfirst (h.delivered first hfirst), R.assured_of h.trust hsame, hG⟩

/-! ### Parts of handlers -/

/-- The version and the first event number of the next commit. -/
def Identity (version firstSequence : Nat) (a : AmmRuntimeActor Contents) : Prop :=
  version = a.version + 1 ∧ firstSequence = a.eventSequence + 1

/-- The next commit and its events have numbers. -/
def Numbered (a : AmmRuntimeActor Contents) (events : Nat) : Prop :=
  a.version + 1 < 2 ^ 64 ∧ a.eventSequence + 1 < 2 ^ 64 ∧ a.eventSequence + events < 2 ^ 64

/-- The critical channel is not shut down where there is one. -/
def Open (a : AmmRuntimeActor Contents) (capacity : Capacity) : Prop := a.critical ≠ none → capacity ≠ .shutdown

section Parts

theorem start_spec {α : Type} {m : ActorM Contents α} {Q : α → AmmRuntimeActor Contents → Prop}
    (h : Triple (R.With false fun _ => True) m Q R.Sound) : Triple R.Sound m Q R.Sound :=
  h.pre fun _ ha => ha.start

theorem reads_spec {α : Type} {m : ActorM Contents α} (hm : Reads m) :
    Triple (R.With held G) m (fun _ => R.With held G) R.Sound := .reads hm fun _ h => h.sound

theorem nextEventSequence_reads (count : Nat) : Reads (nextEventSequence count : ActorM Contents Nat) :=
  .bind .get fun _ => .bind (.ensure _ _) fun _ => .pure _

theorem nextCommitIdentity_reads (count : Nat) : Reads (nextCommitIdentity count : ActorM Contents (Nat × Nat)) :=
  .bind .get fun _ => .bind (.ensure _ _) fun _ => .bind (nextEventSequence_reads count) fun _ => .pure _

theorem nextInterestRevision_reads (changed : Bool) : Reads (nextInterestRevision changed : ActorM Contents Nat) :=
  .bind .get fun _ => .ite (.bind (.ensure _ _) fun _ => .pure _) (.pure _)

theorem requireBaseline_reads (baseline : AmmStatePoint) : Reads (requireBaseline baseline : ActorM Contents Unit) :=
  .bind .get fun _ => .ensure _ _

theorem commitTransaction_reads (needed : Bool) (answer : Option AmmRuntimeCommandError) :
    Reads (commitTransaction needed answer : ActorM Contents Unit) := .bind .get fun _ => .ite (.check answer) (.pure ())

theorem requireTrusted_spec : Triple (R.With held G) requireTrusted (fun _ => R.With true G) R.Sound := by
  refine .read fun a ha => ?_
  refine (Triple.ensure (a.trusted = true) AmmRuntimeCommandError.untrusted ?_).conseq (fun _ h => h) ?_ fun _ h => h
  · rintro s rfl
    exact ha.sound
  · rintro _ s ⟨rfl, htrusted⟩
    exact ⟨ha.delivered, R.check ha.sound.safe htrusted, ha.fact⟩

theorem requireActive_spec (pool : PoolInstanceId) :
    Triple (R.With held G) (requireActive pool)
      (fun _ => R.With held fun a => G a ∧ a.engine.active pool.key = some pool) R.Sound := by
  refine .read fun a ha => ?_
  refine (Triple.ensure (a.engine.active pool.key = some pool) (AmmRuntimeCommandError.other "stale pool instance")
    ?_).conseq (fun _ h => h) ?_ fun _ h => h
  · rintro s rfl
    exact ha.sound
  · rintro _ s ⟨rfl, hactive⟩
    exact ⟨ha.delivered, ha.trust, ha.fact, hactive⟩

theorem nextCommitIdentity_at {a : AmmRuntimeActor Contents} (count : Nat) (ha : R.Sound a) :
    Triple (fun s => s = a) (nextCommitIdentity count)
      (fun identity s => s = a ∧ Identity identity.1 identity.2 a ∧ Numbered a count) R.Sound := by
  refine .read ?_
  rintro _ rfl
  refine .bind (.ensure _ _ fun t ht => ht ▸ ha) fun _ => .pointwise ?_
  rintro t ⟨rfl, hversion⟩
  refine .bind (Q := fun sequence u => u = t ∧ sequence = t.eventSequence + 1 ∧ t.eventSequence + 1 < 2 ^ 64 ∧
    t.eventSequence + count < 2 ^ 64) ?_ fun sequence => .pure ?_
  · refine .read ?_
    rintro _ rfl
    refine .bind (.ensure _ _ fun u hu => hu ▸ ha) fun _ => .pure ?_
    rintro u ⟨rfl, hsequence⟩
    exact ⟨rfl, rfl, hsequence⟩
  · rintro u ⟨rfl, rfl, hsequence⟩
    exact ⟨rfl, ⟨rfl, rfl⟩, hversion, hsequence⟩

theorem nextCommitIdentity_spec (count : Nat) :
    Triple (R.With held G) (nextCommitIdentity count)
      (fun identity => R.With held fun a => G a ∧ Identity identity.1 identity.2 a) R.Sound := by
  refine .pointwise fun a ha => (nextCommitIdentity_at count ha.sound).conseq (fun _ h => h) ?_ fun _ h => h
  rintro identity s ⟨rfl, hidentity, -⟩
  exact ⟨ha.delivered, ha.trust, ha.fact, hidentity⟩

theorem nextRevision_at {a : AmmRuntimeActor Contents} (pool : PoolInstanceId) (ha : R.Sound a) :
    Triple (fun s => s = a) (nextRevision pool)
      (fun revision s => s = a ∧ revision = (a.revisions pool).getD 0 + 1 ∧ (a.revisions pool).getD 0 + 1 < 2 ^ 64)
      R.Sound := by
  refine .read ?_
  rintro s rfl
  rw [PoolRevisionMap.next]
  split_ifs with hroom
  · exact .pure fun _ hs => ⟨hs, rfl, hroom⟩
  · exact .throw fun _ hs => hs ▸ ha

theorem nextRevision_spec (pool : PoolInstanceId) :
    Triple (R.With held G) (nextRevision pool)
      (fun revision => R.With held fun a => G a ∧ revision = (a.revisions pool).getD 0 + 1) R.Sound := by
  refine .pointwise fun a ha => (nextRevision_at pool ha.sound).conseq (fun _ h => h) ?_ fun _ h => h
  rintro revision s ⟨rfl, hrevision, -⟩
  exact ⟨ha.delivered, ha.trust, ha.fact, hrevision⟩

/-- The permit is that of the channel; one without a receiver is dropped. -/
theorem reserveCritical_at {a : AmmRuntimeActor Contents} (capacity : Capacity) (ha : R.Sound a) :
    Triple (fun s => s = a) (reserveCritical capacity)
      (fun permit s => s = { a with critical := permit } ∧ R.Sound s ∧ Open a capacity) R.Sound := by
  refine .read ?_
  rintro s rfl
  cases hcritical : s.critical with
  | none =>
    have hsame : s = { s with critical := none } := by rw [← hcritical]
    exact .pure fun t ht => ⟨ht.trans hsame, ht ▸ ha, fun hne => absurd hcritical hne⟩
  | some subscription =>
    have hsame : s = { s with critical := some subscription } := by rw [← hcritical]
    cases capacity with
    | permit => exact .pure fun t ht => ⟨ht.trans hsame, ht ▸ ha, fun _ => nofun⟩
    | receiverDropped =>
      refine .bind (Q := fun _ t => t = { s with critical := none }) (.sets fun _ _ => rfl) fun _ => .pure ?_
      rintro t rfl
      exact ⟨rfl, ha.of rfl fun _ _ h => h.dropReceiver, fun _ => nofun⟩
    | shutdown => exact .throw fun t ht => ht ▸ ha

theorem reserveCritical_spec (capacity : Capacity) (hG : ∀ a critical, G a → G { a with critical }) :
    Triple (R.With held G) (reserveCritical capacity)
      (fun permit => R.With held fun a => G a ∧ permit = a.critical) R.Sound := by
  refine .pointwise fun a ha => (reserveCritical_at capacity ha.sound).conseq (fun _ h => h) ?_ fun _ h => h
  rintro permit s ⟨rfl, hsound, -⟩
  exact ⟨hsound.delivered, R.assured_of ha.trust rfl, hG a permit ha.fact, rfl⟩

theorem markUntrusted_spec : Triple R.Sound markUntrusted (fun _ => R.Sound) R.Sound :=
  .modifies fun _ h => ⟨fun first hfirst => (h.delivered first hfirst).loseTrust, R.loseTrust h.safe⟩

theorem publishShuttingDown_spec : Triple R.Sound publishShuttingDown (fun _ => R.Sound) R.Sound := by
  refine .modifies fun a h => ?_
  have hdown : ∀ first ∈ R.first, Inv first { a with health := .shuttingDown } := fun first hfirst =>
    (h.delivered first hfirst).of_engine rfl rfl rfl rfl rfl rfl rfl (h.delivered first hfirst).revised
  split_ifs with _ hfull
  · exact h
  · exact ⟨hdown, R.shutDown h.safe⟩
  · exact ⟨fun first hfirst => (hdown first hfirst).announce 1, R.announce 1 (R.shutDown h.safe) (Nat.not_le.mp hfull)⟩

theorem orUntrusted_spec (failure : Option AmmRuntimeCommandError) :
    Triple (R.With held G) (orUntrusted failure) (fun _ => R.With held G) R.Sound := by
  cases failure with
  | none => exact .pure fun _ h => h
  | some error => exact .bind (markUntrusted_spec.pre fun _ h => h.sound) fun _ => .throw fun _ h => h

theorem setInterestRevision_spec (revision : Nat) (hG : ∀ a, G a → G { a with interestRevision := revision })
    {E : AmmRuntimeActor Contents → Prop} :
    Triple (R.With held G) (setInterestRevision revision) (fun _ => R.With held G) E :=
  .modifies fun a h => h.of rfl (fun _ _ hinv => hinv.of_engine rfl rfl rfl rfl rfl rfl rfl hinv.revised) (hG a h.fact)

theorem Inv.withEngine {first : AmmStateSnapshot Contents} {a : AmmRuntimeActor Contents} (h : Inv first a)
    {engine : Generations} (hrevised : Revised first a.commits a.revisions engine) : Inv first { a with engine } :=
  h.of_engine rfl rfl rfl rfl rfl rfl rfl hrevised

theorem detachScheduledWork_spec (reservations : List PoolInstanceId)
    (hG : ∀ a, G a → G { a with engine := a.engine.cancelPoolReservations reservations })
    {E : AmmRuntimeActor Contents → Prop} :
    Triple (R.With held G) (detachScheduledWork reservations) (fun _ => R.With held G) E :=
  .modifies fun a h => h.of rfl (fun _ _ hinv => hinv.withEngine (hinv.revised.cancelPoolReservations _)) (hG a h.fact)

theorem publishRuntimeEvents_spec (count : Nat) :
    Triple R.Sound (publishRuntimeEvents count) (fun _ => R.Sound) R.Sound := by
  refine .ite (fun _ => .pure fun _ h => h) fun _ => ?_
  refine .bind (Q := fun sequence a => R.Sound a ∧ sequence = a.eventSequence + 1 ∧ a.eventSequence + 1 < 2 ^ 64) ?_
    fun sequence => .modifies ?_
  · refine .read fun a ha => ?_
    refine .bind (.ensure _ _ fun s hs => hs ▸ ha) fun _ => .pure ?_
    rintro s ⟨rfl, hroom, -⟩
    exact ⟨ha, rfl, hroom⟩
  · rintro a ⟨ha, rfl, hroom⟩
    exact ⟨fun first hfirst => (ha.delivered first hfirst).announce count, R.announce count ha.safe hroom⟩

theorem perform_spec (effects : List Effect) : Triple R.Sound (perform effects) (fun _ => R.Sound) R.Sound := by
  induction effects with
  | nil => exact .pure fun _ h => h
  | cons effect rest ih =>
    cases effect with
    | events count => exact .bind (publishRuntimeEvents_spec count) fun _ => ih
    | untrusted => exact .bind markUntrusted_spec fun _ => ih
    | reserve key =>
      refine .bind (.modifies fun a h => ?_) fun _ => ih
      exact h.of rfl fun _ _ hinv => hinv.withEngine (hinv.revised.reservePoolGeneration key)
    | cancel reservation =>
      refine .bind (.modifies fun a h => ?_) fun _ => ih
      exact h.of rfl fun _ _ hinv => hinv.withEngine (hinv.revised.cancelPoolReservation reservation)
    | fail error => exact .throw fun _ h => h

theorem awaitSubscriberFence_spec (needed : Bool) {ingests : ActorM Contents Unit}
    (answer : Option AmmRuntimeCommandError) (hingests : Triple R.Sound ingests (fun _ => R.Sound) R.Sound) :
    Triple (R.With held G) (awaitSubscriberFence needed ingests answer) (fun _ => R.With false fun _ => True) R.Sound := by
  refine .read fun a ha => .ite (fun _ => ?_) fun _ => .pure fun s hs => hs ▸ ha.sound.start
  refine .bind (hingests.pre fun s hs => hs ▸ ha.sound) fun _ => ?_
  exact (Triple.reads (.check answer) fun _ h => h).conseq (fun _ h => h) (fun _ _ h => h.start) fun _ h => h

theorem changeSet_spec (version : Nat) (quality : AmmStateQuality) (poolChanges : List AmmPoolChange) :
    Triple (R.With held G) (changeSet version quality poolChanges)
      (fun changes => R.With held fun a => G a ∧ changes.version = version ∧ changes.poolChanges = poolChanges ∧
        (poolChanges.map AmmPoolChange.pool).Nodup) R.Sound := by
  refine .read fun a ha => ?_
  rw [AmmChangeSet.new]
  split_ifs with hnodup
  · refine .pure ?_
    rintro s rfl
    exact ⟨ha.delivered, ha.trust, ha.fact, rfl, rfl, hnodup⟩
  · exact .throw fun s hs => hs ▸ ha.sound

theorem runtimeHealth_ne_untrusted (quality : AmmStateQuality) : runtimeHealth quality ≠ .untrusted := by
  cases quality with
  | coherent => exact nofun
  | degraded => exact nofun

/-- Its events leave the trust and the health of a commit alone. -/
theorem announce_trust (a : AmmRuntimeActor Contents) (firstSequence count : Nat) :
    (a.announce firstSequence count).lost = a.lost ∧ (a.announce firstSequence count).trusted = a.trusted ∧
      (a.announce firstSequence count).health = a.health := by
  cases count with
  | zero => exact ⟨rfl, rfl, rfl⟩
  | succ count =>
    rw [announce_succ]
    exact ⟨rfl, rfl, rfl⟩

/-- A legal commit with the next version, the next event number and the permit of the current subscription. -/
theorem publishCommit_spec {changes : AmmChangeSet} {revisions : PoolRevisionMap} {permit : Option Nat}
    {firstSequence : Nat} (p : Announcement Contents) :
    Triple (R.With true fun a => Identity changes.version firstSequence a ∧ permit = a.critical ∧
        ∀ first ∈ R.first, Legal first a.commits a.revisions a.engine changes.poolChanges revisions)
      (publishCommit changes revisions permit firstSequence p) (fun _ => R.Sound) R.Sound := by
  refine .modifies ?_
  rintro a ⟨hdelivered, htrusted, ⟨hversion, rfl⟩, rfl, hlegal⟩
  let c : AmmStateCommit Contents :=
    ⟨⟨changes.version, changes.point, a.interestRevision, p.contents, revisions⟩, changes⟩
  have hsequence : (a.commit c a.critical).eventSequence = a.eventSequence :=
    (commit_fields c a.critical).2.2.2.2.1
  refine ⟨fun first hfirst => ?_, ?_⟩
  · have hcommit : Inv first (a.commit c a.critical) :=
      (hdelivered first hfirst).commit hversion rfl rfl (hlegal first hfirst)
    have hannounced := hcommit.announce p.events
    rw [hsequence] at hannounced
    exact hannounced
  · obtain ⟨hlost, htrust, hhealth⟩ := announce_trust (a.commit c a.critical) (a.eventSequence + 1) p.events
    have hcommit : (a.commit c a.critical).lost = a.lost ∧ (a.commit c a.critical).trusted = a.trusted ∧
        (a.commit c a.critical).health = runtimeHealth changes.quality := by
      cases a.critical with
      | none => exact ⟨rfl, rfl, rfl⟩
      | some subscription => exact ⟨rfl, rfl, rfl⟩
    refine R.publish htrusted (hlost.trans hcommit.1) (htrust.trans hcommit.2.1) ?_
    exact ne_of_eq_of_ne (hhealth.trans hcommit.2.2) (runtimeHealth_ne_untrusted changes.quality)

end Parts

/-! ### Handlers -/

theorem removePoolSerialized_spec (r : Removal Contents) {ingests : ActorM Contents Unit}
    (hingests : Triple R.Sound ingests (fun _ => R.Sound) R.Sound) :
    Triple R.Sound (removePoolSerialized r ingests) (fun _ => R.Sound) R.Sound := by
  refine start_spec ?_
  refine .bind requireTrusted_spec fun _ => ?_
  refine .bind (requireActive_spec r.pool) fun _ => ?_
  refine .bind (reads_spec (nextInterestRevision_reads true)) fun _ => ?_
  refine .bind (nextCommitIdentity_spec _) fun _ => ?_
  refine .bind (nextRevision_spec r.pool) fun _ => ?_
  refine .bind (awaitSubscriberFence_spec true r.begun hingests) fun _ => ?_
  refine .bind (requireActive_spec r.pool) fun _ => ?_
  refine .bind requireTrusted_spec fun _ => ?_
  refine .bind (reads_spec (nextInterestRevision_reads true)) fun interestRevision => ?_
  refine .bind (nextCommitIdentity_spec _) fun ⟨version, firstSequence⟩ => ?_
  refine .bind (nextRevision_spec r.pool) fun revision => ?_
  refine .bind (reserveCritical_spec r.capacity fun _ _ h => h) fun permit => ?_
  refine .bind (reads_spec (commitTransaction_reads true r.transaction)) fun _ => ?_
  refine .bind (orUntrusted_spec r.removed) fun _ => ?_
  -- The change stays legal while the engine lets go of the pool.
  refine .bind (Q := fun _ => R.With true fun a => Identity version firstSequence a ∧ permit = a.critical ∧
    (∀ first ∈ R.first, LegalChange first a.commits a.revisions a.engine ⟨r.pool, revision, .removed⟩) ∧
    a.engine.active r.pool.key = none) (.modifies fun a ha => ?_) fun _ => ?_
  · obtain ⟨⟨⟨⟨-, hactive⟩, hidentity⟩, hrevision⟩, hpermit⟩ := ha.fact
    refine ha.of rfl (fun _ _ hinv => hinv.remove [r.pool.key])
      ⟨hidentity, hpermit, fun first hfirst => ?_, if_pos (List.mem_singleton_self _)⟩
    exact ((ha.delivered first hfirst).revised.legalChange hactive hrevision .removed).remove [r.pool.key]
  refine .bind (orUntrusted_spec r.registrySnapshot) fun _ => ?_
  refine .bind (changeSet_spec version r.quality _) fun changes => ?_
  refine .bind (setInterestRevision_spec interestRevision fun _ h => h) fun _ => ?_
  refine .read fun a ha => (publishCommit_spec _).pre ?_
  rintro s rfl
  obtain ⟨hinv, htrust, ⟨hidentity, hpermit, hlegal, hinactive⟩, rfl, hpools, hnodup⟩ := ha
  refine ⟨hinv, htrust, hidentity, hpermit, fun first hfirst => ?_⟩
  rw [hpools]
  refine Legal.removed hnodup (fun change hchange => List.mem_singleton.mp hchange ▸ hlegal first hfirst)
    (fun change hchange => List.mem_singleton.mp hchange ▸ hinactive) (fun change hchange => ?_) fun pool hpool => ?_
  · rw [List.mem_singleton.mp hchange]
    exact Function.update_self _ _ _
  · exact Function.update_of_ne (hpool _ (List.mem_singleton_self _)).symm _ _

theorem publishBatch_spec (head : BatchHead Contents) {version : Nat} {permit : Option Nat} {ignored : Nat} :
    Triple (R.With true fun a => (permit = a.critical) ∧ Identity version ignored a) (publishBatch head version permit)
      (fun _ => R.Sound) R.Sound := by
  refine .read fun a ha => ?_
  have hsound := ha.sound
  obtain ⟨hinv, htrust, hpermit, hversion, _⟩ := ha
  cases hpublication : batchPublication a head version with
  | error error =>
    exact .bind (markUntrusted_spec.pre fun s hs => hs ▸ hsound) fun _ => .throw fun _ h => h
  | ok publication =>
    obtain ⟨revisions, changes, events⟩ := publication
    refine (publishCommit_spec _).pre ?_
    rintro s rfl
    obtain ⟨⟨revisions', poolChanges⟩, hreported, hpublication⟩ := Checked.bind_eq_ok.mp hpublication
    obtain ⟨changes', hchanges, hpublication⟩ := Checked.bind_eq_ok.mp hpublication
    cases hsnapshot : head.registrySnapshot with
    | some error =>
      rw [hsnapshot] at hpublication
      cases hpublication
    | none =>
      rw [hsnapshot] at hpublication
      obtain ⟨_, _, hpublication⟩ := Checked.bind_eq_ok.mp hpublication
      cases hpublication
      rw [AmmChangeSet.new] at hchanges
      split_ifs at hchanges with hnodup
      cases hchanges
      exact ⟨hinv, htrust, ⟨hversion, rfl⟩, hpermit, fun first hfirst =>
        (hinv first hfirst).revised.legal_reported hreported hnodup⟩

theorem ingestHead_spec (head : BatchHead Contents) {reorg : ActorM Contents Unit}
    (hreorg : Triple R.Sound reorg (fun _ => R.Sound) R.Sound) :
    Triple R.Sound (ingestHead head reorg) (fun _ => R.Sound) R.Sound := by
  refine start_spec ?_
  refine .bind requireTrusted_spec fun _ => ?_
  refine .bind (reads_spec .get) fun a => ?_
  refine .bind (reads_spec (.ensure _ _)) fun _ => ?_
  refine .bind (reads_spec (.ensure _ _)) fun _ => ?_
  refine .bind (reads_spec (.ensure _ _)) fun _ => ?_
  refine .bind (reads_spec (.ensure _ _)) fun _ => ?_
  refine .bind (reserveCritical_spec head.capacity fun _ _ h => h) fun permit => ?_
  refine .bind (nextCommitIdentity_spec 1) fun ⟨version, ignored⟩ => ?_
  refine .bind (orUntrusted_spec head.ingested) fun _ => ?_
  refine .bind ((publishBatch_spec head).pre fun a h => ⟨h.delivered, h.trust, h.fact.1.2, h.fact.2⟩) fun _ => ?_
  exact .bind hreorg fun _ => perform_spec head.aftermath

mutual

/-- A batch, with everything that happens inside its fences. -/
theorem ingest_spec : (batch : AmmCanonicalBatch Contents) →
    Triple R.Sound (ingest batch) (fun _ => R.Sound) R.Sound
  | .mk head reorg => by
    rw [ingest]
    exact ingestHead_spec head (applyReorg_spec reorg)

theorem applyReorg_spec : (reorg : List (ReorgAction Contents)) →
    Triple R.Sound (applyReorg reorg) (fun _ => R.Sound) R.Sound
  | [] => by
    rw [applyReorg]
    exact .pure fun _ h => h
  | action :: rest => by
    rw [applyReorg]
    exact .bind (reorgAction_spec action) fun _ => applyReorg_spec rest

theorem reorgAction_spec : (action : ReorgAction Contents) →
    Triple R.Sound (reorgAction action) (fun _ => R.Sound) R.Sound
  | .untrusted => by
    rw [reorgAction]
    exact markUntrusted_spec
  | .remove removal fence => by
    rw [reorgAction]
    exact removePoolSerialized_spec removal (handleCanonical_spec fence)

theorem handleCanonical_spec : (batches : List (AmmCanonicalBatch Contents)) →
    Triple R.Sound (handleCanonical batches) (fun _ => R.Sound) R.Sound
  | [] => by
    rw [handleCanonical]
    exact .pure fun _ h => h
  | batch :: rest => by
    rw [handleCanonical]
    exact .bind (.ignoring (ingest_spec batch)) fun _ => handleCanonical_spec rest

end

theorem drainReadyCanonical_spec (ready : List (AmmCanonicalBatch Contents)) :
    Triple R.Sound (drainReadyCanonical ready) (fun _ => R.With false fun _ => True) R.Sound := by
  refine .read fun a ha => .ite (fun _ => ?_) fun _ => .pure fun s hs => hs ▸ ha.start
  exact (handleCanonical_spec ready).conseq (fun s hs => hs ▸ ha) (fun _ _ h => h.start) fun _ h => h

/-- A commit that lists no pool. -/
theorem publishUnchanged_spec {changes : AmmChangeSet} {version firstSequence : Nat}
    {permit : Option Nat} (events : Nat) (contents : Contents)
    (hG : ∀ a, G a → Identity version firstSequence a ∧ permit = a.critical) :
    Triple (R.With true fun a => G a ∧ changes.version = version ∧ changes.poolChanges = [] ∧
        (([] : List AmmPoolChange).map AmmPoolChange.pool).Nodup)
      (do
        let a ← get
        publishCommit changes a.revisions permit firstSequence ⟨events, contents⟩)
      (fun _ => R.Sound) R.Sound := by
  refine .read fun a ha => (publishCommit_spec _).pre ?_
  rintro s rfl
  obtain ⟨hinv, htrust, hg, rfl, hpools, _⟩ := ha
  refine ⟨hinv, htrust, (hG _ hg).1, (hG _ hg).2, fun _ _ => ?_⟩
  rw [hpools]
  exact Legal.nil

theorem addAdapter_spec (r : AdapterAddition Contents) :
    Triple R.Sound (addAdapter r) (fun _ => R.Sound) R.Sound := by
  refine .bind (drainReadyCanonical_spec r.ready) fun _ => ?_
  refine .bind requireTrusted_spec fun _ => ?_
  refine .bind (nextCommitIdentity_spec 2) fun ⟨version, firstSequence⟩ => ?_
  refine .bind (reserveCritical_spec r.capacity fun _ _ h => h) fun permit => ?_
  refine .bind (reads_spec (.check r.added)) fun _ => ?_
  refine .bind (orUntrusted_spec r.registrySnapshot) fun _ => ?_
  refine .bind (changeSet_spec version r.quality []) fun changes => ?_
  exact publishUnchanged_spec 2 r.contents fun _ h => ⟨h.1.2, h.2⟩

theorem removeAdapter_spec (r : AdapterRemoval Contents) :
    Triple R.Sound (removeAdapter r) (fun _ => R.Sound) R.Sound := by
  refine .bind (drainReadyCanonical_spec r.ready) fun _ => ?_
  refine .bind requireTrusted_spec fun _ => ?_
  refine .bind (reads_spec (.check r.stale)) fun _ => ?_
  refine .bind (nextCommitIdentity_spec _) fun ⟨version, firstSequence⟩ => ?_
  refine .bind (reserveCritical_spec r.capacity fun _ _ h => h) fun permit => ?_
  refine .bind (reads_spec (.check r.removed)) fun _ => ?_
  refine .bind (orUntrusted_spec r.lifecycle) fun _ => ?_
  refine .bind (detachScheduledWork_spec r.detached fun _ h => h) fun _ => ?_
  refine .bind (orUntrusted_spec r.registrySnapshot) fun _ => ?_
  refine .bind (changeSet_spec version r.quality []) fun changes => ?_
  exact publishUnchanged_spec _ r.contents fun _ h => ⟨h.1.2, h.2⟩

theorem check_at {a : AmmRuntimeActor Contents} (failure : Option AmmRuntimeCommandError) (ha : R.Sound a) :
    Triple (fun s => s = a) (check failure) (fun _ s => s = a ∧ failure = none) R.Sound :=
  .check failure fun _ hs => hs ▸ ha

theorem ensure_at {a : AmmRuntimeActor Contents} {c : AmmRuntimeActor Contents → Prop} [DecidablePred c]
    {error : AmmRuntimeActor Contents → AmmRuntimeCommandError} (ha : R.Sound a) :
    Triple (fun s => s = a) (do
        let a ← get
        ensure (c a) (error a))
      (fun _ s => s = a ∧ c a) R.Sound := by
  refine .read ?_
  rintro _ rfl
  exact .ensure _ _ fun _ hs => hs ▸ ha

theorem orUntrusted_at {a : AmmRuntimeActor Contents} (failure : Option AmmRuntimeCommandError) (ha : R.Sound a) :
    Triple (fun s => s = a) (orUntrusted failure) (fun _ s => s = a ∧ failure = none) R.Sound := by
  cases failure with
  | none => exact .pure fun _ hs => ⟨hs, rfl⟩
  | some error => exact .bind (markUntrusted_spec.pre fun _ hs => hs ▸ ha) fun _ => .throw fun _ h => h

/-- The state before the fence of an addition. -/
def WatcherAddition.before (r : WatcherAddition Contents) (a : AmmRuntimeActor Contents) : AmmRuntimeActor Contents :=
  (drainReadyCanonical r.ready).exec a

/-- The state behind the fence of an addition. -/
def WatcherAddition.after (r : WatcherAddition Contents) (a : AmmRuntimeActor Contents) : AmmRuntimeActor Contents :=
  (awaitSubscriberFence true (handleCanonical r.fence) r.begun).exec (r.before a)

/-- No check of the addition refuses it. -/
structure WatcherAddition.Passes (r : WatcherAddition Contents) (a : AmmRuntimeActor Contents) : Prop where
  trusted : (r.before a).trusted = true
  refused : r.refused = none
  begun : (r.before a).subscriber = true → r.begun = none
  revision : (r.after a).interestRevision + 1 < 2 ^ 64
  numbered : Numbered (r.after a) 2
  capacity : Open (r.after a) r.capacity
  inserted : r.inserted = none
  transaction : (r.after a).subscriber = true → r.transaction = none

theorem awaitSubscriberFence_at {a : AmmRuntimeActor Contents} (fence : List (AmmCanonicalBatch Contents))
    (answer : Option AmmRuntimeCommandError) (ha : R.Sound a) :
    Triple (fun s => s = a) (awaitSubscriberFence true (handleCanonical fence) answer)
      (fun _ s => R.Sound s ∧ (a.subscriber = true → answer = none)) R.Sound := by
  refine .read ?_
  rintro _ rfl
  refine .ite (fun _ => ?_) fun hnone => ?_
  · refine .bind ((handleCanonical_spec fence).pre fun _ hs => hs ▸ ha) fun _ => ?_
    exact (Triple.check answer fun _ h => h).conseq (fun _ h => h) (fun _ _ h => ⟨h.1, fun _ => h.2⟩) fun _ h => h
  · refine .pure ?_
    rintro s rfl
    exact ⟨ha, fun hsubscriber => absurd (by rw [hsubscriber]; rfl) hnone⟩

/-- Trust is asked for before the fence only. -/
theorem addFactoryWatcher_spec (r : WatcherAddition Contents) :
    Triple (fun a => R.Sound a ∧ (r.Passes a → R.safe (r.after a) → R.trusted (r.after a))) (addFactoryWatcher r)
      (fun _ => R.Sound) R.Sound := by
  refine .pointwise ?_
  rintro a ⟨ha, htrust⟩
  refine .bind ((drainReadyCanonical_spec r.ready).at_state ha) fun _ => .pointwise ?_
  rintro b ⟨hbefore, hb⟩
  replace hb := hb.sound
  refine .bind (ensure_at hb) fun _ => .pointwise ?_
  rintro s ⟨rfl, htrusted⟩
  refine .bind (check_at r.refused hb) fun _ => .pointwise ?_
  rintro t ⟨rfl, hrefused⟩
  refine .bind (.reads (nextInterestRevision_reads true) fun u hu => hu ▸ hb) fun _ => ?_
  refine .bind (.reads (nextCommitIdentity_reads 2) fun u hu => hu ▸ hb) fun _ => ?_
  refine .bind ((awaitSubscriberFence_at r.fence r.begun hb).at_state rfl) fun _ => .pointwise ?_
  rintro c ⟨hafter, hc, hbegun⟩
  have hstates : r.before a = t ∧ r.after a = c := by
    rw [WatcherAddition.after, WatcherAddition.before, ← hbefore]
    exact ⟨rfl, hafter.symm⟩
  refine .bind (Q := fun _ s => s = c ∧ c.interestRevision + 1 < 2 ^ 64) ?_ fun interestRevision => .pointwise ?_
  · refine .read ?_
    rintro _ rfl
    exact .bind (.ensure _ _ fun u hu => hu ▸ hc) fun _ => .pure fun _ h => h
  rintro s ⟨rfl, hrevision⟩
  refine .bind (nextCommitIdentity_at 2 hc) fun ⟨version, firstSequence⟩ => .pointwise ?_
  rintro c ⟨rfl, hidentity, hnumbered⟩
  refine .bind (reserveCritical_at r.capacity hc) fun permit => .pointwise ?_
  rintro s ⟨hpermit, hs, hopen⟩
  refine .bind (check_at r.inserted hs) fun _ => .read ?_
  rintro t ⟨rfl, hinserted⟩
  refine .bind (orUntrusted_at _ hs) fun _ => .pointwise ?_
  rintro s ⟨rfl, htransaction⟩
  subst hpermit
  obtain ⟨hstart, hend⟩ := hstates
  have hpasses : r.Passes a := by
    rw [← hstart] at htrusted hbegun
    rw [← hend] at hrevision hnumbered hopen htransaction
    refine ⟨htrusted, hrefused, hbegun, hrevision, hnumbered, hopen, hinserted, fun hsubscriber => ?_⟩
    exact (if_pos hsubscriber).symm.trans htransaction
  have htrusted : R.assured true c := hend ▸ htrust hpasses (hend ▸ hc.safe)
  have hheld : R.With true (fun a => Identity version firstSequence a ∧ permit = a.critical)
      { c with critical := permit } :=
    ⟨hs.delivered, R.assured_of htrusted rfl, hidentity, rfl⟩
  refine .bind ((setInterestRevision_spec interestRevision fun _ h => h).pre fun _ ht => ht ▸ hheld) fun _ => ?_
  refine .bind (changeSet_spec version r.quality []) fun changes => ?_
  exact publishUnchanged_spec 2 r.contents fun _ h => h

theorem removeFactoryWatcher_spec (r : WatcherRemoval Contents) :
    Triple R.Sound (removeFactoryWatcher r) (fun _ => R.Sound) R.Sound := by
  refine .bind (drainReadyCanonical_spec r.ready) fun _ => ?_
  refine .bind requireTrusted_spec fun _ => ?_
  refine .bind (reads_spec (.check r.refused)) fun _ => ?_
  refine .bind (reads_spec (nextInterestRevision_reads true)) fun _ => ?_
  refine .bind (nextCommitIdentity_spec _) fun _ => ?_
  refine .bind (awaitSubscriberFence_spec true r.begun (handleCanonical_spec r.fence)) fun _ => ?_
  refine .bind requireTrusted_spec fun _ => ?_
  refine .bind (reads_spec (.check r.refusedAfter)) fun _ => ?_
  refine .bind (reads_spec (nextInterestRevision_reads true)) fun interestRevision => ?_
  refine .bind (nextCommitIdentity_spec _) fun ⟨version, firstSequence⟩ => ?_
  refine .bind (reserveCritical_spec r.capacity fun _ _ h => h) fun permit => ?_
  refine .bind (reads_spec (commitTransaction_reads true r.transaction)) fun _ => ?_
  refine .bind (orUntrusted_spec r.removed) fun _ => ?_
  refine .bind (detachScheduledWork_spec r.detached fun _ h => h) fun _ => ?_
  refine .bind (setInterestRevision_spec interestRevision fun _ h => h) fun _ => ?_
  refine .bind (changeSet_spec version r.quality []) fun changes => ?_
  exact publishUnchanged_spec _ r.contents fun _ h => ⟨h.1.2, h.2⟩

theorem nextRevisions_spec (pools : List PoolInstanceId) :
    Triple (R.With held G) (nextRevisions pools)
      (fun changes => R.With held fun a => G a ∧ changes.map AmmPoolChange.pool = pools ∧
        ∀ change ∈ changes, change.revision = (a.revisions change.pool).getD 0 + 1) R.Sound := by
  refine .read fun a ha => ?_
  cases hchanges : pools.mapM (fun pool => (a.revisions.next pool).map fun revision =>
    AmmPoolChange.mk pool revision .removed) with
  | error error => exact .throw fun s hs => hs ▸ ha.sound
  | ok changes =>
    refine .pure ?_
    rintro s rfl
    have hforall := mapM_eq_ok hchanges
    have hone : ∀ pool change, (s.revisions.next pool).map (fun revision => AmmPoolChange.mk pool revision .removed) =
        .ok change → change.pool = pool ∧ change.revision = (s.revisions pool).getD 0 + 1 := by
      intro pool change hchange
      rw [PoolRevisionMap.next] at hchange
      split_ifs at hchange
      · cases hchange
        exact ⟨rfl, rfl⟩
      · cases hchange
    clear hchanges
    refine ⟨ha.delivered, ha.trust, ha.fact, ?_, ?_⟩
    · induction hforall with
      | nil => rfl
      | cons hhead _ ih => rw [List.map_cons, ih, (hone _ _ hhead).1]
    · intro change hchange
      induction hforall with
      | nil => cases hchange
      | cons hhead _ ih =>
        rcases List.mem_cons.mp hchange with rfl | hchange
        · rw [(hone _ _ hhead).1]
          exact (hone _ _ hhead).2
        · exact ih hchange

theorem removeAdapterCascade_spec (r : AdapterCascade Contents) :
    Triple R.Sound (removeAdapterCascade r) (fun _ => R.Sound) R.Sound := by
  refine .bind (drainReadyCanonical_spec r.ready) fun _ => ?_
  refine .bind requireTrusted_spec fun _ => ?_
  refine .bind (reads_spec (.check r.stale)) fun _ => ?_
  refine .bind (reads_spec .get) fun before => ?_
  dsimp only
  refine .bind (nextCommitIdentity_spec _) fun _ => ?_
  refine .bind (reads_spec (nextInterestRevision_reads _)) fun _ => ?_
  refine .bind (nextRevisions_spec _) fun _ => ?_
  refine .bind (awaitSubscriberFence_spec _ r.begun (handleCanonical_spec r.fence)) fun _ => ?_
  refine .bind requireTrusted_spec fun _ => ?_
  refine .bind (reads_spec (.check r.staleAfter)) fun _ => ?_
  set pools := before.engine.poolsForAdapter r.pools with hpools
  -- Behind the fence the pools are the same, and active.
  refine .read fun now hnow => ?_
  refine .bind (Q := fun _ => R.With true fun a => ∀ pool ∈ pools, a.engine.active pool.key = some pool) ?_ fun _ => ?_
  · refine (Triple.ensure _ _ fun s hs => hs ▸ hnow.sound).conseq (fun _ h => h) ?_ fun _ h => h
    rintro _ s ⟨rfl, hsame⟩
    refine ⟨hnow.delivered, hnow.trust, fun pool hpool => ?_⟩
    rw [← hsame] at hpool
    simpa using (List.mem_filter.mp hpool).2
  refine .bind (nextRevisions_spec pools) fun removals => ?_
  refine .bind (reads_spec (nextInterestRevision_reads _)) fun interestRevision => ?_
  refine .bind (nextCommitIdentity_spec _) fun ⟨version, firstSequence⟩ => ?_
  refine .bind (reserveCritical_spec r.capacity fun _ _ h => h) fun permit => ?_
  refine .bind (reads_spec (commitTransaction_reads _ r.transaction)) fun _ => ?_
  refine .bind (orUntrusted_spec r.removed) fun _ => ?_
  refine .bind (Q := fun _ => R.With true fun a => Identity version firstSequence a ∧ permit = a.critical ∧
    removals.map AmmPoolChange.pool = pools ∧ ∀ change ∈ removals,
      (∀ first ∈ R.first, LegalChange first a.commits a.revisions a.engine change) ∧
        a.engine.active change.pool.key = none)
    (.modifies fun a ha => ?_) fun _ => ?_
  · obtain ⟨⟨⟨hactive, hremovals, hnext⟩, hidentity⟩, hpermit⟩ := ha.fact
    refine ha.of rfl (fun _ _ hinv => hinv.remove _) ⟨hidentity, hpermit, hremovals, fun change hchange => ?_⟩
    have hin : change.pool ∈ pools := hremovals ▸ List.mem_map_of_mem hchange
    refine ⟨fun first hfirst => ?_, if_pos (List.mem_map_of_mem hin)⟩
    exact ((ha.delivered first hfirst).revised.legalChange (hactive _ hin) (hnext change hchange) change.kind).remove _
  refine .bind (detachScheduledWork_spec r.detached ?_) fun _ => ?_
  · rintro a ⟨hidentity, hpermit, hremovals, hlegal⟩
    refine ⟨hidentity, hpermit, hremovals, fun change hchange => ⟨fun first hfirst =>
      ((hlegal change hchange).1 first hfirst).cancelPoolReservations _, ?_⟩⟩
    show (a.engine.cancelPoolReservations r.detached).active change.pool.key = none
    rw [Generations.active_cancelPoolReservations]
    exact (hlegal change hchange).2
  refine .bind (orUntrusted_spec r.registrySnapshot) fun _ => ?_
  refine .bind (changeSet_spec version r.quality removals) fun changes => ?_
  refine .bind (setInterestRevision_spec interestRevision fun _ h => h) fun _ => ?_
  refine .read fun a ha => (publishCommit_spec _).pre ?_
  rintro s rfl
  obtain ⟨hinv, htrust, ⟨hidentity, hpermit, hremovals, hlegal⟩, rfl, hlisted, hnodup⟩ := ha
  refine ⟨hinv, htrust, hidentity, hpermit, fun first hfirst => ?_⟩
  rw [hlisted]
  refine Legal.removed hnodup (fun change hchange => (hlegal change hchange).1 first hfirst)
    (fun change hchange => (hlegal change hchange).2) (fun change hchange => ?_) fun pool hpool => ?_
  · exact if_pos (hremovals ▸ List.mem_map_of_mem hchange)
  · refine if_neg fun hin => ?_
    rw [← hremovals] at hin
    obtain ⟨change, hchange, heq⟩ := List.mem_map.mp hin
    exact hpool change hchange heq

theorem planPools_spec (pools : List PoolKey) (reservation : Option PoolInstanceId) :
    Triple (R.With held G) (planPools pools reservation)
      (fun instances => R.With held fun a => G a ∧ a.engine.plan pools reservation = .ok instances) R.Sound := by
  refine .read fun a ha => ?_
  cases hplan : a.engine.plan pools reservation with
  | error error => exact .throw fun s hs => hs ▸ ha.sound
  | ok instances =>
    refine .pure ?_
    rintro s rfl
    exact ⟨ha.delivered, ha.trust, ha.fact, hplan⟩

theorem rollbackAddedPools_spec (pools : List PoolKey) (r : Rollback) :
    Triple R.Sound (rollbackAddedPools pools r) (fun _ => R.Sound) R.Sound := by
  refine .bind (Q := fun _ => R.Sound) (.modifies fun a h => h.of rfl fun _ _ hinv => hinv.remove _) fun _ => ?_
  exact .ite (fun _ => markUntrusted_spec) fun _ => .pure fun _ h => h

theorem orRollback_spec (failure : Option AmmRuntimeCommandError) (distrust : Bool)
    (pools : List PoolKey) (r : Rollback) :
    Triple (R.With held G) (orRollback failure distrust pools r) (fun _ => R.With held G) R.Sound := by
  cases failure with
  | none => exact .pure fun _ h => h
  | some error =>
    refine .bind ((rollbackAddedPools_spec pools r).pre fun _ h => h.sound) fun _ => ?_
    refine .ite (fun _ => ?_) fun _ => .throw fun _ h => h
    exact .bind markUntrusted_spec fun _ => .throw fun _ h => h

theorem installPreparedPools_spec (r : PoolInstall Contents) :
    Triple R.Sound (installPreparedPools r) (fun _ => R.Sound) R.Sound := by
  refine .bind (drainReadyCanonical_spec r.ready) fun _ => ?_
  refine .bind requireTrusted_spec fun _ => ?_
  refine .bind (reads_spec (requireBaseline_reads r.baseline)) fun _ => ?_
  refine .bind (reads_spec (.check r.invalid)) fun _ => ?_
  refine .bind (reads_spec (nextInterestRevision_reads _)) fun _ => ?_
  refine .bind (nextCommitIdentity_spec _) fun _ => ?_
  refine .bind (planPools_spec r.pools r.reservation) fun expected => ?_
  refine .bind (awaitSubscriberFence_spec true r.begun (handleCanonical_spec r.fence)) fun _ => ?_
  refine .bind requireTrusted_spec fun _ => ?_
  refine .bind (reads_spec (requireBaseline_reads r.baseline)) fun _ => ?_
  refine .bind (reads_spec (.check r.invalidAfter)) fun _ => ?_
  refine .bind (reads_spec (nextInterestRevision_reads _)) fun interestRevision => ?_
  refine .bind (nextCommitIdentity_spec _) fun ⟨version, firstSequence⟩ => ?_
  refine .bind (reserveCritical_spec r.capacity fun _ _ h => h) fun permit => ?_
  refine .bind (planPools_spec r.pools r.reservation) fun instances => ?_
  refine .bind (reads_spec (.check r.added)) fun _ => ?_
  -- The planned instances were never shown; the engine makes them active.
  refine .bind (Q := fun _ => R.With true fun a => Identity version firstSequence a ∧ permit = a.critical ∧
    ∀ first ∈ R.first, (instances.map PoolInstanceId.key).Nodup ∧ ∀ pool ∈ instances, a.engine.Issued pool ∧
      a.engine.reservations pool.key = none ∧ ∀ n, ¬ Seen first a.commits pool n) (.modifies fun a ha => ?_) fun _ => ?_
  · obtain ⟨⟨⟨-, hidentity⟩, hpermit⟩, hplan⟩ := ha.fact
    have hinstall : ∀ first ∈ R.first, _ := fun first hfirst =>
      have hrevised := (ha.delivered first hfirst).revised
      have hplanned := hrevised.plan_spec hplan
      And.intro hplanned.1 (hrevised.install hplanned.1 hplanned.2)
    exact ha.of rfl (fun first hfirst hinv => hinv.withEngine (hinstall first hfirst).2.1)
      ⟨hidentity, hpermit, fun first hfirst => ⟨(hinstall first hfirst).1, (hinstall first hfirst).2.2⟩⟩
  refine .bind (orRollback_spec _ true r.pools r.rollback) fun _ => ?_
  refine .bind (orRollback_spec r.published false r.pools r.rollback) fun _ => ?_
  refine .bind (changeSet_spec version r.quality _) fun changes => ?_
  refine .bind (reads_spec .get) fun _ => ?_
  refine .bind (orRollback_spec _ true r.pools r.rollback) fun _ => ?_
  refine .bind (setInterestRevision_spec interestRevision fun _ h => h) fun _ => ?_
  refine .bind (orUntrusted_spec r.accounts) fun _ => ?_
  refine .read fun a ha => (publishCommit_spec _).pre ?_
  rintro s rfl
  obtain ⟨hinv, htrust, ⟨hidentity, hpermit, hinstalled⟩, rfl, hlisted, _⟩ := ha
  refine ⟨hinv, htrust, hidentity, hpermit, fun first hfirst => ?_⟩
  rw [hlisted]
  exact Legal.installed (hinstalled first hfirst).1 (hinstalled first hfirst).2

theorem removePool_spec (r : PoolRemoval Contents) :
    Triple R.Sound (removePool r) (fun _ => R.Sound) R.Sound := by
  refine .bind (drainReadyCanonical_spec r.ready) fun _ => ?_
  exact (removePoolSerialized_spec r.removal (handleCanonical_spec r.fence)).pre fun _ h => h.sound

theorem commitScheduledPool_spec (r : ScheduledPool Contents) :
    Triple R.Sound (commitScheduledPool r) (fun _ => R.Sound) R.Sound := by
  refine .bind (.reads (.check r.stale) fun _ h => h) fun _ => ?_
  refine .bind (.reads (nextEventSequence_reads 7) fun _ h => h) fun _ => ?_
  exact .bind (installPreparedPools_spec r.install) fun _ => perform_spec r.aftermath

theorem commitScheduledDiscovery_spec (r : ScheduledDiscovery Contents) :
    Triple R.Sound (commitScheduledDiscovery r) (fun _ => R.Sound) R.Sound := by
  refine .bind (.reads (.check r.stale) fun _ h => h) fun _ => ?_
  refine .bind (perform_spec r.completed) fun _ => ?_
  rcases r.removal with _ | ⟨removal, fence⟩
  · exact perform_spec r.aftermath
  · exact .bind (removePoolSerialized_spec removal (handleCanonical_spec fence)) fun _ => perform_spec r.aftermath

/-- A commit of the next revision of one active pool. -/
theorem publishNext_spec {changes : AmmChangeSet} {version firstSequence : Nat}
    {permit : Option Nat} {pool : PoolInstanceId} {revision : Nat} {kind : AmmPoolChangeKind} (p : Announcement Contents)
    (hG : ∀ a, G a → Identity version firstSequence a ∧ permit = a.critical ∧ a.engine.active pool.key = some pool ∧
      revision = (a.revisions pool).getD 0 + 1) :
    Triple (R.With true fun a => G a ∧ changes.version = version ∧ changes.poolChanges = [⟨pool, revision, kind⟩] ∧
        ([AmmPoolChange.mk pool revision kind].map AmmPoolChange.pool).Nodup)
      (do
        let a ← get
        publishCommit changes (Function.update a.revisions pool (some revision)) permit firstSequence p)
      (fun _ => R.Sound) R.Sound := by
  refine .read fun a ha => (publishCommit_spec _).pre ?_
  rintro s rfl
  obtain ⟨hinv, htrust, hg, rfl, hpools, _⟩ := ha
  obtain ⟨hidentity, hpermit, hactive, hnext⟩ := hG _ hg
  refine ⟨hinv, htrust, hidentity, hpermit, fun first hfirst => ?_⟩
  rw [hpools]
  exact Legal.update ((hinv first hfirst).revised.legalChange hactive hnext kind)

theorem commitScheduledRefresh_spec (r : ScheduledRefresh Contents) :
    Triple R.Sound (commitScheduledRefresh r) (fun _ => R.Sound) R.Sound := by
  refine start_spec ?_
  refine .bind (reads_spec (.check r.unknown)) fun _ => ?_
  refine .bind (reads_spec (requireBaseline_reads r.baseline)) fun _ => ?_
  refine .bind (requireActive_spec r.pool) fun _ => ?_
  refine .bind (reads_spec (.check r.invalid)) fun _ => ?_
  refine .bind (reads_spec (nextInterestRevision_reads _)) fun interestRevision => ?_
  refine .bind (awaitSubscriberFence_spec _ r.begun (handleCanonical_spec r.fence)) fun _ => ?_
  refine .bind requireTrusted_spec fun _ => ?_
  refine .bind (reads_spec (requireBaseline_reads r.baseline)) fun _ => ?_
  refine .bind (requireActive_spec r.pool) fun _ => ?_
  refine .bind (reads_spec (.check r.staleAfter)) fun _ => ?_
  refine .bind (nextRevision_spec r.pool) fun revision => ?_
  refine .bind (reads_spec .get) fun _ => ?_
  refine .bind (nextCommitIdentity_spec _) fun ⟨version, firstSequence⟩ => ?_
  refine .bind (reserveCritical_spec r.capacity fun _ _ h => h) fun permit => ?_
  refine .bind (reads_spec (commitTransaction_reads _ r.transaction)) fun _ => ?_
  refine .bind (orUntrusted_spec r.refreshed) fun _ => ?_
  refine .bind (setInterestRevision_spec interestRevision fun _ h => h) fun _ => ?_
  refine .bind (orUntrusted_spec r.accounts) fun _ => ?_
  refine .bind (reads_spec (.check r.registrySnapshot)) fun _ => ?_
  refine .bind (changeSet_spec version r.quality _) fun changes => ?_
  simp only [← bind_assoc]
  refine .bind (publishNext_spec _ ?_) fun _ => perform_spec r.aftermath
  exact fun _ h => ⟨h.1.2, h.2, h.1.1.1.2, h.1.1.2⟩

/-- No check of the slot patch refuses it. -/
structure SlotPatch.Passes (r : SlotPatch Contents) (a : AmmRuntimeActor Contents) : Prop where
  unknown : r.unknown = none
  baseline : r.baseline = a.point
  active : a.engine.active r.pool.key = some r.pool
  invalid : r.invalid = none
  numbered : Numbered a (1 + r.repair.toNat + a.healthEvents r.expectedQuality)
  capacity : Open a r.capacity
  refreshed : r.refreshed = none
  revision : (a.revisions r.pool).getD 0 + 1 < 2 ^ 64
  registrySnapshot : r.registrySnapshot = none

/-- Trust is asked for nowhere. -/
theorem commitScheduledSlotPatch_spec (r : SlotPatch Contents) :
    Triple (fun a => R.Sound a ∧ (r.Passes a → R.trusted a)) (commitScheduledSlotPatch r) (fun _ => R.Sound)
      R.Sound := by
  refine .pointwise ?_
  rintro a ⟨ha, htrust⟩
  refine .bind (check_at r.unknown ha) fun _ => .pointwise ?_
  rintro s ⟨rfl, hunknown⟩
  refine .bind (ensure_at ha) fun _ => .pointwise ?_
  rintro t ⟨rfl, hbaseline⟩
  refine .bind (ensure_at ha) fun _ => .pointwise ?_
  rintro s ⟨rfl, hactive⟩
  refine .bind (check_at r.invalid ha) fun _ => .read ?_
  rintro t ⟨rfl, hinvalid⟩
  refine .bind (nextCommitIdentity_at _ ha) fun ⟨version, firstSequence⟩ => .pointwise ?_
  rintro s ⟨rfl, hidentity, hnumbered⟩
  refine .bind (reserveCritical_at r.capacity ha) fun permit => .pointwise ?_
  rintro t ⟨rfl, ht, hopen⟩
  refine .bind (check_at r.refreshed ht) fun _ => .pointwise ?_
  rintro u ⟨rfl, hrefreshed⟩
  refine .bind (nextRevision_at r.pool ht) fun revision => .pointwise ?_
  rintro u ⟨rfl, hrevision, hroom⟩
  refine .bind (check_at r.registrySnapshot ht) fun _ => .pointwise ?_
  rintro u ⟨rfl, hsnapshot⟩
  have htrusted : R.assured true s :=
    htrust ⟨hunknown, hbaseline, hactive, hinvalid, hnumbered, hopen, hrefreshed, hroom, hsnapshot⟩
  have hheld : R.With true (fun a => Identity version firstSequence a ∧ permit = a.critical ∧
      a.engine.active r.pool.key = some r.pool ∧ revision = (a.revisions r.pool).getD 0 + 1)
      { s with critical := permit } :=
    ⟨ht.delivered, R.assured_of htrusted rfl, hidentity, rfl, hactive, hrevision⟩
  refine .bind ((changeSet_spec version r.quality _).pre fun _ hu => hu ▸ hheld) fun changes => ?_
  simp only [← bind_assoc]
  exact .bind (publishNext_spec _ fun _ h => h) fun _ => perform_spec r.aftermath

theorem attachSubscriber_spec (r : SubscriberAttachment) :
    Triple R.Sound (attachSubscriber r : ActorM Contents Unit) (fun _ => R.Sound) R.Sound := by
  refine start_spec ?_
  refine .bind requireTrusted_spec fun _ => ?_
  refine .bind (reads_spec .get) fun _ => ?_
  refine .bind (reads_spec (.ensure _ _)) fun _ => ?_
  refine .bind (reads_spec (.check r.plans)) fun _ => ?_
  refine .bind (reads_spec (nextEventSequence_reads _)) fun _ => ?_
  refine .bind (reads_spec (.check r.adopted)) fun _ => ?_
  refine .bind (orUntrusted_spec r.live) fun _ => ?_
  refine .bind (Q := fun _ => R.Sound) (.modifies fun a h => ?_) fun _ => publishRuntimeEvents_spec r.transitions
  exact h.sound.of rfl fun _ _ hinv => hinv.of_engine rfl rfl rfl rfl rfl rfl rfl hinv.revised

theorem subscribeChanges_spec (closed : Bool) :
    Triple R.Sound (subscribeChanges closed : ActorM Contents Unit) (fun _ => R.Sound) R.Sound := by
  refine .read fun a ha => ?_
  refine .ite (fun _ => .throw fun s hs => hs ▸ ha) fun _ => ?_
  cases hsnapshot : a.snapshots.getLast? with
  | none => exact .throw fun s hs => hs ▸ ha
  | some snapshot => exact .sets fun _ _ => ha.of rfl fun _ _ hinv => hinv.subscribe hsnapshot

theorem resolveRepairCommit_spec {P : AmmRuntimeActor Contents → Prop} {commit : ActorM Contents Unit}
    (hcommit : Triple P commit (fun _ => R.Sound) R.Sound) (superseded : List Effect) :
    Triple P (resolveRepairCommit commit superseded) (fun _ => R.Sound) R.Sound := by
  refine .tryCatch hcommit fun error => ?_
  exact .bind (perform_spec superseded) fun _ => .throw fun _ h => h

/-! ### Commands -/

/-- The commands that commit without asking for trust right before do so with trust. -/
def Rules.Meets (R : Rules Contents) (a : AmmRuntimeActor Contents) : AmmRuntimeCommand Contents → Prop
  | .commitScheduledSlotPatch r _ => r.Passes a → R.trusted a
  | .addFactoryWatcher r => r.Passes a → R.safe (r.after a) → R.trusted (r.after a)
  | _ => True

theorem Rules.Sound.step {a : AmmRuntimeActor Contents} (h : R.Sound a) {command : AmmRuntimeCommand Contents}
    (hmeets : R.Meets a command) : R.Sound (a.step command) := by
  cases command with
  | canonical batch => exact (ingest_spec batch).exec h
  | ingestPreconfirmation effects =>
    exact Triple.exec (.bind requireTrusted_spec fun _ => (perform_spec effects).pre fun _ h => h.sound) h.start
  | addAdapter r => exact (addAdapter_spec r).exec h
  | removeAdapter r => exact (removeAdapter_spec r).exec h
  | removeAdapterCascade r => exact (removeAdapterCascade_spec r).exec h
  | addFactoryWatcher r => exact (addFactoryWatcher_spec r).exec ⟨h, hmeets⟩
  | removeFactoryWatcher r => exact (removeFactoryWatcher_spec r).exec h
  | installPreparedPools r => exact (installPreparedPools_spec r).exec h
  | removePool r => exact (removePool_spec r).exec h
  | commitScheduledPool r => exact (commitScheduledPool_spec r).exec h
  | commitScheduledDiscovery r => exact (commitScheduledDiscovery_spec r).exec h
  | commitScheduledRefresh r superseded =>
    exact (resolveRepairCommit_spec (commitScheduledRefresh_spec r) superseded).exec h
  | commitScheduledSlotPatch r superseded =>
    exact (resolveRepairCommit_spec (commitScheduledSlotPatch_spec r) superseded).exec ⟨h, hmeets⟩
  | attachSubscriber r => exact (attachSubscriber_spec r).exec h
  | subscribeChanges closed => exact (subscribeChanges_spec closed).exec h
  | reportSubscriberFailure => exact markUntrusted_spec.exec h
  | work effects => exact (perform_spec effects).exec h
  | shutdown => exact publishShuttingDown_spec.exec h

end AmmState.Changes
