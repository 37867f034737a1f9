import AmmState.Theorems.Runtime.Handlers

/-! Untrusted is absorbing: nothing is published after trust is lost, as long as no slot patch is committed without trust
    and no factory watcher is added across a fence that loses it. Every other handler asks for trust between the last place
    where it can be lost and its commit. -/

namespace AmmState.Publication
open Fallible Changes

variable {Contents : Type} {o : Option (Loss Contents)}

/-! ### The invariant -/

/-- The health of a runtime that no longer publishes commits. -/
def Down (health : AmmRuntimeHealth) : Prop := health = .untrusted ∨ health = .shuttingDown

/-- No event number is left. -/
def Exhausted (a : AmmRuntimeActor Contents) : Prop := 2 ^ 64 ≤ a.eventSequence + 1

/-- Since trust was lost, nothing was published but the loss itself, runtime events and the shutdown. -/
structure Since (p : Loss Contents) (a : AmmRuntimeActor Contents) : Prop where
  trusted : a.trusted = false
  version : a.version = p.version
  point : a.point = p.point
  snapshots : a.snapshots = p.snapshots
  down : p.announced = true → Down a.health ∧ Down a.status.health
  silent : p.announced = false → Exhausted a ∧ a.status = p.status

/-- A trusted actor has lost nothing, an untrusted one has published nothing since; a known loss stays the one. -/
structure Inv (o : Option (Loss Contents)) (a : AmmRuntimeActor Contents) : Prop where
  trusted : a.lost = none → a.trusted = true ∧ a.health ≠ .untrusted
  since : ∀ p, a.lost = some p → Since p a
  same : o ≠ none → a.lost = o

structure Trusted (o : Option (Loss Contents)) (a : AmmRuntimeActor Contents) : Prop extends Inv o a where
  trust : a.trusted = true

theorem Trusted.notLost {a : AmmRuntimeActor Contents} (h : Trusted o a) : a.lost = none := by
  rcases hlost : a.lost with _ | p
  · rfl
  · have huntrusted := (h.since p hlost).trusted
    rw [h.trust] at huntrusted
    cases huntrusted

/-- While there is trust, everything but trust itself may change. -/
theorem Trusted.of {a b : AmmRuntimeActor Contents} (h : Trusted o a) (hlost : b.lost = a.lost)
    (htrusted : b.trusted = a.trusted) (hhealth : b.health ≠ .untrusted) : Trusted o b := by
  have htrust : b.trusted = true := htrusted.trans h.trust
  refine ⟨⟨fun _ => ⟨htrust, hhealth⟩, fun p hp => ?_, fun hne => hlost.trans (h.same hne)⟩, htrust⟩
  rw [hlost, h.notLost] at hp
  cases hp

/-! ### Steps of the state -/

/-- Neither the trust nor anything published changes. -/
theorem Inv.of {a b : AmmRuntimeActor Contents} (h : Inv o a) (hsame : b.standing = a.standing) : Inv o b := by
  simp only [AmmRuntimeActor.standing, Standing.mk.injEq] at hsame
  obtain ⟨hlost, htrusted, hversion, hpoint, hsnapshots, hhealth, hstatus, hsequence⟩ := hsame
  refine ⟨fun hnone => ?_, fun p hp => ?_, fun hne => hlost.trans (h.same hne)⟩
  · rw [htrusted, hhealth]
    exact h.trusted (hlost.symm.trans hnone)
  · have hsince := h.since p (hlost.symm.trans hp)
    refine ⟨htrusted.trans hsince.trusted, hversion.trans hsince.version, hpoint.trans hsince.point,
      hsnapshots.trans hsince.snapshots, fun hannounced => ?_, fun hsilent => ?_⟩
    · rw [hhealth, hstatus]
      exact hsince.down hannounced
    · rw [Exhausted, hsequence, hstatus]
      exact hsince.silent hsilent

theorem Inv.of_lost {a : AmmRuntimeActor Contents} {p : Loss Contents} (hlost : a.lost = some p) (hsince : Since p a)
    (hsame : o ≠ none → a.lost = o) : Inv o a := by
  refine ⟨fun hnone => ?_, fun q hq => ?_, hsame⟩
  · rw [hnone] at hlost
    cases hlost
  · obtain rfl : p = q := Option.some.inj (hlost.symm.trans hq)
    exact hsince

theorem Inv.loseTrust {a : AmmRuntimeActor Contents} (h : Inv o a) : Inv o a.loseTrust := by
  unfold AmmRuntimeActor.loseTrust
  by_cases htrusted : a.trusted = true
  · have hlost : a.lost = none := Trusted.notLost ⟨h, htrusted⟩
    have hsame : o = none := by
      by_contra hne
      exact hne ((h.same hne).symm.trans hlost)
    by_cases hfull : 2 ^ 64 ≤ a.eventSequence + 1
    · have hquiet : a.health = .untrusted ∨ 2 ^ 64 ≤ a.eventSequence + 1 := .inr hfull
      simp only [if_pos hquiet, if_pos htrusted]
      refine .of_lost rfl ⟨rfl, rfl, rfl, rfl, fun hannounced => ?_, fun _ => ⟨hfull, rfl⟩⟩ fun hne => absurd hsame hne
      exact absurd (of_decide_eq_true hannounced) (Nat.not_lt.mpr hfull)
    · have hloud : ¬ (a.health = .untrusted ∨ 2 ^ 64 ≤ a.eventSequence + 1) :=
        not_or.mpr ⟨(h.trusted hlost).2, hfull⟩
      simp only [if_neg hloud, if_pos htrusted]
      refine .of_lost rfl ⟨rfl, rfl, rfl, rfl, fun _ => ⟨.inl rfl, .inl rfl⟩, fun hsilent => ?_⟩
        fun hne => absurd hsame hne
      exact absurd (Nat.not_le.mp hfull) (of_decide_eq_false hsilent)
  · obtain ⟨p, hlost⟩ : ∃ p, a.lost = some p := by
      by_contra hnone
      exact htrusted (h.trusted (Option.eq_none_iff_forall_not_mem.mpr fun p hp => hnone ⟨p, hp⟩)).1
    have hsince := h.since p hlost
    by_cases hquiet : a.health = .untrusted ∨ 2 ^ 64 ≤ a.eventSequence + 1
    · simp only [if_pos hquiet, if_neg htrusted]
      exact .of_lost hlost ⟨rfl, hsince.version, hsince.point, hsince.snapshots, hsince.down, hsince.silent⟩ h.same
    · simp only [if_neg hquiet, if_neg htrusted]
      refine .of_lost hlost ⟨rfl, hsince.version, hsince.point, hsince.snapshots, fun _ => ⟨.inl rfl, .inl rfl⟩,
        fun hsilent => ?_⟩ h.same
      exact absurd (hsince.silent hsilent).1 (not_or.mp hquiet).2

/-- Runtime events republish the health. -/
theorem Inv.announce {a : AmmRuntimeActor Contents} (h : Inv o a) (hroom : a.eventSequence + 1 < 2 ^ 64)
    (firstSequence count : Nat) : Inv o (a.announce firstSequence count) := by
  cases count with
  | zero => exact h
  | succ count =>
    rw [announce_succ]
    refine ⟨h.trusted, fun p hp => ?_, h.same⟩
    have hsince := h.since p hp
    refine ⟨hsince.trusted, hsince.version, hsince.point, hsince.snapshots, fun hannounced => ?_, fun hsilent => ?_⟩
    · exact ⟨(hsince.down hannounced).1, (hsince.down hannounced).1⟩
    · exact absurd (hsince.silent hsilent).1 (Nat.not_le.mpr hroom)

theorem Inv.shutDown {a : AmmRuntimeActor Contents} (h : Inv o a) : Inv o { a with health := .shuttingDown } := by
  refine ⟨fun hnone => ⟨(h.trusted hnone).1, nofun⟩, fun p hp => ?_, h.same⟩
  have hsince := h.since p hp
  exact ⟨hsince.trusted, hsince.version, hsince.point, hsince.snapshots,
    fun hannounced => ⟨.inr rfl, (hsince.down hannounced).2⟩, hsince.silent⟩

/-- The rules of trust. -/
def trustRules (o : Option (Loss Contents)) : Rules Contents where
  first := none
  safe := Inv o
  trusted := Trusted o
  safe_of_trusted := Trusted.toInv
  check := Trusted.mk
  keep hsame := ⟨fun h => h.of hsame, fun h => ⟨h.toInv.of hsame, (congrArg Standing.trusted hsame).trans h.trust⟩⟩
  announce count h hroom := h.announce hroom _ count
  loseTrust := Inv.loseTrust
  shutDown := Inv.shutDown
  publish h hlost htrusted hhealth := (h.of hlost htrusted hhealth).toInv

/-! ### Runs -/

/-- A slot patch is published with trust, and a watcher is added with trust behind its fence. -/
def Meets (a : AmmRuntimeActor Contents) : AmmRuntimeCommand Contents → Prop
  | .commitScheduledSlotPatch r _ => r.Passes a → a.trusted = true
  | .addFactoryWatcher r => r.Passes a → (r.after a).trusted = true
  | _ => True

theorem Inv.step {a : AmmRuntimeActor Contents} (h : Inv o a) {command : AmmRuntimeCommand Contents}
    (hmeets : Meets a command) : Inv o (a.step command) := by
  have hsound : (trustRules o).Sound a := ⟨nofun, h⟩
  have hkept : (trustRules o).Meets a command := by
    cases command with
    | commitScheduledSlotPatch r superseded => exact fun hpasses => ⟨h, hmeets hpasses⟩
    | addFactoryWatcher r => exact fun hpasses hafter => ⟨hafter, hmeets hpasses⟩
    | _ => trivial
  exact (hsound.step hkept).safe

/-- Every command of a run meets its condition in the state it finds. -/
def RunMeets : AmmRuntimeActor Contents → List (AmmRuntimeCommand Contents) → Prop
  | _, [] => True
  | a, command :: rest => Meets a command ∧ RunMeets (a.step command) rest

theorem RunMeets.append {a : AmmRuntimeActor Contents} {first second : List (AmmRuntimeCommand Contents)}
    (h : RunMeets a (first ++ second)) : RunMeets a first ∧ RunMeets (a.run first) second := by
  induction first generalizing a with
  | nil => exact ⟨trivial, h⟩
  | cons command rest ih =>
    obtain ⟨hfirst, hsecond⟩ := ih h.2
    exact ⟨⟨h.1, hfirst⟩, hsecond⟩

theorem Inv.run {a : AmmRuntimeActor Contents} (h : Inv o a) {commands : List (AmmRuntimeCommand Contents)}
    (hmeets : RunMeets a commands) : Inv o (a.run commands) := by
  induction commands generalizing a with
  | nil => exact h
  | cons command rest ih => exact ih (h.step hmeets.1) hmeets.2

/-- A running actor that has not lost trust. -/
structure Fresh (a : AmmRuntimeActor Contents) : Prop where
  trusted : a.trusted = true
  health : a.health ≠ .untrusted
  lost : a.lost = none

theorem Fresh.inv {a : AmmRuntimeActor Contents} (h : Fresh a) : Inv none a := by
  refine ⟨fun _ => ⟨h.trusted, h.health⟩, fun p hp => ?_, fun hne => absurd rfl hne⟩
  rw [h.lost] at hp
  cases hp

/-! ### Main result -/

/-- In a run whose commands meet their condition: where trust is lost, nothing was published since the moment it went, and
    nothing will be; a health that was published as untrusted stays so or becomes shutting down. -/
theorem untrusted_absorbing {a : AmmRuntimeActor Contents} (hfresh : Fresh a)
    (before after : List (AmmRuntimeCommand Contents)) (hmeets : RunMeets a (before ++ after))
    (hlost : (a.run before).trusted = false) :
    (∃ loss, (a.run before).lost = some loss ∧ (a.run before).version = loss.version ∧
      (a.run before).point = loss.point ∧ (a.run before).snapshots = loss.snapshots) ∧
    (a.run (before ++ after)).trusted = false ∧
    (a.run (before ++ after)).version = (a.run before).version ∧
    (a.run (before ++ after)).point = (a.run before).point ∧
    (a.run (before ++ after)).snapshots = (a.run before).snapshots ∧
    ((a.run before).status.health = .untrusted → (a.run (before ++ after)).status.health = .untrusted ∨
      (a.run (before ++ after)).status.health = .shuttingDown) := by
  obtain ⟨hbefore, hafter⟩ := hmeets.append
  have hinv := hfresh.inv.run hbefore
  obtain ⟨p, hp⟩ : ∃ p, (a.run before).lost = some p := by
    by_contra hnone
    have htrusted := (hinv.trusted (Option.eq_none_iff_forall_not_mem.mpr fun p hp => hnone ⟨p, hp⟩)).1
    rw [hlost] at htrusted
    cases htrusted
  have hsince := hinv.since p hp
  -- From here on the loss is known, and it stays the one.
  have hknown : Inv (some p) (a.run before) := .of_lost hp hsince fun _ => hp
  have hend := hknown.run hafter
  have hlast : Since p (a.run (before ++ after)) := by
    rw [AmmRuntimeActor.run, List.foldl_append]
    exact hend.since p (hend.same nofun)
  refine ⟨⟨p, hp, hsince.version, hsince.point, hsince.snapshots⟩, hlast.trusted, hlast.version.trans hsince.version.symm,
    hlast.point.trans hsince.point.symm, hlast.snapshots.trans hsince.snapshots.symm, fun huntrusted => ?_⟩
  rcases hannounced : p.announced with _ | _
  · rw [(hlast.silent hannounced).2, ← (hsince.silent hannounced).2]
    exact .inl huntrusted
  · exact (hlast.down hannounced).2

/-- The first generation of the pool of `subscribed`. -/
def tracked : PoolInstanceId := ⟨.uniswapV2 9, 0⟩

/-- A healthy runtime at block 100 with one pool and a subscriber. -/
def subscribed : AmmRuntimeActor Nat :=
  (spawn ⟨1, 100, 100⟩ .healthy [tracked.key] 0).run [.attachSubscriber ⟨none, 1, none, none, 1⟩]

/-- A block that updates the pool; `ingested` says whether the engine fails on it. -/
def block (number : Nat) (ingested : Option AmmRuntimeCommandError) : AmmCanonicalBatch Nat :=
  .mk ⟨.subscriber, 1, 0, number, number, .permit, ingested, [(tracked.key, .updated)], none, 0, .coherent, number, []⟩ []

/-- The repair of slots read at a block. -/
def slotRepair (number : Nat) : SlotPatch Nat where
  pool := tracked
  unknown := none
  baseline := ⟨1, number, number⟩
  invalid := none
  repair := true
  capacity := .permit
  refreshed := none
  registrySnapshot := none
  expectedQuality := .coherent
  quality := .coherent
  contents := number
  aftermath := [.events 1]

/-- A watcher that is added while one more block arrives. -/
def watcher (fence : AmmCanonicalBatch Nat) : WatcherAddition Nat where
  ready := []
  refused := none
  fence := [fence]
  begun := none
  capacity := .permit
  inserted := none
  transaction := none
  quality := .coherent
  contents := 0

/-- A repair and a watcher are committed while there is trust; then it is lost. -/
def trustedCommits : List (AmmRuntimeCommand Nat) :=
  [.canonical (block 101 none), .commitScheduledSlotPatch (slotRepair 101) [],
    .addFactoryWatcher (watcher (block 102 none)), .reportSubscriberFailure]

def afterwards : List (AmmRuntimeCommand Nat) := [.canonical (block 103 none), .work [.events 2], .shutdown]

theorem untrusted_absorbing_subscribed :
    Fresh subscribed ∧ (slotRepair 101).Passes (subscribed.step (.canonical (block 101 none))) ∧
    (subscribed.run (trustedCommits ++ afterwards)).version = 4 ∧
    (subscribed.run (trustedCommits ++ afterwards)).status.health = .shuttingDown := by
  have hfresh : Fresh subscribed := ⟨by decide +kernel, by decide +kernel, rfl⟩
  have hmeets : RunMeets subscribed (trustedCommits ++ afterwards) :=
    ⟨trivial, fun _ => by decide +kernel, fun _ => by decide +kernel, trivial, trivial, trivial, trivial, trivial⟩
  obtain ⟨-, -, hversion, -⟩ := untrusted_absorbing hfresh trustedCommits afterwards hmeets (by decide +kernel)
  refine ⟨hfresh, ⟨rfl, ?_, ?_, rfl, ⟨?_, ?_, ?_⟩, fun _ => nofun, rfl, ?_, rfl⟩, hversion.trans ?_, ?_⟩
  all_goals decide +kernel

/-- A slot patch committed after the loss publishes a new version with a healthy status; a watcher added across a fence that
    loses trust does so within one command. -/
theorem published_without_trust :
    Fresh subscribed ∧
    (let lost := subscribed.run [.reportSubscriberFailure]
     let patched := subscribed.run [.reportSubscriberFailure, .commitScheduledSlotPatch (slotRepair 100) []]
     lost.trusted = false ∧ lost.status.health = .untrusted ∧ lost.version = 0 ∧ patched.trusted = false ∧
      patched.version = 1 ∧ patched.snapshots.map (·.version) = [0, 1] ∧ patched.status.health = .healthy) ∧
    (let added := subscribed.run [.addFactoryWatcher (watcher (block 101 (some (.other "engine failure"))))]
     added.trusted = false ∧ added.lost.map (·.version) = some 0 ∧ added.version = 1 ∧
      added.status.health = .healthy) := by
  refine ⟨⟨?_, ?_, rfl⟩, ⟨?_, ?_, ?_, ?_, ?_, ?_, ?_⟩, ?_, ?_, ?_, ?_⟩
  all_goals decide +kernel

end AmmState.Publication
