import AmmState.Theorems.Runtime.Handlers

/-! A change subscription is gap-free: versions and event numbers run without a hole, a subscriber gets every commit after
    the snapshot it started from, and the revision of a pool only grows. -/

namespace AmmState.Changes
open Fallible

variable {Contents : Type} {first : AmmStateSnapshot Contents}

/-! ### Runs -/

/-- The deliveries after a snapshot, whatever becomes of the trust. -/
def deliveries (first : AmmStateSnapshot Contents) : Rules Contents where
  first := some first
  safe _ := True
  trusted _ := True
  safe_of_trusted _ := trivial
  check _ _ := trivial
  keep _ := ⟨fun _ => trivial, fun _ => trivial⟩
  announce _ _ _ := trivial
  loseTrust _ := trivial
  shutDown _ := trivial
  publish _ _ _ _ := trivial

theorem Inv.step {a : AmmRuntimeActor Contents} (h : Inv first a) (command : AmmRuntimeCommand Contents) :
    Inv first (a.step command) := by
  have hsound : (deliveries first).Sound a := by
    refine ⟨fun other hother => ?_, trivial⟩
    obtain rfl := Option.some.inj hother
    exact h
  have hmeets : (deliveries first).Meets a command := by
    cases command with
    | commitScheduledSlotPatch r superseded => exact fun _ => trivial
    | addFactoryWatcher r => exact fun _ _ => trivial
    | _ => trivial
  exact (hsound.step hmeets).delivered first rfl

theorem Inv.run {a : AmmRuntimeActor Contents} (h : Inv first a) (commands : List (AmmRuntimeCommand Contents)) :
    Inv first (a.run commands) := by
  induction commands generalizing a with
  | nil => exact h
  | cons command commands ih => exact ih (h.step command)

/-- The snapshot that the actor is spawned with. -/
def spawnSnapshot (point : AmmStatePoint) (pools : List PoolKey) (contents : Contents) : AmmStateSnapshot Contents :=
  ⟨0, point, 0, contents, fun pool => if pool.key ∈ pools ∧ pool.generation = 0 then some 0 else none⟩

theorem seen_spawn {point : AmmStatePoint} {pools : List PoolKey} {contents : Contents} {pool : PoolInstanceId} {r : Nat}
    (h : Seen (spawnSnapshot point pools contents) [] pool r) : pool.key ∈ pools ∧ pool.generation = 0 ∧ r = 0 := by
  obtain ⟨c, hc, hshows⟩ := h
  obtain rfl := List.mem_singleton.mp hc
  rcases hshows with hshows | ⟨change, hchange, _⟩
  · replace hshows : (if pool.key ∈ pools ∧ pool.generation = 0 then some 0 else none) = some r := hshows
    split_ifs at hshows with hin
    exact ⟨hin.1, hin.2, (Option.some.inj hshows).symm⟩
  · cases hchange

theorem Inv.spawn (point : AmmStatePoint) (health : AmmRuntimeHealth) (pools : List PoolKey) (contents : Contents) :
    Inv (spawnSnapshot point pools contents) (spawn point health pools contents) where
  counted := rfl
  versioned := ⟨rfl, rfl, by simp [Changes.spawn]⟩
  delivered := ⟨nofun, by simp [Changes.spawn]⟩
  revised :=
    { ordered := List.pairwise_singleton _ _
      bounded := by
        intro pool r s hseen _
        rw [(seen_spawn hseen).2.2]
        exact Nat.zero_le s
      tracked := by
        intro pool r hseen _
        obtain ⟨hin, hzero, _⟩ := seen_spawn hseen
        exact ne_of_eq_of_ne (if_pos ⟨hin, hzero⟩) (Option.some_ne_none 0)
      issued := by
        intro pool r hseen
        obtain ⟨hin, hzero, _⟩ := seen_spawn hseen
        exact ⟨0, if_pos hin, Nat.le_of_eq hzero⟩
      shown := fun hs => ⟨_, List.mem_cons_self .., .inl hs⟩
      active := by
        intro key pool hpool
        replace hpool : (if key ∈ pools then some (PoolInstanceId.mk key 0) else none) = some pool := hpool
        split_ifs at hpool with hin
        cases hpool
        exact ⟨rfl, 0, if_pos hin, Nat.le_refl 0⟩
      reserved := nofun
      exclusive := fun _ => rfl }

/-- What a subscriber may rely on. -/
structure Reliable (first : AmmStateSnapshot Contents) (a : AmmRuntimeActor Contents) : Prop where
  /-- Commits have consecutive versions. -/
  versions : a.commits.map (fun c => c.snapshot.version) = List.range' 1 a.commits.length
  /-- Events have consecutive numbers. -/
  events : a.events = List.range' 1 a.eventSequence
  /-- Every commit carries the snapshot, the point and the revisions that were published with its version. -/
  carries : ∀ c ∈ a.commits, a.snapshots[c.snapshot.version]? = some c.snapshot ∧
    c.changes.version = c.snapshot.version ∧ c.changes.point = c.snapshot.point
  /-- A subscription has the commits right after its snapshot; while it is the current one it has them all. -/
  subscriptions : ∀ i s, a.subscriptions[i]? = some s →
    a.snapshots[s.snapshot.version]? = some s.snapshot ∧
    s.commits.map (fun c => c.snapshot.version) = List.range' (s.snapshot.version + 1) s.commits.length ∧
    s.commits <+: a.commits.drop s.snapshot.version ∧
    (a.critical = some i → s.commits = a.commits.drop s.snapshot.version)
  /-- The revision of a pool never falls, and grows in every commit that lists the pool. -/
  revisions : (history first a.commits).Pairwise AmmStateCommit.Ordered

section Reliability
variable {a : AmmRuntimeActor Contents}

theorem Versioned.versions (h : Versioned first a) (hzero : first.version = 0) :
    a.commits.map (fun c => c.snapshot.version) = List.range' 1 a.commits.length := by
  refine List.ext_getElem (by simp) fun i hi _ => ?_
  rw [List.length_map] at hi
  rw [List.getElem_map, List.getElem_range', (h.commits i _ (List.getElem?_eq_getElem hi)).1, hzero]
  omega

theorem Versioned.getElem?_snapshot (h : Versioned first a) (hzero : first.version = 0) {i : Nat}
    {snapshot : AmmStateSnapshot Contents} (hget : a.snapshots[i]? = some snapshot) : snapshot.version = i := by
  rw [h.snapshots] at hget
  cases i with
  | zero =>
    cases hget
    exact hzero
  | succ i =>
    rw [List.getElem?_cons_succ, List.getElem?_map] at hget
    obtain ⟨c, hc, rfl⟩ := Option.map_eq_some_iff.mp hget
    rw [(h.commits i c hc).1, hzero]
    omega

theorem Inv.reliable (h : Inv first a) (hzero : first.version = 0) : Reliable first a where
  versions := h.versioned.versions hzero
  events := h.counted
  carries c hc := by
    obtain ⟨i, hlt, rfl⟩ := List.getElem_of_mem hc
    have hget : a.commits[i]? = some a.commits[i] := List.getElem?_eq_getElem hlt
    obtain ⟨hversion, hchanges, hpoint⟩ := h.versioned.commits i _ hget
    refine ⟨?_, hchanges, hpoint⟩
    rw [hversion, hzero, h.versioned.snapshots, Nat.zero_add, Nat.add_comm, List.getElem?_cons_succ,
      List.getElem?_map, hget]
    rfl
  subscriptions i s hs := by
    obtain ⟨before, rest, htaken, hstart, hcurrent⟩ := h.delivered.follows i s hs
    have hversion := h.versioned.getElem?_snapshot hzero hstart
    have hdrop : a.commits.drop s.snapshot.version = s.commits ++ rest := by
      rw [hversion, htaken, List.append_assoc, List.drop_left]
    refine ⟨hversion ▸ hstart, ?_, ⟨rest, hdrop.symm⟩, fun hi => ?_⟩
    · refine List.ext_getElem (by simp) fun j hj _ => ?_
      rw [List.length_map] at hj
      have hget : a.commits[before.length + j]? = some s.commits[j] := by
        rw [htaken, List.append_assoc, List.getElem?_append_right (by omega), Nat.add_sub_cancel_left,
          List.getElem?_append_left hj, List.getElem?_eq_getElem hj]
      rw [List.getElem_map, List.getElem_range', (h.versioned.commits _ _ hget).1, hzero, hversion]
      omega
    · rw [hdrop, hcurrent hi, List.append_nil]
  revisions := h.revised.ordered

end Reliability

/-- Whatever the actor is asked to do, in whatever order and with whatever answers from outside. -/
theorem changes_reliable (point : AmmStatePoint) (health : AmmRuntimeHealth) (pools : List PoolKey) (contents : Contents)
    (commands : List (AmmRuntimeCommand Contents)) :
    Reliable (spawnSnapshot point pools contents) ((spawn point health pools contents).run commands) :=
  ((Inv.spawn point health pools contents).run commands).reliable rfl

end AmmState.Changes
