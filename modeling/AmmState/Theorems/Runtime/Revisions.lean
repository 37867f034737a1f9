import AmmState.Runtime.Changes
import Mathlib.Data.List.Nodup

/-! What commits deliver: versions and event numbers without a hole, every commit to the current subscription, pool
    revisions that only grow and generations that do not come back. -/

namespace AmmState.Changes
open Fallible

variable {Contents : Type}

/-! ### What commits show -/

namespace AmmStateCommit

def Lists (c : AmmStateCommit Contents) (pool : PoolInstanceId) : Prop :=
  ∃ change ∈ c.changes.poolChanges, change.pool = pool

/-- The commit gives the pool this revision, in its snapshot or as a change. -/
def Shows (c : AmmStateCommit Contents) (pool : PoolInstanceId) (revision : Nat) : Prop :=
  c.snapshot.revisions pool = some revision ∨
    ∃ change ∈ c.changes.poolChanges, change.pool = pool ∧ change.revision = revision

/-- No revision of `c` is above one of `d`, and a pool that `d` lists has grown. -/
def Ordered (c d : AmmStateCommit Contents) : Prop :=
  ∀ pool r s, c.Shows pool r → d.Shows pool s → r ≤ s ∧ (d.Lists pool → r < s)

end AmmStateCommit

/-- The first snapshot and every commit after it. -/
def history (first : AmmStateSnapshot Contents) (commits : List (AmmStateCommit Contents)) :
    List (AmmStateCommit Contents) :=
  ⟨first, first.version, first.point, .coherent, []⟩ :: commits

section Invariant
variable (first : AmmStateSnapshot Contents)

def Seen (commits : List (AmmStateCommit Contents)) (pool : PoolInstanceId) (revision : Nat) : Prop :=
  ∃ c ∈ history first commits, c.Shows pool revision

/-- The generation has been given out. -/
def Generations.Issued (g : Generations) (pool : PoolInstanceId) : Prop :=
  ∃ last, g.pools pool.key = some last ∧ pool.generation ≤ last

/-- Events are numbered from one on. -/
def Counted (a : AmmRuntimeActor Contents) : Prop := a.events = List.range' 1 a.eventSequence

/-- Versions are consecutive, and the watch channel has held the snapshot of every commit. -/
structure Versioned (a : AmmRuntimeActor Contents) : Prop where
  snapshots : a.snapshots = first :: a.commits.map AmmStateCommit.snapshot
  version : a.version = first.version + a.commits.length
  commits : ∀ i c, a.commits[i]? = some c →
    c.snapshot.version = first.version + 1 + i ∧ c.changes.version = c.snapshot.version ∧
      c.changes.point = c.snapshot.point

/-- The subscription has taken the commits from its snapshot on. -/
def Follows (a : AmmRuntimeActor Contents) (s : AmmChangeSubscription Contents) (current : Prop) : Prop :=
  ∃ before rest, a.commits = before ++ s.commits ++ rest ∧ a.snapshots[before.length]? = some s.snapshot ∧
    (current → rest = [])

structure Delivered (a : AmmRuntimeActor Contents) : Prop where
  critical : ∀ i, a.critical = some i → i < a.subscriptions.length
  follows : ∀ i s, a.subscriptions[i]? = some s → Follows a s (a.critical = some i)

/-- Revisions grow along the history, and a generation that is gone does not come back. -/
structure Revised (commits : List (AmmStateCommit Contents)) (revisions : PoolRevisionMap)
    (engine : Generations) : Prop where
  ordered : (history first commits).Pairwise AmmStateCommit.Ordered
  bounded : ∀ {pool r s}, Seen first commits pool r → revisions pool = some s → r ≤ s
  tracked : ∀ {pool r}, Seen first commits pool r → engine.active pool.key = some pool → revisions pool ≠ none
  issued : ∀ {pool r}, Seen first commits pool r → engine.Issued pool
  shown : ∀ {pool s}, revisions pool = some s → Seen first commits pool s
  active : ∀ {key pool}, engine.active key = some pool → pool.key = key ∧ engine.Issued pool
  reserved : ∀ {key pool}, engine.reservations key = some pool →
    pool.key = key ∧ engine.pools key = some pool.generation ∧ ∀ r, ¬ Seen first commits pool r
  exclusive : ∀ {key}, engine.active key ≠ none → engine.reservations key = none

structure Inv (a : AmmRuntimeActor Contents) : Prop where
  counted : Counted a
  versioned : Versioned first a
  delivered : Delivered a
  revised : Revised first a.commits a.revisions a.engine

end Invariant

/-! ### Events -/

/-- The last event leaves its number, and its status. -/
theorem announce_succ (a : AmmRuntimeActor Contents) (firstSequence count : Nat) :
    a.announce firstSequence (count + 1) = { a with
      eventSequence := firstSequence + count
      status := ⟨firstSequence + count, a.version, a.health⟩
      events := a.events ++ List.range' firstSequence (count + 1) } := by
  induction count with
  | zero => rfl
  | succ count ih =>
    have hsucc : a.announce firstSequence (count + 1 + 1) =
        { a.announce firstSequence (count + 1) with
          eventSequence := firstSequence + (count + 1)
          status := ⟨firstSequence + (count + 1), (a.announce firstSequence (count + 1)).version,
            (a.announce firstSequence (count + 1)).health⟩
          events := (a.announce firstSequence (count + 1)).events ++ [firstSequence + (count + 1)] } := by
      simp only [AmmRuntimeActor.announce, List.range_succ (n := count + 1), List.foldl_append, List.foldl_cons,
        List.foldl_nil]
    have hlast : List.range' firstSequence (count + 1 + 1) =
        List.range' firstSequence (count + 1) ++ [firstSequence + (count + 1)] := by
      rw [List.range'_concat, Nat.one_mul]
    rw [hsucc, ih, hlast, ← List.append_assoc]

theorem Counted.announce {a : AmmRuntimeActor Contents} (h : Counted a) (count : Nat) :
    Counted (a.announce (a.eventSequence + 1) count) := by
  cases count with
  | zero => exact h
  | succ count =>
    rw [announce_succ]
    show a.events ++ List.range' (a.eventSequence + 1) (count + 1) = List.range' 1 (a.eventSequence + 1 + count)
    rw [show a.events = _ from h, Nat.add_comm a.eventSequence 1, List.range'_append_1, Nat.add_comm 1 a.eventSequence,
      Nat.add_assoc, Nat.add_comm 1 count]

variable {first : AmmStateSnapshot Contents}

theorem Inv.announce {a : AmmRuntimeActor Contents} (h : Inv first a) (count : Nat) :
    Inv first (a.announce (a.eventSequence + 1) count) := by
  have hcounted := h.counted.announce count
  cases count with
  | zero => exact h
  | succ count =>
    rw [announce_succ] at hcounted ⊢
    exact ⟨hcounted, ⟨h.versioned.snapshots, h.versioned.version, h.versioned.commits⟩,
      ⟨h.delivered.critical, h.delivered.follows⟩, h.revised⟩

/-! ### Generations -/

section Engine
variable {commits : List (AmmStateCommit Contents)} {revisions : PoolRevisionMap} {g : Generations}

/-- A change of the engine that gives out no shown generation keeps the order of revisions. -/
theorem Revised.of_engine {g' : Generations} (h : Revised first commits revisions g)
    (hissued : ∀ pool, g.Issued pool → g'.Issued pool)
    (hactive : ∀ key pool, g'.active key = some pool → g.active key = some pool ∨
      (pool.key = key ∧ g'.Issued pool ∧ ∀ r, ¬ Seen first commits pool r))
    (hreserved : ∀ key pool, g'.reservations key = some pool →
      g.reservations key = some pool ∧ g'.pools key = g.pools key ∨
      (pool.key = key ∧ g'.pools key = some pool.generation ∧ ∀ r, ¬ Seen first commits pool r))
    (hexclusive : ∀ key, g'.active key ≠ none → g'.reservations key = none) :
    Revised first commits revisions g' where
  ordered := h.ordered
  bounded := h.bounded
  tracked {pool r} hseen hpool := by
    rcases hactive _ _ hpool with hold | ⟨_, _, hunseen⟩
    · exact h.tracked hseen hold
    · exact absurd hseen (hunseen r)
  issued hseen := hissued _ (h.issued hseen)
  shown := h.shown
  active {key pool} hpool := by
    rcases hactive _ _ hpool with hold | ⟨hkey, hnew, _⟩
    · exact ⟨(h.active hold).1, hissued _ (h.active hold).2⟩
    · exact ⟨hkey, hnew⟩
  reserved {key pool} hpool := by
    rcases hreserved _ _ hpool with ⟨hold, hsame⟩ | hnew
    · obtain ⟨hkey, hlatest, hunseen⟩ := h.reserved hold
      exact ⟨hkey, hsame.trans hlatest, hunseen⟩
    · exact hnew
  exclusive {key} hpool := hexclusive key hpool

/-- The next generation of a key has been shown nowhere. -/
theorem Revised.unseen_next (h : Revised first commits revisions g) {key : PoolKey} {generation : Nat}
    (hnext : g.nextPool key = .ok generation) (r : Nat) : ¬ Seen first commits ⟨key, generation⟩ r := by
  intro hseen
  obtain ⟨last, hlast, hle⟩ := h.issued hseen
  replace hlast : g.pools key = some last := hlast
  rw [Generations.nextPool, hlast] at hnext
  dsimp only at hnext
  split_ifs at hnext
  cases hnext
  exact absurd hle (by simp)

theorem Generations.le_next {key : PoolKey} {generation last : Nat} (hnext : g.nextPool key = .ok generation)
    (hlast : g.pools key = some last) : last ≤ generation := by
  rw [nextPool, hlast] at hnext
  dsimp only at hnext
  split_ifs at hnext
  cases hnext
  exact Nat.le_succ last

theorem Generations.Issued.update {pool : PoolInstanceId} (h : g.Issued pool) {key : PoolKey} {generation : Nat}
    (hle : ∀ last, g.pools key = some last → last ≤ generation) {active reservations : PoolKey → Option PoolInstanceId} :
    Generations.Issued ⟨active, reservations, Function.update g.pools key (some generation)⟩ pool := by
  obtain ⟨last, hlast, hpool⟩ := h
  by_cases hkey : pool.key = key
  · refine ⟨generation, ?_, Nat.le_trans hpool (hle last (hkey ▸ hlast))⟩
    show Function.update g.pools key (some generation) pool.key = _
    rw [hkey, Function.update_self]
  · refine ⟨last, ?_, hpool⟩
    show Function.update g.pools key (some generation) pool.key = _
    rw [Function.update_of_ne hkey, hlast]

theorem Revised.reservePoolGeneration (h : Revised first commits revisions g) (key : PoolKey) :
    Revised first commits revisions (g.reservePoolGeneration key) := by
  unfold Generations.reservePoolGeneration
  split_ifs with htaken
  · exact h
  · obtain ⟨hactive, hreserved⟩ := not_or.mp htaken
    cases hnext : g.nextPool key with
    | error error => exact h
    | ok generation =>
      have hle : ∀ last, g.pools key = some last → last ≤ generation := fun last => Generations.le_next hnext
      refine h.of_engine (fun pool hpool => hpool.update hle) (fun _ _ => .inl) ?_ ?_
      · intro other pool hpool
        by_cases hother : other = key
        · subst hother
          replace hpool : Function.update g.reservations other (some ⟨other, generation⟩) other = some pool := hpool
          rw [Function.update_self] at hpool
          cases hpool
          exact .inr ⟨rfl, Function.update_self _ _ _, h.unseen_next hnext⟩
        · exact .inl ⟨(Function.update_of_ne hother _ _).symm.trans hpool, Function.update_of_ne hother _ _⟩
      · intro other hother
        have hne : other ≠ key := by
          rintro rfl
          exact hactive (Option.isSome_iff_ne_none.mpr hother)
        exact (Function.update_of_ne hne _ _).trans (h.exclusive hother)

theorem Revised.cancelPoolReservation (h : Revised first commits revisions g) (reservation : PoolInstanceId) :
    Revised first commits revisions (g.cancelPoolReservation reservation) := by
  unfold Generations.cancelPoolReservation
  split_ifs with hmatch
  · refine h.of_engine (fun _ => id) (fun _ _ => .inl) ?_ ?_
    · intro key pool hpool
      by_cases hkey : key = reservation.key
      · subst hkey
        cases (Function.update_self _ _ _).symm.trans hpool
      · exact .inl ⟨(Function.update_of_ne hkey _ _).symm.trans hpool, rfl⟩
    · intro key hkey
      by_cases hsame : key = reservation.key
      · subst hsame
        exact Function.update_self _ _ _
      · exact (Function.update_of_ne hsame _ _).trans (h.exclusive hkey)
  · exact h

theorem Revised.cancelPoolReservations (h : Revised first commits revisions g) (reservations : List PoolInstanceId) :
    Revised first commits revisions (g.cancelPoolReservations reservations) := by
  induction reservations generalizing g with
  | nil => exact h
  | cons reservation reservations ih => exact ih (h.cancelPoolReservation reservation)

/-- Cancelled reservations leave the active pools alone. -/
theorem Generations.active_cancelPoolReservations (reservations : List PoolInstanceId) :
    (g.cancelPoolReservations reservations).active = g.active := by
  induction reservations generalizing g with
  | nil => rfl
  | cons reservation reservations ih =>
    refine (ih (g := g.cancelPoolReservation reservation)).trans ?_
    unfold Generations.cancelPoolReservation
    split_ifs <;> rfl

theorem Revised.remove (h : Revised first commits revisions g) (keys : List PoolKey) :
    Revised first commits revisions (g.remove keys) := by
  refine h.of_engine (fun _ => id) (fun key pool hpool => ?_) (fun _ _ hpool => .inl ⟨hpool, rfl⟩) fun key hkey => ?_
  · replace hpool : (if key ∈ keys then none else g.active key) = some pool := hpool
    split_ifs at hpool
    exact .inl hpool
  · refine h.exclusive ?_
    replace hkey : (if key ∈ keys then none else g.active key) ≠ none := hkey
    split_ifs at hkey with hin
    · exact absurd rfl hkey
    · exact hkey

/-- An instance that may be installed: its generation is the next one or was reserved, and no commit shows it. -/
structure Generations.Fresh (g : Generations) (pool : PoolInstanceId) : Prop where
  inactive : g.active pool.key = none
  latest : ∀ last, g.pools pool.key = some last → last ≤ pool.generation

theorem Revised.installOne (h : Revised first commits revisions g) {pool : PoolInstanceId} (hfresh : g.Fresh pool)
    (hunseen : ∀ r, ¬ Seen first commits pool r) : Revised first commits revisions (g.installOne pool) := by
  have hself : (g.installOne pool).Issued pool := ⟨pool.generation, Function.update_self _ _ _, Nat.le_refl _⟩
  refine h.of_engine (fun other hother => hother.update hfresh.latest) ?_ ?_ ?_
  · intro key other hother
    by_cases hkey : key = pool.key
    · subst hkey
      cases (Function.update_self _ _ _).symm.trans hother
      exact .inr ⟨rfl, hself, hunseen⟩
    · exact .inl ((Function.update_of_ne hkey _ _).symm.trans hother)
  · intro key other hother
    by_cases hkey : key = pool.key
    · subst hkey
      cases (Function.update_self _ _ _).symm.trans hother
    · exact .inl ⟨(Function.update_of_ne hkey _ _).symm.trans hother, Function.update_of_ne hkey _ _⟩
  · intro key hactive
    by_cases hkey : key = pool.key
    · subst hkey
      exact Function.update_self _ _ _
    · refine (Function.update_of_ne hkey _ _).trans (h.exclusive ?_)
      rwa [show (g.installOne pool).active key = g.active key from Function.update_of_ne hkey _ _] at hactive

theorem mapM_eq_ok {ε α β : Type} {f : α → Except ε β} {as : List α} {bs : List β} (h : as.mapM f = .ok bs) :
    List.Forall₂ (fun a b => f a = .ok b) as bs := by
  induction as generalizing bs with
  | nil =>
    cases h
    exact .nil
  | cons a as ih =>
    rw [List.mapM_cons] at h
    obtain ⟨b, hb, h⟩ := Checked.bind_eq_ok.mp h
    obtain ⟨rest, hrest, h⟩ := Checked.bind_eq_ok.mp h
    cases h
    exact .cons hb (ih hrest)

/-- What a plan says of its instances. -/
theorem Revised.plan_spec (h : Revised first commits revisions g) {pools : List PoolKey}
    {reservation : Option PoolInstanceId} {instances : List PoolInstanceId}
    (hplan : g.plan pools reservation = .ok instances) :
    (instances.map PoolInstanceId.key).Nodup ∧
      ∀ pool ∈ instances, g.Fresh pool ∧ ∀ r, ¬ Seen first commits pool r := by
  cases reservation with
  | some reservation =>
    rw [Generations.plan] at hplan
    split_ifs at hplan with hmatch
    obtain ⟨_, hreserved, hinactive⟩ := hmatch
    cases hplan
    refine ⟨List.nodup_singleton _, fun pool hpool => ?_⟩
    obtain rfl := List.mem_singleton.mp hpool
    obtain ⟨_, hlatest, hunseen⟩ := h.reserved hreserved
    refine ⟨⟨hinactive, fun last hlast => ?_⟩, hunseen⟩
    rw [hlatest] at hlast
    cases hlast
    exact Nat.le_refl _
  | none =>
    rw [Generations.plan] at hplan
    split_ifs at hplan with hmatch
    obtain ⟨hnodup, hfree⟩ := hmatch
    have hforall := mapM_eq_ok hplan
    have hnext : ∀ key pool, (do return PoolInstanceId.mk key (← g.nextPool key) : Except _ _) = .ok pool →
        pool.key = key ∧ g.nextPool key = .ok pool.generation := by
      intro key pool hpool
      obtain ⟨generation, hgeneration, hpool⟩ := Checked.bind_eq_ok.mp hpool
      cases hpool
      exact ⟨rfl, hgeneration⟩
    refine ⟨?_, fun pool hpool => ?_⟩
    · have hkeys : instances.map PoolInstanceId.key = pools := by
        clear hplan hnodup hfree
        induction hforall with
        | nil => rfl
        | cons hhead _ ih => rw [List.map_cons, ih, (hnext _ _ hhead).1]
      rw [hkeys]
      exact hnodup
    · obtain ⟨key, hkey, hplanned⟩ : ∃ key ∈ pools, (do return PoolInstanceId.mk key (← g.nextPool key) : Except _ _) =
          .ok pool := by
        clear hplan hnodup hfree
        induction hforall with
        | nil => cases hpool
        | cons hhead _ ih =>
          rcases List.mem_cons.mp hpool with rfl | hpool
          · exact ⟨_, List.mem_cons_self .., hhead⟩
          · obtain ⟨key, hkey, hplanned⟩ := ih hpool
            exact ⟨key, List.mem_cons_of_mem _ hkey, hplanned⟩
      obtain ⟨rfl, hgeneration⟩ := hnext key pool hplanned
      exact ⟨⟨(hfree _ hkey).1, fun last => Generations.le_next hgeneration⟩, h.unseen_next hgeneration⟩

theorem Generations.install_of_not_mem {pools : List PoolInstanceId} {key : PoolKey}
    (h : key ∉ pools.map PoolInstanceId.key) :
    (g.install pools).active key = g.active key ∧ (g.install pools).reservations key = g.reservations key ∧
      (g.install pools).pools key = g.pools key := by
  induction pools generalizing g with
  | nil => exact ⟨rfl, rfl, rfl⟩
  | cons pool pools ih =>
    obtain ⟨hne, hrest⟩ := not_or.mp (mt List.mem_cons.mpr h)
    obtain ⟨hactive, hreservations, hpools⟩ := ih (g := g.installOne pool) hrest
    exact ⟨hactive.trans (Function.update_of_ne hne _ _), hreservations.trans (Function.update_of_ne hne _ _),
      hpools.trans (Function.update_of_ne hne _ _)⟩

/-- A plan is installed whole: its instances are active, issued and no longer reserved. -/
theorem Revised.install (h : Revised first commits revisions g) {instances : List PoolInstanceId}
    (hnodup : (instances.map PoolInstanceId.key).Nodup)
    (hfresh : ∀ pool ∈ instances, g.Fresh pool ∧ ∀ r, ¬ Seen first commits pool r) :
    Revised first commits revisions (g.install instances) ∧
      ∀ pool ∈ instances, (g.install instances).Issued pool ∧ (g.install instances).reservations pool.key = none ∧
        ∀ r, ¬ Seen first commits pool r := by
  induction instances generalizing g with
  | nil => exact ⟨h, by simp⟩
  | cons pool instances ih =>
    obtain ⟨hnot, hnodup⟩ := List.nodup_cons.mp hnodup
    obtain ⟨hpool, hunseen⟩ := hfresh pool (List.mem_cons_self ..)
    have hrest : ∀ other ∈ instances, (g.installOne pool).Fresh other ∧ ∀ r, ¬ Seen first commits other r := by
      intro other hother
      obtain ⟨hotherFresh, hotherUnseen⟩ := hfresh other (List.mem_cons_of_mem _ hother)
      have hne : other.key ≠ pool.key := fun heq => hnot (heq ▸ List.mem_map_of_mem hother)
      refine ⟨⟨(Function.update_of_ne hne _ _).trans hotherFresh.inactive, fun last hlast => ?_⟩, hotherUnseen⟩
      exact hotherFresh.latest last ((Function.update_of_ne hne _ _).symm.trans hlast)
    obtain ⟨hrevised, hinstalled⟩ := ih (h.installOne hpool hunseen) hnodup hrest
    refine ⟨hrevised, fun other hother => ?_⟩
    rcases List.mem_cons.mp hother with rfl | hother
    · obtain ⟨_, hreservations, hpools⟩ := Generations.install_of_not_mem (g := g.installOne other) hnot
      exact ⟨⟨other.generation, hpools.trans (Function.update_self _ _ _), Nat.le_refl _⟩,
        hreservations.trans (Function.update_self _ _ _), hunseen⟩
    · exact hinstalled other hother

end Engine

/-! ### Publishing -/

theorem seen_append {commits : List (AmmStateCommit Contents)} {c : AmmStateCommit Contents}
    {pool : PoolInstanceId} {r : Nat} :
    Seen first (commits ++ [c]) pool r ↔ Seen first commits pool r ∨ c.Shows pool r := by
  constructor
  · rintro ⟨d, hd, hshows⟩
    rcases List.mem_cons.mp hd with rfl | hd
    · exact .inl ⟨_, List.mem_cons_self .., hshows⟩
    · rcases List.mem_append.mp hd with hd | hd
      · exact .inl ⟨d, List.mem_cons_of_mem _ hd, hshows⟩
      · exact .inr (List.mem_singleton.mp hd ▸ hshows)
  · rintro (⟨d, hd, hshows⟩ | hshows)
    · rcases List.mem_cons.mp hd with rfl | hd
      · exact ⟨_, List.mem_cons_self .., hshows⟩
      · exact ⟨d, List.mem_cons_of_mem _ (List.mem_append_left _ hd), hshows⟩
    · exact ⟨c, List.mem_cons_of_mem _ (List.mem_append_right _ (List.mem_singleton_self c)), hshows⟩

/-- One change that a commit may list: the next revision of a pool whose revision is known wherever it was shown, or the
    first revision of a pool that was never shown. -/
structure LegalChange (first : AmmStateSnapshot Contents) (commits : List (AmmStateCommit Contents))
    (revisions : PoolRevisionMap) (engine : Generations) (change : AmmPoolChange) : Prop where
  issued : engine.Issued change.pool
  unreserved : engine.reservations change.pool.key ≠ some change.pool
  grows : (change.revision = (revisions change.pool).getD 0 + 1 ∧
      ∀ r, Seen first commits change.pool r → revisions change.pool ≠ none) ∨
    (∀ r, ¬ Seen first commits change.pool r)

/-- A commit that may follow: its changes are legal, its revisions are the old ones but for the listed pools, and a listed
    pool that loses its revision is no longer active. -/
structure Legal (first : AmmStateSnapshot Contents) (commits : List (AmmStateCommit Contents))
    (revisions : PoolRevisionMap) (engine : Generations) (poolChanges : List AmmPoolChange)
    (revisions' : PoolRevisionMap) : Prop where
  nodup : (poolChanges.map AmmPoolChange.pool).Nodup
  change : ∀ change ∈ poolChanges, LegalChange first commits revisions engine change
  listed : ∀ change ∈ poolChanges, revisions' change.pool = some change.revision ∨
    (revisions' change.pool = none ∧ engine.active change.pool.key ≠ some change.pool)
  unlisted : ∀ pool, (∀ change ∈ poolChanges, change.pool ≠ pool) → revisions' pool = revisions pool

section Publish
variable {commits : List (AmmStateCommit Contents)} {revisions revisions' : PoolRevisionMap} {engine : Generations}
  {c : AmmStateCommit Contents}

theorem Legal.eq_of_shows {poolChanges : List AmmPoolChange}
    (h : Legal first commits revisions engine poolChanges revisions') (hchanges : c.changes.poolChanges = poolChanges)
    (hrevisions : c.snapshot.revisions = revisions') {change : AmmPoolChange} (hchange : change ∈ poolChanges) {s : Nat}
    (hshows : c.Shows change.pool s) : s = change.revision := by
  rcases hshows with hshows | ⟨other, hother, hpool, hrevision⟩
  · rw [hrevisions] at hshows
    rcases h.listed change hchange with hlisted | ⟨hnone, _⟩
    · exact Option.some.inj (hshows.symm.trans hlisted)
    · rw [hnone] at hshows
      cases hshows
  · rw [hchanges] at hother
    rw [← hrevision, List.inj_on_of_nodup_map h.nodup hother hchange hpool]

/-- What a commit shows of a pool that it does not list is the old revision. -/
theorem Legal.shows_unlisted (h : Legal first commits revisions engine c.changes.poolChanges c.snapshot.revisions)
    {pool : PoolInstanceId} (hunlisted : ¬ c.Lists pool) {s : Nat} (hshows : c.Shows pool s) : revisions pool = some s := by
  rcases hshows with hshows | ⟨change, hchange, hpool, _⟩
  · rwa [h.unlisted pool fun change hchange hpool => hunlisted ⟨change, hchange, hpool⟩] at hshows
  · exact absurd ⟨change, hchange, hpool⟩ hunlisted

/-- A legal commit is above everything that was shown before. -/
theorem Revised.ordered_append (h : Revised first commits revisions engine)
    (hlegal : Legal first commits revisions engine c.changes.poolChanges c.snapshot.revisions) {pool : PoolInstanceId}
    {r s : Nat} (hseen : Seen first commits pool r) (hshows : c.Shows pool s) : r ≤ s ∧ (c.Lists pool → r < s) := by
  by_cases hlisted : c.Lists pool
  · obtain ⟨change, hchange, rfl⟩ := hlisted
    obtain rfl := hlegal.eq_of_shows rfl rfl hchange hshows
    rcases (hlegal.change change hchange).grows with ⟨hnext, htracked⟩ | hunseen
    · obtain ⟨last, hlast⟩ := Option.ne_none_iff_exists'.mp (htracked r hseen)
      have hle := h.bounded hseen hlast
      rw [hnext, hlast, Option.getD_some]
      exact ⟨Nat.le_succ_of_le hle, fun _ => Nat.lt_succ_of_le hle⟩
    · exact absurd hseen (hunseen r)
  · exact ⟨h.bounded hseen (hlegal.shows_unlisted hlisted hshows), fun h => absurd h hlisted⟩

theorem Revised.publish (h : Revised first commits revisions engine)
    (hlegal : Legal first commits revisions engine c.changes.poolChanges c.snapshot.revisions) :
    Revised first (commits ++ [c]) c.snapshot.revisions engine where
  ordered := by
    rw [show history first (commits ++ [c]) = history first commits ++ [c] from rfl, List.pairwise_append]
    refine ⟨h.ordered, List.pairwise_singleton _ _, fun d hd e he pool r s hr hs => ?_⟩
    obtain rfl := List.mem_singleton.mp he
    exact h.ordered_append hlegal ⟨d, hd, hr⟩ hs
  bounded {pool r s} hseen hs := by
    rcases seen_append.mp hseen with hseen | hshows
    · exact (h.ordered_append hlegal hseen (.inl hs)).1
    · rcases hshows with hr | ⟨change, hchange, rfl, rfl⟩
      · rw [hr] at hs
        cases hs
        exact Nat.le_refl _
      · exact Nat.le_of_eq (hlegal.eq_of_shows rfl rfl hchange (.inl hs)).symm
  tracked {pool r} hseen hactive := by
    by_cases hlisted : c.Lists pool
    · obtain ⟨change, hchange, rfl⟩ := hlisted
      rcases hlegal.listed change hchange with hsome | ⟨_, hinactive⟩
      · rw [hsome]
        exact Option.some_ne_none _
      · exact absurd hactive hinactive
    · rw [hlegal.unlisted pool fun change hchange hpool => hlisted ⟨change, hchange, hpool⟩]
      rcases seen_append.mp hseen with hseen | hshows
      · exact h.tracked hseen hactive
      · rw [hlegal.shows_unlisted hlisted hshows]
        exact Option.some_ne_none _
  issued {pool r} hseen := by
    rcases seen_append.mp hseen with hseen | hshows
    · exact h.issued hseen
    · by_cases hlisted : c.Lists pool
      · obtain ⟨change, hchange, rfl⟩ := hlisted
        exact (hlegal.change change hchange).issued
      · exact h.issued (h.shown (hlegal.shows_unlisted hlisted hshows))
  shown hs := seen_append.mpr (.inr (.inl hs))
  active := h.active
  reserved {key pool} hreserved := by
    obtain ⟨hkey, hlatest, hunseen⟩ := h.reserved hreserved
    refine ⟨hkey, hlatest, fun r hseen => ?_⟩
    rcases seen_append.mp hseen with hseen | hshows
    · exact hunseen r hseen
    · by_cases hlisted : c.Lists pool
      · obtain ⟨change, hchange, rfl⟩ := hlisted
        exact (hlegal.change change hchange).unreserved (hkey.symm ▸ hreserved)
      · exact hunseen r (h.shown (hlegal.shows_unlisted hlisted hshows))
  exclusive := h.exclusive

end Publish

/-! ### Versions and deliveries -/

section Deliver
variable {a : AmmRuntimeActor Contents}

theorem Versioned.snapshots_length (h : Versioned first a) : a.snapshots.length = a.commits.length + 1 := by
  rw [h.snapshots]
  simp

/-- A subscription keeps what it has taken when a commit is published that it does not get. -/
theorem Follows.publish {s : AmmChangeSubscription Contents} {current current' : Prop} (h : Follows a s current)
    {commits : List (AmmStateCommit Contents)} {snapshots : List (AmmStateSnapshot Contents)}
    {b : AmmRuntimeActor Contents} (hcommits : b.commits = a.commits ++ commits)
    (hsnapshots : b.snapshots = a.snapshots ++ snapshots) (hcurrent : ¬ current') : Follows b s current' := by
  obtain ⟨before, rest, htaken, hsnapshot, _⟩ := h
  refine ⟨before, rest ++ commits, ?_, ?_, fun h => absurd h hcurrent⟩
  · rw [hcommits, htaken, List.append_assoc]
  · rw [hsnapshots, List.getElem?_append_left (List.getElem?_eq_some_iff.mp hsnapshot).1, hsnapshot]

/-- The current subscription takes the next commit. -/
theorem Follows.take {s : AmmChangeSubscription Contents} {current current' : Prop} (h : Follows a s current)
    (hcurrent : current) {c : AmmStateCommit Contents} {snapshots : List (AmmStateSnapshot Contents)}
    {b : AmmRuntimeActor Contents} (hcommits : b.commits = a.commits ++ [c])
    (hsnapshots : b.snapshots = a.snapshots ++ snapshots) :
    Follows b { s with commits := s.commits ++ [c] } current' := by
  obtain ⟨before, rest, htaken, hsnapshot, hrest⟩ := h
  refine ⟨before, [], ?_, ?_, fun _ => rfl⟩
  · rw [hcommits, htaken, hrest hcurrent]
    simp
  · rw [hsnapshots, List.getElem?_append_left (List.getElem?_eq_some_iff.mp hsnapshot).1, hsnapshot]

/-- The actor between two events of a commit. -/
def AmmRuntimeActor.commit (a : AmmRuntimeActor Contents) (c : AmmStateCommit Contents) (permit : Option Nat) :
    AmmRuntimeActor Contents :=
  { a with
    version := c.changes.version
    point := c.changes.point
    revisions := c.snapshot.revisions
    snapshots := a.snapshots ++ [c.snapshot]
    health := runtimeHealth c.changes.quality
    commits := a.commits ++ [c] }.send permit c

theorem commit_fields (c : AmmStateCommit Contents) (permit : Option Nat) :
    (a.commit c permit).commits = a.commits ++ [c] ∧ (a.commit c permit).snapshots = a.snapshots ++ [c.snapshot] ∧
      (a.commit c permit).critical = a.critical ∧ (a.commit c permit).events = a.events ∧
      (a.commit c permit).eventSequence = a.eventSequence ∧ (a.commit c permit).version = c.changes.version ∧
      (a.commit c permit).revisions = c.snapshot.revisions ∧ (a.commit c permit).engine = a.engine := by
  cases permit with
  | none => exact ⟨rfl, rfl, rfl, rfl, rfl, rfl, rfl, rfl⟩
  | some subscription => exact ⟨rfl, rfl, rfl, rfl, rfl, rfl, rfl, rfl⟩

theorem Versioned.commit (h : Versioned first a) {c : AmmStateCommit Contents} (permit : Option Nat)
    (hversion : c.changes.version = a.version + 1) (hsnapshot : c.snapshot.version = c.changes.version)
    (hpoint : c.snapshot.point = c.changes.point) : Versioned first (a.commit c permit) := by
  obtain ⟨hcommits, hsnapshots, _, _, _, hversion', _, _⟩ := commit_fields (a := a) c permit
  refine ⟨?_, ?_, ?_⟩
  · rw [hsnapshots, hcommits, h.snapshots]
    simp
  · rw [hversion', hcommits, hversion, h.version, List.length_append, List.length_singleton]
    rfl
  · intro i d hd
    rw [hcommits] at hd
    rcases Nat.lt_or_ge i a.commits.length with hlt | hge
    · rw [List.getElem?_append_left hlt] at hd
      exact h.commits i d hd
    · rw [List.getElem?_append_right hge] at hd
      obtain ⟨hlt, hget⟩ := List.getElem?_eq_some_iff.mp hd
      have hi : i = a.commits.length := by
        rw [List.length_singleton] at hlt
        omega
      obtain rfl : c = d := by simpa [hi] using hget
      refine ⟨?_, hsnapshot.symm, hpoint.symm⟩
      rw [hsnapshot, hversion, h.version, hi]
      omega

theorem Delivered.commit (h : Delivered a) (c : AmmStateCommit Contents) :
    Delivered (a.commit c a.critical) := by
  obtain ⟨hcommits, hsnapshots, hcritical, _⟩ := commit_fields (a := a) c a.critical
  cases hpermit : a.critical with
  | none =>
    rw [hpermit] at hcommits hsnapshots hcritical
    refine ⟨fun i hi => ?_, fun i s hs => ?_⟩
    · rw [hcritical] at hi
      cases hi
    · rw [hcritical]
      exact (h.follows i s hs).publish hcommits hsnapshots nofun
  | some subscription =>
    rw [hpermit] at hcommits hsnapshots hcritical
    have hlt := h.critical subscription hpermit
    refine ⟨fun i hi => ?_, fun i s hs => ?_⟩
    · rw [hcritical] at hi
      obtain rfl := Option.some.inj hi
      show subscription < (a.subscriptions.modify subscription _).length
      rwa [List.length_modify]
    · rw [hcritical]
      replace hs : (a.subscriptions.modify subscription
        fun s => { s with commits := s.commits ++ [c] })[i]? = some s := hs
      by_cases hi : subscription = i
      · subst hi
        rw [List.getElem?_modify_eq] at hs
        obtain ⟨old, hold, rfl⟩ := Option.map_eq_some_iff.mp hs
        exact (h.follows subscription old hold).take hpermit hcommits hsnapshots
      · rw [List.getElem?_modify_ne _ _ hi] at hs
        exact (h.follows i s hs).publish hcommits hsnapshots fun h => hi (Option.some.inj h)

theorem Inv.commit (h : Inv first a) {c : AmmStateCommit Contents} (hversion : c.changes.version = a.version + 1)
    (hsnapshot : c.snapshot.version = c.changes.version) (hpoint : c.snapshot.point = c.changes.point)
    (hlegal : Legal first a.commits a.revisions a.engine c.changes.poolChanges c.snapshot.revisions) :
    Inv first (a.commit c a.critical) := by
  obtain ⟨hcommits, _, _, hevents, hsequence, _, hrevisions, hengine⟩ := commit_fields (a := a) c a.critical
  refine ⟨?_, h.versioned.commit _ hversion hsnapshot hpoint, h.delivered.commit c, ?_⟩
  · rw [Counted, hevents, hsequence]
    exact h.counted
  · rw [hcommits, hrevisions, hengine]
    exact h.revised.publish hlegal

/-- A new subscription starts at the current snapshot. -/
theorem Inv.subscribe (h : Inv first a) {snapshot : AmmStateSnapshot Contents}
    (hsnapshot : a.snapshots.getLast? = some snapshot) :
    Inv first { a with
      critical := some a.subscriptions.length
      subscriptions := a.subscriptions ++ [AmmChangeSubscription.mk snapshot []] } := by
  refine ⟨h.counted, ⟨h.versioned.snapshots, h.versioned.version, h.versioned.commits⟩, ⟨?_, ?_⟩, h.revised⟩
  · intro i hi
    cases hi
    simp
  · intro i s hs
    replace hs : (a.subscriptions ++ [AmmChangeSubscription.mk snapshot []])[i]? = some s := hs
    rcases Nat.lt_or_ge i a.subscriptions.length with hlt | hge
    · rw [List.getElem?_append_left hlt] at hs
      obtain ⟨before, rest, htaken, hstart, _⟩ := h.delivered.follows i s hs
      exact ⟨before, rest, htaken, hstart, fun hi => absurd (Option.some.inj hi) (by omega)⟩
    · rw [List.getElem?_append_right hge] at hs
      obtain ⟨hlt, hget⟩ := List.getElem?_eq_some_iff.mp hs
      have hi : i - a.subscriptions.length = 0 := by
        rw [List.length_singleton] at hlt
        omega
      obtain rfl : AmmChangeSubscription.mk snapshot [] = s := by simpa [hi] using hget
      refine ⟨a.commits, [], by simp, ?_, fun _ => rfl⟩
      rw [List.getLast?_eq_getElem?, h.versioned.snapshots_length] at hsnapshot
      exact hsnapshot

theorem Inv.dropReceiver (h : Inv first a) : Inv first { a with critical := none } := by
  refine ⟨h.counted, ⟨h.versioned.snapshots, h.versioned.version, h.versioned.commits⟩, ⟨nofun, ?_⟩, h.revised⟩
  intro i s hs
  obtain ⟨before, rest, htaken, hstart, _⟩ := h.delivered.follows i s hs
  exact ⟨before, rest, htaken, hstart, nofun⟩

/-- Changes of the engine, the trust and the interest revision keep the rest. -/
theorem Inv.of_engine {b : AmmRuntimeActor Contents} (h : Inv first a) (hevents : b.events = a.events)
    (hsequence : b.eventSequence = a.eventSequence) (hsnapshots : b.snapshots = a.snapshots)
    (hversion : b.version = a.version) (hcommits : b.commits = a.commits) (hcritical : b.critical = a.critical)
    (hsubscriptions : b.subscriptions = a.subscriptions)
    (hrevised : Revised first b.commits b.revisions b.engine) : Inv first b := by
  refine ⟨?_, ⟨?_, ?_, ?_⟩, ⟨?_, ?_⟩, hrevised⟩
  · rw [Counted, hevents, hsequence]
    exact h.counted
  · rw [hsnapshots, hcommits]
    exact h.versioned.snapshots
  · rw [hversion, hcommits]
    exact h.versioned.version
  · rw [hcommits]
    exact h.versioned.commits
  · rw [hcritical, hsubscriptions]
    exact h.delivered.critical
  · intro i s hs
    rw [hsubscriptions] at hs
    obtain ⟨before, rest, htaken, hstart, hcurrent⟩ := h.delivered.follows i s hs
    exact ⟨before, rest, hcommits.trans htaken, (congrArg (·[before.length]?) hsnapshots).trans hstart,
      fun hi => hcurrent (hcritical.symm.trans hi)⟩

theorem Inv.distrust (h : Inv first a) (health : AmmRuntimeHealth) :
    Inv first { a with trusted := false, health } := h.of_engine rfl rfl rfl rfl rfl rfl rfl h.revised

theorem Inv.loseTrust (h : Inv first a) : Inv first a.loseTrust := by
  have hlost : ∀ {b : AmmRuntimeActor Contents}, Inv first b → ∀ lost, Inv first { b with lost } :=
    fun h _ => h.of_engine rfl rfl rfl rfl rfl rfl rfl h.revised
  unfold AmmRuntimeActor.loseTrust
  split_ifs
  · exact hlost (h.distrust a.health) _
  · exact h.distrust a.health
  · exact hlost ((h.distrust .untrusted).announce 1) _
  · exact (h.distrust .untrusted).announce 1

theorem Inv.remove (h : Inv first a) (keys : List PoolKey) :
    Inv first { a with engine := a.engine.remove keys } :=
  h.of_engine rfl rfl rfl rfl rfl rfl rfl (h.revised.remove keys)

end Deliver

/-! ### Legal commits -/

section LegalCommits
variable {commits : List (AmmStateCommit Contents)} {revisions : PoolRevisionMap} {engine : Generations}

theorem Legal.nil : Legal first commits revisions engine [] revisions where
  nodup := List.nodup_nil
  change := by simp
  listed := by simp
  unlisted _ _ := rfl

/-- The next revision of an active pool. -/
theorem Revised.legalChange (h : Revised first commits revisions engine) {pool : PoolInstanceId} {revision : Nat}
    (hactive : engine.active pool.key = some pool) (hnext : revision = (revisions pool).getD 0 + 1)
    (kind : AmmPoolChangeKind) : LegalChange first commits revisions engine ⟨pool, revision, kind⟩ where
  issued := (h.active hactive).2
  unreserved := by
    rw [show engine.reservations pool.key = none from h.exclusive (by simp [hactive])]
    exact nofun
  grows := .inl ⟨hnext, fun _ hseen => h.tracked hseen hactive⟩

theorem LegalChange.cancelPoolReservation {change : AmmPoolChange}
    (h : LegalChange first commits revisions engine change) (reservation : PoolInstanceId) :
    LegalChange first commits revisions (engine.cancelPoolReservation reservation) change := by
  unfold Generations.cancelPoolReservation
  split_ifs
  · refine ⟨h.issued, fun hreserved => ?_, h.grows⟩
    by_cases hkey : change.pool.key = reservation.key
    · rw [hkey] at hreserved
      cases (Function.update_self _ _ _).symm.trans hreserved
    · exact h.unreserved ((Function.update_of_ne hkey _ _).symm.trans hreserved)
  · exact h

theorem LegalChange.cancelPoolReservations {change : AmmPoolChange}
    (h : LegalChange first commits revisions engine change) (reservations : List PoolInstanceId) :
    LegalChange first commits revisions (engine.cancelPoolReservations reservations) change := by
  induction reservations generalizing engine with
  | nil => exact h
  | cons reservation reservations ih => exact ih (h.cancelPoolReservation reservation)

theorem LegalChange.remove {change : AmmPoolChange} (h : LegalChange first commits revisions engine change)
    (keys : List PoolKey) : LegalChange first commits revisions (engine.remove keys) change :=
  ⟨h.issued, h.unreserved, h.grows⟩

theorem Legal.update {change : AmmPoolChange} (h : LegalChange first commits revisions engine change) :
    Legal first commits revisions engine [change] (Function.update revisions change.pool (some change.revision)) where
  nodup := List.nodup_singleton _
  change other hother := List.mem_singleton.mp hother ▸ h
  listed other hother := by
    obtain rfl := List.mem_singleton.mp hother
    exact .inl (Function.update_self _ _ _)
  unlisted pool hpool := Function.update_of_ne (hpool change (List.mem_singleton_self _)).symm _ _

/-- Removed pools lose their revision. -/
theorem Legal.removed {poolChanges : List AmmPoolChange} {revisions' : PoolRevisionMap}
    (hnodup : (poolChanges.map AmmPoolChange.pool).Nodup)
    (hchange : ∀ change ∈ poolChanges, LegalChange first commits revisions engine change)
    (hinactive : ∀ change ∈ poolChanges, engine.active change.pool.key = none)
    (hlisted : ∀ change ∈ poolChanges, revisions' change.pool = none)
    (hunlisted : ∀ pool, (∀ change ∈ poolChanges, change.pool ≠ pool) → revisions' pool = revisions pool) :
    Legal first commits revisions engine poolChanges revisions' where
  nodup := hnodup
  change := hchange
  listed change hin := .inr ⟨hlisted change hin, by simp [hinactive change hin]⟩
  unlisted := hunlisted

/-- Installed pools start at revision zero. -/
theorem Legal.installed {instances : List PoolInstanceId} (hnodup : (instances.map PoolInstanceId.key).Nodup)
    (hinstalled : ∀ pool ∈ instances, engine.Issued pool ∧ engine.reservations pool.key = none ∧
      ∀ r, ¬ Seen first commits pool r) :
    Legal first commits revisions engine (instances.map fun pool => ⟨pool, 0, .added⟩)
      (fun pool => if pool ∈ instances then some 0 else revisions pool) where
  nodup := by
    rw [List.map_map, show AmmPoolChange.pool ∘ (fun pool => ⟨pool, 0, .added⟩) = id from rfl, List.map_id]
    exact List.Nodup.of_map _ hnodup
  change change hchange := by
    obtain ⟨pool, hpool, rfl⟩ := List.mem_map.mp hchange
    obtain ⟨hissued, hreserved, hunseen⟩ := hinstalled pool hpool
    exact ⟨hissued, by simp [hreserved], .inr hunseen⟩
  listed change hchange := by
    obtain ⟨pool, hpool, rfl⟩ := List.mem_map.mp hchange
    exact .inl (if_pos hpool)
  unlisted pool hpool := by
    refine if_neg fun hin => ?_
    exact hpool _ (List.mem_map_of_mem (f := fun pool => AmmPoolChange.mk pool 0 .added) hin) rfl

/-- The reported changes take the next revision of each active pool. -/
theorem reportedRevisions_spec {reported : List (PoolKey × AmmPoolChangeKind)} {revisions' : PoolRevisionMap}
    {poolChanges : List AmmPoolChange} (h : reportedRevisions engine revisions reported = .ok (revisions', poolChanges))
    (hkeys : ∀ key pool, engine.active key = some pool → pool.key = key)
    (hnodup : (poolChanges.map AmmPoolChange.pool).Nodup) :
    (∀ change ∈ poolChanges, engine.active change.pool.key = some change.pool ∧
      change.revision = (revisions change.pool).getD 0 + 1 ∧ revisions' change.pool = some change.revision) ∧
    ∀ pool, (∀ change ∈ poolChanges, change.pool ≠ pool) → revisions' pool = revisions pool := by
  induction reported generalizing revisions poolChanges with
  | nil =>
    cases h
    exact ⟨by simp, fun _ _ => rfl⟩
  | cons head rest ih =>
    obtain ⟨key, kind⟩ := head
    rw [reportedRevisions] at h
    obtain ⟨pool, hpool, h⟩ := Checked.bind_eq_ok.mp h
    obtain ⟨revision, hrevision, h⟩ := Checked.bind_eq_ok.mp h
    obtain ⟨⟨revisions'', changes⟩, hrest, h⟩ := Checked.bind_eq_ok.mp h
    cases h
    have hactive := Checked.orError_eq_ok.mp hpool
    obtain rfl := hkeys key pool hactive
    have hnext : revision = (revisions pool).getD 0 + 1 := by
      rw [PoolRevisionMap.next] at hrevision
      split_ifs at hrevision
      cases hrevision
      rfl
    rw [List.map_cons, List.nodup_cons] at hnodup
    obtain ⟨hnew, hold⟩ := ih hrest hnodup.2
    have hne : ∀ change ∈ changes, change.pool ≠ pool := fun change hchange heq =>
      hnodup.1 (List.mem_map.mpr ⟨change, hchange, heq⟩)
    refine ⟨fun change hchange => ?_, fun other hother => ?_⟩
    · rcases List.mem_cons.mp hchange with rfl | hchange
      · exact ⟨hactive, hnext, (hold pool hne).trans (Function.update_self _ _ _)⟩
      · obtain ⟨hchangeActive, hchangeNext, hlisted⟩ := hnew change hchange
        rw [Function.update_of_ne (hne change hchange)] at hchangeNext
        exact ⟨hchangeActive, hchangeNext, hlisted⟩
    · have hpool := hother _ (List.mem_cons_self ..)
      refine (hold other fun change hchange => hother change (List.mem_cons_of_mem _ hchange)).trans ?_
      exact Function.update_of_ne hpool.symm _ _

theorem Revised.legal_reported (h : Revised first commits revisions engine)
    {reported : List (PoolKey × AmmPoolChangeKind)} {revisions' : PoolRevisionMap} {poolChanges : List AmmPoolChange}
    (hreported : reportedRevisions engine revisions reported = .ok (revisions', poolChanges))
    (hnodup : (poolChanges.map AmmPoolChange.pool).Nodup) :
    Legal first commits revisions engine poolChanges revisions' := by
  obtain ⟨hlisted, hunlisted⟩ := reportedRevisions_spec hreported (fun key pool hpool => (h.active hpool).1) hnodup
  refine ⟨hnodup, fun change hchange => ?_, fun change hchange => .inl (hlisted change hchange).2.2, hunlisted⟩
  exact h.legalChange (hlisted change hchange).1 (hlisted change hchange).2.1 change.kind

end LegalCommits

end AmmState.Changes
