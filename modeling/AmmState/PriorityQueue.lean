import Mathlib.Data.List.Basic
import Mathlib.Data.List.Perm.Basic

/-! The priority queue of the cold-start worker (`cold_start_scheduler.rs`): one FIFO queue for each service class,
    strict priority between classes, and a bounded burst after which a waiting lower class is served. -/

namespace AmmState

/-- Scheduler service classes, highest priority first. -/
inductive AmmWorkClass
  | canonical | catchUp | repair | focused | bootstrap | deferred
  deriving DecidableEq, Repr

namespace AmmWorkClass

def all : List AmmWorkClass := [canonical, catchUp, repair, focused, bootstrap, deferred]

/-- The position in the derived order. -/
def rank : AmmWorkClass → Nat
  | canonical => 0
  | catchUp => 1
  | repair => 2
  | focused => 3
  | bootstrap => 4
  | deferred => 5

theorem mem_all (c : AmmWorkClass) : c ∈ all := by cases c <;> decide

end AmmWorkClass

/-- Consecutive quanta granted to the highest class while a lower one is waiting. -/
def PRIORITY_BURST_QUANTA : Nat := 8

structure PriorityQueue (T : Type) where
  byClass : AmmWorkClass → List T
  lastClass : Option AmmWorkClass
  consecutive : Nat
  agingCursor : Option AmmWorkClass

namespace PriorityQueue
variable {T : Type}

def new : PriorityQueue T where
  byClass := fun _ => []
  lastClass := none
  consecutive := 0
  agingCursor := none

def push (q : PriorityQueue T) (cls : AmmWorkClass) (job : T) : PriorityQueue T :=
  { q with byClass := fun c => if c = cls then q.byClass c ++ [job] else q.byClass c }

/-- The first class, in priority order, that has a job. -/
def highest (q : PriorityQueue T) : Option AmmWorkClass :=
  AmmWorkClass.all.find? fun c => !(q.byClass c).isEmpty

/-- The first class strictly below `bound` that has a job. -/
def firstBelow (q : PriorityQueue T) (bound : AmmWorkClass) : Option AmmWorkClass :=
  AmmWorkClass.all.find? fun c => decide (bound.rank < c.rank) && !(q.byClass c).isEmpty

/-- The class served next, and the aging cursor it leaves. -/
def select (q : PriorityQueue T) (highest : AmmWorkClass) : AmmWorkClass × Option AmmWorkClass :=
  if q.lastClass = some highest ∧ PRIORITY_BURST_QUANTA ≤ q.consecutive then
    let lowerBound := (q.agingCursor.filter fun cursor => decide (highest.rank < cursor.rank)).getD highest
    match (q.firstBelow lowerBound).or (q.firstBelow highest) with
    | some aged => (aged, some aged)
    | none => (highest, q.agingCursor)
  else (highest, q.agingCursor)

def pop (q : PriorityQueue T) : Option T × PriorityQueue T :=
  match q.highest with
  | none => (none, q)
  | some highest =>
    let (selected, agingCursor) := q.select highest
    let q := { q with
      agingCursor
      lastClass := some selected
      consecutive := if q.lastClass = some selected then q.consecutive + 1 else 1 }
    match q.byClass selected with
    | [] => (none, q)
    | job :: rest => (some job, { q with byClass := fun c => if c = selected then rest else q.byClass c })

/-- All queued jobs, class by class. -/
def jobs (q : PriorityQueue T) : List T := AmmWorkClass.all.flatMap q.byClass

/-- Remove the first job that satisfies the predicate, searching class by class. -/
def removeWhere (q : PriorityQueue T) (predicate : T → Bool) : Option T × PriorityQueue T :=
  match AmmWorkClass.all.find? fun c => (q.byClass c).any predicate with
  | none => (none, q)
  | some cls =>
    ((q.byClass cls).find? predicate,
      { q with byClass := fun c => if c = cls then (q.byClass c).eraseP predicate else q.byClass c })

/-! ### What the operations do to the jobs -/

/-- One class gets one more job: so does the concatenation of all classes. -/
theorem flatMap_perm_cons {α : Type} {f g : α → List T} {a : α} {x : T} (hg : ∀ b, b ≠ a → g b = f b)
    (ha : (g a).Perm (x :: f a)) : ∀ {l : List α}, l.Nodup → a ∈ l → (l.flatMap g).Perm (x :: l.flatMap f)
  | b :: l, hl, hmem => by
    simp only [List.flatMap_cons]
    obtain ⟨hb, hl⟩ := List.nodup_cons.mp hl
    by_cases hab : b = a
    · subst hab
      have hrest : l.flatMap g = l.flatMap f :=
        List.flatMap_congr fun c hc => hg c fun h => hb (h ▸ hc)
      rw [hrest]
      exact ha.append_right _
    · have hmem' : a ∈ l := (List.mem_cons.mp hmem).resolve_left fun h => hab h.symm
      rw [hg b hab]
      exact ((flatMap_perm_cons hg ha hl hmem').append_left _).trans List.perm_middle

theorem nodup_all : AmmWorkClass.all.Nodup := by decide

theorem jobs_new : (new : PriorityQueue T).jobs = [] := rfl

theorem jobs_push (q : PriorityQueue T) (cls : AmmWorkClass) (job : T) : (q.push cls job).jobs.Perm (job :: q.jobs) :=
  flatMap_perm_cons (a := cls) (fun b hb => by simp [push, hb]) (by simp [push])
    nodup_all (AmmWorkClass.mem_all cls)

theorem jobs_eq_nil_iff {q : PriorityQueue T} : q.jobs = [] ↔ ∀ c, q.byClass c = [] := by
  simp only [jobs, List.flatMap_eq_nil_iff]
  exact ⟨fun h c => h c (AmmWorkClass.mem_all c), fun h c _ => h c⟩

theorem highest_eq_none {q : PriorityQueue T} (h : q.highest = none) : q.jobs = [] := by
  rw [jobs_eq_nil_iff]
  intro c
  have := List.find?_eq_none.mp h c (AmmWorkClass.mem_all c)
  simpa using this

theorem highest_ne_nil {q : PriorityQueue T} {c : AmmWorkClass} (h : q.highest = some c) : q.byClass c ≠ [] := by
  have := List.find?_some h
  simpa using this

/-- The class chosen for service has a job. -/
theorem select_ne_nil {q : PriorityQueue T} {c : AmmWorkClass} (h : q.byClass c ≠ []) : q.byClass (q.select c).1 ≠ [] := by
  have below : ∀ {bound d}, q.firstBelow bound = some d → q.byClass d ≠ [] := fun hd => by
    have := List.find?_some hd
    simp only [Bool.and_eq_true] at this
    simpa using this.2
  unfold select
  split_ifs
  · simp only []
    split
    · rename_i aged ha
      rcases Option.or_eq_some_iff.mp ha with ha | ⟨-, ha⟩
      · exact below ha
      · exact below ha
    · exact h
  · exact h

/-- A pop takes one job out, unless there is none. -/
theorem pop_cases (q : PriorityQueue T) :
    (q.pop = (none, q) ∧ q.jobs = []) ∨ ∃ job q', q.pop = (some job, q') ∧ q.jobs.Perm (job :: q'.jobs) := by
  unfold pop
  cases hh : q.highest with
  | none => exact Or.inl ⟨rfl, highest_eq_none hh⟩
  | some c =>
    simp only []
    cases hs : q.byClass (q.select c).1 with
    | nil => exact absurd hs (select_ne_nil (highest_ne_nil hh))
    | cons job rest =>
      refine Or.inr ⟨job, _, rfl, ?_⟩
      refine flatMap_perm_cons (a := (q.select c).1) (fun b hb => ?_) ?_ nodup_all (AmmWorkClass.mem_all _)
      · simp [hb]
      · simp [hs]

/-- A removal takes one matching job out, unless none matches. -/
theorem removeWhere_cases (q : PriorityQueue T) (predicate : T → Bool) :
    ((q.removeWhere predicate).1 = none ∧ (q.removeWhere predicate).2 = q ∧ ∀ job ∈ q.jobs, predicate job = false) ∨
      ∃ job, (q.removeWhere predicate).1 = some job ∧ predicate job = true ∧
        q.jobs.Perm (job :: (q.removeWhere predicate).2.jobs) := by
  unfold removeWhere
  split
  · rename_i hnone
    refine Or.inl ⟨rfl, rfl, fun job hjob => ?_⟩
    obtain ⟨c, hc, hjob⟩ := List.mem_flatMap.mp hjob
    have := List.find?_eq_none.mp hnone c hc
    simp only [List.any_eq_true, not_exists, not_and, Bool.not_eq_true] at this
    exact this job hjob
  · rename_i cls hc
    have hany := List.find?_some hc
    obtain ⟨x, hx, hpx⟩ := List.any_eq_true.mp hany
    obtain ⟨job, l₁, l₂, hnone, hjob, hl, herase⟩ := List.exists_of_eraseP hx hpx
    have hfind : (q.byClass cls).find? predicate = some job :=
      List.find?_eq_some_iff_append.mpr ⟨hjob, l₁, l₂, hl, fun b hb => by simpa using hnone b hb⟩
    refine Or.inr ⟨job, hfind, hjob, ?_⟩
    refine flatMap_perm_cons (a := cls) (fun b hb => by simp [hb]) ?_ nodup_all (AmmWorkClass.mem_all cls)
    simp only [ite_true]
    rw [herase, hl]
    exact List.perm_middle

end PriorityQueue
end AmmState
