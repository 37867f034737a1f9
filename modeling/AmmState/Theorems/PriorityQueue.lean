import Mathlib.Order.Basic
import Mathlib.Tactic.Common
import AmmState.PriorityQueue

/-! Waiting times in the priority queue: a class that always has a job is served after boundedly many pops, where the
    bound grows with the number of pops that find another highest class than the pop before. -/

namespace AmmState

inductive QueueOp (T : Type)
  | push (cls : AmmWorkClass) (job : T)
  | pop

namespace PriorityQueue
variable {T : Type}

/-! ### Runs of the queue -/

def apply (q : PriorityQueue T) : QueueOp T → PriorityQueue T
  | .push cls job => q.push cls job
  | .pop => q.pop.2

def applyAll (q : PriorityQueue T) (ops : List (QueueOp T)) : PriorityQueue T := ops.foldl apply q

/-- The class that the next pop takes a job of. -/
def served (q : PriorityQueue T) : Option AmmWorkClass := q.highest.map fun highest => (q.select highest).1

def pops : List (QueueOp T) → Nat
  | [] => 0
  | .push _ _ :: ops => pops ops
  | .pop :: ops => pops ops + 1

/-- A class has a job at each pop. -/
def stays (cls : AmmWorkClass) : PriorityQueue T → List (QueueOp T) → Bool
  | _, [] => true
  | q, .push c job :: ops => stays cls (q.push c job) ops
  | q, .pop :: ops => !(q.byClass cls).isEmpty && stays cls q.pop.2 ops

/-- Some pop serves a class. -/
def serves (cls : AmmWorkClass) : PriorityQueue T → List (QueueOp T) → Bool
  | _, [] => false
  | q, .push c job :: ops => serves cls (q.push c job) ops
  | q, .pop :: ops => q.served = some cls || serves cls q.pop.2 ops

/-- The class that the next pop serves in its own turn; nothing if it passes the highest class over. -/
def granted (q : PriorityQueue T) : Option AmmWorkClass := if q.served = q.highest then q.highest else none

/-- The number of pops that find another highest class than `last`, which the pop before granted its turn. A pop after
    one that passed its highest class over and a pop whose highest class is `cls` itself do not count. -/
def changes (cls : AmmWorkClass) : Option AmmWorkClass → PriorityQueue T → List (QueueOp T) → Nat
  | _, _, [] => 0
  | last, q, .push c job :: ops => changes cls last (q.push c job) ops
  | last, q, .pop :: ops =>
    (if last = none ∨ q.highest = last ∨ q.highest = some cls then 0 else 1) + changes cls q.granted q.pop.2 ops

/-! ### The selection -/

/-- A search in priority order finds a class at or above any that qualifies. -/
theorem find?_all {p : AmmWorkClass → Bool} {c : AmmWorkClass} (hc : p c = true) :
    ∃ d, AmmWorkClass.all.find? p = some d ∧ p d = true ∧ d.rank ≤ c.rank := by
  have hfind : ∀ {l : List AmmWorkClass}, l.Pairwise (·.rank < ·.rank) → c ∈ l →
      ∃ d, l.find? p = some d ∧ p d = true ∧ d.rank ≤ c.rank := by
    intro l
    induction l with
    | nil => exact fun _ h => absurd h List.not_mem_nil
    | cons d rest ih =>
      intro hl hmem
      obtain ⟨hd, hrest⟩ := List.pairwise_cons.mp hl
      by_cases hp : p d = true
      · refine ⟨d, List.find?_cons_of_pos hp, hp, ?_⟩
        rcases List.mem_cons.mp hmem with rfl | h
        · exact Nat.le_refl _
        · exact Nat.le_of_lt (hd c h)
      · rw [List.find?_cons_of_neg hp]
        exact ih hrest ((List.mem_cons.mp hmem).resolve_left fun h => hp (h ▸ hc))
  exact hfind (by decide) (AmmWorkClass.mem_all c)

theorem highest_of_waiting {q : PriorityQueue T} {c : AmmWorkClass} (hc : q.byClass c ≠ []) :
    ∃ d, q.highest = some d ∧ d.rank ≤ c.rank := by
  obtain ⟨d, hd, -, hle⟩ := find?_all (p := fun c => !(q.byClass c).isEmpty) (c := c) (by simpa using hc)
  exact ⟨d, hd, hle⟩

theorem firstBelow_of_waiting {q : PriorityQueue T} {bound c : AmmWorkClass} (hc : q.byClass c ≠ [])
    (hbound : bound.rank < c.rank) : ∃ d, q.firstBelow bound = some d ∧ d.rank ≤ c.rank := by
  obtain ⟨d, hd, -, hle⟩ := find?_all (p := fun c => decide (bound.rank < c.rank) && !(q.byClass c).isEmpty) (c := c)
    (by simpa [hbound] using hc)
  exact ⟨d, hd, hle⟩

theorem rank_firstBelow {q : PriorityQueue T} {bound d : AmmWorkClass} (h : q.firstBelow bound = some d) :
    bound.rank < d.rank := by
  have hd := List.find?_some h
  simp only [Bool.and_eq_true, decide_eq_true_eq] at hd
  exact hd.1

/-- The lower class that a search from the aging cursor finds, around to the highest class if need be. -/
def aged (q : PriorityQueue T) (highest : AmmWorkClass) : Option AmmWorkClass :=
  (q.firstBelow ((q.agingCursor.filter fun cursor => decide (highest.rank < cursor.rank)).getD highest)).or
    (q.firstBelow highest)

theorem rank_aged {q : PriorityQueue T} {highest d : AmmWorkClass} (h : q.aged highest = some d) :
    highest.rank < d.rank := by
  rcases Option.or_eq_some_iff.mp h with hd | ⟨-, hd⟩
  · have hlt := rank_firstBelow hd
    cases hcursor : q.agingCursor.filter fun cursor => decide (highest.rank < cursor.rank) with
    | none => simpa [hcursor] using hlt
    | some cursor =>
      have habove := (Option.filter_eq_some_iff.mp hcursor).2
      rw [hcursor, Option.getD_some] at hlt
      exact Nat.lt_trans (by simpa using habove) hlt
  · exact rank_firstBelow hd

/-- The highest class has had its burst. -/
def Exhausted (q : PriorityQueue T) (highest : AmmWorkClass) : Prop :=
  q.lastClass = some highest ∧ PRIORITY_BURST_QUANTA ≤ q.consecutive

theorem select_cases (q : PriorityQueue T) (highest : AmmWorkClass) :
    (∃ d, q.Exhausted highest ∧ q.aged highest = some d ∧ q.select highest = (d, some d)) ∨
    ((q.Exhausted highest → q.aged highest = none) ∧ q.select highest = (highest, q.agingCursor)) := by
  unfold select
  split_ifs with hburst
  · cases haged : q.aged highest with
    | some d =>
      refine .inl ⟨d, hburst, rfl, ?_⟩
      unfold aged at haged
      simp only [haged]
    | none =>
      refine .inr ⟨fun _ => rfl, ?_⟩
      unfold aged at haged
      simp only [haged]
  · exact .inr ⟨fun h => absurd h hburst, rfl⟩

/-- What a pop leaves, apart from the job that it takes. -/
theorem pop_eq {q : PriorityQueue T} {highest : AmmWorkClass} (h : q.highest = some highest) :
    (∀ c, c ≠ (q.select highest).1 → q.pop.2.byClass c = q.byClass c) ∧
    q.pop.2.lastClass = some (q.select highest).1 ∧ q.pop.2.agingCursor = (q.select highest).2 ∧
    q.pop.2.consecutive = if q.lastClass = some (q.select highest).1 then q.consecutive + 1 else 1 := by
  unfold pop
  rw [h]
  simp only []
  cases q.byClass (q.select highest).1 with
  | nil => exact ⟨fun _ _ => rfl, rfl, rfl, rfl⟩
  | cons job rest => exact ⟨fun c hc => if_neg hc, rfl, rfl, rfl⟩

/-! ### The waiting time -/

/-- How many aged selections may come before the search from the cursor reaches a class. -/
def turns (cls : AmmWorkClass) (cursor : Option AmmWorkClass) : Nat :=
  match cursor with
  | none => AmmWorkClass.all.length
  | some cursor => if cursor.rank < cls.rank then cls.rank - cursor.rank
      else AmmWorkClass.all.length + cls.rank - cursor.rank

theorem rank_injective : Function.Injective AmmWorkClass.rank := by
  intro c d h
  cases c <;> cases d <;> first | rfl | exact absurd h (by decide)

theorem rank_lt (c : AmmWorkClass) : c.rank < AmmWorkClass.all.length := by cases c <;> decide

theorem turns_le (cls : AmmWorkClass) (cursor : Option AmmWorkClass) : turns cls cursor ≤ AmmWorkClass.all.length := by
  cases cursor with
  | none => exact Nat.le_refl _
  | some cursor =>
    have := rank_lt cls
    rw [turns]
    split <;> omega

theorem turns_pos (cls : AmmWorkClass) (cursor : Option AmmWorkClass) : 0 < turns cls cursor := by
  cases cursor with
  | none => exact Nat.zero_lt_succ _
  | some cursor =>
    have := rank_lt cursor
    rw [turns]
    split <;> omega

/-- The search moves on towards a waiting class that it does not select. -/
theorem turns_aged {q : PriorityQueue T} {cls highest d : AmmWorkClass} (hwaiting : q.byClass cls ≠ [])
    (hlower : highest.rank < cls.rank) (hd : q.aged highest = some d) (hne : d ≠ cls) :
    turns cls (some d) < turns cls q.agingCursor := by
  have hrank : d.rank ≠ cls.rank := fun h => hne (rank_injective h)
  have hcls := rank_lt cls
  have hdlen := rank_lt d
  obtain ⟨first, hfirst, hfirst_le⟩ := firstBelow_of_waiting hwaiting hlower
  have hfirst_lt := rank_firstBelow hfirst
  unfold aged at hd
  cases hcursor : q.agingCursor with
  | none =>
    rw [hcursor] at hd
    obtain rfl : first = d := by simpa [hfirst] using hd
    rw [turns, turns, if_pos (by omega)]
    omega
  | some cursor =>
    rw [hcursor] at hd
    have hcursor_lt := rank_lt cursor
    by_cases habove : highest.rank < cursor.rank
    · rw [Option.filter_some_pos (by simpa using habove), Option.getD_some] at hd
      by_cases hbefore : cursor.rank < cls.rank
      · -- The class lies between the cursor and the end.
        obtain ⟨next, hnext, hnext_le⟩ := firstBelow_of_waiting hwaiting hbefore
        obtain rfl : next = d := by simpa [hnext] using hd
        have := rank_firstBelow hnext
        simp only [turns, if_pos hbefore, if_pos (show next.rank < cls.rank by omega)]
        omega
      · rcases Option.or_eq_some_iff.mp hd with hnext | ⟨-, hwrap⟩
        · have := rank_firstBelow hnext
          simp only [turns, if_neg hbefore, if_neg (show ¬ d.rank < cls.rank by omega)]
          omega
        · obtain rfl : first = d := Option.some.inj (hfirst.symm.trans hwrap)
          simp only [turns, if_neg hbefore, if_pos (show first.rank < cls.rank by omega)]
          omega
    · rw [Option.filter_some_neg (by simpa using habove), Option.getD_none] at hd
      obtain rfl : first = d := by simpa [hfirst] using hd
      simp only [turns, if_pos (show first.rank < cls.rank by omega), if_pos (show cursor.rank < cls.rank by omega)]
      omega

/-- How many pops with one highest class may come up to the next aged selection. -/
def burstLeft (q : PriorityQueue T) : Option AmmWorkClass → Nat
  | none => PRIORITY_BURST_QUANTA + 1
  | some _ => PRIORITY_BURST_QUANTA + 1 - min q.consecutive PRIORITY_BURST_QUANTA

/-- A bound on the pops up to the one that serves a class, while the highest class stays. -/
def wait (cls : AmmWorkClass) (last : Option AmmWorkClass) (q : PriorityQueue T) : Nat :=
  (PRIORITY_BURST_QUANTA + 1) * (turns cls q.agingCursor - 1) + q.burstLeft last

theorem burstLeft_pos (q : PriorityQueue T) (last : Option AmmWorkClass) : 0 < q.burstLeft last := by
  cases last with
  | none => exact Nat.succ_pos _
  | some _ => simp only [burstLeft]; omega

theorem burstLeft_le (q : PriorityQueue T) (last : Option AmmWorkClass) : q.burstLeft last ≤ PRIORITY_BURST_QUANTA + 1 := by
  cases last with
  | none => exact Nat.le_refl _
  | some _ => exact Nat.sub_le _ _

theorem wait_pos (cls : AmmWorkClass) (last : Option AmmWorkClass) (q : PriorityQueue T) : 0 < wait cls last q :=
  Nat.add_pos_right _ (burstLeft_pos q last)

theorem wait_le (cls : AmmWorkClass) (last : Option AmmWorkClass) (q : PriorityQueue T) :
    wait cls last q ≤ (PRIORITY_BURST_QUANTA + 1) * AmmWorkClass.all.length := by
  have hturns := turns_le cls q.agingCursor
  have hpos := turns_pos cls q.agingCursor
  have hburst := burstLeft_le q last
  calc wait cls last q ≤ (PRIORITY_BURST_QUANTA + 1) * (turns cls q.agingCursor - 1) + (PRIORITY_BURST_QUANTA + 1) :=
        Nat.add_le_add_left hburst _
    _ = (PRIORITY_BURST_QUANTA + 1) * turns cls q.agingCursor := by
        rw [← Nat.mul_succ, Nat.succ_eq_add_one, Nat.sub_add_cancel hpos]
    _ ≤ _ := Nat.mul_le_mul_left _ hturns

/-- The grant that the burst counter counts, while a class waits that was not served last. -/
structure Counting (cls : AmmWorkClass) (last : Option AmmWorkClass) (q : PriorityQueue T) : Prop where
  granted : ∀ highest, last = some highest → q.lastClass = some highest
  passed : q.lastClass ≠ some cls

/-- An aged selection takes a whole burst from the waiting time of a class that it does not select. -/
theorem wait_aged {cls highest d : AmmWorkClass} {last : Option AmmWorkClass} {q : PriorityQueue T}
    (hwaiting : q.byClass cls ≠ []) (hhighest : q.highest = some highest) (hlower : highest.rank < cls.rank)
    (haged : q.aged highest = some d) (hselect : q.select highest = (d, some d)) (hne : d ≠ cls) :
    q.granted = none ∧ wait cls none q.pop.2 < wait cls last q := by
  obtain ⟨-, -, hcursor, -⟩ := pop_eq hhighest
  have hbelow : highest.rank < d.rank := rank_aged haged
  have hd : ¬ some d = some highest := fun h => Nat.lt_irrefl _ (Option.some.inj h ▸ hbelow)
  refine ⟨by rw [granted, served, hhighest, Option.map_some, hselect, if_neg hd], ?_⟩
  have hturns := turns_aged hwaiting hlower haged hne
  have hpos := turns_pos cls (some d)
  calc wait cls none q.pop.2
      = (PRIORITY_BURST_QUANTA + 1) * (turns cls (some d) - 1 + 1) := by
        rw [wait, hcursor, hselect]
        rfl
    _ ≤ (PRIORITY_BURST_QUANTA + 1) * (turns cls q.agingCursor - 1) := Nat.mul_le_mul_left _ (by omega)
    _ < wait cls last q := Nat.lt_add_of_pos_right (burstLeft_pos q last)

/-- A turn of the highest class takes one from the burst that it counts, or begins a new burst. -/
theorem burstLeft_granted {highest : AmmWorkClass} {last : Option AmmWorkClass} {q : PriorityQueue T}
    (hgranted : ∀ c, last = some c → q.lastClass = some c) (hhighest : q.highest = some highest)
    (hfresh : ¬ q.Exhausted highest) (hselect : q.select highest = (highest, q.agingCursor)) :
    q.pop.2.burstLeft (some highest) + 1 ≤
      q.burstLeft last + if last = none ∨ some highest = last then 0 else PRIORITY_BURST_QUANTA := by
  obtain ⟨-, -, -, hconsecutive⟩ := pop_eq hhighest
  have hburst : 0 < PRIORITY_BURST_QUANTA := by decide
  rw [burstLeft, hconsecutive, hselect]
  cases last with
  | none =>
    rw [if_pos (Or.inl rfl), burstLeft]
    split <;> omega
  | some last =>
    rw [hgranted last rfl]
    by_cases heq : some highest = some last
    · obtain rfl := Option.some.inj heq
      have hcount : q.consecutive < PRIORITY_BURST_QUANTA := Nat.lt_of_not_le fun h => hfresh ⟨hgranted _ rfl, h⟩
      rw [if_pos rfl, if_pos (Or.inr rfl), burstLeft]
      omega
    · rw [if_neg fun h => heq h.symm, if_neg fun h => h.elim nofun heq]
      have := burstLeft_pos q (some last)
      omega

/-- After a pop that does not serve a waiting class, the burst counter counts the turn that the pop granted. -/
theorem counting_pop {cls : AmmWorkClass} {q : PriorityQueue T} (hwaiting : q.byClass cls ≠ [])
    (hserved : q.served ≠ some cls) : Counting cls q.granted q.pop.2 := by
  obtain ⟨highest, hhighest, -⟩ := highest_of_waiting hwaiting
  obtain ⟨-, hlast, -, -⟩ := pop_eq hhighest
  have hselected : q.pop.2.lastClass = q.served := by rw [hlast, served, hhighest, Option.map_some]
  refine ⟨fun c hc => ?_, hselected ▸ hserved⟩
  unfold granted at hc
  split at hc
  · rename_i hturn
    rw [hselected, hturn, hc]
  · exact absurd hc (Option.some_ne_none c).symm

/-- A pop that does not serve a waiting class takes one from its waiting time, or starts a new burst because the highest
    class is another one. -/
theorem wait_pop {cls : AmmWorkClass} {last : Option AmmWorkClass} {q : PriorityQueue T}
    (hcounting : Counting cls last q) (hwaiting : q.byClass cls ≠ []) (hserved : q.served ≠ some cls) :
    wait cls q.granted q.pop.2 + 1 ≤ wait cls last q +
      if last = none ∨ q.highest = last ∨ q.highest = some cls then 0 else PRIORITY_BURST_QUANTA := by
  obtain ⟨highest, hhighest, hle⟩ := highest_of_waiting hwaiting
  obtain ⟨-, -, hcursor, -⟩ := pop_eq hhighest
  have hselected : (q.select highest).1 ≠ cls := fun h => hserved (by rw [served, hhighest, Option.map_some, h])
  rcases select_cases q highest with ⟨d, hexhausted, haged, hselect⟩ | ⟨hnone, hselect⟩
  · rw [hselect] at hselected
    have hlower : highest.rank < cls.rank :=
      Nat.lt_of_le_of_ne hle fun h => hcounting.passed (rank_injective h ▸ hexhausted.1)
    obtain ⟨hgranted, hwait⟩ : q.granted = none ∧ wait cls none q.pop.2 < wait cls last q :=
      wait_aged hwaiting hhighest hlower haged hselect hselected
    rw [hgranted]
    exact Nat.le_add_right_of_le hwait
  · rw [hselect] at hcursor hselected
    have hlower : highest.rank < cls.rank := Nat.lt_of_le_of_ne hle fun h => hselected (rank_injective h)
    have hfresh : ¬ q.Exhausted highest := by
      intro hexhausted
      obtain ⟨d, hd, -⟩ := firstBelow_of_waiting hwaiting hlower
      exact Option.some_ne_none d (hd.symm.trans (Option.or_eq_none_iff.mp (hnone hexhausted)).2)
    have hgranted : q.granted = some highest := by
      rw [granted, served, hhighest, Option.map_some, hselect, if_pos rfl]
    have hburst := burstLeft_granted hcounting.granted hhighest hfresh hselect
    have hcls : some highest ≠ some cls := fun h => hselected (Option.some.inj h)
    rw [hgranted, hhighest, wait, wait, hcursor]
    simp only [hcls, or_false]
    omega

/-- A waiting class is served within its waiting time, prolonged by a burst for each change of the highest class. -/
theorem serves_of_wait {cls : AmmWorkClass} {last : Option AmmWorkClass} {q : PriorityQueue T} {ops : List (QueueOp T)}
    (hcounting : Counting cls last q) (hstays : stays cls q ops = true) (hserves : serves cls q ops = false) :
    pops ops < wait cls last q + PRIORITY_BURST_QUANTA * changes cls last q ops := by
  induction ops generalizing last q with
  | nil => exact Nat.add_pos_left (wait_pos cls last q) _
  | cons op ops ih =>
    cases op with
    | push c job => exact ih (q := q.push c job) ⟨hcounting.granted, hcounting.passed⟩ hstays hserves
    | pop =>
      simp only [stays, Bool.and_eq_true, Bool.not_eq_true', List.isEmpty_eq_false_iff] at hstays
      simp only [serves, Bool.or_eq_false_iff, decide_eq_false_iff_not] at hserves
      have hwait := wait_pop hcounting hstays.1 hserves.1
      have hrest := ih (counting_pop hstays.1 hserves.1) hstays.2 hserves.2
      rw [pops, changes, Nat.mul_add]
      split_ifs at hwait ⊢ <;> omega

/-- The longest wait of a class: a burst and an aged selection for every class, after the pop that the wait begins
    with. -/
def MAX_WAIT : Nat := (PRIORITY_BURST_QUANTA + 1) * AmmWorkClass.all.length + 1

/-- A class with a job at each pop is served within boundedly many pops, and within a burst more for each pop that finds
    another highest class than the one that the pop before granted its turn. -/
theorem serves_of_stays (cls : AmmWorkClass) (q : PriorityQueue T) (ops : List (QueueOp T))
    (hstays : stays cls q ops = true) (hpops : MAX_WAIT + PRIORITY_BURST_QUANTA * changes cls none q ops ≤ pops ops) :
    serves cls q ops = true := by
  by_contra hserves
  rw [Bool.not_eq_true] at hserves
  induction ops generalizing q with
  | nil => exact absurd hpops (by simp [pops, MAX_WAIT])
  | cons op ops ih =>
    cases op with
    | push c job => exact ih (q.push c job) hstays hpops hserves
    | pop =>
      simp only [stays, Bool.and_eq_true, Bool.not_eq_true', List.isEmpty_eq_false_iff] at hstays
      simp only [serves, Bool.or_eq_false_iff, decide_eq_false_iff_not] at hserves
      have hrest := serves_of_wait (counting_pop hstays.1 hserves.1) hstays.2 hserves.2
      have hwait := wait_le cls q.granted q.pop.2
      rw [pops, changes, if_pos (Or.inl rfl), Nat.zero_add, MAX_WAIT] at hpops
      omega

/-- Jobs of two classes: the higher one is served eight times out of nine. -/
def twoClasses : List (QueueOp Nat) :=
  List.replicate 60 (.push .canonical 0) ++ List.replicate 10 (.push .deferred 1)

theorem serves_of_stays_twoClasses :
    serves .deferred (new.applyAll twoClasses) (List.replicate MAX_WAIT .pop) = true :=
  serves_of_stays .deferred _ _ (by decide +kernel) (by decide +kernel)

/-! ### Alternating arrivals -/

/-- One job of each of the two highest classes, served as they come. -/
def round : List (QueueOp Unit) := [.push .canonical (), .pop, .push .catchUp (), .pop]

def starved : PriorityQueue Unit := new.applyAll (.push .deferred () :: round)

theorem applyAll_round : starved.applyAll round = starved := by
  have hclasses : (starved.applyAll round).byClass = starved.byClass := by
    funext c
    cases c <;> rfl
  show PriorityQueue.mk _ _ _ _ = PriorityQueue.mk _ _ _ _
  exact congrArg (PriorityQueue.mk · (some .catchUp) 1 none) hclasses

theorem starved_rounds (n : Nat) :
    pops (List.replicate n round).flatten = 2 * n ∧ stays .deferred starved (List.replicate n round).flatten = true ∧
      serves .deferred starved (List.replicate n round).flatten = false := by
  induction n with
  | zero => exact ⟨rfl, rfl, rfl⟩
  | succ n ih =>
    obtain ⟨hpops, hstays, hserves⟩ := ih
    rw [List.replicate_succ, List.flatten_cons]
    refine ⟨?_, ?_, ?_⟩
    · show pops (List.replicate n round).flatten + 1 + 1 = _
      omega
    · show (true && (true && stays .deferred (starved.applyAll round) (List.replicate n round).flatten)) = true
      rw [applyAll_round, hstays]
      rfl
    · show (false || (false || serves .deferred (starved.applyAll round) (List.replicate n round).flatten)) = false
      rw [applyAll_round, hserves]
      rfl

/-- Arrivals that alternate between two higher classes keep a waiting job from ever being served. -/
theorem starved_unbounded : ¬ ∃ bound, ∀ (before window : List (QueueOp Unit)) (cls : AmmWorkClass),
    stays cls (new.applyAll before) window = true → bound ≤ pops window →
      serves cls (new.applyAll before) window = true := by
  rintro ⟨bound, h⟩
  obtain ⟨hpops, hstays, hserves⟩ := starved_rounds bound
  exact Bool.noConfusion (hserves.symm.trans (h (.push .deferred () :: round) _ .deferred hstays (by omega)))

end PriorityQueue
end AmmState
