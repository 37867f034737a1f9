import AmmState.Scheduler
import Mathlib.Data.List.Perm.Basic
import Mathlib.Data.List.Count
import Mathlib.Data.List.Nodup

/-! Admission accounting of the cold-start worker. Each reservation has one place that holds it until it is released:
    a submission, the channel, the queue, a lease of a child that is still held, or the hand of the worker task. The
    counter is the number of held reservations in every reachable state. -/

namespace AmmState.Scheduler
open State

/-! ### Where reservations are held -/

/-- The lease the worker task has in hand. -/
def Hand.leases : Hand → List Nat
  | Hand.lease l => [l]
  | _ => []

/-- The reservations of the command the worker task has in hand. -/
def Hand.reservations : Hand → List Nat
  | .command a => a.reservations
  | _ => []

namespace State

/-- The leases of the children, released or not. -/
def leases (s : State) : List Nat := s.children.map (·.accepted.admission)

/-- The reservations of submissions, the channel and the queue: none of them is released yet. -/
def waiting (s : State) : List Nat :=
  s.submitting.flatMap (·.admitted.reservations) ++ s.channel.flatMap (·.reservations) ++
    s.queued.jobs.map (·.admission)

/-- All reservations that are taken and not released, with reservations `R` and leases `T` in transit. -/
def holding (R T : List Nat) (s : State) : List Nat := R ++ s.waiting ++ (T ++ s.leases).filter s.held

/-- All reservations that are taken and not released. -/
def holders (s : State) : List Nat := s.holding s.hand.reservations s.hand.leases

end State

/-! ### The invariant -/

/-- The accounts and the tables of the worker while it moves reservations `R` and leases `T`: every reservation is
    held in one place or was released once, and the counter counts the held ones. -/
structure Inv (cfg : Config) (R T : List Nat) (s : State) : Prop where
  total : (s.holding R T ++ s.released).Perm (List.range s.admitted)
  count : s.acceptedJobs = (s.holding R T).length
  bound : s.acceptedJobs ≤ cfg.queueCapacity
  queueHeld : ∀ job ∈ s.queued.jobs, s.held job.admission = true
  leases : (T ++ s.leases).Nodup
  unheld : ∀ l ∈ T ++ s.leases, s.held l = false → l ∈ s.released
  ids : (s.children.map (·.id)).Nodup
  fresh : ∀ c ∈ s.children, c.id < s.nextTask
  inFlight : ∀ c ∈ s.children, s.inFlight.get c.id = some (c.accepted.execution.work, c.accepted.admission)
  abort : ∀ w task l, s.abortByWork.get w = some (task, l) →
    ∃ c ∈ s.children, c.id = task ∧ c.accepted.admission = l ∧ c.accepted.execution.work = w
  cancelledFresh : ∀ task ∈ s.externallyCancelled, task < s.nextTask

/-- Which children still hold their lease: a cancelled one does not, and one that may continue does. -/
structure Live (s : State) : Prop where
  cancelled : ∀ c ∈ s.children, c.id ∈ s.externallyCancelled → s.held c.accepted.admission = false
  live : ∀ c ∈ s.children, (c.status = .running ∨ ∃ next, c.status = .continued next) →
    c.id ∉ s.externallyCancelled → s.held c.accepted.admission = true

theorem fetchSub_eq {n k : Nat} (hk : k ≤ n) (hn : n < 2 ^ 64) : fetchSub n k = n - k := by
  unfold fetchSub
  rw [Nat.mod_eq_of_lt (by omega : k < 2 ^ 64)]
  omega

/-- Releasing one of the leases leaves the others. -/
theorem filter_release {held : Nat → Bool} {l : Nat} :
    ∀ {ls : List Nat}, ls.Nodup → l ∈ ls → held l = true →
      (ls.filter held).Perm (l :: ls.filter (Function.update held l false))
  | m :: ls, hn, hl, hh => by
    obtain ⟨hm, hn⟩ := List.nodup_cons.mp hn
    by_cases hlm : m = l
    · subst hlm
      have hrest : ls.filter (Function.update held m false) = ls.filter held :=
        List.filter_congr fun x hx => Function.update_of_ne (fun h => hm (by rwa [h] at hx)) _ _
      simp [hh, hrest]
    · have hl' : l ∈ ls := (List.mem_cons.mp hl).resolve_left fun h => hlm h.symm
      have ih := filter_release hn hl' hh
      rw [List.filter_cons, List.filter_cons, Function.update_of_ne hlm]
      split_ifs
      · exact (ih.cons m).trans (List.Perm.swap l m _)
      · exact ih

theorem filter_update_of_notMem {held : Nat → Bool} {l : Nat} {b : Bool} {ls : List Nat} (h : l ∉ ls) :
    ls.filter (Function.update held l b) = ls.filter held :=
  List.filter_congr fun x hx => Function.update_of_ne (fun hxl => h (by rwa [hxl] at hx)) _ _

namespace Inv
variable {cfg : Config} {R T : List Nat} {s : State}

theorem nodup (h : Inv cfg R T s) : (s.holding R T ++ s.released).Nodup := h.total.nodup_iff.mpr List.nodup_range

theorem not_released (h : Inv cfg R T s) {l : Nat} (hl : l ∈ s.holding R T) : l ∉ s.released := fun hr =>
  (List.nodup_append.mp h.nodup).2.2 l hl l hr rfl

theorem lt_capacity (h : Inv cfg R T s) : s.acceptedJobs < 2 ^ 64 := Nat.lt_of_le_of_lt h.bound cfg.capacity_lt

/-- The control state of the loop is not part of the accounts. -/
theorem control (h : Inv cfg R T s) (shutdown senders closed : Bool) (hand : Hand) (phase : Phase) :
    Inv cfg R T { s with shutdown, senders, closed, hand, phase } :=
  ⟨h.total, h.count, h.bound, h.queueHeld, h.leases, h.unheld, h.ids, h.fresh, h.inFlight, h.abort, h.cancelledFresh⟩

/-- Moving reservations between submissions, the channel and the transit changes no account. -/
theorem move {R' : List Nat} (h : Inv cfg R T s) (submitting : List Submission) (channel : List Admitted)
    (hp : (R' ++ (submitting.flatMap (·.admitted.reservations) ++ channel.flatMap (·.reservations))).Perm
      (R ++ (s.submitting.flatMap (·.admitted.reservations) ++ s.channel.flatMap (·.reservations)))) :
    Inv cfg R' T { s with submitting, channel } := by
  have hh : (holding R' T { s with submitting, channel }).Perm (s.holding R T) := by
    simp only [holding, waiting, ← List.append_assoc] at hp ⊢
    exact (hp.append_right _).append_right _
  exact ⟨(hh.append_right _).trans h.total, by rw [hh.length_eq]; exact h.count, h.bound, h.queueHeld, h.leases,
    h.unheld, h.ids, h.fresh, h.inFlight, h.abort, h.cancelledFresh⟩

/-- Reservations in transit that were never leased go back. -/
theorem rollBack {a : Admitted} (h : Inv cfg (a.reservations ++ R) T s)
    (ha : a.reservations.length = a.command.jobCount) : Inv cfg R T (s.rollBack a) := by
  have hh : s.holding (a.reservations ++ R) T = a.reservations ++ s.holding R T := by
    simp [holding]
  have hc := h.count
  rw [hh, List.length_append] at hc
  have hsub : fetchSub s.acceptedJobs a.command.jobCount = (s.holding R T).length := by
    rw [fetchSub_eq (by omega) h.lt_capacity]
    omega
  refine ⟨?_, hsub, ?_, h.queueHeld, h.leases, fun l hl hu => List.mem_append_right _ (h.unheld l hl hu), h.ids, h.fresh,
    h.inFlight, h.abort, h.cancelledFresh⟩
  · refine List.Perm.trans ?_ h.total
    rw [hh]
    show (s.holding R T ++ (a.reservations ++ s.released)).Perm _
    rw [← List.append_assoc]
    exact List.perm_append_comm.append_right _
  · have := h.bound
    show fetchSub s.acceptedJobs a.command.jobCount ≤ _
    omega

/-- A reservation in transit that is not leased yet. -/
theorem not_leased {l : Nat} (h : Inv cfg (l :: R) T s) : l ∉ T ++ s.leases := by
  intro hmem
  by_cases hu : s.held l = true
  · have hnd := (List.nodup_append.mp h.nodup).1
    rw [holding, List.append_assoc, List.cons_append, List.nodup_cons] at hnd
    exact hnd.1 (by simp [List.mem_filter, hu, List.mem_append.mp hmem])
  · exact h.not_released (by simp [holding]) (h.unheld l hmem (by simpa using hu))

/-- A reservation in transit becomes a lease in the queue. -/
theorem enqueue {l : Nat} (h : Inv cfg (l :: R) T s) (e : ColdStartExecution) : Inv cfg R T (s.enqueue (e, l)) := by
  have hnl : l ∉ T ++ s.leases := h.not_leased
  have hq := PriorityQueue.jobs_push s.queued e.cls ⟨e, l⟩
  have hh : (holding R T (s.enqueue (e, l))).Perm (s.holding (l :: R) T) := by
    rw [List.perm_iff_count]
    intro x
    have hx := (hq.map (·.admission)).count_eq x
    have hf : (T ++ s.leases).filter (Function.update s.held l true) = (T ++ s.leases).filter s.held :=
      filter_update_of_notMem hnl
    simp only [holding, waiting, State.enqueue, State.leases, List.count_append, List.count_cons,
      List.map_cons] at hf hx ⊢
    rw [hf]
    omega
  refine ⟨(hh.append_right _).trans h.total, by rw [hh.length_eq]; exact h.count, h.bound, ?_, h.leases, ?_, h.ids,
    h.fresh, h.inFlight, h.abort, h.cancelledFresh⟩
  · intro job hjob
    rcases List.mem_cons.mp (hq.mem_iff.mp hjob) with rfl | hjob
    · exact Function.update_self ..
    · show Function.update s.held l true job.admission = true
      by_cases hjl : job.admission = l
      · rw [hjl, Function.update_self]
      · rw [Function.update_of_ne hjl]
        exact h.queueHeld job hjob
  · intro m hm hu
    have hml : m ≠ l := fun hml => hnl (hml ▸ hm)
    rw [show (s.enqueue (e, l)).held m = s.held m from Function.update_of_ne hml _ _] at hu
    exact h.unheld m hm hu

theorem foldl_enqueue {es : List ColdStartExecution} {ls : List Nat} (h : Inv cfg (ls ++ R) T s)
    (hlen : es.length = ls.length) : Inv cfg R T ((es.zip ls).foldl State.enqueue s) := by
  induction es generalizing ls s with
  | nil =>
    obtain rfl := List.length_eq_zero_iff.mp hlen.symm
    exact h
  | cons e es ih =>
    obtain ⟨l, ls, rfl⟩ := List.exists_cons_of_length_eq_add_one hlen.symm
    rw [List.zip_cons_cons, List.foldl_cons]
    exact ih (h.enqueue e) (by simpa using hlen)

/-- A queued job that is taken out holds its lease. -/
theorem takeQueue {job : AcceptedExecution} {queued : PriorityQueue AcceptedExecution} (h : Inv cfg R T s)
    (hq : s.queued.jobs.Perm (job :: queued.jobs)) : Inv cfg R (job.admission :: T) { s with queued } := by
  have hheld : s.held job.admission = true := h.queueHeld job (hq.mem_iff.mpr List.mem_cons_self)
  have hh : (holding R (job.admission :: T) { s with queued }).Perm (s.holding R T) := by
    rw [List.perm_iff_count]
    intro x
    have hx := (hq.map (·.admission)).count_eq x
    simp only [holding, waiting, State.leases, List.count_append, List.count_cons, List.map_cons, List.cons_append,
      List.filter_cons, hheld, ite_true] at hx ⊢
    omega
  have hnd : (holding R (job.admission :: T) { s with queued }).Nodup :=
    hh.nodup_iff.mpr (List.nodup_append.mp h.nodup).1
  have hnr : job.admission ∉ s.released := h.not_released (hh.mem_iff.mp (by simp [holding, hheld]))
  refine ⟨(hh.append_right _).trans h.total, by rw [hh.length_eq]; exact h.count, h.bound,
    fun j hj => h.queueHeld j (hq.mem_iff.mpr (List.mem_cons_of_mem _ hj)), ?_, ?_, h.ids, h.fresh, h.inFlight, h.abort,
    h.cancelledFresh⟩
  · refine List.nodup_cons.mpr ⟨fun hmem => ?_, h.leases⟩
    have hf := (List.nodup_append.mp hnd).2.1
    rw [List.cons_append, List.filter_cons, if_pos hheld, List.nodup_cons] at hf
    exact hf.1 (List.mem_filter.mpr ⟨hmem, hheld⟩)
  · intro l hl hu
    rcases List.mem_cons.mp hl with rfl | hl
    · exact absurd hheld (by simp [show s.held job.admission = false from hu])
    · exact h.unheld l hl hu

/-- Releasing a lease gives its reservation back, if it still holds one. -/
theorem release {l : Nat} (h : Inv cfg R T s) (hl : l ∈ T ++ s.leases) : Inv cfg R T (s.release l) := by
  by_cases hheld : s.held l = true
  · have hr : s.release l = { s with
        held := Function.update s.held l false
        acceptedJobs := fetchSub s.acceptedJobs 1
        released := l :: s.released } := if_pos hheld
    have hf := filter_release h.leases hl hheld
    have hh : (s.holding R T).Perm (l :: holding R T (s.release l)) := by
      rw [List.perm_iff_count]
      intro x
      have hx := hf.count_eq x
      simp only [holding, waiting, State.release, hheld, ite_true, State.leases, List.count_append,
        List.count_cons] at hx ⊢
      omega
    have hlen := hh.length_eq
    rw [← h.count, List.length_cons] at hlen
    have hc : (s.release l).acceptedJobs = s.acceptedJobs - 1 := by
      rw [← fetchSub_eq (by omega) h.lt_capacity, hr]
    have hq : ∀ job ∈ s.queued.jobs, job.admission ≠ l := fun job hjob heq => by
      have hnd := (List.nodup_append.mp h.nodup).1
      refine (List.nodup_append.mp hnd).2.2 l ?_ l (List.mem_filter.mpr ⟨hl, hheld⟩) rfl
      exact List.mem_append_right _ (List.mem_append_right _ (heq ▸ List.mem_map_of_mem hjob))
    have hcount : (s.release l).acceptedJobs = (holding R T (s.release l)).length := by omega
    have hbound : (s.release l).acceptedJobs ≤ cfg.queueCapacity := by
      have := h.bound
      omega
    have hls : (s.release l).leases = s.leases := by
      rw [hr]
      unfold State.leases
      rfl
    rw [hr] at hh hcount hbound hls ⊢
    refine ⟨?_, hcount, hbound, ?_, by rw [hls]; exact h.leases, ?_, h.ids, h.fresh, h.inFlight, h.abort, h.cancelledFresh⟩
    · exact (List.perm_middle.trans (hh.symm.append_right _)).trans h.total
    · intro job hjob
      show Function.update s.held l false job.admission = true
      rw [Function.update_of_ne (hq job hjob)]
      exact h.queueHeld job hjob
    · intro m hm hu
      rw [hls] at hm
      by_cases hml : m = l
      · exact hml ▸ List.mem_cons_self
      · have hu' : s.held m = false := (Function.update_of_ne hml _ _).symm.trans hu
        exact List.mem_cons_of_mem _ (h.unheld m hm hu')
  · rwa [show s.release l = s by simp [State.release, hheld]]

/-- A released lease needs no holder. -/
theorem dropUnheld {l : Nat} (h : Inv cfg R (l :: T) s) (hl : s.held l = false) : Inv cfg R T s := by
  have hh : s.holding R (l :: T) = s.holding R T := by simp [holding, hl]
  exact ⟨hh ▸ h.total, hh ▸ h.count, h.bound, h.queueHeld, (List.nodup_cons.mp h.leases).2,
    fun m hm => h.unheld m (List.mem_cons_of_mem _ hm), h.ids, h.fresh, h.inFlight, h.abort, h.cancelledFresh⟩

theorem held_release (s : State) (l : Nat) : (s.release l).held l = false := by
  unfold State.release
  split_ifs with h
  · exact Function.update_self ..
  · simpa using h

/-- Releasing a lease in transit ends its way. -/
theorem releaseTransit {l : Nat} (h : Inv cfg R (l :: T) s) : Inv cfg R T (s.release l) :=
  (h.release List.mem_cons_self).dropUnheld (held_release s l)

/-- A lease in transit goes to a new child. -/
theorem spawn {job : AcceptedExecution} (h : Inv cfg R (job.admission :: T) s) : Inv cfg R T (s.spawn job) := by
  have hls : (s.spawn job).leases = s.leases ++ [job.admission] := by simp [State.leases, State.spawn]
  have hp : (T ++ (s.spawn job).leases).Perm (job.admission :: T ++ s.leases) := by
    rw [hls, ← List.append_assoc]
    exact List.perm_append_comm
  have hh : (holding R T (s.spawn job)).Perm (s.holding R (job.admission :: T)) := (hp.filter _).append_left _
  have hfresh : s.nextTask ∉ s.children.map (·.id) := fun hmem => by
    obtain ⟨c, hc, heq⟩ := List.mem_map.mp hmem
    exact absurd (h.fresh c hc) (by omega)
  refine ⟨(hh.append_right _).trans h.total, by rw [hh.length_eq]; exact h.count, h.bound, h.queueHeld,
    hp.nodup_iff.mpr h.leases, fun l hl => h.unheld l (hp.mem_iff.mp hl), ?_, ?_, ?_, ?_, ?_⟩
  · rw [State.spawn, List.map_append, List.nodup_append]
    refine ⟨h.ids, List.nodup_singleton _, fun a ha b hb heq => hfresh ?_⟩
    obtain rfl : b = s.nextTask := List.mem_singleton.mp hb
    exact heq ▸ ha
  · intro c hc
    rcases List.mem_append.mp hc with hc | hc
    · exact Nat.lt_succ_of_lt (h.fresh c hc)
    · rw [List.mem_singleton.mp hc]
      exact Nat.lt_succ_self _
  · intro c hc
    show (s.inFlight.insert s.nextTask _).get c.id = _
    rcases List.mem_append.mp hc with hc | hc
    · rw [Map.get_insert_of_ne (Nat.ne_of_lt (h.fresh c hc))]
      exact h.inFlight c hc
    · rw [List.mem_singleton.mp hc, Map.get_insert_self]
  · intro w task l hw
    change (s.abortByWork.insert job.execution.work (s.nextTask, job.admission)).get w = _ at hw
    by_cases hwj : w = job.execution.work
    · subst hwj
      rw [Map.get_insert_self] at hw
      cases hw
      exact ⟨_, List.mem_append_right _ List.mem_cons_self, rfl, rfl, rfl⟩
    · rw [Map.get_insert_of_ne hwj] at hw
      obtain ⟨c, hc, hcs⟩ := h.abort w task l hw
      exact ⟨c, List.mem_append_left _ hc, hcs⟩
  · exact fun task ht => Nat.lt_succ_of_lt (h.cancelledFresh task ht)

/-- A joined child leaves its lease in transit. -/
theorem forget {c : Child} (h : Inv cfg R T s) (hc : c ∈ s.children) :
    Inv cfg R (c.accepted.admission :: T) (s.forget c) := by
  have hp : s.children.Perm (c :: (s.forget c).children) := by
    obtain ⟨l₁, l₂, hl⟩ := List.append_of_mem hc
    have hn := h.ids
    rw [hl, List.map_append, List.map_cons, List.nodup_append, List.nodup_cons] at hn
    have h₁ : l₁.filter (fun d => d.id ≠ c.id) = l₁ := List.filter_eq_self.mpr fun d hd => by
      simpa using hn.2.2 _ (List.mem_map_of_mem hd) _ List.mem_cons_self
    have h₂ : l₂.filter (fun d => d.id ≠ c.id) = l₂ := List.filter_eq_self.mpr fun d hd => by
      have : d.id ≠ c.id := fun heq => hn.2.1.1 (heq ▸ List.mem_map_of_mem hd)
      simpa using this
    have : (s.forget c).children = l₁ ++ l₂ := by
      simp only [State.forget, hl, List.filter_append, List.filter_cons, h₁, h₂]
      simp
    rw [this, hl]
    exact List.perm_middle
  have hls : (c.accepted.admission :: T ++ (s.forget c).leases).Perm (T ++ s.leases) := by
    rw [List.cons_append]
    exact List.perm_middle.symm.trans ((hp.symm.map (·.accepted.admission)).append_left _)
  have hh : (holding R (c.accepted.admission :: T) (s.forget c)).Perm (s.holding R T) := (hls.filter _).append_left _
  have hmem : ∀ d ∈ (s.forget c).children, d ∈ s.children ∧ d.id ≠ c.id := fun d hd => by
    simpa using List.mem_filter.mp hd
  refine ⟨(hh.append_right _).trans h.total, by rw [hh.length_eq]; exact h.count, h.bound, h.queueHeld,
    hls.nodup_iff.mpr h.leases, fun l hl => h.unheld l (hls.mem_iff.mp hl),
    h.ids.sublist (List.filter_sublist.map _), fun d hd => h.fresh d (hmem d hd).1, ?_, ?_, ?_⟩
  · intro d hd
    exact (Map.get_remove_of_ne (hmem d hd).2).trans (h.inFlight d (hmem d hd).1)
  · intro w task l hw
    have hw' : (s.abortByWork.remove c.accepted.execution.work).get w = some (task, l) := by
      simpa only [State.forget, h.inFlight c hc] using hw
    obtain ⟨hne, hw'⟩ := Map.get_remove_eq_some.mp hw'
    obtain ⟨d, hd, hid, hl, hdw⟩ := h.abort w task l hw'
    rcases List.mem_cons.mp (hp.mem_iff.mp hd) with rfl | hd
    · exact absurd hdw.symm hne
    · exact ⟨d, hd, hid, hl, hdw⟩
  · exact fun task ht => h.cancelledFresh task (Finset.mem_of_mem_erase ht)

/-- A continuation takes the lease of its task back into the queue. -/
theorem putQueue (job : AcceptedExecution) (h : Inv cfg R (job.admission :: T) s) (cls : AmmWorkClass)
    (hheld : s.held job.admission = true) : Inv cfg R T { s with queued := s.queued.push cls job } := by
  have hq := PriorityQueue.jobs_push s.queued cls job
  have hh : (holding R T { s with queued := s.queued.push cls job }).Perm (s.holding R (job.admission :: T)) := by
    rw [List.perm_iff_count]
    intro x
    have hx := (hq.map (·.admission)).count_eq x
    simp only [holding, waiting, State.leases, List.count_append, List.count_cons, List.map_cons, List.cons_append,
      List.filter_cons, hheld, ite_true] at hx ⊢
    omega
  refine ⟨(hh.append_right _).trans h.total, by rw [hh.length_eq]; exact h.count, h.bound, fun j hj => ?_,
    (List.nodup_cons.mp h.leases).2, fun l hl => h.unheld l (List.mem_cons_of_mem _ hl), h.ids, h.fresh, h.inFlight,
    h.abort, h.cancelledFresh⟩
  rcases List.mem_cons.mp (hq.mem_iff.mp hj) with rfl | hj
  · exact hheld
  · exact h.queueHeld j hj

/-- The status of a child is not part of the accounts. -/
theorem setStatus (h : Inv cfg R T s) (task : Nat) (status : ChildStatus) : Inv cfg R T (s.setStatus task status) := by
  have key : ∀ {α : Type} (f : Child → α), (∀ c : Child, f { c with status } = f c) →
      (s.setStatus task status).children.map f = s.children.map f := fun f hf => by
    rw [State.setStatus, List.map_map]
    refine List.map_congr_left fun c _ => ?_
    simp only [Function.comp]
    split_ifs
    · exact hf c
    · rfl
  have hls : (s.setStatus task status).leases = s.leases := key _ fun _ => rfl
  have hh : holding R T (s.setStatus task status) = s.holding R T := by
    rw [holding, hls]
    rfl
  have back : ∀ c ∈ (s.setStatus task status).children, ∃ d ∈ s.children, d.id = c.id ∧ d.accepted = c.accepted := by
    intro c hc
    obtain ⟨d, hd, rfl⟩ := List.mem_map.mp hc
    refine ⟨d, hd, ?_⟩
    split_ifs <;> exact ⟨rfl, rfl⟩
  refine ⟨hh ▸ h.total, hh ▸ h.count, h.bound, h.queueHeld, hls ▸ h.leases, hls ▸ h.unheld,
    key (·.id) (fun _ => rfl) ▸ h.ids, ?_, ?_, ?_, h.cancelledFresh⟩
  · intro c hc
    obtain ⟨d, hd, hid, -⟩ := back c hc
    exact hid ▸ h.fresh d hd
  · intro c hc
    obtain ⟨d, hd, hid, hacc⟩ := back c hc
    rw [← hid, ← hacc]
    exact h.inFlight d hd
  · intro w t l hw
    obtain ⟨d, hd, hid, hl, hdw⟩ := h.abort w t l hw
    refine ⟨_, List.mem_map_of_mem hd, ?_⟩
    split_ifs <;> exact ⟨hid, hl, hdw⟩

end Inv

theorem held_release_of_ne {s : State} {l m : Nat} (h : m ≠ l) : (s.release l).held m = s.held m := by
  unfold State.release
  split_ifs
  · exact Function.update_of_ne h _ _
  · rfl

theorem children_release (s : State) (l : Nat) : (s.release l).children = s.children := by
  unfold State.release
  split_ifs <;> rfl

theorem externallyCancelled_release (s : State) (l : Nat) :
    (s.release l).externallyCancelled = s.externallyCancelled := by
  unfold State.release
  split_ifs <;> rfl

/-- Two children with one lease are one child. -/
theorem Inv.child_eq {cfg : Config} {R T : List Nat} {s : State} (h : Inv cfg R T s) {c d : Child}
    (hc : c ∈ s.children) (hd : d ∈ s.children) (heq : d.accepted.admission = c.accepted.admission) : d = c :=
  List.inj_on_of_nodup_map (List.nodup_append.mp h.leases).2.1 hd hc heq

theorem Inv.child_eq_of_id {cfg : Config} {R T : List Nat} {s : State} (h : Inv cfg R T s) {c d : Child}
    (hc : c ∈ s.children) (hd : d ∈ s.children) (heq : d.id = c.id) : d = c :=
  List.inj_on_of_nodup_map h.ids hd hc heq

namespace Live
variable {cfg : Config} {R T : List Nat} {s t : State}

theorem congr (h : Live s) (hc : t.children = s.children) (he : t.externallyCancelled = s.externallyCancelled)
    (hh : ∀ c ∈ s.children, t.held c.accepted.admission = s.held c.accepted.admission) : Live t where
  cancelled c hmem hcan := by
    rw [hc] at hmem
    rw [he] at hcan
    rw [hh c hmem]
    exact h.cancelled c hmem hcan
  live c hmem hst hcan := by
    rw [hc] at hmem
    rw [he] at hcan
    rw [hh c hmem]
    exact h.live c hmem hst hcan

theorem release {l : Nat} (h : Live s) (hl : l ∉ s.leases) : Live (s.release l) :=
  h.congr (children_release s l) (externallyCancelled_release s l) fun _ hc =>
    held_release_of_ne fun heq => hl (heq ▸ List.mem_map_of_mem hc)

theorem enqueue {l : Nat} (h : Live s) (hl : l ∉ s.leases) (e : ColdStartExecution) : Live (s.enqueue (e, l)) :=
  h.congr rfl rfl fun c hc =>
    have hne : c.accepted.admission ≠ l := fun heq => hl (heq ▸ List.mem_map_of_mem hc)
    Function.update_of_ne hne _ _

theorem foldl_enqueue {es : List ColdStartExecution} {ls : List Nat} (hi : Inv cfg (ls ++ R) T s) (h : Live s)
    (hlen : es.length = ls.length) : Live ((es.zip ls).foldl State.enqueue s) := by
  induction es generalizing ls s with
  | nil => exact h
  | cons e es ih =>
    obtain ⟨l, ls, rfl⟩ := List.exists_cons_of_length_eq_add_one hlen.symm
    have hl : l ∉ s.leases := fun hmem => hi.not_leased (List.mem_append_right _ hmem)
    rw [List.zip_cons_cons, List.foldl_cons]
    exact ih (hi.enqueue e) (h.enqueue hl e) (by simpa using hlen)

theorem spawn {job : AcceptedExecution} (hi : Inv cfg R T s) (h : Live s) (hheld : s.held job.admission = true) :
    Live (s.spawn job) where
  cancelled c hmem hcan := by
    rcases List.mem_append.mp hmem with hmem | hmem
    · exact h.cancelled c hmem hcan
    · rw [List.mem_singleton.mp hmem] at hcan
      exact absurd (hi.cancelledFresh _ hcan) (lt_irrefl _)
  live c hmem hst hcan := by
    rcases List.mem_append.mp hmem with hmem | hmem
    · exact h.live c hmem hst hcan
    · rw [List.mem_singleton.mp hmem]
      exact hheld

theorem forget {c : Child} (h : Live s) : Live (s.forget c) where
  cancelled d hmem hcan := h.cancelled d (List.mem_of_mem_filter hmem) (Finset.mem_of_mem_erase hcan)
  live d hmem hst hcan := by
    obtain ⟨hmem, hne⟩ := List.mem_filter.mp hmem
    exact h.live d hmem hst fun hin => hcan (Finset.mem_erase.mpr ⟨by simpa using hne, hin⟩)

/-- A new status is fine where it does not claim a lease that the child gave up. -/
theorem setStatus {task : Nat} {status : ChildStatus} (h : Live s)
    (hst : ∀ c ∈ s.children, c.id = task → (status = .running ∨ ∃ next, status = .continued next) →
      c.status = .running) : Live (s.setStatus task status) where
  cancelled c hmem hcan := by
    obtain ⟨d, hd, rfl⟩ := List.mem_map.mp hmem
    by_cases hid : d.id = task
    · rw [if_pos hid] at hcan ⊢
      exact h.cancelled d hd hcan
    · rw [if_neg hid] at hcan ⊢
      exact h.cancelled d hd hcan
  live c hmem hc hcan := by
    obtain ⟨d, hd, rfl⟩ := List.mem_map.mp hmem
    by_cases hid : d.id = task
    · rw [if_pos hid] at hc hcan ⊢
      exact h.live d hd (Or.inl (hst d hd hid hc)) hcan
    · rw [if_neg hid] at hc hcan ⊢
      exact h.live d hd hc hcan

/-- A child releases its lease on the way to its commit. -/
theorem childRelease {c : Child} (hi : Inv cfg R T s) (h : Live s) (hc : c ∈ s.children) :
    Live ((s.release c.accepted.admission).setStatus c.id .committing) := by
  have held : ∀ d ∈ s.children, d.id ≠ c.id →
      (s.release c.accepted.admission).held d.accepted.admission = s.held d.accepted.admission := fun d hd hne =>
    held_release_of_ne fun heq => hne (hi.child_eq hc hd heq ▸ rfl)
  constructor
  · intro d hmem hcan
    obtain ⟨d, hd, rfl⟩ := List.mem_map.mp hmem
    rw [children_release] at hd
    by_cases hid : d.id = c.id
    · rw [if_pos hid, hi.child_eq_of_id hc hd hid]
      exact Inv.held_release s _
    · rw [if_neg hid] at hcan ⊢
      exact (held d hd hid).trans (h.cancelled d hd (externallyCancelled_release s _ ▸ hcan))
  · intro d hmem hst hcan
    obtain ⟨d, hd, rfl⟩ := List.mem_map.mp hmem
    rw [children_release] at hd
    by_cases hid : d.id = c.id
    · rw [if_pos hid] at hst
      rcases hst with hst | ⟨next, hst⟩ <;> cases hst
    · rw [if_neg hid] at hst hcan ⊢
      exact (held d hd hid).trans (h.live d hd hst fun hin => hcan (externallyCancelled_release s _ ▸ hin))

/-- A cancelled child loses its lease. -/
theorem cancelChild {c : Child} {abortByWork : Map RuntimeWorkId (Nat × Nat)} (hi : Inv cfg R T s) (h : Live s)
    (hc : c ∈ s.children) : Live (State.release { s with
      abortByWork, externallyCancelled := insert c.id s.externallyCancelled } c.accepted.admission) := by
  have held : ∀ d ∈ s.children, d.id ≠ c.id → (State.release { s with
      abortByWork, externallyCancelled := insert c.id s.externallyCancelled } c.accepted.admission).held
        d.accepted.admission = s.held d.accepted.admission := fun d hd hne =>
    held_release_of_ne fun heq => hne (hi.child_eq hc hd heq ▸ rfl)
  constructor
  · intro d hd hcan
    rw [children_release] at hd
    rw [externallyCancelled_release] at hcan
    by_cases hid : d.id = c.id
    · rw [hi.child_eq_of_id hc hd hid]
      exact Inv.held_release _ _
    · rw [held d hd hid]
      exact h.cancelled d hd ((Finset.mem_insert.mp hcan).resolve_left hid)
  · intro d hd hst hcan
    rw [children_release] at hd
    rw [externallyCancelled_release] at hcan
    have hid : d.id ≠ c.id := fun hid => hcan (hid ▸ Finset.mem_insert_self _ _)
    rw [held d hd hid]
    exact h.live d hd hst fun hin => hcan (Finset.mem_insert_of_mem hin)

end Live

/-! ### The control state -/

/-- Commands carry one reservation for each of their jobs. -/
structure Commands (s : State) : Prop where
  submitting : ∀ sub ∈ s.submitting, sub.admitted.reservations.length = sub.admitted.command.jobCount
  channel : ∀ a ∈ s.channel, a.reservations.length = a.command.jobCount
  hand : ∀ a, s.hand = .command a → a.reservations.length = a.command.jobCount

/-- What is empty once the worker task has left its loop. -/
structure Phases (s : State) : Prop where
  closed : s.phase = .announce ∨ s.phase = .drainChannel ∨ s.phase = .drainQueue ∨ s.phase = .joining ∨
    s.phase = .stopped → s.closed = true
  channel : s.phase = .drainQueue ∨ s.phase = .joining ∨ s.phase = .stopped → s.channel = []
  queue : s.phase = .joining ∨ s.phase = .stopped → s.queued.jobs = []
  stopped : s.phase = .stopped → s.children = [] ∧ s.hand = .empty

/-- Steps that leave the control state alone. -/
structure Frame (s t : State) : Prop where
  submitting : t.submitting = s.submitting
  channel : t.channel = s.channel
  closed : t.closed = s.closed
  hand : t.hand = s.hand
  phase : t.phase = s.phase

theorem Frame.trans {s t u : State} (h : Frame s t) (k : Frame t u) : Frame s u :=
  ⟨k.submitting.trans h.submitting, k.channel.trans h.channel, k.closed.trans h.closed, k.hand.trans h.hand,
    k.phase.trans h.phase⟩

theorem Frame.release {s t : State} (h : Frame s t) (l : Nat) : Frame s (t.release l) := by
  unfold State.release
  split_ifs
  · exact ⟨h.submitting, h.channel, h.closed, h.hand, h.phase⟩
  · exact h

theorem Frame.foldl_enqueue (jobs : List (ColdStartExecution × Nat)) (s : State) :
    Frame s (jobs.foldl State.enqueue s) := by
  induction jobs generalizing s with
  | nil => exact ⟨rfl, rfl, rfl, rfl, rfl⟩
  | cons job jobs ih =>
    have h : Frame s (s.enqueue job) := ⟨rfl, rfl, rfl, rfl, rfl⟩
    exact h.trans (ih _)

theorem Commands.frame {s t : State} (h : Commands s) (hf : Frame s t) : Commands t :=
  ⟨hf.submitting ▸ h.submitting, hf.channel ▸ h.channel, hf.hand ▸ h.hand⟩

/-- Inside the loop nothing is promised. -/
theorem Phases.of_loop {s : State} (h : s.phase = .top ∨ s.phase = .fold ∨ s.phase = .dispatch ∨ s.phase = .select ∨
    s.phase = .close) : Phases s := by
  rcases h with h | h | h | h | h <;> exact ⟨by simp [h], by simp [h], by simp [h], by simp [h]⟩

/-- What a command does: its reservations become leases, or a cancelled job loses its own. -/
theorem handleWorkerCommand_spec {cfg : Config} {R T : List Nat} {s : State} {a : Admitted}
    (hi : Inv cfg (a.reservations ++ R) T s) (h : Live s) (ha : a.reservations.length = a.command.jobCount) :
    Inv cfg R T (s.handleWorkerCommand a) ∧ Live (s.handleWorkerCommand a) ∧ Frame s (s.handleWorkerCommand a) := by
  have leased : a.command.executions.length = a.reservations.length →
      Inv cfg R T (s.enqueueCommand a) ∧ Live (s.enqueueCommand a) ∧ Frame s (s.enqueueCommand a) := fun hlen =>
    ⟨hi.foldl_enqueue hlen, h.foldl_enqueue hi hlen, Frame.foldl_enqueue _ _⟩
  obtain ⟨command, reservations⟩ := a
  cases command with
  | coldStartBatch jobs => exact leased (by simpa [WorkerCommand.executions, WorkerCommand.jobCount] using ha.symm)
  | discovery job => exact leased (by simpa [WorkerCommand.executions, WorkerCommand.jobCount] using ha.symm)
  | slotPatch job => exact leased (by simpa [WorkerCommand.executions, WorkerCommand.jobCount] using ha.symm)
  | cancel work =>
    obtain rfl : reservations = [] := List.length_eq_zero_iff.mp ha
    rw [List.nil_append] at hi
    have hq := s.queued.removeWhere_cases fun job => decide (job.execution.work = work)
    unfold handleWorkerCommand
    simp only []
    rcases hr : s.queued.removeWhere fun job => decide (job.execution.work = work) with ⟨_ | job, queued⟩
    · simp only []
      cases hab : s.abortByWork.get work with
      | none => exact ⟨hi, h, rfl, rfl, rfl, rfl, rfl⟩
      | some entry =>
        obtain ⟨task, l⟩ := entry
        obtain ⟨c, hc, rfl, rfl, -⟩ := hi.abort work task l hab
        refine ⟨Inv.release ?_ ?_, h.cancelChild hi hc, Frame.release ?_ _⟩
        · refine ⟨hi.total, hi.count, hi.bound, hi.queueHeld, hi.leases, hi.unheld, hi.ids, hi.fresh, hi.inFlight, ?_, ?_⟩
          · intro w task l hw
            exact hi.abort w task l (Map.get_remove_eq_some.mp hw).2
          · intro task ht
            rcases Finset.mem_insert.mp ht with rfl | ht
            · exact hi.fresh c hc
            · exact hi.cancelledFresh task ht
        · exact List.mem_append_right _ (List.mem_map_of_mem hc)
        · exact ⟨rfl, rfl, rfl, rfl, rfl⟩
    · simp only []
      obtain ⟨job', hjob, -, hp⟩ := hq.resolve_left fun hn => by simp [hr] at hn
      rw [hr] at hjob hp
      cases hjob
      have ht := hi.takeQueue hp
      have hl : job.admission ∉ s.leases := fun hmem =>
        (List.nodup_cons.mp ht.leases).1 (List.mem_append_right _ hmem)
      have hlive : Live { s with queued } := h.congr rfl rfl fun _ _ => rfl
      refine ⟨ht.releaseTransit, hlive.release hl, Frame.release ?_ _⟩
      exact ⟨rfl, rfl, rfl, rfl, rfl⟩

/-! ### Reachable states -/

structure Invariant (cfg : Config) (s : State) : Prop where
  inv : Inv cfg s.hand.reservations s.hand.leases s
  live : Live s
  commands : Commands s
  phases : Phases s

theorem invariant_init (cfg : Config) : Invariant cfg init where
  inv := ⟨List.Perm.refl _, rfl, Nat.zero_le _, by simp [init, PriorityQueue.jobs_new], List.nodup_nil, by
    simp [State.leases, init, Hand.leases], by simp [init], by simp [init], by simp [init], by simp [init], by simp [init]⟩
  live := ⟨by simp [init], by simp [init]⟩
  commands := ⟨by simp [init], by simp [init], by simp [init]⟩
  phases := Phases.of_loop (Or.inl rfl)

theorem Phases.congr {s t : State} (h : Phases s) (hp : t.phase = s.phase) (hcl : t.closed = s.closed)
    (hch : t.channel = s.channel) (hq : t.queued = s.queued) (hc : s.children = [] → t.children = [])
    (hh : s.hand = .empty → t.hand = .empty) : Phases t where
  closed := by
    rw [hp, hcl]
    exact h.closed
  channel := by
    rw [hp, hch]
    exact h.channel
  queue := by
    rw [hp, hq]
    exact h.queue
  stopped := by
    rw [hp]
    exact fun hs => ⟨hc (h.stopped hs).1, hh (h.stopped hs).2⟩

/-- The channel stays open as long as the loop runs. -/
theorem Phases.of_open {s t : State} (h : Phases s) (ho : s.closed = false) (hp : t.phase = s.phase) : Phases t := by
  have hn := mt h.closed (by simp [ho])
  rw [← hp] at hn
  push Not at hn
  obtain ⟨ha, hdc, hdq, hj, hs⟩ := hn
  exact ⟨by simp [ha, hdc, hdq, hj, hs], by simp [hdq, hj, hs], by simp [hj, hs], by simp [hs]⟩

theorem queued_release (s : State) (l : Nat) : (s.release l).queued = s.queued := by
  unfold State.release
  split_ifs <;> rfl

/-- The worker task gives back what it holds. -/
theorem Invariant.settle {cfg : Config} {s : State} (h : Inv cfg s.hand.reservations s.hand.leases s) (hl : Live s)
    (hc : Commands s) (hp : Phases s) : Invariant cfg s.settle := by
  unfold State.settle
  cases hh : s.hand with
  | empty => exact ⟨h, hl, hc, hp⟩
  | command a =>
    rw [hh] at h
    have h' : Inv cfg (a.reservations ++ []) [] { s with hand := .empty } := by
      rw [List.append_nil]
      exact h.control _ _ _ _ _
    exact ⟨h'.rollBack (hc.hand a hh), hl.congr rfl rfl fun _ _ => rfl, ⟨hc.submitting, hc.channel, nofun⟩,
      hp.congr rfl rfl rfl rfl id fun _ => rfl⟩
  | lease l =>
    rw [hh] at h
    have h' : Inv cfg [] [l] { s with hand := .empty } := h.control _ _ _ _ _
    have hn : l ∉ s.leases := (List.nodup_cons.mp h.leases).1
    have hl' : Live { s with hand := .empty } := hl.congr rfl rfl fun _ _ => rfl
    have hf : Frame { s with hand := .empty } (State.release { s with hand := .empty } l) :=
      Frame.release ⟨rfl, rfl, rfl, rfl, rfl⟩ l
    have hc' : Commands { s with hand := .empty } := ⟨hc.submitting, hc.channel, nofun⟩
    refine ⟨?_, hl'.release hn, hc'.frame hf, ?_⟩
    · rw [hf.hand]
      exact h'.releaseTransit
    · exact hp.congr hf.phase hf.closed hf.channel (queued_release _ _)
        (fun hnil => (children_release _ _).trans hnil) fun _ => hf.hand

namespace Invariant
variable {cfg : Config} {s t : State}

/-- A client takes capacity under new names. -/
theorem reserve (h : Invariant cfg s) {command : WorkerCommand}
    (hcap : s.acceptedJobs + command.jobCount ≤ cfg.queueCapacity) : Invariant cfg { s with
      acceptedJobs := s.acceptedJobs + command.jobCount
      submitting := s.submitting ++ [⟨⟨command, (List.range command.jobCount).map (s.admitted + ·)⟩, false⟩]
      admitted := s.admitted + command.jobCount } := by
  obtain ⟨hi, hl, hc, hp⟩ := h
  have hh : ∀ R T, (holding R T { s with
      acceptedJobs := s.acceptedJobs + command.jobCount
      submitting := s.submitting ++ [⟨⟨command, (List.range command.jobCount).map (s.admitted + ·)⟩, false⟩]
      admitted := s.admitted + command.jobCount }).Perm
        ((List.range command.jobCount).map (s.admitted + ·) ++ s.holding R T) := fun R T => by
    rw [List.perm_iff_count]
    intro x
    simp only [holding, waiting, State.leases, List.flatMap_append, List.flatMap_cons, List.flatMap_nil,
      List.count_append, List.count_nil]
    omega
  refine ⟨⟨?_, ?_, hcap, hi.queueHeld, hi.leases, hi.unheld, hi.ids, hi.fresh, hi.inFlight, hi.abort, hi.cancelledFresh⟩,
    hl.congr rfl rfl fun _ _ => rfl, ⟨?_, hc.channel, hc.hand⟩, hp.congr rfl rfl rfl rfl id id⟩
  · rw [List.range_add]
    refine ((hh _ _).append_right _).trans ?_
    rw [List.append_assoc]
    exact List.perm_append_comm.trans (hi.total.append_right _)
  · rw [(hh _ _).length_eq, List.length_append, ← hi.count]
    simp [Nat.add_comm]
  · intro sub hsub
    rcases List.mem_append.mp hsub with hsub | hsub
    · exact hc.submitting sub hsub
    · rw [List.mem_singleton.mp hsub]
      simp

theorem getElem_perm {α : Type} {l : List α} {i : Nat} {x : α} (h : l[i]? = some x) : l.Perm (x :: l.eraseIdx i) := by
  obtain ⟨hi, rfl⟩ := List.getElem?_eq_some_iff.mp h
  exact (List.getElem_cons_eraseIdx_perm hi).symm

/-- A pending submission leaves with its reservations. -/
theorem takeSubmission {i : Nat} {sub : Submission} (h : Invariant cfg s) (hs : s.submitting[i]? = some sub) :
    Inv cfg (sub.admitted.reservations ++ s.hand.reservations) s.hand.leases
      { s with submitting := s.submitting.eraseIdx i } := by
  refine h.inv.move _ _ ?_
  have hp := (getElem_perm hs).flatMap_right fun sub => sub.admitted.reservations
  rw [List.perm_iff_count]
  intro x
  have hx := hp.count_eq x
  simp only [List.flatMap_cons, List.count_append] at hx ⊢
  omega

/-- A submission that finds the worker gone takes its reservations back. -/
theorem refuse {i : Nat} {sub : Submission} (h : Invariant cfg s) (hs : s.submitting[i]? = some sub) :
    Invariant cfg (State.rollBack { s with submitting := s.submitting.eraseIdx i } sub.admitted) := by
  have hsub := h.commands.submitting sub (List.mem_of_getElem? hs)
  refine ⟨(h.takeSubmission hs).rollBack hsub, h.live.congr rfl rfl fun _ _ => rfl, ⟨?_, h.commands.channel,
    h.commands.hand⟩, h.phases.congr rfl rfl rfl rfl id id⟩
  exact fun other ho => h.commands.submitting other (List.mem_of_mem_eraseIdx ho)

theorem map_set_of_eq {α β : Type} {f : α → β} {l : List α} {i : Nat} {x y : α} (h : l[i]? = some x) (hf : f y = f x) :
    (l.set i y).map f = l.map f := by
  obtain ⟨hi, rfl⟩ := List.getElem?_eq_some_iff.mp h
  rw [List.map_set, hf, ← List.getElem_map f (h := by simpa using hi), List.set_getElem_self]

theorem checkShutdown {i : Nat} (h : Invariant cfg s) (hstep : s.step cfg (.checkShutdown i) = some t) :
    Invariant cfg t := by
  simp only [State.step] at hstep
  split at hstep
  · rename_i sub hs
    split_ifs at hstep <;> cases hstep
    · exact h.refuse hs
    · have hset : (s.submitting.set i { sub with checked := true }).flatMap (·.admitted.reservations) =
          s.submitting.flatMap (·.admitted.reservations) := by
        simp only [List.flatMap_def]
        congr 1
        exact map_set_of_eq hs rfl
      refine ⟨h.inv.move _ _ (by rw [hset]), h.live.congr rfl rfl fun _ _ => rfl, ⟨?_, h.commands.channel,
        h.commands.hand⟩, h.phases.congr rfl rfl rfl rfl id id⟩
      intro other ho
      rcases List.mem_or_eq_of_mem_set ho with ho | rfl
      · exact h.commands.submitting other ho
      · exact h.commands.submitting sub (List.mem_of_getElem? hs)
  · cases hstep

theorem send {i : Nat} (h : Invariant cfg s) (hstep : s.step cfg (.send i) = some t) : Invariant cfg t := by
  simp only [State.step] at hstep
  split at hstep
  · rename_i sub hs
    split_ifs at hstep with _ hcl <;> cases hstep
    · exact h.refuse hs
    · have hsub := h.commands.submitting sub (List.mem_of_getElem? hs)
      have hnc : s.closed = false := by simpa using hcl
      refine ⟨h.inv.move _ _ ?_, h.live.congr rfl rfl fun _ _ => rfl, ⟨?_, ?_, h.commands.hand⟩, ?_⟩
      · have hp := (getElem_perm hs).flatMap_right fun sub => sub.admitted.reservations
        rw [List.perm_iff_count]
        intro x
        have hx := hp.count_eq x
        simp only [List.flatMap_cons, List.flatMap_append, List.flatMap_nil, List.count_append, List.count_nil] at hx ⊢
        omega
      · exact fun other ho => h.commands.submitting other (List.mem_of_mem_eraseIdx ho)
      · intro a ha
        rcases List.mem_append.mp ha with ha | ha
        · exact h.commands.channel a ha
        · rwa [List.mem_singleton.mp ha]
      · exact h.phases.of_open hnc rfl
  · cases hstep

/-- The worker task takes the next command from the channel. -/
theorem takeChannel {a : Admitted} {rest : List Admitted} (h : Invariant cfg s) (hh : s.hand = .empty)
    (hc : s.channel = a :: rest) : Inv cfg (a.reservations ++ []) [] { s with channel := rest } := by
  have hi := h.inv
  rw [hh] at hi
  refine hi.move _ _ ?_
  rw [List.perm_iff_count]
  intro x
  simp only [hc, List.flatMap_cons, List.count_append, Hand.reservations, List.count_nil]
  omega

/-- Folding a command into the loop. -/
theorem handle {a : Admitted} {rest : List Admitted} (h : Invariant cfg s) (hh : s.hand = .empty)
    (hc : s.channel = a :: rest) (ht : State.handleWorkerCommand { s with channel := rest } a = t) :
    Inv cfg [] [] t ∧ Live t ∧ Commands t ∧ t.hand = .empty ∧ t.phase = s.phase := by
  have ha := h.commands.channel a (hc ▸ List.mem_cons_self)
  have hl : Live { s with channel := rest } := h.live.congr rfl rfl fun _ _ => rfl
  have hcs : Commands { s with channel := rest } :=
    ⟨h.commands.submitting, fun b hb => h.commands.channel b (hc ▸ List.mem_cons_of_mem _ hb), h.commands.hand⟩
  obtain ⟨hi, hl, hf⟩ := handleWorkerCommand_spec (h.takeChannel hh hc) hl ha
  rw [ht] at hi hl hf
  exact ⟨hi, hl, hcs.frame hf, hf.hand.trans hh, hf.phase⟩

/-- A step that only moves the loop on. -/
theorem enter (h : Invariant cfg s) {shutdown closed : Bool} {phase : Phase}
    (hp : Phases { s with shutdown, closed, phase }) : Invariant cfg { s with shutdown, closed, phase } :=
  ⟨h.inv.control _ _ _ _ _, h.live.congr rfl rfl fun _ _ => rfl,
    ⟨h.commands.submitting, h.commands.channel, h.commands.hand⟩, hp⟩

/-- The worker task with nothing in hand. -/
theorem of_empty (hh : s.hand = .empty) (hi : Inv cfg [] [] s) (hl : Live s) (hc : Commands s) (hp : Phases s) :
    Invariant cfg s := ⟨by rw [hh]; exact hi, hl, hc, hp⟩

theorem workerStep (h : Invariant cfg s) (hstep : s.workerStep cfg = some t) : Invariant cfg t := by
  have settled : Invariant cfg s.settle := Invariant.settle h.inv h.live h.commands h.phases
  unfold State.workerStep at hstep
  split at hstep
  · cases hstep
    exact settled
  · cases hstep
    exact settled
  rename_i hh
  have hi : Inv cfg [] [] s := by simpa [hh, Hand.reservations, Hand.leases] using h.inv
  split at hstep
  · rename_i hph
    cases hstep
    refine h.enter (Phases.of_loop ?_)
    by_cases hsd : s.shutdown = true
    · simp [hsd]
    · simp [hsd]
  · rename_i hph
    split at hstep
    · cases hstep
      exact h.enter (Phases.of_loop (Or.inr (Or.inr (Or.inl rfl))))
    · rename_i a rest hc
      cases hstep
      obtain ⟨hi, hl, hcs, hhand, hphase⟩ := h.handle hh hc rfl
      exact of_empty hhand hi hl hcs (Phases.of_loop (Or.inr (Or.inl (hphase.trans hph))))
  · rename_i hph
    split_ifs at hstep
    · rcases s.queued.pop_cases with ⟨hpop, -⟩ | ⟨job, queued, hpop, hq⟩
      · rw [hpop] at hstep
        cases hstep
        exact h.enter (Phases.of_loop (Or.inr (Or.inr (Or.inr (Or.inl rfl)))))
      · rw [hpop] at hstep
        cases hstep
        have hheld : s.held job.admission = true := h.inv.queueHeld job (hq.mem_iff.mpr List.mem_cons_self)
        have hl : Live { s with queued } := h.live.congr rfl rfl fun _ _ => rfl
        exact of_empty hh (hi.takeQueue hq).spawn (hl.spawn (hi.takeQueue hq) hheld)
          ⟨h.commands.submitting, h.commands.channel, h.commands.hand⟩
          (Phases.of_loop (Or.inr (Or.inr (Or.inl hph))))
    · cases hstep
      exact h.enter (Phases.of_loop (Or.inr (Or.inr (Or.inr (Or.inl rfl)))))
  · by_cases hsd : s.shutdown = true
    · rw [if_pos hsd] at hstep
      cases hstep
      exact h.enter (Phases.of_loop (by simp))
    · rw [if_neg hsd] at hstep
      split at hstep
      · rename_i a rest hc
        cases hstep
        obtain ⟨hi, hl, hcs, hhand, -⟩ := h.handle hh hc rfl
        exact of_empty hhand (hi.control _ _ _ _ _) (hl.congr rfl rfl fun _ _ => rfl)
          ⟨hcs.submitting, hcs.channel, hcs.hand⟩ (Phases.of_loop (Or.inl rfl))
      · split_ifs at hstep
        cases hstep
        exact h.enter (Phases.of_loop (by simp))
  · cases hstep
    exact h.enter ⟨fun _ => rfl, by simp, by simp, by simp⟩
  · rename_i hph
    cases hstep
    exact h.enter ⟨fun _ => h.phases.closed (Or.inl hph), by simp, by simp, by simp⟩
  · rename_i hph
    have hcl := h.phases.closed (Or.inr (Or.inl hph))
    split at hstep
    · rename_i hc
      cases hstep
      exact h.enter ⟨fun _ => hcl, fun _ => hc, by simp, by simp⟩
    · rename_i a rest hc
      cases hstep
      have ht := h.takeChannel hh hc
      rw [List.append_nil] at ht
      refine ⟨ht.control _ _ _ _ _, h.live.congr rfl rfl fun _ _ => rfl, ⟨h.commands.submitting, ?_, ?_⟩, ?_⟩
      · exact fun b hb => h.commands.channel b (hc ▸ List.mem_cons_of_mem _ hb)
      · rintro _ ⟨⟩
        exact h.commands.channel a (hc ▸ List.mem_cons_self)
      · exact ⟨fun _ => hcl, by simp [hph], by simp [hph], by simp [hph]⟩
  · rename_i hph
    have hcl := h.phases.closed (Or.inr (Or.inr (Or.inl hph)))
    have hch := h.phases.channel (Or.inl hph)
    have hq := s.queued.removeWhere_cases fun _ => true
    split at hstep
    · rename_i job queued hr
      cases hstep
      obtain ⟨job', hjob, -, hp⟩ := hq.resolve_left fun hn => by simp [hr] at hn
      rw [hr] at hjob hp
      cases hjob
      refine ⟨(hi.takeQueue hp).control _ _ _ _ _, h.live.congr rfl rfl fun _ _ => rfl, ⟨h.commands.submitting,
        h.commands.channel, nofun⟩, ?_⟩
      exact ⟨fun _ => hcl, fun _ => hch, by simp [hph], by simp [hph]⟩
    · rename_i queued hr
      cases hstep
      rcases hq with ⟨-, -, hnone⟩ | ⟨job, hjob, -⟩
      · refine h.enter ⟨fun _ => hcl, fun _ => hch, fun _ => ?_, by simp⟩
        exact List.eq_nil_iff_forall_not_mem.mpr fun job hjob => by simpa using hnone job hjob
      · simp [hr] at hjob
  · rename_i hph
    split_ifs at hstep with hnil
    cases hstep
    exact h.enter ⟨fun _ => h.phases.closed (by simp [hph]), fun _ => h.phases.channel (by simp [hph]),
      fun _ => h.phases.queue (Or.inl hph), fun _ => ⟨hnil, hh⟩⟩
  · cases hstep

/-- A step that sets the status of a child. -/
theorem status {task : Nat} {status : ChildStatus} (h : Invariant cfg s)
    (hst : ∀ c ∈ s.children, c.id = task → (status = .running ∨ ∃ next, status = .continued next) →
      c.status = .running) : Invariant cfg (s.setStatus task status) :=
  ⟨h.inv.setStatus task status, h.live.setStatus hst, ⟨h.commands.submitting, h.commands.channel, h.commands.hand⟩,
    h.phases.congr rfl rfl rfl rfl (fun hnil => by simp [State.setStatus, hnil]) id⟩

theorem childOf_mem {task : Nat} {c : Child} (h : s.childOf task = some c) : c ∈ s.children ∧ c.id = task :=
  ⟨List.mem_of_find?_eq_some h, by simpa using List.find?_some h⟩

/-- A child gives its lease back before its commit. -/
theorem commit {c : Child} (h : Invariant cfg s) (hc : c ∈ s.children) :
    Invariant cfg ((s.release c.accepted.admission).setStatus c.id .committing) := by
  have hmem : c.accepted.admission ∈ s.hand.leases ++ s.leases :=
    List.mem_append_right _ (List.mem_map_of_mem hc)
  have hf : Frame s (s.release c.accepted.admission) := Frame.release ⟨rfl, rfl, rfl, rfl, rfl⟩ _
  have hcs := h.commands.frame hf
  refine ⟨?_, h.live.childRelease h.inv hc, ⟨hcs.submitting, hcs.channel, hcs.hand⟩, ?_⟩
  · rw [show ((s.release c.accepted.admission).setStatus c.id .committing).hand = s.hand from hf.hand]
    exact (h.inv.release hmem).setStatus _ _
  · refine h.phases.congr hf.phase hf.closed hf.channel (queued_release _ _) (fun hnil => ?_) fun he => hf.hand.trans he
    rw [hnil] at hc
    cases hc

/-- What `join_next_with_id` leaves behind: the lease of the task in hand, or back in the queue. -/
theorem forgotten {c : Child} (h : Invariant cfg s) (hh : s.hand = .empty) (hc : c ∈ s.children) :
    Inv cfg [] [c.accepted.admission] (s.forget c) ∧ Live (s.forget c) ∧ Commands (s.forget c) := by
  have hi : Inv cfg [] [] s := by simpa [hh, Hand.reservations, Hand.leases] using h.inv
  exact ⟨hi.forget hc, h.live.forget, h.commands.submitting, h.commands.channel, h.commands.hand⟩

/-- The lease of a joined task in the hand of the worker task. -/
theorem inHand {c : Child} {phase : Phase} (h : Invariant cfg s) (hh : s.hand = .empty) (hc : c ∈ s.children)
    (hp : Phases { s.forget c with hand := .lease c.accepted.admission, phase }) :
    Invariant cfg { s.forget c with hand := .lease c.accepted.admission, phase } := by
  obtain ⟨hi, hl, hcs⟩ := h.forgotten hh hc
  exact ⟨hi.control _ _ _ _ _, hl.congr rfl rfl fun _ _ => rfl, ⟨hcs.submitting, hcs.channel, nofun⟩, hp⟩

theorem leaseOf_eq {c : Child} (h : Invariant cfg s) (hc : c ∈ s.children) :
    s.leaseOf c.id = .lease c.accepted.admission := by
  simp [State.leaseOf, h.inv.inFlight c hc]

/-- A cancelled continuation has no lease left. -/
theorem dropped {c : Child} {phase : Phase} (h : Invariant cfg s) (hh : s.hand = .empty) (hc : c ∈ s.children)
    (hcan : c.id ∈ s.externallyCancelled) (hp : Phases { s.forget c with phase }) :
    Invariant cfg { s.forget c with phase } := by
  obtain ⟨hi, hl, hcs⟩ := h.forgotten hh hc
  exact of_empty hh ((hi.dropUnheld (h.live.cancelled c hc hcan)).control _ _ _ _ _) (hl.congr rfl rfl fun _ _ => rfl)
    ⟨hcs.submitting, hcs.channel, hcs.hand⟩ hp

theorem settle_phase (s : State) (phase : Phase) : { s with phase }.settle = { s.settle with phase } := by
  obtain ⟨_, _, _, _, _, _, _, _, _, _, _, _, _, hand, _, _, _⟩ := s
  cases hand with
  | empty => rfl
  | command a => rfl
  | lease l =>
    simp only [State.settle, State.release]
    split_ifs <;> rfl

theorem join {c : Child} (h : Invariant cfg s) (hh : s.hand = .empty) (hc : c ∈ s.children)
    (hj : s.join c = some t) : Invariant cfg { t with phase := .top } := by
  unfold State.join at hj
  split at hj
  · rename_i next hst
    by_cases hcan : c.id ∈ s.externallyCancelled
    · rw [if_pos hcan] at hj
      cases hj
      exact h.dropped hh hc hcan (Phases.of_loop (Or.inl rfl))
    · rw [if_neg hcan] at hj
      cases hj
      obtain ⟨hi, hl, hcs⟩ := h.forgotten hh hc
      have hheld : s.held c.accepted.admission = true := h.live.live c hc (Or.inr ⟨next, hst⟩) hcan
      have hq := hi.putQueue ⟨next, c.accepted.admission⟩ next.cls hheld
      exact of_empty hh (hq.control _ _ _ _ _) (hl.congr rfl rfl fun _ _ => rfl)
        ⟨hcs.submitting, hcs.channel, hcs.hand⟩ (Phases.of_loop (Or.inl rfl))
  · cases hj
    have hin := h.inHand hh hc (Phases.of_loop (Or.inl rfl : _ = Phase.top ∨ _))
    rw [← settle_phase, h.leaseOf_eq hc]
    exact Invariant.settle hin.inv hin.live hin.commands hin.phases
  · cases hj
    rw [h.leaseOf_eq hc]
    exact h.inHand hh hc (Phases.of_loop (Or.inl rfl))
  · cases hj
  · cases hj

theorem joinRest {c : Child} (h : Invariant cfg s) (hh : s.hand = .empty) (hph : s.phase = .joining)
    (hc : c ∈ s.children) (hj : s.joinRest c = some t) : Invariant cfg t := by
  have hp : ∀ hand, Phases { s.forget c with hand } := fun hand =>
    ⟨fun _ => h.phases.closed (by simp [hph]), fun _ => h.phases.channel (by simp [hph]),
      fun _ => h.phases.queue (Or.inl hph), fun hs => absurd (hs.symm.trans hph) nofun⟩
  have hin : Invariant cfg { s.forget c with hand := .lease c.accepted.admission } := h.inHand hh hc (hp _)
  unfold State.joinRest at hj
  split at hj
  · rename_i next hst
    by_cases hcan : c.id ∈ s.externallyCancelled
    · rw [if_pos hcan] at hj
      cases hj
      exact h.dropped hh hc hcan (hp s.hand)
    · rw [if_neg hcan] at hj
      cases hj
      exact hin
  · cases hj
    rw [h.leaseOf_eq hc]
    exact Invariant.settle hin.inv hin.live hin.commands hin.phases
  · cases hj
    rw [h.leaseOf_eq hc]
    exact hin
  · cases hj
  · cases hj

theorem step {action : Action} (h : Invariant cfg s) (hstep : s.step cfg action = some t) : Invariant cfg t := by
  cases action with
  | reserve command =>
    simp only [State.step] at hstep
    split_ifs at hstep with hcap
    cases hstep
    exact h.reserve hcap.2.2
  | checkShutdown i => exact h.checkShutdown hstep
  | send i => exact h.send hstep
  | cancel work =>
    simp only [State.step] at hstep
    split_ifs at hstep with ho
    cases hstep
    refine ⟨h.inv.move _ _ (by simp), h.live.congr rfl rfl fun _ _ => rfl, ⟨h.commands.submitting, ?_, h.commands.hand⟩,
      h.phases.of_open (by simpa using ho.2) rfl⟩
    intro a ha
    rcases List.mem_append.mp ha with ha | ha
    · exact h.commands.channel a ha
    · rw [List.mem_singleton.mp ha]
      rfl
  | requestShutdown =>
    cases hstep
    exact h.enter (h.phases.congr rfl rfl rfl rfl id id)
  | dropSenders =>
    simp only [State.step] at hstep
    split_ifs at hstep
    cases hstep
    exact ⟨h.inv.control _ _ _ _ _, h.live.congr rfl rfl fun _ _ => rfl,
      ⟨h.commands.submitting, h.commands.channel, h.commands.hand⟩, h.phases.congr rfl rfl rfl rfl id id⟩
  | worker => exact h.workerStep hstep
  | joinChild task =>
    simp only [State.step] at hstep
    split at hstep
    · rename_i c hc hh hph
      obtain ⟨u, hu, rfl⟩ := Option.map_eq_some_iff.mp hstep
      exact h.join hh (childOf_mem hc).1 hu
    · rename_i c hc hh hph
      exact h.joinRest hh hph (childOf_mem hc).1 hstep
    · cases hstep
  | childRelease task =>
    simp only [State.step] at hstep
    split at hstep
    · rename_i id job hc
      cases hstep
      obtain ⟨hmem, rfl⟩ := childOf_mem hc
      exact h.commit hmem
    · cases hstep
  | childContinue task nextRound =>
    simp only [State.step] at hstep
    split at hstep
    · rename_i id job hc
      split_ifs at hstep
      cases hstep
      obtain ⟨hmem, rfl⟩ := childOf_mem hc
      refine h.status fun d hd hid _ => ?_
      rw [h.inv.child_eq_of_id hmem hd hid]
    · cases hstep
  | childFinish task =>
    simp only [State.step] at hstep
    split at hstep
    · cases hstep
      exact h.status (by simp)
    · cases hstep
      exact h.status (by simp)
    · cases hstep
  | childFail task =>
    simp only [State.step] at hstep
    split at hstep
    · cases hstep
      exact h.status (by simp)
    · cases hstep
      exact h.status (by simp)
    · cases hstep

end Invariant

theorem Reachable.invariant {cfg : Config} {s : State} (h : Reachable cfg s) : Invariant cfg s := by
  induction h with
  | init => exact invariant_init cfg
  | step action _ hstep ih => exact ih.step hstep

theorem Reachable.run {cfg : Config} {s t : State} {actions : List Action} (h : Reachable cfg s)
    (hr : s.run cfg actions = some t) : Reachable cfg t := by
  induction actions generalizing s with
  | nil =>
    cases hr
    exact h
  | cons action actions ih =>
    obtain ⟨u, hu, hr⟩ := Option.bind_eq_some_iff.mp hr
    exact ih (.step action h hu) hr

/-- A stopped worker holds a reservation only for a submission that still has to take it back. -/
theorem Invariant.holders_stopped {cfg : Config} {s : State} (h : Invariant cfg s) (hs : s.phase = .stopped)
    (hsub : s.submitting = []) : s.holders = [] := by
  obtain ⟨hc, hh⟩ := h.phases.stopped hs
  simp [holders, holding, waiting, State.leases, hsub, hc, hh, h.phases.channel (Or.inr (Or.inr hs)),
    h.phases.queue (Or.inr hs), Hand.reservations, Hand.leases]

/-- In every interleaving the counter is the number of reservations held by submissions, the channel, the queue,
    unreleased leases and the hand of the worker task; it stays within the capacity, no reservation is lost or
    released twice, and all of them are released once the worker has stopped and no submission is pending. -/
theorem admission_accounting {cfg : Config} {s : State} (h : Reachable cfg s) :
    s.acceptedJobs = s.holders.length ∧ s.acceptedJobs ≤ cfg.queueCapacity ∧
      (s.holders ++ s.released).Perm (List.range s.admitted) ∧
      (s.phase = .stopped → s.submitting = [] → s.acceptedJobs = 0 ∧ s.released.Perm (List.range s.admitted)) := by
  have hi := h.invariant
  refine ⟨hi.inv.count, hi.inv.bound, hi.inv.total, fun hs hsub => ?_⟩
  have hn := hi.holders_stopped hs hsub
  have htotal : (s.holders ++ s.released).Perm (List.range s.admitted) := hi.inv.total
  rw [hn, List.nil_append] at htotal
  exact ⟨by rw [hi.inv.count, show s.holding _ _ = [] from hn, List.length_nil], htotal⟩

/-- One job at a time. -/
def single : Config := ⟨1, 1, by decide, by decide, by decide⟩

def someJob : Job := ⟨⟨.adapter ⟨⟨[]⟩, 0⟩, 0⟩, .repair⟩

/-- A job is submitted, runs, commits and is joined; then the worker stops. -/
def wholeLife : List Action :=
  [.reserve (.discovery someJob), .checkShutdown 0, .send 0, .worker, .worker, .worker, .worker, .worker,
    .childRelease 0, .childFinish 0, .joinChild 0, .requestShutdown, .worker, .worker, .worker, .worker, .worker, .worker]

theorem exists_run (cfg : Config) (actions : List Action) (p : State → Bool)
    (h : ((init.run cfg actions).map p) = some true) : ∃ s, Reachable cfg s ∧ p s = true := by
  obtain ⟨s, hs, hp⟩ := Option.map_eq_some_iff.mp h
  exact ⟨s, Reachable.run .init hs, hp⟩

theorem admission_accounting_wholeLife : ∃ s, Reachable single s ∧ s.phase = .stopped ∧ s.admitted = 1 ∧
    s.acceptedJobs = 0 ∧ s.released.Perm [0] := by
  obtain ⟨s, hs, hp⟩ := exists_run single wholeLife
    (fun s => decide (s.phase = .stopped) && s.submitting.isEmpty && decide (s.admitted = 1)) (by decide)
  simp only [Bool.and_eq_true, decide_eq_true_eq, List.isEmpty_iff] at hp
  obtain ⟨⟨hphase, hsub⟩, hadm⟩ := hp
  obtain ⟨hzero, hperm⟩ := (admission_accounting hs).2.2.2 hphase hsub
  rw [hadm] at hperm
  exact ⟨s, hs, hphase, hadm, hzero, hperm⟩

/-- The worker stops while a submission is between its reservation and its look at the shutdown flag: nothing is in
    the channel, queued or running, and the counter is one. -/
theorem stopped_counter_ne_zero : ∃ s, Reachable single s ∧ s.phase = .stopped ∧ s.channel = [] ∧ s.queued.jobs = [] ∧
    s.children = [] ∧ s.acceptedJobs = 1 := by
  obtain ⟨s, hs, hp⟩ := exists_run single
    [.reserve (.discovery someJob), .requestShutdown, .worker, .worker, .worker, .worker, .worker, .worker]
    (fun s => decide (s.phase = .stopped) && decide (s.acceptedJobs = 1)) (by decide)
  simp only [Bool.and_eq_true, decide_eq_true_eq] at hp
  have hph := hs.invariant.phases
  exact ⟨s, hs, hp.1, hph.channel (Or.inr (Or.inr hp.1)), hph.queue (Or.inr hp.1), (hph.stopped hp.1).1, hp.2⟩

end AmmState.Scheduler
