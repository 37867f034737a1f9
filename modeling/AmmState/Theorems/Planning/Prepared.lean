import AmmState.Planning.Prepared

/-! A job that rebuilds its planner at every step does what one planner kept alive over all rounds does. -/

namespace AmmState.Planning
open V3 (StateView)
open Repairs (StorageSlot ColdStartPolicy DeferredWork)

/-! ### The uninterrupted run -/

/-- The last value fetched for a cell. -/
def lastFetched (fetched : List (Cell × U256)) (cell : Cell) : Option U256 :=
  (fetched.reverse.find? (·.1 = cell)).map Prod.snd

/-- What was fetched, over the base. -/
def overlay (base : StateView) (fetched : List (Cell × U256)) : StateView := fun address slot =>
  (lastFetched fetched ⟨address, slot⟩).or (base.storage address slot)

/-- The values of a patch that differ from what stood there before them. -/
def changes (base : StateView) : List (Cell × U256) → List (Cell × U256) → List SlotChange
  | _, [] => []
  | fetched, (cell, new) :: patch =>
    let old := ((overlay base fetched).storage cell.address cell.slot).getD 0
    (if old ≠ new then [⟨cell.address, cell.slot, old, new⟩] else []) ++ changes base (fetched ++ [(cell, new)]) patch

/-- A planner between two rounds, with all that happened before. -/
structure Uninterrupted (planner : AdapterColdStartPlanner) where
  state : planner.State
  plan : ColdStartPlan
  plans : List ColdStartPlan
  fetched : List (Cell × U256)
  report : ColdStartRunReport

/-- How a run ends: the plans it executed, what it fetched, its report, and what the planner makes of the pool. -/
structure RunEnd (E : Type) where
  plans : List ColdStartPlan
  fetched : List (Cell × U256)
  report : ColdStartRunReport
  result : Except (PreparedColdStartError E) (PoolRegistration × ColdStartOutcome)

section
variable {W E : Type} (planner : AdapterColdStartPlanner) (pool : PoolRegistration) (baseline : AmmStatePoint)
  (base : StateView) (maxRounds : Nat) (fetch : StorageRoundFetcher W E)

def Uninterrupted.stop {planner : AdapterColdStartPlanner} (live : Uninterrupted planner)
    (error : PreparedColdStartError E) : RunEnd E :=
  ⟨live.plans, live.fetched, live.report, .error error⟩

/-- The rounds of one planner that is kept alive. -/
def uninterrupted : Nat → W → Uninterrupted planner → W × RunEnd E
  | 0, w, live => (w, live.stop (.roundBudgetExceeded maxRounds))
  | remaining + 1, w, live =>
    match rejectUnsupportedPhase live.plan with
    | .error error => (w, live.stop error)
    | .ok _ =>
      match fetch w ⟨baseline.blockHash, live.plan.verify, live.plan.probe⟩ with
      | (w, .error error) => (w, live.stop (.storageFetch error))
      | (w, .ok round) =>
        let results : ColdStartResults := ⟨changes base live.fetched round.patch, round.fetched, round.probed⟩
        let fetched := live.fetched ++ round.patch
        let report := absorbWorkerRound live.report live.plan results
        match planner.onResults live.state results (overlay base fetched) with
        | (state, .continues next) =>
          uninterrupted remaining w ⟨state, next, live.plans ++ [live.plan], fetched, report⟩
        | (state, .done) => (w, ⟨live.plans ++ [live.plan], fetched, report, .ok (planner.finish state pool report)⟩)

/-- The run of a planner that was just built. -/
def uninterruptedRun (w : W) (state : planner.State) : W × RunEnd E :=
  let (state, plan) := planner.initialPlan state (overlay base [])
  uninterrupted planner pool baseline base maxRounds fetch maxRounds w ⟨state, plan, [], [], .empty⟩

end

/-- The work that an outcome leaves for later, where it is ready. -/
def deferredOf {E : Type} (outcome : ColdStartOutcome) : Except (PreparedColdStartError E) (List DeferredWork) :=
  match outcome with
  | .ready _ => .ok []
  | .readyWithDeferred _ deferred => .ok deferred
  | outcome => .error (.notReady outcome)

/-- The artifact holds the last value fetched for each cell, and no other cell. -/
structure Holds {Account : Type} (prepared : AmmPreparedPoolState Account) (fetched : List (Cell × U256)) : Prop where
  nodup : (prepared.storage.map Prod.fst).Nodup
  mem_iff : ∀ cell value, (cell, value) ∈ prepared.storage ↔ lastFetched fetched cell = some value

/-- A job's result is that of a run: its error, or an artifact of its registration, deferred work and storage. -/
def SameResult {E Account : Type} (job : PreparedPoolJob Account)
    (result : Except (PreparedColdStartError E) (AmmPreparedPoolState Account)) (run : RunEnd E) : Prop :=
  match run.result with
  | .error error => result = .error error
  | .ok (registration, outcome) =>
    match deferredOf outcome with
    | .error error => result = .error error
    | .ok deferred => ∃ prepared, result = .ok prepared ∧ prepared.registration = registration ∧
        prepared.baseline = job.baseline ∧ prepared.accounts = job.accounts ∧ prepared.deferred = deferred ∧
        Holds prepared run.fetched

/-! ### Storage -/

theorem lastFetched_concat (fetched : List (Cell × U256)) (cell other : Cell) (value : U256) :
    lastFetched (fetched ++ [(cell, value)]) other = if other = cell then some value else lastFetched fetched other := by
  rw [lastFetched, List.reverse_append, List.reverse_singleton, List.singleton_append, List.find?_cons]
  by_cases h : cell = other
  · simp [h]
  · simp [h, Ne.symm h, lastFetched]

/-- A map holds the last value fetched for each cell, and no other cell. -/
def Follows (storage : SortedMap Cell U256) (fetched : List (Cell × U256)) : Prop :=
  ∀ cell, storage.get cell = lastFetched fetched cell

section
variable {base : StateView} {storage : SortedMap Cell U256} {fetched : List (Cell × U256)}

theorem follows_empty : Follows .empty [] := fun _ => rfl

theorem Follows.insert (h : Follows storage fetched) (cell : Cell) (value : U256) :
    Follows (storage.insert cell value) (fetched ++ [(cell, value)]) := fun other => by
  rw [SortedMap.get_insert, lastFetched_concat, h other]

theorem Follows.view (h : Follows storage fetched) : workerStateView base storage = overlay base fetched := by
  funext address slot
  rw [workerStateView, overlay, h]

/-- A patch keeps both maps at the last values, and reports what it changes. -/
theorem foldl_inject (base : StateView) (s : Injection) (hstorage : Follows s.storage fetched)
    (haccumulated : Follows s.accumulated fetched) (patch : List (Cell × U256)) :
    Follows (patch.foldl (inject base) s).storage (fetched ++ patch) ∧
      Follows (patch.foldl (inject base) s).accumulated (fetched ++ patch) ∧
      (patch.foldl (inject base) s).verified = s.verified ++ changes base fetched patch := by
  induction patch generalizing s fetched with
  | nil => exact ⟨by simpa using hstorage, by simpa using haccumulated, (List.append_nil _).symm⟩
  | cons entry patch ih =>
    obtain ⟨cell, new⟩ := entry
    obtain ⟨hstorage', haccumulated', hverified⟩ :=
      ih (inject base s (cell, new)) (hstorage.insert cell new) (haccumulated.insert cell new)
    rw [List.append_assoc, List.singleton_append] at hstorage' haccumulated'
    refine ⟨hstorage', haccumulated', ?_⟩
    rw [List.foldl_cons, hverified, changes]
    have hold : (s.storage.get cell).or (base.storage cell.address cell.slot) =
        (overlay base fetched).storage cell.address cell.slot := by rw [hstorage cell]; rfl
    simp only [inject, hold]
    split <;> simp

/-- The artifact's constructor takes the entries of a map as they are. -/
theorem preparedStorage_entries (storage : SortedMap Cell U256) :
    preparedStorage storage.entries = .ok storage.entries := by
  have hsorted : SortDedup.sortBy Prod.fst storage.entries = storage.entries :=
    SortDedup.sortBy_of_pairwise _ ((List.pairwise_map.mp storage.sorted).imp le_of_lt)
  have hnone : (storage.entries.find? fun entry => 1 < (storage.entries.map Prod.fst).count entry.1) = none := by
    refine List.find?_eq_none.mpr fun entry _ => ?_
    have hle : (storage.entries.map Prod.fst).count entry.1 ≤ 1 :=
      List.nodup_iff_count_le_one.mp storage.nodup_keys entry.1
    simpa using hle
  simp only [preparedStorage, hsorted, hnone]

end

/-! ### The transcript -/

theorem samePreparedPlan_self (plan : ColdStartPlan) : samePreparedPlan plan plan = true := by
  have hzip : ∀ calls : List ColdStartCall, ∀ pair ∈ calls.zip calls, pair.1 = pair.2 := by
    intro calls
    induction calls with
    | nil => simp
    | cons call calls ih =>
      intro pair hpair
      rcases List.mem_cons.mp hpair with rfl | hpair
      · rfl
      · exact ih pair hpair
  simp only [samePreparedPlan, decide_true, Bool.true_and, List.all_eq_true]
  intro pair hpair
  simp [hzip _ pair hpair]

section
variable {E : Type} {planner : AdapterColdStartPlanner} {base : StateView}

/-- A replay goes on with the round after it. -/
theorem replay_concat {state state' last : planner.State} {plan next : ColdStartPlan} {rounds : List PreparedRound}
    {round : PreparedRound}
    (h : PreparedPoolJob.replay planner base state plan rounds =
      (.ok (last, round.plan) : Except (PreparedColdStartError E) _))
    (hround : planner.onResults last round.results (workerStateView base round.storage) = (state', .continues next)) :
    PreparedPoolJob.replay planner base state plan (rounds ++ [round]) =
      (.ok (state', next) : Except (PreparedColdStartError E) _) := by
  induction rounds generalizing state plan with
  | nil =>
    obtain ⟨rfl, rfl⟩ := Prod.mk.inj (Except.ok.inj h)
    simp [PreparedPoolJob.replay, samePreparedPlan_self, hround]
  | cons historical rest ih =>
    rw [PreparedPoolJob.replay] at h
    rw [List.cons_append, PreparedPoolJob.replay]
    split at h
    · exact absurd h nofun
    · rename_i hsame
      rw [if_neg hsame]
      split at h
      · exact ih h
      · exact absurd h nofun

end

/-! ### Steps -/

section
variable {W E Account : Type} {job : PreparedPoolJob Account} {live : Uninterrupted job.planner}

/-- A job between two steps and a run between two rounds have come through the same. -/
structure Tracks (E : Type) (job : PreparedPoolJob Account) (live : Uninterrupted job.planner) : Prop where
  resume : job.resume = (.ok (live.state, live.plan) : Except (PreparedColdStartError E) _)
  plans : job.rounds.map PreparedRound.plan = live.plans
  report : job.report = live.report
  last : Follows job.lastStorage live.fetched
  accumulated : Follows job.accumulated live.fetched

theorem resume_eq_ok {resumed : job.planner.State × ColdStartPlan} :
    job.resume = (.ok resumed : Except (PreparedColdStartError E) _) ↔
      ∃ start, job.planner.coldStartPlanner job.pool job.policy = .ok start ∧
        PreparedPoolJob.replay job.planner job.base (job.planner.initialPlan start (workerStateView job.base .empty)).1
          (job.planner.initialPlan start (workerStateView job.base .empty)).2 job.rounds =
            (.ok resumed : Except (PreparedColdStartError E) _) := by
  unfold PreparedPoolJob.resume
  cases job.planner.coldStartPlanner job.pool job.policy with
  | error reason => exact ⟨nofun, nofun⟩
  | ok start => exact ⟨fun h => ⟨start, rfl, h⟩, fun ⟨_, hstart, h⟩ => by cases hstart; exact h⟩

theorem lastStorage_record (job : PreparedPoolJob Account) (plan : ColdStartPlan) (round : StorageRound) :
    (job.record plan round).1.lastStorage = (job.record plan round).2.2 := by
  simp [PreparedPoolJob.record, PreparedPoolJob.lastStorage]

/-- What a round leaves: the storage with its patch, and what the planner sees of it. -/
theorem Tracks.record (h : Tracks E job live) (round : StorageRound) :
    Follows (job.record live.plan round).2.2 (live.fetched ++ round.patch) ∧
      Follows (job.record live.plan round).1.accumulated (live.fetched ++ round.patch) ∧
      (job.record live.plan round).2.1 = ⟨changes job.base live.fetched round.patch, round.fetched, round.probed⟩ := by
  obtain ⟨hstorage, haccumulated, hverified⟩ :=
    foldl_inject job.base ⟨job.lastStorage, job.accumulated, []⟩ h.last h.accumulated round.patch
  refine ⟨hstorage, haccumulated, ?_⟩
  rw [List.nil_append] at hverified
  simp only [PreparedPoolJob.record, hverified]

/-- A round after which the planner goes on. -/
theorem Tracks.continues (h : Tracks E job live) {round : StorageRound} {state : job.planner.State} {next : ColdStartPlan}
    (hresults : job.planner.onResults live.state
      ⟨changes job.base live.fetched round.patch, round.fetched, round.probed⟩
      (overlay job.base (live.fetched ++ round.patch)) = (state, .continues next)) :
    Tracks E (job.record live.plan round).1 ⟨state, next, live.plans ++ [live.plan], live.fetched ++ round.patch,
      absorbWorkerRound live.report live.plan
        ⟨changes job.base live.fetched round.patch, round.fetched, round.probed⟩⟩ := by
  obtain ⟨hstorage, haccumulated, hresult⟩ := h.record round
  rw [← hresult, ← hstorage.view] at hresults
  refine ⟨?_, ?_, ?_, ?_, haccumulated⟩
  · obtain ⟨start, hstart, hreplay⟩ := resume_eq_ok.mp h.resume
    exact resume_eq_ok.mpr ⟨start, hstart, replay_concat hreplay hresults⟩
  · simp [PreparedPoolJob.record, h.plans]
  · rw [← hresult, ← h.report]
    rfl
  · rw [lastStorage_record]
    exact hstorage

/-- A round after which the planner is done. -/
theorem Tracks.finished (h : Tracks E job live) (round : StorageRound) (state : job.planner.State)
    {fetched : List (Cell × U256)} (hfetched : fetched = live.fetched ++ round.patch) {report : ColdStartRunReport}
    (hreport : report = (job.record live.plan round).1.report) (plans : List ColdStartPlan) :
    SameResult job
      (PreparedPoolJob.finished { job with
        report := (job.record live.plan round).1.report, accumulated := (job.record live.plan round).1.accumulated } state)
      (⟨plans, fetched, report, .ok (job.planner.finish state job.pool report)⟩ : RunEnd E) := by
  subst hfetched hreport
  have haccumulated := (h.record round).2.1
  have hprepared := preparedStorage_entries (job.record live.plan round).1.accumulated
  rcases hfinish : job.planner.finish state job.pool (job.record live.plan round).1.report with ⟨registration, outcome⟩
  have hholds : ∀ deferred, Holds
      (⟨registration, job.baseline, (job.record live.plan round).1.accumulated.entries, job.accounts, deferred⟩ :
        AmmPreparedPoolState Account) (live.fetched ++ round.patch) := fun deferred =>
    ⟨SortedMap.nodup_keys _, fun cell value => by rw [← haccumulated cell, SortedMap.get_eq_some]⟩
  simp only [SameResult, PreparedPoolJob.finished, hfinish, hprepared]
  cases outcome with
  | ready report => exact ⟨_, rfl, rfl, rfl, rfl, rfl, hholds _⟩
  | readyWithDeferred report deferred => exact ⟨_, rfl, rfl, rfl, rfl, rfl, hholds _⟩
  | needsRepair report repair => rfl
  | unsupported reason => rfl

/-- What a run executes, and how it ends, is what the job executes and how it ends. -/
structure SameRun (job : PreparedPoolJob Account)
    (driven : W × PreparedPoolJob Account × Except (PreparedColdStartError E) (AmmPreparedPoolState Account))
    (run : W × RunEnd E) : Prop where
  world : driven.1 = run.1
  plans : driven.2.1.rounds.map PreparedRound.plan = run.2.plans
  report : driven.2.1.report = run.2.report
  result : SameResult job driven.2.2 run.2
  converged : driven.2.2 ≠ .error .plannerTranscriptDiverged
  bounded : driven.2.1.rounds.length ≤ job.maxRounds

theorem rejectUnsupportedPhase_converged {plan : ColdStartPlan} {error : PreparedColdStartError E}
    (h : rejectUnsupportedPhase plan = .error error) : error ≠ .plannerTranscriptDiverged := by
  unfold rejectUnsupportedPhase at h
  split_ifs at h <;> cases h <;> nofun

theorem SameResult.converged {result : Except (PreparedColdStartError E) (AmmPreparedPoolState Account)}
    {run : RunEnd E} {finish : PoolRegistration × ColdStartOutcome} (h : SameResult job result run)
    (hrun : run.result = .ok finish) : result ≠ .error .plannerTranscriptDiverged := by
  obtain ⟨registration, outcome⟩ := finish
  rw [SameResult, hrun] at h
  cases outcome with
  | ready report => obtain ⟨prepared, rfl, -⟩ := h; nofun
  | readyWithDeferred report deferred => obtain ⟨prepared, rfl, -⟩ := h; nofun
  | needsRepair report repair => rw [show result = _ from h]; nofun
  | unsupported reason => rw [show result = _ from h]; nofun

/-- Driving a job does what the run does in the rounds that remain. -/
theorem drive_of_tracks (fetch : StorageRoundFetcher W E) {remaining fuel : Nat} (w : W) (h : Tracks E job live)
    (hrounds : job.rounds.length + remaining = job.maxRounds) (hfuel : remaining < fuel) :
    ∃ driven, job.drive fetch fuel w = some driven ∧ SameRun job driven
      (uninterrupted job.planner job.pool job.baseline job.base job.maxRounds fetch remaining w live) := by
  induction remaining generalizing fuel w job with
  | zero =>
    obtain ⟨fuel, rfl⟩ := Nat.exists_eq_add_of_lt hfuel
    have hstep : job.step fetch w = (w, job, .error (.roundBudgetExceeded job.maxRounds)) := if_pos hrounds.ge
    refine ⟨(w, job, .error (.roundBudgetExceeded job.maxRounds)), ?_, rfl, h.plans, h.report, rfl,
      fun heq => (by cases heq), hrounds.le⟩
    simp [PreparedPoolJob.drive, hstep]
  | succ remaining ih =>
    obtain ⟨fuel, rfl⟩ : ∃ rest, fuel = rest + 1 := ⟨fuel - 1, by omega⟩
    have hbudget : ¬ job.maxRounds ≤ job.rounds.length := by omega
    rw [PreparedPoolJob.drive, PreparedPoolJob.step, if_neg hbudget, uninterrupted]
    simp only [h.resume]
    cases hreject : (rejectUnsupportedPhase live.plan : Except (PreparedColdStartError E) Unit) with
    | error error =>
      exact ⟨(w, job, .error error), rfl, rfl, h.plans, h.report, rfl,
        fun heq => rejectUnsupportedPhase_converged hreject (Except.error.inj heq),
          hrounds.le.trans' (Nat.le_add_right _ _)⟩
    | ok =>
      rcases hfetch : fetch w ⟨job.baseline.blockHash, live.plan.verify, live.plan.probe⟩ with ⟨w', error | round⟩
      · exact ⟨(w', job, .error (.storageFetch error)), rfl, rfl, h.plans, h.report, rfl, fun heq => (by cases heq),
          hrounds.le.trans' (Nat.le_add_right _ _)⟩
      · obtain ⟨hstorage, -, hresult⟩ := h.record round
        have hlength : (job.record live.plan round).1.rounds.length + remaining = job.maxRounds := by
          simp only [PreparedPoolJob.record, List.length_append, List.length_singleton]
          omega
        have hplans : (job.record live.plan round).1.rounds.map PreparedRound.plan = live.plans ++ [live.plan] := by
          simp [PreparedPoolJob.record, h.plans]
        have hreport : (job.record live.plan round).1.report = absorbWorkerRound live.report live.plan
            ⟨changes job.base live.fetched round.patch, round.fetched, round.probed⟩ := by
          rw [← hresult, ← h.report]
          rfl
        simp only [hresult, hstorage.view]
        rcases hstep : job.planner.onResults live.state
          ⟨changes job.base live.fetched round.patch, round.fetched, round.probed⟩
          (overlay job.base (live.fetched ++ round.patch)) with ⟨state, _ | next⟩
        · have hsame := h.finished round state rfl hreport.symm (live.plans ++ [live.plan])
          have hconverged := hsame.converged rfl
          simp only
          generalize PreparedPoolJob.finished { job with
            report := (job.record live.plan round).1.report
            accumulated := (job.record live.plan round).1.accumulated } state = finished at hsame hconverged ⊢
          refine ⟨(w', (job.record live.plan round).1, finished), ?_, rfl, hplans, hreport, hsame, hconverged,
            hlength.le.trans' (Nat.le_add_right _ _)⟩
          cases finished <;> rfl
        · have hrest : remaining < fuel := by omega
          obtain ⟨driven, hdriven, hrun⟩ := ih w' (h.continues hstep) hlength hrest
          exact ⟨driven, hdriven, hrun.world, hrun.plans, hrun.report, hrun.result, hrun.converged, hrun.bounded⟩

end

/-- A resumable job is an uninterrupted run. -/
theorem resumable_uninterrupted {W E Account : Type} {planner : AdapterColdStartPlanner} {pool : PoolRegistration}
    {baseline : AmmStatePoint} {policy : ColdStartPolicy} {base : StateView} {accounts : List Account} {maxRounds : Nat}
    {job : PreparedPoolJob Account} (fetch : StorageRoundFetcher W E) (w : W) {fuel : Nat} (hfuel : maxRounds < fuel)
    (h : PreparedPoolJob.new planner pool baseline policy base accounts maxRounds =
      (.ok job : Except (PreparedColdStartError E) _)) :
    ∃ state driven, planner.coldStartPlanner pool policy = .ok state ∧ job.drive fetch fuel w = some driven ∧
      SameRun job driven (uninterruptedRun planner pool baseline base maxRounds fetch w state) := by
  unfold PreparedPoolJob.new at h
  split_ifs at h with hzero
  cases hstate : planner.coldStartPlanner pool policy with
  | error reason => simp [hstate] at h
  | ok state =>
    rw [hstate] at h
    obtain rfl := Except.ok.inj h
    have hview : workerStateView base .empty = overlay base [] := follows_empty.view
    refine ⟨state, ?_⟩
    have htracks : Tracks E (⟨planner, pool, baseline, policy, base, accounts, maxRounds, [], .empty, .empty⟩ :
        PreparedPoolJob Account) ⟨(planner.initialPlan state (overlay base [])).1,
          (planner.initialPlan state (overlay base [])).2, [], [], .empty⟩ :=
      ⟨resume_eq_ok.mpr ⟨state, hstate, by rw [hview]; rfl⟩, rfl, rfl, follows_empty, follows_empty⟩
    obtain ⟨driven, hdriven, hrun⟩ := drive_of_tracks fetch w htracks (Nat.zero_add _) hfuel
    exact ⟨driven, rfl, hdriven, hrun⟩

/-- A planner that reads slot 8 twice. -/
def secondLook : AdapterColdStartPlanner where
  State := Bool
  coldStartPlanner _ _ := .ok false
  initialPlan state _ := (state, verifyPlan [(0, 8)])
  onResults looked _ _ := (true, if looked then .done else .continues (verifyPlan [(0, 8)]))
  finish _ registration _ :=
    (registration, .ready ⟨registration.key, .strict, .ready, [], [], []⟩)

/-- A provider that answers one more each time. -/
def counter : StorageRoundFetcher Nat Unit := fun w request =>
  (w + 1, .ok ⟨[], [], request.verify.map fun (address, slot) => (⟨address, slot⟩, BitVec.ofNat 256 w)⟩)

def secondLookJob : PreparedPoolJob Unit :=
  ⟨secondLook, ⟨.uniswapV2 0, [], [], .unknown, .pending⟩, ⟨1, 5, 0⟩, .strict, fun _ _ => none, [], 3, [], .empty,
    .empty⟩

theorem resumable_uninterrupted_secondLook :
    ∃ state driven, secondLook.coldStartPlanner secondLookJob.pool .strict = .ok state ∧
      secondLookJob.drive counter 4 7 = some driven ∧
      SameRun secondLookJob driven
        (uninterruptedRun secondLook secondLookJob.pool secondLookJob.baseline (fun _ _ => none) 3 counter 7 state) :=
  resumable_uninterrupted counter 7 (by decide) rfl

end AmmState.Planning
