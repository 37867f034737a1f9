import AmmState.Theorems.Discovery.Reads

/-! What a batch of queries finds. Where every lookup is listed, both the batch over a cache and a prepared batch come down
    to the same lookups in the whole storage: query by query, factory by factory, each pool kept where it is first seen. -/

namespace AmmState.Discovery
open Checked Fallible FirstBy SortDedup

/-! ### Latches -/

/-- No latch of these is reset. -/
def FromAll (latches current : Latches) : Prop := ∀ index, From (latches index) (current index)

section
variable {α : Type} {index : Nat} {m : Latched α} {a : α}

theorem run_atFactory (latches : Latches) : (atFactory index m).run.run latches =
    ((m.run.run (latches index)).1, Function.update latches index (m.run.run (latches index)).2) := rfl

theorem atFactory_yields (h : Yields m a) : Yields (atFactory index m) a := by
  intro latches b latches' hrun
  rw [run_atFactory] at hrun
  have hresult := congrArg Prod.fst hrun
  exact h.of_fst hresult

theorem atFactory_returns {latches : Latches} (h : Returns (From (latches index)) m a) :
    Returns (FromAll latches) (atFactory index m) a := by
  intro current hcurrent
  obtain ⟨latch, hrun, hlatch⟩ := h (current index) (hcurrent index)
  refine ⟨Function.update current index latch, ?_, fun i => ?_⟩
  · rw [run_atFactory, hrun]
  · by_cases hi : i = index
    · subst hi
      rwa [Function.update_self]
    · rw [Function.update_of_ne hi]
      exact hcurrent i

theorem atFactory_errs {E : DiscoveryError → Prop} (h : Errs m E) : Errs (atFactory index m) E := by
  intro latches error latches' hrun
  rw [run_atFactory] at hrun
  have hresult := congrArg Prod.fst hrun
  exact h (latches index) error _ (Prod.ext hresult rfl)

end

/-! ### Reads -/

theorem readRank_injective : Function.Injective readRank := by
  intro a b h
  have hparts := Prod.mk.inj (toLex.injective h)
  cases a
  cases b
  exact congrArg₂ StateSlot.mk (BitVec.eq_of_toNat_eq hparts.1) (BitVec.eq_of_toNat_eq hparts.2)

/-- The answers of a fetch: what it is asked for, each read once, as the storage has it. -/
structure Fetched (storage : StateSlot → U256) (reads : List StateSlot) (values : List (StateSlot × U256)) : Prop where
  once : (values.map Prod.fst).Nodup
  faithful : ∀ entry ∈ values, entry.2 = storage entry.1
  complete : ∀ read ∈ reads, read ∈ values.map Prod.fst

/-- The values agree with a storage on these slots. -/
def Covers (storage : StateSlot → U256) (values : Values) (slots : List StateSlot) : Prop :=
  ∀ slot ∈ slots, values.get slot = some (storage slot)

namespace PoolDiscovery
variable {storage : StateSlot → U256}

theorem covers_insertAll {reads : List StateSlot} (h : reads.Nodup) :
    Covers storage (reads.foldl (fun values read => values.insert read (storage read)) .empty) reads := fun slot hslot =>
  @Map.get_foldl_insert_mem _ _ _ _ id storage reads (by rwa [List.map_id]) _ _ hslot

/-- Values that are all different are entered one by one. -/
theorem resolve_eq {values : List (StateSlot × U256)} {resolved : Values} (h : (values.map Prod.fst).Nodup)
    (hfresh : ∀ entry ∈ values, resolved.get entry.1 = none) :
    resolve values resolved = .ok (values.foldl (fun resolved entry => resolved.insert entry.1 entry.2) resolved) := by
  induction values generalizing resolved with
  | nil => rfl
  | cons entry rest ih =>
    obtain ⟨hentry, hrest⟩ := List.nodup_cons.mp h
    have hnew : resolved.contains entry.1 = false := Map.contains_eq_false.mpr (hfresh entry List.mem_cons_self)
    rw [resolve, hnew, if_neg Bool.false_ne_true, List.foldl_cons]
    refine ih hrest fun other hother => ?_
    have hne : other.1 ≠ entry.1 := fun heq => hentry (heq ▸ List.mem_map_of_mem hother)
    rw [Map.get_insert_of_ne hne]
    exact hfresh other (List.mem_cons_of_mem _ hother)

theorem resolveAll_covers {prepared : PreparedDiscoveryReads} {values : List (StateSlot × U256)}
    (h : Fetched storage prepared.reads values) :
    ∃ resolved, resolveAll prepared values = .ok resolved ∧ Covers storage resolved prepared.reads := by
  have hcovers : Covers storage (values.foldl (fun resolved entry => resolved.insert entry.1 entry.2) .empty)
      prepared.reads := by
    intro slot hslot
    obtain ⟨entry, hentry, rfl⟩ := List.mem_map.mp (h.complete slot hslot)
    rw [← h.faithful entry hentry]
    exact Map.get_foldl_insert_mem h.once _ hentry
  refine ⟨_, ?_, hcovers⟩
  have hfind : prepared.reads.find? (fun read =>
      !(values.foldl (fun resolved entry => resolved.insert entry.1 entry.2) (Map.empty : Values)).contains read) =
        none := by
    rw [List.find?_eq_none]
    intro read hread
    rw [Map.contains_iff.mpr ⟨_, hcovers read hread⟩]
    decide
  rw [resolveAll, resolve_eq h.once fun _ _ => rfl, ok_bind, hfind]
  rfl

/-! ### Plans -/

variable (keccak256 : Bytes → B256) (discovery : PoolDiscovery)

/-- A query and a factory that it asks. -/
abbrev Visit := PoolQuery × PoolFactory × Nat

/-- What a batch asks of whom, in order. -/
def visits (queries : List PoolQuery) : List Visit :=
  queries.flatMap fun query => (discovery.matching query).map (query, ·)

/-- Nothing that a batch looks up is left out of its reads, and every factory that it asks looks up anything. -/
structure Planned (queries : List PoolQuery) : Prop where
  fees : ∀ visit ∈ discovery.visits queries, visit.2.1.FeesListed visit.1.pairs
  probes : queries.findSome? discovery.missingProtocol = none →
    ∀ visit ∈ discovery.visits queries, visit.1.pairs = [] ∨ visit.2.1.Probes

/-- The plan of a visit that lists its reads. -/
def planOf (visit : Visit) : PreparedFactoryQuery :=
  ⟨visit.2.2, visit.2.1.protocol, visit.2.1.factoryAddress, visit.1.pairs,
    sortDedup readRank (visit.2.1.candidateReads keccak256 visit.1.pairs), false⟩

def planAll (visits : List Visit) : PreparedDiscoveryReads :=
  let factories := visits.map (planOf keccak256)
  ⟨sortDedup readRank (factories.flatMap (·.reads)), factories⟩

variable {keccak256 discovery} {queries : List PoolQuery}

theorem prepareFactory_eq {mode : LegacyFactoryMode} {visit : Visit} (h : visit.1.pairs = [] ∨ visit.2.1.Probes) :
    prepareFactory keccak256 mode visit.1 visit.2 = .ok (planOf keccak256 visit) := by
  have hlegacy : (!visit.1.pairs.isEmpty &&
      (sortDedup readRank (visit.2.1.candidateReads keccak256 visit.1.pairs)).isEmpty) =
      false := by
    rw [Bool.and_eq_false_iff]
    by_cases hpairs : visit.1.pairs = []
    · exact .inl (by rw [hpairs]; rfl)
    · refine .inr (Bool.eq_false_iff.mpr fun hempty => ?_)
      have hreads : visit.2.1.candidateReads keccak256 visit.1.pairs ≠ [] := fun hnil =>
        (PoolFactory.candidateReads_eq_nil_iff keccak256 hpairs).mp hnil (h.resolve_left hpairs)
      obtain ⟨slot, hslot⟩ := List.exists_mem_of_ne_nil _ hreads
      have hmem := (mem_sortDedup_iff readRank).mpr hslot
      rw [List.isEmpty_iff.mp hempty] at hmem
      exact List.not_mem_nil hmem
  unfold prepareFactory planOf
  simp only [hlegacy]
  rfl

theorem prepare_eq {mode : LegacyFactoryMode} (hplanned : discovery.Planned queries)
    (hmissing : queries.findSome? discovery.missingProtocol = none) :
    discovery.prepareReadsWithMode keccak256 mode queries = .ok (planAll keccak256 (discovery.visits queries)) := by
  have hplans : ((discovery.visits queries).mapM fun visit => prepareFactory keccak256 mode visit.1 visit.2) =
      .ok ((discovery.visits queries).map (planOf keccak256)) := by
    rw [mapM_eq_ok, List.forall₂_map_right_iff, List.forall₂_same]
    exact fun visit hvisit => prepareFactory_eq (hplanned.probes hmissing visit hvisit)
  rw [prepareReadsWithMode, hmissing]
  show (((discovery.visits queries).mapM fun visit => prepareFactory keccak256 mode visit.1 visit.2) >>= _) = _
  rw [hplans]
  rfl

theorem mem_reads_planAll {visits : List Visit} {visit : Visit} (hvisit : visit ∈ visits) {slot : StateSlot}
    (hslot : slot ∈ visit.2.1.candidateReads keccak256 visit.1.pairs) : slot ∈ (planAll keccak256 visits).reads :=
  (mem_sortDedup_iff readRank).mpr (List.mem_flatMap.mpr
    ⟨_, List.mem_map_of_mem hvisit, (mem_sortDedup_iff readRank).mpr hslot⟩)

theorem visits_at {visit : Visit} (h : visit ∈ discovery.visits queries) :
    discovery.factories[visit.2.2]? = some visit.2.1 := by
  obtain ⟨query, -, hmem⟩ := List.mem_flatMap.mp h
  obtain ⟨entry, hentry, rfl⟩ := List.mem_map.mp hmem
  exact List.mem_zipIdx_iff_getElem?.mp (List.mem_of_mem_filter hentry)

/-! ### Lookups in the whole storage -/

/-- The visits of a batch over a whole storage. -/
def assembleTotal (keccak256 : Bytes → B256) (storage : StateSlot → U256) :
    List PoolKey → List Visit → DiscoveryM (List DiscoveredPool)
  | _, [] => return []
  | seen, visit :: rest => do
    let pools ← atFactory visit.2.2 (visit.2.1.assemblePairs keccak256 visit.1.pairs (total storage))
    let (seen, found) := pushUnseen seen pools
    let more ← assembleTotal keccak256 storage seen rest
    return found ++ more

theorem assembleFactory_eq {resolved : Values} {cache : Option (StateSlot → U256)} {visit : Visit}
    (hat : discovery.factories[visit.2.2]? = some visit.2.1) (hfees : visit.2.1.FeesListed visit.1.pairs)
    (hcovers : Covers storage resolved (visit.2.1.candidateReads keccak256 visit.1.pairs)) :
    discovery.assembleFactory keccak256 resolved cache (planOf keccak256 visit) =
      atFactory visit.2.2 (visit.2.1.assemblePairs keccak256 visit.1.pairs (total storage)) := by
  have hcongr : visit.2.1.assemblePairs keccak256 visit.1.pairs resolved =
      visit.2.1.assemblePairs keccak256 visit.1.pairs (total storage) :=
        PoolFactory.assemblePairs_congr keccak256 hfees hcovers
  unfold assembleFactory
  simp only [planOf, hat, ne_eq, not_true, or_self, if_false, hcongr]

theorem assembleFactories_eq {resolved : Values} {cache : Option (StateSlot → U256)} {visits : List Visit}
    (hat : ∀ visit ∈ visits, discovery.factories[visit.2.2]? = some visit.2.1)
    (hfees : ∀ visit ∈ visits, visit.2.1.FeesListed visit.1.pairs)
    (hcovers : ∀ visit ∈ visits, Covers storage resolved (visit.2.1.candidateReads keccak256 visit.1.pairs))
    (seen : List PoolKey) :
    discovery.assembleFactories keccak256 resolved cache seen (visits.map (planOf keccak256)) =
      assembleTotal keccak256 storage seen visits := by
  induction visits generalizing seen with
  | nil => rfl
  | cons visit rest ih =>
    rw [List.map_cons, assembleFactories, assembleTotal,
      assembleFactory_eq (hat visit List.mem_cons_self) (hfees visit List.mem_cons_self) (hcovers visit List.mem_cons_self)]
    refine congrArg _ (funext fun pools => ?_)
    rcases pushUnseen seen pools with ⟨seen, found⟩
    dsimp only
    rw [ih (fun v hv => hat v (List.mem_cons_of_mem _ hv)) (fun v hv => hfees v (List.mem_cons_of_mem _ hv))
      fun v hv => hcovers v (List.mem_cons_of_mem _ hv)]

/-- A planned batch comes down to the lookups in the storage, whoever reads it. -/
theorem assemblePlan_eq (hplanned : discovery.Planned queries) {resolved : Values} (cache : Option (StateSlot → U256))
    (hcovers : Covers storage resolved (planAll keccak256 (discovery.visits queries)).reads) :
    discovery.assemblePlan keccak256 (planAll keccak256 (discovery.visits queries)) resolved cache =
      assembleTotal keccak256 storage [] (discovery.visits queries) :=
  assembleFactories_eq (fun _ => visits_at) hplanned.fees
    (fun _ hvisit slot hslot => hcovers slot (mem_reads_planAll hvisit hslot)) []

theorem findMany_eq (hplanned : discovery.Planned queries)
    (hmissing : queries.findSome? discovery.missingProtocol = none) :
    discovery.findMany keccak256 storage queries = assembleTotal keccak256 storage [] (discovery.visits queries) := by
  rw [findMany, prepare_eq hplanned hmissing]
  exact assemblePlan_eq hplanned _ (covers_insertAll (nodup_sortDedup readRank readRank_injective _))

theorem findPrepared_eq (hplanned : discovery.Planned queries)
    (hmissing : queries.findSome? discovery.missingProtocol = none)
    {fetch : List StateSlot → List (StateSlot × U256)} (hfetch : ∀ reads, Fetched storage reads (fetch reads)) :
    discovery.findPrepared keccak256 fetch queries = assembleTotal keccak256 storage [] (discovery.visits queries) := by
  obtain ⟨resolved, hresolved, hcovers⟩ :=
    resolveAll_covers (hfetch (planAll keccak256 (discovery.visits queries)).reads)
  rw [findPrepared, prepareReads, prepare_eq hplanned hmissing]
  dsimp only
  rw [assemblePrepared, hresolved]
  exact assemblePlan_eq hplanned _ hcovers

/-! ### What is found -/

/-- The pools of a visit. -/
def visitHeld (keccak256 : Bytes → B256) (storage : StateSlot → U256) (visit : Visit) : List DiscoveredPool :=
  visit.2.1.held keccak256 storage visit.1.pairs

/-- The pools that the factories of a query hold for its pairs. -/
def held (keccak256 : Bytes → B256) (discovery : PoolDiscovery) (storage : StateSlot → U256) (query : PoolQuery) :
    List DiscoveredPool := (discovery.matching query).flatMap fun entry => visitHeld keccak256 storage (query, entry)

theorem flatMap_visitHeld (queries : List PoolQuery) :
    (discovery.visits queries).flatMap (visitHeld keccak256 storage) =
      queries.flatMap (discovery.held keccak256 storage) := by
  rw [visits, List.flatMap_assoc]
  simp only [List.flatMap_map]
  rfl

/-- The words that a batch looks up satisfy the checks of its factories. -/
def Sound (keccak256 : Bytes → B256) (storage : StateSlot → U256) (latches : Latches) (visit : Visit) : Prop :=
  visit.2.1.Sound keccak256 storage (latches visit.2.2) visit.1.pairs

theorem append_unseen (seen : List PoolKey) (pools more : List DiscoveredPool) :
    (pushUnseen seen pools).2 ++ (firstBy DiscoveredPool.key more).filter (·.key ∉ (pushUnseen seen pools).1) =
      (firstBy DiscoveredPool.key (pools ++ more)).filter (·.key ∉ seen) := by
  rw [pushUnseen, keepUnseen_snd, firstBy_append, List.filter_append, List.filter_filter]
  refine congrArg _ (List.filter_congr fun pool _ => ?_)
  simp only [mem_keepUnseen_fst, not_or, Bool.decide_and]

theorem assembleTotal_yields (seen : List PoolKey) (visits : List Visit) :
    Yields (assembleTotal keccak256 storage seen visits)
      ((firstBy DiscoveredPool.key (visits.flatMap (visitHeld keccak256 storage))).filter (·.key ∉ seen)) := by
  induction visits generalizing seen with
  | nil => exact .pure _
  | cons visit rest ih =>
    refine .bind (atFactory_yields (PoolFactory.assemblePairs_yields keccak256 storage)) ?_
    rw [List.flatMap_cons, ← append_unseen]
    exact .bind (ih _) (.pure _)

theorem assembleTotal_returns {latches : Latches} {visits : List Visit}
    (h : ∀ visit ∈ visits, Sound keccak256 storage latches visit) (seen : List PoolKey) :
    Returns (FromAll latches) (assembleTotal keccak256 storage seen visits)
      ((firstBy DiscoveredPool.key (visits.flatMap (visitHeld keccak256 storage))).filter (·.key ∉ seen)) := by
  induction visits generalizing seen with
  | nil => exact .pure _
  | cons visit rest ih =>
    refine .bind (atFactory_returns (PoolFactory.assemblePairs_returns keccak256 (h visit List.mem_cons_self))) ?_
    rw [List.flatMap_cons, ← append_unseen]
    exact .bind (ih (fun v hv => h v (List.mem_cons_of_mem _ hv)) _) (.pure _)

/-! ### Refusals -/

theorem findPools_errs {factory : PoolFactory} (pair : Pair) :
    Errs (findPools keccak256 storage factory pair) DiscoveryError.OfLookup :=
  .ite (.pure _) (PoolFactory.assemblePairs_errs keccak256 _)

theorem findPoolsOf_errs {factory : PoolFactory} (pairs : List Pair) :
    Errs (findPoolsOf keccak256 storage factory pairs) DiscoveryError.OfLookup := by
  induction pairs with
  | nil => exact .pure _
  | cons pair rest ih => exact .bind (findPools_errs pair) fun _ => .bind ih fun _ => .pure _

theorem assembleFactories_errs {resolved : Values} {cache : Option (StateSlot → U256)} (seen : List PoolKey)
    (plans : List PreparedFactoryQuery) :
    Errs (discovery.assembleFactories keccak256 resolved cache seen plans) DiscoveryError.OfLookup := by
  induction plans generalizing seen with
  | nil => exact .pure _
  | cons plan rest ih =>
    refine .bind ?_ fun pools => .bind (ih _) fun _ => .pure _
    unfold assembleFactory
    cases discovery.factories[plan.factoryIndex]? with
    | none => exact .throw nofun
    | some factory =>
      refine .ite (.throw nofun) (atFactory_errs ?_)
      split
      · exact findPoolsOf_errs _
      · exact PoolFactory.assemblePairs_errs keccak256 _

theorem prepareFactory_error {mode : LegacyFactoryMode} {query : PoolQuery} {entry : PoolFactory × Nat}
    {error : DiscoveryError} (h : prepareFactory keccak256 mode query entry = .error error) :
    mode = .reject ∧ error = .preparedModeUnsupported entry.1.protocol entry.1.factoryAddress := by
  simp only [prepareFactory] at h
  split_ifs at h with hlegacy
  exact ⟨hlegacy.2, (Except.error.inj h).symm⟩

theorem prepare_error {mode : LegacyFactoryMode} {error : DiscoveryError}
    (hmissing : queries.findSome? discovery.missingProtocol = none)
    (h : discovery.prepareReadsWithMode keccak256 mode queries = .error error) :
    ∃ visit ∈ discovery.visits queries, prepareFactory keccak256 mode visit.1 visit.2 = .error error := by
  rw [prepareReadsWithMode, hmissing] at h
  have hloop : ((discovery.visits queries).mapM fun visit => prepareFactory keccak256 mode visit.1 visit.2) =
      .error error := by
    revert h
    show (((discovery.visits queries).mapM fun visit => prepareFactory keccak256 mode visit.1 visit.2) >>= _) = _ → _
    cases (discovery.visits queries).mapM fun visit => prepareFactory keccak256 mode visit.1 visit.2 with
    | ok plans => exact nofun
    | error other => exact fun h => congrArg _ (Except.error.inj h)
  exact mapM_eq_error hloop

/-- A batch over a cache refuses no factory. -/
theorem findMany_errs (hmissing : queries.findSome? discovery.missingProtocol = none) :
    Errs (discovery.findMany keccak256 storage queries) DiscoveryError.OfLookup := by
  unfold findMany
  cases hprepare : discovery.prepareReadsWithMode keccak256 .allow queries with
  | ok prepared => exact assembleFactories_errs _ _
  | error error =>
    obtain ⟨visit, -, hvisit⟩ := prepare_error hmissing hprepare
    exact absurd (prepareFactory_error hvisit).1 (by decide)

/-- A prepared batch refuses a factory that looks up nothing. -/
theorem prepareReads_refuses (hmissing : queries.findSome? discovery.missingProtocol = none) {visit : Visit}
    (hvisit : visit ∈ discovery.visits queries) (hpairs : visit.1.pairs ≠ []) (hprobes : ¬ visit.2.1.Probes) :
    ∃ protocol factory, discovery.prepareReads keccak256 queries = .error (.preparedModeUnsupported protocol factory) := by
  cases hprepare : discovery.prepareReads keccak256 queries with
  | error error =>
    obtain ⟨refused, -, hrefused⟩ := prepare_error hmissing hprepare
    exact ⟨_, _, congrArg _ (prepareFactory_error hrefused).2⟩
  | ok prepared =>
    rw [prepareReads, prepareReadsWithMode, hmissing] at hprepare
    obtain ⟨plans, hplans, -⟩ := bind_eq_ok.mp hprepare
    obtain ⟨plan, -, hplan⟩ := mapM_mem hplans hvisit
    have hreads := (PoolFactory.candidateReads_eq_nil_iff keccak256 hpairs).mpr hprobes
    have hlegacy : visit.1.pairs.isEmpty = false := Bool.eq_false_iff.mpr fun h => hpairs (List.isEmpty_iff.mp h)
    simp [prepareFactory, hreads, hlegacy, sortDedup, sortBy, dedup] at hplan

/-! ### Batches -/

/-- What batched discovery promises of a discovery, a batch and a storage. -/
structure Exact (keccak256 : Bytes → B256) (discovery : PoolDiscovery) (storage : StateSlot → U256)
    (queries : List PoolQuery) : Prop where
  /-- The words of the candidate reads determine what the lookups find. -/
  reads : ∀ visit ∈ discovery.visits queries, ∀ values values' : Values,
    (∀ slot ∈ visit.2.1.candidateReads keccak256 visit.1.pairs, values.get slot = values'.get slot) →
      visit.2.1.assemblePairs keccak256 visit.1.pairs values = visit.2.1.assemblePairs keccak256 visit.1.pairs values'
  /-- What is found is what the mappings hold, in the order of the batch and once each. -/
  found : ∀ latches pools latches', (discovery.findMany keccak256 storage queries).run.run latches = (.ok pools, latches') →
    pools = firstBy DiscoveredPool.key (queries.flatMap (discovery.held keccak256 storage)) ∧
      (pools.map DiscoveredPool.key).Nodup
  /-- A batch of sound words is answered. -/
  answered : queries.findSome? discovery.missingProtocol = none → ∀ latches,
    (∀ visit ∈ discovery.visits queries, Sound keccak256 storage latches visit) →
      ∃ pools latches', (discovery.findMany keccak256 storage queries).run.run latches = (.ok pools, latches')
  /-- Each query contributes what it finds alone. -/
  independent : ∀ latches pools latches',
    (discovery.findMany keccak256 storage queries).run.run latches = (.ok pools, latches') →
      ∀ alone : PoolQuery → List DiscoveredPool,
        (∀ query ∈ queries, ∃ latches latches',
          (discovery.findMany keccak256 storage [query]).run.run latches = (.ok (alone query), latches')) →
        pools = firstBy DiscoveredPool.key (queries.flatMap alone)
  /-- A prepared batch has the same result. -/
  prepared : ∀ fetch, (∀ reads, Fetched storage reads (fetch reads)) →
    discovery.findPrepared keccak256 fetch queries = discovery.findMany keccak256 storage queries

theorem missing_of_ok {latches latches' : Latches} {pools : List DiscoveredPool}
    (h : (discovery.findMany keccak256 storage queries).run.run latches = (.ok pools, latches')) :
    queries.findSome? discovery.missingProtocol = none := by
  cases hmissing : queries.findSome? discovery.missingProtocol with
  | none => rfl
  | some protocol =>
    rw [findMany, prepareReadsWithMode, hmissing] at h
    cases h

theorem Planned.of_mem (h : discovery.Planned queries) (hmissing : queries.findSome? discovery.missingProtocol = none)
    {query : PoolQuery} (hquery : query ∈ queries) : discovery.Planned [query] := by
  have hvisits : ∀ visit ∈ discovery.visits [query], visit ∈ discovery.visits queries := by
    intro visit hvisit
    rw [visits, List.flatMap_singleton] at hvisit
    exact List.mem_flatMap.mpr ⟨query, hquery, hvisit⟩
  exact ⟨fun visit hvisit => h.fees visit (hvisits visit hvisit),
    fun _ visit hvisit => h.probes hmissing visit (hvisits visit hvisit)⟩

theorem Planned.found (h : discovery.Planned queries) {latches latches' : Latches} {pools : List DiscoveredPool}
    (hrun : (discovery.findMany keccak256 storage queries).run.run latches = (.ok pools, latches')) :
    pools = firstBy DiscoveredPool.key (queries.flatMap (discovery.held keccak256 storage)) := by
  rw [findMany_eq h (missing_of_ok hrun)] at hrun
  rw [assembleTotal_yields [] _ latches pools latches' hrun, flatMap_visitHeld]
  simp

theorem Planned.exact (h : discovery.Planned queries) : Exact keccak256 discovery storage queries where
  reads visit hvisit values values' hagree := PoolFactory.assemblePairs_congr keccak256 (h.fees visit hvisit) hagree
  found latches pools latches' hrun := by
    refine ⟨h.found hrun, ?_⟩
    rw [h.found hrun]
    exact nodup_firstBy _
  answered hmissing latches hsound := by
    obtain ⟨latches', hrun, -⟩ := assembleTotal_returns hsound [] latches fun _ => id
    exact ⟨_, latches', findMany_eq h hmissing ▸ hrun⟩
  independent latches pools latches' hrun alone halone := by
    have hparts : queries.flatMap alone =
        queries.flatMap fun query => firstBy DiscoveredPool.key (discovery.held keccak256 storage query) := by
      refine List.flatMap_congr fun query hquery => ?_
      obtain ⟨before, after, hsingle⟩ := halone query hquery
      have hfound := (h.of_mem (missing_of_ok hrun) hquery).found hsingle
      rwa [List.flatMap_singleton] at hfound
    rw [hparts, firstBy_flatMap]
    exact h.found hrun
  prepared fetch hfetch := by
    cases hmissing : queries.findSome? discovery.missingProtocol with
    | none => rw [findPrepared_eq h hmissing hfetch, findMany_eq h hmissing]
    | some protocol =>
      rw [findPrepared, prepareReads, findMany, prepareReadsWithMode, prepareReadsWithMode, hmissing]

/-- A fetch of what it is asked for, each read once. -/
def fetchOnce (storage : StateSlot → U256) (reads : List StateSlot) : List (StateSlot × U256) :=
  reads.dedup.map fun read => (read, storage read)

theorem fetchOnce_fetched (reads : List StateSlot) : Fetched storage reads (fetchOnce storage reads) := by
  have hkeys : (fetchOnce storage reads).map Prod.fst = reads.dedup := by
    rw [fetchOnce, List.map_map]
    exact List.map_id _
  refine ⟨hkeys ▸ reads.nodup_dedup, fun entry hentry => ?_, fun read hread => hkeys ▸ List.mem_dedup.mpr hread⟩
  obtain ⟨read, -, rfl⟩ := List.mem_map.mp hentry
  rfl

theorem Exact.planned (h : Exact keccak256 discovery storage queries)
    (hdistinct : ∀ visit ∈ discovery.visits queries, visit.2.1.DistinctSlots keccak256 visit.1.pairs) :
    discovery.Planned queries where
  fees visit hvisit := by
    by_contra hfees
    obtain ⟨values, values', hagree, hne⟩ :=
      PoolFactory.reads_of_not_listed keccak256 (hdistinct visit hvisit) hfees
    exact hne (h.reads visit hvisit values values' hagree)
  probes hmissing visit hvisit := by
    by_contra hprobes
    rw [not_or] at hprobes
    obtain ⟨protocol, factory, hrefused⟩ : ∃ protocol factory, discovery.prepareReads keccak256 queries =
        .error (.preparedModeUnsupported protocol factory) := prepareReads_refuses hmissing hvisit hprobes.1 hprobes.2
    have hsame := h.prepared (fetchOnce storage) fetchOnce_fetched
    rw [findPrepared, hrefused] at hsame
    have herrs : Errs (discovery.findMany keccak256 storage queries) DiscoveryError.OfLookup := findMany_errs hmissing
    have herror := herrs (fun _ => false) (.preparedModeUnsupported protocol factory) (fun _ => false) (hsame ▸ rfl)
    exact herror protocol factory rfl

/-- A batch is exact unless it asks a factory keyed by fee for fees of another mapping, which are not among its reads, or a
    factory that looks up nothing, which only a batch over a cache allows. -/
theorem findMany_exact_iff (keccak256 : Bytes → B256) (discovery : PoolDiscovery) (storage : StateSlot → U256)
    (queries : List PoolQuery)
    (hdistinct : ∀ visit ∈ discovery.visits queries, visit.2.1.DistinctSlots keccak256 visit.1.pairs) :
    Exact keccak256 discovery storage queries ↔ discovery.Planned queries :=
  ⟨fun h => h.planned hdistinct, fun h => h.exact⟩

end PoolDiscovery

/-! ### A pair on one factory -/

namespace Fork

def USDC : Address := 0xA0b86991c6218b36c1d19D4a2e9Eb0cE3606eB48
def WETH : Address := 0xC02aaA39b223FE8D0A0e5C4F27eAD9083C756Cc2

/-- `keccak256` at the mapping entries of one pair and one fee. -/
def tabulated (bytes : Bytes) : B256 :=
  let key := Evm.ofBytes (Evm.window bytes 0 32)
  let base := Evm.ofBytes (Evm.window bytes 32 32)
  if key = addressWord USDC then 0xa8e1248eddf82e10c0adc6c737b6d8da17674abf51801ea5a4549f41c2dfdf21
  else if key = addressWord WETH then 0x8a9a186aa8c06660feedd17efa3e880351bb3b80a428ad7b2229e275256bc61c
  else if base = 4 then 0x72dffa9b822156d9cf4b0090fa0b656bcb9cc2b2c60eb6acfc20a34f54b31743
  else if base = 7 then 0x2918d3e53c8e0bf317edd7ae8c62fe39545d7d602785947d3a700ce4c956b1b6
  else 0x5fe6c09e3260f3c792562ede7ff88547f57a3de2172c3a294ac8b1f36832ca32

/-- A factory of one tier. -/
def spec (feeSource : FeeSource) : ClFactorySpec :=
  { ClFactorySpec.uniswapV3 0x1F98431c8aD98523631AE4a59f267346ea31F984 with
    keying := .fee [3000] 4
    feeSource := feeSource }

def discovery (feeSource : FeeSource) : PoolDiscovery := .new [.concentratedLiquidity (spec feeSource)]

/-- The pool of the pair, the spacing of the tier, and a fee in a mapping at slot 7. -/
def storage (slot : StateSlot) : U256 :=
  if slot.slot = 0x5fe6c09e3260f3c792562ede7ff88547f57a3de2172c3a294ac8b1f36832ca32 then
    0x8ad599c3A0ff1De082011EFDDc58f1908eb6e6D8
  else if slot.slot = 0x72dffa9b822156d9cf4b0090fa0b656bcb9cc2b2c60eb6acfc20a34f54b31743 then 60
  else if slot.slot = 0x2918d3e53c8e0bf317edd7ae8c62fe39545d7d602785947d3a700ce4c956b1b6 then 2500
  else 0

def queries : List PoolQuery := [.pair USDC WETH]

theorem visits_eq (feeSource : FeeSource) : (discovery feeSource).visits queries =
    [(.pair USDC WETH, .concentratedLiquidity (spec feeSource), 0)] := rfl

end Fork

namespace PoolDiscovery
open Fork

/-- With the fee of a tier as its key, a batch is exact. -/
theorem findMany_exact_preset : Exact tabulated (discovery .key) storage queries := by
  refine (findMany_exact_iff tabulated (discovery .key) storage queries fun visit hvisit => ?_).mpr
    ⟨fun visit hvisit => ?_, fun _ visit hvisit => .inr ?_⟩
  · rw [visits_eq] at hvisit
    obtain rfl := List.mem_singleton.mp hvisit
    exact List.inj_on_of_nodup_map (by decide +kernel)
  · rw [visits_eq] at hvisit
    obtain rfl := List.mem_singleton.mp hvisit
    trivial
  · rw [visits_eq] at hvisit
    obtain rfl := List.mem_singleton.mp hvisit
    exact List.cons_ne_nil _ _

/-- With the fee in a mapping of its own, the pool is found without its fee of 2500. -/
theorem findMany_loses_fee : (spec (.factoryMapping 7)).DistinctSlots tabulated [sortTokens USDC WETH] ∧
    ¬ Exact tabulated (discovery (.factoryMapping 7)) storage queries := by
  refine ⟨List.inj_on_of_nodup_map (by decide +kernel), fun h => ?_⟩
  have hrun : ((findMany tabulated (discovery (.factoryMapping 7)) storage queries).run.run fun _ => false).1 =
      .ok [(spec (.factoryMapping 7)).registration 0x8ad599c3A0ff1De082011EFDDc58f1908eb6e6D8 USDC WETH 0 60 .query] := by
    decide +kernel
  have hfound := (h.found _ _ _ (Prod.ext hrun rfl)).1
  exact absurd hfound (by decide +kernel)

end PoolDiscovery
end AmmState.Discovery
