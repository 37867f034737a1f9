import AmmState.Subscription
import AmmState.Theorems.NormalForm
import AmmState.Theorems.Subscriber.Filters

/-! What the comparison of event sources decides. It finds the sources of either list in the other one by emitter, route and
    signatures; the indexed topics are part of the filters that it answers for, and it does not look at them. -/

namespace AmmState
open Subscriber Persistence

/-! ### Lists that match -/

/-- Every element of either list is related to one of the other. -/
def MatchedBy {α β : Type} (R : α → β → Prop) (l : List α) (m : List β) : Prop :=
  (∀ a ∈ l, ∃ b ∈ m, R a b) ∧ ∀ b ∈ m, ∃ a ∈ l, R a b

namespace MatchedBy
variable {α β γ δ : Type} {R : α → β → Prop} {l l' : List α} {m m' : List β}

theorem mono {R' : α → β → Prop} (h : MatchedBy R l m) (hle : ∀ a b, R a b → R' a b) : MatchedBy R' l m :=
  ⟨fun a ha => (h.1 a ha).imp fun b hb => ⟨hb.1, hle a b hb.2⟩,
    fun b hb => (h.2 b hb).imp fun a ha => ⟨ha.1, hle a b ha.2⟩⟩

theorem congr (hl : SameElements l' l) (hm : SameElements m' m) : MatchedBy R l' m' ↔ MatchedBy R l m := by
  simp only [MatchedBy, hl _, hm _]

theorem map {R : γ → δ → Prop} {f : α → γ} {g : β → δ} :
    MatchedBy R (l.map f) (m.map g) ↔ MatchedBy (fun a b => R (f a) (g b)) l m := by
  simp only [MatchedBy, List.mem_map, exists_exists_and_eq_and, forall_exists_index, and_imp, forall_apply_eq_imp_iff₂]

end MatchedBy

/-! ### Sources -/

/-- What the comparison looks at. -/
def EventSource.SameSource (s t : EventSource) : Prop :=
  s.emitter = t.emitter ∧ s.route = t.route ∧ SameElements s.topics t.topics

/-- The same with the indexed topics. -/
def EventSource.SameRouting (s t : EventSource) : Prop :=
  s.SameSource t ∧ SameElements s.indexedTopics.1 t.indexedTopics.1 ∧
    SameElements s.indexedTopics.2.1 t.indexedTopics.2.1 ∧ SameElements s.indexedTopics.2.2 t.indexedTopics.2.2

theorem containsSource_iff {sources : List EventSource} {candidate : EventSource} :
    containsSource sources candidate = true ↔ ∃ source ∈ sources, source.SameSource candidate := by
  simp only [containsSource, List.any_eq_true, Bool.and_eq_true, List.all_eq_true, decide_eq_true_eq]
  refine exists_congr fun source => and_congr_right fun _ => ?_
  constructor
  · rintro ⟨⟨⟨hemitter, hroute⟩, hsub⟩, hsup⟩
    exact ⟨hemitter, hroute, fun topic => ⟨hsub topic, hsup topic⟩⟩
  · rintro ⟨hemitter, hroute, htopics⟩
    exact ⟨⟨⟨hemitter, hroute⟩, fun topic => (htopics topic).mp⟩, fun topic => (htopics topic).mpr⟩

theorem sameEventSources_iff {left right : List EventSource} :
    sameEventSources left right = true ↔ MatchedBy EventSource.SameSource left right := by
  have hsymm : ∀ s t : EventSource, s.SameSource t ↔ t.SameSource s := fun s t =>
    and_congr eq_comm (and_congr eq_comm (forall_congr' fun _ => Iff.comm))
  simp only [sameEventSources, Bool.and_eq_true, List.all_eq_true, containsSource_iff, MatchedBy]
  exact and_congr_left' (forall₂_congr fun s _ => exists_congr fun t => and_congr_right fun _ => hsymm t s)

theorem matchesIndexedTopic_congr {expected expected' : List B256} (h : SameElements expected expected')
    (topic : Option B256) :
    EventSource.matchesIndexedTopic expected topic = EventSource.matchesIndexedTopic expected' topic := by
  have hempty : expected.isEmpty = expected'.isEmpty := by
    rw [Bool.eq_iff_iff, List.isEmpty_iff, List.isEmpty_iff, List.eq_nil_iff_forall_not_mem, List.eq_nil_iff_forall_not_mem]
    simp only [h _]
  rw [EventSource.matchesIndexedTopic, EventSource.matchesIndexedTopic, hempty]
  simp only [h _]

/-- The filter on the signature is the one on an indexed topic, at the first place. -/
theorem matchesFilter_eq (source : EventSource) (log : Log) : source.matchesFilter log =
    (decide (source.emitter = log.address) && source.matchesIndexedTopics log.data.topics &&
      EventSource.matchesIndexedTopic source.topics log.data.topics[0]?) := by
  rw [EventSource.matchesFilter, EventSource.matchesIndexedTopic, List.head?_eq_getElem?]

theorem EventSource.SameRouting.matchesFilter {s t : EventSource} (h : s.SameRouting t) (log : Log) :
    s.matchesFilter log = t.matchesFilter log := by
  obtain ⟨⟨hemitter, -, htopics⟩, h1, h2, h3⟩ := h
  rw [matchesFilter_eq, matchesFilter_eq, hemitter, matchesIndexedTopic_congr htopics, matchesIndexedTopics,
    matchesIndexedTopics, matchesIndexedTopic_congr h1, matchesIndexedTopic_congr h2, matchesIndexedTopic_congr h3]

theorem EventSource.SameRouting.poolSourceMatches {s t : EventSource} (h : s.SameRouting t)
    (routeLog : AmmAdapter → Log → AdapterRegistry → Option PoolKey) (pool : PoolKey) (adapter : AmmAdapter)
    (registry : AdapterRegistry) (log : Log) :
    AmmState.poolSourceMatches routeLog s pool adapter registry log = AmmState.poolSourceMatches routeLog t pool
      adapter registry log := by
  unfold AmmState.poolSourceMatches eventSourceMatches
  rw [h.matchesFilter log, h.1.2.1]

/-! ### Interests -/

/-- Two interests ask for the same logs, under the same route. -/
structure SameInterest (i j : LogInterest) : Prop where
  address : i.providerFilter.address.sameSet j.providerFilter.address = true
  topics : i.providerFilter.sameTopics j.providerFilter = true
  localMatcher : i.localMatcher = j.localMatcher
  routeKey : i.routeKey = j.routeKey

theorem SameInterest.symm {i j : LogInterest} (h : SameInterest i j) : SameInterest j i where
  address := FilterSet.sameSet_iff.mpr fun a => (FilterSet.sameSet_iff.mp h.address a).symm
  topics := Filter.sameTopics_iff.mpr fun place =>
    FilterSet.sameSet_iff.mpr fun a => (FilterSet.sameSet_iff.mp (Filter.sameTopics_iff.mp h.topics place) a).symm
  localMatcher := h.localMatcher.symm
  routeKey := h.routeKey.symm

section
variable (addresses : Hashing Address) (words : Hashing B256)
  (routeLog : AmmAdapter → Log → AdapterRegistry → Option PoolKey)

theorem signatures_mem (topics : List B256) (topic : B256) :
    topic ∈ (if topics.isEmpty then FilterSet.empty else words.collect topics).items ↔ topic ∈ topics := by
  split_ifs with hempty
  · rw [List.isEmpty_iff.mp hempty]
    rfl
  · exact words.mem_collect topics topic

/-- A provider's filter has the emitter and the topics of its source. -/
theorem sameFilter_iff {s t : EventSource} :
    ((logInterest addresses words s).providerFilter.address.sameSet
      (logInterest addresses words t).providerFilter.address = true ∧
      (logInterest addresses words s).providerFilter.sameTopics (logInterest addresses words t).providerFilter = true) ↔
    s.emitter = t.emitter ∧ SameElements s.topics t.topics ∧ SameElements s.indexedTopics.1 t.indexedTopics.1 ∧
      SameElements s.indexedTopics.2.1 t.indexedTopics.2.1 ∧ SameElements s.indexedTopics.2.2 t.indexedTopics.2.2 := by
  have hcollect : ∀ values values', (words.collect values).sameSet (words.collect values') = true ↔
      SameElements values values' := by
    intro values values'
    rw [FilterSet.sameSet_iff]
    simp only [words.mem_collect, SameElements]
  have hsignatures : FilterSet.sameSet (if s.topics.isEmpty then FilterSet.empty else words.collect s.topics)
      (if t.topics.isEmpty then FilterSet.empty else words.collect t.topics) = true ↔ SameElements s.topics t.topics := by
    rw [FilterSet.sameSet_iff]
    simp only [signatures_mem, SameElements]
  rw [FilterSet.sameSet_iff, Filter.sameTopics_iff]
  simp only [logInterest, addresses.mem_collect, List.mem_singleton, SameTopics, Fin.forall_fin_succ,
    IsEmpty.forall_iff, and_true]
  refine and_congr ⟨fun h => (h s.emitter).mp rfl, fun h a => by rw [h]⟩ ?_
  exact and_congr hsignatures (and_congr (hcollect _ _) (and_congr (hcollect _ _) (hcollect _ _)))

/-- A provider delivers a log under the filter of a source exactly where the source takes it. -/
theorem providerFilter_matchesLog (source : EventSource) (log : Log) :
    (logInterest addresses words source).providerFilter.matchesLog log = source.matchesFilter log := by
  have htopic : ∀ (values : FilterSet B256) (expected : List B256), (∀ a, a ∈ values.items ↔ a ∈ expected) →
      ∀ topic : Option B256,
      (values.isEmpty || topic.any values.matchesValue) = EventSource.matchesIndexedTopic expected topic := by
    intro values expected h topic
    have hempty : values.isEmpty = expected.isEmpty := by
      rw [Bool.eq_iff_iff, FilterSet.isEmpty_iff, List.isEmpty_iff, List.eq_nil_iff_forall_not_mem]
      simp only [h _]
    cases topic with
    | none => simp [EventSource.matchesIndexedTopic, hempty]
    | some topic =>
      simp only [EventSource.matchesIndexedTopic, Option.any_some, FilterSet.matchesValue, hempty, h topic]
      rw [← Bool.or_assoc, Bool.or_self]
  have hemitter : (addresses.collect [source.emitter]).matchesValue log.address =
      decide (source.emitter = log.address) := by
    have hmem := addresses.mem_collect [source.emitter]
    have hfilled : (addresses.collect [source.emitter]).isEmpty = false := by
      rw [Bool.eq_false_iff, ne_eq, FilterSet.isEmpty_iff]
      exact fun h => h source.emitter ((hmem _).mpr List.mem_cons_self)
    rw [FilterSet.matchesValue, hfilled, Bool.false_or]
    simp only [hmem, List.mem_singleton, eq_comm]
  rw [Filter.matchesLog, matchesFilter_eq, EventSource.matchesIndexedTopics, Bool.eq_iff_iff]
  simp only [Filter.matchesTopic, logInterest, Fin.forall_fin_succ, IsEmpty.forall_iff, and_true, Bool.and_eq_true,
    decide_eq_true_eq, hemitter]
  rw [and_assoc]
  have hsignature := htopic _ _ (signatures_mem words source.topics) log.data.topics[0]?
  have hindexed := fun expected => htopic _ _ (words.mem_collect expected)
  refine and_congr_right fun _ => .trans (and_congr (Bool.eq_iff_iff.mp hsignature)
    (and_congr (Bool.eq_iff_iff.mp (hindexed source.indexedTopics.1 log.data.topics[1]?))
      (and_congr (Bool.eq_iff_iff.mp (hindexed source.indexedTopics.2.1 log.data.topics[2]?))
        (Bool.eq_iff_iff.mp (hindexed source.indexedTopics.2.2 log.data.topics[3]?))))) ?_
  constructor
  · rintro ⟨h0, h1, h2, h3⟩
    exact ⟨⟨⟨h1, h2⟩, h3⟩, h0⟩
  · rintro ⟨⟨⟨h1, h2⟩, h3⟩, h0⟩
    exact ⟨h0, h1, h2, h3⟩

/-- Interests of sources with the same routing ask for the same. -/
theorem EventSource.SameRouting.sameInterest {s t : EventSource} (h : s.SameRouting t) (pool : PoolKey)
    (adapter : AmmAdapter) : SameInterest (poolLogInterest addresses words routeLog s pool adapter)
      (poolLogInterest addresses words routeLog t pool adapter) := by
  obtain ⟨haddress, htopics⟩ := (sameFilter_iff addresses words).mpr ⟨h.1.1, h.1.2.2, h.2⟩
  refine ⟨haddress, htopics, congrArg some ?_, congrArg routeKeySpec h.1.2.1⟩
  funext registry log
  exact h.poolSourceMatches routeLog pool adapter registry log

end

/-! ### Telling routes apart -/

/-- Every source takes some log, of as many topics as one likes. -/
theorem exists_matchesFilter (source : EventSource) (index : Nat) :
    ∃ log topic, source.matchesFilter log = true ∧ log.data.topics[index]? = some topic := by
  have hhead : ∀ expected : List B256, EventSource.matchesIndexedTopic expected (some (expected.headD 0)) = true := by
    intro expected
    cases expected with
    | nil => rfl
    | cons topic rest => simp [EventSource.matchesIndexedTopic]
  let topics := source.topics.headD 0 :: source.indexedTopics.1.headD 0 :: source.indexedTopics.2.1.headD 0 ::
    source.indexedTopics.2.2.headD 0 :: List.replicate index 0
  have hlength : index < topics.length := by
    simp only [topics, List.length_cons, List.length_replicate]
    omega
  refine ⟨⟨source.emitter, ⟨topics, []⟩⟩, topics[index], ?_, List.getElem?_eq_getElem hlength⟩
  rw [matchesFilter_eq, EventSource.matchesIndexedTopics]
  simp only [topics, List.getElem?_cons_zero, List.getElem?_cons_succ, hhead, decide_true, Bool.and_self]

section
variable (addresses : Hashing Address) (words : Hashing B256)
  (routeLog : AmmAdapter → Log → AdapterRegistry → Option PoolKey)

/-- Some pool tells the route of a source from every other route: one with an address and an identifier of which a log of
    the source names only the one that the route reads. -/
theorem exists_pool_sameRoute (source : EventSource) : ∃ pool, ∀ adapter other,
    SameInterest (poolLogInterest addresses words routeLog source pool adapter)
      (poolLogInterest addresses words routeLog other pool adapter) → source.route = other.route := by
  cases hroute : source.route with
  | direct =>
    refine ⟨.curve 0, fun adapter other h => ?_⟩
    have hkey : routeKeySpec source.route = routeKeySpec other.route := h.routeKey
    cases hother : other.route <;> rw [hroute, hother] at hkey <;> first | rfl | cases hkey
  | adapterDefined =>
    refine ⟨.curve 0, fun adapter other h => ?_⟩
    have hkey : routeKeySpec source.route = routeKeySpec other.route := h.routeKey
    cases hother : other.route <;> rw [hroute, hother] at hkey <;> first | rfl | cases hkey
  | indexedAddress topicIndex =>
    obtain ⟨log, topic, hfilter, htopic⟩ := exists_matchesFilter source topicIndex.toNat
    refine ⟨.custom (.composite "" (topicAddress topic) (topic + 1)), fun adapter other h => ?_⟩
    have hkey : routeKeySpec source.route = routeKeySpec other.route := h.routeKey
    have hmatch := congrFun (congrFun (Option.some.inj h.localMatcher) .empty) log
    cases hother : other.route with
    | direct => rw [hroute, hother] at hkey; cases hkey
    | adapterDefined => rw [hroute, hother] at hkey; cases hkey
    | indexedAddress otherIndex => rw [hroute, hother] at hkey; cases hkey; rfl
    | indexedBytes32 otherIndex =>
      rw [hroute, hother] at hkey
      cases hkey
      simp [poolSourceMatches, eventSourceMatches, hroute, hother, hfilter, htopic, PoolKey.address, PoolKey.bytes32,
        CustomPoolKey.address?, CustomPoolKey.bytes32?] at hmatch
  | indexedBytes32 topicIndex =>
    obtain ⟨log, topic, hfilter, htopic⟩ := exists_matchesFilter source topicIndex.toNat
    refine ⟨.custom (.composite "" (topicAddress topic + 1) topic), fun adapter other h => ?_⟩
    have hkey : routeKeySpec source.route = routeKeySpec other.route := h.routeKey
    have hmatch := congrFun (congrFun (Option.some.inj h.localMatcher) .empty) log
    cases hother : other.route with
    | direct => rw [hroute, hother] at hkey; cases hkey
    | adapterDefined => rw [hroute, hother] at hkey; cases hkey
    | indexedAddress otherIndex =>
      rw [hroute, hother] at hkey
      cases hkey
      simp [poolSourceMatches, eventSourceMatches, hroute, hother, hfilter, htopic, PoolKey.address, PoolKey.bytes32,
        CustomPoolKey.address?, CustomPoolKey.bytes32?] at hmatch
    | indexedBytes32 otherIndex => rw [hroute, hother] at hkey; cases hkey; rfl

/-! ### The comparison -/

/-- Lists that the comparison calls the same take the same logs for the same routes and ask for the same interests, so a
    refresh that keeps its subscription misses no log; the order and the repetition of sources do not matter. -/
structure DecidesRouting (left right : List EventSource) : Prop where
  routes : sameEventSources left right = true → ∀ log route,
    (∃ source ∈ left, source.route = route ∧ source.matchesFilter log = true) ↔
      ∃ source ∈ right, source.route = route ∧ source.matchesFilter log = true
  interests : sameEventSources left right = true → ∀ (pool : PoolRegistration) (adapter : AmmAdapter),
    MatchedBy SameInterest (AmmPoolReactiveHandler.interests addresses words routeLog ⟨pool, adapter, left⟩)
      (AmmPoolReactiveHandler.interests addresses words routeLog ⟨pool, adapter, right⟩)
  kept : ∀ registry previous replacement adapter routing log, registry.eventSourcesFor previous = left →
    registry.eventSourcesFor replacement = right → subscriptionChanged registry previous replacement = false →
      AmmPoolReactiveHandler.accepts routeLog ⟨replacement, adapter, right⟩ routing log = true →
        ∃ interest ∈ AmmPoolReactiveHandler.interests addresses words routeLog ⟨previous, adapter, left⟩,
          interest.providerFilter.matchesLog log = true
  unordered : ∀ left' right', SameElements left' left → SameElements right' right →
    sameEventSources left' right' = sameEventSources left right

/-- The lists have the same sources, but for their indexed topics. -/
def DifferInIndexedTopicsAlone (left right : List EventSource) : Prop :=
  MatchedBy EventSource.SameSource left right ∧ ¬MatchedBy EventSource.SameRouting left right

variable {left right : List EventSource}

theorem sameRouting_of_interests
    (h : ∀ (pool : PoolRegistration) (adapter : AmmAdapter),
      MatchedBy SameInterest (AmmPoolReactiveHandler.interests addresses words routeLog ⟨pool, adapter, left⟩)
        (AmmPoolReactiveHandler.interests addresses words routeLog ⟨pool, adapter, right⟩)) :
    MatchedBy EventSource.SameRouting left right := by
  let adapter : AmmAdapter := ⟨0, .curve, [.curve], List.mem_singleton_self _, fun _ => .default, fun _ => []⟩
  have hat : ∀ pool, MatchedBy (fun s t => SameInterest (poolLogInterest addresses words routeLog s pool adapter)
      (poolLogInterest addresses words routeLog t pool adapter)) left right := fun pool =>
    MatchedBy.map.mp (h ⟨pool, [], [], .unknown, .ready⟩ adapter)
  have hrouting : ∀ {s t : EventSource} {pool}, SameInterest (poolLogInterest addresses words routeLog s pool adapter)
      (poolLogInterest addresses words routeLog t pool adapter) → s.route = t.route → s.SameRouting t := by
    intro s t pool hsame hroute
    obtain ⟨hemitter, htopics, hindexed⟩ := (sameFilter_iff addresses words).mp ⟨hsame.address, hsame.topics⟩
    exact ⟨⟨hemitter, hroute, htopics⟩, hindexed⟩
  constructor
  · intro s hs
    obtain ⟨pool, hpool⟩ := exists_pool_sameRoute addresses words routeLog s
    obtain ⟨t, ht, hsame⟩ := (hat pool).1 s hs
    exact ⟨t, ht, hrouting hsame (hpool adapter t hsame)⟩
  · intro t ht
    obtain ⟨pool, hpool⟩ := exists_pool_sameRoute addresses words routeLog t
    obtain ⟨s, hs, hsame⟩ := (hat pool).2 t ht
    exact ⟨s, hs, hrouting hsame (hpool adapter s hsame.symm).symm⟩

/-- The comparison decides the routing of two lists unless they differ in their indexed topics alone. -/
theorem sameEventSources_decides_iff :
    DecidesRouting addresses words routeLog left right ↔ ¬DifferInIndexedTopicsAlone left right := by
  constructor
  · rintro h ⟨hsame, hdiffer⟩
    exact hdiffer (sameRouting_of_interests addresses words routeLog (h.interests (sameEventSources_iff.mpr hsame)))
  · intro h
    have hrouting : sameEventSources left right = true → MatchedBy EventSource.SameRouting left right := fun hsame =>
      not_not.mp (not_and.mp h (sameEventSources_iff.mp hsame))
    refine ⟨fun hsame log route => ?_, fun hsame pool adapter => ?_, ?_, fun left' right' hleft hright => ?_⟩
    · obtain ⟨hright, hleft⟩ := hrouting hsame
      constructor
      · rintro ⟨s, hs, hroute, hmatches⟩
        obtain ⟨t, ht, hst⟩ := hright s hs
        exact ⟨t, ht, hst.1.2.1 ▸ hroute, hst.matchesFilter log ▸ hmatches⟩
      · rintro ⟨t, ht, hroute, hmatches⟩
        obtain ⟨s, hs, hst⟩ := hleft t ht
        exact ⟨s, hs, hst.1.2.1.trans hroute, (hst.matchesFilter log).trans hmatches⟩
    · exact MatchedBy.map.mpr ((hrouting hsame).mono fun s t hst => hst.sameInterest addresses words
        routeLog pool.key adapter)
    · rintro registry previous replacement adapter routing log rfl rfl hchanged haccepts
      obtain ⟨t, ht, hmatches⟩ := List.any_eq_true.mp haccepts
      obtain ⟨s, hs, hst⟩ := (hrouting (by simpa [subscriptionChanged] using hchanged)).2 t ht
      refine ⟨_, List.mem_map_of_mem hs, ?_⟩
      rw [poolLogInterest, providerFilter_matchesLog, hst.matchesFilter log]
      exact ((Bool.and_eq_true _ _).mp hmatches).1
    · rw [Bool.eq_iff_iff, sameEventSources_iff, sameEventSources_iff, MatchedBy.congr hleft hright]

end

/-- A pool's logs of one indexed value. -/
def valueSource (value : B256) : EventSource := ⟨0x11, [], .direct, [value], [], []⟩

/-- Sources of different values are called the same, and a log of the second value has no route in the first. -/
theorem sameEventSources_value :
    ¬DecidesRouting Hashing.inOrder Hashing.inOrder (fun _ _ _ => none) [valueSource 1] [valueSource 2] := by
  intro h
  have hroutes := h.routes (by decide) ⟨0x11, ⟨[0, 2], []⟩⟩ .direct
  revert hroutes
  decide

end AmmState
