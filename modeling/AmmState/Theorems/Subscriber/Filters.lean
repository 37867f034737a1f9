import AmmState.Subscriber.Filters
import Mathlib.Tactic.Common

/-! Coalescing the filters of a read keeps what they say of logs and blooms: a predicate that reads a filter one address at
    a time, and its topics as sets, holds of some filter of the list exactly if it holds of some coalesced filter. -/

namespace AmmState.Subscriber

/-! ### Sets -/

namespace FilterSet
variable {α : Type} [DecidableEq α] {s t : FilterSet α}

theorem sameSet_iff : s.sameSet t = true ↔ ∀ a, a ∈ s.items ↔ a ∈ t.items := by
  simp only [sameSet, Bool.and_eq_true, List.all_eq_true, decide_eq_true_eq]
  exact ⟨fun ⟨hst, hts⟩ a => ⟨hst a, hts a⟩, fun h => ⟨fun a => (h a).mp, fun a => (h a).mpr⟩⟩

omit [DecidableEq α] in
theorem isEmpty_iff : s.isEmpty = true ↔ ∀ a, a ∉ s.items := by
  rw [isEmpty, List.isEmpty_iff, List.eq_nil_iff_forall_not_mem]

theorem isEmpty_congr (h : s.sameSet t = true) : s.isEmpty = t.isEmpty := by
  rw [Bool.eq_iff_iff, isEmpty_iff, isEmpty_iff]
  simp only [sameSet_iff.mp h]

theorem any_congr (h : s.sameSet t = true) (p : α → Bool) : s.items.any p = t.items.any p := by
  rw [Bool.eq_iff_iff, List.any_eq_true, List.any_eq_true]
  simp only [sameSet_iff.mp h]

theorem matchesValue_congr (h : s.sameSet t = true) : s.matchesValue = t.matchesValue := by
  funext a
  rw [matchesValue, matchesValue, isEmpty_congr h]
  simp only [sameSet_iff.mp h]

end FilterSet

/-! ### Runs of a list -/

theorem mem_chunks {α : Type} {size : Nat} (hsize : 0 < size) (l : List α) (a : α) :
    (∃ chunk ∈ chunks size l, a ∈ chunk) ↔ a ∈ l := by
  simp only [chunks, List.mem_map, List.mem_range, exists_exists_and_eq_and]
  constructor
  · rintro ⟨i, _, ha⟩
    exact List.mem_of_mem_drop (List.mem_of_mem_take ha)
  · intro ha
    obtain ⟨k, hk, rfl⟩ := List.mem_iff_getElem.mp ha
    have hsplit : size * (k / size) + k % size = k := Nat.div_add_mod k size
    have hmod : k % size < size := Nat.mod_lt k hsize
    refine ⟨k / size, ?_, ?_⟩
    · rw [Nat.div_lt_iff_lt_mul hsize] at *
      have hceil := Nat.div_add_mod (l.length + size - 1) size
      have hrest := Nat.mod_lt (l.length + size - 1) hsize
      rw [Nat.mul_comm] at hceil
      omega
    · refine List.mem_iff_getElem.mpr ⟨k % size, ?_, ?_⟩
      · rw [List.length_take, List.length_drop, Nat.mul_comm]
        omega
      · rw [List.getElem_take, List.getElem_drop]
        congr 1
        rw [Nat.mul_comm, hsplit]

theorem ne_nil_of_mem_chunks {α : Type} {size : Nat} (hsize : 0 < size) {l chunk : List α} (h : chunk ∈ chunks size l) :
    chunk ≠ [] := by
  obtain ⟨i, hi, rfl⟩ := List.mem_map.mp h
  have hle : (i + 1) * size ≤ l.length + size - 1 := (Nat.le_div_iff_mul_le hsize).mp (List.mem_range.mp hi)
  rw [Nat.add_mul] at hle
  refine List.ne_nil_of_length_pos ?_
  rw [List.length_take, List.length_drop]
  omega

theorem length_le_of_mem_chunks {α : Type} {size : Nat} {l chunk : List α} (h : chunk ∈ chunks size l) :
    chunk.length ≤ size := by
  obtain ⟨i, _, rfl⟩ := List.mem_map.mp h
  exact List.length_take_le _ _

/-! ### Predicates of filters -/

abbrev TopicSets := Fin 4 → FilterSet B256

def SameTopics (t u : TopicSets) : Prop := ∀ i, (t i).sameSet (u i) = true

theorem Filter.sameTopics_iff {f g : Filter} : f.sameTopics g = true ↔ SameTopics f.topics g.topics := by
  rw [sameTopics, decide_eq_true_eq, SameTopics]

/-- A predicate that reads a filter one address at a time, and its topics as sets. What holds for one address holds for
    the wildcard. -/
structure Pointwise where
  wildcard : TopicSets → Bool
  concrete : TopicSets → Address → Bool
  absorbs : ∀ {topics address}, concrete topics address = true → wildcard topics = true
  wildcard_congr : ∀ {t u}, SameTopics t u → wildcard t = wildcard u
  concrete_congr : ∀ {t u}, SameTopics t u → concrete t = concrete u

namespace Pointwise
variable (P : Pointwise) (hashing : Hashing Address)

def holds (filter : Filter) : Bool :=
  if filter.address.isEmpty then P.wildcard filter.topics else filter.address.items.any (P.concrete filter.topics)

variable {P hashing}

theorem wildcard_of_holds {filter : Filter} (h : P.holds filter = true) : P.wildcard filter.topics = true := by
  unfold holds at h
  split_ifs at h with hempty
  · exact h
  · obtain ⟨address, _, haddress⟩ := List.any_eq_true.mp h
    exact P.absorbs haddress

theorem unionAddresses_mem (s t : FilterSet Address) (a : Address) :
    a ∈ (unionAddresses hashing s t).items ↔ a ∈ s.items ∨ a ∈ t.items := by
  rw [unionAddresses, hashing.mem_collect, SortDedup.mem_sortDedup_iff, List.mem_append]

theorem any_unionAddresses (p : Address → Bool) (s t : FilterSet Address) :
    (unionAddresses hashing s t).items.any p = (s.items.any p || t.items.any p) := by
  rw [Bool.eq_iff_iff, Bool.or_eq_true, List.any_eq_true, List.any_eq_true, List.any_eq_true]
  simp only [unionAddresses_mem, or_and_right, exists_or]

/-- A joined group says what the group or the filter said. -/
theorem holds_joinGroup {group filter : Filter} (h : group.sameTopics filter = true) :
    P.holds (joinGroup hashing group filter) = (P.holds group || P.holds filter) := by
  have htopics : SameTopics group.topics filter.topics := Filter.sameTopics_iff.mp h
  rw [joinGroup]
  split_ifs with hwild
  · rw [show P.holds { group with address := .empty } = P.wildcard group.topics from if_pos rfl, Bool.eq_iff_iff,
      Bool.or_eq_true]
    constructor
    · intro hholds
      rcases Bool.or_eq_true_iff.mp hwild with hgroup | hfilter
      · exact .inl ((if_pos hgroup).trans hholds)
      · exact .inr ((if_pos hfilter).trans (P.wildcard_congr htopics ▸ hholds))
    · rintro (hgroup | hfilter)
      · exact wildcard_of_holds hgroup
      · exact (P.wildcard_congr htopics).trans (wildcard_of_holds hfilter)
  · obtain ⟨hgroup, hfilter⟩ : ¬group.address.isEmpty = true ∧ ¬filter.address.isEmpty = true := by
      simpa using hwild
    have hunion : ¬(unionAddresses hashing group.address filter.address).isEmpty = true := by
      intro hempty
      refine hgroup (FilterSet.isEmpty_iff.mpr fun a ha => FilterSet.isEmpty_iff.mp hempty a ?_)
      exact (unionAddresses_mem ..).mpr (.inl ha)
    rw [holds, holds, holds, if_neg hgroup, if_neg hfilter, if_neg hunion, any_unionAddresses,
      P.concrete_congr htopics]

theorem any_groupFilter (groups : List Filter) (filter : Filter) :
    (groupFilter hashing groups filter).any P.holds = (groups.any P.holds || P.holds filter) := by
  induction groups with
  | nil => simp [groupFilter]
  | cons group rest ih =>
    rw [groupFilter]
    split_ifs with h
    · rw [List.any_cons, List.any_cons, holds_joinGroup h, Bool.or_assoc, Bool.or_assoc, Bool.or_comm (rest.any _)]
    · rw [List.any_cons, List.any_cons, ih, Bool.or_assoc]

theorem any_foldl_groupFilter (filters groups : List Filter) :
    (filters.foldl (groupFilter hashing) groups).any P.holds = (groups.any P.holds || filters.any P.holds) := by
  induction filters generalizing groups with
  | nil => simp
  | cons filter filters ih => rw [List.foldl_cons, ih, any_groupFilter, List.any_cons, Bool.or_assoc]

/-- The runs of a group say together what the group says. -/
theorem any_splitGroup (maxAddresses : Nat) (group : Filter) :
    (splitGroup hashing maxAddresses group).any P.holds = P.holds group := by
  rw [splitGroup]
  split_ifs with hempty
  · simp
  · have hsize : 0 < max maxAddresses 1 := Nat.lt_of_lt_of_le Nat.one_pos (le_max_right ..)
    have hchunk : ∀ chunk ∈ chunks (max maxAddresses 1) group.address.items,
        P.holds { group with address := hashing.collect chunk } = chunk.any (P.concrete group.topics) := by
      intro chunk hchunk
      obtain ⟨a, ha⟩ := List.exists_mem_of_ne_nil chunk (ne_nil_of_mem_chunks hsize hchunk)
      have hsome : ¬(hashing.collect chunk).isEmpty = true :=
        fun h => FilterSet.isEmpty_iff.mp h a ((hashing.mem_collect chunk a).mpr ha)
      rw [holds, if_neg hsome, Bool.eq_iff_iff, List.any_eq_true, List.any_eq_true]
      simp only [hashing.mem_collect]
    rw [holds, if_neg hempty, Bool.eq_iff_iff, List.any_map, List.any_eq_true, List.any_eq_true]
    constructor
    · rintro ⟨chunk, hmem, hholds⟩
      obtain ⟨a, ha, hconcrete⟩ := List.any_eq_true.mp ((hchunk chunk hmem).symm.trans hholds)
      exact ⟨a, (mem_chunks hsize _ a).mp ⟨chunk, hmem, ha⟩, hconcrete⟩
    · rintro ⟨a, ha, hconcrete⟩
      obtain ⟨chunk, hmem, ha⟩ := (mem_chunks hsize _ a).mpr ha
      exact ⟨chunk, hmem, (hchunk chunk hmem).trans (List.any_eq_true.mpr ⟨a, ha, hconcrete⟩)⟩

variable (P) (hashing) in
theorem any_reconciliationFilters (filters : List Filter) (maxAddresses : Nat) :
    (reconciliationFilters hashing filters maxAddresses).any P.holds = filters.any P.holds := by
  rw [reconciliationFilters, List.any_flatMap]
  simp only [any_splitGroup, any_foldl_groupFilter, List.any_nil, Bool.false_or]

/-- The topic half of a match. -/
def matchesTopics (topics : TopicSets) (log : Log) : Bool :=
  decide (∀ i, Filter.matchesTopic ⟨.empty, topics⟩ log.data.topics i = true)

theorem matchesTopics_congr {t u : TopicSets} (h : SameTopics t u) (log : Log) :
    matchesTopics t log = matchesTopics u log := by
  refine decide_eq_decide.mpr (forall_congr' fun i => ?_)
  rw [Filter.matchesTopic, Filter.matchesTopic, FilterSet.isEmpty_congr (h i), FilterSet.matchesValue_congr (h i)]

/-- The predicate that says whether a filter matches a log. -/
def matching (log : Log) : Pointwise where
  wildcard topics := matchesTopics topics log
  concrete topics address := decide (address = log.address) && matchesTopics topics log
  absorbs h := ((Bool.and_eq_true ..).mp h).2
  wildcard_congr h := matchesTopics_congr h log
  concrete_congr h := by rw [matchesTopics_congr h log]

theorem holds_matching (log : Log) (filter : Filter) : (matching log).holds filter = filter.matchesLog log := by
  rw [holds, Filter.matchesLog, FilterSet.matchesValue]
  split_ifs with hempty
  · rw [hempty, Bool.true_or, Bool.true_and]
    rfl
  · rw [Bool.eq_false_of_not_eq_true hempty, Bool.false_or, Bool.eq_iff_iff, List.any_eq_true, Bool.and_eq_true]
    simp only [matching, matchesTopics, Bool.and_eq_true, decide_eq_true_eq]
    exact ⟨fun ⟨a, ha, heq, htopics⟩ => ⟨heq ▸ ha, htopics⟩, fun ⟨ha, htopics⟩ => ⟨_, ha, rfl, htopics⟩⟩

/-- The predicate that says whether a bloom lets a filter through. -/
def admitting (admits : Bytes → Bool) : Pointwise where
  wildcard _ := true
  concrete topics address := admits (addressBytes address) &&
    !decide (∃ i, !(topics i).isEmpty && !(topics i).items.any fun topic => admits (wordBytes topic))
  absorbs _ := rfl
  wildcard_congr _ := rfl
  concrete_congr h := by
    simp only [FilterSet.isEmpty_congr (h _), FilterSet.any_congr (h _)]

theorem holds_admitting (admits : Bytes → Bool) {filter : Filter} (h : ¬filter.address.isEmpty = true) :
    (admitting admits).holds filter = admitsFilter admits filter := by
  rw [holds, if_neg h, admitsFilter, Bool.eq_iff_iff, List.any_eq_true, Bool.and_eq_true, List.any_eq_true]
  simp only [admitting, Bool.and_eq_true, ← and_assoc, exists_and_right]

theorem excludesEveryFilterFrom_eq (admits : Bytes → Bool) (saw : Bool) (filters : List Filter) :
    excludesEveryFilterFrom admits saw filters =
      ((saw || !filters.isEmpty) && !filters.any (admitting admits).holds) := by
  induction filters generalizing saw with
  | nil => simp [excludesEveryFilterFrom]
  | cons filter rest ih =>
    rw [excludesEveryFilterFrom, List.any_cons]
    split_ifs with hempty hadmits
    · simp [show (admitting admits).holds filter = true from if_pos hempty]
    · simp [(holds_admitting admits hempty).trans hadmits]
    · rw [ih, holds_admitting admits hempty, Bool.eq_false_of_not_eq_true hadmits]
      simp

end Pointwise

open AmmState.Subscriber.Pointwise

section
variable {hashing : Hashing Address} {Bloom : Type} {containsInput : Bloom → Bytes → Bool}

theorem excludesEveryFilter_eq (bloom : Bloom) (filters : List Filter) :
    excludesEveryFilter containsInput bloom filters =
      (!filters.isEmpty && !filters.any (admitting (containsInput bloom)).holds) := by
  rw [excludesEveryFilter, excludesEveryFilterFrom_eq, Bool.false_or]

theorem isEmpty_reconciliationFilters (filters : List Filter) (maxAddresses : Nat) :
    (reconciliationFilters hashing filters maxAddresses).isEmpty = filters.isEmpty := by
  -- A list is empty exactly if not even the predicate that always holds has a filter in it.
  let always : Pointwise := ⟨fun _ => true, fun _ _ => true, fun _ => rfl, fun _ => rfl, fun _ => rfl⟩
  have halways : ∀ filter, always.holds filter = true := by
    intro filter
    rw [holds]
    split_ifs with hempty
    · rfl
    · obtain ⟨a, ha⟩ := List.exists_mem_of_ne_nil _ (mt List.isEmpty_iff.mpr hempty)
      exact List.any_eq_true.mpr ⟨a, ha, rfl⟩
  have hany : ∀ l : List Filter, l.any always.holds = !l.isEmpty := by
    intro l
    cases l with
    | nil => rfl
    | cons filter rest => simp [halways]
  have heq := any_reconciliationFilters always hashing filters maxAddresses
  rw [hany, hany] at heq
  exact Bool.not_inj heq

/-- A set collected from a run is not larger than the run. -/
theorem length_collect_le {α : Type} (hashing : Hashing α) (values : List α) :
    (hashing.collect values).items.length ≤ values.length :=
  (List.subperm_of_subset (hashing.collect values).nodup fun a ha => (hashing.mem_collect values a).mp ha).length_le

theorem address_bound {filters : List Filter} {maxAddresses : Nat} (h : 0 < maxAddresses) {filter : Filter}
    (hfilter : filter ∈ reconciliationFilters hashing filters maxAddresses) :
    filter.address.isEmpty = true ∨ filter.address.items.length ≤ maxAddresses := by
  obtain ⟨group, _, hmem⟩ := List.mem_flatMap.mp hfilter
  unfold splitGroup at hmem
  split_ifs at hmem with hempty
  · obtain rfl := List.mem_singleton.mp hmem
    exact .inl hempty
  · obtain ⟨chunk, hchunk, rfl⟩ := List.mem_map.mp hmem
    rw [max_eq_left h] at hchunk
    exact .inr ((length_collect_le hashing chunk).trans (length_le_of_mem_chunks hchunk))

/-- A bloom that has the emitter and every topic of a log lets through every filter that the log matches. -/
theorem admitting_of_matches {admits : Bytes → Bool} {log : Log} {filter : Filter}
    (haddress : admits (addressBytes log.address) = true)
    (htopics : ∀ topic ∈ log.data.topics, admits (wordBytes topic) = true) (h : filter.matchesLog log = true) :
    (admitting admits).holds filter = true := by
  obtain ⟨hemitter, hpositions⟩ := (Bool.and_eq_true ..).mp h
  by_cases hempty : filter.address.isEmpty = true
  · exact if_pos hempty
  · have hmem : log.address ∈ filter.address.items := by
      simpa [FilterSet.matchesValue, hempty] using hemitter
    rw [holds_admitting admits hempty, admitsFilter, Bool.and_eq_true, Bool.not_eq_true', decide_eq_false_iff_not]
    refine ⟨List.any_eq_true.mpr ⟨_, hmem, haddress⟩, ?_⟩
    rintro ⟨i, hi⟩
    obtain ⟨hconstrained, hnone⟩ := (Bool.and_eq_true ..).mp hi
    have hposition : filter.matchesTopic log.data.topics i = true := of_decide_eq_true hpositions i
    rw [Bool.not_eq_true'] at hconstrained hnone
    rw [Filter.matchesTopic, hconstrained, Bool.false_or, Option.any_eq_true] at hposition
    obtain ⟨topic, htopic, hvalue⟩ := hposition
    rw [FilterSet.matchesValue, hconstrained, Bool.false_or, decide_eq_true_eq] at hvalue
    have hadmits : (filter.topics i).items.any (fun topic => admits (wordBytes topic)) = true :=
      List.any_eq_true.mpr ⟨topic, hvalue, htopics topic (List.mem_of_getElem? htopic)⟩
    exact Bool.noConfusion (hnone.symm.trans hadmits)

/-- Coalescing keeps the union of the filters and the verdict of every bloom, and keeps to the bound. The verdict is sound
    for the logs that the bloom contains. -/
theorem reconciliationFilters_faithful (hashing : Hashing Address) (containsInput : Bloom → Bytes → Bool)
    (filters : List Filter) (maxAddresses : Nat) (hbound : 0 < maxAddresses) :
    (∀ log : Log, (∃ filter ∈ reconciliationFilters hashing filters maxAddresses, filter.matchesLog log = true) ↔
      ∃ filter ∈ filters, filter.matchesLog log = true) ∧
    (∀ filter ∈ reconciliationFilters hashing filters maxAddresses,
      filter.address.isEmpty = true ∨ filter.address.items.length ≤ maxAddresses) ∧
    (∀ bloom, excludesEveryFilter containsInput bloom (reconciliationFilters hashing filters maxAddresses) =
      excludesEveryFilter containsInput bloom filters) ∧
    ∀ (bloom : Bloom) (logs : List Log), excludesEveryFilter containsInput bloom filters = true →
      (∀ log ∈ logs, containsInput bloom (addressBytes log.address) = true ∧
        ∀ topic ∈ log.data.topics, containsInput bloom (wordBytes topic) = true) →
      ∀ log ∈ logs, ∀ filter ∈ filters, filter.matchesLog log = false := by
  refine ⟨fun log => ?_, fun filter => address_bound hbound, fun bloom => ?_, ?_⟩
  · have heq := any_reconciliationFilters (matching log) hashing filters maxAddresses
    rw [Bool.eq_iff_iff, List.any_eq_true, List.any_eq_true] at heq
    simpa only [holds_matching] using heq
  · rw [excludesEveryFilter_eq, excludesEveryFilter_eq, isEmpty_reconciliationFilters, any_reconciliationFilters]
  · intro bloom logs hexcluded hcontains log hlog filter hfilter
    rw [excludesEveryFilter_eq, Bool.and_eq_true, Bool.not_eq_true', Bool.not_eq_true'] at hexcluded
    obtain ⟨haddress, htopics⟩ := hcontains log hlog
    refine Bool.eq_false_of_not_eq_true fun hmatches => ?_
    exact List.any_eq_false.mp hexcluded.2 filter hfilter (admitting_of_matches haddress htopics hmatches)

/-- The events of one signature and one emitter. -/
def eventsOf (emitter : Address) (signature : B256) : Filter :=
  ⟨Hashing.inOrder.collect [emitter], fun i => if i = 0 then Hashing.inOrder.collect [signature] else .empty⟩

/-- A bloom without false positives, as the inputs it holds. -/
def holdsInput (bloom : List Bytes) (input : Bytes) : Bool := decide (input ∈ bloom)

theorem reconciliationFilters_faithful_eventsOf :
    (eventsOf 1 3).matchesLog ⟨9, ⟨[3], []⟩⟩ = false ∧ (eventsOf 2 3).matchesLog ⟨9, ⟨[3], []⟩⟩ = false := by
  have hexcluded : excludesEveryFilter holdsInput [addressBytes 9, wordBytes 3] [eventsOf 1 3, eventsOf 2 3] = true := by
    decide +kernel
  have hcontains : ∀ log ∈ [(⟨9, ⟨[3], []⟩⟩ : Log)],
      holdsInput [addressBytes 9, wordBytes 3] (addressBytes log.address) = true ∧
        ∀ topic ∈ log.data.topics, holdsInput [addressBytes 9, wordBytes 3] (wordBytes topic) = true := by
    intro log hlog
    obtain rfl := List.mem_singleton.mp hlog
    refine ⟨by decide +kernel, fun topic htopic => ?_⟩
    obtain rfl := List.mem_singleton.mp htopic
    decide +kernel
  have h := reconciliationFilters_faithful Hashing.inOrder holdsInput [eventsOf 1 3, eventsOf 2 3] 1 Nat.one_pos
  have hnone := h.2.2.2 _ _ hexcluded hcontains _ List.mem_cons_self
  exact ⟨hnone _ List.mem_cons_self, hnone _ (List.mem_cons_of_mem _ List.mem_cons_self)⟩

end
end AmmState.Subscriber
