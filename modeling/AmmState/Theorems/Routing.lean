import AmmState.Routing

/-! When the exact-key index of a set of handlers proposes every handler whose predicate takes a log. -/

namespace AmmState
namespace AmmPoolReactiveHandler

section
variable {handler : AmmPoolReactiveHandler}

/-- The keys that the loop collects are those of the sources. -/
theorem mem_foldlM_pushKey {sources : List EventSource} {keys keys' : List LogRouteKey}
    (h : sources.foldlM handler.pushKey keys = some keys') (key : LogRouteKey) :
    key ∈ keys' ↔ key ∈ keys ∨ ∃ source ∈ sources, handler.routeKey source = some key := by
  induction sources generalizing keys with
  | nil =>
    obtain rfl : keys = keys' := Option.some.inj h
    simp
  | cons source sources ih =>
    obtain ⟨next, hnext, hrest⟩ := Option.bind_eq_some_iff.mp h
    obtain ⟨first, hfirst, hpush⟩ := Option.bind_eq_some_iff.mp hnext
    obtain rfl := Option.some.inj hpush
    have hmem : key ∈ (if first ∈ keys then keys else keys ++ [first]) ↔ key ∈ keys ∨ first = key := by
      split
      · exact ⟨.inl, fun hkey => hkey.elim id fun heq => heq ▸ ‹first ∈ keys›⟩
      · rw [List.mem_append, List.mem_singleton, eq_comm]
    rw [ih hrest, hmem, or_assoc]
    simp [hfirst]

/-- The index holds the keys of all sources. -/
theorem mem_keys {index : LogRouteIndex} (h : handler.logRouteIndex = some index) (key : LogRouteKey) :
    key ∈ index.keys ↔ ∃ source ∈ handler.sources, handler.routeKey source = some key := by
  obtain ⟨keys, hkeys, hsplit⟩ := Option.bind_eq_some_iff.mp h
  have hmem := mem_foldlM_pushKey hkeys key
  cases keys with
  | nil => exact absurd hsplit (by simp)
  | cons primary additional =>
    obtain rfl := Option.some.inj hsplit
    simpa [LogRouteIndex.keys] using hmem

/-- A source whose own key the log has. -/
def Names (handler : AmmPoolReactiveHandler) (log : Log) (source : EventSource) : Prop :=
  ∃ key, handler.routeKey source = some key ∧ key.names log = true

/-- The index passes a log over exactly if no source of the handler has a key of it. -/
theorem indexed_iff {log : Log} :
    handler.indexed log = true ↔ handler.logRouteIndex = none ∨ ∃ source ∈ handler.sources, Names handler log source := by
  unfold indexed
  cases hindex : handler.logRouteIndex with
  | none => exact iff_of_true rfl (.inl rfl)
  | some index =>
    simp only [List.any_eq_true, mem_keys hindex, reduceCtorEq, false_or, Names]
    exact ⟨fun ⟨key, ⟨source, hsource, hkey⟩, hnames⟩ => ⟨source, hsource, key, hkey, hnames⟩,
      fun ⟨source, hsource, key, hkey, hnames⟩ => ⟨key, ⟨source, hsource, hkey⟩, hnames⟩⟩

end
end AmmPoolReactiveHandler

/-! ### Topics -/

/-- A topic with a byte above its address. -/
def Overlong (topic : B256) : Prop := 2 ^ 160 ≤ topic.toNat

/-- The predicate reads an address from a topic that is not that address alone. -/
def EventSource.ReadsOverlong (source : EventSource) (log : Log) : Prop :=
  ∃ topicIndex topic, source.route = .indexedAddress topicIndex ∧ log.data.topics[topicIndex.toNat]? = some topic ∧
    Overlong topic

theorem indexedAddressTopic_topicAddress {topic : B256} :
    indexedAddressTopic (topicAddress topic) = topic ↔ ¬ Overlong topic := by
  rw [← BitVec.toNat_inj, Overlong, not_le]
  simp only [indexedAddressTopic, topicAddress, BitVec.toNat_setWidth]
  omega

section
variable {routeLog : AmmAdapter → Log → AdapterRegistry → Option PoolKey} {registry : AdapterRegistry}
  {handler : AmmPoolReactiveHandler} {log : Log} {source : EventSource}

/-- A source that takes a log has its key, if it has one, unless it reads an address from an overlong topic. -/
theorem names_iff_of_matches (hkeyed : (handler.routeKey source).isSome)
    (h : poolSourceMatches routeLog source handler.pool.key handler.adapter registry log = true) :
    handler.Names log source ↔ ¬ source.ReadsOverlong log := by
  obtain ⟨key, hkey⟩ := Option.isSome_iff_exists.mp hkeyed
  have hnames : handler.Names log source ↔ key.names log = true :=
    ⟨fun ⟨key', hkey', hnames⟩ => Option.some.inj (hkey.symm.trans hkey') ▸ hnames, fun hnames => ⟨key, hkey, hnames⟩⟩
  rw [hnames]
  simp only [poolSourceMatches, Bool.and_eq_true] at h
  obtain ⟨hfilter, hroute⟩ := h
  cases hsource : source.route with
  | direct =>
    rw [AmmPoolReactiveHandler.routeKey, hsource] at hkey
    obtain rfl := Option.some.inj hkey
    refine iff_of_true ?_ fun ⟨_, _, hoverlong, _⟩ => nomatch hsource.symm.trans hoverlong
    simp only [EventSource.matchesFilter, Bool.and_eq_true] at hfilter
    exact hfilter.1.1
  | indexedAddress topicIndex =>
    rw [AmmPoolReactiveHandler.routeKey, hsource] at hkey
    obtain ⟨address, haddress, rfl⟩ := Option.map_eq_some_iff.mp hkey
    rw [hsource] at hroute
    simp only [eventSourceMatches, hsource, Bool.and_eq_true, Option.any_eq_true, Option.map_eq_some_iff,
      decide_eq_true_eq, haddress, Option.some.injEq] at hroute
    obtain ⟨-, _, ⟨topic, htopic, rfl⟩, rfl⟩ := hroute
    have hread : source.ReadsOverlong log ↔ Overlong topic := by
      refine ⟨?_, fun h => ⟨topicIndex, topic, hsource, htopic, h⟩⟩
      rintro ⟨topicIndex', topic', hroute', htopic', hoverlong⟩
      obtain rfl := EventRoute.indexedAddress.inj (hsource.symm.trans hroute')
      exact Option.some.inj (htopic.symm.trans htopic') ▸ hoverlong
    rw [hread, ← indexedAddressTopic_topicAddress, LogRouteKey.names, decide_eq_true_eq, htopic, Option.some.injEq,
      eq_comm]
  | indexedBytes32 topicIndex =>
    rw [AmmPoolReactiveHandler.routeKey, hsource] at hkey
    obtain ⟨id, hid, rfl⟩ := Option.map_eq_some_iff.mp hkey
    rw [hsource] at hroute
    simp only [eventSourceMatches, hsource, Bool.and_eq_true, Option.any_eq_true, decide_eq_true_eq, hid,
      Option.some.injEq] at hroute
    obtain ⟨-, topic, htopic, rfl⟩ := hroute
    refine iff_of_true ?_ fun ⟨_, _, hoverlong, _⟩ => nomatch hsource.symm.trans hoverlong
    rw [LogRouteKey.names, decide_eq_true_eq, htopic]
  | adapterDefined =>
    rw [AmmPoolReactiveHandler.routeKey, hsource] at hkey
    exact absurd hkey nofun

end

/-! ### Dispatch -/

/-- A handler with an index takes a log, through address topics alone that are overlong, and none of its other sources
    names the emitter or a topic of the log. -/
def Missed (routeLog : AmmAdapter → Log → AdapterRegistry → Option PoolKey) (registry : AdapterRegistry) (log : Log)
    (handler : AmmPoolReactiveHandler) : Prop :=
  handler.logRouteIndex.isSome ∧ handler.accepts routeLog registry log = true ∧
    ∀ source ∈ handler.sources,
      if poolSourceMatches routeLog source handler.pool.key handler.adapter registry log = true
      then source.ReadsOverlong log else ¬ handler.Names log source

section
variable {routeLog : AmmAdapter → Log → AdapterRegistry → Option PoolKey} {registry : AdapterRegistry} {log : Log}

/-- Where the loop ends, every source has a key. -/
theorem keyed_of_foldlM {handler : AmmPoolReactiveHandler} {sources : List EventSource} {keys keys' : List LogRouteKey}
    (h : sources.foldlM handler.pushKey keys = some keys') {source : EventSource} (hsource : source ∈ sources) :
    (handler.routeKey source).isSome := by
  induction sources generalizing keys with
  | nil => exact absurd hsource List.not_mem_nil
  | cons first rest ih =>
    obtain ⟨next, hnext, hrest⟩ := Option.bind_eq_some_iff.mp h
    rcases List.mem_cons.mp hsource with rfl | hsource
    · obtain ⟨key, hkey, -⟩ := Option.bind_eq_some_iff.mp hnext
      exact Option.isSome_of_eq_some hkey
    · exact ih hrest hsource

theorem keyed_of_index {handler : AmmPoolReactiveHandler} (h : handler.logRouteIndex.isSome) {source : EventSource}
    (hsource : source ∈ handler.sources) : (handler.routeKey source).isSome := by
  obtain ⟨index, hindex⟩ := Option.isSome_iff_exists.mp h
  obtain ⟨keys, hkeys, -⟩ := Option.bind_eq_some_iff.mp hindex
  exact keyed_of_foldlM hkeys hsource

/-- The index passes over a handler that takes the log exactly if it is missed. -/
theorem missed_iff {handler : AmmPoolReactiveHandler} :
    Missed routeLog registry log handler ↔ handler.accepts routeLog registry log = true ∧ handler.indexed log = false := by
  rw [← Bool.not_eq_true, AmmPoolReactiveHandler.indexed_iff, not_or, Missed]
  have hsome : handler.logRouteIndex.isSome ↔ ¬ handler.logRouteIndex = none := Option.isSome_iff_ne_none
  have hsources : handler.logRouteIndex.isSome →
      ((∀ source ∈ handler.sources,
        if poolSourceMatches routeLog source handler.pool.key handler.adapter registry log = true
        then source.ReadsOverlong log else ¬ handler.Names log source) ↔
      ¬ ∃ source ∈ handler.sources, handler.Names log source) := by
    intro hindex
    push Not
    refine forall₂_congr fun source hsource => ?_
    split
    · rw [names_iff_of_matches (keyed_of_index hindex hsource) ‹_›, not_not]
    · exact Iff.rfl
  exact ⟨fun ⟨hindex, haccepts, hall⟩ => ⟨haccepts, hsome.mp hindex, (hsources hindex).mp hall⟩,
    fun ⟨haccepts, hindex, hnone⟩ => ⟨hsome.mpr hindex, haccepts, (hsources (hsome.mpr hindex)).mpr hnone⟩⟩

/-- Indexed dispatch selects what a linear scan selects exactly if it misses no handler. -/
theorem indexedDispatch_eq_iff (routeLog : AmmAdapter → Log → AdapterRegistry → Option PoolKey)
    (registry : AdapterRegistry) (handlers : List AmmPoolReactiveHandler) (log : Log) :
    ((∀ handler ∈ handlers, handler.accepts routeLog registry log = true → handler.indexed log = true) ∧
      indexedDispatch routeLog registry handlers log = linearScan routeLog registry handlers log) ↔
    ∀ handler ∈ handlers, ¬ Missed routeLog registry log handler := by
  have hmissed : ∀ handler, ¬ Missed routeLog registry log handler ↔
      (handler.accepts routeLog registry log = true → handler.indexed log = true) := by
    intro handler
    rw [missed_iff, not_and, Bool.not_eq_false]
  simp only [hmissed]
  refine ⟨fun h => h.1, fun h => ⟨h, ?_⟩⟩
  rw [indexedDispatch, linearScan, List.filter_filter]
  refine List.filter_congr fun handler hhandler => ?_
  cases haccepts : handler.accepts routeLog registry log
  · exact Bool.false_and _
  · rw [h handler hhandler haccepts]
    rfl

end

/-- A log whose pool topic has a byte above the address. -/
def overlongLog : Log := ⟨0x11, ⟨[0, 0x10000000000000000000000000000000000000022], []⟩⟩

def indexedSource : EventSource := ⟨0x11, [], .indexedAddress 1, [], [], []⟩

def indexedPool : PoolRegistration := ⟨.curve 0x22, [], [indexedSource], .unknown, .ready⟩

def curveAdapter : AmmAdapter := ⟨0, .curve, [.curve], List.mem_singleton_self _, fun _ => .default, fun _ => []⟩

def indexedRegistry : AdapterRegistry where
  adapters := [(.curve, curveAdapter)]
  pools := [indexedPool]
  protocols_nodup := List.nodup_singleton _
  keys_nodup := List.nodup_singleton _
  serves := by simp [curveAdapter]
  family := by simp [curveAdapter]

def indexedHandler : AmmPoolReactiveHandler := ⟨indexedPool, curveAdapter, [indexedSource]⟩

theorem indexedDispatch_overlong : AmmPoolReactiveHandler.ofRegistry indexedRegistry (.curve 0x22) = some indexedHandler ∧
    linearScan (fun _ _ _ => none) indexedRegistry [indexedHandler] overlongLog = [indexedHandler] ∧
    indexedDispatch (fun _ _ _ => none) indexedRegistry [indexedHandler] overlongLog = [] := by
  have haccepts : indexedHandler.accepts (fun _ _ _ => none) indexedRegistry overlongLog = true := by decide
  have hindexed : indexedHandler.indexed overlongLog = false := by decide
  exact ⟨rfl, by simp [linearScan, haccepts], by simp [indexedDispatch, hindexed]⟩

end AmmState
