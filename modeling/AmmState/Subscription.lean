import AmmState.Routing
import AmmState.Subscriber.Filters
import Mathlib.Data.Fin.VecNotation

/-! The subscription of a pool: the interests that its handler asks a transport for (`reactive.rs`), and the comparison by
    which a refresh keeps the ones that are installed (`sync_manager/subscription.rs`). -/

namespace AmmState
open Subscriber

/-! ### Interests -/

inductive RouteKeySpec
  | emitterAddress
  | topic (index : U64)
  deriving DecidableEq

def routeKeySpec : EventRoute → Option RouteKeySpec
  | .direct => some .emitterAddress
  | .indexedAddress topicIndex | .indexedBytes32 topicIndex => some (.topic topicIndex)
  | .adapterDefined => none

/-- What a transport is asked for: a provider's filter, a predicate that the logs it delivers have to meet under the
    registry of the moment, and the route that they are indexed by. -/
structure LogInterest where
  providerFilter : Filter
  localMatcher : Option (AdapterRegistry → Log → Bool)
  routeKey : Option RouteKeySpec

section
variable (addresses : Hashing Address) (words : Hashing B256)

/-- No signature, or no value for a topic, is a wildcard. -/
def logInterest (source : EventSource) : LogInterest where
  providerFilter := ⟨addresses.collect [source.emitter],
    ![if source.topics.isEmpty then .empty else words.collect source.topics, words.collect source.indexedTopics.1,
      words.collect source.indexedTopics.2.1, words.collect source.indexedTopics.2.2]⟩
  localMatcher := none
  routeKey := routeKeySpec source.route

variable (routeLog : AmmAdapter → Log → AdapterRegistry → Option PoolKey)

def poolLogInterest (source : EventSource) (pool : PoolKey) (adapter : AmmAdapter) : LogInterest :=
  { logInterest addresses words source with
    localMatcher := some fun registry log => poolSourceMatches routeLog source pool adapter registry log }

def AmmPoolReactiveHandler.interests (handler : AmmPoolReactiveHandler) : List LogInterest :=
  handler.sources.map fun source => poolLogInterest addresses words routeLog source handler.pool.key handler.adapter

end

/-! ### Comparison -/

/-- A source of the list with the same emitter, route and signatures. -/
def containsSource (sources : List EventSource) (candidate : EventSource) : Bool :=
  sources.any fun source => decide (source.emitter = candidate.emitter) && decide (source.route = candidate.route) &&
    source.topics.all (fun topic => decide (topic ∈ candidate.topics)) &&
    candidate.topics.all fun topic => decide (topic ∈ source.topics)

def sameEventSources (left right : List EventSource) : Bool :=
  left.all (containsSource right) && right.all (containsSource left)

/-- Whether a refresh replaces the subscription that is installed. -/
def subscriptionChanged (registry : AdapterRegistry) (previous replacement : PoolRegistration) : Bool :=
  !sameEventSources (registry.eventSourcesFor previous) (registry.eventSourcesFor replacement)

end AmmState
