import AmmState.Registry

/-! How a log finds the pools that it belongs to (`registry.rs`, `reactive.rs`): the predicate of one log source, and the
    exact keys under which a pool's handler is indexed. -/

namespace AmmState

def CustomPoolKey.address? : CustomPoolKey → Option Address
  | .address _ contract => some contract
  | .composite _ contract _ => some contract
  | .bytes32 _ _ => none

def CustomPoolKey.bytes32? : CustomPoolKey → Option B256
  | .bytes32 _ id => some id
  | .composite _ _ id => some id
  | .address _ _ => none

/-- The address identity of an address-keyed pool. -/
def PoolKey.address : PoolKey → Option Address
  | .uniswapV2 address | .uniswapV3 address | .pancakeV3 address | .slipstream address | .solidlyV2 address
  | .curve address | .balancerV3 address | .erc4626 address => some address
  | .custom key => key.address?
  | .balancerV2 _ | .uniswapV4 _ => none

/-- The bytes32 identity of a bytes32-keyed pool. -/
def PoolKey.bytes32 : PoolKey → Option B256
  | .balancerV2 id | .uniswapV4 id => some id
  | .custom key => key.bytes32?
  | .uniswapV2 _ | .uniswapV3 _ | .pancakeV3 _ | .slipstream _ | .solidlyV2 _ | .curve _ | .balancerV3 _
  | .erc4626 _ => none

namespace EventSource

/-- An empty predicate is a wildcard. -/
def matchesIndexedTopic (expected : List B256) (topic : Option B256) : Bool :=
  expected.isEmpty || topic.any fun topic => decide (topic ∈ expected)

def matchesIndexedTopics (source : EventSource) (topics : List B256) : Bool :=
  matchesIndexedTopic source.indexedTopics.1 topics[1]? && matchesIndexedTopic source.indexedTopics.2.1 topics[2]? &&
    matchesIndexedTopic source.indexedTopics.2.2 topics[3]?

/-- The emitter and topic filter that every routing rule begins with. -/
def matchesFilter (source : EventSource) (log : Log) : Bool :=
  decide (source.emitter = log.address) && source.matchesIndexedTopics log.data.topics &&
    (source.topics.isEmpty || log.data.topics.head?.any fun topic => decide (topic ∈ source.topics))

end EventSource

/-- The low twenty bytes of a topic. -/
def topicAddress (topic : B256) : Address := topic.setWidth 160

/-- An address with twelve zero bytes before it. -/
def indexedAddressTopic (address : Address) : B256 := address.setWidth 256

def eventSourceMatches (source : EventSource) (key : PoolKey) (log : Log) : Bool :=
  source.matchesFilter log &&
    match source.route with
    | .direct => true
    | .indexedAddress topicIndex =>
      (log.data.topics[topicIndex.toNat]?.map topicAddress).any fun address => decide (key.address = some address)
    | .indexedBytes32 topicIndex =>
      log.data.topics[topicIndex.toNat]?.any fun topic => decide (key.bytes32 = some topic)
    | .adapterDefined => false

/-! ### Handlers and their index -/

inductive LogRouteKey
  | emitter (emitter : Address)
  | topic (index : U64) (value : B256)
  deriving DecidableEq

/-- The exact keys of a handler; a handler without an index is asked about every log. -/
structure LogRouteIndex where
  primary : LogRouteKey
  additional : List LogRouteKey
  deriving DecidableEq

def LogRouteIndex.keys (index : LogRouteIndex) : List LogRouteKey := index.primary :: index.additional

/-- The handler of one pool registration. -/
structure AmmPoolReactiveHandler where
  pool : PoolRegistration
  adapter : AmmAdapter
  sources : List EventSource

section
variable (routeLog : AmmAdapter → Log → AdapterRegistry → Option PoolKey)

def poolSourceMatches (source : EventSource) (pool : PoolKey) (adapter : AmmAdapter) (registry : AdapterRegistry)
    (log : Log) : Bool :=
  source.matchesFilter log &&
    match source.route with
    | .adapterDefined => decide (routeLog adapter log registry = some pool)
    | .direct | .indexedAddress _ | .indexedBytes32 _ => eventSourceMatches source pool log

namespace AmmPoolReactiveHandler

/-- The predicate with which a handler takes a log or leaves it. -/
def accepts (handler : AmmPoolReactiveHandler) (registry : AdapterRegistry) (log : Log) : Bool :=
  handler.sources.any fun source => poolSourceMatches routeLog source handler.pool.key handler.adapter registry log

end AmmPoolReactiveHandler
end

namespace AmmPoolReactiveHandler

/-- The handler of a registered pool, where its protocol has an adapter. -/
def ofRegistry (registry : AdapterRegistry) (pool : PoolKey) : Option AmmPoolReactiveHandler := do
  let registration ← registry.pool pool
  let adapter ← registry.adapter registration.protocol
  return ⟨registration, adapter, registry.eventSourcesFor registration⟩

/-- The key of one source, which an adapter-defined route does not have. -/
def routeKey (handler : AmmPoolReactiveHandler) (source : EventSource) : Option LogRouteKey :=
  match source.route with
  | .direct => some (.emitter source.emitter)
  | .indexedAddress topicIndex =>
    handler.pool.key.address.map fun address => .topic topicIndex (indexedAddressTopic address)
  | .indexedBytes32 topicIndex => handler.pool.key.bytes32.map fun id => .topic topicIndex id
  | .adapterDefined => none

def pushKey (handler : AmmPoolReactiveHandler) (keys : List LogRouteKey) (source : EventSource) :
    Option (List LogRouteKey) := do
  let key ← handler.routeKey source
  return if key ∈ keys then keys else keys ++ [key]

def logRouteIndex (handler : AmmPoolReactiveHandler) : Option LogRouteIndex := do
  match ← handler.sources.foldlM handler.pushKey [] with
  | [] => none
  | primary :: additional => return ⟨primary, additional⟩

end AmmPoolReactiveHandler

/-! ### Dispatch -/

/-- A log is looked up under its emitter and under each of its topics at its place. -/
def LogRouteKey.names (key : LogRouteKey) (log : Log) : Bool :=
  match key with
  | .emitter contract => decide (contract = log.address)
  | .topic index value => decide (log.data.topics[index.toNat]? = some value)

/-- The index finds a handler under one of the keys of a log, or the handler is on the fallback path. -/
def AmmPoolReactiveHandler.indexed (handler : AmmPoolReactiveHandler) (log : Log) : Bool :=
  match handler.logRouteIndex with
  | none => true
  | some index => index.keys.any (·.names log)

section
variable (routeLog : AmmAdapter → Log → AdapterRegistry → Option PoolKey) (registry : AdapterRegistry)

/-- The handlers that a linear scan with the predicate selects. -/
def linearScan (handlers : List AmmPoolReactiveHandler) (log : Log) : List AmmPoolReactiveHandler :=
  handlers.filter fun handler => handler.accepts routeLog registry log

/-- The handlers that the index proposes and the predicate confirms. -/
def indexedDispatch (handlers : List AmmPoolReactiveHandler) (log : Log) : List AmmPoolReactiveHandler :=
  (handlers.filter fun handler => handler.indexed log).filter fun handler => handler.accepts routeLog registry log

end
end AmmState
