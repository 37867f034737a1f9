import AmmState.Lib.ByteWords
import AmmState.Lib.Checked
import AmmState.Registry

/-! Warm-resume persistence of registrations (`persistence.rs`): the archive captured from a registry snapshot, its
    persisted form, and the file with magic, version and checksum around the encoded payload. A file is its bytes; the
    encoding of the payload and the checksum are parameters. -/

namespace AmmState
open SortDedup ByteWords Checked
open V3 (V3StorageLayout)

/-- The published view of a registry: the active generation of each of its pools. -/
structure AdapterRegistrySnapshot where
  registry : AdapterRegistry
  activePools : List PoolInstanceId
  keys_nodup : (activePools.map (·.key)).Nodup

namespace AdapterRegistrySnapshot

def poolInstance (snapshot : AdapterRegistrySnapshot) (key : PoolKey) : Option PoolInstanceId :=
  snapshot.activePools.find? (·.key = key)

/-- The registration of an active generation. -/
def pool (snapshot : AdapterRegistrySnapshot) (pool : PoolInstanceId) : Option PoolRegistration :=
  if snapshot.poolInstance pool.key = some pool then snapshot.registry.pool pool.key else none

def poolCount (snapshot : AdapterRegistrySnapshot) : Nat := snapshot.activePools.length

end AdapterRegistrySnapshot

namespace Persistence

def MAGIC : Bytes := [0x45, 0x41, 0x53, 0x52, 0x45, 0x47, 0, 0]
def VERSION : Nat := 1
def VERSION_HEADER_BYTES : Nat := 12
def HEADER_BYTES : Nat := 44
def MAX_FILE_BYTES : Nat := 64 * 1024 * 1024
def MAX_REGISTRATIONS : Nat := 50000
def MAX_STATE_ADDRESSES : Nat := 64
def MAX_EVENT_SOURCES : Nat := 64
def MAX_EVENT_TOPICS : Nat := 64
def MAX_POOL_TOKENS : Nat := 256
def MAX_READ_SET_SLOTS : Nat := 65536
def MAX_BALANCER_TOKEN_CASH : Nat := 256
def MAX_CODE_SEED_BYTES : Nat := 1024 * 1024

/-- Failures of capture, save and load; those of the file system are left out. -/
inductive AmmRegistrationPersistenceError
  | decode
  | checksumMismatch
  | invalidMagic
  | incompatibleVersion (expected actual : Nat)
  | chainMismatch (expected actual : Nat)
  | duplicatePool (key : PoolKey)
  | unsupportedCustom (key : PoolKey)
  | invalidRegistration (pool : PoolKey) (reason : String)
  | limitExceeded (field : String) (limit actual : Nat)
  | corrupt (reason : String)

abbrev Result (α : Type) := Except AmmRegistrationPersistenceError α

/-- A set of registrations captured for warm resume. -/
structure AmmRegistrationArchive where
  chainId : Nat
  registrations : List PoolRegistration

/-! ### Persisted forms -/

inductive PersistedPoolKey
  | uniswapV2 (address : Address)
  | uniswapV3 (address : Address)
  | pancakeV3 (address : Address)
  | slipstream (address : Address)
  | solidlyV2 (address : Address)
  | balancerV2 (id : B256)
  | curve (address : Address)
  deriving DecidableEq

inductive PersistedEventRoute
  | direct
  | indexedAddress (topicIndex : U64)
  | indexedBytes32 (topicIndex : U64)
  | adapterDefined
  deriving DecidableEq

structure PersistedEventSource where
  emitter : Address
  topics : List B256
  route : PersistedEventRoute
  indexedTopics : List B256 × List B256 × List B256
  deriving DecidableEq

structure PersistedV3Layout where
  slot0Slot : U256
  liquiditySlot : U256
  ticksBaseSlot : U256
  tickBitmapBaseSlot : U256
  tickSpacing : Int
  deriving DecidableEq

structure PersistedV3Metadata where
  token0 : Option Address
  token1 : Option Address
  fee : Option Nat
  tickSpacing : Option Int
  factory : Option Address
  quoter : Option Address
  storageLayout : Option PersistedV3Layout
  warmWordRadius : Option Int
  warmedSlots : List U256
  deriving DecidableEq

structure PersistedSolidlyLayout where
  reserve0Slot : U256
  reserve1Slot : U256
  token0Slot : U256
  token1Slot : U256
  deriving DecidableEq

structure PersistedBalancerTokenBalance where
  token : Address
  slot : U256
  highField : Bool
  deriving DecidableEq

inductive PersistedCurveVariant
  | stableSwap | cryptoSwap | cryptoSwapNg
  deriving DecidableEq

inductive PersistedMetadata
  | unknown
  | uniswapV2 (token0 token1 : Option Address) (feeBps : Option Nat)
  | uniswapV3 (metadata : PersistedV3Metadata)
  | pancakeV3 (metadata : PersistedV3Metadata)
  | slipstream (metadata : PersistedV3Metadata)
  | solidlyV2 (token0 token1 : Option Address) (stable : Option Bool) (storageLayout : Option PersistedSolidlyLayout)
  | balancerV2 (vault poolAddress : Option Address) (tokens : List Address) (balanceSlots : List U256)
      (tokenCash : List PersistedBalancerTokenBalance)
  | curve (coins : List Address) (discoveredSlots : List U256) (variant : PersistedCurveVariant)
      (codeSeed : Option Bytes)
  deriving DecidableEq

inductive PersistedStatus
  | pending | cold | ready | degraded | disabled | unsupported
  deriving DecidableEq

structure PersistedRegistration where
  key : PersistedPoolKey
  stateAddresses : List Address
  eventSources : List PersistedEventSource
  metadata : PersistedMetadata
  status : PersistedStatus
  deriving DecidableEq

structure PersistedArchive where
  chainId : Nat
  registrations : List PersistedRegistration
  deriving DecidableEq

/-! ### Limits and normal form -/

def checkLimit (field : String) (actual limit : Nat) : Result Unit :=
  ensure (actual ≤ limit) (.limitExceeded field limit actual)

def checkEventTopics (topics : List B256) (indexedTopics : List B256 × List B256 × List B256) : Result Unit := do
  checkLimit "event topics" topics.length MAX_EVENT_TOPICS
  checkLimit "indexed event topics" indexedTopics.1.length MAX_EVENT_TOPICS
  checkLimit "indexed event topics" indexedTopics.2.1.length MAX_EVENT_TOPICS
  checkLimit "indexed event topics" indexedTopics.2.2.length MAX_EVENT_TOPICS

def checkBalancer (tokens balanceSlots tokenCash : Nat) : Result Unit := do
  checkLimit "Balancer tokens" tokens MAX_POOL_TOKENS
  checkLimit "Balancer balance slots" balanceSlots MAX_READ_SET_SLOTS
  checkLimit "Balancer token cash" tokenCash MAX_BALANCER_TOKEN_CASH

def checkCodeSeed : Option Bytes → Result Unit
  | some codeSeed => checkLimit "Curve code seed bytes" codeSeed.length MAX_CODE_SEED_BYTES
  | none => .ok ()

def checkCurve (coins discoveredSlots : Nat) (codeSeed : Option Bytes) : Result Unit := do
  checkLimit "Curve coins" coins MAX_POOL_TOKENS
  checkLimit "Curve discovered slots" discoveredSlots MAX_READ_SET_SLOTS
  checkCodeSeed codeSeed

def checkMetadata : ProtocolMetadata → Result Unit
  | .balancerV2 metadata =>
    checkBalancer metadata.tokens.length metadata.balanceSlots.length metadata.tokenCash.length
  | .curve metadata => checkCurve metadata.coins.length metadata.discoveredSlots.length metadata.codeSeed
  | _ => .ok ()

def validateRegistrationLimits (registration : PoolRegistration) : Result Unit := do
  checkLimit "state addresses" registration.stateAddresses.length MAX_STATE_ADDRESSES
  checkLimit "event sources" registration.eventSources.length MAX_EVENT_SOURCES
  registration.eventSources.forM fun source => checkEventTopics source.topics source.indexedTopics
  checkMetadata registration.metadata

def eventRouteKey : EventRoute → Nat ×ₗ Nat
  | .direct => toLex (0, 0)
  | .indexedAddress topicIndex => toLex (1, topicIndex.toNat)
  | .indexedBytes32 topicIndex => toLex (2, topicIndex.toNat)
  | .adapterDefined => toLex (3, 0)

/-- The order of event sources, which leaves the indexed topics aside. -/
def eventSourceKey (source : EventSource) : Nat ×ₗ List Nat ×ₗ Nat ×ₗ Nat :=
  toLex (source.emitter.toNat, toLex (source.topics.map BitVec.toNat, eventRouteKey source.route))

def tokenCashKey (balance : BalancerTokenBalance) : Nat ×ₗ Nat ×ₗ Bool :=
  toLex (balance.token.toNat, toLex (balance.slot.toNat, balance.highField))

def normalizeSource (source : EventSource) : EventSource :=
  { source with topics := sortDedup BitVec.toNat source.topics }

def normalizeMetadata : ProtocolMetadata → ProtocolMetadata
  | .balancerV2 metadata => .balancerV2 { metadata with
      balanceSlots := sortDedup BitVec.toNat metadata.balanceSlots
      tokenCash := sortDedup tokenCashKey metadata.tokenCash }
  | .curve metadata => .curve { metadata with discoveredSlots := sortDedup BitVec.toNat metadata.discoveredSlots }
  | metadata => metadata

/-- The key or the metadata is one that only a custom adapter understands. -/
def isCustom (registration : PoolRegistration) : Bool :=
  (match registration.key with | .custom _ => true | _ => false) ||
    match registration.metadata with | .custom _ => true | _ => false

/-- A registration with its sets in canonical form. -/
def normalized (registration : PoolRegistration) : PoolRegistration :=
  { registration with
    stateAddresses := sortDedup BitVec.toNat registration.stateAddresses
    eventSources := sortDedup eventSourceKey (registration.eventSources.map normalizeSource)
    metadata := normalizeMetadata registration.metadata }

def normalizeRegistration (registration : PoolRegistration) : Result PoolRegistration := do
  ensure (isCustom registration = false) (.unsupportedCustom registration.key)
  return normalized registration

/-- The status of a registration that is loaded again. -/
def resumeStatus : PoolStatus → PoolStatus
  | .pending | .cold | .ready | .degraded => .pending
  | .disabled => .disabled
  | .unsupported => .unsupported

/-! ### Conversions -/

def persistedLayout (layout : V3StorageLayout) : PersistedV3Layout :=
  ⟨layout.slot0Slot, layout.liquiditySlot, layout.ticksBaseSlot, layout.tickBitmapBaseSlot, layout.tickSpacing⟩

def PersistedV3Layout.restore (layout : PersistedV3Layout) : V3StorageLayout :=
  ⟨layout.slot0Slot, layout.liquiditySlot, layout.ticksBaseSlot, layout.tickBitmapBaseSlot, layout.tickSpacing⟩

def persistedV3Metadata (metadata : V3Metadata) : PersistedV3Metadata where
  token0 := metadata.token0
  token1 := metadata.token1
  fee := metadata.fee
  tickSpacing := metadata.tickSpacing
  factory := metadata.factory
  quoter := metadata.quoter
  storageLayout := metadata.storageLayout.map persistedLayout
  warmWordRadius := metadata.warmWordRadius
  warmedSlots := metadata.warmedSlots

def PersistedV3Metadata.restore (metadata : PersistedV3Metadata) : V3Metadata where
  token0 := metadata.token0
  token1 := metadata.token1
  fee := metadata.fee
  tickSpacing := metadata.tickSpacing
  factory := metadata.factory
  quoter := metadata.quoter
  storageLayout := metadata.storageLayout.map (·.restore)
  warmWordRadius := metadata.warmWordRadius
  warmedSlots := metadata.warmedSlots

def persistedSolidlyLayout (layout : SolidlyStorageLayout) : PersistedSolidlyLayout :=
  ⟨layout.reserve0Slot, layout.reserve1Slot, layout.token0Slot, layout.token1Slot⟩

def PersistedSolidlyLayout.restore (layout : PersistedSolidlyLayout) : SolidlyStorageLayout :=
  ⟨layout.reserve0Slot, layout.reserve1Slot, layout.token0Slot, layout.token1Slot⟩

def persistedTokenBalance (balance : BalancerTokenBalance) : PersistedBalancerTokenBalance :=
  ⟨balance.token, balance.slot, balance.highField⟩

def PersistedBalancerTokenBalance.restore (balance : PersistedBalancerTokenBalance) : BalancerTokenBalance :=
  ⟨balance.token, balance.slot, balance.highField⟩

def persistedVariant : CurveVariant → PersistedCurveVariant
  | .stableSwap => .stableSwap
  | .cryptoSwap => .cryptoSwap
  | .cryptoSwapNG => .cryptoSwapNg

def PersistedCurveVariant.restore : PersistedCurveVariant → CurveVariant
  | .stableSwap => .stableSwap
  | .cryptoSwap => .cryptoSwap
  | .cryptoSwapNg => .cryptoSwapNG

def persistedStatus : PoolStatus → PersistedStatus
  | .pending => .pending
  | .cold => .cold
  | .ready => .ready
  | .degraded => .degraded
  | .disabled => .disabled
  | .unsupported => .unsupported

def PersistedStatus.restore : PersistedStatus → PoolStatus
  | .pending => .pending
  | .cold => .cold
  | .ready => .ready
  | .degraded => .degraded
  | .disabled => .disabled
  | .unsupported => .unsupported

/-- A topic index keeps its value: `usize` and `u64` have the same range. -/
def persistedRoute : EventRoute → PersistedEventRoute
  | .direct => .direct
  | .indexedAddress topicIndex => .indexedAddress topicIndex
  | .indexedBytes32 topicIndex => .indexedBytes32 topicIndex
  | .adapterDefined => .adapterDefined

def PersistedEventRoute.restore : PersistedEventRoute → EventRoute
  | .direct => .direct
  | .indexedAddress topicIndex => .indexedAddress topicIndex
  | .indexedBytes32 topicIndex => .indexedBytes32 topicIndex
  | .adapterDefined => .adapterDefined

def persistedSource (source : EventSource) : PersistedEventSource where
  emitter := source.emitter
  topics := source.topics
  indexedTopics := source.indexedTopics
  route := persistedRoute source.route

/-- `EventSource::try_from`. -/
def PersistedEventSource.restore (source : PersistedEventSource) : Result EventSource := do
  checkEventTopics source.topics source.indexedTopics
  return {
    emitter := source.emitter
    topics := source.topics
    indexedTopics := source.indexedTopics
    route := source.route.restore }

def persistedKey : PoolKey → Result PersistedPoolKey
  | .uniswapV2 address => .ok (.uniswapV2 address)
  | .uniswapV3 address => .ok (.uniswapV3 address)
  | .pancakeV3 address => .ok (.pancakeV3 address)
  | .slipstream address => .ok (.slipstream address)
  | .solidlyV2 address => .ok (.solidlyV2 address)
  | .balancerV2 id => .ok (.balancerV2 id)
  | .curve address => .ok (.curve address)
  | .custom key => .error (.unsupportedCustom (.custom key))
  | key => .error (.invalidRegistration key "built-in protocol is not supported by this archive version")

def PersistedPoolKey.restore : PersistedPoolKey → PoolKey
  | .uniswapV2 address => .uniswapV2 address
  | .uniswapV3 address => .uniswapV3 address
  | .pancakeV3 address => .pancakeV3 address
  | .slipstream address => .slipstream address
  | .solidlyV2 address => .solidlyV2 address
  | .balancerV2 id => .balancerV2 id
  | .curve address => .curve address

/-- The metadata in persisted form, for a key of the same venue. -/
def persistedMetadata (key : PoolKey) (metadata : ProtocolMetadata) : Result PersistedMetadata :=
  match metadata, key with
  | .unknown, _ => .ok .unknown
  | .uniswapV2 metadata, .uniswapV2 _ => .ok (.uniswapV2 metadata.token0 metadata.token1 metadata.feeBps)
  | .uniswapV3 metadata, .uniswapV3 _ => .ok (.uniswapV3 (persistedV3Metadata metadata))
  | .pancakeV3 metadata, .pancakeV3 _ => .ok (.pancakeV3 (persistedV3Metadata metadata))
  | .slipstream metadata, .slipstream _ => .ok (.slipstream (persistedV3Metadata metadata))
  | .solidlyV2 metadata, .solidlyV2 _ => .ok (.solidlyV2 metadata.token0 metadata.token1 metadata.stable
      (metadata.storageLayout.map persistedSolidlyLayout))
  | .balancerV2 metadata, .balancerV2 _ => .ok (.balancerV2 metadata.vault metadata.poolAddress metadata.tokens
      metadata.balanceSlots (metadata.tokenCash.map persistedTokenBalance))
  | .curve metadata, .curve _ => .ok (.curve metadata.coins metadata.discoveredSlots (persistedVariant metadata.variant)
      metadata.codeSeed)
  | .custom _, key => .error (.unsupportedCustom key)
  | _, key => .error (.invalidRegistration key "pool key and protocol metadata do not match")

def PersistedMetadata.restore (key : PoolKey) (metadata : PersistedMetadata) : Result ProtocolMetadata :=
  match metadata, key with
  | .unknown, _ => .ok .unknown
  | .uniswapV2 token0 token1 feeBps, .uniswapV2 _ => .ok (.uniswapV2 ⟨token0, token1, feeBps⟩)
  | .uniswapV3 metadata, .uniswapV3 _ => .ok (.uniswapV3 metadata.restore)
  | .pancakeV3 metadata, .pancakeV3 _ => .ok (.pancakeV3 metadata.restore)
  | .slipstream metadata, .slipstream _ => .ok (.slipstream metadata.restore)
  | .solidlyV2 token0 token1 stable storageLayout, .solidlyV2 _ =>
    .ok (.solidlyV2 ⟨token0, token1, stable, storageLayout.map (·.restore)⟩)
  | .balancerV2 vault poolAddress tokens balanceSlots tokenCash, .balancerV2 _ => do
    checkBalancer tokens.length balanceSlots.length tokenCash.length
    return .balancerV2 ⟨vault, poolAddress, tokens, balanceSlots, tokenCash.map (·.restore)⟩
  | .curve coins discoveredSlots variant codeSeed, .curve _ => do
    checkCurve coins.length discoveredSlots.length codeSeed
    return .curve ⟨coins, discoveredSlots, variant.restore, codeSeed⟩
  | _, key => .error (.invalidRegistration key "pool key and protocol metadata do not match")

/-- `PersistedRegistration::try_from`. -/
def persistedRegistration (registration : PoolRegistration) : Result PersistedRegistration := do
  let key ← persistedKey registration.key
  let metadata ← persistedMetadata registration.key registration.metadata
  return {
    key
    stateAddresses := registration.stateAddresses
    eventSources := registration.eventSources.map persistedSource
    metadata
    status := persistedStatus registration.status }

/-- `PoolRegistration::try_from`. -/
def PersistedRegistration.restore (persisted : PersistedRegistration) : Result PoolRegistration := do
  checkLimit "state addresses" persisted.stateAddresses.length MAX_STATE_ADDRESSES
  checkLimit "event sources" persisted.eventSources.length MAX_EVENT_SOURCES
  let key := persisted.key.restore
  let metadata ← persisted.metadata.restore key
  let eventSources ← persisted.eventSources.mapM (·.restore)
  return { key, stateAddresses := persisted.stateAddresses, eventSources, metadata, status := persisted.status.restore }

/-- `PersistedArchive::try_from`. -/
def persistedArchive (archive : AmmRegistrationArchive) : Result PersistedArchive := do
  checkLimit "registrations" archive.registrations.length MAX_REGISTRATIONS
  archive.registrations.forM validateRegistrationLimits
  let registrations ← archive.registrations.mapM persistedRegistration
  return ⟨archive.chainId, registrations⟩

/-! ### Capture, save and load -/

/-- The normal form of one active registration. -/
def captureOne (snapshot : AdapterRegistrySnapshot) (pool : PoolInstanceId) : Result PoolRegistration := do
  let registration ← orError (snapshot.pool pool) (.corrupt "registry snapshot lost an active pool registration")
  let registration ← normalizeRegistration registration
  validateRegistrationLimits registration
  return registration

def AmmRegistrationArchive.capture (chainId : Nat) (snapshot : AdapterRegistrySnapshot) :
    Result AmmRegistrationArchive := do
  checkLimit "registrations" snapshot.poolCount MAX_REGISTRATIONS
  let registrations ← snapshot.activePools.mapM (captureOne snapshot)
  return ⟨chainId, sortBy (·.key.rank) registrations⟩

/-- Restore one registration that no earlier one has the key of. -/
def loadOne (seen : List PoolRegistration) (persisted : PersistedRegistration) : Result (List PoolRegistration) := do
  let registration ← persisted.restore
  ensure (registration.key ∉ seen.map (·.key)) (.duplicatePool registration.key)
  let registration ← normalizeRegistration { registration with status := resumeStatus registration.status }
  return seen ++ [registration]

section File
variable (toVec : PersistedArchive → Bytes) (fromSlice : Bytes → Option PersistedArchive) (keccak256 : Bytes → B256)

/-- The bytes that `save` writes. -/
def AmmRegistrationArchive.save (archive : AmmRegistrationArchive) : Result Bytes := do
  let persisted ← persistedArchive archive
  let payload := toVec persisted
  checkLimit "file bytes" (HEADER_BYTES + payload.length) MAX_FILE_BYTES
  return MAGIC ++ toLeBytes 4 VERSION ++ toBeBytes 32 (keccak256 payload).toNat ++ payload

/-- The payload of a file whose header is in order. -/
def readPayload (bytes : Bytes) : Result Bytes := do
  checkLimit "file bytes" bytes.length MAX_FILE_BYTES
  ensure (HEADER_BYTES ≤ bytes.length) (.corrupt "registration archive is missing its version header")
  ensure (bytes.take MAGIC.length = MAGIC) .invalidMagic
  let version := fromLeBytes ((bytes.drop MAGIC.length).take (VERSION_HEADER_BYTES - MAGIC.length))
  ensure (version = VERSION) (.incompatibleVersion VERSION version)
  let expectedChecksum := fromBeBytes ((bytes.drop VERSION_HEADER_BYTES).take (HEADER_BYTES - VERSION_HEADER_BYTES))
  let payload := bytes.drop HEADER_BYTES
  ensure ((keccak256 payload).toNat = expectedChecksum) .checksumMismatch
  return payload

def AmmRegistrationArchive.load (bytes : Bytes) (expectedChainId : Nat) : Result AmmRegistrationArchive := do
  let payload ← readPayload keccak256 bytes
  let persisted ← orError (fromSlice payload) .decode
  ensure (persisted.chainId = expectedChainId) (.chainMismatch expectedChainId persisted.chainId)
  checkLimit "registrations" persisted.registrations.length MAX_REGISTRATIONS
  let registrations ← persisted.registrations.foldlM loadOne []
  return ⟨expectedChainId, sortBy (·.key.rank) registrations⟩

end File

end Persistence
end AmmState
