import AmmState.Discovery.Derive
import AmmState.Lib.Fallible
import AmmState.Registry
import AmmState.Slipstream.Staking

/-! The built-in pool factories (`factory.rs`): Uniswap V2, the concentrated-liquidity family under either keying, and
    Solidly. Each lists the slots of a query, assembles pools from their words, and decodes its own creation logs. A factory
    that verifies CREATE2 derivations does so once: its latch is the state of the two paths. -/

namespace AmmState.EventSource

def direct (emitter : Address) (topics : List B256) : EventSource := ⟨emitter, topics, .direct, ([], [], [])⟩

def adapterDefined (emitter : Address) (topics : List B256) : EventSource :=
  ⟨emitter, topics, .adapterDefined, ([], [], [])⟩

end AmmState.EventSource

namespace AmmState.Discovery
open Evm (wordBytes ofBytes window)
open V3 (V3StorageLayout)

inductive DiscoveryError
  | missingFactory (protocol : ProtocolId)
  | malformed (message : String)
  | derivationMismatch (mapping derived : Address)
  | preparedModeUnsupported (protocol : ProtocolId) (factory : Address)
  | missingPreparedValue (read : StateSlot)
  | duplicatePreparedValue (read : StateSlot)
  | preparedFactoryMismatch (protocol : ProtocolId) (factory : Address)
  deriving DecidableEq

/-- Where a pool was found. -/
inductive DiscoverySource
  | query
  | creationEvent (blockNumber logIndex : Option Nat)
  deriving DecidableEq

structure CreationLogContext where
  blockNumber : Option Nat
  logIndex : Option Nat

structure DiscoveredPool where
  key : PoolKey
  registration : PoolRegistration
  source : DiscoverySource
  deriving DecidableEq

/-- A computation over the latch of a factory, set once a derivation has been verified. -/
abbrev Latched (α : Type) := Fallible DiscoveryError Bool α

/-- The words that a batch of reads returned. -/
abbrev Values := Map StateSlot U256

def orMalformed {α : Type} (value : Option α) (message : String) : Latched α :=
  match value with
  | some a => pure a
  | none => throw (.malformed message)

def addressOf (word : U256) : Latched Address :=
  orMalformed (addressFromWord word) "factory address word has non-zero high bytes"

/-- Compare a mapping's answer with its derivation until one of them has agreed. -/
def verifyOnce (expected : Option Address) (mapping : Address) : Latched Unit := do
  let verified ← get
  if verified then return ()
  else match expected with
    | none => return ()
    | some derived =>
      if derived ≠ mapping then throw (.derivationMismatch mapping derived)
      set true

/-- Look up every candidate of a list, in order. -/
def collect {α : Type} (probe : α → Latched (Option DiscoveredPool)) : List α → Latched (List DiscoveredPool)
  | [] => return []
  | candidate :: rest => do
    let found ← probe candidate
    let more ← collect probe rest
    return found.toList ++ more

/-! ### Event sources -/

/-- `Sync(uint112,uint112)`. -/
def V2_SYNC_SIGNATURE : B256 := 0x1c411e9a96e071241c2f21f7726b17ae89e3cab4c78be50e062b03a9fffbbad1

/-- `Sync(uint256,uint256)`. -/
def SOLIDLY_SYNC_SIGNATURE : B256 := 0xcf2aa50876cdfbb541206f89af0ee78d44a2abf8d328e37fa4917f982149848a

def SWAP_SIGNATURE : B256 := 0xc42079f94a6350d7e6235f29174924f928cc2ac818eb64fed8004e115fbcca67
def PANCAKE_SWAP_SIGNATURE : B256 := 0x19b47279256b2a23a1665c810c8d55a1758940ee09377d4f8d26497a3577dc83

/-- `Initialize`, `Mint`, `Collect`, `Burn`, `Flash`, `IncreaseObservationCardinalityNext`, `SetFeeProtocol` and
    `CollectProtocol`. -/
def canonicalV3NonSwapMutationTopics : List B256 :=
  [0x98636036cb66a9c19a37435efc1e90142190214e8abeb821bdba3f2990dd4c95,
    0x7a53080ba414158be7ec69b987b5fb7d07dee101fe85488f0853ae16239d0bde,
    0x70935338e69775456a85ddef226c395fb668b63fa0115f5f20610b388e6ca9c0,
    0x0c396cd989a39f4459b5fa1aed6a9a8dcdbc45908acfd67e028cd568da98982c,
    0xbdbdb71d7860376ba52b25a5028beea23581364a40522f6bcfb86bb1f2dca633,
    0xac49e518f90a358f652e4400164f05a5d8f7e35e7747279bc3a93dbf584e125a,
    0x973d8d92bb299f4af6ce49b52a8adb85ae46b9f214c4c4fc06ac77401237b133,
    0x596b573906218d3411850b26a6b437d6c4522fdb43d2d2386263f86d50b8b151]

def v3MutatingEventTopics (protocol : ProtocolId) : List B256 :=
  (if protocol = .pancakeV3 then PANCAKE_SWAP_SIGNATURE else SWAP_SIGNATURE) :: canonicalV3NonSwapMutationTopics

/-- The sources of a concentrated-liquidity pool; the reviewed Slipstream pool has its gauge and NFT manager, too. -/
def v3EventSources (key : PoolKey) (pool : Address) : List EventSource :=
  if key = .slipstream Slipstream.POOL then
    [.direct Slipstream.POOL (v3MutatingEventTopics key.protocol),
      .adapterDefined Slipstream.GAUGE [Slipstream.DEPOSIT_SIGNATURE, Slipstream.WITHDRAW_SIGNATURE],
      { EventSource.adapterDefined Slipstream.NFT [Slipstream.TRANSFER_SIGNATURE] with
        indexedTopics := ([addressWord Slipstream.GAUGE], [], []) }]
  else [.direct pool (v3MutatingEventTopics key.protocol)]

def newRegistration (key : PoolKey) (pool : Address) (metadata : ProtocolMetadata) (sources : List EventSource) :
    PoolRegistration :=
  ⟨key, [pool], sources, metadata, .pending⟩

section
variable (keccak256 : Bytes → B256)

/-! ### Uniswap V2 -/

structure UniswapV2FactoryConfig where
  factory : Address
  getPairBaseSlot : U256
  initCodeHash : Option B256
  feeBps : Option U32

structure UniswapV2Factory where
  config : UniswapV2FactoryConfig
  verifyDerivations : Bool

/-- `PairCreated(address,address,address,uint256)`. -/
def PAIR_CREATED_SIGNATURE : B256 := 0x0d3648bd0f6ba80134a33ba9275ac585d9d315f0ad8355cddefde31afa28d0e9

structure PairCreated where
  token0 : Address
  token1 : Address
  pair : Address
  allPairsLength : U256

namespace PairCreated

def encode (event : PairCreated) : LogData :=
  ⟨[PAIR_CREATED_SIGNATURE, addressWord event.token0, addressWord event.token1],
    [addressWord event.pair, event.allPairsLength].flatMap wordBytes⟩

def decode (log : LogData) : Option PairCreated :=
  match log.topics with
  | topic :: token0 :: token1 :: _ =>
    if topic = PAIR_CREATED_SIGNATURE ∧ 64 ≤ log.data.length then
      some ⟨token0.setWidth 160, token1.setWidth 160, (ofBytes (window log.data 0 32)).setWidth 160,
        ofBytes (window log.data 32 32)⟩
    else none
  | _ => none

end PairCreated

namespace UniswapV2Factory
variable (f : UniswapV2Factory)

def registration (pair token0 token1 : Address) (source : DiscoverySource) : DiscoveredPool :=
  let key := PoolKey.uniswapV2 pair
  ⟨key, newRegistration key pair (.uniswapV2 ⟨some token0, some token1, f.config.feeBps.map BitVec.toNat⟩)
    [.direct pair [V2_SYNC_SIGNATURE]], source⟩

/-- The address that the configuration derives, where it is to be verified. -/
def derivation (token0 token1 : Address) : Option Address :=
  if f.verifyDerivations then
    f.config.initCodeHash.map fun initCodeHash => v2PairAddress keccak256 f.config.factory initCodeHash token0 token1
  else none

def ensureDerivationMatches (mapping token0 token1 : Address) : Latched Unit :=
  verifyOnce (f.derivation keccak256 token0 token1) mapping

def pairSlot (pair : Pair) : StateSlot := ⟨f.config.factory, v2GetPairSlot keccak256 f.config.getPairBaseSlot pair.1 pair.2⟩

def candidateReads (pairs : List Pair) : List StateSlot := pairs.map (f.pairSlot keccak256)

def probe (values : Values) (pair : Pair) : Latched (Option DiscoveredPool) :=
  match values.get (f.pairSlot keccak256 pair) with
  | none => return none
  | some word => do
    let pool ← addressOf word
    if pool = 0 then return none
    f.ensureDerivationMatches keccak256 pool pair.1 pair.2
    return some (f.registration pool pair.1 pair.2 .query)

def assemblePairs (pairs : List Pair) (values : Values) : Latched (List DiscoveredPool) :=
  collect (f.probe keccak256 values) pairs

def decodeCreation (log : Log) (context : CreationLogContext) : Latched (Option DiscoveredPool) :=
  if log.address ≠ f.config.factory ∨ log.data.topics.head? ≠ some PAIR_CREATED_SIGNATURE then return none
  else do
    let event ← orMalformed (PairCreated.decode log.data) "PairCreated failed to decode"
    f.ensureDerivationMatches keccak256 event.pair event.token0 event.token1
    return some (f.registration event.pair event.token0 event.token1
      (.creationEvent context.blockNumber context.logIndex))

end UniswapV2Factory

/-! ### Concentrated liquidity -/

/-- Keyed by fee, with the spacing of a fee in a mapping of its own, or keyed by the spacing. -/
inductive ClKeying
  | fee (tiers : List U32) (feeAmountTickSpacingBaseSlot : U256)
  | tickSpacing (spacings : List U32)

inductive FeeSource
  | key
  | factoryMapping (baseSlot : U256)
  | fixed (fee : U32)

structure ClCreate2 where
  deployer : Option Address
  initCodeHash : B256

structure ClFactorySpec where
  protocol : ProtocolId
  factory : Address
  getPoolBaseSlot : U256
  keying : ClKeying
  feeSource : FeeSource
  create2 : Option ClCreate2
  quoter : Option Address
  creationTopic0 : Option B256
  verifyDerivations : Bool

inductive ClLookupKey
  | fee (fee : U32)
  | tickSpacing (spacing : U32)
  deriving DecidableEq

/-- `PoolCreated(address,address,uint24,int24,address)`. -/
def POOL_CREATED_SIGNATURE : B256 := 0x783cca1c0412dd0d695e784568c96da2e9c22ff989357a2e8b1d9b2b4e6b7118

/-- `PoolCreatedTickSpacing(address,address,int24,address,uint24)`. -/
def POOL_CREATED_TICK_SPACING_SIGNATURE : B256 := 0x09b99829c26a1dcebb576f1e16bd87a82d71671b621a489ef392a2f63c6c142b

structure PoolCreated where
  token0 : Address
  token1 : Address
  fee : BitVec 24
  tickSpacing : BitVec 24
  pool : Address

namespace PoolCreated

def encode (event : PoolCreated) : LogData :=
  ⟨[POOL_CREATED_SIGNATURE, addressWord event.token0, addressWord event.token1, event.fee.setWidth 256],
    [event.tickSpacing.signExtend 256, addressWord event.pool].flatMap wordBytes⟩

def decode (log : LogData) : Option PoolCreated :=
  match log.topics with
  | topic :: token0 :: token1 :: fee :: _ =>
    if topic = POOL_CREATED_SIGNATURE ∧ 64 ≤ log.data.length then
      some ⟨token0.setWidth 160, token1.setWidth 160, fee.setWidth 24, (ofBytes (window log.data 0 32)).setWidth 24,
        (ofBytes (window log.data 32 32)).setWidth 160⟩
    else none
  | _ => none

end PoolCreated

structure PoolCreatedTickSpacing where
  token0 : Address
  token1 : Address
  tickSpacing : BitVec 24
  pool : Address
  fee : BitVec 24

namespace PoolCreatedTickSpacing

def encode (event : PoolCreatedTickSpacing) : LogData :=
  ⟨[POOL_CREATED_TICK_SPACING_SIGNATURE, addressWord event.token0, addressWord event.token1,
      event.tickSpacing.signExtend 256],
    [addressWord event.pool, event.fee.setWidth 256].flatMap wordBytes⟩

def decode (log : LogData) : Option PoolCreatedTickSpacing :=
  match log.topics with
  | topic :: token0 :: token1 :: tickSpacing :: _ =>
    if topic = POOL_CREATED_TICK_SPACING_SIGNATURE ∧ 64 ≤ log.data.length then
      some ⟨token0.setWidth 160, token1.setWidth 160, tickSpacing.setWidth 24,
        (ofBytes (window log.data 0 32)).setWidth 160, (ofBytes (window log.data 32 32)).setWidth 24⟩
    else none
  | _ => none

end PoolCreatedTickSpacing

namespace ClFactorySpec

def feeKeyed (protocol : ProtocolId) (factory : Address) (getPoolBaseSlot feeAmountTickSpacingBaseSlot : U256)
    (tiers : List U32) : ClFactorySpec :=
  ⟨protocol, factory, getPoolBaseSlot, .fee tiers feeAmountTickSpacingBaseSlot, .key, none, none, none, false⟩

def tickSpacingKeyed (protocol : ProtocolId) (factory : Address) (getPoolBaseSlot : U256) (spacings : List U32) :
    ClFactorySpec :=
  ⟨protocol, factory, getPoolBaseSlot, .tickSpacing spacings, .fixed 0, none, none, none, false⟩

def uniswapV3 (factory : Address) : ClFactorySpec :=
  { feeKeyed .uniswapV3 factory 5 4 [100, 500, 3000, 10000] with creationTopic0 := some POOL_CREATED_SIGNATURE }

def slipstream (factory : Address) : ClFactorySpec :=
  { tickSpacingKeyed .slipstream factory 6 [1, 50, 100, 200, 2000] with
    creationTopic0 := some POOL_CREATED_TICK_SPACING_SIGNATURE }

variable (f : ClFactorySpec)

def storageLayout (tickSpacing : U32) : V3StorageLayout :=
  match f.protocol with
  | .pancakeV3 => .pancake tickSpacing.toInt
  | .slipstream => .slipstream tickSpacing.toInt
  | _ => .uniswap tickSpacing.toInt

def poolKey (pool : Address) : PoolKey :=
  match f.protocol with
  | .pancakeV3 => .pancakeV3 pool
  | .slipstream => .slipstream pool
  | _ => .uniswapV3 pool

def protocolMetadata (metadata : V3Metadata) : ProtocolMetadata :=
  match f.protocol with
  | .pancakeV3 => .pancakeV3 metadata
  | .slipstream => .slipstream metadata
  | _ => .uniswapV3 metadata

/-- A fee of zero stands for a factory without a fee mapping, and is not recorded. -/
def registration (pool token0 token1 : Address) (fee tickSpacing : U32) (source : DiscoverySource) : DiscoveredPool :=
  let metadata : V3Metadata := {
    token0 := some token0
    token1 := some token1
    fee := if fee ≠ 0 then some fee.toNat else none
    tickSpacing := some tickSpacing.toInt
    factory := some f.factory
    quoter := f.quoter
    storageLayout := some (f.storageLayout tickSpacing)
    warmWordRadius := none
    warmedSlots := [] }
  let key := f.poolKey pool
  ⟨key, newRegistration key pool (f.protocolMetadata metadata) (v3EventSources key pool), source⟩

def derivation (token0 token1 : Address) (key : ClLookupKey) : Option Address :=
  if f.verifyDerivations then
    f.create2.map fun create2 =>
      let deployer := create2.deployer.getD f.factory
      match key with
      | .fee fee => v3PoolAddress keccak256 deployer create2.initCodeHash token0 token1 fee
      | .tickSpacing spacing => v3PoolAddressBySpacing keccak256 deployer create2.initCodeHash token0 token1 spacing
  else none

def ensureDerivationMatches (mapping token0 token1 : Address) (key : ClLookupKey) : Latched Unit :=
  verifyOnce (f.derivation keccak256 token0 token1 key) mapping

def feeSlot (baseSlot : U256) : ClLookupKey → StateSlot
  | .fee fee => ⟨f.factory, v3FeeAmountTickSpacingSlot keccak256 baseSlot fee⟩
  | .tickSpacing spacing => ⟨f.factory, v3TickSpacingFeeSlot keccak256 baseSlot spacing⟩

def feeForKey (key : ClLookupKey) (values : Values) : Latched U32 :=
  match f.feeSource with
  | .key =>
    match key with
    | .fee fee => return fee
    | .tickSpacing _ => throw (.malformed "fee source Key is not valid for tickSpacing-keyed factories")
  | .fixed fee => return fee
  | .factoryMapping baseSlot => return u32FromWord ((values.get (f.feeSlot keccak256 baseSlot key)).getD 0)

def poolSlot (pair : Pair) : ClLookupKey → StateSlot
  | .fee fee => ⟨f.factory, v3GetPoolSlot keccak256 f.getPoolBaseSlot pair.1 pair.2 fee⟩
  | .tickSpacing spacing => ⟨f.factory, v3GetPoolSlotBySpacing keccak256 f.getPoolBaseSlot pair.1 pair.2 spacing⟩

/-- The keys that are looked up for every pair. -/
def lookupKeys : List ClLookupKey :=
  match f.keying with
  | .fee tiers _ => tiers.map .fee
  | .tickSpacing spacings => spacings.map .tickSpacing

def candidateReads (pairs : List Pair) : List StateSlot :=
  match f.keying with
  | .fee tiers feeAmountTickSpacingBaseSlot =>
    tiers.map (fun fee => ⟨f.factory, v3FeeAmountTickSpacingSlot keccak256 feeAmountTickSpacingBaseSlot fee⟩) ++
      pairs.flatMap fun pair => tiers.map fun fee => f.poolSlot keccak256 pair (.fee fee)
  | .tickSpacing spacings =>
    pairs.flatMap fun pair => spacings.flatMap fun spacing =>
      f.poolSlot keccak256 pair (.tickSpacing spacing) ::
        match f.feeSource with
        | .factoryMapping baseSlot => [f.feeSlot keccak256 baseSlot (.tickSpacing spacing)]
        | _ => []

/-- The spacing of a key: read from the mapping of a fee, or the key itself. A factory keyed by spacing looks up no fee. -/
def spacingForKey (key : ClLookupKey) (values : Values) : Latched U32 :=
  match key with
  | .tickSpacing spacing => return spacing
  | .fee fee =>
    match f.keying with
    | .tickSpacing _ => return fee
    | .fee _ baseSlot => do
      let spacing := i24FromWord ((values.get ⟨f.factory, v3FeeAmountTickSpacingSlot keccak256 baseSlot fee⟩).getD 0)
      if spacing.toInt ≤ 0 then throw (.malformed "V3 feeAmountTickSpacing returned a non-positive spacing")
      return spacing

def probe (values : Values) (candidate : Pair × ClLookupKey) : Latched (Option DiscoveredPool) :=
  let (pair, key) := candidate
  match values.get (f.poolSlot keccak256 pair key) with
  | none => return none
  | some word => do
    let pool ← addressOf word
    if pool = 0 then return none
    f.ensureDerivationMatches keccak256 pool pair.1 pair.2 key
    let spacing ← f.spacingForKey keccak256 key values
    let fee ← f.feeForKey keccak256 key values
    return some (f.registration pool pair.1 pair.2 fee spacing .query)

def candidates (pairs : List Pair) : List (Pair × ClLookupKey) :=
  pairs.flatMap fun pair => f.lookupKeys.map fun key => (pair, key)

def assemblePairs (pairs : List Pair) (values : Values) : Latched (List DiscoveredPool) :=
  collect (f.probe keccak256 values) (f.candidates pairs)

def decodeCreation (log : Log) (context : CreationLogContext) : Latched (Option DiscoveredPool) :=
  match f.creationTopic0 with
  | none => return none
  | some topic0 =>
    let source := DiscoverySource.creationEvent context.blockNumber context.logIndex
    if log.address ≠ f.factory ∨ log.data.topics.head? ≠ some topic0 then return none
    else if topic0 = POOL_CREATED_SIGNATURE then do
      let event ← orMalformed (PoolCreated.decode log.data) "PoolCreated failed to decode"
      let fee : U32 := event.fee.setWidth 32
      f.ensureDerivationMatches keccak256 event.pool event.token0 event.token1 (.fee fee)
      return some (f.registration event.pool event.token0 event.token1 fee (event.tickSpacing.signExtend 32) source)
    else if topic0 = POOL_CREATED_TICK_SPACING_SIGNATURE then do
      let event ← orMalformed (PoolCreatedTickSpacing.decode log.data) "PoolCreatedTickSpacing failed to decode"
      let tickSpacing : U32 := event.tickSpacing.signExtend 32
      f.ensureDerivationMatches keccak256 event.pool event.token0 event.token1 (.tickSpacing tickSpacing)
      return some (f.registration event.pool event.token0 event.token1 (event.fee.setWidth 32) tickSpacing source)
    else return none

end ClFactorySpec

/-! ### Solidly -/

structure SolidlyFactoryConfig where
  factory : Address
  getPoolBaseSlot : U256
  storageLayout : SolidlyStorageLayout
  create2 : Option ClCreate2
  creationTopic0 : Option B256
  verifyDerivations : Bool

/-- `PoolCreated(address,address,bool,address,uint256)`. -/
def SOLIDLY_POOL_CREATED_SIGNATURE : B256 := 0x2128d88d14c80cb081c1252a5acff7a264671bf199ce226b53788fb26065005e

structure SolidlyPoolCreated where
  token0 : Address
  token1 : Address
  stable : Bool
  pool : Address
  allPoolsLength : U256

namespace SolidlyPoolCreated

def encode (event : SolidlyPoolCreated) : LogData :=
  ⟨[SOLIDLY_POOL_CREATED_SIGNATURE, addressWord event.token0, addressWord event.token1, boolToWord event.stable],
    [addressWord event.pool, event.allPoolsLength].flatMap wordBytes⟩

def decode (log : LogData) : Option SolidlyPoolCreated :=
  match log.topics with
  | topic :: token0 :: token1 :: stable :: _ =>
    if topic = SOLIDLY_POOL_CREATED_SIGNATURE ∧ 64 ≤ log.data.length then
      some ⟨token0.setWidth 160, token1.setWidth 160, stable ≠ 0, (ofBytes (window log.data 0 32)).setWidth 160,
        ofBytes (window log.data 32 32)⟩
    else none
  | _ => none

end SolidlyPoolCreated

/-- The two variants of a pair. -/
def SOLIDLY_VARIANTS : List Bool := [false, true]

namespace SolidlyFactoryConfig

variable (f : SolidlyFactoryConfig)

def registration (pool token0 token1 : Address) (stable : Bool) (source : DiscoverySource) : DiscoveredPool :=
  let key := PoolKey.solidlyV2 pool
  ⟨key, newRegistration key pool (.solidlyV2 ⟨some token0, some token1, some stable, some f.storageLayout⟩)
    [.direct pool [SOLIDLY_SYNC_SIGNATURE]], source⟩

def derivation (token0 token1 : Address) (stable : Bool) : Option Address :=
  if f.verifyDerivations then
    f.create2.map fun create2 =>
      solidlyPoolAddress keccak256 (create2.deployer.getD f.factory) create2.initCodeHash token0 token1 stable
  else none

def ensureDerivationMatches (mapping token0 token1 : Address) (stable : Bool) : Latched Unit :=
  verifyOnce (f.derivation keccak256 token0 token1 stable) mapping

def poolSlot (candidate : Pair × Bool) : StateSlot :=
  ⟨f.factory, solidlyGetPoolSlot keccak256 f.getPoolBaseSlot candidate.1.1 candidate.1.2 candidate.2⟩

def candidates (pairs : List Pair) : List (Pair × Bool) :=
  pairs.flatMap fun pair => SOLIDLY_VARIANTS.map fun stable => (pair, stable)

def candidateReads (pairs : List Pair) : List StateSlot := (candidates pairs).map (f.poolSlot keccak256)

def probe (values : Values) (candidate : Pair × Bool) : Latched (Option DiscoveredPool) :=
  let (pair, stable) := candidate
  match values.get (f.poolSlot keccak256 candidate) with
  | none => return none
  | some word => do
    let pool ← addressOf word
    if pool = 0 then return none
    f.ensureDerivationMatches keccak256 pool pair.1 pair.2 stable
    return some (f.registration pool pair.1 pair.2 stable .query)

def assemblePairs (pairs : List Pair) (values : Values) : Latched (List DiscoveredPool) :=
  collect (f.probe keccak256 values) (candidates pairs)

def decodeCreation (log : Log) (context : CreationLogContext) : Latched (Option DiscoveredPool) :=
  match f.creationTopic0 with
  | none => return none
  | some topic0 =>
    if log.address ≠ f.factory ∨ log.data.topics.head? ≠ some topic0 then return none
    else if topic0 ≠ SOLIDLY_POOL_CREATED_SIGNATURE then return none
    else do
      let event ← orMalformed (SolidlyPoolCreated.decode log.data) "SolidlyPoolCreated failed to decode"
      f.ensureDerivationMatches keccak256 event.pool event.token0 event.token1 event.stable
      return some (f.registration event.pool event.token0 event.token1 event.stable
        (.creationEvent context.blockNumber context.logIndex))

end SolidlyFactoryConfig

/-! ### The driver -/

/-- The built-in factories. -/
inductive PoolFactory
  | uniswapV2 (factory : UniswapV2Factory)
  | concentratedLiquidity (spec : ClFactorySpec)
  | solidly (config : SolidlyFactoryConfig)

namespace PoolFactory

def protocol : PoolFactory → ProtocolId
  | .uniswapV2 _ => .uniswapV2
  | .concentratedLiquidity spec => spec.protocol
  | .solidly _ => .solidlyV2

def factoryAddress : PoolFactory → Address
  | .uniswapV2 factory => factory.config.factory
  | .concentratedLiquidity spec => spec.factory
  | .solidly config => config.factory

def candidateReads (f : PoolFactory) (pairs : List Pair) : List StateSlot :=
  match f with
  | .uniswapV2 factory => factory.candidateReads keccak256 pairs
  | .concentratedLiquidity spec => spec.candidateReads keccak256 pairs
  | .solidly config => config.candidateReads keccak256 pairs

def assemblePairs (f : PoolFactory) (pairs : List Pair) (values : Values) : Latched (List DiscoveredPool) :=
  match f with
  | .uniswapV2 factory => factory.assemblePairs keccak256 pairs values
  | .concentratedLiquidity spec => spec.assemblePairs keccak256 pairs values
  | .solidly config => config.assemblePairs keccak256 pairs values

def decodeCreation (f : PoolFactory) (log : Log) (context : CreationLogContext) : Latched (Option DiscoveredPool) :=
  match f with
  | .uniswapV2 factory => factory.decodeCreation keccak256 log context
  | .concentratedLiquidity spec => spec.decodeCreation keccak256 log context
  | .solidly config => config.decodeCreation keccak256 log context

end PoolFactory
end
end AmmState.Discovery
