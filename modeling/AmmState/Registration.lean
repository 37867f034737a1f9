import Mathlib.Data.Prod.Lex
import Mathlib.Data.List.Lex
import AmmState.Reactive
import AmmState.V3.Storage

/-! Pool registrations (`types.rs`, `storage.rs`): a key, the accounts and log sources of a pool, what is known of its
    protocol, and its status. -/

namespace AmmState
open V3 (V3StorageLayout)

/-- `usize` and `u64`, which have the same range on a 64-bit target. -/
abbrev U64 := BitVec 64

/-- Where a key stands in the derived order of `PoolKey`: its variant, then for a custom key the shape and the protocol
    name, then the address and the id. -/
def PoolKey.rank : PoolKey → Nat ×ₗ Nat ×ₗ List Nat ×ₗ Nat ×ₗ Nat
  | .uniswapV2 address => builtIn 0 address.toNat
  | .uniswapV3 address => builtIn 1 address.toNat
  | .pancakeV3 address => builtIn 2 address.toNat
  | .slipstream address => builtIn 3 address.toNat
  | .solidlyV2 address => builtIn 4 address.toNat
  | .balancerV2 id => builtIn 5 id.toNat
  | .balancerV3 address => builtIn 6 address.toNat
  | .curve address => builtIn 7 address.toNat
  | .erc4626 address => builtIn 8 address.toNat
  | .uniswapV4 id => builtIn 9 id.toNat
  | .custom (.address protocol address) => custom 0 protocol address.toNat 0
  | .custom (.bytes32 protocol id) => custom 1 protocol 0 id.toNat
  | .custom (.composite protocol address id) => custom 2 protocol address.toNat id.toNat
where
  builtIn (variant identity : Nat) : Nat ×ₗ Nat ×ₗ List Nat ×ₗ Nat ×ₗ Nat :=
    toLex (variant, toLex (0, toLex ([], toLex (identity, 0))))
  custom (shape : Nat) (protocol : String) (address id : Nat) : Nat ×ₗ Nat ×ₗ List Nat ×ₗ Nat ×ₗ Nat :=
    toLex (10, toLex (shape, toLex (protocol.toList.map Char.toNat, toLex (address, id))))

/-- How a log is routed to a pool. -/
inductive EventRoute
  | direct
  | indexedAddress (topicIndex : U64)
  | indexedBytes32 (topicIndex : U64)
  | adapterDefined
  deriving DecidableEq

/-- One log emitter and the routing rule of its logs. -/
structure EventSource where
  emitter : Address
  topics : List B256
  route : EventRoute
  indexedTopics : List B256 × List B256 × List B256
  deriving DecidableEq

structure UniswapV2Metadata where
  token0 : Option Address
  token1 : Option Address
  feeBps : Option Nat
  deriving DecidableEq

/-- Shared by the three concentrated-liquidity venues. -/
structure V3Metadata where
  token0 : Option Address
  token1 : Option Address
  fee : Option Nat
  tickSpacing : Option Int
  factory : Option Address
  quoter : Option Address
  storageLayout : Option V3StorageLayout
  warmWordRadius : Option Int
  warmedSlots : List U256
  deriving DecidableEq

structure SolidlyStorageLayout where
  reserve0Slot : U256
  reserve1Slot : U256
  token0Slot : U256
  token1Slot : U256
  deriving DecidableEq

structure SolidlyV2Metadata where
  token0 : Option Address
  token1 : Option Address
  stable : Option Bool
  storageLayout : Option SolidlyStorageLayout
  deriving DecidableEq

/-- Where the vault keeps the cash balance of one token. -/
structure BalancerTokenBalance where
  token : Address
  slot : U256
  highField : Bool
  deriving DecidableEq

structure BalancerV2Metadata where
  vault : Option Address
  poolAddress : Option Address
  tokens : List Address
  balanceSlots : List U256
  tokenCash : List BalancerTokenBalance
  deriving DecidableEq

inductive CurveVariant
  | stableSwap | cryptoSwap | cryptoSwapNG
  deriving DecidableEq

structure CurveMetadata where
  coins : List Address
  discoveredSlots : List U256
  variant : CurveVariant
  codeSeed : Option Bytes
  deriving DecidableEq

/-- What is known of a pool's protocol; a custom payload is a handle that only its own adapter can read. -/
inductive ProtocolMetadata
  | unknown
  | uniswapV2 (metadata : UniswapV2Metadata)
  | uniswapV3 (metadata : V3Metadata)
  | pancakeV3 (metadata : V3Metadata)
  | slipstream (metadata : V3Metadata)
  | balancerV2 (metadata : BalancerV2Metadata)
  | solidlyV2 (metadata : SolidlyV2Metadata)
  | curve (metadata : CurveMetadata)
  | custom (payload : Nat)
  deriving DecidableEq

/-- The venue that the metadata names, if any. -/
def ProtocolMetadata.protocolId : ProtocolMetadata → Option ProtocolId
  | .uniswapV2 _ => some .uniswapV2
  | .uniswapV3 _ => some .uniswapV3
  | .pancakeV3 _ => some .pancakeV3
  | .slipstream _ => some .slipstream
  | .solidlyV2 _ => some .solidlyV2
  | .balancerV2 _ => some .balancerV2
  | .curve _ => some .curve
  | .unknown | .custom _ => none

structure PoolRegistration where
  key : PoolKey
  stateAddresses : List Address
  eventSources : List EventSource
  metadata : ProtocolMetadata
  status : PoolStatus
  deriving DecidableEq

namespace PoolRegistration

def protocol (registration : PoolRegistration) : ProtocolId := registration.key.protocol

/-- The key and the metadata do not name different venues. -/
def checkProtocolAgreement (registration : PoolRegistration) : Bool :=
  match registration.metadata.protocolId with
  | some protocol => protocol = registration.key.protocol
  | none => true

end PoolRegistration

/-- Two keys of the same place are the same key. -/
theorem PoolKey.rank_injective : Function.Injective PoolKey.rank := by
  have hname : ∀ {a b : String}, a.toList.map Char.toNat = b.toList.map Char.toNat → a = b := fun h =>
    String.toList_inj.mp (List.map_injective_iff.mpr (fun a b h => Char.ext (UInt32.toNat_inj.mp h)) h)
  intro a b h
  rcases a with _ | _ | _ | _ | _ | _ | _ | _ | _ | _ | (_ | _ | _) <;>
    rcases b with _ | _ | _ | _ | _ | _ | _ | _ | _ | _ | (_ | _ | _) <;>
    simp only [PoolKey.rank, PoolKey.rank.builtIn, PoolKey.rank.custom, toLex_inj, Prod.mk.injEq, BitVec.toNat_inj] at h <;>
    grind

end AmmState
