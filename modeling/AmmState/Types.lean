import Mathlib.Algebra.Order.Ring.Int
import Mathlib.Algebra.Order.Ring.Nat
import Mathlib.Data.List.Basic

/-! Identities of the runtime: protocols, pool keys, adapter families, discovery owners and the
    generation-scoped instances of each (`types.rs`, `runtime.rs`). -/

namespace AmmState

abbrev Address := BitVec 160
abbrev B256 := BitVec 256
abbrev U256 := BitVec 256

/-! The search of a list for a word rests on these, in every module alike. -/

instance : LawfulBEq Address := inferInstance

instance : LawfulBEq B256 := inferInstance

inductive ProtocolId
  | uniswapV2 | uniswapV3 | pancakeV3 | slipstream | solidlyV2 | balancerV2 | balancerV3 | curve | erc4626
  | uniswapV4
  | custom (name : String)
  deriving DecidableEq, Repr

/-- A third-party pool identity. -/
inductive CustomPoolKey
  | address (protocol : String) (address : Address)
  | bytes32 (protocol : String) (id : B256)
  | composite (protocol : String) (address : Address) (id : B256)
  deriving DecidableEq

def CustomPoolKey.protocol : CustomPoolKey → ProtocolId
  | .address protocol _ | .bytes32 protocol _ | .composite protocol _ _ => .custom protocol

inductive PoolKey
  | uniswapV2 (address : Address)
  | uniswapV3 (address : Address)
  | pancakeV3 (address : Address)
  | slipstream (address : Address)
  | solidlyV2 (address : Address)
  | balancerV2 (id : B256)
  | balancerV3 (address : Address)
  | curve (address : Address)
  | erc4626 (address : Address)
  | uniswapV4 (id : B256)
  | custom (key : CustomPoolKey)
  deriving DecidableEq

def PoolKey.protocol : PoolKey → ProtocolId
  | .uniswapV2 _ => .uniswapV2
  | .uniswapV3 _ => .uniswapV3
  | .pancakeV3 _ => .pancakeV3
  | .slipstream _ => .slipstream
  | .solidlyV2 _ => .solidlyV2
  | .balancerV2 _ => .balancerV2
  | .balancerV3 _ => .balancerV3
  | .curve _ => .curve
  | .erc4626 _ => .erc4626
  | .uniswapV4 _ => .uniswapV4
  | .custom key => key.protocol

/-- One concrete pool registration: a logical key and the generation of its registration. -/
structure PoolInstanceId where
  key : PoolKey
  generation : Nat
  deriving DecidableEq

/-- The protocols an adapter family serves. -/
structure AdapterKey where
  protocols : List ProtocolId
  deriving DecidableEq

structure AdapterInstanceId where
  key : AdapterKey
  generation : Nat
  deriving DecidableEq

structure DiscoveryOwnerKey where
  key : String
  deriving DecidableEq

structure DiscoveryOwnerId where
  key : DiscoveryOwnerKey
  generation : Nat
  deriving DecidableEq

inductive RuntimeOwnerId
  | pool (pool : PoolInstanceId)
  | adapter (adapter : AdapterInstanceId)
  | discovery (owner : DiscoveryOwnerId)
  deriving DecidableEq

/-- One scheduled attempt under a runtime owner. -/
structure RuntimeWorkId where
  owner : RuntimeOwnerId
  work : Nat
  deriving DecidableEq

/-- The reactive-runtime handler of a pool. -/
structure HandlerId where
  name : String
  deriving DecidableEq

/-- An upstream resync request. -/
structure ResyncId where
  id : String
  deriving DecidableEq

/-- A canonical state point of the runtime, after the named block. -/
structure AmmStatePoint where
  chainId : Nat
  blockNumber : Nat
  blockHash : B256
  deriving DecidableEq

inductive PoolStatus
  | pending | cold | ready | degraded | disabled | unsupported
  deriving DecidableEq

/-- The operational state of one pool generation. -/
inductive PoolRuntimeState
  | discovered | queued | hydrating | catchingUp | searchable | live | degraded | removing | removed | failed
  deriving DecidableEq

end AmmState
