import AmmState.Types

/-! What a delivery batch carries: logs with their chain identity, and for each record its audience and scope. These are
    the shapes of the reactive runtime that the adapters read. -/

namespace AmmState

abbrev Bytes := List (BitVec 8)

structure LogData where
  topics : List B256
  data : Bytes
  deriving DecidableEq

structure Log where
  address : Address
  data : LogData
  deriving DecidableEq

/-- A log as a provider returns it, with as much of its place in the chain as the provider names. -/
structure RpcLog where
  inner : Log
  blockHash : Option B256
  blockNumber : Option Nat
  blockTimestamp : Option Nat
  transactionHash : Option B256
  transactionIndex : Option Nat
  logIndex : Option Nat
  removed : Bool
  deriving DecidableEq

structure BlockRef where
  number : Nat
  hash : B256
  parentHash : Option B256
  timestamp : Option Nat
  deriving DecidableEq

inductive ChainStatus
  | included (block : BlockRef) (confirmations : Nat)
  | safe (block : BlockRef)
  | finalized (block : BlockRef)
  | unsettled
  deriving DecidableEq

/-- The block that a settled status names. -/
def ChainStatus.block : ChainStatus → Option BlockRef
  | .included block _ | .safe block | .finalized block => some block
  | .unsettled => none

inductive DeliveryAudience
  | all
  | owners (owners : List HandlerId)
  | allExcept (owners : List HandlerId)
  | nobody
  deriving DecidableEq

inductive DeliveryScope
  | canonical | ownerCatchup | preconfirmed
  deriving DecidableEq

inductive ReactiveInput
  | log (log : RpcLog)
  | blockHeader | fullBlock | pendingTxHash | pendingTx
  deriving DecidableEq

structure ReactiveContext where
  chainId : Option Nat
  chainStatus : ChainStatus
  block : Option BlockRef
  transactionIndex : Option Nat
  logIndex : Option Nat
  deriving DecidableEq

/-- One record of a batch, with the audience and the scope that the batch gives it. -/
structure ReactiveInputRecord where
  input : ReactiveInput
  context : ReactiveContext
  audience : Option DeliveryAudience
  deliveryScope : Option DeliveryScope
  deriving DecidableEq

end AmmState
