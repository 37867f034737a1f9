import AmmState.Lib.Checked
import AmmState.Types

/-! What a concentrated-liquidity transition reads and returns (`types.rs`): the event context, cached pool storage,
    storage updates and the vocabulary of failures. -/

namespace AmmState.V3

/-- Reviewed Slipstream deployments. -/
inductive SlipstreamRuntimeFamily
  | aerodromeBaseBifi | velodromeOptimismBifi
  deriving DecidableEq

inductive SlipstreamUnstakedFeeProofKind
  | unusedAllLiquidityStaked | reviewedRuntimeEvaluation
  deriving DecidableEq

/-- The exact event and parent snapshot that evidence is bound to. -/
structure SlipstreamSnapshotIdentity where
  chainId : Nat
  blockNumber : Nat
  blockHash : B256
  parentHash : B256
  blockTimestamp : Nat
  transactionHash : B256
  transactionIndex : Nat
  logIndex : Nat
  deriving DecidableEq

structure SlipstreamUnstakedFeeProof where
  runtimeFamily : SlipstreamRuntimeFamily
  kind : SlipstreamUnstakedFeeProofKind
  gaugeAlive : Option Bool
  effectiveFee : Option Nat
  snapshotIdentity : Option SlipstreamSnapshotIdentity
  deriving DecidableEq

structure SlipstreamSwapFeeEvidence where
  runtimeFamily : SlipstreamRuntimeFamily
  chainId : Nat
  pool : Address
  factory : Address
  proxyRuntimeCodeHash : B256
  implementation : Address
  implementationRuntimeCodeHash : B256
  effectiveSwapFee : Nat
  effectiveUnstakedFee : Nat
  unstakedFeeProof : SlipstreamUnstakedFeeProof
  blockNumber : Nat
  blockHash : B256
  parentHash : B256
  blockTimestamp : Nat
  transactionHash : B256
  transactionIndex : Nat
  logIndex : Nat
  deriving DecidableEq

/-- Where an event stands in the chain, as far as the caller knows. -/
structure AdapterEventContext where
  chainId : Option Nat
  blockNumber : Option Nat
  blockHash : Option B256
  parentHash : Option B256
  blockTimestamp : Option Nat
  transactionHash : Option B256
  transactionIndex : Option Nat
  logIndex : Option Nat
  slipstreamFeeEvidence : Option SlipstreamSwapFeeEvidence

inductive V3TransitionError
  | missingContext (field : String)
  | missingSlipstreamFeeEvidence
  | slipstreamStakingEvidence (reason : String)
  | slipstreamFeeEvidence (reason : String)
  | slipstreamFeeInferenceNoMatch
  | slipstreamFeeInferenceAmbiguous (first last : Nat)
  | contradictoryEvent (reason : String)
  | finalStateMismatch (field : String) (derived event : Nat)
  | observation (reason : String)
  | initializedTick (tick : Int) (reason : String)
  | arithmetic (reason : String)
  | workLimitExceeded (limit : Nat)
  deriving DecidableEq

inductive AdapterEventError
  | malformedLog (what : String)
  | missingState (address : Address) (slot : U256)
  | v3Transition (error : V3TransitionError)
  deriving DecidableEq

abbrev Result := Except AdapterEventError

def contradiction (reason : String) : AdapterEventError := .v3Transition (.contradictoryEvent reason)

def finalMismatch (field : String) (derived event : Nat) : AdapterEventError :=
  .v3Transition (.finalStateMismatch field derived event)

def arithmetic (reason : String) : AdapterEventError := .v3Transition (.arithmetic reason)

/-- Cached storage: a cell that is not held is `none`, never zero. -/
def StateView := Address → U256 → Option U256

def StateView.storage (state : StateView) (address : Address) (slot : U256) : Option U256 := state address slot

/-- `StateUpdate::slot`. -/
structure StateUpdate where
  address : Address
  slot : U256
  value : U256
  deriving DecidableEq

def StateUpdate.apply (u : StateUpdate) (state : StateView) : StateView := fun address slot =>
  if address = u.address ∧ slot = u.slot then some u.value else state address slot

/-- One batch, in order. -/
def StateView.applyUpdates (state : StateView) (updates : List StateUpdate) : StateView :=
  updates.foldl (fun state u => u.apply state) state

/-- `PurgeScope::Slots`: forget the cells of one contract. -/
def StateView.purge (state : StateView) (address : Address) (slots : List U256) : StateView := fun a slot =>
  if a = address ∧ slot ∈ slots then none else state a slot

def required (state : StateView) (address : Address) (slot : U256) : Result U256 :=
  Checked.orError (state.storage address slot) (.missingState address slot)

/-- Every field of the context is there and the timestamp fits the pool's `uint32`. -/
def validateContext (context : AdapterEventContext) : Result Nat := do
  let missing name := AdapterEventError.v3Transition (.missingContext name)
  Checked.ensure context.chainId.isSome (missing "chain_id")
  Checked.ensure context.blockNumber.isSome (missing "block_number")
  Checked.ensure context.blockHash.isSome (missing "block_hash")
  Checked.ensure context.parentHash.isSome (missing "parent_hash")
  let timestamp ← Checked.orError context.blockTimestamp (missing "block_timestamp")
  Checked.ensure context.transactionHash.isSome (missing "transaction_hash")
  Checked.ensure context.transactionIndex.isSome (missing "transaction_index")
  Checked.ensure context.logIndex.isSome (missing "log_index")
  Checked.ensure (timestamp < 2 ^ 32) (.v3Transition (.observation "block timestamp exceeds uint32"))
  return timestamp

end AmmState.V3
