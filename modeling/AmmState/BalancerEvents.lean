import AmmState.Balancer
import AmmState.Recovery
import AmmState.Routing
import AmmState.Runtime.Repairs
import AmmState.V3.Types

/-! The vault's events as the Balancer adapter decodes them (`balancer_v2.rs`): a swap whose cash fields are located and
    warm is written, and anything else asks for the known balance slots again. The decoders of the two events are generated
    from their signatures. -/

namespace AmmState.Balancer
open Repairs (RepairAction)
open SyncManager (UpdateQuality)
open V3 (AdapterEventError)

inductive AdapterEventKind
  | swap | liquidityAdded | liquidityRemoved | sync | deposit | withdraw | unknown
  deriving DecidableEq

structure AdapterEvent where
  pool : PoolKey
  address : Address
  topic0 : B256
  kind : AdapterEventKind
  quality : UpdateQuality
  updates : List SlotUpdate
  repair : RepairAction
  deriving DecidableEq

structure AdapterEventResult where
  event : Option AdapterEvent
  error : Option AdapterEventError
  deriving DecidableEq

namespace AdapterEventResult

def ofEvent (event : AdapterEvent) : AdapterEventResult := ⟨some event, none⟩

def ignored : AdapterEventResult := ⟨none, none⟩

def ofError (error : AdapterEventError) : AdapterEventResult := ⟨none, some error⟩

/-- The writes of the decoded event, if there is one. -/
def updates (result : AdapterEventResult) : List SlotUpdate := result.event.elim [] (·.updates)

def quality (result : AdapterEventResult) : Option UpdateQuality := result.event.map (·.quality)

end AdapterEventResult

/-- What is generated from the signatures of `Swap` and `PoolBalanceChanged`. -/
structure VaultAbi where
  swapSignature : B256
  poolBalanceChangedSignature : B256
  decodeSwap : LogData → Option SwapCashDelta
  /-- The signed deltas of the pool's tokens. -/
  decodePoolBalanceChanged : LogData → Option (List Int)

/-- The known balance slots are read again, or there is nothing to read. -/
def resyncRepair (vault : Address) (metadata : BalancerV2Metadata) : RepairAction × UpdateQuality :=
  if metadata.balanceSlots.isEmpty then (.none, .conservativeInvalidation)
  else (.verifySlots (metadata.balanceSlots.map fun slot => (vault, slot)), .requiresRepair)

section
variable (abi : VaultAbi) (pool : PoolRegistration) (log : Log)

def decodeSwap (view : StateView) : AdapterEventResult :=
  match abi.decodeSwap log.data with
  | none => .ofError (.malformedLog "malformed Balancer V2 Swap log")
  | some decoded =>
    let (updates, repair, quality) : List SlotUpdate × RepairAction × UpdateQuality :=
      match pool.metadata with
      | .balancerV2 metadata =>
        match metadata.vault with
        | some vault =>
          match pool.key.bytes32.bind fun poolId => eventSourceSwap view vault poolId metadata decoded with
          | some updates => (updates, .none, .exact)
          | none => ([], resyncRepair vault metadata)
        | none => ([], .none, .conservativeInvalidation)
      | _ => ([], .none, .conservativeInvalidation)
    .ofEvent ⟨pool.key, log.address, abi.swapSignature, .swap, quality, updates, repair⟩

/-- A join or an exit is not replayed. -/
def decodeLiquidityChange : AdapterEventResult :=
  match abi.decodePoolBalanceChanged log.data with
  | none => .ofError (.malformedLog "malformed Balancer V2 PoolBalanceChanged log")
  | some deltas =>
    let kind : AdapterEventKind := if deltas.any (0 < ·) then .liquidityAdded else .liquidityRemoved
    let (repair, quality) : RepairAction × UpdateQuality :=
      match pool.metadata with
      | .balancerV2 metadata =>
        metadata.vault.elim (.none, .conservativeInvalidation) fun vault => resyncRepair vault metadata
      | _ => (.none, .conservativeInvalidation)
    .ofEvent ⟨pool.key, log.address, abi.poolBalanceChangedSignature, kind, quality, [], repair⟩

def decodeEvent (view : StateView) : AdapterEventResult :=
  match log.data.topics.head? with
  | none => .ignored
  | some topic0 =>
    if topic0 = abi.swapSignature then decodeSwap abi pool log view
    else if topic0 = abi.poolBalanceChangedSignature then decodeLiquidityChange abi pool log
    else .ignored

end

/-! ### Replay -/

/-- The results of a pool's logs in order. Each is decoded over the writes of those before it. -/
def replayEvents (abi : VaultAbi) (pool : PoolRegistration) : StateView → List Log → List AdapterEventResult × StateView
  | view, [] => ([], view)
  | view, log :: logs =>
    let result := decodeEvent abi pool log view
    let (results, view) := replayEvents abi pool (result.updates.foldl .write view) logs
    (result :: results, view)

end AmmState.Balancer
