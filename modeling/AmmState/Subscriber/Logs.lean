import AmmState.Lib.FirstCopy
import AmmState.Lib.Map
import AmmState.Subscriber.Filters

/-! Canonical logs of a block, from the subscription's buffer (`subscriber_driver.rs`), from reconciliation reads
    (`subscriber_driver/reconciliation.rs`) and from staking evidence (`subscriber_driver/staking.rs`). -/

namespace AmmState.Subscriber
open Checked

/-- The driver errors of these paths. Each one stops the driver. -/
inductive CanonicalLogError
  | invalidCanonicalLog (reason : String)
  | provider (message : String)
  deriving DecidableEq

def invalidLog (reason : String) : CanonicalLogError := .invalidCanonicalLog reason

abbrev LogResult := Except CanonicalLogError

/-! ### Keys -/

/-- The ordering key of a log within its block. -/
def globalLogKey (log : RpcLog) : LogResult Nat :=
  orError log.logIndex (invalidLog "canonical log is missing its global log index")

/-- The same key, for a log of the given block. -/
def validatedLogKey (log : RpcLog) (block : BlockRef) : LogResult Nat := do
  ensure (log.removed = false ∧ log.blockNumber = some block.number ∧ log.blockHash = some block.hash)
    (invalidLog "log does not belong to the requested canonical block")
  ensure (∀ timestamp ∈ log.blockTimestamp, block.timestamp = some timestamp)
    (invalidLog "log timestamp contradicts canonical header")
  let _ ← orError log.transactionIndex (invalidLog "missing transaction index")
  let logIndex ← orError log.logIndex (invalidLog "missing log index")
  let _ ← orError log.transactionHash (invalidLog "missing transaction hash")
  return logIndex

/-- Equality of two logs that were validated against one header and have one key. -/
def sameValidatedLog (a b : RpcLog) : Bool :=
  decide (a.inner = b.inner) && decide (a.transactionHash = b.transactionHash) &&
    decide (a.transactionIndex = b.transactionIndex)

/-! ### The subscription's buffer -/

structure LogBuffer where
  /-- The logs of every block that is not delivered, by number and hash. -/
  bufferedLogs : Map (Nat × B256) (SortedMap Nat RpcLog)
  highestObservedBlock : Option Nat

def noteObservedBlock (s : LogBuffer) (number : Nat) : LogBuffer :=
  if s.highestObservedBlock.all (· < number) then { s with highestObservedBlock := some number } else s

def bufferSubscriptionLog (s : LogBuffer) (log : RpcLog) : LogResult LogBuffer :=
  match log.blockNumber, log.blockHash with
  | some number, some hash => do
    let s := noteObservedBlock s number
    let key ← globalLogKey log
    let logs ← FirstCopy.put (fun a b => decide (a = b))
      (invalidLog "conflicting logs share one global log index") ((s.bufferedLogs.get (number, hash)).getD .empty) key log
    return { s with bufferedLogs := s.bufferedLogs.insert (number, hash) logs }
  | _, _ => .error (invalidLog "canonical log is missing its block identity")

/-! ### Reconciliation -/

def mergeFetched (block : BlockRef) (logs : SortedMap Nat RpcLog) (log : RpcLog) : LogResult (SortedMap Nat RpcLog) := do
  let key ← validatedLogKey log block
  FirstCopy.put sameValidatedLog (invalidLog "conflicting logs share one global log index") logs key log

/-- One read for each filter, at the block's hash; the answers are merged in the order of the filters. -/
def fetchReconciliationLogs (getLogs : B256 → Filter → Option (List RpcLog)) (block : BlockRef) (filters : List Filter) :
    LogResult (SortedMap Nat RpcLog) :=
  filters.foldlM (fun logs filter => do
    let fetched ← orError (getLogs block.hash filter) (.provider "canonical log reconciliation RPC failed")
    fetched.foldlM (mergeFetched block) logs) .empty

end AmmState.Subscriber
