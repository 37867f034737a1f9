import AmmState.Lib.Checked
import AmmState.Reactive

/-! Event-free branch replacements of the runtime actor: the verified block batch and the ingest (`live_runtime.rs`), the
    bounded history of recent blocks (`live_runtime/reorg.rs`), and the check of a proof against the rollback that the
    reactive engine reports (`sync_manager/reorg.rs`). What the engine, the channel and the cache answer is an argument. -/

namespace AmmState.Reorg
open Checked

/-! ### Canonical batches -/

/-- The sealed header fields that a batch is built from. -/
structure RpcHeader where
  number : Nat
  hash : B256
  parentHash : B256
  timestamp : Nat
  deriving DecidableEq

def RpcHeader.block (header : RpcHeader) : BlockRef :=
  ⟨header.number, header.hash, some header.parentHash, some header.timestamp⟩

inductive AmmCanonicalBatchError
  | headerHashMismatch (advertised computed : B256)
  | unsupportedRecord (index : Nat)
  | malformedRecord (index : Nat) (reason : String)
  | duplicateRecord (index : Nat)
  | outOfOrderRecord (index : Nat) (previous actual : Nat × Nat)
  | missingChainId (index : Nat)
  | recordChainMismatch (index expected actual : Nat)
  | nonCanonicalRecord (index : Nat)
  | recordBlockMismatch (index : Nat) (expected actual : BlockRef)
  deriving DecidableEq

def recordLog (record : ReactiveInputRecord) : Option RpcLog :=
  match record.input with
  | .log log => some log
  | _ => none

/-- The complete identity of a log: transaction hash, transaction index and log index. -/
def logIdentity (log : RpcLog) : Option (B256 × Nat × Nat) := do
  return (← log.transactionHash, ← log.transactionIndex, ← log.logIndex)

/-- What the record loop has seen: identities, log positions, and the last (transaction, log) position. -/
structure Seen where
  identities : List (B256 × Nat)
  positions : List Nat
  previousPosition : Option (Nat × Nat)

/-- One round of the record loop of `from_verified_block`. -/
def checkRecord (chainId : Nat) (block : BlockRef) (seen : Seen) (index : Nat) (record : ReactiveInputRecord) :
    Except AmmCanonicalBatchError Seen := do
  let log ← orError (recordLog record) (.unsupportedRecord index)
  ensure (log.removed = false) (.nonCanonicalRecord index)
  let recordChainId ← orError record.context.chainId (.missingChainId index)
  ensure (recordChainId = chainId) (.recordChainMismatch index chainId recordChainId)
  let recordBlock ← orError record.context.chainStatus.block (.nonCanonicalRecord index)
  ensure (recordBlock = block) (.recordBlockMismatch index block recordBlock)
  ensure (log.blockNumber = some block.number ∧ log.blockHash = some block.hash)
    (.malformedRecord index "log block identity does not match its canonical context")
  let (transactionHash, transactionIndex, logIndex) ← orError (logIdentity log)
    (.malformedRecord index "canonical log identity is incomplete")
  ensure (record.context.transactionIndex = some transactionIndex ∧ record.context.logIndex = some logIndex)
    (.malformedRecord index "log position does not match its canonical context")
  ensure ((transactionHash, logIndex) ∉ seen.identities ∧ logIndex ∉ seen.positions) (.duplicateRecord index)
  match seen.previousPosition with
  | none => pure ()
  | some previous =>
    ensure (previous.1 < transactionIndex ∨ previous.1 = transactionIndex ∧ previous.2 < logIndex)
      (.outOfOrderRecord index previous (transactionIndex, logIndex))
  return ⟨(transactionHash, logIndex) :: seen.identities, logIndex :: seen.positions,
    some (transactionIndex, logIndex)⟩

/-- A record that carries a log with a complete identity. -/
def Identified (record : ReactiveInputRecord) : Prop := ∃ log, recordLog record = some log ∧ (logIdentity log).isSome

def checkRecords (chainId : Nat) (block : BlockRef) : Seen → Nat → List ReactiveInputRecord →
    Except AmmCanonicalBatchError Seen
  | seen, _, [] => .ok seen
  | seen, index, record :: records => do
    let seen ← checkRecord chainId block seen index record
    checkRecords chainId block seen (index + 1) records

/-- A complete canonical block. Every record is a log with a complete identity. -/
structure AmmCanonicalBatch where
  chainId : Nat
  header : RpcHeader
  interestRevision : Nat
  records : List ReactiveInputRecord
  identified : ∀ record ∈ records, Identified record

def AmmCanonicalBatch.block (batch : AmmCanonicalBatch) : BlockRef := batch.header.block

theorem identified_of_checkRecord {chainId : Nat} {block : BlockRef} {seen seen' : Seen} {index : Nat}
    {record : ReactiveInputRecord} (h : checkRecord chainId block seen index record = .ok seen') :
    Identified record := by
  unfold checkRecord at h
  obtain ⟨log, hlog, h⟩ := bind_eq_ok.mp h
  obtain ⟨_, _, h⟩ := bind_eq_ok.mp h
  obtain ⟨chain, _, h⟩ := bind_eq_ok.mp h
  obtain ⟨_, _, h⟩ := bind_eq_ok.mp h
  obtain ⟨recordBlock, _, h⟩ := bind_eq_ok.mp h
  obtain ⟨_, _, h⟩ := bind_eq_ok.mp h
  obtain ⟨_, _, h⟩ := bind_eq_ok.mp h
  obtain ⟨identity, hidentity, _⟩ := bind_eq_ok.mp h
  refine ⟨log, orError_eq_ok.mp hlog, ?_⟩
  rw [orError_eq_ok.mp hidentity]
  rfl

theorem identified_of_checkRecords {chainId : Nat} {block : BlockRef} {records : List ReactiveInputRecord}
    {seen seen' : Seen} {index : Nat} (h : checkRecords chainId block seen index records = .ok seen') :
    ∀ record ∈ records, Identified record := by
  induction records generalizing seen index with
  | nil => simp
  | cons first records ih =>
    rw [checkRecords] at h
    obtain ⟨next, hfirst, hrest⟩ := bind_eq_ok.mp h
    intro record hrecord
    rcases List.mem_cons.mp hrecord with rfl | hrecord
    · exact identified_of_checkRecord hfirst
    · exact ih hrest record hrecord

/-- `computedHash` is the hash of the consensus header. -/
def AmmCanonicalBatch.fromVerifiedBlock (chainId : Nat) (header : RpcHeader) (computedHash : B256)
    (interestRevision : Nat) (records : List ReactiveInputRecord) : Except AmmCanonicalBatchError AmmCanonicalBatch :=
  if header.hash ≠ computedHash then .error (.headerHashMismatch header.hash computedHash)
  else match h : checkRecords chainId header.block ⟨[], [], none⟩ 0 records with
    | .error error => .error error
    | .ok _ => .ok ⟨chainId, header, interestRevision, records, identified_of_checkRecords h⟩

structure AmmEventRef where
  transactionHash : B256
  logIndex : Nat
  deriving DecidableEq

/-- The event references of a batch; the source then sorts them and drops repeats. -/
def ammEventRefs (records : List ReactiveInputRecord) : List AmmEventRef :=
  records.filterMap fun record => do
    let log ← recordLog record
    let transactionHash ← log.transactionHash
    if transactionHash = 0 then none
    else return ⟨transactionHash, ← log.logIndex⟩

/-! ### The bounded history -/

def retainedBlocks : Nat := 64

structure Entry where
  point : AmmStatePoint
  hasLogs : Bool
  deriving DecidableEq

structure EventFreeReorgHistory where
  entries : List Entry
  deriving DecidableEq

namespace EventFreeReorgHistory

/-- Imported state cannot be rolled back using an empty event journal. -/
def reset (_ : EventFreeReorgHistory) (baseline : AmmStatePoint) : EventFreeReorgHistory := ⟨[⟨baseline, true⟩]⟩

def new (baseline : AmmStatePoint) : EventFreeReorgHistory := (EventFreeReorgHistory.mk []).reset baseline

/-- Whether the entry is the parent that the block names. -/
def isParent (block : BlockRef) (entry : Entry) : Bool :=
  (if entry.point.blockNumber + 1 < 2 ^ 64 then some (entry.point.blockNumber + 1) else none) == some block.number &&
    some entry.point.blockHash == block.parentHash

def parentIndex (history : EventFreeReorgHistory) (block : BlockRef) : Option Nat :=
  history.entries.findIdx? (isParent block)

def replacementProof (history : EventFreeReorgHistory) (block : BlockRef) (hasLogs : Bool) : List BlockRef :=
  if hasLogs then []
  else match history.parentIndex block with
    | none => []
    | some parent =>
      let dropped := history.entries.drop (parent + 1)
      if dropped.any Entry.hasLogs then []
      else dropped.map fun entry => ⟨entry.point.blockNumber, entry.point.blockHash, none, none⟩

def record (history : EventFreeReorgHistory) (block : BlockRef) (hasLogs : Bool) (chainId : Nat) :
    EventFreeReorgHistory :=
  let point : AmmStatePoint := ⟨chainId, block.number, block.hash⟩
  match history.parentIndex block with
  | some parent =>
    let entries := history.entries.take (parent + 1) ++ [⟨point, hasLogs⟩]
    ⟨entries.drop (entries.length - retainedBlocks)⟩
  | none => history.reset point

end EventFreeReorgHistory

/-! ### The engine's report -/

inductive InputRef
  | block (block : BlockRef)
  | log (log : RpcLog)
  | other
  deriving DecidableEq

variable {Update Resync : Type}

structure ReorgReport (Update Resync : Type) where
  droppedBlocks : List BlockRef
  droppedInputs : List InputRef
  rollbackUpdates : List Update
  purgeUpdates : List Update
  canceledResyncs : List Resync
  deriving DecidableEq

inductive ReactiveReport (Update Resync : Type)
  | reorg (report : ReorgReport Update Resync)
  | missedBlockRange (first last : Nat)
  | error (message : String)
  | other
  deriving DecidableEq

def ReactiveReport.reorg? : ReactiveReport Update Resync → Option (ReorgReport Update Resync)
  | .reorg report => some report
  | _ => none

def InputRef.isBlock : InputRef → Bool
  | .block _ => true
  | _ => false

def verifyEventFreeReorg (reports : List (ReactiveReport Update Resync)) (proof : List BlockRef) : Bool :=
  if proof.isEmpty then false
  else match reports.filterMap ReactiveReport.reorg? with
    | [reorg] =>
      reorg.droppedBlocks.length == proof.length &&
        (reorg.droppedBlocks.zip proof).all
          (fun (actual, expected) => actual.number == expected.number && actual.hash == expected.hash) &&
        reorg.droppedInputs.all InputRef.isBlock &&
        reorg.rollbackUpdates.isEmpty && reorg.purgeUpdates.isEmpty && reorg.canceledResyncs.isEmpty
    | _ => false

/-- Whether `finish_ingest` asks for a refresh of every pool. -/
def requiresFullRefresh (reports : List (ReactiveReport Update Resync)) (eventFreeReorg : List BlockRef) : Bool :=
  reports.any fun
    | .reorg _ => !verifyEventFreeReorg reports eventFreeReorg
    | .missedBlockRange _ _ => true
    | _ => false

/-! ### The actor -/

inductive AmmRuntimeCommandError
  | untrusted
  | attachedSubscriberOwnsCanonicalInput
  | chainMismatch (expected actual : Nat)
  | interestRevisionMismatch (expected actual : Nat)
  | duplicateCanonicalBlock (current : AmmStatePoint)
  | untrustedBatch (message : String)
  | cacheContextMismatch (expected : Nat) (actual : Option Nat)
  | other (message : String)
  deriving DecidableEq

/-- A block recorded on the current branch: its batch, and every log the block carried. -/
structure RecordedBlock where
  batch : AmmCanonicalBatch
  logs : List RpcLog

/-- The part of the actor that the history depends on. -/
structure AmmRuntimeActor where
  point : AmmStatePoint
  interestRevision : Nat
  trusted : Bool
  /-- Whether a subscriber is attached. -/
  subscriber : Bool
  eventFreeReorgHistory : EventFreeReorgHistory
  /-- Which logs the tracked pools and watchers consume. -/
  interests : RpcLog → Bool
  /-- Not a field of the source: the point of the last reset, which no handler reads. -/
  baseline : AmmStatePoint
  /-- Not a field of the source: the blocks ingested since the last reset on the current branch. -/
  branch : List RecordedBlock

/-- What the actor gets from outside during one ingest, in the order it asks. -/
structure IngestAnswers (Update Resync : Type) where
  /-- A failure to reserve the commit or to derive its version. -/
  reserve : Option AmmRuntimeCommandError
  engine : Except String (List (ReactiveReport Update Resync))
  cacheBlockNumber : Option Nat
  /-- A failure to build the commit from the report. -/
  publication : Option AmmRuntimeCommandError
  /-- Every log that the block carried. -/
  logs : List RpcLog

def hasLogs (batch : AmmCanonicalBatch) : Bool := !(ammEventRefs batch.records).isEmpty

def errorMessage : List (ReactiveReport Update Resync) → Option String
  | [] => none
  | .error message :: _ => some message
  | _ :: reports => errorMessage reports

namespace AmmRuntimeActor

def start (point : AmmStatePoint) (interests : RpcLog → Bool) : AmmRuntimeActor :=
  ⟨point, 0, true, false, .new point, interests, point, []⟩

def eventFreeReorg (a : AmmRuntimeActor) (batch : AmmCanonicalBatch) : List BlockRef :=
  a.eventFreeReorgHistory.replacementProof batch.block (hasLogs batch)

/-- A commit outside canonical ingest (`publish_commit` without a timing): pools, watchers and adapters come and go, and
    prepared state is installed. -/
def publishCommit (a : AmmRuntimeActor) (point : AmmStatePoint) (interestRevision : Nat) (interests : RpcLog → Bool)
    (subscriber : Bool) : AmmRuntimeActor :=
  { a with
    point
    interestRevision
    subscriber
    eventFreeReorgHistory := a.eventFreeReorgHistory.reset point
    interests
    baseline := point
    branch := [] }

def markUntrusted (a : AmmRuntimeActor) : AmmRuntimeActor := { a with trusted := false }

/-- The history and the branch after a published block: a block whose parent is retained cuts the branch back to its own
    height, any other block starts a new one. -/
def recordBlock (a : AmmRuntimeActor) (batch : AmmCanonicalBatch) (logs : List RpcLog) : AmmRuntimeActor :=
  let point : AmmStatePoint := ⟨batch.chainId, batch.block.number, batch.block.hash⟩
  let recorded := { a with
    point
    eventFreeReorgHistory := a.eventFreeReorgHistory.record batch.block (hasLogs batch) batch.chainId }
  if (a.eventFreeReorgHistory.parentIndex batch.block).isSome then
    { recorded with
      branch := a.branch.takeWhile (fun block => block.batch.block.number < batch.block.number) ++ [⟨batch, logs⟩] }
  else { recorded with baseline := point, branch := [] }

/-- `subscribed` is whether the batch came from the attached subscriber. The result is whether every pool needs a
    refresh. -/
def ingest (a : AmmRuntimeActor) (batch : AmmCanonicalBatch) (subscribed : Bool)
    (answers : IngestAnswers Update Resync) : AmmRuntimeActor × Except AmmRuntimeCommandError Bool :=
  if a.trusted = false then (a, .error .untrusted)
  else if a.subscriber = true ∧ subscribed = false then (a, .error .attachedSubscriberOwnsCanonicalInput)
  else if batch.chainId ≠ a.point.chainId then (a, .error (.chainMismatch a.point.chainId batch.chainId))
  else if batch.interestRevision ≠ a.interestRevision then
    (a, .error (.interestRevisionMismatch a.interestRevision batch.interestRevision))
  else if batch.block.number = a.point.blockNumber ∧ batch.block.hash = a.point.blockHash then
    (a, .error (.duplicateCanonicalBlock a.point))
  else match answers.reserve with
    | some error => (a, .error error)
    | none => match answers.engine with
      | .error message => (a.markUntrusted, .error (.other message))
      | .ok reports => match errorMessage reports with
        | some message => (a.markUntrusted, .error (.untrustedBatch message))
        | none =>
          if answers.cacheBlockNumber ≠ some batch.block.number then
            (a.markUntrusted, .error (.cacheContextMismatch batch.block.number answers.cacheBlockNumber))
          else match answers.publication with
            | some error => (a.markUntrusted, .error error)
            | none => (a.recordBlock batch answers.logs, .ok (requiresFullRefresh reports (a.eventFreeReorg batch)))

end AmmRuntimeActor

end AmmState.Reorg
