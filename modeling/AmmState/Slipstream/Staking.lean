import AmmState.Lib.Map
import AmmState.Lib.SortedMap
import AmmState.Reactive
import AmmState.V3.Types
import Mathlib.Data.Prod.Lex
import Mathlib.Order.Lattice

/-! Staking evidence of the reviewed Slipstream pool (`slipstream_staking.rs`). The pool emits no event for a stake: the
    gauge and the NFT manager attest its range and delta together, within one transaction. -/

namespace AmmState.Slipstream
open V3

def POOL : Address := 0x173cdc71e29d5cffa6d090ad99f555a24b8831f9
def GAUGE : Address := 0x41160e66fcaa10cbb148ace60bc2a22d609ec519
def NFT : Address := 0x416b433906b1b72fa758e166e239c43d68dc6f29
def IMPLEMENTATION : Address := 0x7155b84a704f0657975827c65ff6fe42e3a962bb

def MAX_RECORDS : Nat := 16384

/-! ### Events -/

def DEPOSIT_SIGNATURE : B256 := 0x1c8ab8c7f45390d58f58f1d655213a82cca5d12179761a87c16f098813b8f211
def WITHDRAW_SIGNATURE : B256 := 0x8903a5b5d08a841e7f68438387f1da20c84dea756379ed37e633ff3854b99b84
def TRANSFER_SIGNATURE : B256 := 0xddf252ad1be2c89b69c2b068fc378daa952ba7f163c4a11628f55a4df523b3ef
def COLLECT_SIGNATURE : B256 := 0x40d0efd1a53d60ecbf40971b9daf7dc90178c3aadc7aab1765632738fa8b8f01
def POOL_COLLECT_SIGNATURE : B256 := 0x70935338e69775456a85ddef226c395fb668b63fa0115f5f20610b388e6ca9c0

/-- A word as 32 bytes, most significant first. -/
def encodeWord (word : U256) : Bytes := (List.range 32).map fun i => (word >>> (8 * (31 - i))).setWidth 8

def decodeWord (bytes : Bytes) : U256 := bytes.foldl (fun word byte => (word <<< 8) ||| byte.setWidth 256) 0

/-- The `i`-th word of a payload. -/
def wordAt (data : Bytes) (i : Nat) : U256 := decodeWord ((data.drop (32 * i)).take 32)

/-- The ABI of one event. -/
structure SolEvent (E : Type) where
  decode : LogData → Option E
  encode : E → LogData

/-- `Deposit` and `Withdraw` of the gauge, which differ in their signature only. -/
structure GaugeEvent where
  user : Address
  tokenId : U256
  liquidityToStake : BitVec 128
  deriving DecidableEq

def gaugeEvent (signature : B256) : SolEvent GaugeEvent where
  decode log := match log.topics with
    | [topic, user, tokenId, liquidity] =>
      if topic = signature then some ⟨user.setWidth 160, tokenId, liquidity.setWidth 128⟩ else none
    | _ => none
  encode event := ⟨[signature, event.user.setWidth 256, event.tokenId, event.liquidityToStake.setWidth 256], []⟩

structure Transfer where
  sender : Address
  recipient : Address
  tokenId : U256
  deriving DecidableEq

def transferEvent : SolEvent Transfer where
  decode log := match log.topics with
    | [topic, sender, recipient, tokenId] =>
      if topic = TRANSFER_SIGNATURE then some ⟨sender.setWidth 160, recipient.setWidth 160, tokenId⟩ else none
    | _ => none
  encode event := ⟨[TRANSFER_SIGNATURE, event.sender.setWidth 256, event.recipient.setWidth 256, event.tokenId], []⟩

/-- `Collect` of the NFT manager. -/
structure Collect where
  tokenId : U256
  recipient : Address
  amount0 : U256
  amount1 : U256
  deriving DecidableEq

def collectEvent : SolEvent Collect where
  decode log := match log.topics with
    | [topic, tokenId] =>
      if topic = COLLECT_SIGNATURE
      then some ⟨tokenId, (wordAt log.data 0).setWidth 160, wordAt log.data 1, wordAt log.data 2⟩ else none
    | _ => none
  encode event := ⟨[COLLECT_SIGNATURE, event.tokenId],
    encodeWord (event.recipient.setWidth 256) ++ encodeWord event.amount0 ++ encodeWord event.amount1⟩

/-- `Collect` of the pool, which names the range. -/
structure PoolCollect where
  owner : Address
  recipient : Address
  tickLower : BitVec 24
  tickUpper : BitVec 24
  amount0 : BitVec 128
  amount1 : BitVec 128
  deriving DecidableEq

def poolCollectEvent : SolEvent PoolCollect where
  decode log := match log.topics with
    | [topic, owner, tickLower, tickUpper] =>
      if topic = POOL_COLLECT_SIGNATURE
      then some ⟨owner.setWidth 160, (wordAt log.data 0).setWidth 160, tickLower.setWidth 24, tickUpper.setWidth 24,
        (wordAt log.data 1).setWidth 128, (wordAt log.data 2).setWidth 128⟩ else none
    | _ => none
  encode event := ⟨[POOL_COLLECT_SIGNATURE, event.owner.setWidth 256, event.tickLower.signExtend 256,
    event.tickUpper.signExtend 256], encodeWord (event.recipient.setWidth 256) ++ encodeWord (event.amount0.setWidth 256) ++
      encodeWord (event.amount1.setWidth 256)⟩

/-- An event that encodes back to the very log: trailing data and dirty topics attest nothing. -/
def canonicalEvent {E : Type} (abi : SolEvent E) (log : Log) : Option E :=
  (abi.decode log.data).filter fun event => abi.encode event = log.data

/-! ### Identities -/

structure TransactionKey where
  chain : Nat
  number : Nat
  hash : B256
  parent : B256
  timestamp : Nat
  transaction : B256
  index : Nat
  deriving DecidableEq

/-- Keys are ordered field by field. -/
def TransactionKey.rank (key : TransactionKey) : Nat ×ₗ Nat ×ₗ Nat ×ₗ Nat ×ₗ Nat ×ₗ Nat ×ₗ Nat :=
  toLex (key.chain, toLex (key.number, toLex (key.hash.toNat, toLex (key.parent.toNat, toLex (key.timestamp,
    toLex (key.transaction.toNat, key.index))))))

theorem TransactionKey.rank_injective : Function.Injective TransactionKey.rank := by
  rintro ⟨_, _, _, _, _, _, _⟩ ⟨_, _, _, _, _, _, _⟩ h
  simp only [TransactionKey.rank, EmbeddingLike.apply_eq_iff_eq, Prod.mk.injEq, BitVec.toNat_inj] at h
  simp [h]

instance : LinearOrder TransactionKey := LinearOrder.lift' TransactionKey.rank TransactionKey.rank_injective

structure EventKey where
  transaction : TransactionKey
  log : Nat
  deriving DecidableEq

/-- The identity of an event context that names all of it. -/
def EventKey.context (context : AdapterEventContext) : Option EventKey := do
  let chain ← context.chainId
  let number ← context.blockNumber
  let hash ← context.blockHash
  let parent ← context.parentHash
  let timestamp ← context.blockTimestamp
  let transaction ← context.transactionHash
  let index ← context.transactionIndex
  let log ← context.logIndex
  return ⟨⟨chain, number, hash, parent, timestamp, transaction, index⟩, log⟩

/-- Evidence for a staking transition at one exact log position. -/
structure SlipstreamStakingEvidence where
  key : EventKey
  payload : B256
  lower : Int
  upper : Int
  delta : Int
  deriving DecidableEq

/-- The snapshot that vouches for the reviewed code and the pool's bindings. -/
structure EvmSnapshot where
  chainId : Nat
  accountCodeHash : Address → Option B256
  storageValue : Address → U256 → Option U256

def runtimeMatches (snapshot : EvmSnapshot) : Bool :=
  let identities : List (Address × B256) := [
    (POOL, 0x063ca35333cb7f2463f087d40ff9485475550abf4858a2f63c387d4d102b0f4f),
    (0xc28ad28853a547556780bebf7847628501a3bcbb, 0x36c3da904ca0b58544254cd0d978fe4801c32dc1f9e3b3e644487ef541299794),
    (GAUGE, 0x576a24f21989bca966fb1698aa060e9957ceabe9a970dadb98ba8dc740e845f1),
    (IMPLEMENTATION, 0xeb344e9f4bd301360b265a45cf417685e7ba46f7c53e03b592e7fc1fad53abdb),
    (NFT, 0xe46c8b86983505f15a6598c270339e696f5465478a32f17f1026d76e36fd69de)]
  identities.all (fun (address, hash) => snapshot.accountCodeHash address = some hash) &&
    snapshot.storageValue POOL 3 = some (GAUGE.setWidth 256) && snapshot.storageValue POOL 4 = some (NFT.setWidth 256)

/-! ### Logs of each transaction -/

/-- A log of the pool, the gauge or the manager that the batch places in a transaction. -/
structure Entry where
  transaction : TransactionKey
  position : Nat
  log : Log
  scope : Option DeliveryScope

/-- The logs of each transaction by position, and the transactions that cannot be trusted. -/
structure Collected where
  transactions : SortedMap TransactionKey (SortedMap Nat Log)
  invalid : List TransactionKey
  scopes : SortedMap TransactionKey (Option DeliveryScope)

def Collected.empty : Collected := ⟨.empty, [], .empty⟩

/-- The transaction was delivered in another scope before. -/
def Collected.mixed (c : Collected) (entry : Entry) : Bool :=
  match c.scopes.get entry.transaction with
  | some previous => decide (previous ≠ entry.scope)
  | none => false

def Collected.logs (c : Collected) (transaction : TransactionKey) : SortedMap Nat Log :=
  (c.transactions.get transaction).getD .empty

/-- A second scope or a second log at one position invalidates the transaction. -/
def Collected.add (c : Collected) (entry : Entry) : Collected :=
  let logs := c.logs entry.transaction
  let repeated := (logs.get entry.position).isSome
  { transactions := c.transactions.insert entry.transaction (logs.insert entry.position entry.log)
    invalid := if c.mixed entry || repeated then entry.transaction :: c.invalid else c.invalid
    scopes := c.scopes.insert entry.transaction entry.scope }

def visible (handler : HandlerId) : Option DeliveryAudience → Bool
  | some .all => true
  | some (.owners owners) => decide (handler ∈ owners)
  | some (.allExcept owners) => decide (handler ∉ owners)
  | _ => false

/-- A record that the handler sees, canonical and consistent with its own block. -/
def entryOf (handler : HandlerId) (record : ReactiveInputRecord) : Option Entry := do
  guard (visible handler record.audience)
  guard (record.deliveryScope = some .canonical ∨ record.deliveryScope = some .ownerCatchup)
  match record.input with
  | .log log =>
    guard (log.inner.address ∈ [POOL, GAUGE, NFT])
    let block ← record.context.block
    let parent ← block.parentHash
    let timestamp ← block.timestamp
    let transaction ← log.transactionHash
    let index ← log.transactionIndex
    let position ← log.logIndex
    guard (record.context.chainId = some 10)
    guard (log.removed = false)
    guard (record.context.chainStatus.block = some block)
    guard (log.blockHash = some block.hash ∧ log.blockNumber = some block.number)
    guard (log.blockTimestamp.all (· = timestamp))
    guard (record.context.transactionIndex = some index ∧ record.context.logIndex = some position)
    return ⟨⟨10, block.number, block.hash, parent, timestamp, transaction, index⟩, position,
      log.inner, record.deliveryScope⟩
  | _ => none

/-! ### Matching within one transaction -/

/-- The last transfer of a token between two holders before a position. -/
def lastTransfer (logs : SortedMap Nat Log) (tokenId : U256) (sender recipient : Address) (before : Nat) : Option Nat :=
  ((logs.entries.filter fun (position, log) => position < before ∧ log.address = NFT ∧
    canonicalEvent transferEvent log = some ⟨sender, recipient, tokenId⟩).getLast?).map Prod.fst

/-- A manager `Collect` of a token, by its recipient. -/
def collectOf (tokenId : U256) (log : Log) : Option Address := do
  guard (log.address = NFT)
  guard (canonicalEvent transferEvent log = none)
  let event ← canonicalEvent collectEvent log
  guard (event.tokenId = tokenId)
  return event.recipient

def lastCollect (logs : SortedMap Nat Log) (tokenId : U256) (before : Nat) : Option (Nat × Address) :=
  ((logs.entries.filter fun (position, _) => position < before).filterMap fun (position, log) =>
    (collectOf tokenId log).map fun recipient => (position, recipient)).getLast?

/-- A gauge event: whether it is a deposit, and its fields. -/
def decodeGauge (log : Log) : Option (Bool × GaugeEvent) :=
  if log.data.topics.head? = some DEPOSIT_SIGNATURE
  then (canonicalEvent (gaugeEvent DEPOSIT_SIGNATURE) log).map fun event => (true, event)
  else if log.data.topics.head? = some WITHDRAW_SIGNATURE
  then (canonicalEvent (gaugeEvent WITHDRAW_SIGNATURE) log).map fun event => (false, event)
  else none

/-- A gauge event with its custody transfer and the range that the pool collected for it. -/
structure StakingMatch where
  deposit : Bool
  event : GaugeEvent
  transfer : Nat
  range : PoolCollect
  deriving DecidableEq

def StakingMatch.amount (m : StakingMatch) : Int := m.event.liquidityToStake.toNat

/-- The gauge event at a position, matched with its counterparts; `none` where one is missing. -/
def matchGauge (logs : SortedMap Nat Log) (index : Nat) (log : Log) : Option StakingMatch := do
  guard (log.address = GAUGE)
  let (deposit, event) ← decodeGauge log
  guard (event.liquidityToStake.toNat < 2 ^ 127)
  let transfer ← (if deposit then lastTransfer logs event.tokenId event.user GAUGE index
    else lastTransfer logs event.tokenId GAUGE event.user index)
  let (collect, recipient) ← lastCollect logs event.tokenId transfer
  guard (recipient = event.user)
  guard (2 ≤ collect)
  let poolLog ← logs.get (collect - 2)
  guard (poolLog.address = POOL)
  let range ← canonicalEvent poolCollectEvent poolLog
  guard (range.recipient = event.user ∧ range.owner = if deposit then NFT else GAUGE)
  return ⟨deposit, event, transfer, range⟩

section Evidence
variable (keccak256 : Bytes → B256)

def addressBytes (address : Address) : Bytes := (encodeWord (address.setWidth 256)).drop 12

/-- The payload that evidence is bound to. -/
def fingerprint (log : Log) : B256 :=
  keccak256 (addressBytes log.address ++ [BitVec.ofNat 8 log.data.topics.length] ++ log.data.topics.flatMap encodeWord ++
    log.data.data)

/-- A deposit applies at its own log. A withdrawal applies at its transfer, before the receiver's callback, and its own
    log is attested without a delta. -/
def matchEvidence (transaction : TransactionKey) (logs : SortedMap Nat Log) (index : Nat) (log : Log) (m : StakingMatch) :
    List SlipstreamStakingEvidence :=
  let applyIndex := if m.deposit then index else m.transfer
  let proof : SlipstreamStakingEvidence := {
    key := ⟨transaction, applyIndex⟩
    payload := fingerprint keccak256 ((logs.get applyIndex).getD log)
    lower := m.range.tickLower.toInt
    upper := m.range.tickUpper.toInt
    delta := if m.deposit then m.amount else -m.amount }
  if m.deposit then [proof]
  else [proof, { proof with key := ⟨transaction, index⟩, payload := fingerprint keccak256 log, delta := 0 }]

/-- One gauge log of the pass over a transaction; `none` where a transfer is claimed twice. -/
def matchStep (transaction : TransactionKey) (logs : SortedMap Nat Log)
    (s : List SlipstreamStakingEvidence × List Nat) (entry : Nat × Log) :
    Option (List SlipstreamStakingEvidence × List Nat) :=
  match matchGauge logs entry.1 entry.2 with
  | none => some s
  | some m =>
    if m.transfer ∈ s.2 then none
    else some (s.1 ++ matchEvidence keccak256 transaction logs entry.1 entry.2 m, m.transfer :: s.2)

/-- The evidence of a transaction; ambiguity anywhere in it leaves none. -/
def transactionEvidence (transaction : TransactionKey) (logs : SortedMap Nat Log) : List SlipstreamStakingEvidence :=
  match logs.entries.foldlM (matchStep keccak256 transaction logs) ([], []) with
  | none => []
  | some (candidates, _) => if (candidates.map (·.key)).Nodup then candidates else []

variable (handlerId : PoolInstanceId → HandlerId)

/-- The logs of a batch that the pool's handler sees, by transaction. -/
def collect (handler : HandlerId) (batch : List ReactiveInputRecord) : Collected :=
  (batch.filterMap (entryOf handler)).foldl Collected.add .empty

/-- The proof index of one delivery batch. -/
def fromBatch (batch : List ReactiveInputRecord) (instance_ : PoolInstanceId) (snapshot : EvmSnapshot) :
    Map EventKey SlipstreamStakingEvidence :=
  if instance_.key ≠ .slipstream POOL ∨ snapshot.chainId ≠ 10 ∨ runtimeMatches snapshot = false then .empty
  else if MAX_RECORDS < batch.length then .empty
  else
    let collected := collect (handlerId instance_) batch
    collected.transactions.entries.foldl (fun output (transaction, logs) =>
      if transaction ∈ collected.invalid then output
      else (transactionEvidence keccak256 transaction logs).foldl
        (fun output proof => output.insert proof.key proof) output)
      .empty

end Evidence

/-- The evidence for an exact context. -/
def evidence (batch : Map EventKey SlipstreamStakingEvidence) (pool : Address) (context : AdapterEventContext) :
    Option SlipstreamStakingEvidence :=
  if pool = POOL then (EventKey.context context).bind batch.get else none

end AmmState.Slipstream
