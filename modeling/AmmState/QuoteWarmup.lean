import AmmState.Lib.Fallible
import AmmState.Lib.Interaction
import AmmState.Lib.Map
import AmmState.Registry
import Mathlib.Data.Finset.Card
import Mathlib.Data.Finset.Lattice.Basic

/-! Learning the read sets of representative quotes (`quote_warmup.rs`). A quote is simulated against the live cache through
    a wrapper that records its calls, replayed offline through a wrapper over a snapshot, and its recorded read set is kept
    as the request's manifest. An adapter's simulation is a program over the operations of `AdapterCache`. -/

namespace AmmState.Quotes
open SortDedup

/-! ### Read sets -/

/-- The accounts, runtime-code hashes, storage slots and historical blocks that an execution depends on. -/
@[ext]
structure StorageAccessList where
  accounts : Finset Address
  codeHashes : Finset B256
  slots : Finset StateSlot
  blockNumbers : Finset Nat
  deriving DecidableEq

namespace StorageAccessList

instance : LE StorageAccessList := ⟨fun a b =>
  a.accounts ⊆ b.accounts ∧ a.codeHashes ⊆ b.codeHashes ∧ a.slots ⊆ b.slots ∧ a.blockNumbers ⊆ b.blockNumbers⟩

/-- `extend`. -/
instance : Max StorageAccessList := ⟨fun a b =>
  ⟨a.accounts ∪ b.accounts, a.codeHashes ∪ b.codeHashes, a.slots ∪ b.slots, a.blockNumbers ∪ b.blockNumbers⟩⟩

instance : SemilatticeSup StorageAccessList where
  le_refl _ := ⟨subset_rfl, subset_rfl, subset_rfl, subset_rfl⟩
  le_trans _ _ _ h h' := ⟨h.1.trans h'.1, h.2.1.trans h'.2.1, h.2.2.1.trans h'.2.2.1, h.2.2.2.trans h'.2.2.2⟩
  le_antisymm _ _ h h' := StorageAccessList.ext (h.1.antisymm h'.1) (h.2.1.antisymm h'.2.1) (h.2.2.1.antisymm h'.2.2.1)
    (h.2.2.2.antisymm h'.2.2.2)
  sup := max
  le_sup_left _ _ := ⟨Finset.subset_union_left, Finset.subset_union_left, Finset.subset_union_left,
    Finset.subset_union_left⟩
  le_sup_right _ _ :=
    ⟨Finset.subset_union_right, Finset.subset_union_right, Finset.subset_union_right, Finset.subset_union_right⟩
  sup_le _ _ _ h h' := ⟨Finset.union_subset h.1 h'.1, Finset.union_subset h.2.1 h'.2.1,
    Finset.union_subset h.2.2.1 h'.2.2.1, Finset.union_subset h.2.2.2 h'.2.2.2⟩

/-- `default`. -/
instance : OrderBot StorageAccessList where
  bot := ⟨∅, ∅, ∅, ∅⟩
  bot_le _ := ⟨Finset.empty_subset _, Finset.empty_subset _, Finset.empty_subset _, Finset.empty_subset _⟩

/-- Slots that are read directly. -/
def ofSlots (slots : List StateSlot) : StorageAccessList := ⟨∅, ∅, slots.toFinset, ∅⟩

end StorageAccessList

structure QuoteReadSetLimits where
  maxAccounts : Nat
  maxCodeHashes : Nat
  maxSlots : Nat
  maxBlockHashes : Nat

namespace QuoteReadSetLimits

def default : QuoteReadSetLimits := ⟨4096, 4096, 131072, 256⟩

def accepts (limits : QuoteReadSetLimits) (access : StorageAccessList) : Bool :=
  access.accounts.card ≤ limits.maxAccounts && access.codeHashes.card ≤ limits.maxCodeHashes &&
    access.slots.card ≤ limits.maxSlots && access.blockNumbers.card ≤ limits.maxBlockHashes

end QuoteReadSetLimits

/-! ### The fork cache -/

/-- What an execution reads beside the state: its chain and its block. -/
structure EvmEnvironment where
  chainId : Nat
  number : Nat
  timestamp : Nat
  baseFee : Nat
  coinbase : Address
  prevrandao : B256
  gasLimit : Nat

/-- An immutable state without a provider: what is resident, in its environment. -/
structure EvmSnapshot (AccountInfo : Type) where
  environment : EvmEnvironment
  accounts : Map Address AccountInfo
  code : Map B256 Bytes
  storage : Map StateSlot U256
  blockHashes : Map Nat B256

/-- The dependencies that a snapshot lacks. -/
def EvmSnapshot.missingReadSet {AccountInfo : Type} (snapshot : EvmSnapshot AccountInfo) (access : StorageAccessList) :
    StorageAccessList :=
  ⟨access.accounts.filter fun account => !snapshot.accounts.contains account,
    access.codeHashes.filter fun codeHash => !snapshot.code.contains codeHash,
    access.slots.filter fun slot => !snapshot.storage.contains slot,
    access.blockNumbers.filter fun number => !snapshot.blockHashes.contains number⟩

inductive CacheError
  | backend (message : String)
  deriving DecidableEq

inductive CallOutcome
  | success (output : Bytes) (gasUsed : U64)
  | revert (output : Bytes) (gasUsed : U64)
  | halt (reason : String)
  deriving DecidableEq

structure Call where
  caller : Address
  target : Address
  calldata : Bytes

/-- The result of `hydrate_read_set`. -/
structure HydratedReadSet (Failure : Type) where
  accountsRefreshed : Nat
  slotsRefreshed : Nat
  failures : List Failure
  codeChanges : List (Address × B256 × B256)
  missingAfter : StorageAccessList

/-- What the registry uses of `evm_fork_cache`: a live cache with the operations of `AdapterCache`, and non-committing
    executions over a snapshot, each with the dependencies that it asks the snapshot for. -/
structure EvmForkCache where
  AccountInfo : Type
  StateUpdate : Type
  StateDiff : Type
  noDiff : StateDiff
  SlotChange : Type
  Failure : Type
  Cache : Type
  snapshot : Cache → EvmSnapshot AccountInfo
  storage : Cache → StateSlot → Option U256
  cachedStorageValue : Cache → StateSlot → Option U256
  applyUpdates : Cache → List StateUpdate → StateDiff × Cache
  verifySlots : Cache → List StateSlot → Except CacheError (List SlotChange) × Cache
  purgeStorage : Cache → Address → StateDiff × Cache
  purgeSlots : Cache → Address → List U256 → StateDiff × Cache
  readStorageSlot : Cache → StateSlot → Except CacheError U256 × Cache
  readStorageSlots : Cache → List StateSlot → Except CacheError (List U256) × Cache
  callRawWithAccessList : Cache → Call → Except CacheError (CallOutcome × StorageAccessList) × Cache
  hydrateReadSet : Cache → StorageAccessList → HydratedReadSet Failure × Cache
  overlayStorage : EvmSnapshot AccountInfo → StateSlot → Except CacheError U256 × StorageAccessList
  overlayCall : EvmSnapshot AccountInfo → Call → List (Address × Bytes) → Except CacheError CallOutcome × StorageAccessList

variable (evm : EvmForkCache)

/-! ### Simulations -/

/-- The operations of `AdapterCache`. -/
inductive CacheOp
  | storage (slot : StateSlot)
  | cachedStorage (slot : StateSlot)
  | applyUpdates (updates : List evm.StateUpdate)
  | verifySlots (slots : List StateSlot)
  | purgeStorage (address : Address)
  | purgeSlots (address : Address) (slots : List U256)
  | readStorageSlot (slot : StateSlot)
  | readStorageSlots (slots : List StateSlot)
  | callRaw (call : Call) (commit : Bool)
  | callRawWithAccessList (call : Call)
  | callRawWithCodeOverrides (call : Call) (codeOverrides : List (Address × Bytes)) (commit : Bool)
  | callRawWithCodeOverridesAndAccessList (call : Call) (codeOverrides : List (Address × Bytes))

def CacheOp.Answer : CacheOp evm → Type
  | .storage _ | .cachedStorage _ => Option U256
  | .applyUpdates _ | .purgeStorage _ | .purgeSlots _ _ => evm.StateDiff
  | .verifySlots _ => Except CacheError (List evm.SlotChange)
  | .readStorageSlot _ => Except CacheError U256
  | .readStorageSlots _ => Except CacheError (List U256)
  | .callRaw _ _ | .callRawWithCodeOverrides _ _ _ => Except CacheError CallOutcome
  | .callRawWithAccessList _ | .callRawWithCodeOverridesAndAccessList _ _ =>
    Except CacheError (CallOutcome × StorageAccessList)

structure SwapQuote where
  amountOut : U256
  deriving DecidableEq

inductive SimError
  | unsupported (protocol : ProtocolId)
  | missingMetadata (what : String)
  | reverted
  | malformedOutput (what : String)
  | execution (error : CacheError)
  | custom (message : String)
  deriving DecidableEq

/-- What an adapter's `simulate_swap` does. -/
abbrev Simulation := Interaction (CacheOp evm) (CacheOp.Answer evm) (Except SimError SwapQuote)

/-! ### Recording -/

variable {evm}

structure RecordingCache (evm : EvmForkCache) where
  cache : evm.Cache
  baseline : EvmSnapshot evm.AccountInfo
  accesses : StorageAccessList
  providerReads : StorageAccessList

namespace RecordingCache

def new (cache : evm.Cache) : RecordingCache evm := ⟨cache, evm.snapshot cache, ⊥, ⊥⟩

/-- Record the accesses of a call that was executed. -/
def record (recording : RecordingCache evm) :
    Except CacheError (CallOutcome × StorageAccessList) × evm.Cache → Except CacheError CallOutcome × RecordingCache evm
  | (.ok (outcome, accesses), cache) =>
    (.ok outcome, { recording with
      cache
      accesses := recording.accesses ⊔ accesses
      providerReads := recording.providerReads ⊔ recording.baseline.missingReadSet accesses })
  | (.error error, cache) => (.error error, { recording with cache })

def callRaw (recording : RecordingCache evm) (call : Call) : Except CacheError CallOutcome × RecordingCache evm :=
  recording.record (evm.callRawWithAccessList recording.cache call)

/-- Hand an operation to the live cache. -/
def delegate {α : Type} (recording : RecordingCache evm) (result : α × evm.Cache) : α × RecordingCache evm :=
  (result.1, { recording with cache := result.2 })

/-- Calls are recorded, and the live cache runs them on its own code; everything else goes to the live cache. The traced
    calls are those of the trait, which have no accesses of their own. -/
def handle : Interaction.Handler (CacheOp.Answer evm) (RecordingCache evm)
  | .storage slot, recording => (evm.storage recording.cache slot, recording)
  | .cachedStorage slot, recording => (evm.cachedStorageValue recording.cache slot, recording)
  | .applyUpdates updates, recording => recording.delegate (evm.applyUpdates recording.cache updates)
  | .verifySlots slots, recording => recording.delegate (evm.verifySlots recording.cache slots)
  | .purgeStorage address, recording => recording.delegate (evm.purgeStorage recording.cache address)
  | .purgeSlots address slots, recording => recording.delegate (evm.purgeSlots recording.cache address slots)
  | .readStorageSlot slot, recording => recording.delegate (evm.readStorageSlot recording.cache slot)
  | .readStorageSlots slots, recording => recording.delegate (evm.readStorageSlots recording.cache slots)
  | .callRaw call _, recording => recording.callRaw call
  | .callRawWithCodeOverrides call _ _, recording => recording.callRaw call
  | .callRawWithAccessList call, recording => (recording.callRaw call).map (Except.map (·, ⊥)) id
  | .callRawWithCodeOverridesAndAccessList call _, recording => (recording.callRaw call).map (Except.map (·, ⊥)) id

end RecordingCache

/-! ### Replaying -/

/-- An overlay over a snapshot, with the dependencies that it could not resolve. -/
structure OfflineSnapshotCache (evm : EvmForkCache) where
  snapshot : EvmSnapshot evm.AccountInfo
  missingState : StorageAccessList

def offlineMutationError (operation : String) : CacheError :=
  .backend (operation ++ " is unavailable on an offline quote-readiness snapshot")

namespace OfflineSnapshotCache

def new (snapshot : EvmSnapshot evm.AccountInfo) : OfflineSnapshotCache evm := ⟨snapshot, ⊥⟩

/-- The result of an execution, whose absent dependencies are missing. -/
def resolve {α : Type} (offline : OfflineSnapshotCache evm) (result : Except CacheError α × StorageAccessList) :
    Except CacheError α × OfflineSnapshotCache evm :=
  (result.1, { offline with missingState := offline.missingState ⊔ offline.snapshot.missingReadSet result.2 })

/-- Read slots one by one, up to the first that fails. -/
def readAll (snapshot : EvmSnapshot evm.AccountInfo) : List StateSlot → Except CacheError (List U256) × StorageAccessList
  | [] => (.ok [], ⊥)
  | slot :: rest =>
    match evm.overlayStorage snapshot slot with
    | (.error error, accesses) => (.error error, accesses)
    | (.ok value, accesses) =>
      let (values, more) := readAll snapshot rest
      (values.map (value :: ·), accesses ⊔ more)

def callRaw (offline : OfflineSnapshotCache evm) (call : Call) (codeOverrides : List (Address × Bytes)) :
    Except CacheError CallOutcome × OfflineSnapshotCache evm :=
  offline.resolve (evm.overlayCall offline.snapshot call codeOverrides)

def handle : Interaction.Handler (CacheOp.Answer evm) (OfflineSnapshotCache evm)
  | .storage slot, offline => (offline.snapshot.storage.get slot, offline)
  | .cachedStorage slot, offline => (offline.snapshot.storage.get slot, offline)
  | .applyUpdates _, offline => (evm.noDiff, offline)
  | .verifySlots _, offline => (.error (offlineMutationError "verify_slots"), offline)
  | .purgeStorage _, offline => (evm.noDiff, offline)
  | .purgeSlots _ _, offline => (evm.noDiff, offline)
  | .readStorageSlot slot, offline => offline.resolve (evm.overlayStorage offline.snapshot slot)
  | .readStorageSlots slots, offline => offline.resolve (readAll offline.snapshot slots)
  | .callRaw call _, offline => offline.callRaw call []
  | .callRawWithCodeOverrides call codeOverrides _, offline => offline.callRaw call codeOverrides
  | .callRawWithAccessList call, offline => (offline.callRaw call []).map (Except.map (·, ⊥)) id
  | .callRawWithCodeOverridesAndAccessList call codeOverrides, offline =>
    (offline.callRaw call codeOverrides).map (Except.map (·, ⊥)) id

end OfflineSnapshotCache

/-! ### Requests -/

structure QuoteWarmup where
  pool : PoolKey
  tokenIn : Address
  tokenOut : Address
  amountIn : U256
  deriving DecidableEq

/-- The order in which requests are validated. -/
def QuoteWarmup.rank (request : QuoteWarmup) :
    (Nat ×ₗ Nat ×ₗ List Nat ×ₗ Nat ×ₗ Nat) ×ₗ Nat ×ₗ Nat ×ₗ Nat :=
  toLex (request.pool.rank, toLex (request.tokenIn.toNat, toLex (request.tokenOut.toNat, request.amountIn.toNat)))

structure QuoteWarmupEntry where
  request : QuoteWarmup
  quote : SwapQuote
  accesses : StorageAccessList
  providerReads : StorageAccessList

inductive QuoteWarmupError
  | unknownPool (pool : PoolKey)
  | missingAdapter (protocol : ProtocolId)
  | missingReadSet (pool : PoolKey)
  | simulation (request : QuoteWarmup) (error : SimError)
  | incompleteSnapshot (request : QuoteWarmup) (missing : StorageAccessList)
  | replayMismatch (request : QuoteWarmup) (canonical offline : SwapQuote)
  | readSetLimit (request : QuoteWarmup) (accounts codeHashes slots blockHashes : Nat)
  deriving DecidableEq

/-- The registry, with what its adapters simulate under its `sim_config` and the manifests that it has learned. -/
structure QuoteRegistry (evm : EvmForkCache) extends AdapterRegistry where
  simulateSwap : AmmAdapter → PoolRegistration → Address → Address → U256 → Simulation evm
  quoteReadSets : List (QuoteWarmup × StorageAccessList)
  quoteReadSetLimits : QuoteReadSetLimits
  quoteReadinessRequired : Bool
  requests_nodup : (quoteReadSets.map Prod.fst).Nodup

namespace QuoteRegistry
variable (registry : QuoteRegistry evm)

def quoteReadSet (request : QuoteWarmup) : Option StorageAccessList :=
  (registry.quoteReadSets.find? (·.1 = request)).map Prod.snd

/-- `quote_read_sets.insert`. -/
def insertReadSet (request : QuoteWarmup) (accesses : StorageAccessList) : QuoteRegistry evm :=
  { registry with
    quoteReadSets := (request, accesses) :: registry.quoteReadSets.filter (·.1 ≠ request)
    requests_nodup := by
      refine List.nodup_cons.mpr ⟨fun hmem => ?_, registry.requests_nodup.sublist (List.filter_sublist.map _)⟩
      obtain ⟨entry, hentry, hrequest⟩ := List.mem_map.mp hmem
      exact of_decide_eq_true (List.mem_filter.mp hentry).2 hrequest }

/-- `quote_read_sets.retain`. -/
def retainReadSets (keep : QuoteWarmup × StorageAccessList → Bool) : QuoteRegistry evm :=
  { registry with
    quoteReadSets := registry.quoteReadSets.filter keep
    requests_nodup := registry.requests_nodup.sublist (List.filter_sublist.map _) }

def hasQuoteReadSet (pool : PoolKey) : Bool := registry.quoteReadSets.any (·.1.pool = pool)

/-- The simulation of a request by the adapter of its pool. -/
def resolve (request : QuoteWarmup) : Except QuoteWarmupError (Simulation evm) :=
  match registry.pool request.pool with
  | none => .error (.unknownPool request.pool)
  | some pool =>
    match registry.adapter pool.protocol with
    | none => .error (.missingAdapter pool.protocol)
    | some adapter => .ok (registry.simulateSwap adapter pool request.tokenIn request.tokenOut request.amountIn)

end QuoteRegistry

def ensureWithinLimits (limits : QuoteReadSetLimits) (request : QuoteWarmup) (access : StorageAccessList) :
    Except QuoteWarmupError Unit :=
  if limits.accepts access then .ok ()
  else .error (.readSetLimit request access.accounts.card access.codeHashes.card access.slots.card
    access.blockNumbers.card)

/-- Replay a simulation offline. A replay that misses anything is incomplete, whatever its result. -/
def validateOne (simulation : Simulation evm) (snapshot : EvmSnapshot evm.AccountInfo) (request : QuoteWarmup) :
    Except QuoteWarmupError SwapQuote :=
  let (result, offline) := simulation.run OfflineSnapshotCache.handle (.new snapshot)
  match result with
  | .ok quote =>
    if offline.missingState = ⊥ then .ok quote else .error (.incompleteSnapshot request offline.missingState)
  | .error error =>
    if offline.missingState ≠ ⊥ then .error (.incompleteSnapshot request offline.missingState)
    else .error (.simulation request error)

/-! ### Warming -/

/-- Learn one request: record its simulation, then replay it over the cache that the recording left. -/
def learn (registry : QuoteRegistry evm) (request : QuoteWarmup) :
    Fallible QuoteWarmupError evm.Cache QuoteWarmupEntry := do
  let simulation ← registry.resolve request
  let cache ← get
  let (result, recording) := simulation.run RecordingCache.handle (.new cache)
  set recording.cache
  let quote ← (result.mapError (QuoteWarmupError.simulation request) : Except QuoteWarmupError SwapQuote)
  ensureWithinLimits registry.quoteReadSetLimits request recording.accesses
  let offline ← validateOne simulation (evm.snapshot recording.cache) request
  if offline ≠ quote then throw (.replayMismatch request quote offline)
  return ⟨request, quote, recording.accesses, recording.providerReads⟩

def learnAll (registry : QuoteRegistry evm) : List QuoteWarmup → Fallible QuoteWarmupError evm.Cache (List QuoteWarmupEntry)
  | [] => return []
  | request :: rest => do
    let entry ← learn registry request
    let entries ← learnAll registry rest
    return entry :: entries

/-- Keep what was learned; from then on quotes have to be ready. -/
def install (registry : QuoteRegistry evm) (entries : List QuoteWarmupEntry) : QuoteRegistry evm :=
  let registry := entries.foldl (fun registry entry => registry.insertReadSet entry.request entry.accesses) registry
  if entries.isEmpty then registry else { registry with quoteReadinessRequired := true }

def warmQuoteReadSets (registry : QuoteRegistry evm) (requests : List QuoteWarmup) (cache : evm.Cache) :
    Except QuoteWarmupError (List QuoteWarmupEntry) × QuoteRegistry evm × evm.Cache :=
  match (learnAll registry requests).run.run cache with
  | (.error error, cache) => (.error error, registry, cache)
  | (.ok entries, cache) => (.ok entries, install registry entries, cache)

/-! ### Validation -/

/-- Replay one request; what its snapshot lacks is added to its manifest, within the limits. -/
def validateRequest (snapshot : EvmSnapshot evm.AccountInfo) (request : QuoteWarmup) :
    Fallible QuoteWarmupError (QuoteRegistry evm) Unit := do
  let registry ← get
  let simulation ← registry.resolve request
  match validateOne simulation snapshot request with
  | .ok _ => return ()
  | .error (.incompleteSnapshot failed missing) => do
    let grown := (registry.quoteReadSet request).getD ⊥ ⊔ missing
    ensureWithinLimits registry.quoteReadSetLimits request grown
    set (registry.insertReadSet request grown)
    throw (.incompleteSnapshot failed missing)
  | .error error => throw error

def validateAll (snapshot : EvmSnapshot evm.AccountInfo) :
    List QuoteWarmup → Fallible QuoteWarmupError (QuoteRegistry evm) Unit
  | [] => return ()
  | request :: rest => do
    validateRequest snapshot request
    validateAll snapshot rest

/-- The number of requests that were checked. -/
def validateQuoteReadSets (snapshot : EvmSnapshot evm.AccountInfo) (pools : List PoolKey) :
    Fallible QuoteWarmupError (QuoteRegistry evm) Nat := do
  let registry ← get
  match if registry.quoteReadinessRequired then pools.find? (!registry.hasQuoteReadSet ·) else none with
  | some pool => throw (.missingReadSet pool)
  | none =>
    let requests := sortBy QuoteWarmup.rank ((registry.quoteReadSets.map Prod.fst).filter (·.pool ∈ pools))
    validateAll snapshot requests
    return requests.length

/-! ### Hydration -/

structure QuoteReadSetHydrationReport (Failure : Type) where
  warmups : Nat
  accountsRefreshed : Nat
  slotsRefreshed : Nat
  failures : List Failure
  codeChanges : List (Address × B256 × B256)
  invalidated : List QuoteWarmup
  missingAfter : StorageAccessList

/-- Refresh every dependency; a changed runtime-code hash invalidates the manifests that depend on the old one. -/
def hydrateQuoteReadSets (registry : QuoteRegistry evm) (cache : evm.Cache) :
    QuoteReadSetHydrationReport evm.Failure × QuoteRegistry evm × evm.Cache :=
  let required := registry.quoteReadSets.foldl (fun required entry => required ⊔ entry.2) ⊥
  let (hydrated, cache) := evm.hydrateReadSet cache required
  let invalidHashes := (hydrated.codeChanges.map (·.2.1)).toFinset
  let retained := fun entry : QuoteWarmup × StorageAccessList => decide (Disjoint entry.2.codeHashes invalidHashes)
  (⟨registry.quoteReadSets.length, hydrated.accountsRefreshed, hydrated.slotsRefreshed, hydrated.failures,
      hydrated.codeChanges, (registry.quoteReadSets.filter (!retained ·)).map Prod.fst, hydrated.missingAfter⟩,
    registry.retainReadSets retained, cache)

end AmmState.Quotes
