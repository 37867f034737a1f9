import AmmState.Lib.SortedMap
import AmmState.V3.Types
import Mathlib.Data.List.MinMax
import Mathlib.Data.Prod.Lex

/-! Fee evidence for Slipstream swaps (`types.rs`) and the bounded store that holds it (`reactive.rs`): at most so many
    records for each chain, of which the oldest gives way. -/

namespace AmmState.Slipstream
open V3 Checked

/-! ### Validation -/

inductive SlipstreamFeeEvidenceError
  | runtimeIdentity | feeRange | incompleteLineage | unstakedFeeProofMismatch
  deriving DecidableEq

/-- The deployment that a runtime family stands for. -/
structure ReviewedRuntime where
  chainId : Nat
  pool : Address
  factory : Address
  proxyRuntimeCodeHash : B256
  implementation : Address
  implementationRuntimeCodeHash : B256
  deriving DecidableEq

def reviewedRuntime : SlipstreamRuntimeFamily → ReviewedRuntime
  | .aerodromeBaseBifi => ⟨8453, 0xb378137c90444bbcecd44a1f766851fbf53d2a9e, 0x5e7bb104d84c7cb9b682aac2f3d509f5f406809a,
      0xacd6710f7037ad095b1e4d5f8ee5b2681069cb4dd316e77e4e0cb8f85716a2a1, 0xec8e5342b19977b4ef8892e02d8daecfa1315831,
      0x772fb5c610b40a122036f544e5b9b5bce6becb19db9524331289d1aaed2d5888⟩
  | .velodromeOptimismBifi => ⟨10, 0x173cdc71e29d5cffa6d090ad99f555a24b8831f9, 0xcc0bddb707055e04e497ab22a59c2af4391cd12f,
      0x063ca35333cb7f2463f087d40ff9485475550abf4858a2f63c387d4d102b0f4f, 0xc28ad28853a547556780bebf7847628501a3bcbb,
      0x36c3da904ca0b58544254cd0d978fe4801c32dc1f9e3b3e644487ef541299794⟩

/-- The event that evidence is for. -/
def snapshotIdentity (evidence : SlipstreamSwapFeeEvidence) : SlipstreamSnapshotIdentity where
  chainId := evidence.chainId
  blockNumber := evidence.blockNumber
  blockHash := evidence.blockHash
  parentHash := evidence.parentHash
  blockTimestamp := evidence.blockTimestamp
  transactionHash := evidence.transactionHash
  transactionIndex := evidence.transactionIndex
  logIndex := evidence.logIndex

def runtimeOf (evidence : SlipstreamSwapFeeEvidence) : ReviewedRuntime :=
  ⟨evidence.chainId, evidence.pool, evidence.factory, evidence.proxyRuntimeCodeHash, evidence.implementation,
    evidence.implementationRuntimeCodeHash⟩

/-- `SlipstreamSwapFeeEvidence::validate`. -/
def validate (evidence : SlipstreamSwapFeeEvidence) : Except SlipstreamFeeEvidenceError Unit := do
  ensure (runtimeOf evidence = reviewedRuntime evidence.runtimeFamily) .runtimeIdentity
  ensure (evidence.effectiveSwapFee ≤ 100000 ∧ evidence.effectiveUnstakedFee ≤ 1000000) .feeRange
  ensure (evidence.unstakedFeeProof.runtimeFamily = evidence.runtimeFamily) .runtimeIdentity
  match evidence.unstakedFeeProof.kind with
  | .reviewedRuntimeEvaluation => do
    ensure (evidence.unstakedFeeProof.snapshotIdentity = some (snapshotIdentity evidence)) .runtimeIdentity
    ensure (evidence.unstakedFeeProof.effectiveFee = some evidence.effectiveUnstakedFee) .unstakedFeeProofMismatch
  | .unusedAllLiquidityStaked =>
    ensure (evidence.unstakedFeeProof.snapshotIdentity = some (snapshotIdentity evidence) ∧
      evidence.effectiveUnstakedFee = 0) .unstakedFeeProofMismatch
  ensure (evidence.blockNumber ≠ 0 ∧ evidence.blockHash ≠ 0 ∧ evidence.parentHash ≠ 0 ∧ evidence.blockTimestamp ≠ 0 ∧
    evidence.transactionHash ≠ 0) .incompleteLineage

/-! ### Keys -/

structure SlipstreamFeeEvidenceKey where
  chainId : Nat
  pool : Address
  blockNumber : Nat
  blockHash : B256
  parentHash : B256
  transactionHash : B256
  transactionIndex : Nat
  logIndex : Nat

namespace SlipstreamFeeEvidenceKey

/-- Keys are ordered field by field. -/
def rank (key : SlipstreamFeeEvidenceKey) : Nat ×ₗ Nat ×ₗ Nat ×ₗ Nat ×ₗ Nat ×ₗ Nat ×ₗ Nat ×ₗ Nat :=
  toLex (key.chainId, toLex (key.pool.toNat, toLex (key.blockNumber, toLex (key.blockHash.toNat,
    toLex (key.parentHash.toNat, toLex (key.transactionHash.toNat, toLex (key.transactionIndex, key.logIndex)))))))

theorem rank_injective : Function.Injective rank := by
  rintro ⟨_, _, _, _, _, _, _, _⟩ ⟨_, _, _, _, _, _, _, _⟩ h
  simp only [rank, EmbeddingLike.apply_eq_iff_eq, Prod.mk.injEq, BitVec.toNat_inj] at h
  simp [h]

instance : LinearOrder SlipstreamFeeEvidenceKey := LinearOrder.lift' rank rank_injective

def fromEvidence (evidence : SlipstreamSwapFeeEvidence) : SlipstreamFeeEvidenceKey where
  chainId := evidence.chainId
  pool := evidence.pool
  blockNumber := evidence.blockNumber
  blockHash := evidence.blockHash
  parentHash := evidence.parentHash
  transactionHash := evidence.transactionHash
  transactionIndex := evidence.transactionIndex
  logIndex := evidence.logIndex

/-- The age of evidence: its block, transaction and log; equal ones by pool and block hash. -/
def order (key : SlipstreamFeeEvidenceKey) : Nat ×ₗ Nat ×ₗ Nat ×ₗ Nat ×ₗ Nat :=
  toLex (key.blockNumber, toLex (key.transactionIndex, toLex (key.logIndex, toLex (key.pool.toNat, key.blockHash.toNat))))

end SlipstreamFeeEvidenceKey

/-! ### The store -/

def MAX_SLIPSTREAM_FEE_EVIDENCE_PER_CHAIN : Nat := 2048

inductive SlipstreamFeeEvidenceInsertOutcome
  | inserted
  | replaced (previous : SlipstreamSwapFeeEvidence)
  | insertedAndEvicted (evicted : SlipstreamSwapFeeEvidence)
  | rejectedInvalid (error : SlipstreamFeeEvidenceError)
  | rejectedStaleAtCapacity (evidence : SlipstreamSwapFeeEvidence)
  deriving DecidableEq

abbrev FeeEvidenceStore := SortedMap SlipstreamFeeEvidenceKey SlipstreamSwapFeeEvidence

namespace FeeEvidenceStore

/-- The keys of one chain, in key order. -/
def chainKeys (store : FeeEvidenceStore) (chainId : Nat) : List SlipstreamFeeEvidenceKey :=
  store.keys.filter (·.chainId = chainId)

/-- `min_by_key`: of several oldest keys, the first. -/
def oldest (keys : List SlipstreamFeeEvidenceKey) (h : MAX_SLIPSTREAM_FEE_EVIDENCE_PER_CHAIN ≤ keys.length) :
    { key // key ∈ keys.argmin (·.order) } :=
  have hsome : (keys.argmin (·.order)).isSome := by
    rw [Option.isSome_iff_ne_none, Ne, List.argmin_eq_none]
    rintro rfl
    exact absurd h (by decide)
  ⟨(keys.argmin (·.order)).get hsome, Option.get_mem hsome⟩

/-- The evidence under a key of one chain. -/
def evidenceAt (store : FeeEvidenceStore) {chainId : Nat} (key : SlipstreamFeeEvidenceKey)
    (h : key ∈ store.chainKeys chainId) : SlipstreamSwapFeeEvidence :=
  (store.get key).get (SortedMap.mem_keys.mp (List.mem_filter.mp h).1)

def injectSlipstreamFeeEvidence (store : FeeEvidenceStore) (evidence : SlipstreamSwapFeeEvidence) :
    SlipstreamFeeEvidenceInsertOutcome × FeeEvidenceStore :=
  match validate evidence with
  | .error error => (.rejectedInvalid error, store)
  | .ok () =>
    let key := SlipstreamFeeEvidenceKey.fromEvidence evidence
    match store.get key with
    | some previous => (.replaced previous, store.insert key evidence)
    | none =>
      if h : (store.chainKeys evidence.chainId).length < MAX_SLIPSTREAM_FEE_EVIDENCE_PER_CHAIN then
        (.inserted, store.insert key evidence)
      else
        let oldest := oldest (store.chainKeys evidence.chainId) (Nat.le_of_not_lt h)
        if key.order ≤ oldest.val.order then (.rejectedStaleAtCapacity evidence, store)
        else (.insertedAndEvicted (evidenceAt store oldest.val (List.argmin_mem oldest.property)),
          (store.erase oldest).insert key evidence)

def removeSlipstreamFeeEvidence (store : FeeEvidenceStore) (evidence : SlipstreamSwapFeeEvidence) :
    Option SlipstreamSwapFeeEvidence × FeeEvidenceStore :=
  let key := SlipstreamFeeEvidenceKey.fromEvidence evidence
  (store.get key, store.erase key)

def pruneSlipstreamFeeEvidence (store : FeeEvidenceStore) (chainId minimumBlock : Nat) : Nat × FeeEvidenceStore :=
  let retained := store.retain fun key _ => decide (key.chainId ≠ chainId ∨ minimumBlock ≤ key.blockNumber)
  (store.entries.length - retained.entries.length, retained)

def retainSlipstreamFeeEvidenceForBlock (store : FeeEvidenceStore) (chainId blockNumber : Nat) (canonicalHash : B256) :
    Nat × FeeEvidenceStore :=
  let retained := store.retain fun key _ =>
    decide (key.chainId ≠ chainId ∨ key.blockNumber ≠ blockNumber ∨ key.blockHash = canonicalHash)
  (store.entries.length - retained.entries.length, retained)

end FeeEvidenceStore
end AmmState.Slipstream
