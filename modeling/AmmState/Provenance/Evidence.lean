import AmmState.Types
import Mathlib.Data.Finset.Basic
import Mathlib.Data.Finset.Lattice.Basic
import Mathlib.Data.Prod.Lex

/-! Registration evidence (`runtime.rs`): the items that support the registration of a pool, where each was seen, and what a
    reorg that drops blocks asks of a set of them. -/

namespace AmmState

/-- The discovery owners of a set, in their derived order. -/
def DiscoveryOwnerId.rank (owner : DiscoveryOwnerId) : List Nat ×ₗ Nat :=
  toLex (owner.key.key.toList.map Char.toNat, owner.generation)

theorem DiscoveryOwnerId.rank_injective : Function.Injective DiscoveryOwnerId.rank := by
  rintro ⟨⟨a⟩, m⟩ ⟨⟨b⟩, n⟩ h
  simp only [rank, toLex_inj, Prod.mk.injEq] at h
  obtain ⟨hname, rfl⟩ := h
  have hchars : a.toList = b.toList := List.map_injective_iff.mpr (fun c d hcd => Char.ext (UInt32.toNat_inj.mp hcd)) hname
  rw [String.toList_inj.mp hchars]

namespace Provenance

/-! ### Evidence -/

inductive QueryEvidencePolicy
  | finalized | revalidateOnReorg
  deriving DecidableEq

/-- One independent piece of evidence for a pool registration. -/
inductive RegistrationProvenance
  | stable (source : String)
  | stateQuery (owner : DiscoveryOwnerId) (chainId blockNumber : Nat) (blockHash : B256) (policy : QueryEvidencePolicy)
  | factoryLog (owner : DiscoveryOwnerId) (factory : Address) (chainId blockNumber : Nat) (blockHash transactionHash : B256)
      (logIndex : Nat)
  deriving DecidableEq

namespace RegistrationProvenance

/-- The discovery source of an item. -/
def source : RegistrationProvenance → Option DiscoveryOwnerId
  | .stable _ => none
  | .stateQuery owner _ _ _ _ | .factoryLog owner _ _ _ _ _ _ => some owner

/-- The block that an item was seen on. -/
def block : RegistrationProvenance → Option B256
  | .stable _ => none
  | .stateQuery _ _ _ hash _ | .factoryLog _ _ _ _ hash _ _ => some hash

/-- The source of a state query. -/
def querySource : RegistrationProvenance → Option DiscoveryOwnerId
  | .stateQuery owner _ _ _ _ => some owner
  | _ => none

def isQuery (item : RegistrationProvenance) : Bool := item.querySource.isSome

/-- The item was not seen on one of the blocks. -/
def offBlocks (dropped : List B256) (item : RegistrationProvenance) : Bool := item.block.all (· ∉ dropped)

/-- An item that by itself keeps a registration across a reorg. -/
def keeps (dropped : List B256) : RegistrationProvenance → Bool
  | .stable _ | .stateQuery _ _ _ _ .finalized => true
  | .stateQuery _ _ _ hash .revalidateOnReorg | .factoryLog _ _ _ _ hash _ _ => hash ∉ dropped

end RegistrationProvenance

inductive RegistrationReorgAction
  | keep | revalidate | remove
  deriving DecidableEq

/-- All known evidence for one pool registration, of which there is some. -/
structure RegistrationEvidenceSet where
  evidence : Finset RegistrationProvenance
  nonempty : evidence.Nonempty

namespace RegistrationEvidenceSet

def new (primary : RegistrationProvenance) (additional : Finset RegistrationProvenance) : RegistrationEvidenceSet :=
  ⟨insert primary additional, Finset.insert_nonempty _ _⟩

def one (item : RegistrationProvenance) : RegistrationEvidenceSet := new item ∅

/-- The evidence of both sets. -/
def merge (set other : RegistrationEvidenceSet) : RegistrationEvidenceSet :=
  ⟨set.evidence ∪ other.evidence, set.nonempty.mono Finset.subset_union_left⟩

/-- The evidence that satisfies a condition, if some does. -/
def retain (set : RegistrationEvidenceSet) (p : RegistrationProvenance → Bool) : Option RegistrationEvidenceSet :=
  if h : (set.evidence.filter (p · = true)).Nonempty then some ⟨_, h⟩ else none

def reorgAction (set : RegistrationEvidenceSet) (dropped : List B256) : RegistrationReorgAction :=
  if ∃ item ∈ set.evidence, item.keeps dropped = true then .keep
  else if ∃ item ∈ set.evidence, item.isQuery = true then .revalidate
  else .remove

/-- `evidence_contains_owner`. -/
def containsOwner (set : RegistrationEvidenceSet) (owner : DiscoveryOwnerId) : Bool :=
  decide (∃ item ∈ set.evidence, item.source = some owner)

/-- `evidence_contains_state_query_owner`. -/
def containsStateQueryOwner (set : RegistrationEvidenceSet) (owner : DiscoveryOwnerId) : Bool :=
  decide (∃ item ∈ set.evidence, item.querySource = some owner)

/-- `evidence_without_dropped_hashes`. -/
def withoutDroppedHashes (set : RegistrationEvidenceSet) (dropped : List B256) : Option RegistrationEvidenceSet :=
  set.retain (·.offBlocks dropped)

/-- `evidence_without_owner`. -/
def withoutOwner (set : RegistrationEvidenceSet) (owner : DiscoveryOwnerId) : Option RegistrationEvidenceSet :=
  set.retain (·.source ≠ some owner)

end RegistrationEvidenceSet
end Provenance
end AmmState
