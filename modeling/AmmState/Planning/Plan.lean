import AmmState.Lib.SortedMap
import AmmState.Registration
import AmmState.Runtime.Repairs

/-! What an adapter's cold-start planner exchanges with the driver that executes its plans (`cold_start.rs`). The results of
    discover calls are left out: no planner here asks for them, and the resumable job refuses them. -/

namespace AmmState.Planning
open V3 (StateView)
open Repairs (StorageSlot ColdStartPolicy RepairAction DeferredWork)

/-! ### Storage cells -/

/-- A storage cell, ordered by address and slot. -/
structure Cell where
  address : Address
  slot : U256

def Cell.rank (cell : Cell) : Nat ×ₗ Nat := toLex (cell.address.toNat, cell.slot.toNat)

theorem Cell.rank_injective : Function.Injective Cell.rank := by
  intro a b h
  cases a
  cases b
  simpa [Cell.rank, BitVec.toNat_inj] using h

instance : LinearOrder Cell := LinearOrder.lift' Cell.rank Cell.rank_injective

/-! ### Rounds -/

/-- The classified result of one slot fetch. -/
inductive SlotFetch
  | value (value : U256)
  | zero
  | fetchFailed (reason : String)
  | notAttempted
  deriving DecidableEq

structure SlotOutcome where
  address : Address
  slot : U256
  fetch : SlotFetch
  deriving DecidableEq

structure SlotChange where
  address : Address
  slot : U256
  old : U256
  new : U256
  deriving DecidableEq

structure ColdStartCall where
  sender : Address
  target : Address
  calldata : Bytes
  restrictTo : Option (List Address)
  deriving DecidableEq

structure ColdStartPlan where
  verify : List StorageSlot
  probe : List StorageSlot
  probeRoots : List Address
  accounts : List Address
  discover : List ColdStartCall
  deriving DecidableEq

/-- A plan that only verifies slots. -/
def verifyPlan (verify : List StorageSlot) : ColdStartPlan := ⟨verify, [], [], [], []⟩

structure ColdStartResults where
  verified : List SlotChange
  fetched : List SlotOutcome
  probed : List SlotOutcome

inductive ColdStartStep
  | done
  | continues (plan : ColdStartPlan)

structure ColdStartRunReport where
  rounds : Nat
  verifiedSlots : Nat
  changedSlots : Nat
  discoveredAccounts : Nat
  discoveredSlots : Nat
  failedSlots : Nat
  deriving DecidableEq

def ColdStartRunReport.empty : ColdStartRunReport := ⟨0, 0, 0, 0, 0, 0⟩

/-! ### Outcomes -/

inductive UnsupportedReason
  | protocol (protocol : ProtocolId)
  | missingMetadata (field : String)
  | adapterDefinedRouting
  | custom (reason : String)
  deriving DecidableEq

structure ColdStartReport where
  pool : PoolKey
  policy : ColdStartPolicy
  status : PoolStatus
  verifiedSlots : List StorageSlot
  changedSlots : List SlotChange
  deferred : List DeferredWork
  deriving DecidableEq

def ColdStartReport.new (pool : PoolKey) (policy : ColdStartPolicy) : ColdStartReport :=
  ⟨pool, policy, .pending, [], [], []⟩

inductive ColdStartOutcome
  | ready (report : ColdStartReport)
  | readyWithDeferred (report : ColdStartReport) (deferred : List DeferredWork)
  | needsRepair (report : ColdStartReport) (repair : RepairAction)
  | unsupported (reason : UnsupportedReason)
  deriving DecidableEq

/-! ### Planners -/

/-- An adapter's planner: how it is built for a pool, and what each call makes of its state. -/
structure AdapterColdStartPlanner where
  State : Type
  coldStartPlanner : PoolRegistration → ColdStartPolicy → Except UnsupportedReason State
  initialPlan : State → StateView → State × ColdStartPlan
  onResults : State → ColdStartResults → StateView → State × ColdStartStep
  finish : State → PoolRegistration → ColdStartRunReport → PoolRegistration × ColdStartOutcome

end AmmState.Planning
