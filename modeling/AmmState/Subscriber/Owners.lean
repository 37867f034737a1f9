import AmmState.Lib.Map
import AmmState.Reactive
import Mathlib.Data.Finmap

/-! Owner transactions of the subscriber driver (`subscriber_driver.rs`). A lifecycle change stages, removes or replaces
    owner epochs of the event subscriber while canonical delivery is paused, and is then committed or aborted. -/

namespace AmmState.Subscriber

def statePointBlock (point : AmmStatePoint) : BlockRef := ⟨point.blockNumber, point.blockHash, none, none⟩

/-! ### The event subscriber -/

inductive SubscriberOwnerState
  | staged | active | removing
  deriving DecidableEq

/-- The event subscriber as far as the driver uses it. It is a package of its own: its state, its epochs and its errors
    are opaque, and every operation is a parameter. -/
structure SubscriberLibrary where
  State : Type
  Interest : Type
  Epoch : Type
  OwnerError : Type
  SubscriberError : Type
  [decidableEpoch : DecidableEq Epoch]
  /-- The owner that an epoch belongs to. -/
  owner : Epoch → HandlerId
  /-- The epochs that the subscriber holds, each with its state and its interests. -/
  entries : State → Map Epoch (SubscriberOwnerState × List Interest)
  stageInterestOwner : State → HandlerId → List Interest → BlockRef → State × Except OwnerError Epoch
  stageInterestOwnerReplacement : State → HandlerId → List Interest → BlockRef → State × Except OwnerError Epoch
  reconcileInterestOwners : State → List Epoch → BlockRef → State × Except SubscriberError Unit
  activateInterestOwner : State → Epoch → State × Bool
  prepareInterestOwnerRemoval : State → Epoch → State × Bool
  finalizeInterestOwnerRemoval : State → Epoch → State × Bool
  commitInterestOwnerReplacement : State → Epoch → Epoch → State × Bool
  abortInterestOwner : State → Epoch → State × Bool

attribute [instance] SubscriberLibrary.decidableEpoch

namespace SubscriberLibrary
variable (lib : SubscriberLibrary)

def interestOwnerState (s : lib.State) (epoch : lib.Epoch) : Option SubscriberOwnerState :=
  ((lib.entries s).get epoch).map Prod.fst

/-- Staging answers with a new epoch of the owner, staged with the given interests, or changes nothing. -/
def Stages (stage : lib.State → HandlerId → List lib.Interest → BlockRef → lib.State × Except lib.OwnerError lib.Epoch) :
    Prop :=
  ∀ s owner interests block,
    match stage s owner interests block with
    | (s', .ok epoch) => lib.owner epoch = owner ∧ (lib.entries s).get epoch = none ∧
        lib.entries s' = (lib.entries s).insert epoch (.staged, interests)
    | (s', .error _) => lib.entries s' = lib.entries s

/-- An operation on one epoch succeeds in the states that `next` maps, leaving the epoch in the new state or, for `none`,
    dropping it. In every other state it fails and changes nothing. -/
def Moves (operation : lib.State → lib.Epoch → lib.State × Bool)
    (next : SubscriberOwnerState → Option (Option SubscriberOwnerState)) : Prop :=
  ∀ s epoch,
    match (lib.entries s).get epoch with
    | none => (operation s epoch).2 = false ∧ lib.entries (operation s epoch).1 = lib.entries s
    | some (state, interests) =>
      match next state with
      | none => (operation s epoch).2 = false ∧ lib.entries (operation s epoch).1 = lib.entries s
      | some none => (operation s epoch).2 = true ∧ lib.entries (operation s epoch).1 = (lib.entries s).remove epoch
      | some (some state') => (operation s epoch).2 = true ∧
          lib.entries (operation s epoch).1 = (lib.entries s).insert epoch (state', interests)

def activated : SubscriberOwnerState → Option (Option SubscriberOwnerState)
  | .staged => some (some .active)
  | .active | .removing => none

def prepared : SubscriberOwnerState → Option (Option SubscriberOwnerState)
  | .active => some (some .removing)
  | .staged | .removing => none

def finalized : SubscriberOwnerState → Option (Option SubscriberOwnerState)
  | .removing => some none
  | .staged | .active => none

/-- An abort drops a staged epoch and returns a removal to service. -/
def aborted : SubscriberOwnerState → Option (Option SubscriberOwnerState)
  | .staged => some none
  | .removing => some (some .active)
  | .active => none

/-- What the driver relies on: an epoch is staged, activated, prepared for removal and removed, or replaced by a staged
    one, and an operation fails only on an epoch that is not in the state it requires. Staging and reconciliation may fail
    at any time, and staging refuses an owner that is registered already. -/
structure Lawful : Prop where
  stage : lib.Stages lib.stageInterestOwner
  registered : ∀ s owner interests block epoch, lib.owner epoch = owner → (lib.entries s).get epoch ≠ none →
    ∃ error, (lib.stageInterestOwner s owner interests block).2 = .error error
  stageReplacement : lib.Stages lib.stageInterestOwnerReplacement
  reconcile : ∀ s epochs block, lib.entries (lib.reconcileInterestOwners s epochs block).1 = lib.entries s
  activate : lib.Moves lib.activateInterestOwner activated
  prepare : lib.Moves lib.prepareInterestOwnerRemoval prepared
  finalize : lib.Moves lib.finalizeInterestOwnerRemoval finalized
  abort : lib.Moves lib.abortInterestOwner aborted
  commitReplacement : ∀ s active replacement interests,
    lib.interestOwnerState s active = some .active →
    (lib.entries s).get replacement = some (.staged, interests) →
      (lib.commitInterestOwnerReplacement s active replacement).2 = true ∧
      lib.entries (lib.commitInterestOwnerReplacement s active replacement).1 =
        ((lib.entries s).remove active).insert replacement (.active, interests)
  refuseReplacement : ∀ s active replacement,
    lib.interestOwnerState s active ≠ some .active ∨ lib.interestOwnerState s replacement ≠ some .staged →
      (lib.commitInterestOwnerReplacement s active replacement).2 = false ∧
      lib.entries (lib.commitInterestOwnerReplacement s active replacement).1 = lib.entries s

end SubscriberLibrary

/-! ### The driver -/

inductive AmmSubscriberDriverState
  | paused
  | running (interestRevision : Nat) (point : AmmStatePoint)
  deriving DecidableEq

inductive AmmSubscriberDriverError (lib : SubscriberLibrary)
  | subscriber (error : lib.SubscriberError)
  | owner (error : lib.OwnerError)
  | staleTransaction
  | transactionInProgress
  | ownerState

structure AmmSubscriberOwnerPlan (lib : SubscriberLibrary) where
  owner : HandlerId
  interests : List lib.Interest

inductive PendingSubscriberTransaction (lib : SubscriberLibrary)
  | add (id : Nat) (epochs : List lib.Epoch)
  | remove (id : Nat) (epochs : List lib.Epoch)
  | replace (id : Nat) (active replacement : lib.Epoch)

def PendingSubscriberTransaction.id {lib : SubscriberLibrary} : PendingSubscriberTransaction lib → Nat
  | .add id _ | .remove id _ | .replace id _ _ => id

/-- The epochs that an abort gives back. -/
def PendingSubscriberTransaction.abortEpochs {lib : SubscriberLibrary} : PendingSubscriberTransaction lib → List lib.Epoch
  | .add _ epochs | .remove _ epochs => epochs
  | .replace _ _ replacement => [replacement]

abbrev Owners (lib : SubscriberLibrary) := Finmap fun _ : HandlerId => lib.Epoch

/-- The driver as far as owner transactions read and write it. -/
structure OwnerDriver (lib : SubscriberLibrary) where
  subscriber : lib.State
  state : AmmSubscriberDriverState
  paused : Bool
  interestRevision : Nat
  owners : Owners lib
  pending : Option (PendingSubscriberTransaction lib)
  nextTransaction : Nat

namespace OwnerDriver
variable {lib : SubscriberLibrary}

/-- A driver before adoption. -/
def spawn (subscriber : lib.State) : OwnerDriver lib where
  subscriber := subscriber
  state := .paused
  paused := true
  interestRevision := 0
  owners := ∅
  pending := none
  nextTransaction := 0

def publishRunning (d : OwnerDriver lib) (point : AmmStatePoint) : OwnerDriver lib :=
  { d with state := .running d.interestRevision point }

def pause (d : OwnerDriver lib) : OwnerDriver lib := { d with paused := true, state := .paused }

def resume (d : OwnerDriver lib) (point : AmmStatePoint) : OwnerDriver lib :=
  { d with paused := false }.publishRunning point

def allStates (s : lib.State) (epochs : List lib.Epoch) (state : SubscriberOwnerState) : Bool :=
  epochs.all fun epoch => decide (lib.interestOwnerState s epoch = some state)

/-! ### Staging -/

def abortStaged (s : lib.State) (epochs : List lib.Epoch) : lib.State :=
  epochs.foldl (fun s epoch => (lib.abortInterestOwner s epoch).1) s

/-- Stage the plans one after the other; a failure aborts those already staged. -/
def stageAll (block : BlockRef) :
    List (AmmSubscriberOwnerPlan lib) → List lib.Epoch → lib.State → lib.State × Except lib.OwnerError (List lib.Epoch)
  | [], epochs, s => (s, .ok epochs)
  | plan :: plans, epochs, s =>
    match lib.stageInterestOwner s plan.owner plan.interests block with
    | (s, .ok epoch) => stageAll block plans (epochs ++ [epoch]) s
    | (s, .error error) => (abortStaged s epochs, .error error)

def stageAndReconcile (s : lib.State) (plans : List (AmmSubscriberOwnerPlan lib)) (point : AmmStatePoint) :
    lib.State × Except (AmmSubscriberDriverError lib) (List lib.Epoch) :=
  match stageAll (statePointBlock point) plans [] s with
  | (s, .error error) => (s, .error (.owner error))
  | (s, .ok epochs) =>
    match lib.reconcileInterestOwners s epochs (statePointBlock point) with
    | (s, .ok _) => (s, .ok epochs)
    | (s, .error error) => (abortStaged s epochs, .error (.subscriber error))

/-- Activate the epochs in order, naming each under its owner; the loop stops at the first that cannot be activated. -/
def activateOwners : List (HandlerId × lib.Epoch) → OwnerDriver lib → OwnerDriver lib × Bool
  | [], d => (d, true)
  | (owner, epoch) :: rest, d =>
    match lib.activateInterestOwner d.subscriber epoch with
    | (s, true) => activateOwners rest { d with subscriber := s, owners := d.owners.insert owner epoch }
    | (s, false) => ({ d with subscriber := s }, false)

/-- Finalize the removals in order and drop their names; the loop stops at the first that cannot be finalized. -/
def finalizeOwners : List lib.Epoch → OwnerDriver lib → OwnerDriver lib × Bool
  | [], d => (d, true)
  | epoch :: rest, d =>
    match lib.finalizeInterestOwnerRemoval d.subscriber epoch with
    | (s, true) => finalizeOwners rest { d with subscriber := s, owners := d.owners.erase (lib.owner epoch) }
    | (s, false) => ({ d with subscriber := s }, false)

def prepareOwners : List lib.Epoch → lib.State → lib.State × Bool
  | [], s => (s, true)
  | epoch :: rest, s =>
    match lib.prepareInterestOwnerRemoval s epoch with
    | (s, true) => prepareOwners rest s
    | (s, false) => (s, false)

/-! ### Commands -/

def adoptExisting (d : OwnerDriver lib) (plans : List (AmmSubscriberOwnerPlan lib)) (point : AmmStatePoint)
    (interestRevision : Nat) : OwnerDriver lib × Except (AmmSubscriberDriverError lib) Unit :=
  if d.pending.isSome ∨ d.owners ≠ ∅ then (d, .error .transactionInProgress) else
  match stageAndReconcile d.subscriber plans point with
  | (s, .error error) => ({ d with subscriber := s }, .error error)
  | (s, .ok epochs) =>
    if !allStates s epochs .staged then ({ d with subscriber := abortStaged s epochs }, .error .ownerState) else
    match activateOwners ((plans.map (·.owner)).zip epochs) { d with subscriber := s } with
    | (d, false) => ({ d with subscriber := abortStaged d.subscriber epochs }, .error .ownerState)
    | (d, true) => ({ d with interestRevision := interestRevision }.resume point, .ok ())

def allocateTransaction (d : OwnerDriver lib) : OwnerDriver lib × Except (AmmSubscriberDriverError lib) Nat :=
  if d.nextTransaction + 1 < 2 ^ 64
  then ({ d with nextTransaction := d.nextTransaction + 1 }, .ok (d.nextTransaction + 1))
  else (d, .error .staleTransaction)

/-- The common end of a begin: a number, and the transaction under it. -/
def openTransaction (d : OwnerDriver lib) (pending : Nat → PendingSubscriberTransaction lib) :
    OwnerDriver lib × Except (AmmSubscriberDriverError lib) Nat :=
  match d.allocateTransaction with
  | (d, .ok id) => ({ d with pending := some (pending id) }, .ok id)
  | (d, .error error) => (d, .error error)

def beginAdd (d : OwnerDriver lib) (plans : List (AmmSubscriberOwnerPlan lib)) (point latest : AmmStatePoint) :
    OwnerDriver lib × Except (AmmSubscriberDriverError lib) Nat :=
  if d.pending.isSome then (d, .error .transactionInProgress) else
  match stageAndReconcile d.subscriber plans point with
  | (s, .error error) => ({ d.pause with subscriber := s }.resume latest, .error error)
  | (s, .ok epochs) => { d.pause with subscriber := s }.openTransaction fun id => .add id epochs

def beginRemove (d : OwnerDriver lib) (owners : List HandlerId) (latest : AmmStatePoint) :
    OwnerDriver lib × Except (AmmSubscriberDriverError lib) Nat :=
  if d.pending.isSome then (d, .error .transactionInProgress) else
  match owners.mapM d.owners.lookup with
  | none => (d, .error .ownerState)
  | some epochs =>
    if !allStates d.subscriber epochs .active then (d, .error .ownerState) else
    match prepareOwners epochs d.subscriber with
    | (s, false) => ({ d.pause with subscriber := abortStaged s epochs }.resume latest, .error .ownerState)
    | (s, true) => { d.pause with subscriber := s }.openTransaction fun id => .remove id epochs

def beginReplace (d : OwnerDriver lib) (plan : AmmSubscriberOwnerPlan lib) (point latest : AmmStatePoint) :
    OwnerDriver lib × Except (AmmSubscriberDriverError lib) Nat :=
  if d.pending.isSome then (d, .error .transactionInProgress) else
  match d.owners.lookup plan.owner with
  | none => (d, .error .ownerState)
  | some active =>
    match lib.stageInterestOwnerReplacement d.subscriber plan.owner plan.interests (statePointBlock point) with
    | (s, .error error) => ({ d.pause with subscriber := s }.resume latest, .error (.owner error))
    | (s, .ok replacement) =>
      match lib.reconcileInterestOwners s [replacement] (statePointBlock point) with
      | (s, .error error) =>
        ({ d.pause with subscriber := (lib.abortInterestOwner s replacement).1 }.resume latest,
          .error (.subscriber error))
      | (s, .ok _) => { d.pause with subscriber := s }.openTransaction fun id => .replace id active replacement

/-- The common end of a commit. -/
def settle (d : OwnerDriver lib) (interestRevision : Nat) (point : AmmStatePoint) :
    OwnerDriver lib × Except (AmmSubscriberDriverError lib) Unit :=
  ({ d with interestRevision := interestRevision }.resume point, .ok ())

def commit (d : OwnerDriver lib) (transaction interestRevision : Nat) (point : AmmStatePoint) :
    OwnerDriver lib × Except (AmmSubscriberDriverError lib) Unit :=
  match d.pending with
  | none => (d, .error .staleTransaction)
  | some pending =>
    if pending.id ≠ transaction then (d, .error .staleTransaction) else
    let taken := { d with pending := none }
    match pending with
    | .add _ epochs =>
      if !allStates d.subscriber epochs .staged
      then ({ d with pending := some (.add transaction epochs) }, .error .ownerState) else
      match activateOwners (epochs.map fun epoch => (lib.owner epoch, epoch)) taken with
      | (d, false) => (d, .error .ownerState)
      | (d, true) => d.settle interestRevision point
    | .remove _ epochs =>
      if !allStates d.subscriber epochs .removing
      then ({ d with pending := some (.remove transaction epochs) }, .error .ownerState) else
      match finalizeOwners epochs taken with
      | (d, false) => (d, .error .ownerState)
      | (d, true) => d.settle interestRevision point
    | .replace _ active replacement =>
      match lib.commitInterestOwnerReplacement d.subscriber active replacement with
      | (s, false) => ({ d with subscriber := s, pending := some (.replace transaction active replacement) },
          .error .ownerState)
      | (s, true) =>
        { taken with subscriber := s, owners := d.owners.insert (lib.owner replacement) replacement }.settle
          interestRevision point

def abort (d : OwnerDriver lib) (transaction : Nat) (latest : AmmStatePoint) :
    OwnerDriver lib × Except (AmmSubscriberDriverError lib) Unit :=
  match d.pending with
  | none => (d, .error .staleTransaction)
  | some pending =>
    if pending.id ≠ transaction then (d, .error .staleTransaction) else
    ({ d with pending := none, subscriber := abortStaged d.subscriber pending.abortEpochs }.resume latest, .ok ())

end OwnerDriver

/-- The commands of the subscriber fence. -/
inductive OwnerCommand (lib : SubscriberLibrary)
  | adoptExisting (plans : List (AmmSubscriberOwnerPlan lib)) (point : AmmStatePoint) (interestRevision : Nat)
  | beginAdd (plans : List (AmmSubscriberOwnerPlan lib)) (point : AmmStatePoint)
  | beginRemove (owners : List HandlerId)
  | beginReplace (plan : AmmSubscriberOwnerPlan lib) (point : AmmStatePoint)
  | commit (transaction interestRevision : Nat) (point : AmmStatePoint)
  | abort (transaction : Nat)

/-- A begin answers with the number of its transaction. -/
inductive OwnerReply
  | done
  | began (transaction : Nat)
  deriving DecidableEq

namespace OwnerDriver
variable {lib : SubscriberLibrary}

/-- Serve one command. The runtime's own point, `latest`, is published where delivery resumes unchanged. -/
def handleControl (d : OwnerDriver lib) (latest : AmmStatePoint) :
    OwnerCommand lib → OwnerDriver lib × Except (AmmSubscriberDriverError lib) OwnerReply
  | .adoptExisting plans point revision => (d.adoptExisting plans point revision).map id (·.map fun _ => .done)
  | .beginAdd plans point => (d.beginAdd plans point latest).map id (·.map .began)
  | .beginRemove owners => (d.beginRemove owners latest).map id (·.map .began)
  | .beginReplace plan point => (d.beginReplace plan point latest).map id (·.map .began)
  | .commit transaction revision point => (d.commit transaction revision point).map id (·.map fun _ => .done)
  | .abort transaction => (d.abort transaction latest).map id (·.map fun _ => .done)

/-- Serve commands in order, each with the runtime's point at that time. -/
def run (d : OwnerDriver lib) (commands : List (AmmStatePoint × OwnerCommand lib)) : OwnerDriver lib :=
  commands.foldl (fun d c => (d.handleControl c.1 c.2).1) d

end OwnerDriver
end AmmState.Subscriber
