import AmmState.Canonical.Pool
import AmmState.V3.Events
import Mathlib.Data.List.Chain

/-! The canonical `Oracle` library over a ring of observations, and the pool around it as far as the ring depends on it:
    the tick and the active liquidity that an observation records. The invariant of the ring is part of its type. -/

namespace AmmState.Canonical
open V3

/-- An entry that was never written. -/
def OracleEntry.empty : OracleEntry := ⟨0, 0, 0, false⟩

/-- `Observation[65535]` with the three numbers of `slot0`. Entries that are not reserved yet were never written. -/
structure OracleRing where
  observations : Nat → OracleEntry
  index : Nat
  cardinality : Nat
  cardinalityNext : Nat
  index_lt : index < cardinality
  cardinality_le : cardinality ≤ cardinalityNext
  next_lt : cardinalityNext < 2 ^ 16
  unreserved : ∀ i, cardinalityNext ≤ i → observations i = .empty

namespace OracleRing

/-- The newest observation. -/
def last (ring : OracleRing) : OracleEntry := ring.observations ring.index

/-- `Oracle.initialize`. -/
def first (time : BitVec 32) : OracleRing where
  observations i := if i = 0 then ⟨time, 0, 0, true⟩ else .empty
  index := 0
  cardinality := 1
  cardinalityNext := 1
  index_lt := Nat.one_pos
  cardinality_le := le_rfl
  next_lt := by decide
  unreserved i hi := if_neg (by omega)

/-- The ring takes its reserved entries into use only when the index is at its end. -/
def cardinalityUpdated (ring : OracleRing) : Nat :=
  if ring.cardinality < ring.cardinalityNext ∧ ring.index = ring.cardinality - 1 then ring.cardinalityNext
  else ring.cardinality

def indexUpdated (ring : OracleRing) : Nat := (ring.index + 1) % 2 ^ 16 % ring.cardinalityUpdated

theorem cardinalityUpdated_le (ring : OracleRing) : ring.cardinalityUpdated ≤ ring.cardinalityNext := by
  unfold cardinalityUpdated
  split_ifs
  · exact le_rfl
  · exact ring.cardinality_le

theorem indexUpdated_lt (ring : OracleRing) : ring.indexUpdated < ring.cardinalityUpdated := by
  refine Nat.mod_lt _ ?_
  have h₁ := ring.index_lt
  have h₂ := ring.cardinality_le
  unfold cardinalityUpdated
  split_ifs <;> omega

/-- `Oracle.write`. -/
def write (ring : OracleRing) (time : BitVec 32) (tick : Int) (liquidity : Nat) : OracleRing :=
  if ring.last.blockTimestamp = time then ring
  else
    { observations := Function.update ring.observations ring.indexUpdated (ring.last.transform time tick liquidity)
      index := ring.indexUpdated
      cardinality := ring.cardinalityUpdated
      cardinalityNext := ring.cardinalityNext
      index_lt := ring.indexUpdated_lt
      cardinality_le := ring.cardinalityUpdated_le
      next_lt := ring.next_lt
      unreserved i hi := by
        have h₁ := ring.indexUpdated_lt
        have h₂ := ring.cardinalityUpdated_le
        rw [Function.update_of_ne (by omega)]
        exact ring.unreserved i hi }

/-- `Oracle.grow`: the timestamps of the new entries are set to one, to pay for their storage. -/
def grow (ring : OracleRing) (next : BitVec 16) : OracleRing :=
  if h : next.toNat ≤ ring.cardinalityNext then ring
  else
    { observations i := if ring.cardinalityNext ≤ i ∧ i < next.toNat then { ring.observations i with blockTimestamp := 1 }
        else ring.observations i
      index := ring.index
      cardinality := ring.cardinality
      cardinalityNext := next.toNat
      index_lt := ring.index_lt
      cardinality_le := ring.cardinality_le.trans (Nat.le_of_not_le h)
      next_lt := next.isLt
      unreserved i hi := by
        rw [if_neg (by omega)]
        exact ring.unreserved i (by omega) }

end OracleRing

/-- The two calls of the library that a pool makes after its initialization. -/
inductive OracleCall
  | write (time : BitVec 32) (tick : Int) (liquidity : Nat)
  | grow (next : BitVec 16)

namespace OracleRing

def apply (ring : OracleRing) : OracleCall → OracleRing
  | .write time tick liquidity => ring.write time tick liquidity
  | .grow next => ring.grow next

/-- The entry that a call stores at a position. -/
def stored (ring : OracleRing) : OracleCall → Nat → Option OracleEntry
  | .write time tick liquidity, i =>
    if ring.last.blockTimestamp ≠ time ∧ i = ring.indexUpdated then some (ring.last.transform time tick liquidity) else none
  | .grow next, i =>
    if ring.cardinalityNext ≤ i ∧ i < next.toNat then some { ring.observations i with blockTimestamp := 1 } else none

end OracleRing

/-- The part of a pool that its ring depends on. -/
structure OraclePool where
  ring : OracleRing
  tick : Int
  liquidity : Nat

namespace OraclePool

/-- An amount in range of the current tick. -/
def Active (pool : OraclePool) (event : DecodedLiquidity) : Prop :=
  event.amount ≠ 0 ∧ event.tickLower ≤ pool.tick ∧ pool.tick < event.tickUpper

instance (pool : OraclePool) (event : DecodedLiquidity) : Decidable (pool.Active event) :=
  inferInstanceAs (Decidable (_ ∧ _ ∧ _))

/-- The call of the library behind an event: `swap` observes where the tick moves, `_modifyPosition` where the range is
    active, both with the tick and the liquidity from before. -/
def call (pool : OraclePool) (event : PoolEvent) (time : BitVec 32) : Option OracleCall :=
  match event with
  | .swap swap => if pool.tick ≠ swap.tick then some (.write time pool.tick pool.liquidity) else none
  | .liquidity event => if pool.Active event then some (.write time pool.tick pool.liquidity) else none
  | .observationGrowth event => some (.grow event.new)
  | .flash _ | .setFeeProtocol _ | .collectProtocol _ => none

def tickAfter (pool : OraclePool) : PoolEvent → Int
  | .swap swap => swap.tick
  | _ => pool.tick

def liquidityAfter (pool : OraclePool) : PoolEvent → Option Nat
  | .swap swap => some swap.liquidity
  | .liquidity event => if pool.Active event then addDelta pool.liquidity event.delta else some pool.liquidity
  | _ => some pool.liquidity

/-- The ring after an event. -/
def ringAfter (pool : OraclePool) (event : PoolEvent) (time : BitVec 32) : OracleRing :=
  match pool.call event time with
  | some call => pool.ring.apply call
  | none => pool.ring

/-- The entry that an event stores at a position of the ring. -/
def stored (pool : OraclePool) (event : PoolEvent) (time : BitVec 32) (i : Nat) : Option OracleEntry :=
  (pool.call event time).bind fun call => pool.ring.stored call i

def step (pool : OraclePool) (event : PoolEvent × BitVec 32) : Option OraclePool :=
  (pool.liquidityAfter event.1).map fun liquidity => ⟨pool.ringAfter event.1 event.2, pool.tickAfter event.1, liquidity⟩

def run (pool : OraclePool) (events : List (PoolEvent × BitVec 32)) : Option OraclePool := events.foldlM step pool

/-- The event records an observation. -/
def observes (pool : OraclePool) (event : PoolEvent) (time : BitVec 32) : Bool :=
  match pool.call event time with
  | some (.write ..) => pool.ring.last.blockTimestamp ≠ time
  | _ => false

/-- The times of the observations that a run records. -/
def observedTimes (pool : OraclePool) : List (PoolEvent × BitVec 32) → List (BitVec 32)
  | [] => []
  | event :: events =>
    (if pool.observes event.1 event.2 then [event.2] else []) ++
      match pool.step event with
      | some pool => pool.observedTimes events
      | none => []

end OraclePool

end AmmState.Canonical
