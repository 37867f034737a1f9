import AmmState.Theorems.V3.Liquidity
import AmmState.V3.Events

/-! The batches of a pool's events: how a successful swap is put together, and which cells each event writes. -/

namespace AmmState.Canonical
open V3 Checked

theorem purge_nil (state : StateView) (address : Address) : state.purge address [] = state := by
  funext a slot
  simp [StateView.purge]

theorem exactly_eq_ok {r : Result (List StateUpdate)} {transition : CanonicalLiquidityTransition} :
    exactly r = .ok transition ↔ r = .ok transition.updates ∧ transition.coldSlots = [] := by
  obtain ⟨us, cold⟩ := transition
  simp only [exactly, bind_eq_ok, pure_eq_ok, CanonicalLiquidityTransition.mk.injEq]
  constructor
  · rintro ⟨us, hr, rfl, rfl⟩
    exact ⟨hr, rfl⟩
  · rintro ⟨hr, rfl⟩
    exact ⟨us, hr, rfl, rfl⟩

/-! ### Swaps -/

/-- The parts of a successful swap replay, in the order they are computed. -/
structure SwapReplay (keccak : Keccak) (address : Address) (layout : V3StorageLayout) (fee : Nat) (swap : DecodedSwap)
    (state : StateView) (context : AdapterEventContext) where
  timestamp : Nat
  parent : SwapParent
  zeroForOne : Bool
  oracle : OracleAdvance
  path : Path
  segments : List Segment
  totalFee : Nat
  paid : List Segment
  fees : FeeState
  inputs : checkSwapInputs layout fee swap context = .ok timestamp
  load : loadSwapParent address layout state = .ok parent
  event : checkSwapEvent parent.slot0 swap = .ok zeroForOne
  advance : swapOracle address parent.slot0 parent.liquidity state timestamp swap.tick = .ok oracle
  walk : replaySegments keccak address layout state parent.slot0 parent.liquidity swap zeroForOne = .ok (path, segments)
  split : splitFees fee swap zeroForOne path segments = .ok (totalFee, paid)
  allocate : allocateFees address fee (protocolDivisor parent.slot0 zeroForOne) zeroForOne oracle.now timestamp paid
    ⟨totalFee, parent.feeGrowth0, parent.feeGrowth1, parent.protocolFees, []⟩ = .ok fees
  remainder : fees.remainingFee = 0

section
variable {keccak : Keccak} {address : Address} {layout : V3StorageLayout} {fee : Nat} {swap : DecodedSwap}
  {state : StateView} {context : AdapterEventContext} {us : List StateUpdate}

theorem deriveUniswapV3Swap_eq_ok : deriveUniswapV3Swap keccak address layout fee swap state context = .ok us ↔
    ∃ r : SwapReplay keccak address layout fee swap state context,
      us = swapUpdates address layout r.parent swap r.oracle r.path r.fees := by
  constructor
  · intro h
    obtain ⟨timestamp, h₁, h⟩ := bind_eq_ok.mp h
    obtain ⟨parent, h₂, h⟩ := bind_eq_ok.mp h
    obtain ⟨zeroForOne, h₃, h⟩ := bind_eq_ok.mp h
    obtain ⟨oracle, h₄, h⟩ := bind_eq_ok.mp h
    obtain ⟨⟨path, segments⟩, h₅, h⟩ := bind_eq_ok.mp h
    obtain ⟨⟨totalFee, paid⟩, h₆, h⟩ := bind_eq_ok.mp h
    obtain ⟨fees, h₇, h⟩ := bind_eq_ok.mp h
    obtain ⟨_, h₈, h⟩ := bind_eq_ok.mp h
    exact ⟨⟨timestamp, parent, zeroForOne, oracle, path, segments, totalFee, paid, fees, h₁, h₂, h₃, h₄, h₅, h₆, h₇,
      ensure_eq_ok.mp h₈⟩, (pure_eq_ok.mp h).symm⟩
  · rintro ⟨r, rfl⟩
    unfold deriveUniswapV3Swap
    rw [r.inputs, ok_bind, r.load, ok_bind, r.event, ok_bind, r.advance, ok_bind, r.walk, ok_bind]
    simp only [r.split, ok_bind, r.allocate, ensure_of r.remainder]
    rfl

end

section
variable {keccak : Keccak} {address : Address}

/-- The growth of a step writes no tick. -/
theorem accrue_tickUpdates (zeroForOne : Bool) (f : FeeState) (growth protocolFee : Nat) :
    (accrue zeroForOne f growth protocolFee).tickUpdates = f.tickUpdates := by
  unfold accrue
  split_ifs <;> rfl

theorem allocateSegment_address {fee divisor timestamp : Nat} {zeroForOne isLast : Bool} {now : Observation}
    {segment : Segment} {f f' : FeeState}
    (h : allocateSegment address fee divisor zeroForOne now timestamp segment isLast f = .ok f')
    (hf : ∀ u ∈ f.tickUpdates, u.address = address) : ∀ u ∈ f'.tickUpdates, u.address = address := by
  obtain ⟨feeAmount, -, h⟩ := bind_eq_ok.mp h
  obtain ⟨remaining, -, h⟩ := bind_eq_ok.mp h
  obtain ⟨growth, -, h⟩ := bind_eq_ok.mp h
  cases hc : segment.crossedTick with
  | none =>
    rw [hc] at h
    obtain rfl := pure_eq_ok.mp h
    rwa [accrue_tickUpdates]
  | some tick =>
    rw [hc] at h
    obtain rfl := pure_eq_ok.mp h
    intro u hu
    rcases List.mem_append.mp hu with hu | hu
    · rw [accrue_tickUpdates] at hu
      exact hf u hu
    · exact tickWordUpdates_address hu

theorem allocateFees_address {fee divisor timestamp : Nat} {zeroForOne : Bool} {now : Observation}
    {segments : List Segment} {f f' : FeeState}
    (h : allocateFees address fee divisor zeroForOne now timestamp segments f = .ok f')
    (hf : ∀ u ∈ f.tickUpdates, u.address = address) : ∀ u ∈ f'.tickUpdates, u.address = address := by
  induction segments generalizing f with
  | nil =>
    obtain rfl := pure_eq_ok.mp h
    exact hf
  | cons segment rest ih =>
    obtain ⟨g, hg, h⟩ := bind_eq_ok.mp h
    exact ih h (allocateSegment_address hg hf)

/-- A swap writes cells of its pool only. -/
theorem deriveUniswapV3Swap_address {layout : V3StorageLayout} {fee : Nat} {swap : DecodedSwap} {state : StateView}
    {context : AdapterEventContext} {us : List StateUpdate}
    (h : deriveUniswapV3Swap keccak address layout fee swap state context = .ok us) : ∀ u ∈ us, u.address = address := by
  obtain ⟨r, rfl⟩ := deriveUniswapV3Swap_eq_ok.mp h
  have hticks := allocateFees_address r.allocate nofun
  intro u hu
  rcases List.mem_append.mp hu with hu | hu
  · rcases List.mem_append.mp hu with hu | hu
    · simp only [List.mem_cons, List.not_mem_nil, or_false] at hu
      rcases hu with rfl | rfl | rfl | rfl | rfl <;> rfl
    · obtain ⟨w, -, rfl⟩ := List.mem_map.mp hu
      rfl
  · exact hticks u hu

/-- Fees may add one step at the end, which crosses nothing. -/
theorem splitFees_segments {fee total : Nat} {swap : DecodedSwap} {zeroForOne : Bool} {path : Path}
    {segments paid : List Segment} (h : splitFees fee swap zeroForOne path segments = .ok (total, paid)) :
    paid = segments ∨ paid = segments ++ [emptySegment path.sqrt path.liquidity] := by
  obtain ⟨principal, -, h⟩ := bind_eq_ok.mp h
  obtain ⟨derived, -, h⟩ := bind_eq_ok.mp h
  obtain ⟨capped, -, h⟩ := bind_eq_ok.mp h
  obtain ⟨total', -, h⟩ := bind_eq_ok.mp h
  obtain ⟨_, -, h⟩ := bind_eq_ok.mp h
  obtain ⟨paid', hpaid, h⟩ := bind_eq_ok.mp h
  obtain ⟨rfl, rfl⟩ := Prod.mk.inj (pure_eq_ok.mp h)
  unfold residualSegments at hpaid
  split_ifs at hpaid
  · obtain ⟨fullFees, -, hpaid⟩ := bind_eq_ok.mp hpaid
    split_ifs at hpaid
    · obtain ⟨valid, -, hpaid⟩ := bind_eq_ok.mp hpaid
      obtain rfl := pure_eq_ok.mp hpaid
      split_ifs
      · exact .inr rfl
      · exact .inl rfl
    · exact .inl (pure_eq_ok.mp hpaid).symm
  · exact .inl (pure_eq_ok.mp hpaid).symm

end

/-! ### Accounting -/

section
variable {address : Address} {spacing : Int} {state : StateView} {us : List StateUpdate} {context : AdapterEventContext}

theorem deriveUniswapV3Flash_cases {fee : Nat} {event : DecodedFlash}
    (h : deriveUniswapV3Flash address (.uniswap spacing) state fee event context = .ok us) :
    ∃ growth0 growth1 fees, us = [⟨address, 1, growth0⟩, ⟨address, 2, growth1⟩, ⟨address, 3, fees⟩] := by
  obtain ⟨_, -, h⟩ := bind_eq_ok.mp h
  obtain ⟨_, -, h⟩ := bind_eq_ok.mp h
  obtain ⟨_, -, h⟩ := bind_eq_ok.mp h
  obtain ⟨_, -, h⟩ := bind_eq_ok.mp h
  obtain ⟨_, -, h⟩ := bind_eq_ok.mp h
  obtain ⟨_, -, h⟩ := bind_eq_ok.mp h
  obtain ⟨_, -, h⟩ := bind_eq_ok.mp h
  obtain ⟨_, -, h⟩ := bind_eq_ok.mp h
  obtain ⟨_, -, h⟩ := bind_eq_ok.mp h
  obtain ⟨_, -, h⟩ := bind_eq_ok.mp h
  obtain ⟨_, -, h⟩ := bind_eq_ok.mp h
  obtain ⟨_, -, h⟩ := bind_eq_ok.mp h
  obtain ⟨_, -, h⟩ := bind_eq_ok.mp h
  obtain ⟨⟨growth0, fees⟩, -, h⟩ := bind_eq_ok.mp h
  obtain ⟨⟨growth1, fees'⟩, -, h⟩ := bind_eq_ok.mp h
  exact ⟨growth0, growth1, fees', (pure_eq_ok.mp h).symm⟩

theorem deriveUniswapV3SetFeeProtocol_cases {event : DecodedFeeProtocol}
    (h : deriveUniswapV3SetFeeProtocol address (.uniswap spacing) state event context = .ok us) :
    ∃ raw, state.storage address 0 = some raw ∧
      us = [⟨address, 0, Packed.set raw 232 (event.new0 ||| (event.new1 <<< 4))⟩] := by
  obtain ⟨_, -, h⟩ := bind_eq_ok.mp h
  obtain ⟨_, -, h⟩ := bind_eq_ok.mp h
  obtain ⟨raw, hraw, h⟩ := bind_eq_ok.mp h
  obtain ⟨_, -, h⟩ := bind_eq_ok.mp h
  exact ⟨raw, required_eq_ok.mp hraw, (pure_eq_ok.mp h).symm⟩

theorem deriveUniswapV3CollectProtocol_cases {event : DecodedCollectProtocol}
    (h : deriveUniswapV3CollectProtocol address (.uniswap spacing) state event context = .ok us) :
    ∃ fees, us = [⟨address, 3, fees⟩] := by
  obtain ⟨_, -, h⟩ := bind_eq_ok.mp h
  obtain ⟨_, -, h⟩ := bind_eq_ok.mp h
  obtain ⟨_, -, h⟩ := bind_eq_ok.mp h
  obtain ⟨_, -, h⟩ := bind_eq_ok.mp h
  obtain ⟨_, -, h⟩ := bind_eq_ok.mp h
  exact ⟨_, (pure_eq_ok.mp h).symm⟩

theorem deriveUniswapV3ObservationGrowth_cases {event : DecodedObservationGrowth}
    (h : deriveUniswapV3ObservationGrowth address (.uniswap spacing) state event context = .ok us) :
    ∃ raw, state.storage address 0 = some raw ∧ event.old.toNat < event.new.toNat ∧
      field raw 216 16 = event.old.toNat ∧
      us = growthWrites address event.old.toNat event.new.toNat ++ [⟨address, 0, Packed.set raw 216 event.new⟩] := by
  obtain ⟨_, -, h⟩ := bind_eq_ok.mp h
  obtain ⟨_, hlt, h⟩ := bind_eq_ok.mp h
  obtain ⟨raw, hraw, h⟩ := bind_eq_ok.mp h
  obtain ⟨_, -, h⟩ := bind_eq_ok.mp h
  obtain ⟨_, hnext, h⟩ := bind_eq_ok.mp h
  exact ⟨raw, required_eq_ok.mp hraw, ensure_eq_ok.mp hlt, ensure_eq_ok.mp hnext, (pure_eq_ok.mp h).symm⟩

theorem mem_growthWrites {old new : Nat} {u : StateUpdate} (hu : u ∈ growthWrites address old new) :
    ∃ i, old ≤ i ∧ i < new ∧ u.slot = observationSlot i := by
  obtain ⟨i, hi, rfl⟩ := List.mem_map.mp hu
  have := List.mem_range.mp hi
  exact ⟨old + i, by omega, by omega, rfl⟩

theorem deriveUniswapV3Flash_address {fee : Nat} {event : DecodedFlash}
    (h : deriveUniswapV3Flash address (.uniswap spacing) state fee event context = .ok us) :
    ∀ u ∈ us, u.address = address := by
  obtain ⟨growth0, growth1, fees, rfl⟩ := deriveUniswapV3Flash_cases h
  intro u hu
  simp only [List.mem_cons, List.not_mem_nil, or_false] at hu
  rcases hu with rfl | rfl | rfl <;> rfl

theorem deriveUniswapV3SetFeeProtocol_address {event : DecodedFeeProtocol}
    (h : deriveUniswapV3SetFeeProtocol address (.uniswap spacing) state event context = .ok us) :
    ∀ u ∈ us, u.address = address := by
  obtain ⟨raw, -, rfl⟩ := deriveUniswapV3SetFeeProtocol_cases h
  intro u hu
  rw [List.mem_singleton.mp hu]

theorem deriveUniswapV3CollectProtocol_address {event : DecodedCollectProtocol}
    (h : deriveUniswapV3CollectProtocol address (.uniswap spacing) state event context = .ok us) :
    ∀ u ∈ us, u.address = address := by
  obtain ⟨fees, rfl⟩ := deriveUniswapV3CollectProtocol_cases h
  intro u hu
  rw [List.mem_singleton.mp hu]

theorem deriveUniswapV3ObservationGrowth_address {event : DecodedObservationGrowth}
    (h : deriveUniswapV3ObservationGrowth address (.uniswap spacing) state event context = .ok us) :
    ∀ u ∈ us, u.address = address := by
  obtain ⟨raw, -, -, -, rfl⟩ := deriveUniswapV3ObservationGrowth_cases h
  intro u hu
  rcases List.mem_append.mp hu with hu | hu
  · obtain ⟨i, -, rfl⟩ := List.mem_map.mp hu
    rfl
  · rw [List.mem_singleton.mp hu]

end

end AmmState.Canonical
