import AmmState.Canonical.Initialize
import AmmState.Theorems.V3.Boundaries

/-! The replay of a `Mint` or a `Burn` against the contract: from a pool held in full, it succeeds where
    `_modifyPosition` does and leaves the same storage. -/

namespace AmmState.Canonical
open V3 Checked

section
variable {keccak : Keccak} {pool : Immutables} {F : Storage} {time : Nat} {parent : LiquidityParent} {state : StateView}
  {address : Address} {event : DecodedLiquidity}

/-! ### What the replay reads -/

theorem maxLiquidityPerTick_eq (hs : 0 < pool.tickSpacing) :
    uniswapV3MaxLiquidityPerTick pool.tickSpacing = some pool.maxLiquidityPerTick := by
  have hmin : MIN_TICK.tdiv pool.tickSpacing ≤ 0 := by
    rw [show MIN_TICK = -MAX_TICK from rfl, Int.neg_tdiv]
    have := Int.tdiv_nonneg (show 0 ≤ MAX_TICK by decide) hs.le
    omega
  have hmax : 0 ≤ MAX_TICK.tdiv pool.tickSpacing := Int.tdiv_nonneg (by decide) hs.le
  have hcount : 0 ≤ (MAX_TICK.tdiv pool.tickSpacing * pool.tickSpacing -
      MIN_TICK.tdiv pool.tickSpacing * pool.tickSpacing).tdiv pool.tickSpacing :=
    Int.tdiv_nonneg (by nlinarith) hs.le
  unfold uniswapV3MaxLiquidityPerTick Immutables.maxLiquidityPerTick
  rw [if_neg (by omega)]
  exact if_neg (by omega)

theorem validateParentSlot0_eq_ok {slot0 : Slot0} : validateParentSlot0 slot0 = .ok () ↔
    slot0.sqrtPriceX96 < MAX_SQRT_RATIO ∧ MIN_TICK ≤ slot0.tick ∧ slot0.tick < MAX_TICK ∧
      sqrtRatio slot0.tick ≤ slot0.sqrtPriceX96 ∧ slot0.sqrtPriceX96 ≤ sqrtRatio (slot0.tick + 1) := by
  unfold validateParentSlot0
  rw [sqrtRatioAtTick_eq ⟨le_rfl, by decide⟩, ok_bind, sqrtRatioAtTick_eq ⟨by decide, le_rfl⟩, ok_bind, sqrtRatio_min,
    sqrtRatio_max]
  simp only [bind_eq_ok, ensure_eq_ok, sqrtRatioAtTick_eq_ok, exists_const]
  constructor
  · rintro ⟨⟨-, hlt⟩, _, ⟨hlo, rfl⟩, _, ⟨hhi, rfl⟩, hlower, hupper⟩
    exact ⟨hlt, hlo.1, by omega, hlower, hupper⟩
  · rintro ⟨hlt, hlo, hhi, hlower, hupper⟩
    have hmin : MIN_SQRT_RATIO ≤ slot0.sqrtPriceX96 := by
      rw [← sqrtRatio_min]
      exact (sqrtRatio_le le_rfl hlo hhi.le).trans hlower
    exact ⟨⟨hmin, hlt⟩, _, ⟨⟨hlo, hhi.le⟩, rfl⟩, _, ⟨⟨by omega, by omega⟩, rfl⟩, hlower, hupper⟩

theorem required_eq_ok {slot value : U256} :
    required state address slot = .ok value ↔ state.storage address slot = some value := orError_eq_ok

theorem loadSlot0_eq_ok {layout : V3StorageLayout} {r : Slot0 × Nat} :
    loadSlot0 address layout state = .ok r ↔
      ∃ raw, state.storage address layout.slot0Slot = some raw ∧ (Slot0.decode raw).unlockedByte = 1 ∧
        validateParentSlot0 (Slot0.decode raw) = .ok () ∧
        ∃ word, state.storage address layout.liquiditySlot = some word ∧ word.toNat < 2 ^ 128 ∧
          r = (Slot0.decode raw, word.toNat) := by
  have hmask : ∀ n, n ≤ WORD_128_MASK ↔ n < 2 ^ 128 := fun n => by
    rw [WORD_128_MASK]
    omega
  unfold loadSlot0
  simp only [bind_eq_ok, required_eq_ok, ensure_eq_ok, pure_eq_ok, hmask, eq_comm (b := r), Unique.exists_iff,
    PUnit.default_eq_unit]

/-- A liquidity change that can be read is read from the storage. -/
theorem loadLiquidityParent_spec (h : Holds state address F) (hs : 0 < pool.tickSpacing) (hO : OracleReady F)
    (ht : time < 2 ^ 32) (hload : loadLiquidityParent address (.uniswap pool.tickSpacing) state time = .ok parent) :
    ParentSpec pool F time parent := by
  unfold loadLiquidityParent at hload
  obtain ⟨⟨slot0, liquidity⟩, hslot0, hload⟩ := bind_eq_ok.mp hload
  obtain ⟨raw, hraw, -, hprice, word, hword, hlt, heq⟩ := loadSlot0_eq_ok.mp hslot0
  obtain rfl : F 0 = raw := Option.some.inj ((h 0).symm.trans hraw)
  obtain rfl : F 4 = word := Option.some.inj ((h 4).symm.trans hword)
  obtain ⟨rfl, rfl⟩ := Prod.mk.inj heq
  obtain ⟨-, hlo, hhi, hlower, hupper⟩ := validateParentSlot0_eq_ok.mp hprice
  obtain ⟨advance, hadv, hspec⟩ := advanceOracle_spec h hO ht hlt
  simp only [maxLiquidityPerTick_eq hs, show (V3StorageLayout.uniswap pool.tickSpacing).tickSpacing = pool.tickSpacing
    from rfl, h.required, ok_bind, orError, show F 0 = F.slot0 from rfl, hadv, pure_eq_ok] at hload
  subst hload
  exact ⟨rfl, rfl, hlt, rfl, by rwa [liquidity_eq hlt], rfl, rfl, hs, ⟨hlo, hhi, hlower, hupper⟩⟩

/-- From a well-formed pool, a liquidity change finds all it reads. -/
theorem loadLiquidityParent_of (h : Holds state address F) (hF : WellFormed keccak pool F) (ht : time < 2 ^ 32) :
    ∃ parent, loadLiquidityParent address (.uniswap pool.tickSpacing) state time = .ok parent := by
  obtain ⟨advance, hadv, -⟩ := advanceOracle_spec h hF.oracle ht hF.liquidity_lt
  have hslot0 : loadSlot0 address (.uniswap pool.tickSpacing) state = .ok (Slot0.decode F.slot0, (F 4).toNat) :=
    loadSlot0_eq_ok.mpr ⟨_, h _, hF.unlocked, validateParentSlot0_eq_ok.mpr ⟨hF.price_lt, hF.price.tick_ge,
      hF.price.tick_lt, hF.price.lower, hF.price.upper⟩, _, h _, hF.liquidity_lt, rfl⟩
  refine ⟨⟨Slot0.decode F.slot0, (F 4).toNat, pool.maxLiquidityPerTick, advance, F 1, F 2⟩, ?_⟩
  unfold loadLiquidityParent
  simp only [hslot0, maxLiquidityPerTick_eq hF.spacing_pos, show (V3StorageLayout.uniswap pool.tickSpacing).tickSpacing =
    pool.tickSpacing from rfl, h.required, ok_bind, orError, hadv]
  rfl

/-! ### The active range -/

/-- The writes of an in-range change with its new active liquidity. -/
def activeWrites (address : Address) (parent : LiquidityParent) (liquidity : Nat) : List StateUpdate :=
  (match parent.oracle.write with
    | some (slot, value) => [⟨address, slot, value⟩, ⟨address, 0, parent.slot0.encodeFinal parent.slot0.sqrtPriceX96
        parent.slot0.tick parent.oracle.observationIndex parent.oracle.observationCardinality⟩]
    | none => []) ++ [⟨address, 4, BitVec.ofNat 256 liquidity⟩]

theorem activeUpdates_eq_ok (ha : 0 < event.amount) {us : List StateUpdate} :
    activeUpdates address (.uniswap pool.tickSpacing) event parent = .ok us ↔
      if event.tickLower ≤ parent.slot0.tick ∧ parent.slot0.tick < event.tickUpper then
        ∃ n, addDelta parent.liquidity event.delta = some n ∧ n < 2 ^ 128 ∧ us = activeWrites address parent n
      else us = [] := by
  have hmask : ∀ n, n ≤ WORD_128_MASK ↔ n < 2 ^ 128 := fun n => by
    rw [WORD_128_MASK]
    omega
  unfold activeUpdates
  by_cases hr : event.tickLower ≤ parent.slot0.tick ∧ parent.slot0.tick < event.tickUpper
  · rw [if_pos hr, if_pos hr]
    simp only [bind_eq_ok, ensure_eq_ok, exists_const, hmask, pure_eq_ok]
    constructor
    · rintro ⟨n, hn, hlt, rfl⟩
      exact ⟨n, (change_eq_ok ha hlt).mp hn, hlt, rfl⟩
    · rintro ⟨n, hn, hlt, rfl⟩
      exact ⟨n, (change_eq_ok ha hlt).mpr hn, hlt, rfl⟩
  · rw [if_neg hr, if_neg hr, pure_eq_ok, eq_comm]

/-- A word below `2 ^ 128` has its low half replaced by a number. -/
theorem set_low_half {w : U256} (hw : w.toNat < 2 ^ 128) {n : Nat} (hn : n < 2 ^ 128) :
    Packed.set w 0 (BitVec.ofNat 128 n) = BitVec.ofNat 256 n := by
  have hsmall : ∀ m < 2 ^ 128, ∀ i, ¬ i < 128 → m.testBit i = false := fun m hm i hi =>
    Nat.testBit_lt_two_pow (hm.trans_le (Nat.pow_le_pow_right (by omega) (by omega)))
  refine BitVec.eq_of_getLsbD_eq fun i hi => ?_
  rw [Packed.getLsbD_set hi, Nat.sub_zero]
  by_cases h : i < 128
  · rw [if_pos (by omega), BitVec.getLsbD_ofNat, BitVec.getLsbD_ofNat]
    simp [h, hi]
  · rw [if_neg (by omega), BitVec.getLsbD, BitVec.getLsbD_ofNat, hsmall _ hw i h, hsmall _ hn i h, Bool.and_false]

theorem addDelta_lt {x y : Nat} {delta : Int} (hx : x < 2 ^ 128) (h : addDelta x delta = some y) : y < 2 ^ 128 := by
  unfold addDelta at h
  split_ifs at h <;> simp only [Option.some.injEq] at h <;> omega

/-- Price and tick of `slot0` written back as they are. -/
theorem encodeFinal_same (raw : U256) (index cardinality : Nat) :
    (Slot0.decode raw).encodeFinal (Slot0.decode raw).sqrtPriceX96 (Slot0.decode raw).tick index cardinality =
      Packed.set (Packed.set raw 184 (BitVec.ofNat 16 index)) 200 (BitVec.ofNat 16 cardinality) := by
  simp only [Slot0.encodeFinal, Slot0.decode, ofNat_field, ofInt_signedField, Packed.set_get]

theorem observationSlot_eq (index : Nat) : observationSlot index = BitVec.ofNat 256 (8 + index) := by
  rw [observationSlot, BitVec.ofNat_add]
  rfl

theorem observationSlot_ne {index n : Nat} (hi : index < 2 ^ 16) (hn : n < 8) :
    observationSlot index ≠ BitVec.ofNat 256 n := by
  intro h
  rw [observationSlot_eq] at h
  have := congrArg BitVec.toNat h
  rw [BitVec.toNat_ofNat, BitVec.toNat_ofNat, Nat.mod_eq_of_lt (by omega), Nat.mod_eq_of_lt (by omega)] at this
  omega

/-- The contract's writes of an in-range change are those of the replay. -/
theorem activeWrites_eq (hp : ParentSpec pool F time parent) {G : Storage} (h0 : G 0 = F 0) (h4 : G 4 = F 4)
    {delta : Int} {n : Nat} (hn : addDelta (F 4).toNat delta = some n) (address : Address) :
    (let H := G.applyUpdates (OracleAdvance.updates address parent.oracle)
      let H := Function.update H 0 (Packed.set (Packed.set H.slot0 184 (BitVec.ofNat 16 parent.oracle.observationIndex)) 200
        (BitVec.ofNat 16 parent.oracle.observationCardinality))
      Function.update H 4 (Packed.set (H 4) 0 (BitVec.ofNat 128 n))) =
        G.applyUpdates (activeWrites address parent n) := by
  have hlt := addDelta_lt hp.liquidity_lt hn
  unfold activeWrites
  rw [hp.slot0, encodeFinal_same]
  have hword : Packed.set (F 4) 0 (BitVec.ofNat 128 n) = BitVec.ofNat 256 n := set_low_half hp.liquidity_lt hlt
  cases hw : parent.oracle.write with
  | none =>
    obtain ⟨hindex, hcard⟩ := hp.oracle.same hw
    have hslot0 : Packed.set (Packed.set (F 0) 184 (BitVec.ofNat 16 parent.oracle.observationIndex)) 200
        (BitVec.ofNat 16 parent.oracle.observationCardinality) = F 0 := by
      rw [hindex, hcard, Storage.observationIndex, Storage.observationCardinality, ofNat_field, ofNat_field]
      rw [Storage.slot0, Packed.set_get, Packed.set_get]
    simp only [OracleAdvance.updates, hw, Option.toList_none, List.map_nil, Storage.applyUpdates_nil, List.nil_append,
      Storage.applyUpdates_cons, Storage.slot0, h0, hslot0]
    rw [← h0, Function.update_eq_self, h4, hword]
  | some w =>
    obtain ⟨slot, value⟩ := w
    obtain ⟨hslot, -⟩ := hp.oracle.write _ hw
    have hindex : parent.oracle.observationIndex < 2 ^ 16 := by
      have h₁ := hp.oracle.index_lt
      have h₂ := hp.oracle.cardinality_le
      have h₃ : F.observationCardinalityNext < 2 ^ 16 := field_lt _ _ _
      omega
    have hne0 : (0 : U256) ≠ slot := fun h => observationSlot_ne hindex (by decide) (hslot.symm.trans h.symm)
    have hne4 : (4 : U256) ≠ slot := fun h => observationSlot_ne hindex (by decide) (hslot.symm.trans h.symm)
    simp only [OracleAdvance.updates, hw, Option.toList_some, List.map_cons, List.map_nil, Storage.applyUpdates_nil,
      Storage.applyUpdates_cons, List.cons_append, List.nil_append, Storage.slot0]
    rw [Function.update_of_ne hne0, Function.update_of_ne (show (4 : U256) ≠ 0 by decide),
      Function.update_of_ne hne4, h0, h4, hword]

/-! ### The whole transition -/

/-- The batch of a transition, from its parts. -/
theorem liquidityTransition_of_holds (hk : DistinctKeys keccak) (h : Holds state address F)
    (hT : TicksAgree keccak pool.tickSpacing F) (hp : ParentSpec pool F time parent) (ha : 0 < event.amount)
    (hL : InRange event.tickLower) (hU : InRange event.tickUpper) (haL : event.tickLower % pool.tickSpacing = 0)
    (haU : event.tickUpper % pool.tickSpacing = 0) (hlt : event.tickLower < event.tickUpper) {l u : Nat × Int}
    (hl : changeTick (grossAt keccak F event.tickLower) (netAt keccak F event.tickLower) event.delta false
      pool.maxLiquidityPerTick = some l)
    (hu : changeTick (grossAt keccak F event.tickUpper) (netAt keccak F event.tickUpper) event.delta true
      pool.maxLiquidityPerTick = some u) :
    ∃ batch, (∀ x ∈ batch, x.address = address) ∧
      F.applyUpdates batch = movedBoundaries keccak pool F parent time event.tickLower event.tickUpper l u ∧
      liquidityTransition keccak address (.uniswap pool.tickSpacing) state event parent time =
        activeUpdates address (.uniswap pool.tickSpacing) event parent >>= fun active => .ok ⟨batch ++ active, []⟩ := by
  obtain ⟨gL, nL⟩ := l
  obtain ⟨gU, nU⟩ := u
  have hs := hp.spacing_pos
  set lowerPosition := boundaryPosition keccak address (.uniswap pool.tickSpacing) state event.tickLower false
  set upperPosition := boundaryPosition keccak address (.uniswap pool.tickSpacing) state event.tickUpper true
  have hheld : ∀ x, (state.storage address x).isSome := fun x => by rw [h x]; rfl
  have hstart : Merged (state.storage address) F F [] [lowerPosition.slot, upperPosition.slot]
      ⟨state.storage address, []⟩ :=
    ⟨fun x _ _ => h x, fun _ _ _ => rfl, nofun⟩
  obtain ⟨s₁, hs₁⟩ := hstart.flip_ok address state parent time false gL nL (hheld _) List.not_mem_nil
    (bit_of_aligned hT hs hL haL)
  have hm₁ := hstart.flip_some (hheld _) List.mem_cons_self hs₁
  have hbit : bitSet keccak (flipCell keccak pool.tickSpacing
      (decide (gL = 0) != decide (grossAt keccak F event.tickLower = 0))
      F event.tickLower) (event.tickUpper / pool.tickSpacing) = true ↔ grossAt keccak F event.tickUpper ≠ 0 := by
    rw [flipCell_bit hs hL hU haL haU hlt.ne hk]
    exact bit_of_aligned hT hs hU haU
  obtain ⟨s₂, hs₂⟩ := hm₁.flip_ok address state parent time true gU nU (hheld _) List.not_mem_nil hbit
  have hm₂ := hm₁.flip_some (hheld _) (List.mem_cons_of_mem _ List.mem_cons_self) hs₂
  have hfold : [(some (tickUpdateOf keccak F parent time event.tickLower gL nL), lowerPosition),
      (some (tickUpdateOf keccak F parent time event.tickUpper gU nU), upperPosition)].foldlM flipBoundary
        ⟨state.storage address, []⟩ = .ok s₂ := by
    rw [List.foldlM_cons, hs₁, ok_bind, List.foldlM_cons, hs₂]
    rfl
  refine ⟨boundaryUpdates address (some (tickUpdateOf keccak F parent time event.tickLower gL nL), lowerPosition) ++
    boundaryUpdates address (some (tickUpdateOf keccak F parent time event.tickUpper gU nU), upperPosition) ++
    bitmapUpdates address s₂ [] lowerPosition upperPosition, ?_, ?_, ?_⟩
  · intro x hx
    rcases List.mem_append.mp hx with hx | hx
    · rcases List.mem_append.mp hx with hx | hx
      · exact tickWordUpdates_address hx
      · exact tickWordUpdates_address hx
    · exact bitmapUpdates_address hx
  · rw [Storage.applyUpdates_append, Storage.applyUpdates_append]
    funext x
    rw [hm₂.applyUpdates List.not_mem_nil]
    unfold movedBoundaries
    simp only []
    split_ifs with hx
    · obtain ⟨w, rfl⟩ : ∃ w, x = bitmapSlot keccak w := by
        rcases List.mem_cons.mp (hm₂.mem x hx).1 with rfl | hx
        · exact ⟨_, rfl⟩
        · exact ⟨_, List.mem_singleton.mp hx⟩
      rw [setTickInfo_bitmap hk hU, setTickInfo_bitmap hk hL]
    · have hcell := hm₂.unchanged x List.not_mem_nil hx
      exact setTickInfo_apply_congr (setTickInfo_apply_congr hcell.symm)
  · unfold liquidityTransition
    simp only []
    rw [(resolveBoundary_of_holds h hT hp ha hL haL false).1 gL nL hl, ok_bind,
      (resolveBoundary_of_holds h hT hp ha hU haU true).1 gU nU hu, ok_bind, hfold, ok_bind]
    simp only [List.flatMap_cons, List.flatMap_nil, coldCells, List.append_nil, List.mergeSort_nil, List.dedup_nil]
    rfl

theorem delta_ne_zero (ha : 0 < event.amount) : event.delta ≠ 0 := by
  unfold DecodedLiquidity.delta
  split_ifs <;> omega

/-- A cell that no tick and no bitmap word is stored in survives the boundaries. -/
theorem movedBoundaries_fixed (hk : DistinctKeys keccak) {tickLower tickUpper : Int} (hL : InRange tickLower)
    (hU : InRange tickUpper) (l u : Nat × Int) {n : Nat} (hn : n < 2 ^ 17) :
    movedBoundaries keccak pool F parent time tickLower tickUpper l u (BitVec.ofNat 256 n) = F (BitVec.ofNat 256 n) := by
  have hflip : ∀ (flipped : Bool) (G : Storage) (t : Int),
      flipCell keccak pool.tickSpacing flipped G t (BitVec.ofNat 256 n) = G (BitVec.ofNat 256 n) := by
    intro flipped G t
    unfold flipCell
    split_ifs
    · exact Function.update_of_ne (hk.bitmap_ne_fixed hn).symm _ _
    · rfl
  unfold movedBoundaries
  simp only []
  rw [setTickInfo_fixed hk hU hn, setTickInfo_fixed hk hL hn, hflip, hflip]

/-- The contract's change of a position, from its boundaries and the active range. -/
theorem modifyPosition_eq (hk : DistinctKeys keccak) (hT : TicksAgree keccak pool.tickSpacing F)
    (hp : ParentSpec pool F time parent) (ha : 0 < event.amount) (hL : InRange event.tickLower)
    (hU : InRange event.tickUpper) (haL : event.tickLower % pool.tickSpacing = 0)
    (haU : event.tickUpper % pool.tickSpacing = 0) (hlt : event.tickLower < event.tickUpper) (address : Address) :
    modifyPosition keccak pool F (BitVec.ofNat 32 time) event.tickLower event.tickUpper event.delta =
      (changeTick (grossAt keccak F event.tickLower) (netAt keccak F event.tickLower) event.delta false
        pool.maxLiquidityPerTick).bind fun l =>
      (changeTick (grossAt keccak F event.tickUpper) (netAt keccak F event.tickUpper) event.delta true
        pool.maxLiquidityPerTick).bind fun u =>
      let moved := movedBoundaries keccak pool F parent time event.tickLower event.tickUpper l u
      if event.tickLower ≤ F.tick ∧ F.tick < event.tickUpper then
        (addDelta (F 4).toNat event.delta).bind fun n => some (moved.applyUpdates (activeWrites address parent n))
      else some moved := by
  have hguard : event.tickLower < event.tickUpper ∧ MIN_TICK ≤ event.tickLower ∧ event.tickUpper ≤ MAX_TICK :=
    ⟨hlt, hL.1, hU.2⟩
  unfold modifyPosition
  rw [updatePosition_eq hk hT hp hL hU haL haU hlt (delta_ne_zero ha)]
  simp only [Option.bind_eq_bind, guard, hguard, and_self, if_true, pure, Option.bind_some, Option.bind_assoc]
  refine congrArg _ (funext fun l => congrArg _ (funext fun u => ?_))
  have hfixed : ∀ n < 2 ^ 17, movedBoundaries keccak pool F parent time event.tickLower event.tickUpper l u
      (BitVec.ofNat 256 n) = F (BitVec.ofNat 256 n) := fun n hn => movedBoundaries_fixed hk hL hU l u hn
  set moved := movedBoundaries keccak pool F parent time event.tickLower event.tickUpper l u
  have hindex : F.observationIndex < 2 ^ 16 := field_lt _ _ _
  have h4 : moved 4 = F 4 := hfixed 4 (by decide)
  have hliq : moved.liquidity = F.liquidity := by rw [Storage.liquidity, h4, Storage.liquidity]
  have hobs : moved (observationSlot F.observationIndex) = F (observationSlot F.observationIndex) := by
    rw [observationSlot_eq]
    exact hfixed _ (by omega)
  by_cases hr : event.tickLower ≤ F.tick ∧ F.tick < event.tickUpper
  · rw [if_pos ⟨delta_ne_zero ha, hr⟩, if_pos hr, hliq, hp.oracle.oracleWrite address moved hobs]
    simp only [Option.bind_some]
    rw [liquidity_eq hp.liquidity_lt]
    cases hn : addDelta (F 4).toNat event.delta with
    | none => rfl
    | some n => exact congrArg some (activeWrites_eq hp (hfixed 0 (by decide)) h4 hn address)
  · rw [if_neg fun h => hr h.2, if_neg hr]

/-- A batch for the pool that leaves the storage `F'`, with nothing unknown. -/
def Leaves (address : Address) (F F' : Storage) (transition : CanonicalLiquidityTransition) : Prop :=
  transition.coldSlots = [] ∧ (∀ u ∈ transition.updates, u.address = address) ∧ F.applyUpdates transition.updates = F'

theorem activeUpdates_address (ha : 0 < event.amount) {us : List StateUpdate}
    (h : activeUpdates address (.uniswap pool.tickSpacing) event parent = .ok us) : ∀ u ∈ us, u.address = address := by
  have h := (activeUpdates_eq_ok ha).mp h
  split_ifs at h
  · obtain ⟨n, -, -, rfl⟩ := h
    intro u hu
    unfold activeWrites at hu
    cases hw : parent.oracle.write with
    | none =>
      simp only [hw, List.nil_append, List.mem_singleton] at hu
      rw [hu]
    | some w =>
      simp only [hw, List.cons_append, List.nil_append, List.mem_cons, List.not_mem_nil, or_false] at hu
      rcases hu with rfl | rfl | rfl <;> rfl
  · subst h
    nofun

/-- The replay of a nonzero change runs with the contract's: both fail, or both leave the same storage. -/
theorem liquidityTransition_refines (hk : DistinctKeys keccak) (h : Holds state address F)
    (hT : TicksAgree keccak pool.tickSpacing F) (hp : ParentSpec pool F time parent) (ha : 0 < event.amount)
    (hL : InRange event.tickLower) (hU : InRange event.tickUpper) (haL : event.tickLower % pool.tickSpacing = 0)
    (haU : event.tickUpper % pool.tickSpacing = 0) (hlt : event.tickLower < event.tickUpper) :
    (∃ transition F', liquidityTransition keccak address (.uniswap pool.tickSpacing) state event parent time =
        .ok transition ∧
      modifyPosition keccak pool F (BitVec.ofNat 32 time) event.tickLower event.tickUpper event.delta = some F' ∧
      Leaves address F F' transition) ∨
    (∃ e, liquidityTransition keccak address (.uniswap pool.tickSpacing) state event parent time = .error e) ∧
      modifyPosition keccak pool F (BitVec.ofNat 32 time) event.tickLower event.tickUpper event.delta = none := by
  rw [modifyPosition_eq hk hT hp ha hL hU haL haU hlt address]
  have htick : parent.slot0.tick = F.tick := by rw [hp.slot0]; rfl
  cases hl : changeTick (grossAt keccak F event.tickLower) (netAt keccak F event.tickLower) event.delta false
      pool.maxLiquidityPerTick with
  | none =>
    obtain ⟨e, he⟩ := (resolveBoundary_of_holds h hT hp ha hL haL false).2 hl
    refine .inr ⟨⟨e, ?_⟩, rfl⟩
    unfold liquidityTransition
    simp only [he]
    rfl
  | some l =>
    cases hu : changeTick (grossAt keccak F event.tickUpper) (netAt keccak F event.tickUpper) event.delta true
        pool.maxLiquidityPerTick with
    | none =>
      obtain ⟨e, he⟩ := (resolveBoundary_of_holds h hT hp ha hU haU true).2 hu
      refine .inr ⟨⟨e, ?_⟩, rfl⟩
      unfold liquidityTransition
      simp only [he, (resolveBoundary_of_holds h hT hp ha hL haL false).1 l.1 l.2 hl]
      rfl
    | some u =>
      obtain ⟨batch, haddr, hbatch, heq⟩ := liquidityTransition_of_holds hk h hT hp ha hL hU haL haU hlt hl hu
      rw [heq]
      simp only [Option.bind_some]
      cases hactive : activeUpdates address (.uniswap pool.tickSpacing) event parent with
      | ok active =>
        have hok := (activeUpdates_eq_ok ha).mp hactive
        rw [htick, hp.liquidity] at hok
        refine .inl ⟨⟨batch ++ active, []⟩, F.applyUpdates (batch ++ active), rfl, ?_, rfl, ?_, rfl⟩
        · rw [Storage.applyUpdates_append, hbatch]
          split_ifs at hok ⊢ with hr
          · obtain ⟨n, hn, -, rfl⟩ := hok
            rw [hn]
            rfl
          · subst hok
            rfl
        · intro x hx
          rcases List.mem_append.mp hx with hx | hx
          · exact haddr x hx
          · exact activeUpdates_address ha hactive x hx
      | error e =>
        have hnot : ∀ us, ¬ activeUpdates address (.uniswap pool.tickSpacing) event parent = .ok us := by
          rw [hactive]
          nofun
        simp only [activeUpdates_eq_ok ha, htick, hp.liquidity] at hnot
        refine .inr ⟨⟨e, rfl⟩, ?_⟩
        split_ifs at hnot ⊢ with hr
        · cases hn : addDelta (F 4).toNat event.delta with
          | none => rfl
          | some n => exact absurd ⟨n, hn, addDelta_lt hp.liquidity_lt hn, rfl⟩ (hnot _)
        · exact absurd rfl (hnot _)

theorem checkLiquidityInputs_eq_ok {context : AdapterEventContext} {t : Nat} :
    checkLiquidityInputs (.uniswap pool.tickSpacing) event context = .ok t ↔
      validateContext context = .ok t ∧ 0 < pool.tickSpacing ∧ MIN_TICK ≤ event.tickLower ∧ event.tickUpper ≤ MAX_TICK ∧
        event.tickLower < event.tickUpper ∧ event.tickLower % pool.tickSpacing = 0 ∧
        event.tickUpper % pool.tickSpacing = 0 := by
  unfold checkLiquidityInputs
  simp only [bind_eq_ok, ensure_eq_ok, exists_const, pure_eq_ok]
  constructor
  · rintro ⟨t', hv, -, hs, hr, rfl⟩
    exact ⟨hv, hs, hr⟩
  · rintro ⟨hv, hs, hr⟩
    exact ⟨t, hv, rfl, hs, hr, rfl⟩

theorem validateContext_lt {context : AdapterEventContext} {t : Nat}
    (h : validateContext context = .ok t) : t < 2 ^ 32 := by
  unfold validateContext at h
  simp only [bind_eq_ok, ensure_eq_ok, exists_const, pure_eq_ok] at h
  obtain ⟨-, -, -, -, t', -, -, -, -, hlt, rfl⟩ := h
  exact hlt

/-- The contract's change of a valid range, by its amount. -/
theorem changeLiquidity_eq {t : BitVec 32} : changeLiquidity keccak pool F t event =
    if event.amount = 0 then
      if event.isMint = false ∧ event.tickLower < event.tickUpper ∧ MIN_TICK ≤ event.tickLower ∧ event.tickUpper ≤ MAX_TICK
      then some F else none
    else if event.amount < 2 ^ 127 then modifyPosition keccak pool F t event.tickLower event.tickUpper event.delta
    else none := by
  unfold changeLiquidity
  by_cases h0 : event.amount = 0
  · rw [if_pos h0]
    have hd : event.delta = 0 := by simp [DecodedLiquidity.delta, h0]
    by_cases hm : event.isMint = true
    · simp [h0, hm, guard]
    · have hm : event.isMint = false := by simpa using hm
      by_cases hr : event.tickLower < event.tickUpper ∧ MIN_TICK ≤ event.tickLower ∧ event.tickUpper ≤ MAX_TICK
      · simp [h0, hm, guard, hd, modifyPosition, updatePosition, hr]
      · simp [h0, hm, guard, hd, modifyPosition, hr]
  · have hpos : 0 < event.amount := Nat.pos_of_ne_zero h0
    rw [if_neg h0]
    split_ifs with hlt
    · simp only [guard, hpos, implies_true, hlt, if_true, pure, Option.bind_eq_bind, Option.bind_some]
    · simp only [guard, hpos, implies_true, hlt, if_true, if_false, pure, Option.bind_eq_bind, Option.bind_some]
      rfl

/-- What a successful replay on a full view says: its inputs are valid, and it leaves what the contract leaves. -/
theorem deriveUniswapV3Liquidity_sound (hk : DistinctKeys keccak) (hT : TicksAgree keccak pool.tickSpacing F)
    (hO : OracleReady F) (h : Holds state address F) {context : AdapterEventContext}
    {transition : CanonicalLiquidityTransition}
    (hok : deriveUniswapV3Liquidity keccak address (.uniswap pool.tickSpacing) state event context = .ok transition) :
    ∃ t F', checkLiquidityInputs (.uniswap pool.tickSpacing) event context = .ok t ∧
      changeLiquidity keccak pool F (BitVec.ofNat 32 t) event = some F' ∧ Leaves address F F' transition := by
  obtain ⟨t, hcheck, hok⟩ := bind_eq_ok.mp hok
  obtain ⟨hv, hs, hmin, hmax, hlt, haL, haU⟩ := checkLiquidityInputs_eq_ok.mp hcheck
  split_ifs at hok with h0
  · obtain ⟨_, hmint, hok⟩ := bind_eq_ok.mp hok
    obtain rfl := pure_eq_ok.mp hok
    exact ⟨t, F, hcheck, by rw [changeLiquidity_eq, if_pos h0, if_pos ⟨ensure_eq_ok.mp hmint, hlt, hmin, hmax⟩], rfl,
      fun _ hmem => (by cases hmem), rfl⟩
  · obtain ⟨_, hamount, hok⟩ := bind_eq_ok.mp hok
    obtain ⟨parent, hload, hok⟩ := bind_eq_ok.mp hok
    have hp := loadLiquidityParent_spec h hs hO (validateContext_lt hv) hload
    have hrun := liquidityTransition_refines hk h hT hp (Nat.pos_of_ne_zero h0) ⟨hmin, by omega⟩
      ⟨by omega, hmax⟩ haL haU hlt
    rcases hrun with ⟨transition', F', hok', hF', hleaves⟩ | ⟨⟨e, he⟩, -⟩
    · obtain rfl := Except.ok.inj (hok.symm.trans hok')
      exact ⟨t, F', hcheck, by rw [changeLiquidity_eq, if_neg h0, if_pos (ensure_eq_ok.mp hamount), hF'], hleaves⟩
    · rw [he] at hok
      cases hok

/-- From a well-formed pool, the replay succeeds where the contract does. -/
theorem deriveUniswapV3Liquidity_complete (hk : DistinctKeys keccak) (hF : WellFormed keccak pool F)
    (h : Holds state address F) {context : AdapterEventContext} (hc : validateContext context = .ok time)
    (hlt : event.tickLower < event.tickUpper) (haL : event.tickLower % pool.tickSpacing = 0)
    (haU : event.tickUpper % pool.tickSpacing = 0) {F' : Storage}
    (hrun : changeLiquidity keccak pool F (BitVec.ofNat 32 time) event = some F') :
    ∃ transition, deriveUniswapV3Liquidity keccak address (.uniswap pool.tickSpacing) state event context =
      .ok transition := by
  have hs := hF.spacing_pos
  rw [changeLiquidity_eq] at hrun
  unfold deriveUniswapV3Liquidity
  split_ifs at hrun with h0 hburn hsmall
  · obtain ⟨hmint, -, hmin, hmax⟩ := hburn
    refine ⟨⟨[], []⟩, ?_⟩
    rw [checkLiquidityInputs_eq_ok.mpr ⟨hc, hs, hmin, hmax, hlt, haL, haU⟩, ok_bind, if_pos h0, ensure_bind hmint]
    rfl
  · have hr : MIN_TICK ≤ event.tickLower ∧ event.tickUpper ≤ MAX_TICK := by
      by_contra hr
      have : ¬ (event.tickLower < event.tickUpper ∧ MIN_TICK ≤ event.tickLower ∧ event.tickUpper ≤ MAX_TICK) :=
        fun h => hr h.2
      simp [modifyPosition, guard, this] at hrun
    obtain ⟨parent, hload⟩ := loadLiquidityParent_of h hF (validateContext_lt hc)
    have hp := loadLiquidityParent_spec h hs hF.oracle (validateContext_lt hc) hload
    have hboth := liquidityTransition_refines hk h hF.ticks hp (Nat.pos_of_ne_zero h0) ⟨hr.1, by omega⟩ ⟨by omega, hr.2⟩
      haL haU hlt
    rcases hboth with ⟨transition, F'', hok, -, -⟩ | ⟨-, hnone⟩
    · refine ⟨transition, ?_⟩
      rw [checkLiquidityInputs_eq_ok.mpr ⟨hc, hs, hr.1, hr.2, hlt, haL, haU⟩, ok_bind, if_neg h0, ensure_bind hsmall,
        hload, ok_bind, hok]
    · rw [hnone] at hrun
      cases hrun

/-- From a well-formed pool held in full, the replay of a `Mint` or a `Burn` succeeds exactly where the contract does, and
    its batch leaves the contract's storage. -/
theorem deriveUniswapV3Liquidity_refines (hk : DistinctKeys keccak) (hF : WellFormed keccak pool F)
    (h : Holds state address F) {context : AdapterEventContext} (hc : validateContext context = .ok time)
    (hlt : event.tickLower < event.tickUpper) (haL : event.tickLower % pool.tickSpacing = 0)
    (haU : event.tickUpper % pool.tickSpacing = 0) :
    ((∃ transition, deriveUniswapV3Liquidity keccak address (.uniswap pool.tickSpacing) state event context =
        .ok transition) ↔
      ∃ F', changeLiquidity keccak pool F (BitVec.ofNat 32 time) event = some F') ∧
    ∀ transition F', deriveUniswapV3Liquidity keccak address (.uniswap pool.tickSpacing) state event context =
        .ok transition →
      changeLiquidity keccak pool F (BitVec.ofNat 32 time) event = some F' →
      transition.coldSlots = [] ∧ Holds (state.applyUpdates transition.updates) address F' := by
  have hsound : ∀ transition, deriveUniswapV3Liquidity keccak address (.uniswap pool.tickSpacing) state event context =
      .ok transition → ∃ F', changeLiquidity keccak pool F (BitVec.ofNat 32 time) event = some F' ∧
        Leaves address F F' transition := by
    intro transition hok
    obtain ⟨t, F', hcheck, hrun, hleaves⟩ := deriveUniswapV3Liquidity_sound hk hF.ticks hF.oracle h hok
    obtain rfl := Except.ok.inj (hc.symm.trans (checkLiquidityInputs_eq_ok.mp hcheck).1)
    exact ⟨F', hrun, hleaves⟩
  refine ⟨⟨fun ⟨transition, hok⟩ => ?_, fun ⟨F', hrun⟩ => ?_⟩, fun transition F' hok hrun => ?_⟩
  · obtain ⟨F', hrun, -⟩ := hsound transition hok
    exact ⟨F', hrun⟩
  · exact deriveUniswapV3Liquidity_complete hk hF h hc hlt haL haU hrun
  · obtain ⟨F'', hrun', hcold, haddr, hupd⟩ := hsound transition hok
    obtain rfl := Option.some.inj (hrun.symm.trans hrun')
    exact ⟨hcold, hupd ▸ h.applyUpdates haddr⟩

end

/-- A mint around the current tick, both boundaries in one bitmap word. -/
def mintAt90 : DecodedLiquidity := ⟨60, 120, 5, true⟩

theorem deriveUniswapV3Liquidity_refines_mint :
    (∃ F', changeLiquidity tabulatedKeccak ⟨3000, 60⟩ poolAt90 (BitVec.ofNat 32 1012) mintAt90 = some F') ∧
    ((∃ transition, deriveUniswapV3Liquidity tabulatedKeccak 7 (.uniswap 60) (viewOf poolAt90) mintAt90 (contextAt 1012) =
        .ok transition) ↔
      ∃ F', changeLiquidity tabulatedKeccak ⟨3000, 60⟩ poolAt90 (BitVec.ofNat 32 1012) mintAt90 = some F') :=
  ⟨Option.isSome_iff_exists.mp (by decide +kernel),
    (deriveUniswapV3Liquidity_refines tabulatedKeccak_distinct poolAt90_wellFormed (fun _ => rfl) rfl (by decide)
      (by decide) (by decide)).1⟩

end AmmState.Canonical
