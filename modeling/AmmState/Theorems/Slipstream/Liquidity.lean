import AmmState.Slipstream.Pool
import AmmState.Slipstream.Tabulated
import AmmState.Theorems.V3.Liquidity

/-! The replay of a Slipstream `Mint` or `Burn` against the contract: from a pool held in full, it succeeds where
    `_modifyPosition` does and leaves the same storage; on the words that both layouts have, its tick update is the
    canonical one. -/

namespace AmmState.Slipstream.Pool
open V3 Canonical Checked

/-! ### Cells of a tick -/

section Cells
variable {keccak : Keccak} {F G : Storage} {t : Int} {w : SlipstreamTickWords} {x : U256}

theorem mem_tickCells : x ∈ (tickCells keccak t w).map Prod.fst ↔ ∃ i < 6, x = tickSlot keccak t i := by
  have hkeys : (tickCells keccak t w).map Prod.fst = [0, 1, 2, 3, 4, 5].map (tickSlot keccak t) := rfl
  rw [hkeys]
  constructor
  · intro h
    obtain ⟨i, hi, rfl⟩ := List.mem_map.mp h
    exact ⟨i, by simp at hi; omega, rfl⟩
  · rintro ⟨i, hi, rfl⟩
    exact List.mem_map_of_mem (by simp; omega)

/-- Where a slot is no word of the tick, a write to the tick leaves it. -/
theorem setTickInfo_of_ne (h : ∀ i < 6, x ≠ tickSlot keccak t i) : setTickInfo keccak F t w x = F x :=
  Writes.write_of_notMem fun hx =>
    let ⟨i, hi, heq⟩ := mem_tickCells.mp hx
    h i hi heq

theorem setTickInfo_congr (h : F x = G x) : setTickInfo keccak F t w x = setTickInfo keccak G t w x := Writes.write_congr h

theorem tickInfo_congr (h : ∀ i < 6, F (tickSlot keccak t i) = G (tickSlot keccak t i)) :
    tickInfo keccak F t = tickInfo keccak G t := by
  simp only [tickInfo]
  rw [h 0 (by omega), h 1 (by omega), h 2 (by omega), h 3 (by omega), h 4 (by omega), h 5 (by omega)]

theorem setTickInfo_setTickInfo (w' : SlipstreamTickWords) :
    setTickInfo keccak (setTickInfo keccak F t w) t w' = setTickInfo keccak F t w' :=
  Writes.write_write fun _ hx => mem_tickCells.mpr (mem_tickCells.mp hx)

theorem setTickInfo_update (v : U256) (h : ∀ i < 6, x ≠ tickSlot keccak t i) :
    setTickInfo keccak (Function.update F x v) t w = Function.update (setTickInfo keccak F t w) x v :=
  Writes.write_update v fun hx =>
    let ⟨i, hi, heq⟩ := mem_tickCells.mp hx
    h i hi heq

/-- The writes of a tick are one batch of updates. -/
theorem applyUpdates_tick (F : Storage) (address : Address) (update : LiquidityTickUpdate)
    (h : update.keys = slipstreamTickInfoStorageKeysWithBase keccak t SLIPSTREAM_TICKS_BASE_SLOT) :
    F.applyUpdates (slipstreamTickUpdates address update) = setTickInfo keccak F t update.words := by
  unfold slipstreamTickUpdates
  rw [h]
  rfl

variable (hk : DistinctKeys keccak)
include hk

theorem setTickInfo_comm {s : Int} (hs : InRange s) (ht : InRange t) (hne : s ≠ t) (w w' : SlipstreamTickWords) :
    setTickInfo keccak (setTickInfo keccak F s w) t w' = setTickInfo keccak (setTickInfo keccak F t w') s w := by
  refine Writes.write_comm fun x hx hx' => ?_
  obtain ⟨i, hi, rfl⟩ := mem_tickCells.mp hx
  obtain ⟨j, hj, heq⟩ := mem_tickCells.mp hx'
  exact hne (hk.tick_inj hs ht hi hj heq).1

theorem tickInfo_setTickInfo_of_ne {s : Int} (hs : InRange s) (ht : InRange t) (hne : t ≠ s) (w : SlipstreamTickWords) :
    tickInfo keccak (setTickInfo keccak F s w) t = tickInfo keccak F t :=
  tickInfo_congr fun _ hi => setTickInfo_of_ne fun _ hj heq => hne (hk.tick_inj ht hs hi hj heq).1

/-- A fixed cell or an observation is no word of a tick. -/
theorem setTickInfo_fixed (ht : InRange t) {n : Nat} (hn : n < 2 ^ 17) (w : SlipstreamTickWords) :
    setTickInfo keccak F t w (BitVec.ofNat 256 n) = F (BitVec.ofNat 256 n) :=
  setTickInfo_of_ne fun _ hi heq => hk.tick_ne_fixed ht hi hn heq.symm

theorem setTickInfo_bitmap (ht : InRange t) (w : SlipstreamTickWords) (v : BitVec 16) :
    setTickInfo keccak F t w (bitmapSlot keccak v) = F (bitmapSlot keccak v) :=
  setTickInfo_of_ne fun _ hi heq => hk.tick_ne_bitmap ht hi heq.symm

end Cells

/-! ### Words of a tick -/

section
variable {keccak : Keccak} {family : SlipstreamRuntimeFamily} {F : Storage} {time : Nat}
  {parent : SlipstreamLiquidityParent}

/-- What a liquidity change reads of the pool is what the storage holds. -/
structure ParentSpec (family : SlipstreamRuntimeFamily) (F : Storage) (time : Nat) (parent : SlipstreamLiquidityParent) :
    Prop where
  slot0 : parent.slot0 = Slot0.decode (slot0 F)
  liquidity : parent.liquidity = liquidity F
  maxLiquidity : parent.maxLiquidityPerTick = maxLiquidityPerTick F
  oracle : Advanced 20 (Slot0.decode (Pool.slot0 F)) (F (observationSlot (observationIndex F))) time (Pool.liquidity F)
    parent.oracle
  feeGrowth0 : parent.feeGrowth0 = feeGrowthGlobal0 F
  feeGrowth1 : parent.feeGrowth1 = feeGrowthGlobal1 F
  rewardGrowth : parent.initialRewardGrowth = if startsRewardGrowth family then rewardGrowthGlobal F else 0

theorem ParentSpec.tick (hp : ParentSpec family F time parent) : parent.slot0.tick = Pool.tick F := by
  rw [hp.slot0]
  rfl

theorem readObservation_reads {G : Storage} {index : Nat} {raw : U256} (h : G (observationSlot index) = raw) :
    (readObservation G index).Reads raw := by
  rw [OracleEntry.Reads, OracleEntry.ofWord, ofObservation_decode, readObservation, h]

/-- The reading of now that new ticks start from. -/
abbrev now (F : Storage) (time : Nat) : OracleEntry :=
  observeSingle F (BitVec.ofNat 32 time) (tick F) (observationIndex F) (liquidity F)

/-- The first words of an empty tick, as the contract fills them field by field. -/
theorem initializeTick_zero (hp : ParentSpec family F time parent) (t : Int) :
    initializeTick family SlipstreamTickWords.zero t (tick F) (feeGrowthGlobal0 F) (feeGrowthGlobal1 F)
        (rewardGrowthGlobal F) (now F time) (BitVec.ofNat 32 time) =
      initializeSlipstreamWords SlipstreamTickWords.zero t parent time := by
  obtain ⟨hcum, hspl⟩ := hp.oracle.observe (readObservation_reads (rfl : F _ = _))
  have hcum : (now F time).tickCumulative = BitVec.ofInt 56 parent.oracle.now.tickCumulative := hcum
  have hspl : (now F time).secondsPerLiquidityCumulativeX128 =
    BitVec.ofNat 160 parent.oracle.now.secondsPerLiquidityCumulativeX128 := hspl
  unfold initializeTick initializeSlipstreamWords
  rw [hcum, hspl, hp.tick, hp.feeGrowth0, hp.feeGrowth1, hp.rewardGrowth]
  by_cases ht : t ≤ tick F
  · simp only [ht, if_true, SlipstreamTickWords.zero]
    rw [@Packed.set_comm _ _ _ (0 : U256) 56 0 _ _ (by omega)]
  · simp only [ht, if_false, SlipstreamTickWords.zero]

/-- The words that `Tick.update` leaves, before a tick that empties is cleared. -/
def changedWords (info : SlipstreamTickWords) (t : Int) (parent : SlipstreamLiquidityParent) (timestamp gross : Nat)
    (net : Int) : SlipstreamTickWords :=
  let info := if tickGross info.word0 = 0 then initializeSlipstreamWords info t parent timestamp else info
  { info with word0 := liquidityWord gross net }

/-- The outcome of `Tick.update` for the two liquidity fields. -/
abbrev changeAt (keccak : Keccak) (F : Storage) (t delta : Int) (upper : Bool) : Option (Nat × Int) :=
  changeTick (grossAt keccak F t) (netAt keccak F t) delta upper (maxLiquidityPerTick F)

/-- Whether the new gross liquidity flips a tick. -/
abbrev flips (keccak : Keccak) (F : Storage) (t : Int) (gross : Nat) : Bool :=
  decide (gross = 0) != decide (grossAt keccak F t = 0)

/-- `Tick.update` by its outcome, from any storage with this tick's words. -/
theorem tickUpdate_eq (hT : TicksAgree keccak F) (hp : ParentSpec family F time parent) {t : Int} (ht : InRange t)
    {G : Storage} (hG : tickInfo keccak G t = tickInfo keccak F t) (delta : Int) (upper : Bool) :
    tickUpdate keccak family G t (tick F) delta (feeGrowthGlobal0 F) (feeGrowthGlobal1 F) (rewardGrowthGlobal F)
        (now F time) (BitVec.ofNat 32 time) upper (maxLiquidityPerTick F) =
      (changeAt keccak F t delta upper).map fun (g, n) =>
        (setTickInfo keccak G t (changedWords (tickInfo keccak F t) t parent time g n), flips keccak F t g) := by
  set info := tickInfo keccak F t with hinfo
  set info' := if tickGross info.word0 = 0
    then initializeTick family info t (tick F) (feeGrowthGlobal0 F) (feeGrowthGlobal1 F) (rewardGrowthGlobal F) (now F time)
      (BitVec.ofNat 32 time) else info with hinfo'
  have hword : ∀ gross net, { info' with
      word0 := Packed.set (Packed.set info'.word0 0 (BitVec.ofNat 128 gross)) 128 (BitVec.ofInt 128 net) } =
        changedWords info t parent time gross net := by
    intro gross net
    rw [set_halves, hinfo', changedWords]
    by_cases hg : tickGross info.word0 = 0
    · have hzero : info = SlipstreamTickWords.zero := hT.empty t ht hg
      rw [if_pos hg, if_pos hg, hzero, initializeTick_zero hp]
      rfl
    · rw [if_neg hg, if_neg hg]
      rfl
  have hnet : tickNet info'.word0 = netAt keccak F t := by
    rw [hinfo']
    unfold initializeTick
    split_ifs <;> rfl
  have hstart : tickUpdate keccak family G t (tick F) delta (feeGrowthGlobal0 F) (feeGrowthGlobal1 F) (rewardGrowthGlobal F)
      (now F time) (BitVec.ofNat 32 time) upper (maxLiquidityPerTick F) =
        (addDelta (grossAt keccak F t) delta).bind fun g =>
        (guard (g ≤ maxLiquidityPerTick F) : Option Unit).bind fun _ =>
          (toInt128 (tickNet info'.word0 + if upper then -delta else delta)).bind fun n =>
            some (setTickInfo keccak G t { info' with
              word0 := Packed.set (Packed.set info'.word0 0 (BitVec.ofNat 128 g)) 128 (BitVec.ofInt 128 n) },
              flips keccak F t g) := by
    unfold tickUpdate
    rw [hG]
    rfl
  rw [hstart, hnet, changeAt, changeTick]
  cases addDelta (grossAt keccak F t) delta with
  | none => rfl
  | some g =>
    by_cases hg : g ≤ maxLiquidityPerTick F
    · cases hn : toInt128 (netAt keccak F t + if upper then -delta else delta) with
      | none => simp
      | some n => simp [hg, hword]
    · simp [guard, hg]

/-! ### Bitmap flips -/

/-- The storage with the bit of a tick toggled where the tick flips. -/
def flipCell (keccak : Keccak) (spacing : Int) (flipped : Bool) (F : Storage) (t : Int) : Storage :=
  let slot := bitmapSlot keccak (v3WordPosition t spacing)
  if flipped then Function.update F slot (F slot ^^^ (1 : U256) <<< (t / spacing % 256).toNat) else F

theorem flipTick_eq {spacing t : Int} (ha : t % spacing = 0) (flipped : Bool) (G : Storage) :
    (if flipped then flipTick keccak G t spacing else some G) = some (flipCell keccak spacing flipped G t) := by
  cases flipped with
  | false => rfl
  | true => simp [flipTick, flipCell, ha, v3WordPosition]

theorem flipCell_of_ne {spacing t : Int} {flipped : Bool} {G : Storage} {x : U256}
    (h : x ≠ bitmapSlot keccak (v3WordPosition t spacing)) : flipCell keccak spacing flipped G t x = G x := by
  unfold flipCell
  split_ifs
  · exact Function.update_of_ne h _ _
  · rfl

theorem flipCell_setTickInfo (hk : DistinctKeys keccak) {spacing s t : Int} (hs : InRange s) (flipped : Bool) (G : Storage)
    (w : SlipstreamTickWords) : flipCell keccak spacing flipped (setTickInfo keccak G s w) t =
      setTickInfo keccak (flipCell keccak spacing flipped G t) s w := by
  cases flipped with
  | false => rfl
  | true =>
    unfold flipCell
    simp only [if_true]
    rw [setTickInfo_bitmap hk hs, setTickInfo_update _ fun i hi h => hk.tick_ne_bitmap hs hi h.symm]

/-- On well-formed ticks, the bit of an aligned tick is its gross liquidity. -/
theorem bit_of_aligned (hT : TicksAgree keccak F) (hs : 0 < tickSpacing F) {t : Int} (ht : InRange t)
    (ha : t % tickSpacing F = 0) : bitSet keccak F (t / tickSpacing F) = true ↔ grossAt keccak F t ≠ 0 := by
  have hr := compressed_range hs ht
  rw [hT.bit_iff _ hr.1 hr.2, ediv_mul_of_aligned ha]
  exact and_iff_right ht

/-- A flip of another tick leaves the bit of this one. -/
theorem flipCell_bit (hk : DistinctKeys keccak) {spacing s t : Int} (hs : 0 < spacing) (hsr : InRange s) (htr : InRange t)
    (hsa : s % spacing = 0) (hta : t % spacing = 0) (hne : s ≠ t) (flipped : Bool) :
    bitSet keccak (flipCell keccak spacing flipped F s) (t / spacing) = bitSet keccak F (t / spacing) :=
  toggled_bit hk.bitmap_inj hs hsr htr hsa hta hne flipped F

/-! ### The tick writes of a position change -/

/-- Both boundaries after a change, and the flips between. -/
def movedBoundaries (keccak : Keccak) (F : Storage) (parent : SlipstreamLiquidityParent) (time : Nat)
    (tickLower tickUpper : Int) (lower upper : Nat × Int) : Storage :=
  let flip (t : Int) (g : Nat) (G : Storage) := flipCell keccak (tickSpacing F) (flips keccak F t g) G t
  let write (t : Int) (r : Nat × Int) (G : Storage) :=
    setTickInfo keccak G t (changedSlipstreamTickWords (tickInfo keccak F t) t parent time r.1 r.2)
  write tickUpper upper (write tickLower lower (flip tickUpper upper.1 (flip tickLower lower.1 F)))

theorem changedSlipstreamTickWords_eq (info : SlipstreamTickWords) (t : Int) (timestamp gross : Nat) (net : Int) :
    changedSlipstreamTickWords info t parent timestamp gross net =
      if gross = 0 then SlipstreamTickWords.zero else changedWords info t parent timestamp gross net := by
  unfold changedSlipstreamTickWords changedWords
  by_cases hg : gross = 0
  · simp [hg]
  · simp [hg]

/-- Clearing a tick after a write is the write of its final words. -/
theorem clear_written (G : Storage) (t : Int) (w : SlipstreamTickWords) (g : Nat) :
    (if g = 0 then tickClear keccak (setTickInfo keccak G t w) t else setTickInfo keccak G t w) =
      setTickInfo keccak G t (if g = 0 then SlipstreamTickWords.zero else w) := by
  split_ifs
  · exact setTickInfo_setTickInfo _
  · rfl

/-- The same for the tick below, written before. -/
theorem clear_lower (hk : DistinctKeys keccak) {s t : Int} (hs : InRange s) (ht : InRange t) (h : s ≠ t) (G : Storage)
    (w w' : SlipstreamTickWords) (g : Nat) :
    (if g = 0 then tickClear keccak (setTickInfo keccak (setTickInfo keccak G s w) t w') s
      else setTickInfo keccak (setTickInfo keccak G s w) t w') =
        setTickInfo keccak (setTickInfo keccak G s (if g = 0 then SlipstreamTickWords.zero else w)) t w' := by
  split_ifs
  · rw [tickClear, ← setTickInfo_comm hk hs ht h, setTickInfo_setTickInfo]
  · rfl

section Position
variable {tickLower tickUpper delta : Int}

/-- The tick writes up to the flips, which an unaligned tick that flips reverts. -/
theorem updatePosition_flips (hk : DistinctKeys keccak) (hT : TicksAgree keccak F) (hp : ParentSpec family F time parent)
    (hL : InRange tickLower) (hU : InRange tickUpper) (hlt : tickLower < tickUpper) (hd : delta ≠ 0) :
    updatePosition keccak family F (BitVec.ofNat 32 time) tickLower tickUpper delta =
      (changeAt keccak F tickLower delta false).bind fun l => (changeAt keccak F tickUpper delta true).bind fun u =>
        let written := setTickInfo keccak
          (setTickInfo keccak F tickLower (changedWords (tickInfo keccak F tickLower) tickLower parent time l.1 l.2))
          tickUpper (changedWords (tickInfo keccak F tickUpper) tickUpper parent time u.1 u.2)
        (if flips keccak F tickLower l.1 then flipTick keccak written tickLower (tickSpacing F) else some written).bind
          fun G => (if flips keccak F tickUpper u.1 then flipTick keccak G tickUpper (tickSpacing F) else some G).bind
            fun G => if delta < 0 then
              let G := if flips keccak F tickLower l.1 then tickClear keccak G tickLower else G
              some (if flips keccak F tickUpper u.1 then tickClear keccak G tickUpper else G)
            else some G := by
  unfold updatePosition
  rw [if_neg hd]
  simp only [Option.bind_eq_bind]
  rw [tickUpdate_eq hT hp hL rfl]
  cases changeAt keccak F tickLower delta false with
  | none => rfl
  | some l =>
    simp only [Option.map_some, Option.bind_some]
    rw [tickUpdate_eq hT hp hU (tickInfo_setTickInfo_of_ne hk hL hU hlt.ne' _)]
    cases changeAt keccak F tickUpper delta true with
    | none => rfl
    | some u => rfl

/-- The tick writes of a position change, from those of its two boundaries. -/
theorem updatePosition_eq (hk : DistinctKeys keccak) (hT : TicksAgree keccak F) (hp : ParentSpec family F time parent)
    (hL : InRange tickLower) (hU : InRange tickUpper) (haL : tickLower % tickSpacing F = 0)
    (haU : tickUpper % tickSpacing F = 0) (hlt : tickLower < tickUpper) (hd : delta ≠ 0) :
    updatePosition keccak family F (BitVec.ofNat 32 time) tickLower tickUpper delta =
      (changeAt keccak F tickLower delta false).bind fun l => (changeAt keccak F tickUpper delta true).bind fun u =>
        some (movedBoundaries keccak F parent time tickLower tickUpper l u) := by
  rw [updatePosition_flips hk hT hp hL hU hlt hd]
  cases hcL : changeAt keccak F tickLower delta false with
  | none => rfl
  | some l =>
    cases hcU : changeAt keccak F tickUpper delta true with
    | none => rfl
    | some u =>
      obtain ⟨gL, nL⟩ := l
      obtain ⟨gU, nU⟩ := u
      simp only [Option.bind_some]
      rw [flipTick_eq haL]
      simp only [Option.bind_some]
      rw [flipTick_eq haU]
      simp only [Option.bind_some, flipCell_setTickInfo hk hU, flipCell_setTickInfo hk hL]
      unfold movedBoundaries
      simp only [changedSlipstreamTickWords_eq]
      by_cases hneg : delta < 0
      · rw [if_pos hneg, flips, flips, changeTick_burn hcL hneg, changeTick_burn hcU hneg]
        simp only [decide_eq_true_eq, clear_lower hk hL hU hlt.ne, clear_written]
      · rw [if_neg hneg, if_neg (changeTick_mint hcL (by omega)), if_neg (changeTick_mint hcU (by omega))]

/-- A change of a tick that is not aligned flips it, from nothing. -/
theorem flips_of_unaligned (hT : TicksAgree keccak F) {t : Int} (ht : InRange t)
    (ha : t % tickSpacing F ≠ 0) (hd : delta ≠ 0) {upper : Bool} {g : Nat} {n : Int}
    (h : changeAt keccak F t delta upper = some (g, n)) : flips keccak F t g = true := by
  have hgross : grossAt keccak F t = 0 := by
    by_contra hg
    exact ha (hT.aligned t ht hg)
  obtain ⟨hadd, -⟩ := changeTick_eq_some.mp h
  have hg : g ≠ 0 := by
    rw [hgross] at hadd
    unfold addDelta at hadd
    split_ifs at hadd <;> simp only [Option.some.injEq] at hadd <;> omega
  simp [flips, hgross, hg]

/-- On a range that is not aligned, no position is ever changed. -/
theorem updatePosition_unaligned (hk : DistinctKeys keccak) (hT : TicksAgree keccak F)
    (hp : ParentSpec family F time parent) (hL : InRange tickLower) (hU : InRange tickUpper) (hlt : tickLower < tickUpper)
    (hd : delta ≠ 0) (ha : ¬ (tickLower % tickSpacing F = 0 ∧ tickUpper % tickSpacing F = 0)) :
    updatePosition keccak family F (BitVec.ofNat 32 time) tickLower tickUpper delta = none := by
  have hrevert : ∀ {t : Int} (G : Storage), t % tickSpacing F ≠ 0 → flipTick keccak G t (tickSpacing F) = none :=
    fun G h => by simp [flipTick, guard, h]
  rw [updatePosition_flips hk hT hp hL hU hlt hd]
  cases hcL : changeAt keccak F tickLower delta false with
  | none => rfl
  | some l =>
    cases hcU : changeAt keccak F tickUpper delta true with
    | none => rfl
    | some u =>
      simp only [Option.bind_some]
      by_cases haL : tickLower % tickSpacing F = 0
      · rw [flipTick_eq haL, Option.bind_some, if_pos (flips_of_unaligned hT hU (fun haU => ha ⟨haL, haU⟩) hd hcU),
          hrevert _ fun haU => ha ⟨haL, haU⟩]
        rfl
      · rw [if_pos (flips_of_unaligned hT hL haL hd hcL), hrevert _ haL]
        rfl

end Position

/-! ### The replay of one boundary -/

section Replay
variable {state : StateView} {address : Address} {event : DecodedLiquidity} {spacing : Int}

/-- The update of a boundary whose new gross and net liquidity are known. -/
def tickUpdateOf (keccak : Keccak) (F : Storage) (parent : SlipstreamLiquidityParent) (time : Nat) (t : Int)
    (r : Nat × Int) : LiquidityTickUpdate where
  tick := t
  keys := slipstreamTickInfoStorageKeysWithBase keccak t SLIPSTREAM_TICKS_BASE_SLOT
  words := changedSlipstreamTickWords (tickInfo keccak F t) t parent time r.1 r.2
  wasInitialized := decide (grossAt keccak F t ≠ 0)
  isInitialized := decide (r.1 ≠ 0)

theorem loadSlipstreamTickWords_of_holds (h : Holds state address F) (t : Int) :
    loadSlipstreamTickWords keccak address (.slipstream spacing) state t = .ok (tickInfo keccak F t) := by
  unfold loadSlipstreamTickWords
  simp only [h.required, ok_bind]
  rfl

theorem checkSlipstreamTickWords_of (hT : TicksAgree keccak F) {t : Int} (ht : InRange t) :
    checkSlipstreamTickWords t (tickInfo keccak F t) = .ok () := by
  have hflag : tickFlag (tickInfo keccak F t).word5 = 1 ↔ tickGross (tickInfo keccak F t).word0 ≠ 0 := hT.flag_iff t ht
  unfold checkSlipstreamTickWords
  rw [ensure_bind (by simp only [hflag]), ensure_of]
  by_cases hg : tickGross (tickInfo keccak F t).word0 = 0
  · exact .inr (hT.empty t ht hg)
  · exact .inl (by simp [hg])

/-- On a well-formed tick, the update is its change of liquidity. -/
theorem updateSlipstreamLiquidityTick_of_holds (h : Holds state address F) (hT : TicksAgree keccak F) {t : Int}
    (ht : InRange t) (upper : Bool) :
    updateSlipstreamLiquidityTick keccak address (.slipstream spacing) state event parent time t upper =
      changeTickLiquidity event parent.maxLiquidityPerTick upper (tickInfo keccak F t).word0 >>= fun r =>
        .ok (tickUpdateOf keccak F parent time t r) := by
  unfold updateSlipstreamLiquidityTick
  rw [loadSlipstreamTickWords_of_holds h, ok_bind, checkSlipstreamTickWords_of hT ht, ok_bind]
  rfl

/-- It succeeds where `Tick.update` does. -/
theorem updateSlipstreamLiquidityTick_eq_ok (h : Holds state address F) (hT : TicksAgree keccak F)
    (hp : ParentSpec family F time parent) (hamount : 0 < event.amount) {t : Int} (ht : InRange t) {upper : Bool}
    {update : LiquidityTickUpdate} :
    updateSlipstreamLiquidityTick keccak address (.slipstream spacing) state event parent time t upper = .ok update ↔
      ∃ r, changeAt keccak F t event.delta upper = some r ∧ tickUpdateOf keccak F parent time t r = update := by
  rw [updateSlipstreamLiquidityTick_of_holds h hT ht, bind_eq_ok, hp.maxLiquidity]
  exact exists_congr fun r => and_congr (changeTickLiquidity_eq_ok hamount (field_lt _ _ _)) pure_eq_ok

/-! ### The words of both layouts -/

theorem initializeWords_shared (words : SlipstreamTickWords) (t : Int) :
    initializeWords words.shared t parent.slot0.tick parent.feeGrowth0 parent.feeGrowth1 parent.oracle.now time =
      (initializeSlipstreamWords words t parent time).shared := by
  unfold initializeWords initializeSlipstreamWords
  split_ifs <;> rfl

theorem changedTickWords_shared (words : SlipstreamTickWords) (t : Int) (r : Nat × Int) :
    changedTickWords words.shared t parent.toLiquidityParent time r.1 r.2 =
      (changedSlipstreamTickWords words t parent time r.1 r.2).shared := by
  unfold changedTickWords changedSlipstreamTickWords
  simp only [initializeWords_shared]
  by_cases hg : r.1 = 0
  · simp only [hg, ne_eq, not_true, decide_false, Bool.false_eq_true, if_false]
    rfl
  · by_cases hw : tickGross words.word0 = 0
    · simp only [show tickGross words.shared.word0 = tickGross words.word0 from rfl, hg, hw, ne_eq, not_true, not_false_iff,
        decide_false, decide_true, and_self, if_true]
      rfl
    · simp only [show tickGross words.shared.word0 = tickGross words.word0 from rfl, hg, hw, ne_eq, not_false_iff,
        decide_true, Bool.true_eq_false, false_and, if_true, if_false]
      rfl

/-- What a tick update comes to on the words of a canonical `Tick.Info`. -/
def sharedUpdate (update : LiquidityTickUpdate) : TickWords × Bool × Bool :=
  (update.words.shared, update.wasInitialized, update.isInitialized)

def canonicalUpdate (update : CanonicalTickUpdate) : TickWords × Bool × Bool :=
  (update.words, update.wasInitialized, update.isInitialized)

/-- A canonical pool that holds the shared words of a tick updates them alike: the same words and flags, the same error. -/
theorem updateSlipstreamLiquidityTick_shared (h : Holds state address F) (hT : TicksAgree keccak F)
    {t : Int} (ht : InRange t) {canonical : StateView} {canonicalAddress : Address} {layout : V3StorageLayout}
    (hload : loadTickWords keccak canonicalAddress layout canonical t = .ok (tickInfo keccak F t).shared) (upper : Bool) :
    sharedUpdate <$> updateSlipstreamLiquidityTick keccak address (.slipstream spacing) state event parent time t upper =
      canonicalUpdate <$> updateCanonicalLiquidityTick keccak canonicalAddress layout canonical event
        parent.toLiquidityParent time t upper (decide (grossAt keccak F t ≠ 0)) := by
  have hflag : tickFlag (tickInfo keccak F t).shared.word3 = 1 ↔ tickGross (tickInfo keccak F t).shared.word0 ≠ 0 :=
    hT.flag_iff t ht
  have hzero : grossAt keccak F t = 0 → (tickInfo keccak F t).shared = TickWords.zero := fun hg => by
    rw [hT.empty t ht hg]
    rfl
  have hwords : boundaryWords keccak canonicalAddress layout canonical t (decide (grossAt keccak F t ≠ 0)) =
      .ok (tickInfo keccak F t).shared := by
    unfold boundaryWords
    by_cases hg : grossAt keccak F t = 0
    · obtain ⟨word0, hword0, hrest⟩ := bind_eq_ok.mp hload
      obtain ⟨_, -, hrest⟩ := bind_eq_ok.mp hrest
      obtain ⟨_, -, hrest⟩ := bind_eq_ok.mp hrest
      obtain ⟨_, -, hrest⟩ := bind_eq_ok.mp hrest
      have hfirst : word0 = 0 := by rw [hzero hg] at hrest; exact congrArg TickWords.word0 (pure_eq_ok.mp hrest)
      rw [if_neg (by simp [hg]), hzero hg, ensure_bind]
      · rfl
      · rw [required_eq_ok.mp hword0, hfirst]
        rfl
    · rw [if_pos (by simp [hg]), hload]
  have hcheck : checkTickWords t (tickInfo keccak F t).shared = .ok () := by
    unfold checkTickWords
    rw [ensure_bind (by simp only [hflag]), ensure_of]
    by_cases hg : grossAt keccak F t = 0
    · exact .inr (hzero hg)
    · exact .inl (decide_eq_true hg)
  rw [updateSlipstreamLiquidityTick_of_holds h hT ht]
  unfold updateCanonicalLiquidityTick
  rw [hwords, ok_bind, hcheck, ok_bind]
  cases hchange : changeTickLiquidity event parent.maxLiquidityPerTick upper (tickInfo keccak F t).word0 with
  | error e =>
    rw [show (tickInfo keccak F t).shared.word0 = (tickInfo keccak F t).word0 from rfl, hchange]
    rfl
  | ok r =>
    rw [show (tickInfo keccak F t).shared.word0 = (tickInfo keccak F t).word0 from rfl, hchange]
    exact congrArg (fun words => Except.ok (words, decide (grossAt keccak F t ≠ 0), decide (r.1 ≠ 0)))
      (changedTickWords_shared _ _ _).symm

/-! ### The merge of flips -/

/-- Flips merged so far: the words are those of `G`, and they differ from those of `F` only at the slots noted. -/
structure Merged (F G : Storage) (slots : List U256) (s : BitmapState) : Prop where
  values : ∀ x, (s.values x).getD (F x) = G x
  unchanged : ∀ x ∉ s.changed, G x = F x
  held : ∀ x ∈ s.changed, x ∈ slots ∧ (s.values x).isSome

namespace Merged
variable {G : Storage} {slots : List U256} {s : BitmapState} {t : Int}

theorem start (F : Storage) (slots : List U256) : Merged F F slots ⟨fun _ => none, []⟩ :=
  ⟨fun _ => rfl, fun _ _ => rfl, nofun⟩

/-- A word that is looked at and left. -/
theorem seen (hm : Merged F G slots s) (slot : U256) :
    Merged F G slots ⟨Function.update s.values slot (some (G slot)), s.changed⟩ := by
  refine ⟨fun x => ?_, hm.unchanged, fun x hx => ⟨(hm.held x hx).1, ?_⟩⟩
  · show (Function.update s.values slot (some (G slot)) x).getD (F x) = G x
    by_cases hxs : x = slot
    · simp [hxs]
    · rw [Function.update_of_ne hxs]
      exact hm.values x
  · show (Function.update s.values slot (some (G slot)) x).isSome = true
    by_cases hxs : x = slot
    · simp [hxs]
    · rw [Function.update_of_ne hxs]
      exact (hm.held x hx).2

/-- A word that is replaced, and its slot noted. -/
theorem note (hm : Merged F G slots s) {slot : U256} (hmem : slot ∈ slots) (value : U256) :
    Merged F (Function.update G slot value) slots ⟨Function.update s.values slot (some value), slot :: s.changed⟩ := by
  refine ⟨fun x => ?_, fun x hx => ?_, fun x hx => ?_⟩
  · show (Function.update s.values slot (some value) x).getD (F x) = Function.update G slot value x
    by_cases hxs : x = slot
    · simp [hxs]
    · rw [Function.update_of_ne hxs, Function.update_of_ne hxs]
      exact hm.values x
  · obtain ⟨hne, hx⟩ := not_or.mp (mt List.mem_cons.mpr hx)
    rw [Function.update_of_ne hne]
    exact hm.unchanged x hx
  · show x ∈ slots ∧ (Function.update s.values slot (some value) x).isSome = true
    by_cases hxs : x = slot
    · subst hxs
      exact ⟨hmem, by simp⟩
    · rw [Function.update_of_ne hxs]
      exact hm.held x ((List.mem_cons.mp hx).resolve_left hxs)

/-- A flip whose bit is right succeeds, and the merge is that of the flipped cell. -/
theorem flip (hm : Merged F G slots s) (h : Holds state address F) {upper : Bool} {r : Nat × Int}
    (hmem : bitmapSlot keccak (v3WordPosition t spacing) ∈ slots)
    (hbit : bitSet keccak G (t / spacing) = true ↔ grossAt keccak F t ≠ 0) :
    ∃ s', flipSlipstreamBoundary address state s (tickUpdateOf keccak F parent time t r,
        boundaryPosition keccak address (.slipstream spacing) state t upper) = .ok s' ∧
      Merged F (flipCell keccak spacing (flips keccak F t r.1) G t) slots s' := by
  set slot := bitmapSlot keccak (v3WordPosition t spacing) with hslot
  set update := tickUpdateOf keccak F parent time t r
  set mask := (1 : U256) <<< (t / spacing % 256).toNat with hmask
  have hiff : (update.wasInitialized ≠ update.isInitialized) ↔ flips keccak F t r.1 = true := by
    simp only [update, tickUpdateOf, flips, ne_eq, bne_iff_ne]
    by_cases h₁ : r.1 = 0 <;> by_cases h₂ : grossAt keccak F t = 0 <;> simp [h₁, h₂]
  have hbit' : decide (G slot &&& mask ≠ 0) = update.wasInitialized :=
    decide_eq_decide.mpr ((and_mask_ne_zero (bitPosition_lt _)).trans hbit)
  have hrun : flipSlipstreamBoundary address state s (update,
      boundaryPosition keccak address (.slipstream spacing) state t upper) =
        if update.wasInitialized ≠ update.isInitialized then
          .ok ⟨Function.update s.values slot (some (G slot ^^^ mask)), slot :: s.changed⟩
        else .ok ⟨Function.update s.values slot (some (G slot)), s.changed⟩ := by
    unfold flipSlipstreamBoundary
    dsimp only [boundaryPosition]
    rw [show v3TickBitmapStorageKeyWithBase keccak (v3WordPosition t (V3StorageLayout.slipstream spacing).tickSpacing)
      (V3StorageLayout.slipstream spacing).tickBitmapBaseSlot = slot from rfl, h.required, ok_bind, hm.values slot]
    exact ensure_bind hbit'
  unfold flipCell
  by_cases hf : flips keccak F t r.1 = true
  · rw [if_pos hf]
    exact ⟨_, by rw [hrun, if_pos (hiff.mpr hf)], hm.note hmem _⟩
  · rw [if_neg hf]
    exact ⟨_, by rw [hrun, if_neg (mt hiff.mp hf)], hm.seen slot⟩

/-- The batch of a merge writes its words where they changed. -/
theorem applyUpdates {H : Storage} {lower upper : BoundaryPosition}
    (hm : Merged F G [lower.slot, upper.slot] s) (x : U256) :
    H.applyUpdates (bitmapUpdates address s [] lower upper) x = if x ∈ s.changed then G x else H x := by
  have hcanonical : Canonical.Merged s.values F G [] [lower.slot, upper.slot] s := by
    refine ⟨fun x _ hsome => ?_, fun x _ hx => hm.unchanged x hx, hm.held⟩
    obtain ⟨v, hv⟩ := Option.isSome_iff_exists.mp hsome
    rw [hv, ← hm.values x, hv]
    rfl
  exact hcanonical.applyUpdates List.not_mem_nil

end Merged
/-! ### The active range -/

/-- The word of active liquidity, with the `maxLiquidityPerTick` that it shares. -/
def activeWord (liquidity maxLiquidity : Nat) : U256 :=
  Packed.set (Packed.set (0 : U256) 0 (BitVec.ofNat 128 liquidity)) 128 (BitVec.ofNat 128 maxLiquidity)

/-- The writes of an in-range change with its new active liquidity. -/
def activeWrites (address : Address) (parent : SlipstreamLiquidityParent) (liquidity : Nat) : List StateUpdate :=
  (match parent.oracle.write with
    | some (slot, value) => [⟨address, slot, value⟩, ⟨address, 6, parent.slot0.encodeFinal parent.slot0.sqrtPriceX96
        parent.slot0.tick parent.oracle.observationIndex parent.oracle.observationCardinality⟩]
    | none => []) ++ [⟨address, 16, activeWord liquidity parent.maxLiquidityPerTick⟩]

theorem slipstreamActiveUpdates_eq_ok (ha : 0 < event.amount) {us : List StateUpdate} :
    slipstreamActiveUpdates address (.slipstream spacing) event parent = .ok us ↔
      if event.tickLower ≤ parent.slot0.tick ∧ parent.slot0.tick < event.tickUpper then
        ∃ n, addDelta parent.liquidity event.delta = some n ∧ n < 2 ^ 128 ∧ activeWrites address parent n = us
      else us = [] := by
  have hmask : ∀ n, n ≤ WORD_128_MASK ↔ n < 2 ^ 128 := fun n => by
    rw [WORD_128_MASK]
    omega
  unfold slipstreamActiveUpdates
  by_cases hr : event.tickLower ≤ parent.slot0.tick ∧ parent.slot0.tick < event.tickUpper
  · rw [if_pos hr, if_pos hr]
    simp only [bind_eq_ok, ensure_eq_ok, exists_const, hmask, pure_eq_ok]
    refine exists_congr fun n => ?_
    constructor
    · rintro ⟨hn, hlt, rfl⟩
      exact ⟨(change_eq_ok ha hlt).mp hn, hlt, rfl⟩
    · rintro ⟨hn, hlt, rfl⟩
      exact ⟨(change_eq_ok ha hlt).mpr hn, hlt, rfl⟩
  · rw [if_neg hr, if_neg hr, pure_eq_ok, eq_comm]

/-- The active liquidity of a word is replaced, the limit beside it stays. -/
theorem set_active (F : Storage) (n : Nat) :
    Packed.set (F 16) 0 (BitVec.ofNat 128 n) = activeWord n (maxLiquidityPerTick F) := by
  have hlimit : Packed.set (F 16) 128 (BitVec.ofNat 128 (maxLiquidityPerTick F)) = F 16 := by
    rw [maxLiquidityPerTick, ofNat_field, Packed.set_get]
  calc Packed.set (F 16) 0 (BitVec.ofNat 128 n)
      = Packed.set (Packed.set (F 16) 128 (BitVec.ofNat 128 (maxLiquidityPerTick F))) 0 (BitVec.ofNat 128 n) := by
        rw [hlimit]
    _ = Packed.set (Packed.set (F 16) 0 (BitVec.ofNat 128 n)) 128 (BitVec.ofNat 128 (maxLiquidityPerTick F)) :=
        Packed.set_comm (by omega)
    _ = activeWord n (maxLiquidityPerTick F) := set_halves _ _ _

theorem observationSlot_eq (index : Nat) : observationSlot index = BitVec.ofNat 256 (20 + index) := by
  rw [observationSlot, BitVec.ofNat_add]
  rfl

theorem observationSlot_ne {index n : Nat} (hi : index < 2 ^ 16) (hn : n < 20) :
    observationSlot index ≠ BitVec.ofNat 256 n := by
  intro h
  rw [observationSlot_eq] at h
  have := ofNat_inj (by omega) (by omega) h
  omega

/-- The index that an advance records fits the ring. -/
theorem ParentSpec.index_lt (hp : ParentSpec family F time parent) : parent.oracle.observationIndex < 2 ^ 16 := by
  have h₁ := hp.oracle.index_lt
  have h₂ := hp.oracle.cardinality_le
  have h₃ : (Slot0.decode (Pool.slot0 F)).observationCardinalityNext < 2 ^ 16 := field_lt _ _ _
  omega

/-- The contract's writes of an in-range change are those of the replay. -/
theorem activeWrites_eq (hp : ParentSpec family F time parent) {G : Storage} (h6 : G 6 = F 6) (h16 : G 16 = F 16) (n : Nat)
    (address : Address) :
    (let H := G.applyUpdates (OracleAdvance.updates address parent.oracle)
      let H := Function.update H 6 (Packed.set
        (Packed.set (slot0 H) 184 (BitVec.ofNat 16 parent.oracle.observationIndex)) 200
        (BitVec.ofNat 16 parent.oracle.observationCardinality))
      Function.update H 16 (Packed.set (H 16) 0 (BitVec.ofNat 128 n))) =
        G.applyUpdates (activeWrites address parent n) := by
  unfold activeWrites
  rw [hp.slot0, hp.maxLiquidity, encodeFinal_same, ← set_active]
  cases hw : parent.oracle.write with
  | none =>
    obtain ⟨hindex, hcard⟩ := hp.oracle.unmoved hw
    have hslot0 : Packed.set (Packed.set (F 6) 184 (BitVec.ofNat 16 parent.oracle.observationIndex)) 200
        (BitVec.ofNat 16 parent.oracle.observationCardinality) = F 6 := by
      rw [hindex, hcard, Slot0.decode, ofNat_field, ofNat_field, slot0, Packed.set_get, Packed.set_get]
    simp only [OracleAdvance.updates, hw, Option.toList_none, List.map_nil, Storage.applyUpdates_nil, List.nil_append,
      Storage.applyUpdates_cons, slot0, h6, hslot0]
    rw [← h6, Function.update_eq_self, h16]
  | some w =>
    obtain ⟨slot, value⟩ := w
    have hslot : slot = observationSlot parent.oracle.observationIndex := hp.oracle.write_slot _ hw
    have hne6 : (6 : U256) ≠ slot := fun h => observationSlot_ne hp.index_lt (by decide) (hslot.symm.trans h.symm)
    have hne16 : (16 : U256) ≠ slot := fun h => observationSlot_ne hp.index_lt (by decide) (hslot.symm.trans h.symm)
    simp only [OracleAdvance.updates, hw, Option.toList_some, List.map_cons, List.map_nil, Storage.applyUpdates_nil,
      Storage.applyUpdates_cons, List.cons_append, List.nil_append, slot0]
    rw [Function.update_of_ne hne6, Function.update_of_ne (show (16 : U256) ≠ 6 by decide), Function.update_of_ne hne16, h6,
      h16]

/-! ### The whole transition -/

/-- A cell that no tick and no bitmap word is stored in survives the boundaries. -/
theorem movedBoundaries_fixed (hk : DistinctKeys keccak) {tickLower tickUpper : Int} (hL : InRange tickLower)
    (hU : InRange tickUpper) (l u : Nat × Int) {n : Nat} (hn : n < 2 ^ 17) :
    movedBoundaries keccak F parent time tickLower tickUpper l u (BitVec.ofNat 256 n) = F (BitVec.ofNat 256 n) := by
  unfold movedBoundaries
  simp only []
  rw [setTickInfo_fixed hk hU hn, setTickInfo_fixed hk hL hn, flipCell_of_ne (hk.bitmap_ne_fixed hn).symm,
    flipCell_of_ne (hk.bitmap_ne_fixed hn).symm]

theorem slipstreamTickUpdates_touches {t : Int} (ht : t ∈ [event.tickLower, event.tickUpper]) (r : Nat × Int) :
    ∀ x ∈ slipstreamTickUpdates address (tickUpdateOf keccak F parent time t r),
      x.address = address ∧ Touches keccak spacing event x.slot := by
  intro x hx
  obtain ⟨⟨slot, value⟩, hmem, rfl⟩ := List.mem_map.mp hx
  have hslot : slot ∈ [0, 1, 2, 3, 4, 5].map (tickSlot keccak t) := (List.of_mem_zip hmem).1
  obtain ⟨i, hi, rfl⟩ := List.mem_map.mp hslot
  have hsmall : ∀ n ∈ [0, 1, 2, 3, 4, 5], n < 6 := by decide
  exact ⟨rfl, .inl ⟨t, ht, .inr ⟨i, hsmall i hi, rfl⟩⟩⟩

theorem bitmapUpdates_touches (s : BitmapState) :
    ∀ x ∈ bitmapUpdates address s []
        (boundaryPosition keccak address (.slipstream spacing) state event.tickLower false)
        (boundaryPosition keccak address (.slipstream spacing) state event.tickUpper true),
      x.address = address ∧ Touches keccak spacing event x.slot := by
  intro x hx
  obtain ⟨slot, hslot, hx⟩ := List.mem_filterMap.mp hx
  obtain ⟨value, -, rfl⟩ := Option.map_eq_some_iff.mp hx
  set lower := boundaryPosition keccak address (.slipstream spacing) state event.tickLower false
  set upper := boundaryPosition keccak address (.slipstream spacing) state event.tickUpper true
  have hmem : slot = lower.slot ∨ slot = upper.slot := by
    have hslot := List.mem_dedup.mp (List.mem_filter.mp hslot).1
    split_ifs at hslot
    · simpa using hslot
    · simpa [or_comm] using hslot
  refine ⟨rfl, .inl ?_⟩
  rcases hmem with hslot | hslot
  · exact ⟨event.tickLower, List.mem_cons_self, .inl hslot⟩
  · exact ⟨event.tickUpper, List.mem_cons_of_mem _ List.mem_cons_self, .inl hslot⟩

theorem activeWrites_touches (hp : ParentSpec family F time parent) (n : Nat) :
    ∀ x ∈ activeWrites address parent n, x.address = address ∧ Touches keccak spacing event x.slot := by
  intro x hx
  unfold activeWrites at hx
  cases hw : parent.oracle.write with
  | none =>
    rw [hw] at hx
    obtain rfl := List.mem_singleton.mp hx
    exact ⟨rfl, .inr (.inr (.inl rfl))⟩
  | some w =>
    rw [hw] at hx
    simp only [List.cons_append, List.nil_append, List.mem_cons, List.not_mem_nil, or_false] at hx
    rcases hx with rfl | rfl | rfl
    · exact ⟨rfl, .inr (.inr (.inr ⟨_, hp.index_lt, hp.oracle.write_slot _ hw⟩))⟩
    · exact ⟨rfl, .inr (.inl rfl)⟩
    · exact ⟨rfl, .inr (.inr (.inl rfl))⟩

/-- A replay runs with the contract: what it leaves is the contract's storage, through cells of the event only, and it
    succeeds wherever the contract does. -/
structure RunsWith (keccak : Keccak) (address : Address) (spacing : Int) (event : DecodedLiquidity) (F : Storage)
    (replay : Result (List StateUpdate)) (contract : Option Storage) : Prop where
  sound : ∀ updates, replay = .ok updates →
    (∀ x ∈ updates, x.address = address ∧ Touches keccak spacing event x.slot) ∧ contract = some (F.applyUpdates updates)
  complete : ∀ F', contract = some F' → ∃ updates, replay = .ok updates

section Aligned
variable (hk : DistinctKeys keccak) (hT : TicksAgree keccak F) (hp : ParentSpec family F time parent)
  (ha : 0 < event.amount) (hL : InRange event.tickLower) (hU : InRange event.tickUpper)
  (haL : event.tickLower % tickSpacing F = 0) (haU : event.tickUpper % tickSpacing F = 0)
  (hlt : event.tickLower < event.tickUpper)
include hk hT hp ha hL hU haL haU hlt

/-- The contract's change of a position, from its boundaries and the active range. -/
theorem modifyPosition_eq (address : Address) :
    modifyPosition keccak family F (BitVec.ofNat 32 time) event.tickLower event.tickUpper event.delta =
      (changeAt keccak F event.tickLower event.delta false).bind fun l =>
      (changeAt keccak F event.tickUpper event.delta true).bind fun u =>
      let moved := movedBoundaries keccak F parent time event.tickLower event.tickUpper l u
      if event.tickLower ≤ tick F ∧ tick F < event.tickUpper then
        (addDelta (liquidity F) event.delta).bind fun n => some (moved.applyUpdates (activeWrites address parent n))
      else some moved := by
  have hguard : event.tickLower < event.tickUpper ∧ MIN_TICK ≤ event.tickLower ∧ event.tickUpper ≤ MAX_TICK :=
    ⟨hlt, hL.1, hU.2⟩
  unfold modifyPosition
  rw [updatePosition_eq hk hT hp hL hU haL haU hlt (delta_ne_zero ha)]
  simp only [Option.bind_eq_bind, guard, hguard, and_self, if_true, pure, Option.bind_some, Option.bind_assoc]
  refine congrArg _ (funext fun l => congrArg _ (funext fun u => ?_))
  have hfixed : ∀ n < 2 ^ 17, movedBoundaries keccak F parent time event.tickLower event.tickUpper l u
      (BitVec.ofNat 256 n) =
      F (BitVec.ofNat 256 n) := fun n hn => movedBoundaries_fixed hk hL hU l u hn
  set moved := movedBoundaries keccak F parent time event.tickLower event.tickUpper l u
  have hindex : observationIndex F < 2 ^ 16 := field_lt _ _ _
  have h16 : moved 16 = F 16 := hfixed 16 (by decide)
  have hliq : liquidity moved = liquidity F := by rw [liquidity, h16, liquidity]
  have hobs : moved (observationSlot (observationIndex F)) = F (observationSlot (observationIndex F)) := by
    rw [observationSlot_eq]
    exact hfixed _ (by omega)
  by_cases hr : event.tickLower ≤ tick F ∧ tick F < event.tickUpper
  · have hwrite : oracleWrite moved (BitVec.ofNat 32 time) (tick F) (observationIndex F) (liquidity F)
        (observationCardinality F) (observationCardinalityNext F) =
          some (moved.applyUpdates (OracleAdvance.updates address parent.oracle), parent.oracle.observationIndex,
            parent.oracle.observationCardinality) := hp.oracle.ring (readObservation_reads hobs) address moved
    rw [if_pos ⟨delta_ne_zero ha, hr⟩, if_pos hr, hliq, hwrite]
    simp only [Option.bind_some]
    cases addDelta (liquidity F) event.delta with
    | none => rfl
    | some n => exact congrArg some (activeWrites_eq hp (hfixed 6 (by decide)) h16 n address)
  · rw [if_neg fun h => hr h.2, if_neg hr]

/-- The batch of a transition, from its parts. -/
theorem slipstreamLiquidityTransition_of_holds (h : Holds state address F) (hspacing : tickSpacing F = spacing)
    (hs : 0 < spacing) {l u : Nat × Int} (hl : changeAt keccak F event.tickLower event.delta false = some l)
    (hu : changeAt keccak F event.tickUpper event.delta true = some u) :
    ∃ batch, (∀ x ∈ batch, x.address = address ∧ Touches keccak spacing event x.slot) ∧
      F.applyUpdates batch = movedBoundaries keccak F parent time event.tickLower event.tickUpper l u ∧
      slipstreamLiquidityTransition keccak address (.slipstream spacing) state event parent time =
        slipstreamActiveUpdates address (.slipstream spacing) event parent >>= fun active => .ok (batch ++ active) := by
  subst hspacing
  set lower := tickUpdateOf keccak F parent time event.tickLower l
  set upper := tickUpdateOf keccak F parent time event.tickUpper u
  set lowerPosition := boundaryPosition keccak address (.slipstream (tickSpacing F)) state event.tickLower false
  set upperPosition := boundaryPosition keccak address (.slipstream (tickSpacing F)) state event.tickUpper true
  set slots := [lowerPosition.slot, upperPosition.slot]
  obtain ⟨s₁, hs₁, hm₁⟩ : ∃ s', flipSlipstreamBoundary address state ⟨fun _ => none, []⟩ (lower, lowerPosition) = .ok s' ∧
      Merged F (flipCell keccak (tickSpacing F) (flips keccak F event.tickLower l.1) F event.tickLower) slots s' :=
    (Merged.start F slots).flip h List.mem_cons_self (bit_of_aligned hT hs hL haL)
  have hbit : bitSet keccak (flipCell keccak (tickSpacing F) (flips keccak F event.tickLower l.1) F event.tickLower)
      (event.tickUpper / tickSpacing F) = true ↔ grossAt keccak F event.tickUpper ≠ 0 := by
    rw [flipCell_bit hk hs hL hU haL haU hlt.ne]
    exact bit_of_aligned hT hs hU haU
  obtain ⟨s₂, hs₂, hm₂⟩ : ∃ s', flipSlipstreamBoundary address state s₁ (upper, upperPosition) = .ok s' ∧
      Merged F (flipCell keccak (tickSpacing F) (flips keccak F event.tickUpper u.1)
        (flipCell keccak (tickSpacing F) (flips keccak F event.tickLower l.1) F event.tickLower)
          event.tickUpper) slots s' :=
    hm₁.flip h (List.mem_cons_of_mem _ List.mem_cons_self) hbit
  have hfold : [(lower, lowerPosition), (upper, upperPosition)].foldlM (flipSlipstreamBoundary address state)
      ⟨fun _ => none, []⟩ = .ok s₂ := by
    rw [List.foldlM_cons, hs₁, ok_bind, List.foldlM_cons, hs₂]
    rfl
  refine ⟨slipstreamTickUpdates address lower ++ slipstreamTickUpdates address upper ++
    bitmapUpdates address s₂ [] lowerPosition upperPosition, ?_, ?_, ?_⟩
  · intro x hx
    rcases List.mem_append.mp hx with hx | hx
    · rcases List.mem_append.mp hx with hx | hx
      · exact slipstreamTickUpdates_touches List.mem_cons_self l x hx
      · exact slipstreamTickUpdates_touches (List.mem_cons_of_mem _ List.mem_cons_self) u x hx
    · exact bitmapUpdates_touches s₂ x hx
  · rw [Storage.applyUpdates_append, Storage.applyUpdates_append]
    funext x
    rw [hm₂.applyUpdates, applyUpdates_tick F address lower rfl, applyUpdates_tick _ address upper rfl]
    unfold movedBoundaries
    simp only []
    split_ifs with hx
    · obtain ⟨w, rfl⟩ : ∃ w, x = bitmapSlot keccak w := by
        rcases List.mem_cons.mp (hm₂.held x hx).1 with rfl | hx
        · exact ⟨_, rfl⟩
        · exact ⟨_, List.mem_singleton.mp hx⟩
      rw [setTickInfo_bitmap hk hU, setTickInfo_bitmap hk hL]
    · exact setTickInfo_congr (setTickInfo_congr (hm₂.unchanged x hx).symm)
  · unfold slipstreamLiquidityTransition
    simp only []
    rw [(updateSlipstreamLiquidityTick_eq_ok h hT hp ha hL).mpr ⟨l, hl, rfl⟩, ok_bind,
      (updateSlipstreamLiquidityTick_eq_ok h hT hp ha hU).mpr ⟨u, hu, rfl⟩, ok_bind, hfold, ok_bind]
    rfl

/-- The replay of a nonzero change runs with the contract's. -/
theorem slipstreamLiquidityTransition_refines (h : Holds state address F) (hspacing : tickSpacing F = spacing)
    (hs : 0 < spacing) :
    RunsWith keccak address spacing event F
      (slipstreamLiquidityTransition keccak address (.slipstream spacing) state event parent time)
      (modifyPosition keccak family F (BitVec.ofNat 32 time) event.tickLower event.tickUpper event.delta) := by
  rw [modifyPosition_eq hk hT hp ha hL hU haL haU hlt address]
  refine ⟨fun updates hok => ?_, fun F' hrun => ?_⟩
  · obtain ⟨lower, hlower, hrest⟩ := bind_eq_ok.mp hok
    obtain ⟨upper, hupper, -⟩ := bind_eq_ok.mp hrest
    obtain ⟨l, hl, -⟩ := (updateSlipstreamLiquidityTick_eq_ok h hT hp ha hL).mp hlower
    obtain ⟨u, hu, -⟩ := (updateSlipstreamLiquidityTick_eq_ok h hT hp ha hU).mp hupper
    obtain ⟨batch, htouches, hbatch, heq⟩ := slipstreamLiquidityTransition_of_holds hk hT hp ha hL hU haL haU hlt h hspacing
      hs hl hu
    rw [heq] at hok
    obtain ⟨active, hactive, hok⟩ := bind_eq_ok.mp hok
    obtain rfl := Except.ok.inj hok
    have hactive := (slipstreamActiveUpdates_eq_ok ha).mp hactive
    rw [hp.tick, hp.liquidity] at hactive
    rw [hl, hu, Storage.applyUpdates_append, hbatch]
    simp only [Option.bind_some]
    split_ifs at hactive ⊢ with hr
    · obtain ⟨n, hn, -, rfl⟩ := hactive
      refine ⟨fun x hx => (List.mem_append.mp hx).elim (htouches x) (activeWrites_touches hp n x), ?_⟩
      rw [hn]
      rfl
    · subst hactive
      rw [List.append_nil]
      exact ⟨htouches, rfl⟩
  · obtain ⟨l, hl, hrun⟩ := Option.bind_eq_some_iff.mp hrun
    obtain ⟨u, hu, hrun⟩ := Option.bind_eq_some_iff.mp hrun
    obtain ⟨batch, -, -, heq⟩ := slipstreamLiquidityTransition_of_holds hk hT hp ha hL hU haL haU hlt h hspacing hs hl hu
    have hactive : ∃ active, slipstreamActiveUpdates address (.slipstream spacing) event parent = .ok active := by
      simp only [slipstreamActiveUpdates_eq_ok ha, hp.tick, hp.liquidity]
      split_ifs at hrun ⊢ with hr
      · obtain ⟨n, hn, -⟩ := Option.bind_eq_some_iff.mp hrun
        exact ⟨_, n, hn, addDelta_lt (field_lt _ _ _) hn, rfl⟩
      · exact ⟨[], rfl⟩
    obtain ⟨active, hactive⟩ := hactive
    exact ⟨batch ++ active, by rw [heq, hactive, ok_bind]⟩

end Aligned

/-! ### The replay -/

theorem validateReviewedSlipstreamEvent_of {context : AdapterEventContext} (hc : validateContext context = .ok time)
    (hchain : context.chainId = some (reviewedRuntime family).chainId) :
    validateReviewedSlipstreamEvent (reviewedSlipstreamPool family) (.slipstream 200) context = .ok time := by
  unfold validateReviewedSlipstreamEvent
  rw [hc, ok_bind, hchain]
  cases family <;> rfl

/-- From a well-formed pool, a liquidity change finds all it reads. -/
theorem loadSlipstreamLiquidityParent_of (h : Holds state address F) (hF : WellFormed keccak F) (ht : time < 2 ^ 32)
    {context : AdapterEventContext} (hchain : context.chainId = some (reviewedRuntime family).chainId) :
    ∃ parent, loadSlipstreamLiquidityParent address (.slipstream spacing) state context time = .ok parent ∧
      ParentSpec family F time parent := by
  have hraw : state.storage address (SLIPSTREAM_SURFACE.observationsBaseSlot +
      BitVec.ofNat 256 (Slot0.decode (slot0 F)).observationIndex) = some (F (observationSlot (observationIndex F))) := h _
  obtain ⟨advance, hadvance, hspec⟩ := advanceOracle_advanced hraw hF.oracle.index_lt hF.oracle.cardinality_le
    hF.oracle.initialized ht (field_lt (F 16) 0 128)
  have hprice : validateParentSlot0 (Slot0.decode (F 6)) = .ok () :=
    validateParentSlot0_eq_ok.mpr ⟨hF.price.price_lt, hF.price.tick_ge, hF.price.tick_lt, hF.price.lower, hF.price.upper⟩
  have hreward : (if context.chainId = some 10 then required state address SLIPSTREAM_REWARD_GROWTH_SLOT else pure 0) =
      (.ok (if startsRewardGrowth family then rewardGrowthGlobal F else 0) : Result U256) := by
    rw [hchain, h.required]
    cases family <;> rfl
  refine ⟨⟨⟨Slot0.decode (F 6), liquidity F, maxLiquidityPerTick F, advance, F 7, F 8⟩,
    if startsRewardGrowth family then rewardGrowthGlobal F else 0⟩, ?_, rfl, rfl, rfl, hspec, rfl, rfl, rfl⟩
  exact bind_eq_ok.mpr ⟨F 6, h.required _, bind_eq_ok.mpr ⟨(), ensure_of hF.unlocked, bind_eq_ok.mpr ⟨(), hprice,
    bind_eq_ok.mpr ⟨F 16, h.required _, bind_eq_ok.mpr ⟨advance, hadvance, bind_eq_ok.mpr ⟨F 7, h.required _,
      bind_eq_ok.mpr ⟨F 8, h.required _, bind_eq_ok.mpr ⟨_, hreward, rfl⟩⟩⟩⟩⟩⟩⟩⟩

theorem checkSlipstreamRange_eq_ok {layout : V3StorageLayout} {u : Unit} : checkSlipstreamRange layout event = .ok u ↔
    MIN_TICK ≤ event.tickLower ∧ event.tickUpper ≤ MAX_TICK ∧ event.tickLower < event.tickUpper ∧
      event.tickLower % layout.tickSpacing = 0 ∧ event.tickUpper % layout.tickSpacing = 0 := ensure_eq_ok

/-- What the replay of an event comes to, once its context is that of the reviewed pool. -/
theorem deriveSlipstreamLiquidity_eq {context : AdapterEventContext} (hc : validateContext context = .ok time)
    (hchain : context.chainId = some (reviewedRuntime family).chainId) :
    deriveSlipstreamLiquidity keccak (reviewedSlipstreamPool family) (.slipstream 200) state event context =
      checkSlipstreamRange (.slipstream 200) event >>= fun _ =>
        if event.amount = 0 then
          ensure (event.isMint = false) (contradiction "Slipstream Mint liquidity must be positive") >>= fun _ => .ok []
        else ensure (event.amount < 2 ^ 127) (arithmetic "liquidity amount exceeds int128") >>= fun _ =>
          loadSlipstreamLiquidityParent (reviewedSlipstreamPool family) (.slipstream 200) state context
            time >>= fun parent =>
            slipstreamLiquidityTransition keccak (reviewedSlipstreamPool family) (.slipstream 200) state
              event parent time := by
  unfold deriveSlipstreamLiquidity
  rw [validateReviewedSlipstreamEvent_of hc hchain]
  rfl

theorem changeLiquidity_of (hmint : event.isMint = true → 0 < event.amount) (hsmall : event.amount < 2 ^ 127) :
    changeLiquidity keccak family F (BitVec.ofNat 32 time) event =
      modifyPosition keccak family F (BitVec.ofNat 32 time) event.tickLower event.tickUpper event.delta := by
  unfold changeLiquidity
  rw [guard, if_pos hmint, guard, if_pos hsmall]
  rfl

/-- A range of the contract, for a nonzero amount; a poke is of a position, whose range is aligned. -/
theorem changeLiquidity_range (hk : DistinctKeys keccak) (hF : WellFormed keccak F) (hp : ParentSpec family F time parent)
    (hpoke : event.amount = 0 → event.isMint = false → event.tickLower % 200 = 0 ∧ event.tickUpper % 200 = 0)
    {F' : Storage} (hrun : changeLiquidity keccak family F (BitVec.ofNat 32 time) event = some F') :
    (event.isMint = true → 0 < event.amount) ∧ event.amount < 2 ^ 127 ∧
      checkSlipstreamRange (.slipstream 200) event = .ok () := by
  simp only [changeLiquidity, Option.bind_eq_bind, Option.bind_eq_some_iff, Option.guard_eq_some', exists_const] at hrun
  obtain ⟨hmint, hsmall, hrun⟩ := hrun
  refine ⟨hmint, hsmall, checkSlipstreamRange_eq_ok.mpr ?_⟩
  simp only [modifyPosition, Option.bind_eq_bind, Option.bind_eq_some_iff, Option.guard_eq_some', exists_const] at hrun
  obtain ⟨⟨hlt, hlo, hhi⟩, G, hupdate, -⟩ := hrun
  refine ⟨hlo, hhi, hlt, ?_⟩
  show event.tickLower % 200 = 0 ∧ event.tickUpper % 200 = 0
  by_cases h0 : event.amount = 0
  · exact hpoke h0 (by
      by_contra hm
      have := hmint (by simpa using hm)
      omega)
  · by_contra ha
    rw [updatePosition_unaligned hk hF.ticks hp ⟨hlo, by omega⟩ ⟨by omega, hhi⟩ hlt (delta_ne_zero (by omega))
      (by rwa [hF.spacing])] at hupdate
    cases hupdate

/-- From a well-formed pool held in full, the replay of any event runs with the contract. -/
theorem deriveSlipstreamLiquidity_runsWith (hk : DistinctKeys keccak) (hF : WellFormed keccak F)
    (h : Holds state (reviewedSlipstreamPool family) F) {context : AdapterEventContext}
    (hc : validateContext context = .ok time) (hchain : context.chainId = some (reviewedRuntime family).chainId)
    (hpoke : event.amount = 0 → event.isMint = false → event.tickLower % 200 = 0 ∧ event.tickUpper % 200 = 0) :
    RunsWith keccak (reviewedSlipstreamPool family) 200 event F
      (deriveSlipstreamLiquidity keccak (reviewedSlipstreamPool family) (.slipstream 200) state event context)
      (changeLiquidity keccak family F (BitVec.ofNat 32 time) event) := by
  obtain ⟨parent, hload, hp⟩ : ∃ parent, loadSlipstreamLiquidityParent (reviewedSlipstreamPool family)
      (.slipstream 200) state
      context time = .ok parent ∧ ParentSpec family F time parent :=
    loadSlipstreamLiquidityParent_of h hF (validateContext_lt hc) hchain
  rw [deriveSlipstreamLiquidity_eq hc hchain]
  by_cases hrange : checkSlipstreamRange (.slipstream 200) event = .ok ()
  swap
  · refine ⟨fun updates hok => ?_, fun F' hrun => ?_⟩
    · obtain ⟨_, hcheck, -⟩ := bind_eq_ok.mp hok
      exact absurd hcheck hrange
    · exact absurd (changeLiquidity_range hk hF hp hpoke hrun).2.2 hrange
  rw [hrange, ok_bind]
  obtain ⟨hlo, hhi, hlt, haL, haU⟩ := checkSlipstreamRange_eq_ok.mp hrange
  have hguard : event.tickLower < event.tickUpper ∧ MIN_TICK ≤ event.tickLower ∧
      event.tickUpper ≤ MAX_TICK := ⟨hlt, hlo, hhi⟩
  by_cases h0 : event.amount = 0
  · rw [if_pos h0]
    have hdelta : event.delta = 0 := by simp [DecodedLiquidity.delta, h0]
    have hmodify : modifyPosition keccak family F (BitVec.ofNat 32 time) event.tickLower event.tickUpper event.delta =
        some F := by
      simp [modifyPosition, updatePosition, hdelta, guard, hguard]
    refine ⟨fun updates hok => ?_, fun F' hrun => ?_⟩
    · obtain ⟨_, hburn, hok⟩ := bind_eq_ok.mp hok
      obtain rfl := Except.ok.inj hok
      have hburn := ensure_eq_ok.mp hburn
      exact ⟨fun _ hmem => (by cases hmem), (changeLiquidity_of (by simp [hburn]) (by omega)).trans hmodify⟩
    · obtain ⟨hmint, -, -⟩ := changeLiquidity_range hk hF hp hpoke hrun
      have hburn : event.isMint = false := by
        by_contra hm
        have := hmint (by simpa using hm)
        omega
      exact ⟨[], by rw [ensure_bind hburn]⟩
  · rw [if_neg h0]
    have hrun := slipstreamLiquidityTransition_refines hk hF.ticks hp (Nat.pos_of_ne_zero h0) ⟨hlo, by omega⟩
      ⟨by omega, hhi⟩ (by rw [hF.spacing]; exact haL) (by rw [hF.spacing]; exact haU) hlt h hF.spacing (by decide)
    by_cases hsmall : event.amount < 2 ^ 127
    · rwa [ensure_bind hsmall, hload, ok_bind, changeLiquidity_of (fun _ => Nat.pos_of_ne_zero h0) hsmall]
    · refine ⟨fun updates hok => ?_, fun F' hcontract => ?_⟩
      · obtain ⟨_, hcheck, -⟩ := bind_eq_ok.mp hok
        exact absurd (ensure_eq_ok.mp hcheck) hsmall
      · exact absurd (changeLiquidity_range hk hF hp hpoke hcontract).2.1 hsmall

/-- The other fixed cells are none that an event in range touches. -/
theorem not_touches_fixed (hk : DistinctKeys keccak) (hL : InRange event.tickLower) (hU : InRange event.tickUpper) {n : Nat}
    (hn : n < 20) (h6 : n ≠ 6) (h16 : n ≠ 16) : ¬ Touches keccak spacing event (BitVec.ofNat 256 n) := by
  have hne : ∀ m < 20, n ≠ m → BitVec.ofNat 256 n ≠ BitVec.ofNat 256 m :=
    fun m hm hnm heq => hnm (ofNat_inj (by omega) (by omega) heq)
  rintro (⟨t, ht, hcell⟩ | h | h | ⟨index, hi, h⟩)
  · have hrange : InRange t := by
      rcases List.mem_cons.mp ht with rfl | ht
      · exact hL
      · obtain rfl := List.mem_singleton.mp ht
        exact hU
    rcases hcell with h | ⟨i, hi, h⟩
    · exact hk.bitmap_ne_fixed (by omega) h.symm
    · exact hk.tick_ne_fixed hrange hi (by omega) h.symm
  · exact hne 6 (by decide) h6 h
  · exact hne 16 (by decide) h16 h
  · exact observationSlot_ne hi hn h.symm

/-- From a well-formed pool held in full, the replay of a `Mint` or a `Burn` succeeds exactly where the contract does and
    leaves its storage, through the cells of the event only: staked liquidity stays. On the words that a canonical
    `Tick.Info` has too, its tick update is the canonical one. A burn of nothing is of a position, whose range the pool has
    checked. -/
theorem deriveSlipstreamLiquidity_refines (hk : DistinctKeys keccak) (hF : WellFormed keccak F)
    (h : Holds state (reviewedSlipstreamPool family) F) {context : AdapterEventContext}
    (hc : validateContext context = .ok time) (hchain : context.chainId = some (reviewedRuntime family).chainId)
    (hpoke : event.amount = 0 → event.isMint = false → event.tickLower % 200 = 0 ∧ event.tickUpper % 200 = 0) :
    ((∃ updates, deriveSlipstreamLiquidity keccak (reviewedSlipstreamPool family) (.slipstream 200) state event context =
        .ok updates) ↔
      ∃ F', changeLiquidity keccak family F (BitVec.ofNat 32 time) event = some F') ∧
    (∀ updates F', deriveSlipstreamLiquidity keccak (reviewedSlipstreamPool family) (.slipstream 200) state event context =
        .ok updates →
      changeLiquidity keccak family F (BitVec.ofNat 32 time) event = some F' →
      Holds (state.applyUpdates updates) (reviewedSlipstreamPool family) F' ∧
      (∀ x ∈ updates, x.address = reviewedSlipstreamPool family ∧ Touches keccak 200 event x.slot) ∧
      (∀ slot, ¬ Touches keccak 200 event slot → F' slot = F slot) ∧ F' 15 = F 15) ∧
    ∀ t parent timestamp upper canonical canonicalAddress layout, InRange t → t % 200 = 0 →
      loadTickWords keccak canonicalAddress layout canonical t = .ok (tickInfo keccak F t).shared →
      sharedUpdate <$> updateSlipstreamLiquidityTick keccak (reviewedSlipstreamPool family) (.slipstream 200) state event
          parent timestamp t upper =
        canonicalUpdate <$> updateCanonicalLiquidityTick keccak canonicalAddress layout canonical event
          parent.toLiquidityParent timestamp t upper (bitSet keccak F (t / 200)) := by
  obtain ⟨hsound, hcomplete⟩ := deriveSlipstreamLiquidity_runsWith hk hF h hc hchain hpoke
  refine ⟨⟨fun ⟨updates, hok⟩ => ⟨_, (hsound updates hok).2⟩, fun ⟨F', hrun⟩ => hcomplete F' hrun⟩, ?_, ?_⟩
  · intro updates F' hok hrun
    obtain ⟨htouches, hleaves⟩ := hsound updates hok
    obtain rfl := Option.some.inj (hrun.symm.trans hleaves)
    have hframe : ∀ slot, ¬ Touches keccak 200 event slot → F.applyUpdates updates slot = F slot := fun slot hslot =>
      Storage.applyUpdates_of_notMem fun x hx heq => hslot (heq ▸ (htouches x hx).2)
    rw [deriveSlipstreamLiquidity_eq hc hchain] at hok
    obtain ⟨_, hrange, -⟩ := bind_eq_ok.mp hok
    obtain ⟨hlo, hhi, hlt, -, -⟩ := checkSlipstreamRange_eq_ok.mp hrange
    exact ⟨h.applyUpdates fun x hx => (htouches x hx).1, htouches, hframe,
      hframe 15 (not_touches_fixed hk ⟨hlo, by omega⟩ ⟨by omega, hhi⟩ (by decide) (by decide) (by decide))⟩
  · intro t parent timestamp upper canonical canonicalAddress layout ht ha hload
    have hbit : bitSet keccak F (t / 200) = decide (grossAt keccak F t ≠ 0) := by
      have hb := bit_of_aligned hF.ticks (by rw [hF.spacing]; decide) ht (by rwa [hF.spacing])
      rw [hF.spacing] at hb
      rw [Bool.eq_iff_iff, hb, decide_eq_true_iff]
    rw [hbit]
    exact updateSlipstreamLiquidityTick_shared h hF.ticks ht hload upper

end Replay
end

/-! ### A mint around the current tick -/

/-- The reviewed pool of Optimism at price one, with reward growth and no position yet. -/
def quietPool : Storage := fun slot =>
  if slot = 6 then BitVec.ofNat 256 (2 ^ 96 + 2 ^ 200 + 2 ^ 216 + 2 ^ 232)
  else if slot = 9 then 7
  else if slot = 15 then BitVec.ofNat 256 (900 * 2 ^ 128 + 200 * 2 ^ 160)
  else if slot = 16 then BitVec.ofNat 256 (10 ^ 30 * 2 ^ 128)
  else if slot = 20 then BitVec.ofNat 256 (900 + 2 ^ 248)
  else 0

theorem quietPool_of_ne {x : U256} (h : ∀ n < 2 ^ 17, x ≠ BitVec.ofNat 256 n) : quietPool x = 0 := by
  have h6 : x ≠ 6 := h 6 (by decide)
  have h9 : x ≠ 9 := h 9 (by decide)
  have h15 : x ≠ 15 := h 15 (by decide)
  have h16 : x ≠ 16 := h 16 (by decide)
  have h20 : x ≠ 20 := h 20 (by decide)
  simp only [quietPool, h6, h9, h15, h16, h20, if_false]

theorem quietPool_tick {t : Int} (ht : InRange t) {i : Nat} (hi : i < 6) :
    quietPool (tickSlot tabulatedKeccak t i) = 0 :=
  quietPool_of_ne fun _ hn => tabulatedKeccak_distinct.tick_ne_fixed ht hi hn

theorem quietPool_wellFormed : WellFormed tabulatedKeccak quietPool where
  spacing := by decide
  unlocked := by decide
  ticks := by
    have hgross : ∀ t, InRange t → grossAt tabulatedKeccak quietPool t = 0 := fun t ht => by
      rw [grossAt, quietPool_tick ht (by decide)]
      rfl
    refine ⟨fun c _ _ => ?_, fun t ht hg => absurd (hgross t ht) hg, fun t ht => ?_, fun t ht _ => ?_⟩
    · rw [bitSet, quietPool_of_ne fun _ hn => tabulatedKeccak_distinct.bitmap_ne_fixed hn]
      exact ⟨fun h => by simp at h, fun ⟨hr, hg⟩ => absurd (hgross _ hr) hg⟩
    · rw [quietPool_tick ht (by decide)]
      exact ⟨fun h => absurd h (by decide), fun hg => absurd (hgross t ht) hg⟩
    · simp only [tickInfo, quietPool_tick ht (show 0 < 6 by decide), quietPool_tick ht (show 1 < 6 by decide),
        quietPool_tick ht (show 2 < 6 by decide), quietPool_tick ht (show 3 < 6 by decide),
        quietPool_tick ht (show 4 < 6 by decide), quietPool_tick ht (show 5 < 6 by decide)]
      rfl
  price := ⟨by decide, by decide, by decide +kernel, by decide +kernel, by decide⟩
  oracle := ⟨by decide, by decide, by decide⟩

/-- Both boundaries are new, in different bitmap words. -/
def mintAround : DecodedLiquidity := ⟨-200, 200, 5, true⟩

def optimismContext : AdapterEventContext := { contextAt 1012 with chainId := some 10 }

theorem deriveSlipstreamLiquidity_refines_mint :
    ∃ updates F', changeLiquidity tabulatedKeccak .velodromeOptimismBifi quietPool (BitVec.ofNat 32 1012) mintAround =
        some F' ∧ F' (tickSlot tabulatedKeccak (-200) 4) = 7 ∧
      deriveSlipstreamLiquidity tabulatedKeccak (reviewedSlipstreamPool .velodromeOptimismBifi) (.slipstream 200)
        (viewOf quietPool) mintAround optimismContext = .ok updates ∧
      Holds ((viewOf quietPool).applyUpdates updates) (reviewedSlipstreamPool .velodromeOptimismBifi) F' := by
  have hrun : ((changeLiquidity tabulatedKeccak .velodromeOptimismBifi quietPool (BitVec.ofNat 32 1012) mintAround).map
      fun F' => F' (tickSlot tabulatedKeccak (-200) 4)) = some 7 := by decide +kernel
  obtain ⟨F', hrun, hgrowth⟩ := Option.map_eq_some_iff.mp hrun
  have hholds : Holds (viewOf quietPool) (reviewedSlipstreamPool .velodromeOptimismBifi) quietPool := fun _ => rfl
  have hcontext : validateContext optimismContext = .ok 1012 := rfl
  have hpoke : mintAround.amount = 0 → mintAround.isMint = false →
    mintAround.tickLower % 200 = 0 ∧ mintAround.tickUpper % 200 = 0 := by decide
  obtain ⟨hiff, hleaves, -⟩ := deriveSlipstreamLiquidity_refines tabulatedKeccak_distinct
    quietPool_wellFormed hholds hcontext
    rfl hpoke
  obtain ⟨updates, hok⟩ := hiff.mpr ⟨F', hrun⟩
  exact ⟨updates, F', hrun, hgrowth, hok, (hleaves updates F' hok hrun).1⟩

end AmmState.Slipstream.Pool
