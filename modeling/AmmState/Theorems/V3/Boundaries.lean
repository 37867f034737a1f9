import AmmState.Theorems.V3.Bitmap
import AmmState.Theorems.V3.Oracle

/-! The boundaries of a `Mint` or a `Burn` against the contract: `Tick.update`, `flipTick` and `Tick.clear` by their
    outcome, and the boundary of the replay that comes to the same words. -/

namespace AmmState.Canonical
open V3 Checked

/-! ### Words of a tick -/

/-- The gross and net liquidity of a tick after a change, where the contract accepts it. -/
def changeTick (gross : Nat) (net delta : Int) (upper : Bool) (maxLiquidity : Nat) : Option (Nat × Int) := do
  let gross ← addDelta gross delta
  guard (gross ≤ maxLiquidity)
  let net ← toInt128 (net + if upper then -delta else delta)
  return (gross, net)

theorem changeTick_eq_some {gross g : Nat} {net delta n : Int} {upper : Bool} {maxLiquidity : Nat} :
    changeTick gross net delta upper maxLiquidity = some (g, n) ↔
      addDelta gross delta = some g ∧ g ≤ maxLiquidity ∧ n = (net + if upper then -delta else delta) ∧
        -2 ^ 127 ≤ n ∧ n < 2 ^ 127 := by
  unfold changeTick toInt128
  cases addDelta gross delta with
  | none => simp
  | some g' =>
    by_cases hm : g' ≤ maxLiquidity
    · by_cases hn : -2 ^ 127 ≤ (net + if upper then -delta else delta) ∧ (net + if upper then -delta else delta) < 2 ^ 127
      · simp only [Option.bind_eq_bind, Option.bind_some, hm, guard_true, hn]
        constructor
        · rintro ⟨⟩
          exact ⟨rfl, hm, rfl, hn⟩
        · rintro ⟨⟨⟩, -, rfl, -⟩
          rfl
      · simp only [Option.bind_eq_bind, Option.bind_some, hm, guard_true, if_neg hn]
        constructor
        · rintro ⟨⟩
        · rintro ⟨-, -, rfl, h⟩
          exact absurd h hn
    · constructor
      · intro h
        simp [guard, hm] at h
      · rintro ⟨⟨⟩, h, -⟩
        exact absurd h hm

/-- Fields of 128 bits fill a word. -/
theorem set_halves (w : U256) (a b : BitVec 128) :
    Packed.set (Packed.set w 0 a) 128 b = Packed.set (Packed.set (0 : U256) 0 a) 128 b := by
  refine BitVec.eq_of_getLsbD_eq fun i hi => ?_
  rw [Packed.getLsbD_set hi, Packed.getLsbD_set hi, Packed.getLsbD_set hi, Packed.getLsbD_set hi]
  split_ifs <;> first | rfl | omega

/-- The words that `Tick.update` leaves, before a tick that empties is cleared. -/
def changedWords (info : TickWords) (tick : Int) (parent : LiquidityParent) (timestamp gross : Nat) (net : Int) :
    TickWords :=
  let info := if tickGross info.word0 = 0
    then initializeWords info tick parent.slot0.tick parent.feeGrowth0 parent.feeGrowth1 parent.oracle.now timestamp
    else info
  { info with word0 := liquidityWord gross net }

/-- What a liquidity change reads of the pool is what the storage holds. -/
structure ParentSpec (pool : Immutables) (F : Storage) (time : Nat) (parent : LiquidityParent) : Prop where
  slot0 : parent.slot0 = Slot0.decode F.slot0
  liquidity : parent.liquidity = (F 4).toNat
  liquidity_lt : (F 4).toNat < 2 ^ 128
  maxLiquidity : parent.maxLiquidityPerTick = pool.maxLiquidityPerTick
  oracle : AdvanceSpec F time F.liquidity parent.oracle
  feeGrowth0 : parent.feeGrowth0 = F.feeGrowthGlobal0
  feeGrowth1 : parent.feeGrowth1 = F.feeGrowthGlobal1
  spacing_pos : 0 < pool.tickSpacing
  price : PriceInTick F

theorem liquidity_eq {F : Storage} (h : (F 4).toNat < 2 ^ 128) : F.liquidity = (F 4).toNat := by
  unfold Storage.liquidity Packed.get
  rw [BitVec.extractLsb'_toNat, Nat.shiftRight_zero, Nat.mod_eq_of_lt h]

/-- The first words of an empty tick, as the contract fills them field by field. -/
theorem initializeTick_zero {pool : Immutables} {F : Storage} {time : Nat} {parent : LiquidityParent}
    (hp : ParentSpec pool F time parent) (tick : Int) :
    initializeTick TickWords.zero tick F.tick F.feeGrowthGlobal0 F.feeGrowthGlobal1
        (observeSingle F (BitVec.ofNat 32 time) F.tick F.observationIndex F.liquidity) (BitVec.ofNat 32 time) =
      initializeWords TickWords.zero tick parent.slot0.tick parent.feeGrowth0 parent.feeGrowth1 parent.oracle.now time := by
  have htick : parent.slot0.tick = F.tick := by rw [hp.slot0]; rfl
  unfold initializeTick initializeWords
  rw [hp.oracle.tickCumulative, hp.oracle.secondsPerLiquidity, hp.feeGrowth0, hp.feeGrowth1, htick]
  by_cases ht : tick ≤ F.tick
  · simp only [ht, if_true, TickWords.zero]
    rw [@Packed.set_comm _ _ _ (0 : U256) 56 0 _ _ (by omega)]
  · simp only [ht, if_false, TickWords.zero]

section
variable {keccak : Keccak} {pool : Immutables} {F : Storage} {time : Nat} {parent : LiquidityParent}

/-- `Tick.update` by its outcome, from any storage with this tick's words. -/
theorem tickUpdate_eq (hT : TicksAgree keccak pool.tickSpacing F) (hp : ParentSpec pool F time parent) {tick : Int}
    (ht : InRange tick) {G : Storage} (hG : tickInfo keccak G tick = tickInfo keccak F tick) (delta : Int) (upper : Bool) :
    tickUpdate keccak G tick F.tick delta F.feeGrowthGlobal0 F.feeGrowthGlobal1
        (observeSingle F (BitVec.ofNat 32 time) F.tick F.observationIndex F.liquidity) (BitVec.ofNat 32 time) upper
        pool.maxLiquidityPerTick =
      (changeTick (grossAt keccak F tick) (netAt keccak F tick) delta upper pool.maxLiquidityPerTick).map fun (g, n) =>
        (setTickInfo keccak G tick (changedWords (tickInfo keccak F tick) tick parent time g n),
          decide (g = 0) != decide (grossAt keccak F tick = 0)) := by
  set info := tickInfo keccak F tick with hinfo
  set entry := observeSingle F (BitVec.ofNat 32 time) F.tick F.observationIndex F.liquidity
  set info' := if tickGross info.word0 = 0
    then initializeTick info tick F.tick F.feeGrowthGlobal0 F.feeGrowthGlobal1 entry (BitVec.ofNat 32 time) else info
    with hinfo'
  have hword : ∀ gross net, { info' with
      word0 := Packed.set (Packed.set info'.word0 0 (BitVec.ofNat 128 gross)) 128 (BitVec.ofInt 128 net) } =
        changedWords info tick parent time gross net := by
    intro gross net
    rw [set_halves, hinfo', changedWords]
    by_cases hg : tickGross info.word0 = 0
    · have hzero : info = TickWords.zero := hT.empty tick ht hg
      rw [if_pos hg, if_pos hg, hzero, initializeTick_zero hp]
      rfl
    · rw [if_neg hg, if_neg hg]
      rfl
  have hnet : tickNet info'.word0 = netAt keccak F tick := by
    rw [hinfo']
    unfold initializeTick
    split_ifs <;> rfl
  have hstart : tickUpdate keccak G tick F.tick delta F.feeGrowthGlobal0 F.feeGrowthGlobal1 entry (BitVec.ofNat 32 time)
      upper pool.maxLiquidityPerTick = (addDelta (grossAt keccak F tick) delta).bind fun g =>
        (guard (g ≤ pool.maxLiquidityPerTick) : Option Unit).bind fun _ =>
          (toInt128 (tickNet info'.word0 + if upper then -delta else delta)).bind fun n =>
            some (setTickInfo keccak G tick { info' with
              word0 := Packed.set (Packed.set info'.word0 0 (BitVec.ofNat 128 g)) 128 (BitVec.ofInt 128 n) },
              decide (g = 0) != decide (grossAt keccak F tick = 0)) := by
    unfold tickUpdate
    rw [hG]
    rfl
  rw [hstart, hnet, changeTick]
  cases addDelta (grossAt keccak F tick) delta with
  | none => rfl
  | some g =>
    by_cases hg : g ≤ pool.maxLiquidityPerTick
    · cases hn : toInt128 (netAt keccak F tick + if upper then -delta else delta) with
      | none => simp
      | some n => simp [hg, hword]
    · simp [guard, hg]

/-- A burn flips a tick exactly where it empties it. -/
theorem changeTick_burn {gross g : Nat} {net delta n : Int} {upper : Bool} {maxLiquidity : Nat}
    (h : changeTick gross net delta upper maxLiquidity = some (g, n)) (hd : delta < 0) :
    (decide (g = 0) != decide (gross = 0)) = decide (g = 0) := by
  obtain ⟨ha, -⟩ := changeTick_eq_some.mp h
  unfold addDelta at ha
  rw [if_pos hd] at ha
  split_ifs at ha with hle
  have hgross : gross ≠ 0 := by omega
  simp [hgross]

/-- A mint never empties a tick. -/
theorem changeTick_mint {gross g : Nat} {net delta n : Int} {upper : Bool} {maxLiquidity : Nat}
    (h : changeTick gross net delta upper maxLiquidity = some (g, n)) (hd : 0 < delta) : g ≠ 0 := by
  obtain ⟨ha, -⟩ := changeTick_eq_some.mp h
  unfold addDelta at ha
  rw [if_neg (by omega)] at ha
  split_ifs at ha with hlt
  simp only [Option.some.injEq] at ha
  omega

/-! ### The replay of one boundary -/

/-- The signed change of the replay is `LiquidityMath.addDelta`, for results of 128 bits. -/
theorem change_eq_ok {event : DecodedLiquidity} (ha : 0 < event.amount) {x y : Nat} (hy : y < 2 ^ 128)
    {overflow underflow : AdapterEventError} :
    (if event.isMint then checkedAdd x event.amount overflow else checkedSub x event.amount underflow) = .ok y ↔
      addDelta x event.delta = some y := by
  unfold DecodedLiquidity.delta addDelta
  by_cases hmint : event.isMint = true
  · simp only [hmint, if_true, checkedAdd, bind_eq_ok, ensure_eq_ok, pure_eq_ok, exists_const]
    rw [if_neg (by omega)]
    split_ifs with h
    · simp only [Int.natAbs_natCast, Option.some.injEq]
      omega
    · simp only [iff_false, not_and]
      omega
  · simp only [hmint, if_false, checkedSub, bind_eq_ok, ensure_eq_ok, pure_eq_ok, exists_const, Bool.false_eq_true]
    rw [if_pos (by omega)]
    simp only [Int.natAbs_neg, Int.natAbs_natCast]
    split_ifs with h
    · simp only [Option.some.injEq, h, true_and]
    · simp [h]

/-- The replay changes the liquidity of a boundary as the contract does. -/
theorem changeTickLiquidity_eq_ok {event : DecodedLiquidity} {maxLiquidity : Nat} (ha : 0 < event.amount)
    (hm : maxLiquidity < 2 ^ 128) {upper : Bool} {word0 : U256} {r : Nat × Int} :
    changeTickLiquidity event maxLiquidity upper word0 = .ok r ↔
      changeTick (tickGross word0) (tickNet word0) event.delta upper maxLiquidity = some r := by
  obtain ⟨g, n⟩ := r
  rw [changeTick_eq_some, changeTickLiquidity]
  simp only [bind_eq_ok, ensure_eq_ok, pure_eq_ok, exists_const, Prod.mk.injEq]
  constructor
  · rintro ⟨g', hg', hle, hn, rfl, rfl⟩
    exact ⟨(change_eq_ok ha (hle.trans_lt hm)).mp hg', hle, rfl, hn⟩
  · rintro ⟨hg', hle, rfl, hn⟩
    exact ⟨g, (change_eq_ok ha (hle.trans_lt hm)).mpr hg', hle, hn, rfl, rfl⟩

theorem changedTickWords_eq (info : TickWords) (tick : Int) (parent : LiquidityParent) (timestamp gross : Nat)
    (net : Int) : changedTickWords info tick parent timestamp gross net =
      if gross = 0 then TickWords.zero else changedWords info tick parent timestamp gross net := by
  unfold changedTickWords changedWords
  by_cases hg : gross = 0
  · simp [hg]
  · simp [hg]

/-- Where the words of a tick agree with its bit, the replay accepts them. -/
theorem checkTickWords_of (hT : TicksAgree keccak pool.tickSpacing F) {tick : Int} (ht : InRange tick) :
    checkTickWords tick (tickInfo keccak F tick) = .ok () := by
  have hflag : tickFlag (tickInfo keccak F tick).word3 = 1 ↔ tickGross (tickInfo keccak F tick).word0 ≠ 0 :=
    hT.flag_iff tick ht
  unfold checkTickWords
  rw [ensure_bind (by simp only [hflag]), ensure_of]
  by_cases hg : tickGross (tickInfo keccak F tick).word0 = 0
  · exact .inr (hT.empty tick ht hg)
  · exact .inl (by simp [hg])

/-- The outcome says nothing of an absent cell. -/
def Decided {α : Type} (r : Result α) : Prop := ∀ address slot, r ≠ .error (.missingState address slot)

namespace Decided
variable {α β : Type}

theorem ok (a : α) : Decided (.ok a) := fun _ _ => nofun

theorem ensure {c : Prop} [Decidable c] {e : V3TransitionError} : Decided (Checked.ensure c (.v3Transition e)) := by
  intro address slot
  unfold Checked.ensure
  split_ifs
  · exact nofun
  · exact fun h => nomatch h

theorem bind {r : Result α} {f : α → Result β} (hr : Decided r) (hf : ∀ a, Decided (f a)) : Decided (r >>= f) := by
  intro address slot h
  cases r with
  | error e => exact hr address slot (by cases h; rfl)
  | ok a => exact hf a address slot h

theorem ite {c : Prop} [Decidable c] {r r' : Result α} (h : Decided r) (h' : Decided r') :
    Decided (if c then r else r') := by
  split_ifs
  · exact h
  · exact h'

end Decided

theorem decided_changeTickLiquidity {event : DecodedLiquidity} {maxLiquidity : Nat} {upper : Bool} {word0 : U256} :
    Decided (changeTickLiquidity event maxLiquidity upper word0) :=
  .bind (.ite (.bind .ensure fun _ => .ok _) (.bind .ensure fun _ => .ok _)) fun _ =>
    .bind .ensure fun _ => .bind .ensure fun _ => .ok _

/-- The update of a boundary whose new gross and net liquidity are known. -/
def tickUpdateOf (keccak : Keccak) (F : Storage) (parent : LiquidityParent) (time : Nat) (tick : Int) (gross : Nat)
    (net : Int) : CanonicalTickUpdate where
  keys := v3TickInfoStorageKeysWithBase keccak tick V3_TICKS_BASE_SLOT
  words := changedTickWords (tickInfo keccak F tick) tick parent time gross net
  wasInitialized := decide (grossAt keccak F tick ≠ 0)
  isInitialized := decide (gross ≠ 0)

theorem maxLiquidityPerTick_lt (pool : Immutables) : pool.maxLiquidityPerTick < 2 ^ 128 := by
  unfold Immutables.maxLiquidityPerTick
  exact lt_of_le_of_lt (Nat.div_le_self _ _) (by decide)

section
variable {state : StateView} {address : Address} {event : DecodedLiquidity}

theorem boundaryWords_of_holds (h : Holds state address F) (hT : TicksAgree keccak pool.tickSpacing F) {tick : Int}
    (ht : InRange tick) :
    boundaryWords keccak address (.uniswap pool.tickSpacing) state tick (decide (grossAt keccak F tick ≠ 0)) =
      .ok (tickInfo keccak F tick) := by
  unfold boundaryWords
  by_cases hg : grossAt keccak F tick = 0
  · have hzero : (state.storage address (v3TickInfoStorageKeyWithBase keccak tick
        (V3StorageLayout.uniswap pool.tickSpacing).ticksBaseSlot 0)).all (tickGross · = 0) := by
      rw [h _]
      exact decide_eq_true hg
    rw [if_neg (by simp [hg]), ensure_bind hzero, hT.empty tick ht hg]
    rfl
  · rw [if_pos (by simp [hg]), loadTickWords]
    simp only [h.required, ok_bind]
    rfl

/-- The bit that the replay reads of a boundary. -/
theorem boundaryBit (hT : TicksAgree keccak pool.tickSpacing F) (hs : 0 < pool.tickSpacing) {tick : Int}
    (ht : InRange tick) (ha : tick % pool.tickSpacing = 0) :
    F (bitmapSlot keccak (v3WordPosition tick pool.tickSpacing)) &&& (1 : U256) <<<
      (tick / pool.tickSpacing % 256).toNat ≠ 0
      ↔ grossAt keccak F tick ≠ 0 := by
  rw [and_mask_ne_zero (bitPosition_lt _), ← bit_of_aligned hT hs ht ha]
  rfl

theorem resolveBoundary_of_holds (h : Holds state address F) (hT : TicksAgree keccak pool.tickSpacing F)
    (hp : ParentSpec pool F time parent) (hamount : 0 < event.amount) {tick : Int} (ht : InRange tick)
    (ha : tick % pool.tickSpacing = 0) (upper : Bool) :
    (∀ g n, changeTick (grossAt keccak F tick) (netAt keccak F tick) event.delta upper pool.maxLiquidityPerTick =
        some (g, n) →
      resolveBoundary keccak address (.uniswap pool.tickSpacing) state event parent time
        (boundaryPosition keccak address (.uniswap pool.tickSpacing) state tick upper) =
          .ok (some (tickUpdateOf keccak F parent time tick g n))) ∧
    (changeTick (grossAt keccak F tick) (netAt keccak F tick) event.delta upper pool.maxLiquidityPerTick = none →
      ∃ e, resolveBoundary keccak address (.uniswap pool.tickSpacing) state event parent time
        (boundaryPosition keccak address (.uniswap pool.tickSpacing) state tick upper) = .error e) := by
  have hval : (boundaryPosition keccak address (.uniswap pool.tickSpacing) state tick upper).value =
      some (F (bitmapSlot keccak (v3WordPosition tick pool.tickSpacing))) := h _
  have hbit : decide (F (bitmapSlot keccak (v3WordPosition tick pool.tickSpacing)) &&&
      (boundaryPosition keccak address (.uniswap pool.tickSpacing) state tick upper).mask ≠ 0) =
        decide (grossAt keccak F tick ≠ 0) := decide_eq_decide.mpr (boundaryBit hT hp.spacing_pos ht ha)
  have hupdate : updateCanonicalLiquidityTick keccak address (.uniswap pool.tickSpacing) state event parent time tick upper
      (decide (grossAt keccak F tick ≠ 0)) =
        changeTickLiquidity event pool.maxLiquidityPerTick upper (tickInfo keccak F tick).word0 >>= fun (g, n) =>
          .ok (tickUpdateOf keccak F parent time tick g n) := by
    unfold updateCanonicalLiquidityTick
    rw [boundaryWords_of_holds h hT ht, ok_bind, checkTickWords_of hT ht, ok_bind, hp.maxLiquidity]
    rfl
  have hchange : ∀ r, changeTickLiquidity event pool.maxLiquidityPerTick upper (tickInfo keccak F tick).word0 = .ok r ↔
      changeTick (grossAt keccak F tick) (netAt keccak F tick) event.delta upper pool.maxLiquidityPerTick = some r :=
    fun r => changeTickLiquidity_eq_ok hamount (maxLiquidityPerTick_lt pool)
  unfold resolveBoundary
  rw [hval]
  simp only [hbit]
  rw [show (boundaryPosition keccak address (.uniswap pool.tickSpacing) state tick upper).tick = tick from rfl,
    show (boundaryPosition keccak address (.uniswap pool.tickSpacing) state tick upper).upper = upper from rfl, hupdate]
  refine ⟨fun g n hc => ?_, fun hc => ?_⟩
  · rw [(hchange (g, n)).mpr hc]
    rfl
  · cases hr : changeTickLiquidity event pool.maxLiquidityPerTick upper (tickInfo keccak F tick).word0 with
    | ok r => exact absurd ((hchange r).mp hr) (by rw [hc]; nofun)
    | error e =>
      refine ⟨e, ?_⟩
      have hd := hr ▸ (decided_changeTickLiquidity : Decided (changeTickLiquidity event pool.maxLiquidityPerTick upper
        (tickInfo keccak F tick).word0))
      cases e with
      | missingState a b => exact absurd rfl (hd a b)
      | malformedLog w => rfl
      | v3Transition e => rfl

/-! ### Bitmap flips -/

/-- The storage with the bit of a tick toggled where the tick flips. -/
def flipCell (keccak : Keccak) (spacing : Int) (flipped : Bool) (F : Storage) (tick : Int) : Storage :=
  let slot := bitmapSlot keccak (v3WordPosition tick spacing)
  if flipped then Function.update F slot (F slot ^^^ (1 : U256) <<< (tick / spacing % 256).toNat) else F

theorem flipTick_eq {spacing tick : Int} (ha : tick % spacing = 0) (flipped : Bool) (G : Storage) :
    (if flipped then flipTick keccak G tick spacing else some G) = some (flipCell keccak spacing flipped G tick) := by
  cases flipped with
  | false => rfl
  | true => simp [flipTick, flipCell, ha, v3WordPosition]

/-- A flip of another tick leaves the bit of this one. -/
theorem flipCell_bit {spacing s t : Int} (hs : 0 < spacing) (hsr : InRange s) (htr : InRange t) (hsa : s % spacing = 0)
    (hta : t % spacing = 0) (hne : s ≠ t) (hk : DistinctKeys keccak) (flipped : Bool) :
    bitSet keccak (flipCell keccak spacing flipped F s) (t / spacing) = bitSet keccak F (t / spacing) :=
  toggled_bit hk.bitmap_inj hs hsr htr hsa hta hne flipped F

theorem flipCell_setTickInfo (hk : DistinctKeys keccak) {spacing s t : Int} (hs : InRange s) (flipped : Bool)
    (w : TickWords) : flipCell keccak spacing flipped (setTickInfo keccak F s w) t =
      setTickInfo keccak (flipCell keccak spacing flipped F t) s w := by
  cases flipped with
  | false => rfl
  | true =>
    unfold flipCell
    simp only [if_true]
    rw [setTickInfo_bitmap hk hs, setTickInfo_update_comm fun i hi h => hk.tick_ne_bitmap hs hi h.symm]

end

section
variable {event : DecodedLiquidity} {gL gU : Nat} {nL nU : Int}

/-- A tick write does not look at other cells. -/
theorem setTickInfo_apply_congr {F G : Storage} {t : Int} {w : TickWords} {x : U256} (h : F x = G x) :
    setTickInfo keccak F t w x = setTickInfo keccak G t w x := by
  unfold setTickInfo
  simp only [Function.update_apply, h]

/-- Both boundaries after a change, and the flips between. -/
def movedBoundaries (keccak : Keccak) (pool : Immutables) (F : Storage) (parent : LiquidityParent) (time : Nat)
    (tickLower tickUpper : Int) (lower upper : Nat × Int) : Storage :=
  let flip (tick : Int) (g : Nat) (F' : Storage) :=
    flipCell keccak pool.tickSpacing (decide (g = 0) != decide (grossAt keccak F tick = 0)) F' tick
  let write (tick : Int) (r : Nat × Int) (F' : Storage) :=
    setTickInfo keccak F' tick (changedTickWords (tickInfo keccak F tick) tick parent time r.1 r.2)
  write tickUpper upper (write tickLower lower (flip tickUpper upper.1 (flip tickLower lower.1 F)))

/-- Clearing a tick after a write is the write of its final words. -/
theorem clear_written (G : Storage) (t : Int) (w : TickWords) (g : Nat) :
    (if g = 0 then tickClear keccak (setTickInfo keccak G t w) t else setTickInfo keccak G t w) =
      setTickInfo keccak G t (if g = 0 then TickWords.zero else w) := by
  split_ifs
  · exact setTickInfo_setTickInfo _ _ _ _
  · rfl

/-- The same for the tick below, written before. -/
theorem clear_lower (hk : DistinctKeys keccak) {s t : Int} (hs : InRange s) (ht : InRange t) (h : s ≠ t) (G : Storage)
    (w w' : TickWords) (g : Nat) :
    (if g = 0 then tickClear keccak (setTickInfo keccak (setTickInfo keccak G s w) t w') s
      else setTickInfo keccak (setTickInfo keccak G s w) t w') =
        setTickInfo keccak (setTickInfo keccak G s (if g = 0 then TickWords.zero else w)) t w' := by
  split_ifs
  · rw [tickClear, ← setTickInfo_comm hk hs ht h, setTickInfo_setTickInfo]
  · rfl

/-- The tick writes of a position change, from those of its two boundaries. -/
theorem updatePosition_eq (hk : DistinctKeys keccak) (hT : TicksAgree keccak pool.tickSpacing F)
    (hp : ParentSpec pool F time parent) {tickLower tickUpper delta : Int} (hL : InRange tickLower) (hU : InRange tickUpper)
    (haL : tickLower % pool.tickSpacing = 0) (haU : tickUpper % pool.tickSpacing = 0) (hlt : tickLower < tickUpper)
    (hd : delta ≠ 0) :
    updatePosition keccak pool F (BitVec.ofNat 32 time) tickLower tickUpper delta =
      (changeTick (grossAt keccak F tickLower) (netAt keccak F tickLower) delta false pool.maxLiquidityPerTick).bind
      fun l =>
        (changeTick (grossAt keccak F tickUpper) (netAt keccak F tickUpper) delta true pool.maxLiquidityPerTick).bind
        fun u =>
          some (movedBoundaries keccak pool F parent time tickLower tickUpper l u) := by
  unfold updatePosition
  rw [if_neg hd]
  simp only [Option.bind_eq_bind]
  rw [tickUpdate_eq hT hp hL rfl]
  cases hcL : changeTick (grossAt keccak F tickLower) (netAt keccak F tickLower) delta false pool.maxLiquidityPerTick with
  | none => rfl
  | some l =>
    obtain ⟨gL, nL⟩ := l
    simp only [Option.map_some, Option.bind_some]
    rw [tickUpdate_eq hT hp hU (tickInfo_setTickInfo_of_ne hk hL hU hlt.ne' _)]
    cases hcU : changeTick (grossAt keccak F tickUpper) (netAt keccak F tickUpper) delta true pool.maxLiquidityPerTick with
    | none => rfl
    | some u =>
      obtain ⟨gU, nU⟩ := u
      simp only [Option.map_some, Option.bind_some]
      rw [flipTick_eq haL]
      simp only [Option.bind_some]
      rw [flipTick_eq haU]
      simp only [Option.bind_some, flipCell_setTickInfo hk hU, flipCell_setTickInfo hk hL]
      unfold movedBoundaries
      simp only [changedTickWords_eq]
      by_cases hneg : delta < 0
      · rw [if_pos hneg, changeTick_burn hcL hneg, changeTick_burn hcU hneg]
        simp only [decide_eq_true_eq, pure, clear_lower hk hL hU hlt.ne, clear_written]
      · rw [if_neg hneg, if_neg (changeTick_mint hcL (by omega)), if_neg (changeTick_mint hcU (by omega))]
        rfl

/-! ### Flips of the replay -/

/-- A merge of flips on a view: off the cold slots its words are those of `G`, and they differ from those of `F` only at
    the slots it notes. -/
structure Merged (view : U256 → Option U256) (F G : Storage) (cold slots : List U256) (s : BitmapState) : Prop where
  values : ∀ x ∉ cold, (view x).isSome → s.values x = some (G x)
  unchanged : ∀ x ∉ cold, x ∉ s.changed → G x = F x
  mem : ∀ x ∈ s.changed, x ∈ slots ∧ (view x).isSome

namespace Merged
variable {view : U256 → Option U256} {G : Storage} {cold slots : List U256} {s s' : BitmapState} {tick : Int}

/-- A flip whose slot is cold is not looked at. -/
theorem flip_cold (h : Merged view F G cold slots s) {spacing : Int}
    (hcold : bitmapSlot keccak (v3WordPosition tick spacing) ∈ cold) (flipped : Bool) :
    Merged view F (flipCell keccak spacing flipped G tick) cold slots s := by
  have hcell : ∀ x ∉ cold, flipCell keccak spacing flipped G tick x = G x := by
    intro x hx
    unfold flipCell
    split_ifs
    · exact Function.update_of_ne (ne_of_mem_of_not_mem hcold hx).symm _ _
    · rfl
  exact ⟨fun x hx hv => by rw [hcell x hx]; exact h.values x hx hv,
    fun x hx hc => by rw [hcell x hx]; exact h.unchanged x hx hc, h.mem⟩

/-- A boundary of the merge whose word is held: the flipped cell, and its slot noted. -/
theorem flip_some (h : Merged view F G cold slots s) {address : Address} {state : StateView} {upper : Bool} {g : Nat}
    {n : Int} (hheld : (view (bitmapSlot keccak (v3WordPosition tick pool.tickSpacing))).isSome)
    (hmem : bitmapSlot keccak (v3WordPosition tick pool.tickSpacing) ∈ slots)
    (hflip : flipBoundary s (some (tickUpdateOf keccak F parent time tick g n),
      boundaryPosition keccak address (.uniswap pool.tickSpacing) state tick upper) = .ok s') :
    Merged view F (flipCell keccak pool.tickSpacing
      (decide (g = 0) != decide (grossAt keccak F tick = 0)) G tick) cold slots
      s' := by
  set slot := bitmapSlot keccak (v3WordPosition tick pool.tickSpacing) with hslot
  have hiff : ((tickUpdateOf keccak F parent time tick g n).wasInitialized ≠
      (tickUpdateOf keccak F parent time tick g n).isInitialized) ↔
        (decide (g = 0) != decide (grossAt keccak F tick = 0)) = true := by
    simp only [tickUpdateOf, ne_eq, bne_iff_ne]
    by_cases h₁ : g = 0 <;> by_cases h₂ : grossAt keccak F tick = 0 <;> simp [h₁, h₂]
  obtain ⟨_, -, hflip⟩ := bind_eq_ok.mp hflip
  unfold flipCell
  by_cases hf : (decide (g = 0) != decide (grossAt keccak F tick = 0)) = true
  · rw [if_pos (hiff.mpr hf)] at hflip
    obtain rfl := pure_eq_ok.mp hflip
    rw [if_pos hf]
    refine ⟨fun x hx hv => ?_, fun x hx hc => ?_, fun x hx => ?_⟩
    · by_cases hxs : x = slot
      · subst hxs
        have hval := h.values slot hx hv
        show Function.update s.values slot (some ((s.values slot).getD 0 ^^^ _)) slot = _
        rw [Function.update_self, hval, Function.update_self]
        rfl
      · exact (Function.update_of_ne hxs _ _).trans ((h.values x hx hv).trans
          (congrArg some (Function.update_of_ne hxs _ _).symm))
    · obtain ⟨hne, hc⟩ := not_or.mp (mt List.mem_cons.mpr hc)
      exact (Function.update_of_ne hne _ _).trans (h.unchanged x hx hc)
    · rcases List.mem_cons.mp hx with rfl | hx
      · exact ⟨hmem, hheld⟩
      · exact h.mem x hx
  · rw [if_neg fun hne => hf (hiff.mp hne)] at hflip
    obtain rfl := pure_eq_ok.mp hflip
    rwa [if_neg hf]

/-- A flip whose bit is right succeeds. -/
theorem flip_ok (h : Merged view F G cold slots s) (address : Address) (state : StateView) (parent : LiquidityParent)
    (time : Nat) (upper : Bool) (g : Nat) (n : Int)
    (hheld : (view (bitmapSlot keccak (v3WordPosition tick pool.tickSpacing))).isSome)
    (hcold : bitmapSlot keccak (v3WordPosition tick pool.tickSpacing) ∉ cold)
    (hbit : bitSet keccak G (tick / pool.tickSpacing) = true ↔ grossAt keccak F tick ≠ 0) :
    ∃ s', flipBoundary s (some (tickUpdateOf keccak F parent time tick g n),
      boundaryPosition keccak address (.uniswap pool.tickSpacing) state tick upper) = .ok s' := by
  set position := boundaryPosition keccak address (.uniswap pool.tickSpacing) state tick upper
  have hval : s.values position.slot = some (G position.slot) := h.values _ hcold hheld
  have hbit' : decide (G position.slot &&& position.mask ≠ 0) =
      (tickUpdateOf keccak F parent time tick g n).wasInitialized :=
    decide_eq_decide.mpr ((and_mask_ne_zero (bitPosition_lt _)).trans hbit)
  simp only [flipBoundary, hval, Option.getD_some]
  rw [ensure_bind hbit']
  split_ifs
  · exact ⟨_, rfl⟩
  · exact ⟨_, rfl⟩

/-- The batch of a merge writes its words where they changed. -/
theorem applyUpdates {H : Storage} {address : Address} {lower upper : BoundaryPosition}
    (h : Merged view F G cold [lower.slot, upper.slot] s) {x : U256} (hx : x ∉ cold) :
    H.applyUpdates (bitmapUpdates address s cold lower upper) x = if x ∈ s.changed then G x else H x := by
  have hmap : bitmapUpdates address s cold lower upper =
      (((if lower.slot.toNat ≤ upper.slot.toNat then [lower.slot, upper.slot] else [upper.slot, lower.slot]).dedup.filter
        fun slot => slot ∈ s.changed ∧ slot ∉ cold).map fun slot => ⟨address, slot, G slot⟩) := by
    unfold bitmapUpdates
    rw [← List.filterMap_eq_map]
    refine List.filterMap_congr fun slot hslot => ?_
    obtain ⟨-, hslot⟩ := List.mem_filter.mp hslot
    obtain ⟨hc, hn⟩ := of_decide_eq_true hslot
    rw [h.values slot hn (h.mem slot hc).2]
    rfl
  rw [hmap, Storage.applyUpdates_map]
  refine if_congr ?_ rfl rfl
  have hmem := fun hc => (h.mem x hc).1
  simp only [List.mem_cons, List.not_mem_nil, or_false] at hmem
  simp only [List.mem_filter, List.mem_dedup, decide_eq_true_eq]
  constructor
  · exact fun hc => hc.2.1
  · intro hc
    refine ⟨?_, hc, hx⟩
    split_ifs
    · simpa using hmem hc
    · simpa [or_comm] using hmem hc

end Merged

theorem tickWordUpdates_address {address : Address} {keys : List U256} {words : TickWords} {u : StateUpdate}
    (h : u ∈ tickWordUpdates address keys words) : u.address = address := by
  obtain ⟨p, -, rfl⟩ := List.mem_map.mp h
  rfl

theorem bitmapUpdates_address {s : BitmapState} {cold : List U256} {address : Address} {lower upper : BoundaryPosition}
    {u : StateUpdate} (h : u ∈ bitmapUpdates address s cold lower upper) : u.address = address := by
  obtain ⟨slot, -, hu⟩ := List.mem_filterMap.mp h
  obtain ⟨value, -, rfl⟩ := Option.map_eq_some_iff.mp hu
  rfl

end
end

end AmmState.Canonical
