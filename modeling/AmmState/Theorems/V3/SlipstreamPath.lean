import AmmState.Theorems.V3.Budget
import AmmState.Theorems.V3.Liquidity
import AmmState.Theorems.V3.Path
import AmmState.Theorems.V3.Ratios
import AmmState.V3.Slipstream

/-! The price path of a Slipstream replay: every step goes in the swap's direction between two prices of `TickMath` that are
    at most one bitmap word apart. -/

namespace AmmState.V3
open Checked Canonical

/-- What the replay knows of a step. The amounts are those of the move, and a step spans at most one word. -/
structure ReplayedSegment (zeroForOne : Bool) (segment : SlipstreamSegment) : Prop where
  start : InBounds segment.sqrtStart
  finish : InBounds segment.sqrtEnd
  directed : Directed zeroForOne segment.sqrtStart segment.sqrtEnd
  near : segment.sqrtStart ≤ 2 ^ 14 * segment.sqrtEnd
  liquidity_lt : segment.liquidity < 2 ^ 128
  amounts : segmentAmounts segment.sqrtStart segment.sqrtEnd segment.liquidity zeroForOne =
    .ok (segment.amountIn, segment.amountOut)

/-- The path stands on a price of its tick and has not passed the event. -/
structure SlipstreamPathInv (swap : DecodedSwap) (zeroForOne : Bool) (path : SlipstreamPath) : Prop where
  tick_ge : MIN_TICK ≤ path.tick
  tick_lt : path.tick < MAX_TICK
  lower : sqrtRatio path.tick ≤ path.sqrt
  upper : path.sqrt ≤ sqrtRatio (path.tick + 1)
  directed : Directed zeroForOne path.sqrt swap.sqrtPriceX96
  liquidity_lt : path.liquidity < 2 ^ 128
  segments : ∀ segment ∈ path.segments, ReplayedSegment zeroForOne segment

theorem SlipstreamPathInv.inBounds {swap : DecodedSwap} {zeroForOne : Bool} {path : SlipstreamPath}
    (h : SlipstreamPathInv swap zeroForOne path) : InBounds path.sqrt := by
  have hge := h.tick_ge
  have hlt := h.tick_lt
  constructor
  · rw [← sqrtRatio_min]
    exact (sqrtRatio_le le_rfl hge hlt.le).trans h.lower
  · rw [← sqrtRatio_max]
    exact h.upper.trans (sqrtRatio_le (by omega) (by omega) le_rfl)

theorem FinalTick.inBounds {swap : DecodedSwap} {zeroForOne : Bool} (h : FinalTick swap zeroForOne) :
    InBounds swap.sqrtPriceX96 := ⟨h.price_gt.le, h.price_lt.le⟩

/-! ### One step -/

section Step
variable {keccak : Keccak} {address : Address} {layout : V3StorageLayout} {state : StateView} {swap : DecodedSwap}
  {zeroForOne : Bool} {path path' : SlipstreamPath}

/-- A boundary lies in the direction of the swap, within one word. -/
theorem nextStepBoundary_bounds (hs : 0 < layout.tickSpacing) {tick : Int} (hge : MIN_TICK ≤ tick) (hlt : tick < MAX_TICK)
    {boundary : StepBoundary} (hok : nextStepBoundary keccak address layout state tick zeroForOne = .ok boundary) :
    MIN_TICK ≤ boundary.tick ∧ boundary.tick ≤ MAX_TICK ∧
      if zeroForOne then boundary.tick ≤ tick ∧
        tick < boundary.tick + 256 * layout.tickSpacing else tick < boundary.tick := by
  obtain ⟨bitmap, -, hok⟩ := bind_eq_ok.mp hok
  obtain ⟨_, -, hok⟩ := bind_eq_ok.mp hok
  obtain rfl := pure_eq_ok.mp hok
  have hmin : MIN_TICK ≤ MAX_TICK := by decide
  have hdiv := Int.ediv_mul_le tick (Int.ne_of_gt hs)
  have hmod := Int.lt_ediv_add_one_mul_self tick hs
  cases zeroForOne with
  | true =>
    have hsearch := searchWord_spec bitmap (tick / layout.tickSpacing) true
    obtain ⟨hle, -, -⟩ := hsearch.down rfl
    have hword := hsearch.word
    simp only [if_true]
    set found := (searchWord bitmap (tick / layout.tickSpacing) true).1 with hfound
    have hupper : found * layout.tickSpacing ≤ tick := (Int.mul_le_mul_of_nonneg_right hle hs.le).trans hdiv
    have hlower : tick < found * layout.tickSpacing + 256 * layout.tickSpacing := by
      have hdistance : tick / layout.tickSpacing + 1 ≤ found + 256 := by omega
      have hscaled := Int.mul_le_mul_of_nonneg_right hdistance hs.le
      rw [Int.add_mul found] at hscaled
      exact hmod.trans_le hscaled
    omega
  | false =>
    have hsearch := searchWord_spec bitmap (tick / layout.tickSpacing + 1) false
    obtain ⟨hle, -, -⟩ := hsearch.up rfl
    simp only [Bool.false_eq_true, if_false]
    set found := (searchWord bitmap (tick / layout.tickSpacing + 1) false).1 with hfound
    have hupper : tick < found * layout.tickSpacing := hmod.trans_le (Int.mul_le_mul_of_nonneg_right hle hs.le)
    omega

theorem applyLiquidityNet_lt {liquidity r : Nat} {net : Int} (h : applyLiquidityNet liquidity net zeroForOne = .ok r) :
    r < 2 ^ 128 := by
  have hchecked : ∀ x : Result Nat, (x >>= fun result =>
      ensure (result ≤ WORD_128_MASK) (arithmetic "active liquidity exceeds uint128") >>= fun _ => pure result) = .ok r →
      r < 2 ^ 128 := by
    intro x h
    obtain ⟨result, -, h⟩ := bind_eq_ok.mp h
    obtain ⟨_, hle, h⟩ := bind_eq_ok.mp h
    obtain rfl := pure_eq_ok.mp h
    have hle := ensure_eq_ok.mp hle
    unfold WORD_128_MASK at hle
    omega
  cases zeroForOne with
  | true =>
    obtain ⟨_, -, h⟩ := bind_eq_ok.mp h
    exact hchecked _ h
  | false => exact hchecked _ h

theorem crossSlipstreamBoundary_lt {boundary : StepBoundary} {reached : Bool} {liquidity staked liquidity' staked' : Nat}
    {crossed : Option SlipstreamInitializedTick} (hlt : liquidity < 2 ^ 128)
    (hok : crossSlipstreamBoundary keccak address layout state boundary reached liquidity staked zeroForOne =
      .ok (crossed, liquidity', staked')) : liquidity' < 2 ^ 128 := by
  rw [crossSlipstreamBoundary] at hok
  split_ifs at hok with hcross
  · obtain ⟨tick, -, hok⟩ := bind_eq_ok.mp hok
    obtain ⟨next, hnext, hok⟩ := bind_eq_ok.mp hok
    obtain ⟨nextStaked, -, hok⟩ := bind_eq_ok.mp hok
    obtain ⟨_, -, hok⟩ := bind_eq_ok.mp hok
    cases hok
    exact applyLiquidityNet_lt hnext
  · cases hok
    exact hlt

/-- The amounts of a step that moves no price. -/
theorem segmentAmounts_self {sqrt liquidity : Nat} (hsqrt : 0 < sqrt) (zeroForOne : Bool) :
    segmentAmounts sqrt sqrt liquidity zeroForOne = .ok (0, 0) := by
  have hzero0 : ∀ roundUp, amount0Delta sqrt sqrt liquidity roundUp = .ok 0 := by
    intro roundUp
    rw [amount0Delta, Nat.sub_self, Nat.mul_zero, Nat.zero_mul]
    refine div512_eq_ok.mpr ⟨Nat.mul_pos hsqrt hsqrt, ?_, by decide⟩
    cases roundUp with
    | true => exact (zero_ceilDiv _).symm
    | false => exact (Nat.zero_div _).symm
  have hzero1 : ∀ roundUp, amount1Delta sqrt sqrt liquidity roundUp = .ok 0 := by
    intro roundUp
    rw [amount1Delta, Nat.sub_self, Nat.mul_zero]
    refine div512_eq_ok.mpr ⟨by decide, ?_, by decide⟩
    cases roundUp with
    | true => exact (zero_ceilDiv _).symm
    | false => exact (Nat.zero_div _).symm
  rw [segmentAmounts, ensure_bind ⟨Nat.ne_of_gt hsqrt, Nat.ne_of_gt hsqrt⟩, if_neg (Nat.lt_irrefl sqrt)]
  cases zeroForOne with
  | true =>
    rw [if_pos rfl, hzero0, ok_bind, hzero1]
    rfl
  | false =>
    rw [if_neg (by simp), hzero1, ok_bind, hzero0]
    rfl

/-- A step that moves no price. -/
theorem ReplayedSegment.still {segment : SlipstreamSegment} (hstart : InBounds segment.sqrtStart)
    (hend : segment.sqrtEnd = segment.sqrtStart) (hlt : segment.liquidity < 2 ^ 128) (hin : segment.amountIn = 0)
    (hout : segment.amountOut = 0) : ReplayedSegment zeroForOne segment := by
  refine ⟨hstart, hend ▸ hstart, ?_, ?_, hlt, ?_⟩
  · rw [hend]
    unfold Directed
    split_ifs <;> exact le_rfl
  · rw [hend]
    exact Nat.le_mul_of_pos_left _ (by decide)
  · rw [hend, hin, hout]
    exact segmentAmounts_self hstart.pos zeroForOne

theorem SlipstreamPathInv.append {segments : List SlipstreamSegment} {segment : SlipstreamSegment}
    (h : ∀ s ∈ segments, ReplayedSegment zeroForOne s) (hsegment : ReplayedSegment zeroForOne segment) :
    ∀ s ∈ segments ++ [segment], ReplayedSegment zeroForOne s := by
  intro s hs
  rcases List.mem_append.mp hs with hs | hs
  · exact h s hs
  · exact List.mem_singleton.mp hs ▸ hsegment

/-- The prices of a step are near each other, since a word has few ticks. -/
theorem step_near (hs : layout.tickSpacing = 200) (hpath : SlipstreamPathInv swap zeroForOne path) {boundary : Int}
    (hmin : MIN_TICK ≤ boundary)
    (hword : if zeroForOne then boundary ≤ path.tick ∧ path.tick < boundary + 256 * layout.tickSpacing
      else path.tick < boundary) {target : Nat}
    (htarget : if zeroForOne then sqrtRatio boundary ≤ target else path.sqrt ≤ target) :
    path.sqrt ≤ 2 ^ 14 * target := by
  cases zeroForOne with
  | true =>
    obtain ⟨hle, hlt⟩ := hword
    have hmax := hpath.tick_lt
    rw [hs] at hlt
    have hnear : sqrtRatio (path.tick + 1) ≤ 2 ^ 14 * sqrtRatio boundary :=
      sqrtRatio_near hmin (by omega) (by omega) (by omega)
    calc path.sqrt ≤ sqrtRatio (path.tick + 1) := hpath.upper
      _ ≤ 2 ^ 14 * sqrtRatio boundary := hnear
      _ ≤ 2 ^ 14 * target := Nat.mul_le_mul_left _ htarget
  | false => exact Nat.le_trans htarget (Nat.le_mul_of_pos_left _ (by decide))

theorem slipstreamStep_inv (hs : layout.tickSpacing = 200) (hfinal : FinalTick swap zeroForOne)
    (hpath : SlipstreamPathInv swap zeroForOne path)
    (hok : slipstreamStep keccak address layout state swap zeroForOne path = .ok path') :
    SlipstreamPathInv swap zeroForOne path' := by
  obtain ⟨boundary, hboundary, hok⟩ := bind_eq_ok.mp hok
  obtain ⟨boundarySqrt, hsqrt, hok⟩ := bind_eq_ok.mp hok
  obtain ⟨⟨amountIn, amountOut⟩, hamounts, hok⟩ := bind_eq_ok.mp hok
  obtain ⟨⟨crossed, liquidity, staked⟩, hcross, hok⟩ := bind_eq_ok.mp hok
  obtain rfl := pure_eq_ok.mp hok
  obtain ⟨hrange, rfl⟩ := sqrtRatioAtTick_eq_ok.mp hsqrt
  have hliquidity := crossSlipstreamBoundary_lt hpath.liquidity_lt hcross
  obtain ⟨hmin, hmax, hword⟩ := nextStepBoundary_bounds (by omega) hpath.tick_ge hpath.tick_lt hboundary
  set target := if zeroForOne then max (sqrtRatio boundary.tick) swap.sqrtPriceX96
    else min (sqrtRatio boundary.tick) swap.sqrtPriceX96 with htarget
  have hdirected : Directed zeroForOne path.sqrt target ∧ Directed zeroForOne target swap.sqrtPriceX96 := by
    have hto := hpath.directed
    have hge := hpath.tick_ge
    have hlt := hpath.tick_lt
    unfold Directed at hto ⊢
    rw [htarget]
    cases zeroForOne with
    | true =>
      simp only [if_true] at hto hword ⊢
      have hbelow := (sqrtRatio_le hmin hword.1 hlt.le).trans hpath.lower
      exact ⟨max_le hbelow hto, le_max_right _ _⟩
    | false =>
      simp only [Bool.false_eq_true, if_false] at hto hword ⊢
      have habove := hpath.upper.trans (sqrtRatio_le (by omega) (by omega) hmax)
      exact ⟨le_min habove hto, min_le_right _ _⟩
  have hbounds : InBounds target := by
    have hboundaryBounds : InBounds (sqrtRatio boundary.tick) := by
      refine ⟨sqrtRatio_min ▸ sqrtRatio_le le_rfl hmin hmax, sqrtRatio_max ▸ sqrtRatio_le hmin hmax le_rfl⟩
    have hprice := FinalTick.inBounds hfinal
    rw [htarget]
    split_ifs
    · exact ⟨hprice.1.trans (le_max_right _ _), max_le hboundaryBounds.2 hprice.2⟩
    · exact ⟨le_min hboundaryBounds.1 hprice.1, (min_le_right _ _).trans hprice.2⟩
  have hnear : path.sqrt ≤ 2 ^ 14 * target := by
    refine step_near hs hpath hmin hword ?_
    have hto := hdirected.1
    cases zeroForOne with
    | true => exact le_max_left _ _
    | false => exact hto
  have hsegment : ReplayedSegment zeroForOne ⟨path.sqrt, target, path.liquidity, path.stakedLiquidity, amountIn, amountOut,
      decide (target = sqrtRatio boundary.tick), crossed⟩ :=
    ⟨hpath.inBounds, hbounds, hdirected.1, hnear, hpath.liquidity_lt, hamounts⟩
  have hsegments := SlipstreamPathInv.append hpath.segments hsegment
  by_cases hreached : target = sqrtRatio boundary.tick
  · have hside : if zeroForOne then swap.sqrtPriceX96 ≤ sqrtRatio boundary.tick
        else sqrtRatio boundary.tick ≤ swap.sqrtPriceX96 := hreached ▸ hdirected.2
    obtain ⟨h₁, h₂, h₃, h₄⟩ := reached_bounds hfinal ⟨hmin, hmax⟩ hside
    rw [decide_eq_true hreached] at hsegments ⊢
    exact ⟨h₁, h₂, h₃.trans hreached.ge, hreached.le.trans h₄, hdirected.2, hliquidity, hsegments⟩
  · have hprice : target = swap.sqrtPriceX96 := by
      cases zeroForOne with
      | true => exact max_eq_right (le_of_lt (lt_of_not_ge fun hle => hreached (max_eq_left hle)))
      | false => exact min_eq_right (le_of_lt (lt_of_not_ge fun hle => hreached (min_eq_left hle)))
    rw [decide_eq_false hreached] at hsegments ⊢
    exact ⟨hfinal.tick_ge, hfinal.tick_lt, hfinal.lower.trans hprice.ge, hprice.le.trans hfinal.upper_le, hdirected.2,
      hliquidity, hsegments⟩

theorem slipstreamStep_length (hok : slipstreamStep keccak address layout state swap zeroForOne path = .ok path') :
    path'.segments.length = path.segments.length + 1 := by
  obtain ⟨boundary, -, hok⟩ := bind_eq_ok.mp hok
  obtain ⟨boundarySqrt, -, hok⟩ := bind_eq_ok.mp hok
  obtain ⟨⟨amountIn, amountOut⟩, -, hok⟩ := bind_eq_ok.mp hok
  obtain ⟨⟨crossed, liquidity, staked⟩, -, hok⟩ := bind_eq_ok.mp hok
  obtain rfl := pure_eq_ok.mp hok
  exact List.length_append

/-- Entering the boundary that a downward path stands on. -/
theorem enterSlipstreamBoundary_inv (hs : 0 < layout.tickSpacing) (hfinal : FinalTick swap true)
    (hpath : SlipstreamPathInv swap true path) (heq : path.sqrt = swap.sqrtPriceX96)
    (hok : enterSlipstreamBoundary keccak address layout state path = .ok path') :
    SlipstreamPathInv swap true path' ∧ path'.segments.length ≤ path.segments.length + 1 := by
  obtain ⟨boundary, hboundary, hok⟩ := bind_eq_ok.mp hok
  obtain ⟨boundarySqrt, hsqrt, hok⟩ := bind_eq_ok.mp hok
  obtain ⟨hrange, rfl⟩ := sqrtRatioAtTick_eq_ok.mp hsqrt
  obtain ⟨hmin, hmax, -⟩ := nextStepBoundary_bounds hs hpath.tick_ge hpath.tick_lt hboundary
  split_ifs at hok with hstand
  · obtain ⟨⟨crossed, liquidity, staked⟩, hcross, hok⟩ := bind_eq_ok.mp hok
    obtain rfl := pure_eq_ok.mp hok
    obtain ⟨h₁, h₂, h₃, h₄⟩ := reached_bounds hfinal ⟨hmin, hmax⟩ (by rw [if_pos rfl, hstand, heq])
    simp only [if_true] at h₁ h₂ h₃ h₄
    have hsegment : ReplayedSegment true ⟨path.sqrt, path.sqrt, path.liquidity, path.stakedLiquidity,
        0, 0, true, crossed⟩ :=
      .still hpath.inBounds rfl hpath.liquidity_lt rfl rfl
    refine ⟨⟨h₁, h₂, h₃.trans hstand.le, hstand.symm.le.trans h₄, hpath.directed,
      crossSlipstreamBoundary_lt hpath.liquidity_lt hcross, SlipstreamPathInv.append hpath.segments hsegment⟩, ?_⟩
    exact List.length_append.le
  · obtain rfl := pure_eq_ok.mp hok
    exact ⟨hpath, Nat.le_succ _⟩

/-! ### The walk -/

theorem slipstreamWalk_inv (hs : layout.tickSpacing = 200) (hfinal : FinalTick swap zeroForOne) {steps : Nat}
    (hpath : SlipstreamPathInv swap zeroForOne path)
    (hok : slipstreamWalk keccak address layout state swap zeroForOne steps path = .ok path') :
    SlipstreamPathInv swap zeroForOne path' ∧ path'.segments.length ≤ path.segments.length + steps := by
  induction steps generalizing path with
  | zero =>
    rw [slipstreamWalk] at hok
    split_ifs at hok
    · obtain rfl := pure_eq_ok.mp hok
      exact ⟨hpath, le_rfl⟩
  | succ steps ih =>
    rw [slipstreamWalk] at hok
    split_ifs at hok
    · obtain rfl := pure_eq_ok.mp hok
      exact ⟨hpath, Nat.le_add_right _ _⟩
    · obtain ⟨next, hnext, hok⟩ := bind_eq_ok.mp hok
      obtain ⟨hinv, hlength⟩ := ih (slipstreamStep_inv hs hfinal hpath hnext) hok
      have hone := slipstreamStep_length hnext
      exact ⟨hinv, by omega⟩

theorem replaySlipstreamPath_inv (hs : layout.tickSpacing = 200) (hfinal : FinalTick swap zeroForOne)
    (hpath : SlipstreamPathInv swap zeroForOne path) (hempty : path.segments = [])
    (hok : replaySlipstreamPath keccak address layout state swap zeroForOne path = .ok path') :
    SlipstreamPathInv swap zeroForOne path' ∧ path'.segments.length ≤ MAX_SWAP_STEPS := by
  obtain ⟨start, hstart, hok⟩ := bind_eq_ok.mp hok
  have hentered : SlipstreamPathInv swap zeroForOne start ∧ start.segments.length ≤ 1 := by
    split_ifs at hstart with hstand
    · obtain ⟨rfl, heq⟩ := hstand
      obtain ⟨hinv, hlength⟩ := enterSlipstreamBoundary_inv (by omega) hfinal hpath heq hstart
      rw [hempty] at hlength
      exact ⟨hinv, hlength⟩
    · obtain rfl := pure_eq_ok.mp hstart
      rw [hempty]
      exact ⟨hpath, by decide⟩
  obtain ⟨hinv, hlength⟩ := slipstreamWalk_inv hs hfinal hentered.1 hok
  have hone := hentered.2
  unfold MAX_SWAP_STEPS at hlength ⊢
  exact ⟨hinv, by omega⟩

end Step

/-! ### The segments -/

/-- What the fee inference knows of a replay. -/
structure Replayed (zeroForOne : Bool) (path : SlipstreamPath) (segments : List SlipstreamSegment) : Prop where
  nonempty : segments ≠ []
  length_le : segments.length ≤ MAX_SWAP_STEPS
  segment : ∀ segment ∈ segments, ReplayedSegment zeroForOne segment
  inBounds : InBounds path.sqrt
  liquidity_lt : path.liquidity < 2 ^ 128

theorem checkSwapEvent_final {slot0 : Slot0} {swap : DecodedSwap} {zeroForOne : Bool}
    (hok : checkSwapEvent slot0 swap = .ok zeroForOne) :
    FinalTick swap zeroForOne ∧ Directed zeroForOne slot0.sqrtPriceX96 swap.sqrtPriceX96 := by
  obtain ⟨direction, -, hok⟩ := bind_eq_ok.mp hok
  obtain ⟨_, hprice, hok⟩ := bind_eq_ok.mp hok
  obtain ⟨_, hfinal, hok⟩ := bind_eq_ok.mp hok
  obtain rfl := pure_eq_ok.mp hok
  refine ⟨FinalTick.of_ok hfinal, ?_⟩
  rcases ensure_eq_ok.mp hprice with htiny | hmoves
  · have heq : swap.sqrtPriceX96 = slot0.sqrtPriceX96 := (of_decide_eq_true htiny).2
    unfold Directed
    split_ifs
    · exact heq.le
    · exact heq.ge
  · unfold Directed
    split_ifs at hmoves ⊢
    · exact hmoves.le
    · exact hmoves.le

theorem loadSlipstreamParent_inv {address : Address} {layout : V3StorageLayout} {state : StateView}
    {parent : SlipstreamParent} (hok : loadSlipstreamParent address layout state = .ok parent)
    {swap : DecodedSwap} {zeroForOne : Bool} (hdirected : Directed zeroForOne parent.slot0.sqrtPriceX96 swap.sqrtPriceX96) :
    SlipstreamPathInv swap zeroForOne
      ⟨parent.slot0.sqrtPriceX96, parent.slot0.tick, parent.liquidity, parent.stakedLiquidity, []⟩ := by
  obtain ⟨raw, -, hok⟩ := bind_eq_ok.mp hok
  obtain ⟨_, -, hok⟩ := bind_eq_ok.mp hok
  obtain ⟨_, hslot0, hok⟩ := bind_eq_ok.mp hok
  obtain ⟨liquidityWord, -, hok⟩ := bind_eq_ok.mp hok
  obtain ⟨stakedWord, -, hok⟩ := bind_eq_ok.mp hok
  obtain ⟨_, -, hok⟩ := bind_eq_ok.mp hok
  obtain ⟨_, -, hok⟩ := bind_eq_ok.mp hok
  obtain rfl := pure_eq_ok.mp hok
  obtain ⟨-, hge, hlt, hlower, hupper⟩ := validateParentSlot0_eq_ok.mp hslot0
  exact ⟨hge, hlt, hlower, hupper, hdirected, BitVec.isLt _, by simp⟩

/-- A replay of an event that was checked against its parent. -/
theorem replaySlipstreamSegments_spec {keccak : Keccak} {address : Address} {layout : V3StorageLayout} {state : StateView}
    {swap : DecodedSwap} {zeroForOne : Bool} {parent : SlipstreamParent} {path : SlipstreamPath}
    {segments : List SlipstreamSegment} (hs : layout.tickSpacing = 200)
    (hparent : loadSlipstreamParent address layout state = .ok parent)
    (hevent : checkSwapEvent parent.slot0 swap = .ok zeroForOne)
    (hok : replaySlipstreamSegments keccak address layout state parent swap zeroForOne = .ok (path, segments)) :
    Replayed zeroForOne path segments := by
  obtain ⟨hfinal, hdirected⟩ := checkSwapEvent_final hevent
  obtain ⟨walked, hwalked, hok⟩ := bind_eq_ok.mp hok
  obtain ⟨found, hfound, hok⟩ := bind_eq_ok.mp hok
  obtain ⟨_, -, hok⟩ := bind_eq_ok.mp hok
  obtain ⟨_, -, hok⟩ := bind_eq_ok.mp hok
  cases pure_eq_ok.mp hok
  obtain ⟨hinv, hlength⟩ := replaySlipstreamPath_inv hs hfinal (loadSlipstreamParent_inv hparent hdirected) rfl hwalked
  split_ifs at hfound with hempty htiny
  · obtain rfl := pure_eq_ok.mp hfound
    refine ⟨by simp, by simp [MAX_SWAP_STEPS], fun segment hsegment => ?_, hinv.inBounds, hinv.liquidity_lt⟩
    obtain rfl := List.mem_singleton.mp hsegment
    exact .still hinv.inBounds rfl hinv.liquidity_lt rfl rfl
  · obtain rfl := pure_eq_ok.mp hfound
    exact ⟨hempty, hlength, hinv.segments, hinv.inBounds, hinv.liquidity_lt⟩

theorem validateReviewedSlipstreamEvent_spacing {address : Address} {layout : V3StorageLayout}
    {context : AdapterEventContext} {timestamp : Nat}
    (hok : validateReviewedSlipstreamEvent address layout context = .ok timestamp) : layout.tickSpacing = 200 := by
  obtain ⟨_, -, hok⟩ := bind_eq_ok.mp hok
  obtain ⟨_, -, hok⟩ := bind_eq_ok.mp hok
  obtain ⟨_, -, hok⟩ := bind_eq_ok.mp hok
  obtain ⟨reviewed, -, hok⟩ := bind_eq_ok.mp hok
  obtain ⟨_, -, hok⟩ := bind_eq_ok.mp hok
  obtain ⟨_, hspacing, -⟩ := bind_eq_ok.mp hok
  exact ensure_eq_ok.mp hspacing

theorem slipstreamReplay_spec {keccak : Keccak} {address : Address} {layout : V3StorageLayout} {swap : DecodedSwap}
    {state : StateView} {context : AdapterEventContext} {zeroForOne : Bool} {path : SlipstreamPath}
    {segments : List SlipstreamSegment}
    (hok : slipstreamReplay keccak address layout swap state context = .ok (zeroForOne, path, segments)) :
    Replayed zeroForOne path segments := by
  have htail : ∀ parent, loadSlipstreamParent address layout state = .ok parent → layout.tickSpacing = 200 →
      ∀ direction, checkSwapEvent parent.slot0 swap = .ok direction →
      ((replaySlipstreamSegments keccak address layout state parent swap direction) >>= fun replayed =>
        (pure (direction, replayed.1, replayed.2) : Result _)) = .ok (zeroForOne, path, segments) →
      Replayed zeroForOne path segments := by
    intro parent hparent hspacing direction hevent hok
    obtain ⟨⟨replayedPath, replayedSegments⟩, hreplayed, hok⟩ := bind_eq_ok.mp hok
    cases pure_eq_ok.mp hok
    exact replaySlipstreamSegments_spec hspacing hparent hevent hreplayed
  obtain ⟨timestamp, hreviewed, hok⟩ := bind_eq_ok.mp hok
  have hspacing := validateReviewedSlipstreamEvent_spacing hreviewed
  obtain ⟨_, -, hok⟩ := bind_eq_ok.mp hok
  obtain ⟨parent, hparent, hok⟩ := bind_eq_ok.mp hok
  obtain ⟨direction, hevent, hok⟩ := bind_eq_ok.mp hok
  split_ifs at hok
  · obtain ⟨_, -, hok⟩ := bind_eq_ok.mp hok
    exact htail parent hparent hspacing direction hevent hok
  · exact htail parent hparent hspacing direction hevent hok

end AmmState.V3
