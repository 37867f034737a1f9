import AmmState.Theorems.V3.SlipstreamPath

/-! Progress of a swap walk. The prices of the ticks increase strictly, so that a step whose boundary lies away from the
    path moves the price towards the event; only the first step of a walk can stand on its boundary. -/

namespace AmmState.V3
open Checked Canonical

/-- A move towards a price, which it does not pass. -/
def Closer (zeroForOne : Bool) (price sqrt sqrt' : Nat) : Prop :=
  if zeroForOne then price ≤ sqrt' ∧ sqrt' < sqrt else sqrt < sqrt' ∧ sqrt' ≤ price

/-- The end of a step whose boundary has this price. -/
def stepTarget (swap : DecodedSwap) (zeroForOne : Bool) (boundarySqrt : Nat) : Nat :=
  if zeroForOne then max boundarySqrt swap.sqrtPriceX96 else min boundarySqrt swap.sqrtPriceX96

/-- The tick at the end of a step. -/
def stepTick (swap : DecodedSwap) (zeroForOne : Bool) (boundary : Int) : Int :=
  if stepTarget swap zeroForOne (sqrtRatio boundary) = sqrtRatio boundary then
    if zeroForOne then boundary - 1 else boundary
  else swap.tick

/-- A walk stands on a price of its tick and has not passed the event. Once it has moved, and unless it has arrived, it
    stands on the boundary that it crossed last. -/
structure Stance (swap : DecodedSwap) (zeroForOne moved : Bool) (sqrt : Nat) (tick : Int) : Prop where
  tick_ge : MIN_TICK ≤ tick
  tick_lt : tick < MAX_TICK
  lower : sqrtRatio tick ≤ sqrt
  upper : sqrt ≤ sqrtRatio (tick + 1)
  directed : Directed zeroForOne sqrt swap.sqrtPriceX96
  crossed : moved = true → sqrt ≠ swap.sqrtPriceX96 → sqrt = sqrtRatio (if zeroForOne then tick + 1 else tick)

section
variable {swap : DecodedSwap} {zeroForOne moved : Bool} {sqrt : Nat} {tick boundary : Int}

/-- A boundary in the swap's direction is not behind the path. -/
theorem Stance.toBoundary (h : Stance swap zeroForOne moved sqrt tick) (hmin : MIN_TICK ≤ boundary)
    (hmax : boundary ≤ MAX_TICK) (hahead : if zeroForOne then boundary ≤ tick else tick < boundary) :
    Directed zeroForOne sqrt (sqrtRatio boundary) := by
  have hge := h.tick_ge
  have hlt := h.tick_lt
  unfold Directed
  cases zeroForOne with
  | true => exact (sqrtRatio_le hmin hahead hlt.le).trans h.lower
  | false => exact h.upper.trans (sqrtRatio_le (by omega) (by exact hahead) hmax)

/-- A path that has moved has no boundary at its own price. -/
theorem Stance.away (h : Stance swap zeroForOne true sqrt tick) (hne : sqrt ≠ swap.sqrtPriceX96)
    (hmin : MIN_TICK ≤ boundary) (hmax : boundary ≤ MAX_TICK)
    (hahead : if zeroForOne then boundary ≤ tick else tick < boundary) : sqrtRatio boundary ≠ sqrt := by
  have hge := h.tick_ge
  have hlt := h.tick_lt
  have hsqrt := h.crossed rfl hne
  cases zeroForOne with
  | true =>
    rw [if_pos rfl] at hahead hsqrt
    rw [hsqrt]
    exact (sqrtRatio_lt hmin (by omega) (by omega)).ne
  | false =>
    rw [if_neg Bool.false_ne_true] at hahead hsqrt
    rw [hsqrt]
    exact (sqrtRatio_lt hge hahead hmax).ne'

/-- A step from a price to a boundary ahead of it. -/
theorem Stance.closer (h : Stance swap zeroForOne moved sqrt tick) (hne : sqrt ≠ swap.sqrtPriceX96)
    (hmin : MIN_TICK ≤ boundary) (hmax : boundary ≤ MAX_TICK)
    (hahead : if zeroForOne then boundary ≤ tick else tick < boundary) (haway : sqrtRatio boundary ≠ sqrt) :
    Closer zeroForOne swap.sqrtPriceX96 sqrt (stepTarget swap zeroForOne (sqrtRatio boundary)) := by
  have hboundary := h.toBoundary hmin hmax hahead
  have hprice := h.directed
  unfold Closer stepTarget
  unfold Directed at hboundary hprice
  cases zeroForOne with
  | true => exact ⟨le_max_right _ _, max_lt (lt_of_le_of_ne hboundary haway) (lt_of_le_of_ne hprice (Ne.symm hne))⟩
  | false => exact ⟨lt_min (lt_of_le_of_ne hboundary (Ne.symm haway)) (lt_of_le_of_ne hprice hne), min_le_right _ _⟩

/-- A step that stands on its boundary stays there. -/
theorem Stance.still (h : Stance swap zeroForOne moved sqrt tick) (hstands : sqrtRatio boundary = sqrt) :
    stepTarget swap zeroForOne (sqrtRatio boundary) = sqrt := by
  have hprice := h.directed
  rw [hstands]
  unfold stepTarget
  unfold Directed at hprice
  cases zeroForOne with
  | true => exact max_eq_left hprice
  | false => exact min_eq_left hprice

/-- A step keeps the stance. -/
theorem Stance.step (h : Stance swap zeroForOne moved sqrt tick) (hfinal : FinalTick swap zeroForOne)
    (hmin : MIN_TICK ≤ boundary) (hmax : boundary ≤ MAX_TICK) :
    Stance swap zeroForOne true (stepTarget swap zeroForOne (sqrtRatio boundary)) (stepTick swap zeroForOne boundary) := by
  have hdirected : Directed zeroForOne (stepTarget swap zeroForOne (sqrtRatio boundary)) swap.sqrtPriceX96 := by
    unfold Directed stepTarget
    cases zeroForOne with
    | true => exact le_max_right _ _
    | false => exact min_le_right _ _
  unfold stepTick
  by_cases hreached : stepTarget swap zeroForOne (sqrtRatio boundary) = sqrtRatio boundary
  · rw [if_pos hreached]
    rw [hreached] at hdirected ⊢
    obtain ⟨hge, hlt, hlower, hupper⟩ := reached_bounds hfinal ⟨hmin, hmax⟩ hdirected
    refine ⟨hge, hlt, hlower, hupper, hdirected, fun _ _ => ?_⟩
    cases zeroForOne with
    | true => exact congrArg sqrtRatio (sub_add_cancel boundary 1).symm
    | false => rfl
  · have hprice : stepTarget swap zeroForOne (sqrtRatio boundary) = swap.sqrtPriceX96 := by
      unfold stepTarget at hreached ⊢
      cases zeroForOne with
      | true => exact max_eq_right (le_of_lt (lt_of_not_ge fun hle => hreached (max_eq_left hle)))
      | false => exact min_eq_right (le_of_lt (lt_of_not_ge fun hle => hreached (min_eq_left hle)))
    rw [if_neg hreached]
    exact ⟨hfinal.tick_ge, hfinal.tick_lt, hfinal.lower.trans hprice.ge, hprice.le.trans hfinal.upper_le, hdirected,
      fun _ hne => absurd hprice hne⟩

end

/-! ### Walks -/

/-- The paths that a walk to a price stands on. -/
inductive Walked {α : Type} (step : α → Result α) (sqrt : α → Nat) (price : Nat) (start : α) : α → Prop
  | start : Walked step sqrt price start start
  | step {path path' : α} : Walked step sqrt price start path → sqrt path ≠ price → step path = .ok path' →
      Walked step sqrt price start path'

section
variable {keccak : Keccak} {address : Address} {layout : V3StorageLayout} {state : StateView} {slot0 : Slot0}
  {swap : DecodedSwap} {zeroForOne : Bool} {liquidity stakedLiquidity : Nat}

/-- A boundary ahead of the tick, and the step to it. -/
structure StepsTo (keccak : Keccak) (address : Address) (layout : V3StorageLayout) (state : StateView) (swap : DecodedSwap)
    (zeroForOne : Bool) (tick : Int) (boundary : StepBoundary) (sqrt' : Nat) (tick' : Int) : Prop where
  found : nextStepBoundary keccak address layout state tick zeroForOne = .ok boundary
  tick_ge : MIN_TICK ≤ boundary.tick
  tick_le : boundary.tick ≤ MAX_TICK
  ahead : if zeroForOne then boundary.tick ≤ tick else tick < boundary.tick
  price : sqrt' = stepTarget swap zeroForOne (sqrtRatio boundary.tick)
  tick_eq : tick' = stepTick swap zeroForOne boundary.tick

/-- A boundary that was found lies ahead. -/
theorem nextStepBoundary_ahead (hs : 0 < layout.tickSpacing) {tick : Int} (hge : MIN_TICK ≤ tick) (hlt : tick < MAX_TICK)
    {boundary : StepBoundary} (h : nextStepBoundary keccak address layout state tick zeroForOne = .ok boundary) :
    MIN_TICK ≤ boundary.tick ∧ boundary.tick ≤ MAX_TICK ∧
      if zeroForOne then boundary.tick ≤ tick else tick < boundary.tick := by
  obtain ⟨hmin, hmax, hahead⟩ := nextStepBoundary_bounds hs hge hlt h
  refine ⟨hmin, hmax, ?_⟩
  cases zeroForOne with
  | true => exact hahead.1
  | false => exact hahead

theorem pathStep_stepsTo (hs : 0 < layout.tickSpacing) {path path' : Path} (hge : MIN_TICK ≤ path.tick)
    (hlt : path.tick < MAX_TICK) (h : pathStep keccak address layout state swap zeroForOne path = .ok path') :
    (!path'.segments.isEmpty) = true ∧ ∃ boundary,
      StepsTo keccak address layout state swap zeroForOne path.tick boundary path'.sqrt path'.tick := by
  obtain ⟨boundary, hboundary, h⟩ := bind_eq_ok.mp h
  obtain ⟨boundarySqrt, hsqrt, h⟩ := bind_eq_ok.mp h
  obtain ⟨⟨amountIn, amountOut⟩, -, h⟩ := bind_eq_ok.mp h
  obtain ⟨⟨crossed, liquidity⟩, -, h⟩ := bind_eq_ok.mp h
  obtain rfl := pure_eq_ok.mp h
  obtain ⟨-, rfl⟩ := sqrtRatioAtTick_eq_ok.mp hsqrt
  obtain ⟨hmin, hmax, hahead⟩ := nextStepBoundary_ahead hs hge hlt hboundary
  refine ⟨by simp, boundary, hboundary, hmin, hmax, hahead, rfl, ?_⟩
  exact if_congr decide_eq_true_iff rfl rfl

theorem slipstreamStep_stepsTo (hs : 0 < layout.tickSpacing) {path path' : SlipstreamPath} (hge : MIN_TICK ≤ path.tick)
    (hlt : path.tick < MAX_TICK) (h : slipstreamStep keccak address layout state swap zeroForOne path = .ok path') :
    (!path'.segments.isEmpty) = true ∧ ∃ boundary,
      StepsTo keccak address layout state swap zeroForOne path.tick boundary path'.sqrt path'.tick := by
  obtain ⟨boundary, hboundary, h⟩ := bind_eq_ok.mp h
  obtain ⟨boundarySqrt, hsqrt, h⟩ := bind_eq_ok.mp h
  obtain ⟨⟨amountIn, amountOut⟩, -, h⟩ := bind_eq_ok.mp h
  obtain ⟨⟨crossed, liquidity, staked⟩, -, h⟩ := bind_eq_ok.mp h
  obtain rfl := pure_eq_ok.mp h
  obtain ⟨-, rfl⟩ := sqrtRatioAtTick_eq_ok.mp hsqrt
  obtain ⟨hmin, hmax, hahead⟩ := nextStepBoundary_ahead hs hge hlt hboundary
  refine ⟨by simp, boundary, hboundary, hmin, hmax, hahead, rfl, ?_⟩
  exact if_congr decide_eq_true_iff rfl rfl

/-- A parent and an event that were checked against each other. -/
theorem Stance.of_checked (hparent : validateParentSlot0 slot0 = .ok ())
    (hevent : checkSwapEvent slot0 swap = .ok zeroForOne) :
    FinalTick swap zeroForOne ∧ Stance swap zeroForOne false slot0.sqrtPriceX96 slot0.tick := by
  obtain ⟨hfinal, hdirected⟩ := checkSwapEvent_final hevent
  obtain ⟨-, hge, hlt, hlower, hupper⟩ := validateParentSlot0_eq_ok.mp hparent
  exact ⟨hfinal, hge, hlt, hlower, hupper, hdirected, nofun⟩

/-- A walk keeps its stance. The two kinds of paths differ in what they carry besides it. -/
theorem Walked.stance {α : Type} {step : α → Result α} {sqrt : α → Nat} {start path : α} (tick : α → Int) (moved : α → Bool)
    (h : Walked step sqrt swap.sqrtPriceX96 start path)
    (hs : ∀ {path path'}, MIN_TICK ≤ tick path → tick path < MAX_TICK → step path = .ok path' → moved path' = true ∧
      ∃ boundary, StepsTo keccak address layout state swap zeroForOne (tick path) boundary (sqrt path') (tick path'))
    (hfinal : FinalTick swap zeroForOne) (hstart : Stance swap zeroForOne (moved start) (sqrt start) (tick start)) :
    Stance swap zeroForOne (moved path) (sqrt path) (tick path) := by
  induction h with
  | start => exact hstart
  | step _ hne hstep ih =>
    obtain ⟨hmoved, boundary, hto⟩ := hs ih.tick_ge ih.tick_lt hstep
    rw [hto.price, hto.tick_eq, hmoved]
    exact ih.step hfinal hto.tick_ge hto.tick_le

/-- What a step of a walk does: where its boundary lies away from the path it moves the price towards the event, and only
    the first step can stand on its boundary, where it stays. -/
structure Progress (keccak : Keccak) (address : Address) (layout : V3StorageLayout) (state : StateView) (swap : DecodedSwap)
    (zeroForOne first : Bool) (sqrt : Nat) (tick : Int) (sqrt' : Nat) : Prop where
  boundary : ∃ boundary price, nextStepBoundary keccak address layout state tick zeroForOne = .ok boundary ∧
    sqrtRatioAtTick boundary.tick = .ok price ∧ (price ≠ sqrt → Closer zeroForOne swap.sqrtPriceX96 sqrt sqrt') ∧
    (price = sqrt → sqrt' = sqrt ∧ first = true)

theorem Stance.progress {moved : Bool} {sqrt sqrt' : Nat} {tick tick' : Int} (h : Stance swap zeroForOne moved sqrt tick)
    (hne : sqrt ≠ swap.sqrtPriceX96) {boundary : StepBoundary}
    (hto : StepsTo keccak address layout state swap zeroForOne tick boundary sqrt' tick') :
    Progress keccak address layout state swap zeroForOne (!moved) sqrt tick sqrt' := by
  refine ⟨boundary, _, hto.found, sqrtRatioAtTick_eq ⟨hto.tick_ge, hto.tick_le⟩, fun haway => ?_, fun hstands => ⟨?_, ?_⟩⟩
  · rw [hto.price]
    exact h.closer hne hto.tick_ge hto.tick_le hto.ahead haway
  · rw [hto.price]
    exact h.still hstands
  · cases moved with
    | true => exact absurd hstands (h.away hne hto.tick_ge hto.tick_le hto.ahead)
    | false => rfl

/-- Every step of a Uniswap walk from a checked parent. -/
theorem walk_progress (hs : 0 < layout.tickSpacing) (hparent : validateParentSlot0 slot0 = .ok ())
    (hevent : checkSwapEvent slot0 swap = .ok zeroForOne) {path path' : Path}
    (h : Walked (pathStep keccak address layout state swap zeroForOne) Path.sqrt swap.sqrtPriceX96
      ⟨slot0.sqrtPriceX96, slot0.tick, liquidity, []⟩ path)
    (hne : path.sqrt ≠ swap.sqrtPriceX96) (hstep : pathStep keccak address layout state swap zeroForOne path = .ok path') :
    Progress keccak address layout state swap zeroForOne path.segments.isEmpty path.sqrt path.tick path'.sqrt := by
  obtain ⟨hfinal, hstart⟩ := Stance.of_checked hparent hevent
  have hstance : Stance swap zeroForOne (!path.segments.isEmpty) path.sqrt path.tick :=
    h.stance Path.tick (fun path => !path.segments.isEmpty) (pathStep_stepsTo hs) hfinal hstart
  obtain ⟨-, boundary, hto⟩ := pathStep_stepsTo hs hstance.tick_ge hstance.tick_lt hstep
  have hprogress := hstance.progress hne hto
  rwa [Bool.not_not] at hprogress

/-- Every step of a Slipstream walk from a checked parent. -/
theorem slipstreamWalk_progress (hs : 0 < layout.tickSpacing) (hparent : validateParentSlot0 slot0 = .ok ())
    (hevent : checkSwapEvent slot0 swap = .ok zeroForOne) {path path' : SlipstreamPath}
    (h : Walked (slipstreamStep keccak address layout state swap zeroForOne) SlipstreamPath.sqrt swap.sqrtPriceX96
      ⟨slot0.sqrtPriceX96, slot0.tick, liquidity, stakedLiquidity, []⟩ path)
    (hne : path.sqrt ≠ swap.sqrtPriceX96) (hstep : slipstreamStep keccak address layout state swap
      zeroForOne path = .ok path') :
    Progress keccak address layout state swap zeroForOne path.segments.isEmpty path.sqrt path.tick path'.sqrt := by
  obtain ⟨hfinal, hstart⟩ := Stance.of_checked hparent hevent
  have hstance : Stance swap zeroForOne (!path.segments.isEmpty) path.sqrt path.tick :=
    h.stance SlipstreamPath.tick (fun path => !path.segments.isEmpty) (slipstreamStep_stepsTo hs) hfinal hstart
  obtain ⟨-, boundary, hto⟩ := slipstreamStep_stepsTo hs hstance.tick_ge hstance.tick_lt hstep
  have hprogress := hstance.progress hne hto
  rwa [Bool.not_not] at hprogress

end

/-! ### Ticks -/

theorem inBounds_sqrtRatio {tick : Int} (h : MIN_TICK ≤ tick ∧ tick ≤ MAX_TICK) : InBounds (sqrtRatio tick) :=
  ⟨sqrtRatio_min ▸ sqrtRatio_le le_rfl h.1 h.2, sqrtRatio_max ▸ sqrtRatio_le h.1 h.2 le_rfl⟩

/-- The prices of two ticks. -/
theorem sqrtRatioAtTick_lt {a b : Int} (ha : MIN_TICK ≤ a) (hab : a < b) (hb : b ≤ MAX_TICK) :
    ∃ lower upper, sqrtRatioAtTick a = .ok lower ∧ sqrtRatioAtTick b = .ok upper ∧ InBounds lower ∧ InBounds upper ∧
      lower < upper :=
  ⟨_, _, sqrtRatioAtTick_eq ⟨ha, by omega⟩, sqrtRatioAtTick_eq ⟨by omega, hb⟩, inBounds_sqrtRatio ⟨ha, by omega⟩,
    inBounds_sqrtRatio ⟨by omega, hb⟩, sqrtRatio_lt ha hab hb⟩

/-- Every tick in range has a price in bounds, and later ticks have higher prices; a step of a walk that does not stand on
    its boundary therefore goes towards the event. -/
theorem sqrtRatioAtTick_strict :
    (∀ a b, MIN_TICK ≤ a → a < b → b ≤ MAX_TICK → ∃ lower upper, sqrtRatioAtTick a = .ok lower ∧
      sqrtRatioAtTick b = .ok upper ∧
      InBounds lower ∧ InBounds upper ∧ lower < upper) ∧
    ∀ keccak address (layout : V3StorageLayout) state slot0 swap zeroForOne, 0 < layout.tickSpacing →
      validateParentSlot0 slot0 = .ok () → checkSwapEvent slot0 swap = .ok zeroForOne →
      (∀ liquidity path path', Walked (pathStep keccak address layout state swap zeroForOne) Path.sqrt swap.sqrtPriceX96
          ⟨slot0.sqrtPriceX96, slot0.tick, liquidity, []⟩ path →
        path.sqrt ≠ swap.sqrtPriceX96 → pathStep keccak address layout state swap zeroForOne path = .ok path' →
        Progress keccak address layout state swap zeroForOne path.segments.isEmpty path.sqrt path.tick path'.sqrt) ∧
      ∀ liquidity stakedLiquidity path path', Walked (slipstreamStep keccak address layout state swap zeroForOne)
          SlipstreamPath.sqrt swap.sqrtPriceX96 ⟨slot0.sqrtPriceX96, slot0.tick, liquidity, stakedLiquidity, []⟩ path →
        path.sqrt ≠ swap.sqrtPriceX96 → slipstreamStep keccak address layout state swap zeroForOne path = .ok path' →
        Progress keccak address layout state swap zeroForOne path.segments.isEmpty path.sqrt path.tick path'.sqrt := by
  refine ⟨fun a b ha hab hb => sqrtRatioAtTick_lt ha hab hb, ?_⟩
  intro keccak address layout state slot0 swap zeroForOne hs hparent hevent
  exact ⟨fun liquidity path path' h hne hstep => walk_progress hs hparent hevent h hne hstep,
    fun liquidity staked path path' h hne hstep => slipstreamWalk_progress hs hparent hevent h hne hstep⟩

/-- A parent at tick zero, whose price an event moves up within that tick. -/
def tickZero : Slot0 := Slot0.decode (BitVec.ofNat 256 (2 ^ 96))

def upwardEvent : DecodedSwap := ⟨true, 1, false, 2 ^ 90, 2 ^ 96 + 2 ^ 80, 2 ^ 100, 0⟩

def emptyBitmap : StateView := fun _ _ => some 0

theorem sqrtRatioAtTick_strict_upward :
    (∃ lower upper, sqrtRatioAtTick (-60) = .ok lower ∧ sqrtRatioAtTick 60 = .ok upper ∧ InBounds lower ∧ InBounds upper ∧
      lower < upper) ∧
    ∃ path', pathStep (fun key _ => key) 7 (.uniswap 60) emptyBitmap upwardEvent false
      ⟨2 ^ 96, 0, 2 ^ 100, []⟩ = .ok path' ∧
      Progress (fun key _ => key) 7 (.uniswap 60) emptyBitmap upwardEvent false true (2 ^ 96) 0 path'.sqrt := by
  have hstep : (pathStep (fun key _ => key) 7 (.uniswap 60) emptyBitmap upwardEvent false ⟨2 ^ 96, 0, 2 ^ 100,
      []⟩).isOk = true := by
    decide +kernel
  obtain ⟨path', hstep⟩ := isOk_iff.mp hstep
  refine ⟨sqrtRatioAtTick_strict.1 (-60) 60 (by decide) (by decide) (by decide), path', hstep, ?_⟩
  exact (sqrtRatioAtTick_strict.2 (fun key _ => key) 7 (.uniswap 60) emptyBitmap tickZero upwardEvent false (by decide)
    (by decide +kernel) (by decide +kernel)).1 (2 ^ 100) _ path' .start (by decide) hstep

end AmmState.V3
