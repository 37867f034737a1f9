import AmmState.Theorems.V3.Steps

/-! The price path of a swap over a pool held in full: along every step the path stands on a price of its tick, and its
    liquidity is the net liquidity of the ticks at or below it. -/

namespace AmmState.Canonical
open V3 Checked

/-! ### Net liquidity -/

/-- The net liquidity of the ticks up to one. -/
noncomputable def sumNet (keccak : Keccak) (F : Storage) (tick : Int) : Int :=
    ∑ t ∈ Finset.Icc MIN_TICK tick, netAt keccak F t

section
variable {keccak : Keccak} {F : Storage} {spacing : Int}

theorem net_eq_zero (hT : TicksAgree keccak spacing F) {t : Int} (ht : InRange t) (h : grossAt keccak F t = 0) :
    netAt keccak F t = 0 := by
  have hword : F (tickSlot keccak t 0) = 0 := congrArg TickWords.word0 (hT.empty t ht h)
  rw [netAt, hword]
  decide

/-- Ticks without liquidity do not count. -/
theorem sumNet_of_clear (hT : TicksAgree keccak spacing F) {s t : Int} (hst : s ≤ t) (ht : t ≤ MAX_TICK)
    (h : ∀ x, s < x → x ≤ t → InRange x → grossAt keccak F x = 0) : sumNet keccak F t = sumNet keccak F s := by
  refine (Finset.sum_subset (Finset.Icc_subset_Icc le_rfl hst) fun x hx hnot => ?_).symm
  obtain ⟨h₁, h₂⟩ := Finset.mem_Icc.mp hx
  have hr : InRange x := ⟨h₁, h₂.trans ht⟩
  have hs : s < x := by
    by_contra hle
    exact hnot (Finset.mem_Icc.mpr ⟨h₁, not_lt.mp hle⟩)
  exact net_eq_zero hT hr (h x hs h₂ hr)

theorem sumNet_succ {t : Int} (ht : MIN_TICK ≤ t) : sumNet keccak F t = sumNet keccak F (t - 1) + netAt keccak F t := by
  have hset : Finset.Icc MIN_TICK t = insert t (Finset.Icc MIN_TICK (t - 1)) := by
    ext x
    simp only [Finset.mem_insert, Finset.mem_Icc]
    omega
  rw [sumNet, hset, Finset.sum_insert (by simp), add_comm]
  rfl

end

/-- Active liquidity after a crossing: the signed change of the tick, within 128 bits. -/
theorem applyLiquidityNet_eq_ok {liquidity r : Nat} {net : Int} {zeroForOne : Bool} (hl : liquidity < 2 ^ 128)
    (hnet : -2 ^ 127 ≤ net ∧ net < 2 ^ 127) :
    applyLiquidityNet liquidity net zeroForOne = .ok r ↔
      ((r : Int) = liquidity + (if zeroForOne then -net else net) ∧ r < 2 ^ 128) ∧
      (zeroForOne = true → net ≠ -2 ^ 127) := by
  have hmask : ∀ n, n ≤ WORD_128_MASK ↔ n < 2 ^ 128 := fun n => by
    rw [WORD_128_MASK]
    omega
  have htail : ∀ delta : Int, -2 ^ 127 ≤ delta ∧ delta ≤ 2 ^ 127 →
      (((if delta < 0 then checkedSub liquidity delta.natAbs (arithmetic "active liquidity overflow/underflow")
        else checkedAdd liquidity delta.natAbs (arithmetic "active liquidity overflow/underflow")) >>= fun result =>
        ensure (result ≤ WORD_128_MASK) (arithmetic "active liquidity exceeds uint128") >>= fun _ => pure result) = .ok r ↔
          (r : Int) = liquidity + delta ∧ r < 2 ^ 128) := by
    intro delta hdelta
    simp only [bind_eq_ok, ensure_eq_ok, exists_const, pure_eq_ok, hmask]
    by_cases hd : delta < 0
    · simp only [if_pos hd, checkedSub, bind_eq_ok, ensure_eq_ok, exists_const, pure_eq_ok]
      constructor
      · rintro ⟨x, ⟨hle, rfl⟩, hlt, rfl⟩
        omega
      · rintro ⟨heq, hlt⟩
        exact ⟨r, ⟨by omega, by omega⟩, hlt, rfl⟩
    · simp only [if_neg hd, checkedAdd, bind_eq_ok, ensure_eq_ok, exists_const, pure_eq_ok]
      constructor
      · rintro ⟨x, ⟨hle, rfl⟩, hlt, rfl⟩
        omega
      · rintro ⟨heq, hlt⟩
        exact ⟨r, ⟨by omega, by omega⟩, hlt, rfl⟩
  unfold applyLiquidityNet
  cases zeroForOne with
  | false =>
    simp only [Bool.false_eq_true, if_false]
    exact (htail net (by omega)).trans (by simp)
  | true =>
    simp only [if_true]
    by_cases hmin : net = -2 ^ 127
    · constructor
      · intro h
        obtain ⟨_, h, -⟩ := bind_eq_ok.mp h
        exact absurd hmin (ensure_eq_ok.mp h)
      · rintro ⟨-, h⟩
        exact absurd hmin (h trivial)
    · rw [ensure_bind hmin]
      exact (htail (-net) (by omega)).trans (and_iff_left fun _ => hmin).symm

/-! ### Prices and ticks -/

theorem validateFinalTick_eq_ok {price : Nat} {tick : Int} {zeroForOne : Bool} :
    validateFinalTick price tick zeroForOne = .ok () ↔
      MIN_SQRT_RATIO < price ∧ price < MAX_SQRT_RATIO ∧ MIN_TICK ≤ tick ∧ tick < MAX_TICK ∧ sqrtRatio tick ≤ price ∧
        (price < sqrtRatio (tick + 1) ∨ zeroForOne = true ∧ price = sqrtRatio (tick + 1)) := by
  unfold validateFinalTick
  rw [sqrtRatioAtTick_eq ⟨le_rfl, by decide⟩, ok_bind, sqrtRatioAtTick_eq ⟨by decide, le_rfl⟩, ok_bind, sqrtRatio_min,
    sqrtRatio_max]
  simp only [bind_eq_ok, ensure_eq_ok, exists_const, sqrtRatioAtTick_eq_ok]
  constructor
  · rintro ⟨⟨hmin, hmax⟩, _, ⟨hr, rfl⟩, upper, hupper, hlower, hle⟩
    have hlt : tick < MAX_TICK := by
      rcases hr.2.lt_or_eq with hlt | rfl
      · exact hlt
      · rw [sqrtRatio_max] at hlower
        omega
    rw [if_neg hlt.ne, sqrtRatioAtTick_eq ⟨by omega, by omega⟩] at hupper
    obtain rfl := Except.ok.inj hupper
    exact ⟨hmin, hmax, hr.1, hlt, hlower, hle _ rfl⟩
  · rintro ⟨hmin, hmax, hge, hlt, hlower, hupper⟩
    refine ⟨⟨hmin, hmax⟩, _, ⟨⟨hge, hlt.le⟩, rfl⟩, some (sqrtRatio (tick + 1)), ?_, hlower, ?_⟩
    · rw [if_neg hlt.ne, sqrtRatioAtTick_eq ⟨by omega, by omega⟩]
      rfl
    · rintro _ ⟨⟩
      exact hupper

/-! ### Crossings -/

section
variable {keccak : Keccak} {F : Storage} {spacing : Int} {state : StateView} {address : Address}

/-- A tick as it is crossed. -/
def crossedTick (keccak : Keccak) (F : Storage) (tick : Int) : InitializedTick :=
  ⟨v3TickInfoStorageKeysWithBase keccak tick V3_TICKS_BASE_SLOT, tickInfo keccak F tick, netAt keccak F tick⟩

theorem loadInitializedTick_spec (h : Holds state address F) {tick : Int} {r : InitializedTick}
    (hok : loadInitializedTick keccak address (.uniswap spacing) state tick = .ok r) :
    r = crossedTick keccak F tick ∧ grossAt keccak F tick ≠ 0 := by
  obtain ⟨words, hwords, hok⟩ := bind_eq_ok.mp hok
  obtain ⟨_, -, hok⟩ := bind_eq_ok.mp hok
  obtain ⟨_, hgross, hok⟩ := bind_eq_ok.mp hok
  have hinfo : words = tickInfo keccak F tick := by
    rw [loadTickWords] at hwords
    simp only [h.required, ok_bind] at hwords
    exact (pure_eq_ok.mp hwords).symm
  subst hinfo
  exact ⟨(pure_eq_ok.mp hok).symm, ensure_eq_ok.mp hgross⟩

theorem net_range (keccak : Keccak) (F : Storage) (tick : Int) :
    -2 ^ 127 ≤ netAt keccak F tick ∧ netAt keccak F tick < 2 ^ 127 := by
  have h₁ := BitVec.le_toInt (Packed.get (F (tickSlot keccak tick 0)) 128 128)
  have h₂ := BitVec.toInt_lt (x := Packed.get (F (tickSlot keccak tick 0)) 128 128)
  exact ⟨h₁, h₂⟩

/-- What lies beyond a boundary: the tick there if it was reached and holds liquidity, and the liquidity it leaves. -/
theorem crossBoundary_spec (h : Holds state address F) (hT : TicksAgree keccak spacing F) {tick : Int} {zeroForOne : Bool}
    {boundary : StepBoundary} (hb : BoundarySpec keccak F tick zeroForOne boundary) {reached : Bool} {liquidity : Nat}
    (hl : liquidity < 2 ^ 128) {crossed : Option InitializedTick} {next : Nat}
    (hok : crossBoundary keccak address (.uniswap spacing) state boundary reached liquidity zeroForOne =
      .ok (crossed, next)) :
    (∀ c ∈ crossed, reached = true ∧ c = crossedTick keccak F boundary.tick ∧ grossAt keccak F boundary.tick ≠ 0) ∧
      (next : Int) = liquidity + (if reached then (if zeroForOne then -netAt keccak F boundary.tick
        else netAt keccak F boundary.tick) else 0) ∧ next < 2 ^ 128 := by
  unfold crossBoundary at hok
  split_ifs at hok with hc
  · obtain ⟨initialized, hload, hok⟩ := bind_eq_ok.mp hok
    obtain ⟨next', happly, hok⟩ := bind_eq_ok.mp hok
    obtain ⟨rfl, rfl⟩ := Prod.mk.inj (pure_eq_ok.mp hok)
    obtain ⟨rfl, hg⟩ := loadInitializedTick_spec h hload
    obtain ⟨⟨heq, hlt⟩, -⟩ := (applyLiquidityNet_eq_ok hl (net_range keccak F boundary.tick)).mp happly
    refine ⟨?_, by rw [if_pos hc.1]; exact heq, hlt⟩
    rintro c ⟨⟩
    exact ⟨hc.1, rfl, hg⟩
  · obtain ⟨rfl, rfl⟩ := Prod.mk.inj (pure_eq_ok.mp hok)
    refine ⟨nofun, ?_, hl⟩
    split_ifs with hr hz
    · have hg : grossAt keccak F boundary.tick = 0 := by
        by_contra hg
        exact hc ⟨hr, hb.initialized.mpr hg⟩
      rw [net_eq_zero hT hb.inRange hg, neg_zero, add_zero]
    · have hg : grossAt keccak F boundary.tick = 0 := by
        by_contra hg
        exact hc ⟨hr, hb.initialized.mpr hg⟩
      rw [net_eq_zero hT hb.inRange hg, add_zero]
    · rw [add_zero]

end

/-! ### The path -/

/-- A path that stands on a price of its tick, on the event's side, with the liquidity of the ticks up to there. -/
structure PathInv (keccak : Keccak) (F : Storage) (swap : DecodedSwap) (zeroForOne : Bool) (path : Path) : Prop where
  tick_ge : MIN_TICK ≤ path.tick
  tick_lt : path.tick < MAX_TICK
  lower : sqrtRatio path.tick ≤ path.sqrt
  upper : path.sqrt ≤ sqrtRatio (path.tick + 1)
  down : zeroForOne = true → swap.sqrtPriceX96 ≤ path.sqrt
  up : zeroForOne = false → path.sqrt ≤ swap.sqrtPriceX96
  liquidity : (path.liquidity : Int) = sumNet keccak F path.tick
  liquidity_lt : path.liquidity < 2 ^ 128
  crossed : ∀ segment ∈ path.segments, ∀ c ∈ segment.crossedTick, ∃ t, InRange t ∧ grossAt keccak F t ≠ 0 ∧
    c = crossedTick keccak F t

section
variable {keccak : Keccak} {F : Storage} {spacing : Int} {state : StateView} {address : Address} {swap : DecodedSwap}
  {zeroForOne : Bool} {path path' : Path}

theorem PathInv.append_crossed (h : PathInv keccak F swap zeroForOne path) (segment : Segment)
    (hs : ∀ c ∈ segment.crossedTick, ∃ t, InRange t ∧ grossAt keccak F t ≠ 0 ∧ c = crossedTick keccak F t) :
    ∀ s ∈ path.segments ++ [segment], ∀ c ∈ s.crossedTick, ∃ t, InRange t ∧ grossAt keccak F t ≠ 0 ∧
      c = crossedTick keccak F t := by
  intro s hs'
  rcases List.mem_append.mp hs' with hs' | hs'
  · exact h.crossed s hs'
  · obtain rfl := List.mem_singleton.mp hs'
    exact hs

/-- The liquidity beyond a reached boundary. -/
theorem sumNet_crossed (hT : TicksAgree keccak spacing F) {tick : Int} (htick : tick < MAX_TICK) {boundary : StepBoundary}
    (hb : BoundarySpec keccak F tick zeroForOne boundary) :
    sumNet keccak F (if zeroForOne then boundary.tick - 1 else boundary.tick) = sumNet keccak F tick +
      if zeroForOne then -netAt keccak F boundary.tick else netAt keccak F boundary.tick := by
  cases zeroForOne with
  | true =>
    obtain ⟨hle, hclear⟩ := hb.down rfl
    simp only [if_true]
    rw [sumNet_of_clear hT hle htick.le fun x h₁ h₂ _ => hclear x h₁ h₂, sumNet_succ hb.inRange.1]
    omega
  | false =>
    obtain ⟨hlt, hclear⟩ := hb.up rfl
    simp only [Bool.false_eq_true, if_false]
    rw [sumNet_succ hb.inRange.1, sumNet_of_clear hT (show tick ≤ boundary.tick - 1 by omega)
      (by have := hb.inRange.2; omega) fun x h₁ h₂ _ => hclear x h₁ (by omega)]

/-- What the event's own price and tick satisfy. -/
structure FinalTick (swap : DecodedSwap) (zeroForOne : Bool) : Prop where
  price_gt : MIN_SQRT_RATIO < swap.sqrtPriceX96
  price_lt : swap.sqrtPriceX96 < MAX_SQRT_RATIO
  tick_ge : MIN_TICK ≤ swap.tick
  tick_lt : swap.tick < MAX_TICK
  lower : sqrtRatio swap.tick ≤ swap.sqrtPriceX96
  upper : swap.sqrtPriceX96 < sqrtRatio (swap.tick + 1) ∨ zeroForOne = true ∧ swap.sqrtPriceX96 = sqrtRatio (swap.tick + 1)

theorem FinalTick.of_ok (h : validateFinalTick swap.sqrtPriceX96 swap.tick zeroForOne = .ok ()) :
    FinalTick swap zeroForOne := by
  obtain ⟨h₁, h₂, h₃, h₄, h₅, h₆⟩ := validateFinalTick_eq_ok.mp h
  exact ⟨h₁, h₂, h₃, h₄, h₅, h₆⟩

theorem FinalTick.upper_le (h : FinalTick swap zeroForOne) : swap.sqrtPriceX96 ≤ sqrtRatio (swap.tick + 1) := by
  rcases h.upper with h | ⟨-, h⟩
  · exact h.le
  · exact h.le

/-- A step that ends inside its interval stays within the ticks before the boundary. -/
theorem sumNet_partial (hT : TicksAgree keccak spacing F) (hpath : PathInv keccak F swap zeroForOne path)
    (hfinal : FinalTick swap zeroForOne) (hne : path.sqrt ≠ swap.sqrtPriceX96) {boundary : StepBoundary}
    (hb : BoundarySpec keccak F path.tick zeroForOne boundary)
    (hinside : if zeroForOne then sqrtRatio boundary.tick < swap.sqrtPriceX96
      else swap.sqrtPriceX96 < sqrtRatio boundary.tick) :
    sumNet keccak F swap.tick = sumNet keccak F path.tick := by
  have hge := hpath.tick_ge
  have hlt := hpath.tick_lt
  have hfge := hfinal.tick_ge
  have hflt := hfinal.tick_lt
  cases zeroForOne with
  | true =>
    obtain ⟨hle, hclear⟩ := hb.down rfl
    have hprice : swap.sqrtPriceX96 < path.sqrt := lt_of_le_of_ne (hpath.down rfl) hne.symm
    have h₁ : boundary.tick < swap.tick + 1 := (sqrtRatio_lt_iff hb.inRange ⟨by omega, by omega⟩).mp
      (lt_of_lt_of_le hinside hfinal.upper_le)
    have h₂ : swap.tick < path.tick + 1 := (sqrtRatio_lt_iff ⟨hfge, hflt.le⟩ ⟨by omega, by omega⟩).mp
      ((hfinal.lower.trans_lt hprice).trans_le hpath.upper)
    exact (sumNet_of_clear hT (by omega) hlt.le fun x h₃ h₄ _ => hclear x (by omega) h₄).symm
  | false =>
    obtain ⟨hlt', hclear⟩ := hb.up rfl
    have hprice : path.sqrt < swap.sqrtPriceX96 := lt_of_le_of_ne (hpath.up rfl) hne
    have h₁ : path.tick < swap.tick + 1 := (sqrtRatio_lt_iff ⟨hge, hlt.le⟩ ⟨by omega, by omega⟩).mp
      ((hpath.lower.trans_lt hprice).trans_le hfinal.upper_le)
    have h₂ : swap.tick < boundary.tick := (sqrtRatio_lt_iff ⟨hfge, hflt.le⟩ hb.inRange).mp
      (hfinal.lower.trans_lt hinside)
    exact sumNet_of_clear hT (by omega) hflt.le fun x h₃ h₄ _ => hclear x h₃ (by omega)

/-- Standing on a boundary that was reached. -/
theorem reached_bounds {b : Int} (hfinal : FinalTick swap zeroForOne) (hb : InRange b)
    (hside : if zeroForOne then swap.sqrtPriceX96 ≤ sqrtRatio b else sqrtRatio b ≤ swap.sqrtPriceX96) :
    MIN_TICK ≤ (if zeroForOne then b - 1 else b) ∧ (if zeroForOne then b - 1 else b) < MAX_TICK ∧
      sqrtRatio (if zeroForOne then b - 1 else b) ≤ sqrtRatio b ∧
      sqrtRatio b ≤ sqrtRatio ((if zeroForOne then b - 1 else b) + 1) := by
  have hmin := hb.1
  have hmax := hb.2
  cases zeroForOne with
  | true =>
    have hlt : MIN_TICK < b := by
      refine (sqrtRatio_lt_iff ⟨le_rfl, by decide⟩ hb).mp ?_
      rw [sqrtRatio_min]
      exact hfinal.price_gt.trans_le hside
    simp only [if_true]
    refine ⟨by omega, by omega, sqrtRatio_le (by omega) (by omega) hmax, ?_⟩
    rw [sub_add_cancel]
  | false =>
    have hlt : b < MAX_TICK := by
      refine (sqrtRatio_lt_iff hb ⟨by decide, le_rfl⟩).mp ?_
      rw [sqrtRatio_max]
      exact lt_of_le_of_lt hside hfinal.price_lt
    simp only [Bool.false_eq_true, if_false]
    exact ⟨hmin, hlt, le_rfl, sqrtRatio_le hmin (by omega) (by omega)⟩

theorem pathStep_inv (h : Holds state address F) (hT : TicksAgree keccak spacing F) (hs : 0 < spacing)
    (hfinal : FinalTick swap zeroForOne) (hpath : PathInv keccak F swap zeroForOne path)
    (hne : path.sqrt ≠ swap.sqrtPriceX96)
    (hok : pathStep keccak address (.uniswap spacing) state swap zeroForOne path = .ok path') :
    PathInv keccak F swap zeroForOne path' := by
  obtain ⟨boundary, hboundary, hok⟩ := bind_eq_ok.mp hok
  obtain ⟨boundarySqrt, hsqrt, hok⟩ := bind_eq_ok.mp hok
  obtain ⟨⟨amountIn, amountOut⟩, -, hok⟩ := bind_eq_ok.mp hok
  obtain ⟨⟨crossed, liquidity⟩, hcross, hok⟩ := bind_eq_ok.mp hok
  obtain rfl := pure_eq_ok.mp hok
  obtain ⟨hrange, rfl⟩ := sqrtRatioAtTick_eq_ok.mp hsqrt
  have hb := nextStepBoundary_spec h hT hs ⟨hpath.tick_ge, hpath.tick_lt.le⟩ (fun _ => hpath.tick_lt) hboundary
  obtain ⟨hcrossed, hliq, hlt⟩ := crossBoundary_spec h hT hb hpath.liquidity_lt hcross
  set target := if zeroForOne then max (sqrtRatio boundary.tick) swap.sqrtPriceX96
    else min (sqrtRatio boundary.tick) swap.sqrtPriceX96 with htarget
  have hsegments := hpath.append_crossed ⟨path.sqrt, target, path.liquidity, amountIn, amountOut,
    decide (target = sqrtRatio boundary.tick), crossed⟩ fun c hc => ⟨_, hb.inRange,
      (hcrossed c hc).2.2, (hcrossed c hc).2.1⟩
  by_cases hreached : target = sqrtRatio boundary.tick
  · have hside : if zeroForOne then swap.sqrtPriceX96 ≤ sqrtRatio boundary.tick
        else sqrtRatio boundary.tick ≤ swap.sqrtPriceX96 := by
      cases zeroForOne with
      | true => exact hreached ▸ le_max_right _ _
      | false => exact hreached ▸ min_le_right _ _
    obtain ⟨h₁, h₂, h₃, h₄⟩ := reached_bounds hfinal hb.inRange hside
    simp only [decide_true, hreached, if_true] at hliq hsegments ⊢
    refine ⟨h₁, h₂, h₃, h₄, fun hz => by subst hz; exact hside, fun hz => by subst hz; exact hside, ?_, hlt, hsegments⟩
    rw [hliq, hpath.liquidity, ← sumNet_crossed hT hpath.tick_lt hb]
  · have hprice : target = swap.sqrtPriceX96 := by
      cases zeroForOne with
      | true => exact max_eq_right (le_of_lt (lt_of_not_ge fun hle => hreached (max_eq_left hle)))
      | false => exact min_eq_right (le_of_lt (lt_of_not_ge fun hle => hreached (min_eq_left hle)))
    have hinside : if zeroForOne then sqrtRatio boundary.tick < swap.sqrtPriceX96
        else swap.sqrtPriceX96 < sqrtRatio boundary.tick := by
      cases zeroForOne with
      | true => exact lt_of_not_ge fun hle => hreached (max_eq_left hle)
      | false => exact lt_of_not_ge fun hle => hreached (min_eq_left hle)
    simp only [hreached, decide_false, Bool.false_eq_true, if_false, add_zero] at hliq hsegments ⊢
    refine ⟨hfinal.tick_ge, hfinal.tick_lt, hprice ▸ hfinal.lower, hprice ▸ hfinal.upper_le, fun _ => hprice.ge,
      fun _ => hprice.le, ?_, hlt, hsegments⟩
    rw [hliq, hpath.liquidity, sumNet_partial hT hpath hfinal hne hb hinside]

/-- Entering the boundary that a downward path stands on. -/
theorem enterBoundary_inv (h : Holds state address F) (hT : TicksAgree keccak spacing F) (hs : 0 < spacing)
    (hfinal : FinalTick swap true) (hpath : PathInv keccak F swap true path) (heq : path.sqrt = swap.sqrtPriceX96)
    (hok : enterBoundary keccak address (.uniswap spacing) state path = .ok path') :
    PathInv keccak F swap true path' ∧ path'.sqrt = swap.sqrtPriceX96 := by
  obtain ⟨boundary, hboundary, hok⟩ := bind_eq_ok.mp hok
  obtain ⟨boundarySqrt, hsqrt, hok⟩ := bind_eq_ok.mp hok
  obtain ⟨hrange, rfl⟩ := sqrtRatioAtTick_eq_ok.mp hsqrt
  have hb := nextStepBoundary_spec h hT hs ⟨hpath.tick_ge, hpath.tick_lt.le⟩ (fun _ => hpath.tick_lt) hboundary
  split_ifs at hok with hstand
  · obtain ⟨⟨crossed, liquidity⟩, hcross, hok⟩ := bind_eq_ok.mp hok
    obtain rfl := pure_eq_ok.mp hok
    obtain ⟨hcrossed, hliq, hlt⟩ := crossBoundary_spec h hT hb hpath.liquidity_lt hcross
    have hsegments := hpath.append_crossed ⟨path.sqrt, path.sqrt, path.liquidity, 0, 0, true, crossed⟩ fun c hc =>
      ⟨_, hb.inRange, (hcrossed c hc).2.2, (hcrossed c hc).2.1⟩
    obtain ⟨h₁, h₂, h₃, h₄⟩ := reached_bounds hfinal hb.inRange (by rw [if_pos rfl, hstand, heq])
    simp only [if_true] at h₁ h₂ h₃ h₄ hliq
    refine ⟨⟨h₁, h₂, h₃.trans hstand.le, hstand.symm.le.trans h₄, fun _ => heq.ge, nofun, ?_, hlt, hsegments⟩, heq⟩
    have hsum := sumNet_crossed hT hpath.tick_lt hb
    simp only [if_true] at hsum
    rw [hliq, hpath.liquidity, hsum]
  · obtain rfl := pure_eq_ok.mp hok
    exact ⟨hpath, heq⟩

theorem walk_inv (h : Holds state address F) (hT : TicksAgree keccak spacing F) (hs : 0 < spacing)
    (hfinal : FinalTick swap zeroForOne) {steps : Nat} (hpath : PathInv keccak F swap zeroForOne path)
    (hok : walk keccak address (.uniswap spacing) state swap zeroForOne steps path = .ok path') :
    PathInv keccak F swap zeroForOne path' ∧ path'.sqrt = swap.sqrtPriceX96 := by
  induction steps generalizing path with
  | zero =>
    unfold walk at hok
    split_ifs at hok with heq
    · obtain rfl := pure_eq_ok.mp hok
      exact ⟨hpath, heq⟩
  | succ steps ih =>
    unfold walk at hok
    split_ifs at hok with heq
    · obtain rfl := pure_eq_ok.mp hok
      exact ⟨hpath, heq⟩
    · obtain ⟨next, hnext, hok⟩ := bind_eq_ok.mp hok
      exact ih (pathStep_inv h hT hs hfinal hpath heq hnext) hok

/-- The path of a replay ends at the event's price with the liquidity of its tick. -/
theorem replayPath_inv (h : Holds state address F) (hT : TicksAgree keccak spacing F) (hs : 0 < spacing)
    (hfinal : FinalTick swap zeroForOne) (hpath : PathInv keccak F swap zeroForOne path)
    (hok : replayPath keccak address (.uniswap spacing) state swap zeroForOne path = .ok path') :
    PathInv keccak F swap zeroForOne path' ∧ path'.sqrt = swap.sqrtPriceX96 := by
  obtain ⟨start, hstart, hok⟩ := bind_eq_ok.mp hok
  split_ifs at hstart with hc
  · obtain ⟨rfl, heq⟩ := hc
    exact walk_inv h hT hs hfinal (enterBoundary_inv h hT hs hfinal hpath heq hstart).1 hok
  · obtain rfl := pure_eq_ok.mp hstart
    exact walk_inv h hT hs hfinal hpath hok

end

end AmmState.Canonical
