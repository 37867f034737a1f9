import AmmState.Theorems.V3.FeeInference

/-! Which totals the step-by-step allocation of a Slipstream fee accepts. It accepts exactly the totals of the fee's
    interval, except where the final step has no liquidity: there a positive fee's interval reaches one unit too far. -/

namespace AmmState.V3
open Checked

/-! ### The final step -/

/-- A gross input whose price budget stays within a limit. -/
theorem budget_le_iff {fee gross budget : Nat} (hfee : fee ≤ MAX_SLIPSTREAM_FEE) :
    gross * (FEE_DENOMINATOR - fee) / FEE_DENOMINATOR ≤ budget ↔
      gross < (budget + 1) * FEE_DENOMINATOR ⌈/⌉ (FEE_DENOMINATOR - fee) := by
  rw [← Nat.lt_succ_iff, Nat.div_lt_iff_lt_mul (by decide), ← Nat.not_le, ← Nat.not_le, not_iff_not,
    ceilDiv_le_iff_le_mul (denominator_pos hfee), Nat.mul_comm gross]

/-- What is paid beyond the fee of a full step still buys the whole move. -/
theorem amount_le_budget {amountIn fee feeAmount : Nat} (hfee : fee ≤ MAX_SLIPSTREAM_FEE)
    (hpaid : fullFee amountIn fee ≤ feeAmount) :
    amountIn ≤ (amountIn + feeAmount) * (FEE_DENOMINATOR - fee) / FEE_DENOMINATOR := by
  rw [fullFee, ceilDiv_le_iff_le_mul (denominator_pos hfee)] at hpaid
  rw [Nat.le_div_iff_mul_le (by decide)]
  have hsplit : fee + (FEE_DENOMINATOR - fee) = FEE_DENOMINATOR := by
    unfold MAX_SLIPSTREAM_FEE at hfee
    unfold FEE_DENOMINATOR
    omega
  calc amountIn * FEE_DENOMINATOR = amountIn * fee + amountIn * (FEE_DENOMINATOR - fee) := by rw [← Nat.mul_add, hsplit]
    _ ≤ (FEE_DENOMINATOR - fee) * feeAmount + amountIn * (FEE_DENOMINATOR - fee) := Nat.add_le_add_right hpaid _
    _ = (amountIn + feeAmount) * (FEE_DENOMINATOR - fee) := by ring

section Final
variable {zeroForOne : Bool} {step : SlipstreamSegment} {budget fee : Nat}

/-- An input that covers a step moves the price to its end. A step spans at most one word, so that the first input past its
    end is that of the full-math formula. -/
theorem ReplayedSegment.reaches (h : ReplayedSegment zeroForOne step) (hliquidity : 0 < step.liquidity) {amount price : Nat}
    (hamount : step.amountIn ≤ amount) (hprice : nextSqrtFromInput step.sqrtStart step.liquidity amount
      zeroForOne = .ok price) :
    if zeroForOne then price ≤ step.sqrtEnd else step.sqrtEnd ≤ price := by
  have hdirected := h.directed
  rw [h.amountIn_eq, stepInput] at hamount
  cases zeroForOne with
  | true =>
    have hend := h.finish.pos
    have hstart := h.start.pos
    have hlt : step.liquidity * Q96 < 2 ^ 224 := by
      rw [show (2 : Nat) ^ 224 = 2 ^ 128 * Q96 by decide]
      exact Nat.mul_lt_mul_of_pos_right h.liquidity_lt (by decide)
    have hmask : step.sqrtStart < 2 ^ 160 := Nat.lt_of_le_of_lt h.start.2 (by decide)
    rw [if_pos rfl, nextSqrtFromInput_down h.start hliquidity h.liquidity_lt hprice hend hdirected]
    have hfull : exactPast step.sqrtStart step.sqrtEnd (step.liquidity * Q96) ≤
        (2 ^ 256 - 1 - step.liquidity * Q96) / step.sqrtStart := by
      rw [exactPast_le hend hdirected]
      generalize hnumerator : step.liquidity * Q96 = numerator at hlt
      set limit := (2 ^ 256 - 1 - numerator) / step.sqrtStart with hlimit
      have hbelow : 2 ^ 256 - 1 - numerator < step.sqrtStart * (limit + 1) := Nat.lt_mul_div_succ _ hstart
      have hwide : 2 ^ 238 ≤ numerator + limit * step.sqrtStart := by
        rw [Nat.mul_add, Nat.mul_one, Nat.mul_comm] at hbelow
        omega
      calc numerator * step.sqrtStart ≤ 2 ^ 224 * (2 ^ 14 * step.sqrtEnd) := Nat.mul_le_mul hlt.le h.near
        _ = 2 ^ 238 * step.sqrtEnd := by rw [← Nat.mul_assoc, ← Nat.pow_add]
        _ ≤ (numerator + limit * step.sqrtStart) * step.sqrtEnd := Nat.mul_le_mul_right _ hwide
    rw [firstPast, if_pos hfull]
    exact hamount
  | false =>
    obtain rfl := nextSqrtFromInput_up hprice
    rw [if_neg (by simp)] at hamount ⊢
    rw [upPast_le _ _ hliquidity] at hamount
    have hle : step.sqrtStart ≤ step.sqrtEnd := hdirected
    omega

/-- A price that the final step ends on: it is reached and not passed. -/
theorem price_eq_iff {sqrtEnd price : Nat} (hreaches : if zeroForOne then price ≤ sqrtEnd else sqrtEnd ≤ price) :
    price = sqrtEnd ↔ ¬ Passes zeroForOne sqrtEnd price := by
  unfold Passes
  split_ifs at hreaches ⊢ <;> omega

/-- The fees that a final step with liquidity accepts. -/
theorem validFinalStepFee_iff {feeAmount : Nat} (h : ReplayedSegment zeroForOne step) (hliquidity : 0 < step.liquidity)
    (hbudget : IsBudget step.sqrtStart step.sqrtEnd step.liquidity zeroForOne budget) (hfee : fee ≤ MAX_SLIPSTREAM_FEE) :
    validFinalStepFee step.sqrtStart step.sqrtEnd step.liquidity step.amountIn feeAmount fee zeroForOne = .ok true ↔
      fullFee step.amountIn fee ≤ feeAmount ∧
        feeAmount ≤ max (partialFee step.amountIn budget fee) (fullFee step.amountIn fee) := by
  have hinvalid := invalidTotal_bounds hfee hbudget.small
  rw [validFinalStepFee, feeForFullStep_eq hfee h.amountIn_lt, ok_bind]
  rcases lt_trichotomy feeAmount (fullFee step.amountIn fee) with hlt | rfl | hgt
  · rw [if_pos hlt]
    exact ⟨fun h => (by cases h), fun hle => absurd hle.1 (Nat.not_le.mpr hlt)⟩
  · rw [if_neg (Nat.lt_irrefl _), if_pos rfl]
    exact ⟨fun _ => ⟨le_rfl, le_max_right _ _⟩, fun _ => rfl⟩
  rw [if_neg (Nat.not_lt.mpr hgt.le), if_neg hgt.ne']
  -- Beyond the fee of the full step, the fee is accepted as long as the price budget is not exceeded.
  have hrange : (fullFee step.amountIn fee ≤ feeAmount ∧
      feeAmount ≤ max (partialFee step.amountIn budget fee) (fullFee step.amountIn fee)) ↔
      (step.amountIn + feeAmount) * (FEE_DENOMINATOR - fee) / FEE_DENOMINATOR ≤ budget := by
    rw [budget_le_iff hfee, le_max_iff, partialFee]
    generalize (budget + 1) * FEE_DENOMINATOR ⌈/⌉ (FEE_DENOMINATOR - fee) = invalid at hinvalid ⊢
    omega
  rw [hrange]
  by_cases hgross : step.amountIn + feeAmount < 2 ^ 256
  swap
  · have hoverflow : ¬ (step.amountIn + feeAmount) * (FEE_DENOMINATOR - fee) / FEE_DENOMINATOR ≤ budget := by
      rw [budget_le_iff hfee, Nat.not_lt]
      exact hinvalid.2.trans ((by decide : 2 ^ 226 ≤ 2 ^ 256).trans (Nat.not_lt.mp hgross))
    rw [checkedAdd, ensure, if_neg hgross]
    exact ⟨fun h => (by cases h), fun hle => absurd hle hoverflow⟩
  have hfit : (step.amountIn + feeAmount) * (FEE_DENOMINATOR - fee) / FEE_DENOMINATOR < 2 ^ 256 := by
    refine Nat.lt_of_le_of_lt (Nat.div_le_of_le_mul ?_) hgross
    rw [Nat.mul_comm]
    exact Nat.mul_le_mul_right _ (Nat.sub_le _ _)
  have hamount := amount_le_budget hfee hgt.le
  rw [checkedAdd, ensure_bind hgross]
  dsimp only [pure, Except.pure]
  rw [ok_bind, mulDiv, div512_down (by decide) hfit, ok_bind]
  generalize (step.amountIn + feeAmount) * (FEE_DENOMINATOR - fee) / FEE_DENOMINATOR = amount at hamount ⊢
  rcases hprice : nextSqrtFromInput step.sqrtStart step.liquidity amount zeroForOne with error | price
  · refine ⟨fun h => (by cases h), fun hle => ?_⟩
    obtain ⟨price, hdefined⟩ := hbudget.defined (hle.trans (Nat.le_succ budget))
    cases hprice.symm.trans hdefined
  · rw [ok_bind]
    have hreached := price_eq_iff (h.reaches hliquidity hamount hprice)
    rw [← Nat.not_lt, ← hbudget.passes hprice, ← hreached]
    simp

/-- Without liquidity a final step accepts the fee of the full step only, which is zero. -/
theorem validFinalStepFee_zero (feeAmount : Nat) (h : ReplayedSegment zeroForOne step) (hliquidity : step.liquidity = 0)
    (hfee : fee ≤ MAX_SLIPSTREAM_FEE) :
    step.amountIn = 0 ∧
      (validFinalStepFee step.sqrtStart step.sqrtEnd step.liquidity step.amountIn feeAmount fee zeroForOne = .ok true ↔
        feeAmount = 0) := by
  have hamount : step.amountIn = 0 := by
    rw [h.amountIn_eq, stepInput, hliquidity]
    cases zeroForOne with
    | true => simp [exactPast]
    | false => simp
  have hzero : fullFee 0 fee = 0 := by simp [fullFee]
  refine ⟨hamount, ?_⟩
  rw [validFinalStepFee, hamount, feeForFullStep_eq hfee (by decide), ok_bind, hzero, if_neg (Nat.not_lt_zero _)]
  by_cases hfeeAmount : feeAmount = 0
  · rw [if_pos hfeeAmount]
    exact ⟨fun _ => hfeeAmount, fun _ => rfl⟩
  rw [if_neg hfeeAmount]
  refine ⟨fun hok => ?_, fun heq => absurd heq hfeeAmount⟩
  obtain ⟨gross, -, hok⟩ := bind_eq_ok.mp hok
  obtain ⟨amount, -, hok⟩ := bind_eq_ok.mp hok
  obtain ⟨price, hprice, -⟩ := bind_eq_ok.mp hok
  obtain ⟨_, hpositive, -⟩ := bind_eq_ok.mp hprice
  exact absurd hliquidity (ensure_eq_ok.mp hpositive).2

end Final

/-! ### The steps -/

section Steps
variable {zeroForOne cappedOutput : Bool} {preceding : List SlipstreamSegment} {last : SlipstreamSegment} {fee : Nat}

/-- The steps before the last pay their full fee; the last one must take exactly the rest. -/
theorem allocateSteps_iff (zeroForOne cappedOutput : Bool) (last : SlipstreamSegment) (hfee : fee ≤ MAX_SLIPSTREAM_FEE)
    (hamounts : ∀ s ∈ preceding, s.amountIn < 2 ^ 224) (totalFee : Nat) :
    (∃ fees, allocateSteps fee zeroForOne cappedOutput (preceding ++ [last]) totalFee = .ok (fees, 0)) ↔
      ∃ rest, totalFee = fullFees preceding fee + rest ∧
        slipstreamStepFee fee zeroForOne cappedOutput last true rest = .ok rest := by
  induction preceding generalizing totalFee with
  | nil =>
    rw [List.nil_append]
    constructor
    · rintro ⟨fees, hok⟩
      rw [allocateSteps] at hok
      obtain ⟨feeAmount, hstep, hok⟩ := bind_eq_ok.mp hok
      obtain ⟨rest, hsub, hok⟩ := bind_eq_ok.mp hok
      obtain ⟨_, hle, hsub⟩ := bind_eq_ok.mp hsub
      have hle := ensure_eq_ok.mp hle
      cases pure_eq_ok.mp hsub
      rw [allocateSteps] at hok
      obtain ⟨⟨fees', rest'⟩, hnil, hok⟩ := bind_eq_ok.mp hok
      cases pure_eq_ok.mp hnil
      have hzero : totalFee - feeAmount = 0 := (Prod.mk.inj (pure_eq_ok.mp hok)).2
      obtain rfl : feeAmount = totalFee := by omega
      exact ⟨feeAmount, by simp [fullFees], hstep⟩
    · rintro ⟨rest, heq, hstep⟩
      obtain rfl : totalFee = rest := by simpa [fullFees] using heq
      refine ⟨[totalFee], ?_⟩
      rw [allocateSteps]
      show (slipstreamStepFee fee zeroForOne cappedOutput last true totalFee >>= _) = _
      rw [hstep, ok_bind, checkedSub, ensure_bind le_rfl]
      simp [allocateSteps, pure, Except.pure, bind, Except.bind]
  | cons segment preceding ih =>
    have hsegment := hamounts segment List.mem_cons_self
    have hrest := fun s hs => hamounts s (List.mem_cons_of_mem segment hs)
    have hfull : slipstreamStepFee fee zeroForOne cappedOutput segment (preceding ++ [last]).isEmpty totalFee =
        .ok (fullFee segment.amountIn fee) := by
      rw [slipstreamStepFee, if_neg (by simp)]
      exact feeForFullStep_eq hfee hsegment
    have hfees : fullFees (segment :: preceding) fee = fullFee segment.amountIn fee + fullFees preceding fee := by
      simp [fullFees]
    rw [List.cons_append, hfees]
    constructor
    · rintro ⟨fees, hok⟩
      rw [allocateSteps, hfull, ok_bind] at hok
      obtain ⟨rest, hsub, hok⟩ := bind_eq_ok.mp hok
      obtain ⟨_, hle, hsub⟩ := bind_eq_ok.mp hsub
      have hle := ensure_eq_ok.mp hle
      cases pure_eq_ok.mp hsub
      obtain ⟨⟨fees', rest'⟩, hallocated, hok⟩ := bind_eq_ok.mp hok
      obtain rfl : rest' = 0 := (Prod.mk.inj (pure_eq_ok.mp hok)).2
      obtain ⟨rest, heq, hstep⟩ := (ih hrest _).mp ⟨fees', hallocated⟩
      exact ⟨rest, by omega, hstep⟩
    · rintro ⟨rest, heq, hstep⟩
      obtain ⟨fees, hallocated⟩ := (ih hrest (totalFee - fullFee segment.amountIn fee)).mpr ⟨rest, by omega, hstep⟩
      refine ⟨fullFee segment.amountIn fee :: fees, ?_⟩
      rw [allocateSteps, hfull, ok_bind, checkedSub, ensure_bind (by omega)]
      dsimp only [pure, Except.pure]
      rw [ok_bind, hallocated]
      rfl

/-- The rest that the last step takes. -/
theorem slipstreamStepFee_last_iff (hfee : fee ≤ MAX_SLIPSTREAM_FEE) (hamount : last.amountIn < 2 ^ 224) (rest : Nat) :
    slipstreamStepFee fee zeroForOne cappedOutput last true rest = .ok rest ↔
      if last.reachedBoundary = true ∨ cappedOutput = true then rest = fullFee last.amountIn fee
      else validFinalStepFee last.sqrtStart last.sqrtEnd last.liquidity last.amountIn rest fee zeroForOne = .ok true := by
  have hfull := feeForFullStep_eq hfee hamount
  have hvalid : validFinalStepFee last.sqrtStart last.sqrtEnd last.liquidity last.amountIn (fullFee last.amountIn fee) fee
      zeroForOne = .ok true := by
    rw [validFinalStepFee, hfull, ok_bind, if_neg (Nat.lt_irrefl _), if_pos rfl]
    rfl
  rw [slipstreamStepFee]
  cases hreached : last.reachedBoundary with
  | true =>
    rw [if_neg (by simp), if_pos (by simp), hfull]
    exact ⟨fun h => (Except.ok.inj h).symm, fun h => congrArg _ h.symm⟩
  | false =>
    rw [if_pos ⟨rfl, rfl⟩]
    cases cappedOutput with
    | true =>
      rw [if_pos rfl, if_pos (by simp), hfull, ok_bind]
      constructor
      · intro hok
        obtain ⟨_, heq, -⟩ := bind_eq_ok.mp hok
        exact ensure_eq_ok.mp heq
      · rintro rfl
        rw [ensure_bind rfl, hvalid, ok_bind, ensure_bind rfl]
        rfl
    | false =>
      rw [if_neg (by simp), if_neg (by simp)]
      constructor
      · intro hok
        obtain ⟨valid, hok', hok⟩ := bind_eq_ok.mp hok
        obtain ⟨_, htrue, -⟩ := bind_eq_ok.mp hok
        exact ensure_eq_ok.mp htrue ▸ hok'
      · intro hok
        rw [hok, ok_bind, ensure_bind rfl]
        rfl

end Steps

/-! ### The allocation -/

section Allocation
variable {zeroForOne cappedOutput : Bool} {path : SlipstreamPath} {segments preceding : List SlipstreamSegment}
  {last : SlipstreamSegment} {fee budget totalFee : Nat}

theorem allocateSlipstreamFees_isOk :
    (allocateSlipstreamFees path segments totalFee fee zeroForOne cappedOutput).isOk = true ↔
      ∃ carried, residualSlipstreamSegments path segments totalFee fee zeroForOne cappedOutput = .ok carried ∧
        ∃ fees, allocateSteps fee zeroForOne cappedOutput carried totalFee = .ok (fees, 0) := by
  rw [isOk_iff]
  constructor
  · rintro ⟨result, hok⟩
    obtain ⟨carried, hcarried, hok⟩ := bind_eq_ok.mp hok
    obtain ⟨⟨fees, rest⟩, hfees, hok⟩ := bind_eq_ok.mp hok
    obtain ⟨_, hzero, -⟩ := bind_eq_ok.mp hok
    obtain rfl : rest = 0 := ensure_eq_ok.mp hzero
    exact ⟨carried, hcarried, fees, hfees⟩
  · rintro ⟨carried, hcarried, fees, hfees⟩
    refine ⟨(carried, fees), ?_⟩
    rw [allocateSlipstreamFees, hcarried, ok_bind, hfees, ok_bind]
    exact ensure_bind rfl

/-- What the steps before the final one pay. -/
def precedingFees (preceding : List SlipstreamSegment) (last : SlipstreamSegment) (fee : Nat) : Nat :=
  if last.reachedBoundary then fullFees (preceding ++ [last]) fee else fullFees preceding fee

/-- Whether the final step takes a fee. -/
def Takes (path : SlipstreamPath) (last : SlipstreamSegment) (zeroForOne : Bool) (fee rest : Nat) : Prop :=
  validFinalStepFee (finalStep path last).sqrtStart (finalStep path last).sqrtEnd (finalStep path last).liquidity
    (finalStep path last).amountIn rest fee zeroForOne = .ok true

/-- The steps before the final one pay in full and the final step takes the rest. -/
theorem accepts_iff (h : Replayed zeroForOne path (preceding ++ [last])) (hfee : fee ≤ MAX_SLIPSTREAM_FEE) :
    (allocateSlipstreamFees path (preceding ++ [last]) totalFee fee zeroForOne false).isOk = true ↔
      ∃ rest, totalFee = precedingFees preceding last fee + rest ∧ Takes path last zeroForOne fee rest := by
  have hamounts : ∀ s ∈ preceding ++ [last], s.amountIn < 2 ^ 224 := fun s hs => (h.segment s hs).amountIn_lt
  have hpreceding : ∀ s ∈ preceding, s.amountIn < 2 ^ 224 := fun s hs => hamounts s (List.mem_append_left _ hs)
  have hlast := hamounts last (by simp)
  have hempty : (emptySlipstreamSegment path.sqrt path.liquidity path.stakedLiquidity).amountIn < 2 ^ 224 :=
    show 0 < 2 ^ 224 by decide
  have hcarried : ∀ {carried : List SlipstreamSegment}, (∃ found, (pure carried : Result _) = .ok found ∧
      ∃ fees, allocateSteps fee zeroForOne false found totalFee = .ok (fees, 0)) ↔
      ∃ fees, allocateSteps fee zeroForOne false carried totalFee = .ok (fees, 0) := by
    intro carried
    constructor
    · rintro ⟨_, ⟨⟩, hfees⟩
      exact hfees
    · intro hfees
      exact ⟨_, rfl, hfees⟩
  rw [allocateSlipstreamFees_isOk, residualSlipstreamSegments, List.getLast?_concat, Option.map_some, precedingFees]
  unfold Takes finalStep
  cases hreached : last.reachedBoundary with
  | false =>
    rw [if_neg (by simp), if_neg (by simp), if_neg (by simp), hcarried,
      allocateSteps_iff zeroForOne false last hfee hpreceding]
    refine exists_congr fun rest => and_congr_right fun _ => ?_
    rw [slipstreamStepFee_last_iff hfee hlast, if_neg (by simp [hreached])]
  | true =>
    rw [if_pos ⟨rfl, rfl⟩, if_pos rfl, if_pos rfl, slipstreamStepFees_eq hfee hamounts h.length_le, ok_bind]
    -- Without a remainder the last step pays in full; a remainder goes to a step of its own.
    have hexact : (∃ fees, allocateSteps fee zeroForOne false (preceding ++ [last]) totalFee = .ok (fees, 0)) ↔
        totalFee = fullFees (preceding ++ [last]) fee := by
      rw [allocateSteps_iff zeroForOne false last hfee hpreceding, fullFees_append]
      simp only [slipstreamStepFee_last_iff hfee hlast, hreached, true_or, if_true]
      constructor
      · rintro ⟨rest, heq, rfl⟩
        exact heq
      · intro heq
        exact ⟨_, heq, rfl⟩
    have hremainder : (∃ fees, allocateSteps fee zeroForOne false
        ((preceding ++ [last]) ++ [emptySlipstreamSegment path.sqrt path.liquidity path.stakedLiquidity]) totalFee =
          .ok (fees, 0)) ↔
        ∃ rest, totalFee = fullFees (preceding ++ [last]) fee + rest ∧
          validFinalStepFee path.sqrt path.sqrt path.liquidity 0 rest fee zeroForOne = .ok true := by
      rw [allocateSteps_iff zeroForOne false _ hfee hamounts]
      refine exists_congr fun rest => and_congr_right fun _ => ?_
      rw [slipstreamStepFee_last_iff hfee hempty, if_neg (by simp [emptySlipstreamSegment])]
      rfl
    have hnothing : validFinalStepFee path.sqrt path.sqrt path.liquidity 0 0 fee zeroForOne = .ok true := by
      have hzero : fullFee 0 fee = 0 := by simp [fullFee]
      rw [validFinalStepFee, feeForFullStep_eq hfee (by decide), ok_bind, hzero, if_neg (Nat.lt_irrefl 0), if_pos rfl]
      rfl
    show _ ↔ ∃ rest, totalFee = fullFees (preceding ++ [last]) fee + rest ∧
      validFinalStepFee path.sqrt path.sqrt path.liquidity 0 rest fee zeroForOne = .ok true
    by_cases hmore : fullFees (preceding ++ [last]) fee < totalFee
    · rw [if_pos hmore]
      rcases hvalid : validFinalStepFee path.sqrt path.sqrt path.liquidity 0 (totalFee - fullFees (preceding ++ [last]) fee)
        fee zeroForOne with error | valid
      · refine ⟨fun h => ?_, ?_⟩
        · obtain ⟨_, herror, -⟩ := h
          cases herror
        rintro ⟨rest, heq, hok⟩
        obtain rfl : totalFee - fullFees (preceding ++ [last]) fee = rest := by omega
        cases hvalid.symm.trans hok
      · rw [ok_bind]
        cases valid with
        | true =>
          rw [if_pos rfl, hcarried]
          exact hremainder
        | false =>
          rw [if_neg (by simp), hcarried, hexact]
          refine ⟨fun heq => absurd heq hmore.ne', ?_⟩
          rintro ⟨rest, heq, hok⟩
          obtain rfl : totalFee - fullFees (preceding ++ [last]) fee = rest := by omega
          cases hvalid.symm.trans hok
    · rw [if_neg hmore, hcarried, hexact]
      constructor
      · intro heq
        exact ⟨0, by omega, hnothing⟩
      · rintro ⟨rest, heq, -⟩
        omega

/-- A capped output pays the full fee of every step. -/
theorem accepts_capped_iff (h : Replayed zeroForOne path (preceding ++ [last])) (hfee : fee ≤ MAX_SLIPSTREAM_FEE) :
    (allocateSlipstreamFees path (preceding ++ [last]) totalFee fee zeroForOne true).isOk = true ↔
      totalFee = fullFees (preceding ++ [last]) fee := by
  have hamounts : ∀ s ∈ preceding ++ [last], s.amountIn < 2 ^ 224 := fun s hs => (h.segment s hs).amountIn_lt
  have hpreceding : ∀ s ∈ preceding, s.amountIn < 2 ^ 224 := fun s hs => hamounts s (List.mem_append_left _ hs)
  have hlast := hamounts last (by simp)
  have hresidual : residualSlipstreamSegments path (preceding ++ [last]) totalFee fee zeroForOne true =
      .ok (preceding ++ [last]) := by
    rw [residualSlipstreamSegments, if_neg (by simp)]
    rfl
  have hsteps := allocateSteps_iff zeroForOne true last hfee hpreceding totalFee
  simp only [slipstreamStepFee_last_iff hfee hlast, or_true, if_true] at hsteps
  rw [allocateSlipstreamFees_isOk, hresidual, fullFees_append]
  constructor
  · rintro ⟨_, ⟨⟩, hfees⟩
    obtain ⟨rest, heq, rfl⟩ := hsteps.mp hfees
    exact heq
  · intro heq
    exact ⟨_, rfl, hsteps.mpr ⟨_, heq, rfl⟩⟩

/-- The totals of the interval, as what is left for the final step. -/
theorem compatible_iff (path : SlipstreamPath) (h : Inferable (preceding ++ [last]) budget)
    (hfee : fee ≤ MAX_SLIPSTREAM_FEE) :
    Compatible (preceding ++ [last]) budget false totalFee fee ↔
      ∃ rest, totalFee = precedingFees preceding last fee + rest ∧ fullFee (finalStep path last).amountIn fee ≤ rest ∧
        rest ≤ max (partialFee (finalStep path last).amountIn budget fee) (fullFee (finalStep path last).amountIn fee) := by
  have hinterval : Compatible (preceding ++ [last]) budget false totalFee fee ↔
      fullFees preceding fee + fullFee last.amountIn fee ≤ totalFee ∧
        totalFee ≤ fullFees preceding fee + lastMaximum last fee budget false := by
    unfold Compatible
    rw [slipstreamFeeInterval_eq h hfee]
    constructor
    · rintro ⟨-, _, _, ⟨⟩, hle⟩
      exact hle
    · intro hle
      exact ⟨hfee, _, _, rfl, hle⟩
  rw [hinterval, lastMaximum, if_neg (by simp), precedingFees, finalStep, fullFees_append]
  cases hreached : last.reachedBoundary with
  | true =>
    have hzero : fullFee 0 fee = 0 := by simp [fullFee]
    simp only [if_true, emptySlipstreamSegment, hzero]
    constructor
    · rintro ⟨hge, hle⟩
      exact ⟨totalFee - (fullFees preceding fee + fullFee last.amountIn fee), by omega, Nat.zero_le _, by omega⟩
    · rintro ⟨rest, rfl, -, hle⟩
      omega
  | false =>
    simp only [Bool.false_eq_true, if_false]
    constructor
    · rintro ⟨hge, hle⟩
      exact ⟨totalFee - fullFees preceding fee, by omega, by omega, by omega⟩
    · rintro ⟨rest, rfl, hge, hle⟩
      omega

/-- The liquidity of the final step. -/
def finalLiquidity (path : SlipstreamPath) (segments : List SlipstreamSegment) : Nat :=
  match segments.getLast? with
  | some last => if last.reachedBoundary then path.liquidity else last.liquidity
  | none => path.liquidity

theorem finalLiquidity_concat : finalLiquidity path (preceding ++ [last]) = (finalStep path last).liquidity := by
  rw [finalLiquidity, List.getLast?_concat, finalStep]
  dsimp only
  split_ifs
  · rfl
  · rfl

/-- Without liquidity the budget is zero, yet a positive fee leaves room for one unit. -/
theorem partialFee_zero (hfee : fee ≤ MAX_SLIPSTREAM_FEE) : partialFee 0 0 fee = if fee = 0 then 0 else 1 := by
  unfold MAX_SLIPSTREAM_FEE at hfee
  unfold partialFee FEE_DENOMINATOR
  split_ifs with hzero
  · subst hzero
    decide
  · have hceil : (0 + 1) * 1000000 ⌈/⌉ (1000000 - fee) = 2 := by
      rw [Nat.ceilDiv_eq_add_pred_div, Nat.div_eq_iff (by omega)]
      omega
    rw [hceil]

/-- A final step without liquidity adds nothing to the full fees. -/
theorem precedingFees_dry (hamount : (finalStep path last).amountIn = 0) :
    precedingFees preceding last fee = fullFees (preceding ++ [last]) fee := by
  rw [precedingFees]
  rw [finalStep] at hamount
  split_ifs at hamount ⊢
  · rfl
  · rw [fullFees_append, hamount]
    simp [fullFee]

end Allocation

/-- A total lies in the interval of a fee exactly if the allocation accepts it, except for the one total beyond the full
    fees where the final step has no liquidity and the fee is positive. -/
theorem feeInterval_iff_allocation (keccak : Keccak) (address : Address) (layout : V3StorageLayout) (swap : DecodedSwap)
    (state : StateView) (context : AdapterEventContext) (zeroForOne : Bool) (path : SlipstreamPath)
    (segments : List SlipstreamSegment)
    (hreplay : slipstreamReplay keccak address layout swap state context = .ok (zeroForOne, path, segments))
    (cappedOutput : Bool) (fee : Nat) (hfee : fee ≤ MAX_SLIPSTREAM_FEE) (totalFee : Nat) :
    ∃ budget fullStepFees, slipstreamFinalBudget path segments zeroForOne cappedOutput = .ok budget ∧
      slipstreamStepFees segments fee = .ok fullStepFees ∧
      ((Compatible segments budget cappedOutput totalFee fee ↔
          (allocateSlipstreamFees path segments totalFee fee zeroForOne cappedOutput).isOk = true) ↔
        ¬ (cappedOutput = false ∧ finalLiquidity path segments = 0 ∧ 0 < fee ∧ totalFee = fullStepFees + 1)) := by
  have hreplayed := slipstreamReplay_spec hreplay
  rcases List.eq_nil_or_concat' segments with rfl | ⟨preceding, last, rfl⟩
  · exact absurd rfl hreplayed.nonempty
  obtain ⟨budget, hbudget, hlt, hdry, hwet⟩ := slipstreamFinalBudget_spec hreplayed cappedOutput
  have hinferable := hreplayed.inferable hlt
  refine ⟨budget, fullFees (preceding ++ [last]) fee, hbudget,
    slipstreamStepFees_eq hfee hinferable.amounts hinferable.length_le, ?_⟩
  cases cappedOutput with
  | true =>
    refine iff_of_true ?_ (by simp)
    rw [accepts_capped_iff hreplayed hfee, Compatible, slipstreamFeeInterval_eq hinferable hfee, lastMaximum, if_pos rfl,
      fullFees_append]
    constructor
    · rintro ⟨-, _, _, ⟨⟩, hge, hle⟩
      exact Nat.le_antisymm hle hge
    · rintro rfl
      exact ⟨hfee, _, _, rfl, le_rfl, le_rfl⟩
  | false =>
    have hstep := hreplayed.finalStep (List.mem_append_right preceding (List.mem_singleton.mpr rfl))
    rw [accepts_iff hreplayed hfee, compatible_iff path hinferable hfee, finalLiquidity_concat]
    rcases Nat.eq_zero_or_pos (finalStep path last).liquidity with hzero | hpos
    · have hamount : (finalStep path last).amountIn = 0 := (validFinalStepFee_zero 0 hstep hzero hfee).1
      have htakes : ∀ rest, Takes path last zeroForOne fee rest ↔ rest = 0 := fun rest =>
        (validFinalStepFee_zero rest hstep hzero hfee).2
      have hfull : fullFee 0 fee = 0 := by simp [fullFee]
      simp only [htakes, hamount, hdry rfl hzero, hfull, partialFee_zero hfee, precedingFees_dry hamount]
      by_cases hfree : fee = 0
      · refine iff_of_true (exists_congr fun rest => and_congr_right fun _ => ?_) fun h => ?_
        · rw [if_pos hfree]
          omega
        · exact absurd hfree (Nat.ne_of_gt h.2.2.1)
      · rw [if_neg hfree]
        constructor
        · rintro hiff ⟨-, -, -, heq⟩
          obtain ⟨rest, heq', rfl⟩ := hiff.mp ⟨1, heq, Nat.zero_le _, le_rfl⟩
          omega
        · intro hnot
          have hbeyond : totalFee ≠ fullFees (preceding ++ [last]) fee + 1 := fun heq =>
            hnot ⟨trivial, hzero, Nat.pos_of_ne_zero hfree, heq⟩
          constructor
          · rintro ⟨rest, heq, -, hle⟩
            exact ⟨0, by omega, rfl⟩
          · rintro ⟨rest, heq, rfl⟩
            exact ⟨0, heq, le_rfl, Nat.zero_le _⟩
    · refine iff_of_true (exists_congr fun rest => and_congr_right fun _ => ?_) fun h => absurd h.2.1 (Nat.ne_of_gt hpos)
      rw [Takes, validFinalStepFee_iff hstep hpos (hwet rfl hpos) hfee]

theorem feeInterval_iff_allocation_upward : ∃ zeroForOne path segments budget fullStepFees,
    upwardReplay (2 ^ 100) = .ok (zeroForOne, path, segments) ∧ finalLiquidity path segments ≠ 0 ∧
      slipstreamFinalBudget path segments zeroForOne false = .ok budget ∧
      slipstreamStepFees segments 500 = .ok fullStepFees ∧
      (Compatible segments budget false (fullStepFees + 1) 500 ↔
        (allocateSlipstreamFees path segments (fullStepFees + 1) 500 zeroForOne false).isOk = true) := by
  have hok : (upwardReplay (2 ^ 100) >>= fun replayed =>
      (ensure (finalLiquidity replayed.2.1 replayed.2.2 ≠ 0) (contradiction "no liquidity"))).isOk = true := by
    decide +kernel
  obtain ⟨_, hok⟩ := isOk_iff.mp hok
  obtain ⟨⟨zeroForOne, path, segments⟩, hreplay, hliquidity⟩ := bind_eq_ok.mp hok
  have hliquidity : finalLiquidity path segments ≠ 0 := ensure_eq_ok.mp hliquidity
  obtain ⟨_, fullStepFees, -, hfees, -⟩ :=
    feeInterval_iff_allocation _ _ _ _ _ _ zeroForOne path segments hreplay false 500 (by decide) 0
  obtain ⟨budget, fullStepFees', hbudget, hfees', hiff⟩ :=
    feeInterval_iff_allocation _ _ _ _ _ _ zeroForOne path segments hreplay false 500 (by decide) (fullStepFees + 1)
  obtain rfl : fullStepFees = fullStepFees' := Except.ok.inj (hfees.symm.trans hfees')
  exact ⟨zeroForOne, path, segments, budget, fullStepFees, hreplay, hliquidity, hbudget, hfees,
    hiff.mpr fun h => hliquidity h.2.1⟩

/-- A replay with a dry step, and a total that its fee interval holds. -/
theorem dry_step_runs : (do
    let (zeroForOne, path, segments) ← upwardReplay 0
    let budget ← slipstreamFinalBudget path segments zeroForOne false
    let (minimum, maximum) ← slipstreamFeeInterval segments 1 budget false
    ensure ((minimum ≤ 1 ∧ 1 ≤ maximum) ∧
      ¬ (allocateSlipstreamFees path segments 1 1 zeroForOne false).isOk = true) (contradiction "no difference") :
    Result Unit).isOk = true := by
  decide +kernel

/-- A step without liquidity: a total of one lies in the interval of the fee one, and the allocation rejects it. -/
theorem dry_step_differs : ∃ zeroForOne path segments budget,
    upwardReplay 0 = .ok (zeroForOne, path, segments) ∧
      slipstreamFinalBudget path segments zeroForOne false = .ok budget ∧ Compatible segments budget false 1 1 ∧
      ¬ (allocateSlipstreamFees path segments 1 1 zeroForOne false).isOk = true := by
  obtain ⟨_, hok⟩ := isOk_iff.mp dry_step_runs
  obtain ⟨⟨zeroForOne, path, segments⟩, hreplay, hok⟩ := bind_eq_ok.mp hok
  obtain ⟨budget, hbudget, hok⟩ := bind_eq_ok.mp hok
  obtain ⟨⟨minimum, maximum⟩, hinterval, hok⟩ := bind_eq_ok.mp hok
  obtain ⟨hle, hrejects⟩ := ensure_eq_ok.mp hok
  exact ⟨zeroForOne, path, segments, budget, hreplay, hbudget, ⟨by decide, minimum, maximum, hinterval, hle⟩, hrejects⟩

end AmmState.V3
