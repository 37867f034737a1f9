import AmmState.Canonical.SwapMath
import AmmState.Theorems.V3.FeeInference

/-! The fee checks of the last step accept exactly what a step of the contract can charge. -/

namespace AmmState.Canonical
open V3 Checked

/-! ### Quotients -/

theorem divRoundingUp_eq {x y : Nat} (hy : 0 < y) : divRoundingUp x y = x ⌈/⌉ y := by
  refine eq_of_forall_ge_iff fun k => ?_
  rw [ceilDiv_le_iff_le_mul hy, divRoundingUp]
  have hmod := Nat.div_add_mod x y
  have hlt := Nat.mod_lt x hy
  split_ifs with hrest
  · rw [Nat.succ_le_iff, Nat.div_lt_iff_lt_mul hy, mul_comm]
    refine ⟨le_of_lt, fun hle => lt_of_le_of_ne hle fun heq => ?_⟩
    rw [heq, Nat.mul_mod_right] at hrest
    exact absurd hrest (lt_irrefl 0)
  · rw [add_zero, Nat.div_le_iff_le_mul_add_pred hy]
    constructor
    · intro hle
      have hzero : x % y = 0 := by omega
      rw [← hmod, hzero, add_zero]
      refine Nat.mul_le_mul_left y ?_
      refine Nat.le_of_lt_succ (Nat.lt_of_mul_lt_mul_left (a := y) ?_)
      rw [Nat.mul_succ]
      omega
    · omega

theorem mulDiv_eq_some {a b d r : Nat} : mulDiv a b d = some r ↔ 0 < d ∧ a * b / d = r ∧ r < 2 ^ 256 := by
  simp only [mulDiv, bind, Option.bind_eq_some_iff, Option.guard_eq_some', exists_const, pure, Option.some.injEq]
  constructor
  · rintro ⟨⟨hd, hlt⟩, rfl⟩
    exact ⟨hd, rfl, hlt⟩
  · rintro ⟨hd, rfl, hlt⟩
    exact ⟨⟨hd, hlt⟩, rfl⟩

theorem mulDivRoundingUp_eq_some {a b d r : Nat} :
    mulDivRoundingUp a b d = some r ↔ 0 < d ∧ a * b ⌈/⌉ d = r ∧ r < 2 ^ 256 := by
  have hceil : 0 < d → a * b ⌈/⌉ d = a * b / d + if 0 < a * b % d then 1 else 0 := fun hd => (divRoundingUp_eq hd).symm
  simp only [mulDivRoundingUp, bind, Option.bind_eq_some_iff, mulDiv_eq_some]
  constructor
  · rintro ⟨result, ⟨hd, rfl, hlt⟩, hr⟩
    refine ⟨hd, ?_⟩
    rw [hceil hd]
    split_ifs at hr ⊢ with hrest
    · simp only [Option.bind_eq_some_iff, Option.guard_eq_some', exists_const, pure, Option.some.injEq] at hr
      obtain ⟨hmax, rfl⟩ := hr
      exact ⟨rfl, by omega⟩
    · obtain rfl := Option.some.inj hr
      exact ⟨rfl, hlt⟩
  · rintro ⟨hd, hr, hlt⟩
    rw [hceil hd] at hr
    refine ⟨a * b / d, ⟨hd, rfl, by omega⟩, ?_⟩
    split_ifs at hr ⊢ with hrest
    · simp only [Option.bind_eq_some_iff, Option.guard_eq_some', exists_const, pure, Option.some.injEq]
      exact ⟨by omega, hr⟩
    · exact congrArg some hr

/-- The code's rounded quotient is the contract's. -/
theorem mulDivRoundUp_eq_ok {a b d r : Nat} : mulDivRoundUp a b d = .ok r ↔ mulDivRoundingUp a b d = some r := by
  rw [mulDivRoundingUp_eq_some, mulDivRoundUp, div512_eq_ok, if_pos rfl, eq_comm (a := r)]

theorem mulDiv_eq_ok {a b d r : Nat} : V3.mulDiv a b d = .ok r ↔ mulDiv a b d = some r := by
  rw [mulDiv_eq_some, V3.mulDiv, div512_eq_ok, if_neg (by simp), eq_comm (a := r)]

theorem ceilDiv_ceilDiv {x a b : Nat} (ha : 0 < a) (hb : 0 < b) : x ⌈/⌉ b ⌈/⌉ a = x ⌈/⌉ (b * a) := by
  refine eq_of_forall_ge_iff fun k => ?_
  rw [ceilDiv_le_iff_le_mul ha, ceilDiv_le_iff_le_mul hb, ceilDiv_le_iff_le_mul (Nat.mul_pos hb ha), mul_assoc]

/-! ### Amounts -/

section Amounts
variable {lower upper liquidity : Nat} (hpos : 0 < lower) (hle : lower ≤ upper) (hupper : upper < 2 ^ 160)
  (hliquidity : liquidity < 2 ^ 128)

/-- The output of a move between two prices, rounded down. -/
def stepOutput (zeroForOne : Bool) (sqrtStart sqrtEnd liquidity : Nat) : Nat :=
  if zeroForOne then liquidity * (sqrtStart - sqrtEnd) / Q96
  else liquidity * Q96 * (sqrtEnd - sqrtStart) / (sqrtEnd * sqrtStart)

include hliquidity in
theorem numerator_lt : liquidity * Q96 < 2 ^ 224 := by
  rw [show (2 : Nat) ^ 224 = 2 ^ 128 * Q96 by decide]
  exact Nat.mul_lt_mul_of_pos_right hliquidity (by decide)

include hpos hle hliquidity

theorem exactPast_lt : exactPast upper lower (liquidity * Q96) < 2 ^ 224 := by
  refine lt_of_le_of_lt ?_ (numerator_lt hliquidity)
  rw [exactPast, ceilDiv_le_iff_le_mul (Nat.mul_pos (hpos.trans_le hle) hpos), mul_comm]
  exact Nat.mul_le_mul_right _ ((Nat.sub_le _ _).trans (Nat.le_mul_of_pos_right _ hpos))

theorem amount0Delta_up : amount0Delta lower upper liquidity true = .ok (exactPast upper lower (liquidity * Q96)) := by
  have hlt := exactPast_lt hpos hle hliquidity
  rw [exactPast, mul_right_comm] at hlt ⊢
  exact div512_up (Nat.mul_pos (hpos.trans_le hle) hpos) (hlt.trans (by decide))

theorem amount0Delta_down : amount0Delta lower upper liquidity false =
    .ok (liquidity * Q96 * (upper - lower) / (upper * lower)) := by
  have hlt : liquidity * Q96 * (upper - lower) / (upper * lower) < 2 ^ 224 :=
    lt_of_le_of_lt (floorDiv_le_ceilDiv (a := upper * lower)) (exactPast_lt hpos hle hliquidity)
  rw [mul_right_comm] at hlt ⊢
  exact div512_down (Nat.mul_pos (hpos.trans_le hle) hpos) (hlt.trans (by decide))

theorem getAmount0Delta_up : getAmount0Delta lower upper liquidity true =
    some (exactPast upper lower (liquidity * Q96)) := by
  have hupper_pos : 0 < upper := hpos.trans_le hle
  have hmul : mulDivRoundingUp (liquidity * Q96) (upper - lower) upper =
      some (liquidity * Q96 * (upper - lower) ⌈/⌉ upper) := by
    refine mulDivRoundingUp_eq_some.mpr ⟨hupper_pos, rfl, ?_⟩
    refine ceilDiv_lt hupper_pos ?_ ((numerator_lt hliquidity).trans (by decide))
    rw [mul_comm]
    exact Nat.mul_le_mul_right _ (Nat.sub_le _ _)
  rw [getAmount0Delta, if_neg (not_lt.mpr hle)]
  simp only [hpos, guard_true, hmul, if_true, divRoundingUp_eq hpos]
  exact congrArg some (ceilDiv_ceilDiv hpos hupper_pos)

theorem getAmount0Delta_down : getAmount0Delta lower upper liquidity false =
    some (liquidity * Q96 * (upper - lower) / (upper * lower)) := by
  have hupper_pos : 0 < upper := hpos.trans_le hle
  have hmul : mulDiv (liquidity * Q96) (upper - lower) upper = some (liquidity * Q96 * (upper - lower) / upper) := by
    refine mulDiv_eq_some.mpr ⟨hupper_pos, rfl, lt_of_le_of_lt ?_ ((numerator_lt hliquidity).trans (by decide))⟩
    refine Nat.div_le_of_le_mul ?_
    rw [mul_comm]
    exact Nat.mul_le_mul_right _ (Nat.sub_le _ _)
  rw [getAmount0Delta, if_neg (not_lt.mpr hle)]
  simp only [hpos, guard_true, hmul, Bool.false_eq_true, if_false, ← Nat.div_div_eq_div_mul]
  rfl

omit hpos
include hupper

omit hle in
theorem gap_lt : liquidity * (upper - lower) < Q96 * 2 ^ 192 := by
  have hgap : upper - lower < 2 ^ 160 := (Nat.sub_le _ _).trans_lt hupper
  exact (Nat.mul_lt_mul_of_lt_of_lt hliquidity hgap).trans_eq (by decide)

omit hle in
theorem amount1Delta_up : amount1Delta lower upper liquidity true = .ok (liquidity * (upper - lower) ⌈/⌉ Q96) :=
  div512_up (by decide) (ceilDiv_lt (by decide) (gap_lt hupper hliquidity).le (by decide))

omit hle in
theorem amount1Delta_down : amount1Delta lower upper liquidity false = .ok (liquidity * (upper - lower) / Q96) :=
  div512_down (by decide) ((Nat.div_lt_iff_lt_mul (by decide)).mpr ((gap_lt hupper hliquidity).trans (by decide)))

theorem getAmount1Delta_up : getAmount1Delta lower upper liquidity true = some (liquidity * (upper - lower) ⌈/⌉ Q96) := by
  rw [getAmount1Delta, if_neg (not_lt.mpr hle)]
  refine mulDivRoundingUp_eq_some.mpr ⟨by decide, rfl, ?_⟩
  exact ceilDiv_lt (by decide) (gap_lt hupper hliquidity).le (by decide)

theorem getAmount1Delta_down : getAmount1Delta lower upper liquidity false = some (liquidity * (upper - lower) / Q96) := by
  rw [getAmount1Delta, if_neg (not_lt.mpr hle)]
  refine mulDiv_eq_some.mpr ⟨by decide, rfl, ?_⟩
  rw [Nat.div_lt_iff_lt_mul (by decide)]
  exact (gap_lt hupper hliquidity).trans (by decide)

end Amounts

section Moves
variable {zeroForOne : Bool} {sqrtStart sqrtEnd liquidity : Nat} (hstart : 0 < sqrtStart ∧ sqrtStart < 2 ^ 160)
  (hend : 0 < sqrtEnd ∧ sqrtEnd < 2 ^ 160) (hdirected : Directed zeroForOne sqrtStart sqrtEnd)
  (hliquidity : liquidity < 2 ^ 128)
include hend hdirected hliquidity

theorem stepInput_lt : stepInput zeroForOne sqrtStart sqrtEnd liquidity < 2 ^ 224 := by
  cases zeroForOne with
  | true =>
    rw [stepInput, if_pos rfl]
    exact exactPast_lt hend.1 hdirected hliquidity
  | false =>
    rw [stepInput, if_neg (by simp)]
    refine Nat.lt_of_le_of_lt (m := 2 ^ 192) ?_ (by decide)
    exact (ceilDiv_le_iff_le_mul (by decide)).mpr (gap_lt hend.2 hliquidity).le

theorem inputTo_eq : inputTo zeroForOne sqrtStart liquidity sqrtEnd =
    some (stepInput zeroForOne sqrtStart sqrtEnd liquidity) := by
  cases zeroForOne with
  | true =>
    rw [inputTo, if_pos rfl, stepInput, if_pos rfl]
    exact getAmount0Delta_up hend.1 hdirected hliquidity
  | false =>
    rw [inputTo, if_neg (by simp), stepInput, if_neg (by simp)]
    exact getAmount1Delta_up hdirected hend.2 hliquidity

include hstart
omit hend in
theorem outputTo_eq : outputTo zeroForOne sqrtStart liquidity sqrtEnd =
    some (stepOutput zeroForOne sqrtStart sqrtEnd liquidity) := by
  cases zeroForOne with
  | true =>
    rw [outputTo, if_pos rfl, stepOutput, if_pos rfl]
    exact getAmount1Delta_down hdirected hstart.2 hliquidity
  | false =>
    rw [outputTo, if_neg (by simp), stepOutput, if_neg (by simp)]
    exact getAmount0Delta_down hstart.1 hdirected hliquidity

theorem segmentAmounts_eq : segmentAmounts sqrtStart sqrtEnd liquidity zeroForOne =
    .ok (stepInput zeroForOne sqrtStart sqrtEnd liquidity, stepOutput zeroForOne sqrtStart sqrtEnd liquidity) := by
  have hlower : (if sqrtStart < sqrtEnd then sqrtStart else sqrtEnd) = min sqrtStart sqrtEnd := by
    split_ifs <;> omega
  have hupper : (if sqrtStart < sqrtEnd then sqrtEnd else sqrtStart) = max sqrtStart sqrtEnd := by
    split_ifs <;> omega
  rw [segmentAmounts, ensure_bind ⟨hstart.1.ne', hend.1.ne'⟩]
  simp only [hlower, hupper]
  cases zeroForOne with
  | true =>
    have hle : sqrtEnd ≤ sqrtStart := hdirected
    rw [if_pos rfl, min_eq_right hle, max_eq_left hle, amount0Delta_up hend.1 hle hliquidity, ok_bind,
      amount1Delta_down hstart.2 hliquidity, ok_bind, stepInput, if_pos rfl, stepOutput, if_pos rfl]
    rfl
  | false =>
    have hle : sqrtStart ≤ sqrtEnd := hdirected
    rw [if_neg (by simp), min_eq_left hle, max_eq_right hle, amount1Delta_up hend.2 hliquidity, ok_bind,
      amount0Delta_down hstart.1 hle hliquidity, ok_bind, stepInput, if_neg (by simp), stepOutput, if_neg (by simp)]
    rfl

end Moves

/-! ### Prices after an amount -/

section Prices
variable {sqrt liquidity amount price : Nat} (hsqrt : 0 < sqrt ∧ sqrt < 2 ^ 160)
  (hliquidity : 0 < liquidity ∧ liquidity < 2 ^ 128)

/-- A wrapped product divides back exactly where it did not wrap. -/
theorem wrapped_div_eq_iff (hamount : 0 < amount) :
    amount * sqrt % 2 ^ 256 / amount = sqrt ↔ amount * sqrt < 2 ^ 256 := by
  constructor
  · intro h
    have hle : sqrt * amount ≤ amount * sqrt % 2 ^ 256 := (Nat.le_div_iff_mul_le hamount).mp h.ge
    rw [mul_comm] at hle
    exact hle.trans_lt (Nat.mod_lt _ (Nat.two_pow_pos 256))
  · intro h
    rw [Nat.mod_eq_of_lt h, Nat.mul_div_cancel_left _ hamount]

theorem le_wrapped_add_iff {numerator product : Nat} (hnumerator : numerator < 2 ^ 256) (hproduct : product < 2 ^ 256) :
    numerator ≤ (numerator + product) % 2 ^ 256 ↔ numerator + product < 2 ^ 256 := by
  omega

include hsqrt hliquidity

theorem getNextSqrtPriceFromInput_down : getNextSqrtPriceFromInput sqrt liquidity amount true =
    if amount = 0 then some sqrt
    else if amount ≤ (2 ^ 256 - 1 - liquidity * Q96) / sqrt then
      some (liquidity * Q96 * sqrt ⌈/⌉ (liquidity * Q96 + amount * sqrt))
    else if liquidity * Q96 / sqrt + amount < 2 ^ 256 then some (liquidity * Q96 ⌈/⌉ (liquidity * Q96 / sqrt + amount))
    else none := by
  have hnumerator : 0 < liquidity * Q96 := Nat.mul_pos hliquidity.1 (by decide)
  have hlt := numerator_lt hliquidity.2
  rw [getNextSqrtPriceFromInput, getNextSqrtPriceFromAmount0RoundingUp]
  simp only [hsqrt.1, hliquidity.1, and_self, guard_true, if_true]
  generalize liquidity * Q96 = numerator at hnumerator hlt ⊢
  by_cases hzero : amount = 0
  · rw [if_pos hzero, if_pos hzero]
    rfl
  have hamount : 0 < amount := Nat.pos_of_ne_zero hzero
  rw [if_neg hzero, if_neg hzero]
  have hfull : amount * sqrt < 2 ^ 256 ∧ numerator + amount * sqrt < 2 ^ 256 ↔ amount ≤ (2 ^ 256 - 1 - numerator) / sqrt :=
    full_iff hsqrt.1 (by omega)
  have hbranch : (amount * sqrt % 2 ^ 256 / amount = sqrt ∧ numerator ≤ (numerator + amount * sqrt % 2 ^ 256) % 2 ^ 256) ↔
      amount ≤ (2 ^ 256 - 1 - numerator) / sqrt := by
    rw [← hfull, wrapped_div_eq_iff hamount]
    refine and_congr_right fun hproduct => ?_
    rw [Nat.mod_eq_of_lt hproduct, le_wrapped_add_iff (by omega) hproduct]
  by_cases hle : amount ≤ (2 ^ 256 - 1 - numerator) / sqrt
  · obtain ⟨hproduct, hsum⟩ := hfull.mpr hle
    have hdenominator : 0 < numerator + amount * sqrt := by omega
    have hnext : numerator * sqrt ⌈/⌉ (numerator + amount * sqrt) ≤ sqrt := by
      rw [ceilDiv_le_iff_le_mul hdenominator]
      exact Nat.mul_le_mul_right sqrt (Nat.le_add_right _ _)
    have hmul : mulDivRoundingUp numerator sqrt (numerator + amount * sqrt) =
        some (numerator * sqrt ⌈/⌉ (numerator + amount * sqrt)) :=
      mulDivRoundingUp_eq_some.mpr ⟨hdenominator, rfl, by omega⟩
    rw [if_pos (hbranch.mpr hle), if_pos hle, Nat.mod_eq_of_lt hproduct, Nat.mod_eq_of_lt hsum, hmul]
    exact congrArg some (Nat.mod_eq_of_lt (by omega))
  · rw [if_neg (mt hbranch.mp hle), if_neg hle]
    by_cases hadd : numerator / sqrt + amount < 2 ^ 256
    · have hdenominator : 0 < numerator / sqrt + amount := Nat.add_pos_right _ hamount
      have hnext : numerator ⌈/⌉ (numerator / sqrt + amount) ≤ sqrt := by
        rw [ceilDiv_le_iff_le_mul hdenominator]
        calc numerator ≤ sqrt * (numerator / sqrt + 1) := (Nat.lt_mul_div_succ numerator hsqrt.1).le
          _ ≤ sqrt * (numerator / sqrt + amount) := Nat.mul_le_mul_left sqrt (Nat.add_le_add_left hamount _)
          _ = (numerator / sqrt + amount) * sqrt := Nat.mul_comm _ _
      simp only [hadd, guard_true, if_true, divRoundingUp_eq hdenominator]
      exact congrArg some (Nat.mod_eq_of_lt (by omega))
    · rw [if_neg hadd]
      simp only [hadd, guard_false]
      rfl

omit hsqrt in
/-- Quotients by liquidity: the contract shifts small amounts instead of multiplying in full. -/
theorem quotient_down : (if amount < 2 ^ 160 then some (amount * Q96 / liquidity) else mulDiv amount Q96 liquidity) =
    mulDiv amount Q96 liquidity := by
  split_ifs with hsmall
  · refine (mulDiv_eq_some.mpr ⟨hliquidity.1, rfl, ?_⟩).symm
    refine (Nat.div_le_self _ _).trans_lt ?_
    exact (Nat.mul_lt_mul_of_pos_right hsmall (by decide)).trans_eq (by decide)
  · rfl

omit hsqrt in
theorem quotient_up : (if amount < 2 ^ 160 then some (divRoundingUp (amount * Q96) liquidity)
    else mulDivRoundingUp amount Q96 liquidity) = mulDivRoundingUp amount Q96 liquidity := by
  split_ifs with hsmall
  · rw [divRoundingUp_eq hliquidity.1]
    refine (mulDivRoundingUp_eq_some.mpr ⟨hliquidity.1, rfl, ?_⟩).symm
    refine (ceilDiv_le_self hliquidity.1).trans_lt ?_
    exact (Nat.mul_lt_mul_of_pos_right hsmall (by decide)).trans_eq (by decide)
  · rfl

/-- The code's price after an output is the contract's. -/
theorem nextSqrtFromOutput_eq_ok (zeroForOne : Bool) :
    nextSqrtFromOutput sqrt liquidity amount zeroForOne = .ok price ↔
      getNextSqrtPriceFromOutput sqrt liquidity amount zeroForOne = some price := by
  have hmask : SLOT0_SQRT_MASK = 2 ^ 160 - 1 := rfl
  rw [nextSqrtFromOutput, getNextSqrtPriceFromOutput, ensure_bind ⟨hsqrt.1.ne', hliquidity.1.ne'⟩]
  simp only [hsqrt.1, hliquidity.1, and_self, guard_true]
  cases zeroForOne with
  | true =>
    rw [if_pos rfl, if_pos rfl, getNextSqrtPriceFromAmount1RoundingDown, if_neg (by simp),
      quotient_up hliquidity]
    simp only [bind_eq_ok, mulDivRoundUp_eq_ok, ensure_eq_ok, exists_const, true_and, pure_eq_ok, Option.bind_eq_bind,
      Option.bind_eq_some_iff,
      Option.guard_eq_some', Option.pure_def, Option.some.injEq]
    refine exists_congr fun quotient => and_congr_right fun _ => and_congr_right fun hlt => ?_
    rw [Nat.mod_eq_of_lt (by omega), hmask]
    exact ⟨fun h => h.2, fun h => ⟨by omega, h⟩⟩
  | false =>
    simp only [Bool.false_eq_true, if_false, getNextSqrtPriceFromAmount0RoundingUp]
    by_cases hzero : amount = 0
    · rw [if_pos hzero, if_pos hzero, pure_eq_ok]
      exact Option.some_inj.symm
    · have hamount : 0 < amount := Nat.pos_of_ne_zero hzero
      rw [if_neg hzero, if_neg hzero]
      simp only [bind_eq_ok, mulDivRoundUp_eq_ok, ensure_eq_ok, exists_const, true_and, pure_eq_ok, Option.bind_eq_bind,
        Option.bind_eq_some_iff,
        Option.guard_eq_some', Option.pure_def, toUint160, Option.some.injEq, wrapped_div_eq_iff hamount]
      constructor
      · rintro ⟨⟨hproduct, hlt⟩, next, hnext, hle, rfl⟩
        rw [Nat.mod_eq_of_lt hproduct]
        exact ⟨⟨hproduct, hlt⟩, next, hnext, by omega, rfl⟩
      · rintro ⟨⟨hproduct, hlt⟩, next, hnext, hle, rfl⟩
        rw [Nat.mod_eq_of_lt hproduct] at hlt hnext
        exact ⟨⟨hproduct, hlt⟩, next, hnext, by omega, rfl⟩

/-- The code's price after an input is the contract's. -/
theorem nextSqrtFromInput_eq_ok (hbounds : InBounds sqrt) (zeroForOne : Bool) :
    nextSqrtFromInput sqrt liquidity amount zeroForOne = .ok price ↔
      getNextSqrtPriceFromInput sqrt liquidity amount zeroForOne = some price := by
  cases zeroForOne with
  | true =>
    rw [nextSqrtFromInput_down_eq hbounds hliquidity.1 hliquidity.2, getNextSqrtPriceFromInput_down hsqrt hliquidity]
    split_ifs
    · rw [Except.ok.injEq, Option.some.injEq]
    · rw [Except.ok.injEq, Option.some.injEq]
    · rw [Except.ok.injEq, Option.some.injEq]
    · exact ⟨nofun, nofun⟩
  | false =>
    have hmask : SLOT0_SQRT_MASK = 2 ^ 160 - 1 := rfl
    rw [nextSqrtFromInput, getNextSqrtPriceFromInput, ensure_bind ⟨hsqrt.1.ne', hliquidity.1.ne'⟩]
    simp only [hsqrt.1, hliquidity.1, and_self, guard_true]
    simp only [Bool.false_eq_true, if_false, getNextSqrtPriceFromAmount1RoundingDown, if_true,
      quotient_down hliquidity]
    simp only [bind_eq_ok, mulDiv_eq_ok, checkedAdd, ensure_eq_ok, exists_const, true_and, pure_eq_ok, Option.bind_eq_bind,
      Option.bind_eq_some_iff,
      Option.guard_eq_some', Option.pure_def, toUint160, Option.some.injEq]
    refine exists_congr fun quotient => and_congr_right fun _ => ?_
    constructor
    · rintro ⟨sum, ⟨hlt, rfl⟩, ⟨hpos, hle⟩, rfl⟩
      exact ⟨hlt, by omega, rfl⟩
    · rintro ⟨hlt, hle, rfl⟩
      exact ⟨_, ⟨hlt, rfl⟩, ⟨by omega, by omega⟩, rfl⟩

end Prices

/-! ### Fees -/

section Fees
variable {amountIn fee remaining : Nat} (hfee : fee < FEE_DENOMINATOR)
include hfee

/-- The discounted input covers a move exactly where it covers the move and its full fee. -/
theorem le_lessFee_iff : amountIn ≤ remaining * (FEE_DENOMINATOR - fee) / FEE_DENOMINATOR ↔
    amountIn + fullFee amountIn fee ≤ remaining := by
  have hpos : 0 < FEE_DENOMINATOR - fee := by omega
  have hsplit : amountIn * FEE_DENOMINATOR = amountIn * fee + amountIn * (FEE_DENOMINATOR - fee) := by
    rw [← Nat.mul_add, Nat.add_sub_cancel' hfee.le]
  rw [Nat.le_div_iff_mul_le (by decide), hsplit]
  by_cases hle : amountIn ≤ remaining
  · obtain ⟨rest, rfl⟩ := Nat.exists_eq_add_of_le hle
    rw [Nat.add_le_add_iff_left, fullFee, ceilDiv_le_iff_le_mul hpos, Nat.add_mul, mul_comm (FEE_DENOMINATOR - fee) rest]
    omega
  · have hlt : remaining * (FEE_DENOMINATOR - fee) < amountIn * (FEE_DENOMINATOR - fee) :=
      Nat.mul_lt_mul_of_pos_right (not_le.mp hle) hpos
    omega

omit hfee in
theorem lessFee_le : remaining * (FEE_DENOMINATOR - fee) / FEE_DENOMINATOR ≤ remaining := by
  refine Nat.div_le_of_le_mul ?_
  rw [mul_comm]
  exact Nat.mul_le_mul_right _ (Nat.sub_le _ _)

/-- An input whose discounted part is bounded is bounded. -/
theorem remaining_lt (h : remaining * (FEE_DENOMINATOR - fee) / FEE_DENOMINATOR < 2 ^ 224) : remaining < 2 ^ 255 := by
  rw [Nat.div_lt_iff_lt_mul (by decide)] at h
  have hle : remaining ≤ remaining * (FEE_DENOMINATOR - fee) := Nat.le_mul_of_pos_right _ (by omega)
  exact (hle.trans_lt h).trans (by decide)

theorem fullFee_lt (hamount : amountIn < 2 ^ 224) : fullFee amountIn fee < 2 ^ 244 := by
  refine (ceilDiv_le_self (by omega)).trans_lt ?_
  have hlt : fee < 2 ^ 20 := hfee.trans (by decide)
  exact (Nat.mul_lt_mul_of_lt_of_lt hamount hlt).trans_eq (by decide)

theorem feeForFullStep_ok (hamount : amountIn < 2 ^ 224) : feeForFullStep amountIn fee = .ok (fullFee amountIn fee) :=
  div512_up (by omega) ((fullFee_lt hfee hamount).trans (by decide))

theorem fullFee_some (hamount : amountIn < 2 ^ 224) :
    mulDivRoundingUp amountIn fee (FEE_DENOMINATOR - fee) = some (fullFee amountIn fee) :=
  mulDivRoundUp_eq_ok.mp (feeForFullStep_ok hfee hamount)

/-- The fees that the last step takes. -/
theorem validFinalStepFee_eq_true {sqrtStart sqrtEnd liquidity feeAmount : Nat} {zeroForOne : Bool}
    (hamount : amountIn < 2 ^ 224) :
    validFinalStepFee sqrtStart sqrtEnd liquidity amountIn feeAmount fee zeroForOne = .ok true ↔
      feeAmount = fullFee amountIn fee ∨ fullFee amountIn fee < feeAmount ∧ amountIn + feeAmount < 2 ^ 256 ∧
        nextSqrtFromInput sqrtStart liquidity ((amountIn + feeAmount) * (FEE_DENOMINATOR - fee) / FEE_DENOMINATOR)
          zeroForOne = .ok sqrtEnd := by
  rw [validFinalStepFee, feeForFullStep_ok hfee hamount, ok_bind]
  rcases lt_trichotomy feeAmount (fullFee amountIn fee) with hlt | rfl | hgt
  · rw [if_pos hlt]
    exact ⟨nofun, fun h => by omega⟩
  · rw [if_neg (lt_irrefl _), if_pos rfl]
    exact ⟨fun _ => .inl rfl, fun _ => rfl⟩
  · rw [if_neg (not_lt.mpr hgt.le), if_neg hgt.ne']
    simp only [bind_eq_ok, checkedAdd, ensure_eq_ok, exists_const, pure_eq_ok, mulDiv_eq_ok, mulDiv_eq_some,
      decide_eq_true_eq]
    constructor
    · rintro ⟨gross, ⟨hgross, rfl⟩, budget, ⟨-, rfl, -⟩, price, hprice, rfl⟩
      exact .inr ⟨hgt, hgross, hprice⟩
    · rintro (heq | ⟨-, hgross, hprice⟩)
      · omega
      · exact ⟨_, ⟨hgross, rfl⟩, _, ⟨by decide, rfl, lessFee_le.trans_lt hgross⟩, _, hprice, rfl⟩

end Fees

/-- A step ends at the full output, or at less that its price still comes from. -/
theorem outputIsCapped_eq_ok {sqrtStart sqrtEnd liquidity finalOutput preceding amountOut : Nat}
    {zeroForOne capped : Bool} :
    outputIsCapped sqrtStart sqrtEnd liquidity finalOutput (preceding + finalOutput) (preceding + amountOut) zeroForOne =
        .ok capped ↔
      capped = false ∧ amountOut = finalOutput ∨
        capped = true ∧ 0 < amountOut ∧ amountOut < finalOutput ∧
          nextSqrtFromOutput sqrtStart liquidity amountOut zeroForOne = .ok sqrtEnd := by
  rw [outputIsCapped]
  by_cases heq : amountOut = finalOutput
  · rw [if_pos (congrArg _ heq), pure_eq_ok]
    exact ⟨fun h => .inl ⟨h.symm, heq⟩, fun h => h.elim (fun h => h.1.symm) fun h => by omega⟩
  · rw [if_neg fun h => heq (Nat.add_left_cancel h), checkedSub, ensure_bind (Nat.le_add_left _ _)]
    simp only [Nat.add_sub_cancel, heq, and_false, false_or]
    have hback : preceding + amountOut - preceding = amountOut := Nat.add_sub_cancel_left _ _
    show (ite _ _ _ = _) ↔ _
    by_cases hrange : preceding < preceding + amountOut ∧ preceding + amountOut - preceding < finalOutput
    · rw [if_pos hrange, hback]
      simp only [bind_eq_ok, ensure_eq_ok, exists_const, pure_eq_ok]
      constructor
      · rintro ⟨next, hnext, rfl, rfl⟩
        exact ⟨rfl, by omega, by omega, hnext⟩
      · rintro ⟨rfl, -, -, hnext⟩
        exact ⟨_, hnext, rfl, rfl⟩
    · rw [if_neg hrange]
      refine ⟨fun h => (by cases h), fun h => ?_⟩
      obtain ⟨-, hpos, hlt, -⟩ := h
      exact absurd ⟨by omega, by omega⟩ hrange

/-! ### The contract's step -/

section Step
variable {zeroForOne : Bool} {sqrtStart sqrtEnd target liquidity amountIn amountOut feeAmount fee : Nat} {remaining : Int}
  (hstart : InBounds sqrtStart) (hend : InBounds sqrtEnd) (htarget : 0 < target ∧ target < 2 ^ 160)
  (hdirected : Directed zeroForOne sqrtStart sqrtEnd) (hside : decide (target ≤ sqrtStart) = zeroForOne)
  (hliquidity : liquidity < 2 ^ 128) (hfee : fee < FEE_DENOMINATOR)

theorem price_of_inBounds {price : Nat} (h : InBounds price) : 0 < price ∧ price < 2 ^ 160 :=
  ⟨h.pos, h.2.trans_lt (by decide)⟩

theorem directed_of_side (hside : decide (target ≤ sqrtStart) = zeroForOne) : Directed zeroForOne sqrtStart target := by
  subst hside
  unfold V3.Directed
  split_ifs with h
  · exact of_decide_eq_true h
  · exact (not_le.mp (of_decide_eq_false (by simpa using h))).le

include hstart hend htarget hdirected hside hliquidity hfee

/-- What an exact input comes to at a price: the target, or what the discounted input reaches. -/
theorem computeSwapStep_input (hremaining : 0 ≤ remaining ∧ remaining < 2 ^ 255) :
    computeSwapStep sqrtStart target liquidity remaining fee = some ⟨sqrtEnd, amountIn, amountOut, feeAmount⟩ ↔
      (amountIn = stepInput zeroForOne sqrtStart sqrtEnd liquidity ∧
        amountOut = stepOutput zeroForOne sqrtStart sqrtEnd liquidity) ∧
      (stepInput zeroForOne sqrtStart target liquidity ≤
          remaining.toNat * (FEE_DENOMINATOR - fee) / FEE_DENOMINATOR ∧
        sqrtEnd = target ∧ feeAmount = fullFee amountIn fee ∨
      remaining.toNat * (FEE_DENOMINATOR - fee) / FEE_DENOMINATOR < stepInput zeroForOne sqrtStart target liquidity ∧
        nextSqrtFromInput sqrtStart liquidity (remaining.toNat * (FEE_DENOMINATOR - fee) / FEE_DENOMINATOR) zeroForOne =
          .ok sqrtEnd ∧
        feeAmount = if sqrtEnd = target then fullFee amountIn fee
          else (2 ^ 256 + remaining.toNat - amountIn) % 2 ^ 256) := by
  have htarget_dir := directed_of_side hside
  have hless : mulDiv remaining.toNat (1000000 - fee) 1000000 =
      some (remaining.toNat * (FEE_DENOMINATOR - fee) / FEE_DENOMINATOR) :=
    mulDiv_eq_some.mpr ⟨by decide, rfl, lessFee_le.trans_lt (by omega)⟩
  rw [computeSwapStep, if_pos hremaining.1]
  simp only [hside, hless, inputTo_eq htarget htarget_dir hliquidity, Option.bind_eq_bind, Option.bind_some,
    Option.pure_def]
  have hend_pos := price_of_inBounds hend
  have hstart_pos := price_of_inBounds hstart
  have hin := inputTo_eq hend_pos hdirected hliquidity
  have hout := outputTo_eq hstart_pos hdirected hliquidity
  have hin_lt := stepInput_lt hend_pos hdirected hliquidity
  generalize remaining.toNat * (FEE_DENOMINATOR - fee) / FEE_DENOMINATOR = lessFee
  by_cases hle : stepInput zeroForOne sqrtStart target liquidity ≤ lessFee
  · have hfull := fullFee_some hfee (stepInput_lt htarget htarget_dir hliquidity)
    simp only [Option.bind_some, if_true, outputTo_eq hstart_pos htarget_dir hliquidity, ne_eq,
      not_true_eq_false, if_false, hle, true_and, not_lt.mpr hle, false_and, or_false]
    rw [show (1000000 : Nat) = FEE_DENOMINATOR from rfl, hfull]
    simp only [Option.bind_some, Option.some.injEq, SwapStep.mk.injEq]
    constructor
    · rintro ⟨rfl, rfl, rfl, rfl⟩
      exact ⟨⟨rfl, rfl⟩, rfl, rfl⟩
    · rintro ⟨⟨rfl, rfl⟩, rfl, rfl⟩
      exact ⟨rfl, rfl, rfl, rfl⟩
  · have hpos : 0 < liquidity := Nat.pos_of_ne_zero fun hzero => hle (by simp [hzero, stepInput, exactPast])
    have hfull := fullFee_some hfee hin_lt
    simp only [hle, false_and, false_or, not_le.mp hle, true_and,
      nextSqrtFromInput_eq_ok hstart_pos ⟨hpos, hliquidity⟩ hstart]
    rw [Option.bind_eq_some_iff]
    constructor
    · rintro ⟨next, hnext, h⟩
      obtain ⟨amountIn', hamountIn, h⟩ := Option.bind_eq_some_iff.mp h
      obtain ⟨amountOut', hamountOut, h⟩ := Option.bind_eq_some_iff.mp h
      obtain ⟨feeAmount', hfeeAmount, h⟩ := Option.bind_eq_some_iff.mp h
      obtain ⟨rfl, rfl, rfl, rfl⟩ := SwapStep.mk.inj (Option.some.inj h)
      obtain rfl := Option.some.inj (hout.symm.trans hamountOut)
      by_cases hstop : next = target
      · subst hstop
        rw [if_pos rfl] at hamountIn
        obtain rfl := Option.some.inj hamountIn
        rw [if_neg (by simp)] at hfeeAmount
        obtain rfl := Option.some.inj (hfull.symm.trans hfeeAmount)
        exact ⟨⟨rfl, rfl⟩, hnext, by rw [if_pos rfl]⟩
      · rw [if_neg hstop, hin] at hamountIn
        obtain rfl := Option.some.inj hamountIn
        rw [if_pos hstop] at hfeeAmount
        exact ⟨⟨rfl, rfl⟩, hnext, by rw [if_neg hstop]; exact (Option.some.inj hfeeAmount).symm⟩
    · rintro ⟨⟨rfl, rfl⟩, hnext, rfl⟩
      refine ⟨sqrtEnd, hnext, ?_⟩
      have hmove : (if sqrtEnd = target then some (stepInput zeroForOne sqrtStart target liquidity)
          else inputTo zeroForOne sqrtStart liquidity sqrtEnd) =
            some (stepInput zeroForOne sqrtStart sqrtEnd liquidity) := by
        split_ifs with hstop
        · rw [hstop]
        · exact hin
      rw [hmove, Option.bind_some, hout, Option.bind_some]
      by_cases hstop : sqrtEnd = target
      · rw [if_neg (by simp [hstop]), if_pos hstop, show (1000000 : Nat) = FEE_DENOMINATOR from rfl,
          hfull, Option.bind_some]
      · rw [if_pos hstop, if_neg hstop, Option.bind_some]

omit htarget in
/-- What an exact output comes to at a price: the target, or what the output request reaches. -/
theorem computeSwapStep_output (hremaining : remaining < 0) :
    computeSwapStep sqrtStart target liquidity remaining fee = some ⟨sqrtEnd, amountIn, amountOut, feeAmount⟩ ↔
      (amountIn = stepInput zeroForOne sqrtStart sqrtEnd liquidity ∧
        amountOut = min (stepOutput zeroForOne sqrtStart sqrtEnd liquidity) (-remaining).toNat ∧
        feeAmount = fullFee amountIn fee) ∧
      (stepOutput zeroForOne sqrtStart target liquidity ≤ (-remaining).toNat ∧ sqrtEnd = target ∨
        (-remaining).toNat < stepOutput zeroForOne sqrtStart target liquidity ∧
          nextSqrtFromOutput sqrtStart liquidity (-remaining).toNat zeroForOne = .ok sqrtEnd) := by
  have htarget_dir := directed_of_side hside
  have hend_pos := price_of_inBounds hend
  have hstart_pos := price_of_inBounds hstart
  have hin := inputTo_eq hend_pos hdirected hliquidity
  have hout := outputTo_eq hstart_pos hdirected hliquidity
  have hfull := fullFee_some hfee (stepInput_lt hend_pos hdirected hliquidity)
  -- what follows the price is the same on both branches
  have htail : ∀ next, next = sqrtEnd →
      (((inputTo zeroForOne sqrtStart liquidity next).bind fun amountIn' =>
        (if next = target then some (stepOutput zeroForOne sqrtStart target liquidity)
          else outputTo zeroForOne sqrtStart liquidity next).bind fun amountOut' =>
        (mulDivRoundingUp amountIn' fee (1000000 - fee)).bind fun fee' =>
        some (⟨next, amountIn', min amountOut' (-remaining).toNat, fee'⟩ : SwapStep)) =
          some ⟨sqrtEnd, amountIn, amountOut, feeAmount⟩ ↔
        amountIn = stepInput zeroForOne sqrtStart sqrtEnd liquidity ∧
          amountOut = min (stepOutput zeroForOne sqrtStart sqrtEnd liquidity) (-remaining).toNat ∧
          feeAmount = fullFee amountIn fee) := by
    rintro next rfl
    have hmove : (if next = target then some (stepOutput zeroForOne sqrtStart target liquidity)
        else outputTo zeroForOne sqrtStart liquidity next) = some (stepOutput zeroForOne sqrtStart next liquidity) := by
      split_ifs with hstop
      · rw [hstop]
      · exact hout
    rw [hin, Option.bind_some, hmove, Option.bind_some, show (1000000 : Nat) = FEE_DENOMINATOR from rfl, hfull,
      Option.bind_some, Option.some.injEq, SwapStep.mk.injEq]
    constructor
    · rintro ⟨-, rfl, rfl, rfl⟩
      exact ⟨rfl, rfl, rfl⟩
    · rintro ⟨rfl, rfl, rfl⟩
      exact ⟨rfl, rfl, rfl, rfl⟩
  have hnext_eq : ∀ {next step}, (((inputTo zeroForOne sqrtStart liquidity next).bind fun amountIn' =>
        (if next = target then some (stepOutput zeroForOne sqrtStart target liquidity)
          else outputTo zeroForOne sqrtStart liquidity next).bind fun amountOut' =>
        (mulDivRoundingUp amountIn' fee (1000000 - fee)).bind fun fee' =>
        some (⟨next, amountIn', min amountOut' (-remaining).toNat, fee'⟩ : SwapStep)) = some step) →
      next = step.sqrtRatioNext := by
    intro next step h
    obtain ⟨_, -, h⟩ := Option.bind_eq_some_iff.mp h
    obtain ⟨_, -, h⟩ := Option.bind_eq_some_iff.mp h
    obtain ⟨_, -, h⟩ := Option.bind_eq_some_iff.mp h
    rw [← Option.some.inj h]
  rw [computeSwapStep, if_neg (not_le.mpr hremaining)]
  simp only [hside, outputTo_eq hstart_pos htarget_dir hliquidity, Option.bind_eq_bind, Option.bind_some, Option.pure_def]
  by_cases hle : stepOutput zeroForOne sqrtStart target liquidity ≤ (-remaining).toNat
  · rw [if_pos hle, Option.bind_some]
    constructor
    · intro h
      have hstop : sqrtEnd = target := (hnext_eq h).symm
      exact ⟨(htail target hstop.symm).mp h, .inl ⟨hle, hstop⟩⟩
    · rintro ⟨hrest, ⟨-, hstop⟩ | ⟨hlt, -⟩⟩
      · exact (htail target hstop.symm).mpr hrest
      · exact absurd hle (not_le.mpr hlt)
  · have hpos : 0 < liquidity := Nat.pos_of_ne_zero fun hzero => hle (by simp [hzero, stepOutput])
    rw [if_neg hle, nextSqrtFromOutput_eq_ok hstart_pos ⟨hpos, hliquidity⟩, Option.bind_eq_some_iff]
    constructor
    · rintro ⟨next, hnext, h⟩
      have hstop : next = sqrtEnd := hnext_eq h
      exact ⟨(htail next hstop).mp h, .inr ⟨not_le.mp hle, hstop ▸ hnext⟩⟩
    · rintro ⟨hrest, ⟨hle', -⟩ | ⟨-, hnext⟩⟩
      · exact absurd hle' hle
      · exact ⟨sqrtEnd, hnext, (htail sqrtEnd rfl).mpr hrest⟩

end Step

/-! ### Between the end and a target -/

section Reach
variable {zeroForOne : Bool} {sqrtStart sqrtEnd liquidity amount : Nat} (hstart : InBounds sqrtStart)
  (hend : InBounds sqrtEnd) (hdirected : Directed zeroForOne sqrtStart sqrtEnd) (hliquidity : liquidity < 2 ^ 128)

theorem liquidity_pos_of_next (hnext : nextSqrtFromInput sqrtStart liquidity amount zeroForOne = .ok sqrtEnd) :
    0 < liquidity := by
  obtain ⟨_, hpositive, -⟩ := bind_eq_ok.mp hnext
  exact Nat.pos_of_ne_zero (ensure_eq_ok.mp hpositive).2

/-- Down to the price of one, both formulas agree. -/
theorem exactPast_one {start : Nat} (numerator : Nat) (hpos : 0 < start) :
    exactPast start 1 numerator = fallbackPast start 1 numerator := by
  refine eq_of_forall_ge_iff fun k => ?_
  rw [exactPast_le Nat.one_pos hpos, fallbackPast_le Nat.one_pos, Nat.mul_one, Nat.mul_one]
  have hfloor := Nat.div_mul_le_self numerator start
  constructor
  · intro h
    refine Nat.le_of_lt_succ (Nat.lt_of_mul_lt_mul_right (a := start) ?_)
    have hmod := Nat.lt_div_mul_add (a := numerator) hpos
    calc numerator * start ≤ numerator + k * start := h
      _ < numerator / start * start + start + k * start := by omega
      _ = (numerator / start + k + 1) * start := by ring
  · intro h
    calc numerator * start ≤ (numerator / start + k) * start := Nat.mul_le_mul_right start h
      _ = numerator / start * start + k * start := Nat.add_mul _ _ _
      _ ≤ numerator + k * start := Nat.add_le_add_right hfloor _

include hstart hend hdirected hliquidity

/-- An input that reaches a price pays for the move. -/
theorem stepInput_le_of_next (hnext : nextSqrtFromInput sqrtStart liquidity amount zeroForOne = .ok sqrtEnd) :
    stepInput zeroForOne sqrtStart sqrtEnd liquidity ≤ amount := by
  have hpos := liquidity_pos_of_next hnext
  cases zeroForOne with
  | true =>
    have hle : sqrtEnd ≤ sqrtStart := hdirected
    have hfirst := (nextSqrtFromInput_down hstart hpos hliquidity hnext hend.pos hle).mp le_rfl
    have hexact := exactPast_le_fallbackPast (liquidity * Q96) hend.pos hle
    rw [stepInput, if_pos rfl]
    unfold firstPast at hfirst
    split_ifs at hfirst
    · exact hfirst
    · exact hexact.trans hfirst
  | false =>
    rw [stepInput, if_neg (by simp), upPast_le _ _ hpos, nextSqrtFromInput_up hnext, Nat.add_sub_cancel_left]

/-- An input that reaches a price falls short of some price beyond it. -/
theorem exists_target (hnext : nextSqrtFromInput sqrtStart liquidity amount zeroForOne = .ok sqrtEnd) :
    ∃ target, (0 < target ∧ target < 2 ^ 160) ∧ decide (target ≤ sqrtStart) = zeroForOne ∧ sqrtEnd ≠ target ∧
      amount < stepInput zeroForOne sqrtStart target liquidity := by
  have hpos := liquidity_pos_of_next hnext
  have hmin : 1 < MIN_SQRT_RATIO := by decide
  cases zeroForOne with
  | true =>
    have hfirst := mt (nextSqrtFromInput_down hstart hpos hliquidity hnext Nat.one_pos hstart.pos).mpr
      (not_le.mpr (hmin.trans_le hend.1))
    refine ⟨1, ⟨Nat.one_pos, by decide⟩, decide_eq_true hstart.pos, (hmin.trans_le hend.1).ne', ?_⟩
    rw [stepInput, if_pos rfl]
    have hexact := exactPast_one (liquidity * Q96) hstart.pos
    unfold firstPast at hfirst
    split_ifs at hfirst
    · exact not_le.mp hfirst
    · exact hexact ▸ not_le.mp hfirst
  | false =>
    have hle : sqrtStart ≤ sqrtEnd := hdirected
    have hmax : sqrtEnd ≤ MAX_SQRT_RATIO := hend.2
    have hlt : MAX_SQRT_RATIO + 1 < 2 ^ 160 := by decide
    refine ⟨sqrtEnd + 1, ⟨Nat.succ_pos _, by omega⟩, decide_eq_false (by omega), by omega, ?_⟩
    rw [stepInput, if_neg (by simp), ← not_le, upPast_le _ _ hpos]
    have hprice := nextSqrtFromInput_up hnext
    omega

end Reach

/-! ### The last step -/

/-- The checks of the last step, beyond an output that precedes it: its amounts, an output that is full or capped, and a fee
    that the output allows. -/
def AcceptsFinalStep (sqrtStart sqrtEnd liquidity fee : Nat) (zeroForOne : Bool)
    (preceding amountIn amountOut feeAmount : Nat) : Prop :=
  ∃ finalOutput capped, segmentAmounts sqrtStart sqrtEnd liquidity zeroForOne = .ok (amountIn, finalOutput) ∧
    outputIsCapped sqrtStart sqrtEnd liquidity finalOutput (preceding + finalOutput) (preceding + amountOut) zeroForOne =
      .ok capped ∧
    (capped = true → feeForFullStep amountIn fee = .ok feeAmount) ∧
    validFinalStepFee sqrtStart sqrtEnd liquidity amountIn feeAmount fee zeroForOne = .ok true

section Last
variable {zeroForOne : Bool} {sqrtStart sqrtEnd liquidity fee preceding amountIn amountOut feeAmount : Nat}
  (hstart : InBounds sqrtStart) (hend : InBounds sqrtEnd) (hdirected : Directed zeroForOne sqrtStart sqrtEnd)
  (hliquidity : liquidity < 2 ^ 128) (hfee : fee < FEE_DENOMINATOR)
include hstart hend hdirected hliquidity hfee

omit hend hfee in
theorem stepOutput_lt : stepOutput zeroForOne sqrtStart sqrtEnd liquidity < 2 ^ 224 := by
  have hstart_pos := price_of_inBounds hstart
  cases zeroForOne with
  | true =>
    rw [stepOutput, if_pos rfl, Nat.div_lt_iff_lt_mul (by decide)]
    exact (gap_lt hstart_pos.2 hliquidity).trans (by decide)
  | false =>
    rw [stepOutput, if_neg (by simp)]
    exact lt_of_le_of_lt (floorDiv_le_ceilDiv (a := sqrtEnd * sqrtStart)) (exactPast_lt hstart_pos.1 hdirected hliquidity)

theorem acceptsFinalStep_iff_amounts :
    AcceptsFinalStep sqrtStart sqrtEnd liquidity fee zeroForOne preceding amountIn amountOut feeAmount ↔
      amountIn = stepInput zeroForOne sqrtStart sqrtEnd liquidity ∧
      (amountOut = stepOutput zeroForOne sqrtStart sqrtEnd liquidity ∧ (feeAmount = fullFee amountIn fee ∨
          fullFee amountIn fee < feeAmount ∧ amountIn + feeAmount < 2 ^ 256 ∧
            nextSqrtFromInput sqrtStart liquidity ((amountIn + feeAmount) * (FEE_DENOMINATOR - fee) / FEE_DENOMINATOR)
              zeroForOne = .ok sqrtEnd) ∨
        (0 < amountOut ∧ amountOut < stepOutput zeroForOne sqrtStart sqrtEnd liquidity ∧
          nextSqrtFromOutput sqrtStart liquidity amountOut zeroForOne = .ok sqrtEnd) ∧
          feeAmount = fullFee amountIn fee) := by
  have hend_pos := price_of_inBounds hend
  have hlt := stepInput_lt hend_pos hdirected hliquidity
  rw [AcceptsFinalStep, segmentAmounts_eq (price_of_inBounds hstart) hend_pos hdirected hliquidity]
  constructor
  · rintro ⟨finalOutput, capped, hamounts, hcapped, hfull, hvalid⟩
    obtain ⟨rfl, rfl⟩ := Prod.mk.inj (Except.ok.inj hamounts)
    refine ⟨rfl, ?_⟩
    rcases outputIsCapped_eq_ok.mp hcapped with ⟨rfl, rfl⟩ | ⟨rfl, hpos, hless, hnext⟩
    · exact .inl ⟨rfl, (validFinalStepFee_eq_true hfee hlt).mp hvalid⟩
    · have hfee_eq := hfull rfl
      rw [feeForFullStep_ok hfee hlt] at hfee_eq
      exact .inr ⟨⟨hpos, hless, hnext⟩, (Except.ok.inj hfee_eq).symm⟩
  · rintro ⟨rfl, ⟨rfl, hvalid⟩ | ⟨hcapped, rfl⟩⟩
    · exact ⟨_, false, rfl, outputIsCapped_eq_ok.mpr (.inl ⟨rfl, rfl⟩), nofun,
        (validFinalStepFee_eq_true hfee hlt).mpr hvalid⟩
    · exact ⟨_, true, rfl, outputIsCapped_eq_ok.mpr (.inr ⟨rfl, hcapped⟩), fun _ => feeForFullStep_ok hfee hlt,
        (validFinalStepFee_eq_true hfee hlt).mpr (.inl rfl)⟩

/-- What a step of the contract charges on the way to a target in its direction is accepted. -/
theorem accepts_of_computeSwapStep {target : Nat} {remaining : Int} (htarget : 0 < target ∧ target < 2 ^ 160)
    (hside : decide (target ≤ sqrtStart) = zeroForOne) (hremaining : -2 ^ 255 ≤ remaining ∧ remaining < 2 ^ 255)
    (hstep : computeSwapStep sqrtStart target liquidity remaining fee = some ⟨sqrtEnd, amountIn, amountOut, feeAmount⟩) :
    AcceptsFinalStep sqrtStart sqrtEnd liquidity fee zeroForOne preceding amountIn amountOut feeAmount := by
  rw [acceptsFinalStep_iff_amounts hstart hend hdirected hliquidity hfee]
  by_cases hsign : 0 ≤ remaining
  · obtain ⟨⟨rfl, rfl⟩, hcase⟩ := (computeSwapStep_input hstart hend htarget hdirected hside hliquidity hfee
      ⟨hsign, hremaining.2⟩).mp hstep
    refine ⟨rfl, .inl ⟨rfl, ?_⟩⟩
    obtain ⟨-, -, rfl⟩ | ⟨-, hnext, rfl⟩ := hcase
    · exact .inl rfl
    · split_ifs with hstop
      · exact .inl rfl
      · have hpaid := (le_lessFee_iff hfee).mp (stepInput_le_of_next hstart hend hdirected hliquidity hnext)
        have hfee_eq : (2 ^ 256 + remaining.toNat - stepInput zeroForOne sqrtStart sqrtEnd liquidity) % 2 ^ 256 =
            remaining.toNat - stepInput zeroForOne sqrtStart sqrtEnd liquidity := by omega
        rw [hfee_eq]
        rcases Nat.eq_or_lt_of_le (Nat.le_sub_of_add_le' hpaid) with heq | hlt
        · exact .inl heq.symm
        · have hgross : stepInput zeroForOne sqrtStart sqrtEnd liquidity +
              (remaining.toNat - stepInput zeroForOne sqrtStart sqrtEnd liquidity) = remaining.toNat := by omega
          exact .inr ⟨hlt, by omega, by rwa [hgross]⟩
  · have hneg : remaining < 0 := not_le.mp hsign
    obtain ⟨⟨rfl, rfl, rfl⟩, hcase⟩ := (computeSwapStep_output hstart hend hdirected hside hliquidity hfee hneg).mp hstep
    refine ⟨rfl, ?_⟩
    by_cases hle : stepOutput zeroForOne sqrtStart sqrtEnd liquidity ≤ (-remaining).toNat
    · exact .inl ⟨min_eq_left hle, .inl rfl⟩
    · rw [min_eq_right (not_le.mp hle).le]
      obtain ⟨hle', rfl⟩ | ⟨hlt, hnext⟩ := hcase
      · exact absurd hle' hle
      · exact .inr ⟨⟨by omega, not_le.mp hle, hnext⟩, rfl⟩

omit hend hdirected in
/-- A step to where it starts does nothing. -/
theorem computeSwapStep_self {remaining : Int} (hremaining : -2 ^ 255 ≤ remaining ∧ remaining < 2 ^ 255) :
    computeSwapStep sqrtStart sqrtStart liquidity remaining fee = some ⟨sqrtStart, 0, 0, 0⟩ := by
  have hin : stepInput true sqrtStart sqrtStart liquidity = 0 := by simp [stepInput, exactPast]
  have hout : stepOutput true sqrtStart sqrtStart liquidity = 0 := by simp [stepOutput]
  have hfull : fullFee 0 fee = 0 := by simp [fullFee]
  have hpos := price_of_inBounds hstart
  have hstill : V3.Directed true sqrtStart sqrtStart := le_rfl
  by_cases hsign : 0 ≤ remaining
  · refine (computeSwapStep_input hstart hstart hpos hstill (decide_eq_true le_rfl) hliquidity hfee
      ⟨hsign, hremaining.2⟩).mpr ?_
    rw [hin, hout, hfull]
    exact ⟨⟨rfl, rfl⟩, .inl ⟨Nat.zero_le _, rfl, rfl⟩⟩
  · refine (computeSwapStep_output hstart hstart hstill (decide_eq_true le_rfl) hliquidity hfee
      (not_le.mp hsign)).mpr ?_
    rw [hin, hout, hfull, Nat.zero_min]
    exact ⟨⟨rfl, rfl, rfl⟩, .inl ⟨Nat.zero_le _, rfl⟩⟩

/-- What is accepted is what a step of the contract charges. -/
theorem computeSwapStep_of_accepts
    (haccepts : AcceptsFinalStep sqrtStart sqrtEnd liquidity fee zeroForOne preceding amountIn amountOut feeAmount) :
    ∃ (target : Nat) (remaining : Int), (0 < target ∧ target < 2 ^ 160) ∧ Directed zeroForOne sqrtStart target ∧
      (-2 ^ 255 ≤ remaining ∧ remaining < 2 ^ 255) ∧
      computeSwapStep sqrtStart target liquidity remaining fee = some ⟨sqrtEnd, amountIn, amountOut, feeAmount⟩ := by
  have hend_pos := price_of_inBounds hend
  have hin_lt := stepInput_lt hend_pos hdirected hliquidity
  have hfull_lt := fullFee_lt hfee hin_lt
  -- the step takes an upward swap that does not move for a downward one
  have hend_side : decide (sqrtEnd ≤ sqrtStart) = zeroForOne ∨ zeroForOne = false ∧ sqrtEnd = sqrtStart := by
    cases zeroForOne with
    | true => exact .inl (decide_eq_true hdirected)
    | false =>
      have hle : sqrtStart ≤ sqrtEnd := hdirected
      rcases Nat.eq_or_lt_of_le hle with heq | hlt
      · exact .inr ⟨rfl, heq.symm⟩
      · exact .inl (decide_eq_false (not_le.mpr hlt))
  obtain ⟨rfl, ⟨rfl, hvalid⟩ | ⟨⟨hpos, hless, hnext⟩, rfl⟩⟩ :=
    (acceptsFinalStep_iff_amounts hstart hend hdirected hliquidity hfee).mp haccepts
  · obtain rfl | ⟨hlt, -, hnext⟩ := hvalid
    · -- an exact input of the move and its fee, to the end as the target
      set amountIn := stepInput zeroForOne sqrtStart sqrtEnd liquidity with hamountIn
      refine ⟨sqrtEnd, (amountIn + fullFee amountIn fee : Nat), hend_pos, hdirected, by omega, ?_⟩
      obtain hside | ⟨rfl, rfl⟩ := hend_side
      · refine (computeSwapStep_input hstart hend hend_pos hdirected hside hliquidity hfee (by omega)).mpr
          ⟨⟨rfl, rfl⟩, .inl ⟨?_, rfl, rfl⟩⟩
        rw [Int.toNat_natCast, ← hamountIn, le_lessFee_iff hfee]
      · have hstill_in : amountIn = 0 := by simp [amountIn, stepInput]
        have hstill_out : stepOutput false sqrtEnd sqrtEnd liquidity = 0 := by simp [stepOutput]
        have hstill_fee : fullFee 0 fee = 0 := by simp [fullFee]
        rw [hstill_in, hstill_out, hstill_fee]
        exact computeSwapStep_self hstart hliquidity hfee (by omega)
    · -- an exact input that stops short of a target beyond the end
      obtain ⟨target, htarget, htarget_side, hne, hshort⟩ := exists_target hstart hend hdirected hliquidity hnext
      have htarget_dir := directed_of_side htarget_side
      have hgross := remaining_lt hfee (hshort.trans (stepInput_lt htarget htarget_dir hliquidity))
      have hgross_int : ((stepInput zeroForOne sqrtStart sqrtEnd liquidity + feeAmount : Nat) : Int) < 2 ^ 255 := by
        exact_mod_cast hgross
      refine ⟨target, (stepInput zeroForOne sqrtStart sqrtEnd liquidity + feeAmount : Nat), htarget, htarget_dir,
        ⟨by omega, hgross_int⟩, ?_⟩
      refine (computeSwapStep_input hstart hend htarget hdirected htarget_side hliquidity hfee ⟨by omega, hgross_int⟩).mpr
        ⟨⟨rfl, rfl⟩, .inr ⟨by rwa [Int.toNat_natCast], by rwa [Int.toNat_natCast], ?_⟩⟩
      rw [if_neg hne, Int.toNat_natCast]
      omega
  · -- an exact output below the output of the move to the end
    have hout_lt := stepOutput_lt hstart hdirected hliquidity
    have hneg : (-(amountOut : Int)) < 0 := by omega
    refine ⟨sqrtEnd, -(amountOut : Int), hend_pos, hdirected, by omega, ?_⟩
    obtain hside | ⟨rfl, rfl⟩ := hend_side
    · refine (computeSwapStep_output hstart hend hdirected hside hliquidity hfee hneg).mpr ⟨⟨rfl, ?_, rfl⟩, .inr ?_⟩
      · rw [neg_neg, Int.toNat_natCast, min_eq_right hless.le]
      · rw [neg_neg, Int.toNat_natCast]
        exact ⟨hless, hnext⟩
    · have hstill_out : stepOutput false sqrtEnd sqrtEnd liquidity = 0 := by simp [stepOutput]
      exact absurd (hstill_out ▸ hless) (Nat.not_lt_zero _)

end Last

/-- The checks of the last step accept an end price, amounts and a fee exactly where some step of the contract, with an
    exact input or an exact output and a target in the direction of the swap, ends there with them. -/
theorem acceptsFinalStep_iff (zeroForOne : Bool)
    (sqrtStart sqrtEnd liquidity fee preceding amountIn amountOut feeAmount : Nat) (hstart : InBounds sqrtStart)
    (hend : InBounds sqrtEnd) (hdirected : Directed zeroForOne sqrtStart sqrtEnd) (hliquidity : liquidity < 2 ^ 128)
    (hfee : fee < FEE_DENOMINATOR) :
    AcceptsFinalStep sqrtStart sqrtEnd liquidity fee zeroForOne preceding amountIn amountOut feeAmount ↔
      ∃ (target : Nat) (amountRemaining : Int), (0 < target ∧ target < 2 ^ 160) ∧ Directed zeroForOne sqrtStart target ∧
        (-2 ^ 255 ≤ amountRemaining ∧ amountRemaining < 2 ^ 255) ∧
        computeSwapStep sqrtStart target liquidity amountRemaining fee =
          some ⟨sqrtEnd, amountIn, amountOut, feeAmount⟩ := by
  refine ⟨computeSwapStep_of_accepts hstart hend hdirected hliquidity hfee, ?_⟩
  rintro ⟨target, remaining, htarget, htarget_dir, hremaining, hstep⟩
  by_cases hside : decide (target ≤ sqrtStart) = zeroForOne
  · exact accepts_of_computeSwapStep hstart hend hdirected hliquidity hfee htarget hside hremaining hstep
  · -- an upward step whose target is its start
    obtain ⟨rfl, rfl⟩ : zeroForOne = false ∧ target = sqrtStart := by
      cases zeroForOne with
      | true =>
        have hle : target ≤ sqrtStart := htarget_dir
        exact absurd (decide_eq_true hle) hside
      | false =>
        have hle : sqrtStart ≤ target := htarget_dir
        exact ⟨rfl, Nat.le_antisymm (not_lt.mp fun hlt => hside (decide_eq_false (not_le.mpr hlt))) hle⟩
    rw [computeSwapStep_self hstart hliquidity hfee hremaining] at hstep
    obtain ⟨rfl, rfl, rfl, rfl⟩ := SwapStep.mk.inj (Option.some.inj hstep)
    refine (acceptsFinalStep_iff_amounts hstart hend hdirected hliquidity hfee).mpr ⟨?_, .inl ⟨?_, .inl ?_⟩⟩
    · simp [stepInput]
    · simp [stepOutput]
    · simp [fullFee]

/-- A fee-only step with an exact input of one wei, which the step of the contract takes whole. -/
theorem acceptsFinalStep_tiny : ∃ (target : Nat) (amountRemaining : Int), (0 < target ∧ target < 2 ^ 160) ∧
    Directed true Q96 target ∧ (-2 ^ 255 ≤ amountRemaining ∧ amountRemaining < 2 ^ 255) ∧
    computeSwapStep Q96 target 1000000 amountRemaining 3000 = some ⟨Q96, 0, 0, 1⟩ :=
  (acceptsFinalStep_iff true Q96 Q96 1000000 3000 0 0 0 1 ⟨by decide, by decide⟩ ⟨by decide, by decide⟩ le_rfl (by decide)
    (by decide)).mp ⟨0, false, by decide, by decide, nofun, by decide⟩

end AmmState.Canonical
