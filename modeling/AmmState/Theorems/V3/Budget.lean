import AmmState.V3.Math
import Mathlib.Algebra.Order.Floor.Div
import Mathlib.Tactic.Linarith

/-! The largest input that does not pass a price (`maximum_input_budget`) inverts the price after an input
    (`next_sqrt_from_input`) exactly, on both sides of the switch to the overflow fallback. -/

namespace AmmState.V3
open Checked

/-! ### Rounded quotients -/

theorem div512_eq_ok {n d r : Nat} {roundUp : Bool} :
    div512 n d roundUp = .ok r ↔ 0 < d ∧ r = (if roundUp then n ⌈/⌉ d else n / d) ∧ r < 2 ^ 256 := by
  have hround : 0 < d → (n / d + if roundUp = true ∧ n % d ≠ 0 then 1 else 0) = if roundUp then n ⌈/⌉ d else n / d := by
    intro hd
    cases roundUp with
    | false => simp
    | true =>
      rw [Nat.ceilDiv_eq_add_pred_div, if_pos rfl]
      have hmod := Nat.div_add_mod n d
      have hlt := Nat.mod_lt n hd
      by_cases hzero : n % d = 0
      · rw [if_neg (by simp [hzero]), Nat.add_zero]
        symm
        rw [Nat.div_eq_iff hd]
        constructor
        · rw [Nat.mul_comm]
          omega
        · rw [Nat.mul_comm]
          omega
      · rw [if_pos ⟨rfl, hzero⟩]
        symm
        rw [Nat.div_eq_iff hd, Nat.add_mul, Nat.mul_comm]
        omega
  constructor
  · intro h
    obtain ⟨_, hd, h⟩ := bind_eq_ok.mp h
    have hd : 0 < d := Nat.pos_of_ne_zero (ensure_eq_ok.mp hd)
    obtain ⟨_, hlt, h⟩ := bind_eq_ok.mp h
    have hlt := ensure_eq_ok.mp hlt
    obtain rfl := pure_eq_ok.mp h
    exact ⟨hd, hround hd, hlt⟩
  · rintro ⟨hd, rfl, hlt⟩
    rw [div512, ensure_bind (Nat.ne_of_gt hd), hround hd, ensure_bind hlt]
    rfl

theorem div512_up {n d : Nat} (hd : 0 < d) (h : n ⌈/⌉ d < 2 ^ 256) : div512 n d true = .ok (n ⌈/⌉ d) :=
  div512_eq_ok.mpr ⟨hd, rfl, h⟩

theorem div512_down {n d : Nat} (hd : 0 < d) (h : n / d < 2 ^ 256) : div512 n d false = .ok (n / d) :=
  div512_eq_ok.mpr ⟨hd, rfl, h⟩

theorem ceilDiv_pos {n d : Nat} (hn : 0 < n) (hd : 0 < d) : 0 < n ⌈/⌉ d := by
  by_contra hzero
  have hle : n ⌈/⌉ d ≤ 0 := Nat.not_lt.mp hzero
  rw [ceilDiv_le_iff_le_mul hd] at hle
  omega

theorem ceilDiv_le_self {n d : Nat} (hd : 0 < d) : n ⌈/⌉ d ≤ n := by
  rw [ceilDiv_le_iff_le_mul hd]
  exact Nat.le_mul_of_pos_left n hd

theorem ceilDiv_lt {n d k : Nat} (hd : 0 < d) (h : n ≤ d * k) (hk : k < 2 ^ 256) : n ⌈/⌉ d < 2 ^ 256 :=
  Nat.lt_of_le_of_lt ((ceilDiv_le_iff_le_mul hd).mpr h) hk

/-! ### Prices after an input -/

/-- A price within the bounds of `TickMath`. -/
def InBounds (price : Nat) : Prop := MIN_SQRT_RATIO ≤ price ∧ price ≤ MAX_SQRT_RATIO

theorem InBounds.pos {price : Nat} (h : InBounds price) : 0 < price := Nat.lt_of_lt_of_le (by decide) h.1

theorem InBounds.le_mask {price : Nat} (h : InBounds price) : price ≤ SLOT0_SQRT_MASK := h.2.trans (by decide)

/-- A price past the end of a swap. -/
def Passes (zeroForOne : Bool) (sqrtEnd price : Nat) : Prop :=
  if zeroForOne then price < sqrtEnd else sqrtEnd < price

/-- The full-math branch is taken up to a limit of the input. -/
theorem full_iff {start numerator amount : Nat} (hstart : 0 < start) (hnumerator : numerator < 2 ^ 256) :
    amount * start < 2 ^ 256 ∧ numerator + amount * start < 2 ^ 256 ↔
      amount ≤ (2 ^ 256 - 1 - numerator) / start := by
  rw [Nat.le_div_iff_mul_le hstart]
  omega

section Down
variable {start past numerator amount : Nat}

/-- The first input past a price, by the full-math formula. -/
def exactPast (start past numerator : Nat) : Nat := numerator * (start - past) ⌈/⌉ (start * past)

/-- The first input past a price, by the fallback formula. -/
def fallbackPast (start past numerator : Nat) : Nat := numerator ⌈/⌉ past - numerator / start

theorem exactPast_le (hpast : 0 < past) (hle : past ≤ start) :
    exactPast start past numerator ≤ amount ↔ numerator * start ≤ (numerator + amount * start) * past := by
  rw [exactPast, ceilDiv_le_iff_le_mul (Nat.mul_pos (Nat.lt_of_lt_of_le hpast hle) hpast)]
  obtain ⟨gap, rfl⟩ := Nat.exists_eq_add_of_le hle
  have hleft : numerator * (past + gap) = numerator * past + numerator * gap := Nat.mul_add _ _ _
  have hright : (numerator + amount * (past + gap)) * past = numerator * past + (past + gap) * past * amount := by ring
  rw [hleft, hright, Nat.add_sub_cancel_left]
  omega

theorem fallbackPast_le (hpast : 0 < past) :
    fallbackPast start past numerator ≤ amount ↔ numerator ≤ (numerator / start + amount) * past := by
  rw [fallbackPast, Nat.sub_le_iff_le_add, ceilDiv_le_iff_le_mul hpast, Nat.add_comm amount, Nat.mul_comm past]

/-- The fallback floors a part of its denominator, so it never passes earlier. -/
theorem exactPast_le_fallbackPast (numerator : Nat) (hpast : 0 < past) (hle : past ≤ start) :
    exactPast start past numerator ≤ fallbackPast start past numerator := by
  rw [exactPast_le hpast hle]
  have hfallback : numerator ≤ (numerator / start + fallbackPast start past numerator) * past :=
    (fallbackPast_le hpast).mp le_rfl
  have hfloor := Nat.div_mul_le_self numerator start
  generalize fallbackPast start past numerator = first at hfallback ⊢
  calc numerator * start ≤ (numerator / start + first) * past * start := Nat.mul_le_mul_right start hfallback
    _ = (numerator / start * start + first * start) * past := by ring
    _ ≤ (numerator + first * start) * past := Nat.mul_le_mul_right past (Nat.add_le_add_right hfloor _)

/-- The fallback passes at most one unit later. -/
theorem fallbackPast_le_exactPast_succ (numerator : Nat) (hpast : 0 < past) (hle : past ≤ start) :
    fallbackPast start past numerator ≤ exactPast start past numerator + 1 := by
  rw [fallbackPast_le hpast]
  have hstart : 0 < start := Nat.lt_of_lt_of_le hpast hle
  have hexact : numerator * start ≤ (numerator + exactPast start past numerator * start) * past :=
    (exactPast_le hpast hle).mp le_rfl
  generalize exactPast start past numerator = first at hexact ⊢
  have hceil : numerator ≤ (numerator / start + 1) * start := by
    have hlt := Nat.lt_mul_div_succ numerator hstart
    rw [Nat.mul_comm]
    exact hlt.le
  refine Nat.le_of_mul_le_mul_right ?_ hstart
  calc numerator * start ≤ (numerator + first * start) * past := hexact
    _ ≤ ((numerator / start + 1) * start + first * start) * past :=
        Nat.mul_le_mul_right past (Nat.add_le_add_right hceil _)
    _ = (numerator / start + (first + 1)) * past * start := by ring

/-- The first input past a price, over both branches. -/
def firstPast (start past numerator : Nat) : Nat :=
  if exactPast start past numerator ≤ (2 ^ 256 - 1 - numerator) / start then exactPast start past numerator
  else fallbackPast start past numerator

theorem firstPast_le (hpast : 0 < past) (hle : past ≤ start) :
    firstPast start past numerator ≤ amount ↔
      if amount ≤ (2 ^ 256 - 1 - numerator) / start then exactPast start past numerator ≤ amount
      else fallbackPast start past numerator ≤ amount := by
  have hlow := exactPast_le_fallbackPast numerator hpast hle
  have hhigh := fallbackPast_le_exactPast_succ numerator hpast hle
  unfold firstPast
  split_ifs <;> omega

/-- The branches of the downward price. -/
theorem nextSqrtFromInput_down_eq {liquidity : Nat} (hstart : InBounds start) (hliquidity : 0 < liquidity)
    (hbound : liquidity < 2 ^ 128) :
    nextSqrtFromInput start liquidity amount true =
      if amount = 0 then .ok start
      else if amount ≤ (2 ^ 256 - 1 - liquidity * Q96) / start then
        .ok (liquidity * Q96 * start ⌈/⌉ (liquidity * Q96 + amount * start))
      else if liquidity * Q96 / start + amount < 2 ^ 256 then
        .ok (liquidity * Q96 ⌈/⌉ (liquidity * Q96 / start + amount))
      else .error (arithmetic "next-price denominator overflow") := by
  have hpos := hstart.pos
  have hnumerator : 0 < liquidity * Q96 := Nat.mul_pos hliquidity (by decide)
  have hlt : liquidity * Q96 < 2 ^ 224 := by
    rw [show (2 : Nat) ^ 224 = 2 ^ 128 * Q96 by decide]
    exact Nat.mul_lt_mul_of_pos_right hbound (by decide)
  rw [nextSqrtFromInput, ensure_bind ⟨Nat.ne_of_gt hpos, Nat.ne_of_gt hliquidity⟩, if_pos rfl]
  by_cases hzero : amount = 0
  · rw [if_pos hzero, if_pos hzero]
    rfl
  rw [if_neg hzero, if_neg hzero]
  have hamount : 0 < amount := Nat.pos_of_ne_zero hzero
  have hbounded : ∀ next, 0 < next → next ≤ start →
      ensure (ε := AdapterEventError) (next ≠ 0 ∧ next ≤ SLOT0_SQRT_MASK)
        (arithmetic "next price exceeds uint160 bounds") = .ok () := by
    intro next hnext hle
    exact ensure_of ⟨Nat.ne_of_gt hnext, hle.trans hstart.le_mask⟩
  have hmask : start < 2 ^ 256 := Nat.lt_of_le_of_lt hstart.le_mask (by decide)
  generalize liquidity * Q96 = numerator at hnumerator hlt ⊢
  dsimp only
  by_cases hfull : amount ≤ (2 ^ 256 - 1 - numerator) / start
  · have hdenominator : 0 < numerator + amount * start := by omega
    have hle : numerator * start ⌈/⌉ (numerator + amount * start) ≤ start := by
      rw [ceilDiv_le_iff_le_mul hdenominator]
      exact Nat.mul_le_mul_right start (Nat.le_add_right _ _)
    rw [if_pos ((full_iff hpos (by omega)).mpr hfull), if_pos hfull, mulDivRoundUp, div512_up hdenominator (by omega),
      ok_bind, hbounded _ (ceilDiv_pos (Nat.mul_pos hnumerator hpos) hdenominator) hle, ok_bind]
    rfl
  rw [if_neg (mt (full_iff hpos (by omega)).mp hfull), if_neg hfull, checkedAdd]
  by_cases hadd : numerator / start + amount < 2 ^ 256
  · have hdenominator : 0 < numerator / start + amount := Nat.add_pos_right _ hamount
    have hle : numerator ⌈/⌉ (numerator / start + amount) ≤ start := by
      rw [ceilDiv_le_iff_le_mul hdenominator]
      have hceil := Nat.lt_mul_div_succ numerator hpos
      calc numerator ≤ start * (numerator / start + 1) := hceil.le
        _ ≤ start * (numerator / start + amount) := Nat.mul_le_mul_left start (Nat.add_le_add_left hamount _)
        _ = (numerator / start + amount) * start := Nat.mul_comm _ _
    rw [if_pos hadd, ensure_bind hadd]
    dsimp only [pure, Except.pure]
    rw [ok_bind, div512_up hdenominator (by omega), ok_bind, hbounded _ (ceilDiv_pos hnumerator hdenominator) hle,
      ok_bind]
  · rw [if_neg hadd, ensure, if_neg hadd]
    rfl

/-- A downward price is at or below a bound from the first input past it on. -/
theorem nextSqrtFromInput_down {liquidity p : Nat} (hstart : InBounds start) (hliquidity : 0 < liquidity)
    (hbound : liquidity < 2 ^ 128) (h : nextSqrtFromInput start liquidity amount true = .ok p) (hpast : 0 < past)
    (hle : past ≤ start) : p ≤ past ↔ firstPast start past (liquidity * Q96) ≤ amount := by
  have hpos := hstart.pos
  have hnumerator : 0 < liquidity * Q96 := Nat.mul_pos hliquidity (by decide)
  rw [nextSqrtFromInput_down_eq hstart hliquidity hbound] at h
  rw [firstPast_le hpast hle]
  generalize liquidity * Q96 = numerator at hnumerator h ⊢
  by_cases hzero : amount = 0
  · rw [if_pos hzero] at h
    cases h
    subst hzero
    rw [if_pos (Nat.zero_le _), exactPast_le hpast hle, Nat.zero_mul, Nat.add_zero]
    exact ⟨Nat.mul_le_mul_left numerator, fun h => Nat.le_of_mul_le_mul_left h hnumerator⟩
  rw [if_neg hzero] at h
  split_ifs at h ⊢ with hfull hadd
  · cases h
    rw [exactPast_le hpast hle, ceilDiv_le_iff_le_mul (Nat.add_pos_left hnumerator _)]
  · cases h
    rw [fallbackPast_le hpast, ceilDiv_le_iff_le_mul (Nat.add_pos_right _ (Nat.pos_of_ne_zero hzero))]

end Down

section Up
variable {start liquidity : Nat}

theorem nextSqrtFromInput_up {amount p : Nat}
    (h : nextSqrtFromInput start liquidity amount false = .ok p) : p = start + amount * Q96 / liquidity := by
  obtain ⟨_, -, h⟩ := bind_eq_ok.mp h
  rw [if_neg (by simp)] at h
  obtain ⟨quotient, hquotient, h⟩ := bind_eq_ok.mp h
  obtain ⟨-, rfl, -⟩ := div512_eq_ok.mp hquotient
  obtain ⟨sum, hsum, h⟩ := bind_eq_ok.mp h
  obtain ⟨_, -, hsum⟩ := bind_eq_ok.mp hsum
  obtain ⟨_, -, h⟩ := bind_eq_ok.mp h
  cases hsum
  cases h
  rfl

/-- An upward price is above a bound from the first input past it on. -/
theorem upPast_le (gap amount : Nat) (hliquidity : 0 < liquidity) :
    liquidity * gap ⌈/⌉ Q96 ≤ amount ↔ gap ≤ amount * Q96 / liquidity := by
  rw [ceilDiv_le_iff_le_mul (by decide), Nat.le_div_iff_mul_le hliquidity, Nat.mul_comm gap, Nat.mul_comm amount]

end Up

/-! ### The budget -/

/-- A swap from one price to another goes in its direction. -/
def Directed (zeroForOne : Bool) (sqrtStart sqrtEnd : Nat) : Prop :=
  if zeroForOne then sqrtEnd ≤ sqrtStart else sqrtStart ≤ sqrtEnd

/-- A budget is the largest input that does not pass the end, and the prices up to the first input past it exist. -/
structure IsBudget (sqrtStart sqrtEnd liquidity : Nat) (zeroForOne : Bool) (budget : Nat) : Prop where
  small : budget < 2 ^ 224
  passes : ∀ {amount price}, nextSqrtFromInput sqrtStart liquidity amount zeroForOne = .ok price →
    (Passes zeroForOne sqrtEnd price ↔ budget < amount)
  defined : ∀ {amount}, amount ≤ budget + 1 →
    ∃ price, nextSqrtFromInput sqrtStart liquidity amount zeroForOne = .ok price

section Budget
variable {sqrtStart sqrtEnd liquidity : Nat}

theorem maximumInputBudget_down (hstart : InBounds sqrtStart) (hend : InBounds sqrtEnd) (hle : sqrtEnd ≤ sqrtStart)
    (hliquidity : 0 < liquidity) (hbound : liquidity < 2 ^ 128) :
    ∃ budget, maximumInputBudget sqrtStart sqrtEnd liquidity true = .ok budget ∧
      IsBudget sqrtStart sqrtEnd liquidity true budget := by
  obtain ⟨past, rfl⟩ : ∃ past, sqrtEnd = past + 1 := ⟨sqrtEnd - 1, by have := hend.pos; omega⟩
  have hpast : 0 < past := by
    have hmin := hend.1
    unfold MIN_SQRT_RATIO at hmin
    omega
  have hlt : past < sqrtStart := hle
  have hnumerator : 0 < liquidity * Q96 := Nat.mul_pos hliquidity (by decide)
  have hsmall : liquidity * Q96 < 2 ^ 224 := by
    rw [show (2 : Nat) ^ 224 = 2 ^ 128 * Q96 by decide]
    exact Nat.mul_lt_mul_of_pos_right hbound (by decide)
  have hexact : exactPast sqrtStart past (liquidity * Q96) ≤ liquidity * Q96 := by
    rw [exactPast_le hpast hlt.le]
    calc liquidity * Q96 * sqrtStart ≤ liquidity * Q96 * sqrtStart * past := Nat.le_mul_of_pos_right _ hpast
      _ ≤ (liquidity * Q96 + liquidity * Q96 * sqrtStart) * past := Nat.mul_le_mul_right past (Nat.le_add_left _ _)
  have hceil : liquidity * Q96 ⌈/⌉ past ≤ liquidity * Q96 := ceilDiv_le_self hpast
  have hfloor : liquidity * Q96 / sqrtStart ≤ liquidity * Q96 ⌈/⌉ past := by
    refine Nat.div_le_of_le_mul ((ceilDiv_le_iff_le_mul hpast).mp le_rfl |>.trans ?_)
    exact Nat.mul_le_mul_right _ hlt.le
  have hdelta : amount0Delta past sqrtStart liquidity true = .ok (exactPast sqrtStart past (liquidity * Q96)) := by
    have hcomm : liquidity * (sqrtStart - past) * Q96 = liquidity * Q96 * (sqrtStart - past) := by ring
    rw [amount0Delta, hcomm]
    exact div512_up (Nat.mul_pos hstart.pos hpast) (hexact.trans_lt (hsmall.trans (by decide)))
  have hfirst : 0 < firstPast sqrtStart past (liquidity * Q96) := by
    by_contra hzero
    have hzero : firstPast sqrtStart past (liquidity * Q96) ≤ 0 := Nat.not_lt.mp hzero
    rw [firstPast_le hpast hlt.le, if_pos (Nat.zero_le _), exactPast_le hpast hlt.le, Nat.zero_mul, Nat.add_zero] at hzero
    exact absurd (Nat.le_of_mul_le_mul_left hzero hnumerator) (Nat.not_le.mpr hlt)
  have hfirstSmall : firstPast sqrtStart past (liquidity * Q96) ≤ liquidity * Q96 := by
    unfold firstPast
    split_ifs
    · exact hexact
    · exact (Nat.sub_le _ _).trans hceil
  refine ⟨firstPast sqrtStart past (liquidity * Q96) - 1, ?_, ?_, ?_, ?_⟩
  · rw [maximumInputBudget, if_neg (Nat.ne_of_gt hliquidity), if_pos rfl, ensure_bind (by omega)]
    dsimp only
    rw [Nat.add_sub_cancel, hdelta, ok_bind]
    unfold firstPast at hfirst ⊢
    dsimp only [pure, Except.pure]
    split_ifs at hfirst ⊢
    · rw [ok_bind, checkedSub, ensure_bind (Nat.succ_le_of_lt hfirst)]
      rfl
    · rw [fallbackPast] at hfirst ⊢
      rw [div512_up hpast (hceil.trans_lt (hsmall.trans (by decide))), ok_bind, checkedSub, ensure_bind hfloor]
      dsimp only [pure, Except.pure]
      rw [ok_bind, checkedSub, ensure_bind (Nat.succ_le_of_lt hfirst)]
      rfl
  · omega
  · intro amount price h
    have hnext := nextSqrtFromInput_down hstart hliquidity hbound h hpast hlt.le
    show price < past + 1 ↔ _
    rw [Nat.lt_succ_iff, hnext]
    omega
  · intro amount hamount
    rw [nextSqrtFromInput_down_eq hstart hliquidity hbound]
    have hquotient : liquidity * Q96 / sqrtStart ≤ liquidity * Q96 := Nat.div_le_self _ _
    have hadd : liquidity * Q96 / sqrtStart + amount < 2 ^ 256 := by
      calc liquidity * Q96 / sqrtStart + amount ≤ liquidity * Q96 + (liquidity * Q96) :=
            Nat.add_le_add hquotient (by omega)
        _ < 2 ^ 256 := by omega
    split_ifs
    · exact ⟨_, rfl⟩
    · exact ⟨_, rfl⟩
    · exact ⟨_, rfl⟩

theorem maximumInputBudget_up (hstart : InBounds sqrtStart) (hend : InBounds sqrtEnd) (hle : sqrtStart ≤ sqrtEnd)
    (hliquidity : 0 < liquidity) (hbound : liquidity < 2 ^ 128) :
    ∃ budget, maximumInputBudget sqrtStart sqrtEnd liquidity false = .ok budget ∧
      IsBudget sqrtStart sqrtEnd liquidity false budget := by
  obtain ⟨gap, rfl⟩ := Nat.exists_eq_add_of_le hle
  have hmax := hend.2
  have hsub : sqrtStart + gap + 1 - sqrtStart = gap + 1 := by omega
  have hfirst : 0 < liquidity * (gap + 1) ⌈/⌉ Q96 := ceilDiv_pos (Nat.mul_pos hliquidity (Nat.succ_pos gap)) (by decide)
  have hsmall : liquidity * (gap + 1) ⌈/⌉ Q96 ≤ 2 ^ 128 * 2 ^ 64 := by
    rw [ceilDiv_le_iff_le_mul (by decide)]
    calc liquidity * (gap + 1) ≤ 2 ^ 128 * 2 ^ 160 := by
          refine Nat.mul_le_mul hbound.le ?_
          unfold MAX_SQRT_RATIO at hmax
          omega
      _ = Q96 * (2 ^ 128 * 2 ^ 64) := by decide
  refine ⟨liquidity * (gap + 1) ⌈/⌉ Q96 - 1, ?_, ?_, ?_, ?_⟩
  · rw [maximumInputBudget, if_neg (Nat.ne_of_gt hliquidity), if_neg (by simp), amount1Delta, hsub,
      div512_up (by decide) (hsmall.trans_lt (by decide)), ok_bind, checkedSub]
    exact ensure_bind (Nat.succ_le_of_lt hfirst)
  · omega
  · intro amount price h
    obtain rfl := nextSqrtFromInput_up h
    have hpast := upPast_le (gap + 1) amount hliquidity
    show sqrtStart + gap < sqrtStart + amount * Q96 / liquidity ↔ _
    omega
  · intro amount hamount
    have hquotient : amount * Q96 / liquidity < gap + 1 + Q96 := by
      rw [Nat.div_lt_iff_lt_mul hliquidity]
      rcases Nat.eq_zero_or_pos amount with rfl | hpos
      · rw [Nat.zero_mul]
        exact Nat.mul_pos (Nat.add_pos_right _ (by decide)) hliquidity
      have hbelow : (amount - 1) * Q96 / liquidity < gap + 1 := by
        refine Nat.not_le.mp (mt (upPast_le (gap + 1) (amount - 1) hliquidity).mpr ?_)
        omega
      rw [Nat.div_lt_iff_lt_mul hliquidity] at hbelow
      calc amount * Q96 = (amount - 1) * Q96 + Q96 := by rw [← Nat.succ_mul, Nat.succ_eq_add_one, Nat.sub_add_cancel hpos]
        _ < (gap + 1) * liquidity + Q96 * liquidity :=
            Nat.add_lt_add_of_lt_of_le hbelow (Nat.le_mul_of_pos_right _ hliquidity)
        _ = (gap + 1 + Q96) * liquidity := (Nat.add_mul _ _ _).symm
    have hmask : sqrtStart + amount * Q96 / liquidity ≤ SLOT0_SQRT_MASK := by
      have hroom : MAX_SQRT_RATIO + Q96 ≤ SLOT0_SQRT_MASK := by decide
      omega
    have hfit : sqrtStart + amount * Q96 / liquidity < 2 ^ 256 := hmask.trans_lt (by decide)
    have hquotientFit : amount * Q96 / liquidity < 2 ^ 256 := (Nat.le_add_left _ _).trans_lt hfit
    refine ⟨sqrtStart + amount * Q96 / liquidity, ?_⟩
    rw [nextSqrtFromInput, ensure_bind ⟨Nat.ne_of_gt hstart.pos, Nat.ne_of_gt hliquidity⟩, if_neg (by simp), mulDiv,
      div512_down hliquidity hquotientFit, ok_bind, checkedAdd, ensure_bind hfit]
    dsimp only [pure, Except.pure]
    rw [ok_bind, ensure_bind ⟨Nat.ne_of_gt (Nat.add_pos_left hstart.pos _), hmask⟩]

/-- The returned budget is the largest input that does not pass the end. -/
theorem maximumInputBudget_spec (zeroForOne : Bool) (hstart : InBounds sqrtStart) (hend : InBounds sqrtEnd)
    (hdirected : Directed zeroForOne sqrtStart sqrtEnd) (hliquidity : 0 < liquidity) (hbound : liquidity < 2 ^ 128) :
    ∃ budget, maximumInputBudget sqrtStart sqrtEnd liquidity zeroForOne = .ok budget ∧
      IsBudget sqrtStart sqrtEnd liquidity zeroForOne budget := by
  cases zeroForOne with
  | true => exact maximumInputBudget_down hstart hend hdirected hliquidity hbound
  | false => exact maximumInputBudget_up hstart hend hdirected hliquidity hbound

/-- The budget does not pass the end and one unit more does. -/
theorem maximumInputBudget_exact (sqrtStart sqrtEnd liquidity : Nat) (zeroForOne : Bool) (hstart : InBounds sqrtStart)
    (hend : InBounds sqrtEnd) (hdirected : Directed zeroForOne sqrtStart sqrtEnd) (hliquidity : 0 < liquidity)
    (hbound : liquidity < 2 ^ 128) :
    ∃ budget price pricePast, maximumInputBudget sqrtStart sqrtEnd liquidity zeroForOne = .ok budget ∧
      nextSqrtFromInput sqrtStart liquidity budget zeroForOne = .ok price ∧ ¬ Passes zeroForOne sqrtEnd price ∧
      nextSqrtFromInput sqrtStart liquidity (budget + 1) zeroForOne = .ok pricePast ∧
      Passes zeroForOne sqrtEnd pricePast := by
  obtain ⟨budget, hbudget, hspec⟩ := maximumInputBudget_spec zeroForOne hstart hend hdirected hliquidity hbound
  obtain ⟨price, hprice⟩ := hspec.defined (Nat.le_succ budget)
  obtain ⟨pricePast, hpricePast⟩ := hspec.defined (le_refl (budget + 1))
  refine ⟨budget, price, pricePast, hbudget, hprice, ?_, hpricePast, ?_⟩
  · rw [hspec.passes hprice]
    exact Nat.lt_irrefl budget
  · rw [hspec.passes hpricePast]
    exact Nat.lt_succ_self budget

end Budget

/-- A downward move where the full-math product overflows, so that the fallback is inverted. -/
theorem maximumInputBudget_exact_fallback :
    InBounds (2 ^ 159) ∧ InBounds (2 ^ 33) ∧
      (2 ^ 256 - 1 - (2 ^ 128 - 1) * Q96) / 2 ^ 159 < exactPast (2 ^ 159) (2 ^ 33 - 1) ((2 ^ 128 - 1) * Q96) ∧
      ∃ budget price pricePast, maximumInputBudget (2 ^ 159) (2 ^ 33) (2 ^ 128 - 1) true = .ok budget ∧
        nextSqrtFromInput (2 ^ 159) (2 ^ 128 - 1) budget true = .ok price ∧ ¬ Passes true (2 ^ 33) price ∧
        nextSqrtFromInput (2 ^ 159) (2 ^ 128 - 1) (budget + 1) true = .ok pricePast ∧
        Passes true (2 ^ 33) pricePast := by
  have hstart : InBounds (2 ^ 159) := ⟨by decide, by decide⟩
  have hend : InBounds (2 ^ 33) := ⟨by decide, by decide⟩
  refine ⟨hstart, hend, by decide +kernel, ?_⟩
  exact maximumInputBudget_exact _ _ _ true hstart hend (by show 2 ^ 33 ≤ 2 ^ 159; decide) (by decide) (by decide)

end AmmState.V3
