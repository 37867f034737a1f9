import AmmState.V3.Types
import Mathlib.Algebra.Order.Ring.Nat
import Mathlib.Tactic.Ring
import Mathlib.Data.Nat.Bitwise
import Mathlib.Order.Monotone.Basic

/-! Square-root ratios of ticks (`sqrt_ratio_at_tick` of `v3_transition.rs`) and their strict monotonicity: each price
    in the range belongs to one tick. -/

namespace AmmState.V3

def MIN_TICK : Int := -887272
def MAX_TICK : Int := 887272

def Q96 : Nat := 2 ^ 96
def Q128 : Nat := 2 ^ 128

/-- `mul_shift_128`: a product in Q128, checked against `uint256`. -/
def mulShift128 (a b : Nat) : Result Nat := do
  let result := (a * b) >>> 128
  Checked.ensure (result < 2 ^ 256) (arithmetic "TickMath overflow")
  return result

/-- `1.0001 ^ (-1/2)` in Q128. -/
def RATIO_BIT_0 : Nat := 0xfffcb933bd6fad37aa2d162d1a594001

/-- The higher bits of a tick and the factor of each. -/
def RATIO_BITS : List (Nat × Nat) :=
  [(0x2, 0xfff97272373d413259a46990580e213a),
    (0x4, 0xfff2e50f5f656932ef12357cf3c7fdcc),
    (0x8, 0xffe5caca7e10e4e61c3624eaa0941cd0),
    (0x10, 0xffcb9843d60f6159c9db58835c926644),
    (0x20, 0xff973b41fa98c081472e6896dfb254c0),
    (0x40, 0xff2ea16466c96a3843ec78b326b52861),
    (0x80, 0xfe5dee046a99a2a811c461f1969c3053),
    (0x100, 0xfcbe86c7900a88aedcffc83b479aa3a4),
    (0x200, 0xf987a7253ac413176f2b074cf7815e54),
    (0x400, 0xf3392b0822b70005940c7a398e4b70f3),
    (0x800, 0xe7159475a2c29b7443b29c7fa6e889d9),
    (0x1000, 0xd097f3bdfd2022b8845ad8f792aa5825),
    (0x2000, 0xa9f746462d870fdf8a65dc1f90e061e5),
    (0x4000, 0x70d869a156d2a1b890bb3df62baf32f7),
    (0x8000, 0x31be135f97d08fd981231505542fcfa6),
    (0x10000, 0x9aa508b5b7a84e1c677de54f3e99bc9),
    (0x20000, 0x5d6af8dedb81196699c329225ee604),
    (0x40000, 0x2216e584f5fa1ea926041bedfe98),
    (0x80000, 0x48a170391f7dc42444e8fa2)]

/-- The factor of one bit, if the tick has it. -/
def applyBit (absTick ratio : Nat) (factor : Nat × Nat) : Result Nat :=
  if absTick &&& factor.1 ≠ 0 then mulShift128 ratio factor.2 else pure ratio

def sqrtRatioAtTick (tick : Int) : Result Nat := do
  Checked.ensure (MIN_TICK ≤ tick ∧ tick ≤ MAX_TICK) (contradiction "tick is outside TickMath bounds")
  let absTick := tick.natAbs
  let ratio := if absTick &&& 1 ≠ 0 then RATIO_BIT_0 else Q128
  let ratio ← RATIO_BITS.foldlM (applyBit absTick) ratio
  let ratio := if 0 < tick then (2 ^ 256 - 1) / ratio else ratio
  return ratio / 2 ^ 32 + if ratio % 2 ^ 32 ≠ 0 then 1 else 0

/-! ### The value on the tick range -/

/-- A Q128 ratio times the factors of the set bits of `n`, lowest bit first. -/
def applyBits : List Nat → Nat → Nat → Nat
  | [], _, ratio => ratio
  | c :: cs, n, ratio => applyBits cs (n / 2) (if n % 2 = 1 then ratio * c / 2 ^ 128 else ratio)

/-- The factors of all twenty bits. -/
def RATIO_FACTORS : List Nat := RATIO_BIT_0 :: RATIO_BITS.map (·.2)

/-- `1.0001 ^ (-n/2)` in Q128, rounded down at each factor. -/
def ratioX128 (n : Nat) : Nat := applyBits RATIO_FACTORS n Q128

/-- From Q128 to Q96, rounded up. -/
def roundToQ96 (ratio : Nat) : Nat := ratio / 2 ^ 32 + if ratio % 2 ^ 32 ≠ 0 then 1 else 0

/-- The square-root price of a tick. -/
def sqrtRatio (tick : Int) : Nat :=
  roundToQ96 (if 0 < tick then (2 ^ 256 - 1) / ratioX128 tick.natAbs else ratioX128 tick.natAbs)

theorem and_two_pow_ne_zero {n i : Nat} : n &&& 2 ^ i ≠ 0 ↔ n / 2 ^ i % 2 = 1 := by
  rw [Nat.and_two_pow, Nat.testBit_eq_decide_div_mod_eq]
  by_cases h : n / 2 ^ i % 2 = 1
  · simp [h]
  · simp [h]

theorem foldlM_bits {n : Nat} {cs : List Nat} (hcs : ∀ c ∈ cs, c ≤ 2 ^ 128) {i ratio : Nat} (hr : ratio ≤ 2 ^ 128) :
    ((cs.zipIdx i).map fun p => (2 ^ p.2, p.1)).foldlM (applyBit n) ratio = .ok (applyBits cs (n / 2 ^ i) ratio) := by
  induction cs generalizing i ratio with
  | nil => rfl
  | cons c cs ih =>
    have hc : c ≤ 2 ^ 128 := hcs c List.mem_cons_self
    have hle : ratio * c / 2 ^ 128 ≤ 2 ^ 128 := by
      refine Nat.div_le_of_le_mul ?_
      exact Nat.mul_le_mul hr hc
    have hstep : applyBit n ratio (2 ^ i, c) = .ok (if n / 2 ^ i % 2 = 1 then ratio * c / 2 ^ 128 else ratio) := by
      unfold applyBit
      by_cases hb : n / 2 ^ i % 2 = 1
      · rw [if_pos (and_two_pow_ne_zero.mpr hb), if_pos hb, mulShift128, Nat.shiftRight_eq_div_pow]
        exact Checked.ensure_bind (Nat.lt_of_le_of_lt hle (by decide))
      · rw [if_neg (mt and_two_pow_ne_zero.mp hb), if_neg hb]
        rfl
    rw [List.zipIdx_cons, List.map_cons, List.foldlM_cons, hstep, Checked.ok_bind,
      ih (fun d hd => hcs d (List.mem_cons_of_mem _ hd)), applyBits, Nat.pow_succ, ← Nat.div_div_eq_div_mul]
    split_ifs
    · exact hle
    · exact hr

theorem sqrtRatioAtTick_eq {tick : Int} (h : MIN_TICK ≤ tick ∧ tick ≤ MAX_TICK) :
    sqrtRatioAtTick tick = .ok (sqrtRatio tick) := by
  have hbits : RATIO_BITS = ((RATIO_BITS.map (·.2)).zipIdx 1).map fun p => (2 ^ p.2, p.1) := by decide
  have hle : ∀ c ∈ RATIO_BITS.map (·.2), c ≤ 2 ^ 128 := by decide
  have hfirst : (if tick.natAbs &&& 1 ≠ 0 then RATIO_BIT_0 else Q128) =
      if tick.natAbs % 2 = 1 then Q128 * RATIO_BIT_0 / 2 ^ 128 else Q128 := by
    have : tick.natAbs &&& 1 ≠ 0 ↔ tick.natAbs % 2 = 1 := by
      simp
    by_cases hodd : tick.natAbs % 2 = 1
    · rw [if_pos (this.mpr hodd), if_pos hodd]
      decide
    · rw [if_neg (mt this.mp hodd), if_neg hodd]
  have hone : (if tick.natAbs % 2 = 1 then Q128 * RATIO_BIT_0 / 2 ^ 128 else Q128) ≤ 2 ^ 128 := by
    split_ifs <;> decide
  rw [sqrtRatioAtTick, Checked.ensure_bind h]
  dsimp only
  rw [hfirst, hbits, foldlM_bits hle hone]
  rfl

theorem sqrtRatioAtTick_eq_ok {tick : Int} {price : Nat} :
    sqrtRatioAtTick tick = .ok price ↔ (MIN_TICK ≤ tick ∧ tick ≤ MAX_TICK) ∧ price = sqrtRatio tick := by
  constructor
  · intro h
    have hr : MIN_TICK ≤ tick ∧ tick ≤ MAX_TICK := by
      obtain ⟨_, h, _⟩ := Checked.bind_eq_ok.mp h
      exact Checked.ensure_eq_ok.mp h
    rw [sqrtRatioAtTick_eq hr] at h
    exact ⟨hr, (Except.ok.inj h).symm⟩
  · rintro ⟨hr, rfl⟩
    exact sqrtRatioAtTick_eq hr

/-! ### Strict monotonicity -/

/-- The factors of all bits of a list. -/
def applyAll (cs : List Nat) (ratio : Nat) : Nat := cs.foldl (fun ratio c => ratio * c / 2 ^ 128) ratio

/-- Rounding down keeps a gap: the factors applied to it bound the gap that is left. -/
theorem applyBits_add {cs : List Nat} {n x g : Nat} : applyBits cs n x + applyBits cs n g ≤ applyBits cs n (x + g) := by
  suffices h : ∀ y, x + g ≤ y → applyBits cs n x + applyBits cs n g ≤ applyBits cs n y from h _ le_rfl
  intro y hy
  induction cs generalizing n x g y with
  | nil => exact hy
  | cons c cs ih =>
    simp only [applyBits]
    split_ifs
    · refine ih _ ?_
      calc x * c / 2 ^ 128 + g * c / 2 ^ 128 ≤ (x * c + g * c) / 2 ^ 128 := Nat.div_add_div_le_add_div
        _ ≤ y * c / 2 ^ 128 := Nat.div_le_div_right (by rw [← Nat.add_mul]; exact Nat.mul_le_mul_right c hy)
    · exact ih _ hy

/-- Fewer factors leave more. -/
theorem applyAll_le_applyBits {cs : List Nat} (hcs : ∀ c ∈ cs, c ≤ 2 ^ 128) {n g : Nat} :
    applyAll cs g ≤ applyBits cs n g := by
  suffices h : ∀ y, g ≤ y → applyAll cs g ≤ applyBits cs n y from h _ le_rfl
  intro y hy
  induction cs generalizing n g y with
  | nil => exact hy
  | cons c cs ih =>
    have hmono : g * c / 2 ^ 128 ≤ y * c / 2 ^ 128 := Nat.div_le_div_right (Nat.mul_le_mul_right c hy)
    have hc : g * c / 2 ^ 128 ≤ g := by
      refine Nat.div_le_of_le_mul ?_
      rw [Nat.mul_comm]
      exact Nat.mul_le_mul_right g (hcs c List.mem_cons_self)
    have ih := fun {m} z hz => ih (fun d hd => hcs d (List.mem_cons_of_mem _ hd)) (n := m) (g := g * c / 2 ^ 128) z hz
    simp only [applyAll, applyBits, List.foldl_cons] at ih ⊢
    split_ifs
    · exact ih _ hmono
    · exact ih _ (hc.trans hy)

/-- Along the bits that are all set, each next factor is below the product so far, by a gap that stays wide. -/
def Gaps : List Nat → Nat → Prop
  | [], _ => True
  | c :: cs, ratio => c ≤ ratio ∧ 2 ^ 33 ≤ applyAll cs (ratio - c) ∧ Gaps cs (ratio * c / 2 ^ 128)

instance decidableGaps : ∀ cs ratio, Decidable (Gaps cs ratio)
  | [], _ => isTrue trivial
  | c :: cs, ratio =>
    have : Decidable (Gaps cs (ratio * c / 2 ^ 128)) := decidableGaps cs (ratio * c / 2 ^ 128)
    inferInstanceAs (Decidable (c ≤ ratio ∧ 2 ^ 33 ≤ applyAll cs (ratio - c) ∧ Gaps cs (ratio * c / 2 ^ 128)))

/-- One more tick: the trailing ones of `n` carry into the next bit, and the higher bits see both ratios. -/
theorem applyBits_succ {cs : List Nat} (hcs : ∀ c ∈ cs, c ≤ 2 ^ 128) {n ratio : Nat} (hg : Gaps cs ratio)
    (hn : n + 1 < 2 ^ cs.length) : applyBits cs (n + 1) Q128 + 2 ^ 33 ≤ applyBits cs n ratio := by
  induction cs generalizing n ratio with
  | nil => simp at hn
  | cons c cs ih =>
    obtain ⟨hc, hgap, hrest⟩ := hg
    have hcs' := fun d hd => hcs d (List.mem_cons_of_mem c hd)
    rw [List.length_cons, Nat.pow_succ] at hn
    rcases Nat.mod_two_eq_zero_or_one n with heven | hodd
    · have hq : Q128 * c / 2 ^ 128 = c := Nat.mul_div_cancel_left c (by decide)
      have hhalf : (n + 1) / 2 = n / 2 := by omega
      rw [applyBits, applyBits, if_pos (by omega), if_neg (by omega), hq, hhalf]
      calc applyBits cs (n / 2) c + 2 ^ 33 ≤ applyBits cs (n / 2) c + applyBits cs (n / 2) (ratio - c) :=
            Nat.add_le_add_left (hgap.trans (applyAll_le_applyBits hcs')) _
        _ ≤ applyBits cs (n / 2) (c + (ratio - c)) := applyBits_add
        _ = applyBits cs (n / 2) ratio := by rw [Nat.add_sub_cancel' hc]
    · have hhalf : (n + 1) / 2 = n / 2 + 1 := by omega
      rw [applyBits, applyBits, if_neg (by omega), if_pos hodd, hhalf]
      exact ih hcs' hrest (by omega)

theorem ratioX128_succ {n : Nat} (hn : n + 1 < 2 ^ 20) : ratioX128 (n + 1) + 2 ^ 33 ≤ ratioX128 n :=
  applyBits_succ (by decide) (by decide) hn

theorem applyBits_le {cs : List Nat} (hcs : ∀ c ∈ cs, c ≤ 2 ^ 128) {n ratio : Nat} (hr : ratio ≤ 2 ^ 128) :
    applyBits cs n ratio ≤ 2 ^ 128 := by
  induction cs generalizing n ratio with
  | nil => exact hr
  | cons c cs ih =>
    refine ih (fun d hd => hcs d (List.mem_cons_of_mem _ hd)) ?_
    split_ifs
    · exact Nat.div_le_of_le_mul (Nat.mul_le_mul hr (hcs c List.mem_cons_self))
    · exact hr

theorem ratioX128_le (n : Nat) : ratioX128 n ≤ 2 ^ 128 := applyBits_le (by decide) (by decide)

theorem ratioX128_pos (n : Nat) : 0 < ratioX128 n := by
  have hall : 0 < applyAll RATIO_FACTORS Q128 := by decide
  exact hall.trans_le (applyAll_le_applyBits (by decide))

theorem roundToQ96_lt {x y : Nat} (h : x + 2 ^ 32 ≤ y) : roundToQ96 x < roundToQ96 y := by
  unfold roundToQ96
  split_ifs <;> omega

/-- A gap of two units of rounding survives the inversion of positive ticks. -/
theorem invert_gap {a b : Nat} (ha : a ≤ 2 ^ 128) (hb : 0 < b) (hab : b + 2 ^ 33 ≤ a) :
    (2 ^ 256 - 1) / a + 2 ^ 32 ≤ (2 ^ 256 - 1) / b := by
  rw [Nat.le_div_iff_mul_le hb]
  set q := (2 ^ 256 - 1) / a with hq
  have hqa : q * a ≤ 2 ^ 256 - 1 := Nat.div_mul_le_self _ _
  have hq1 : 2 ^ 128 - 1 ≤ q := by
    rw [hq, Nat.le_div_iff_mul_le (by omega)]
    calc (2 ^ 128 - 1) * a ≤ (2 ^ 128 - 1) * 2 ^ 128 := Nat.mul_le_mul_left _ ha
      _ ≤ 2 ^ 256 - 1 := by decide
  have hqb : q * b + q * 2 ^ 33 ≤ q * a := by
    rw [← Nat.mul_add]
    exact Nat.mul_le_mul_left q hab
  have hexp : (q + 2 ^ 32) * b = q * b + 2 ^ 32 * b := Nat.add_mul _ _ _
  omega

theorem sqrtRatio_lt_succ {tick : Int} (hlo : MIN_TICK ≤ tick) (hhi : tick < MAX_TICK) :
    sqrtRatio tick < sqrtRatio (tick + 1) := by
  unfold MIN_TICK at hlo
  unfold MAX_TICK at hhi
  unfold sqrtRatio
  rcases lt_trichotomy tick 0 with hneg | rfl | hpos
  · obtain ⟨n, rfl⟩ : ∃ n : Nat, tick = -(n + 1 : Nat) := ⟨tick.natAbs - 1, by omega⟩
    have h₁ : (-((n + 1 : Nat) : Int)).natAbs = n + 1 := by omega
    have h₂ : (-((n + 1 : Nat) : Int) + 1).natAbs = n := by omega
    have hgap := ratioX128_succ (n := n) (by omega)
    rw [if_neg (by omega), if_neg (by omega), h₁, h₂]
    exact roundToQ96_lt (by omega)
  · decide
  · obtain ⟨n, rfl⟩ : ∃ n : Nat, tick = (n : Int) := ⟨tick.natAbs, by omega⟩
    have h₂ : ((n : Int) + 1).natAbs = n + 1 := by omega
    have hgap := ratioX128_succ (n := n) (by omega)
    rw [if_pos hpos, if_pos (by omega), Int.natAbs_natCast, h₂]
    exact roundToQ96_lt (invert_gap (ratioX128_le n) (ratioX128_pos _) hgap)

theorem sqrtRatio_lt {s t : Int} (hs : MIN_TICK ≤ s) (hst : s < t) (ht : t ≤ MAX_TICK) : sqrtRatio s < sqrtRatio t := by
  obtain ⟨k, rfl⟩ : ∃ k : Nat, t = s + 1 + k := ⟨(t - s - 1).toNat, by omega⟩
  induction k with
  | zero =>
    have hmax : s < MAX_TICK := by omega
    simpa using sqrtRatio_lt_succ hs hmax
  | succ k ih =>
    have hk : s + 1 + ((k + 1 : Nat) : Int) = s + 1 + k + 1 := by omega
    rw [hk] at ht ⊢
    exact (ih (by omega) (by omega)).trans (sqrtRatio_lt_succ (by omega) (by omega))

theorem sqrtRatio_le {s t : Int} (hs : MIN_TICK ≤ s) (hst : s ≤ t) (ht : t ≤ MAX_TICK) : sqrtRatio s ≤ sqrtRatio t := by
  rcases hst.lt_or_eq with h | rfl
  · exact (sqrtRatio_lt hs h ht).le
  · exact le_rfl

theorem sqrtRatio_lt_iff {s t : Int} (hs : MIN_TICK ≤ s ∧ s ≤ MAX_TICK) (ht : MIN_TICK ≤ t ∧ t ≤ MAX_TICK) :
    sqrtRatio s < sqrtRatio t ↔ s < t :=
  ⟨fun h => not_le.mp fun hle => absurd h (not_lt.mpr (sqrtRatio_le ht.1 hle hs.2)), fun h => sqrtRatio_lt hs.1 h ht.2⟩

def MIN_SQRT_RATIO : Nat := 4295128739
def MAX_SQRT_RATIO : Nat := 1461446703485210103287273052203988822378723970342

theorem sqrtRatio_min : sqrtRatio MIN_TICK = MIN_SQRT_RATIO := by decide

theorem sqrtRatio_max : sqrtRatio MAX_TICK = MAX_SQRT_RATIO := by decide

end AmmState.V3
