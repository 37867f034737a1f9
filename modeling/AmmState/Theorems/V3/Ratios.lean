import AmmState.V3.TickMath

/-! How far apart the prices of nearby ticks are. One tick multiplies a price by less than `16385 / 16384`, rounding
    included, so that no more than `2 ^ 16` ticks multiply it by less than `2 ^ 14`. -/

namespace AmmState.V3

/-! ### One tick -/

/-- A ratio that stays within `B / A` of another one keeps what is left of its slack, less one unit of rounding a factor. -/
theorem applyBits_near {cs : List Nat} (hcs : ∀ c ∈ cs, c ≤ 2 ^ 128) {A B n x y s d : Nat} (h : x * A + s ≤ y * B + d) :
    applyBits cs n x * A + applyAll cs s ≤ applyBits cs n y * B + (d + cs.length * B) := by
  induction cs generalizing n x y s d with
  | nil => simpa [applyBits, applyAll] using h
  | cons c cs ih =>
    have hc : c ≤ 2 ^ 128 := hcs c List.mem_cons_self
    have hcs' := fun e he => hcs e (List.mem_cons_of_mem c he)
    have hall : applyAll (c :: cs) s = applyAll cs (s * c / 2 ^ 128) := rfl
    have hlength : d + (c :: cs).length * B = d + B + cs.length * B := by
      rw [List.length_cons]
      ring
    rw [hall, hlength]
    simp only [applyBits]
    split_ifs
    · refine ih hcs' ?_
      have hx : x * c / 2 ^ 128 * A + s * c / 2 ^ 128 ≤ (y * B + d) * c / 2 ^ 128 := by
        have hscaled : A * (x * c) + s * c ≤ (y * B + d) * c := by
          calc A * (x * c) + s * c = (x * A + s) * c := by ring
            _ ≤ (y * B + d) * c := Nat.mul_le_mul_right c h
        calc x * c / 2 ^ 128 * A + s * c / 2 ^ 128 = A * (x * c / 2 ^ 128) + s * c / 2 ^ 128 := by rw [Nat.mul_comm A]
          _ ≤ A * (x * c) / 2 ^ 128 + s * c / 2 ^ 128 := Nat.add_le_add_right (Nat.mul_div_le_mul_div_assoc _ _ _) _
          _ ≤ (A * (x * c) + s * c) / 2 ^ 128 := Nat.div_add_div_le_add_div
          _ ≤ (y * B + d) * c / 2 ^ 128 := Nat.div_le_div_right hscaled
      refine hx.trans ?_
      refine Nat.div_le_of_le_mul ?_
      have hy : y * c ≤ 2 ^ 128 * (y * c / 2 ^ 128 + 1) := (Nat.lt_mul_div_succ _ (by decide)).le
      calc (y * B + d) * c = y * c * B + d * c := by ring
        _ ≤ 2 ^ 128 * (y * c / 2 ^ 128 + 1) * B + d * 2 ^ 128 :=
            Nat.add_le_add (Nat.mul_le_mul_right B hy) (Nat.mul_le_mul_left d hc)
        _ = 2 ^ 128 * (y * c / 2 ^ 128 * B + (d + B)) := by ring
    · refine ih hcs' ?_
      have hs : s * c / 2 ^ 128 ≤ s := Nat.div_le_of_le_mul (by rw [Nat.mul_comm]; exact Nat.mul_le_mul_right s hc)
      omega

/-- Along the bits that are all set, the product so far is within `B / A` of the next factor, by a slack that outlasts the
    rounding. -/
def Near (A B : Nat) : List Nat → Nat → Prop
  | [], _ => True
  | c :: cs, ratio =>
    ratio * A ≤ c * B ∧ cs.length * B ≤ applyAll cs (c * B - ratio * A) ∧ Near A B cs (ratio * c / 2 ^ 128)

instance decidableNear (A B : Nat) : ∀ cs ratio, Decidable (Near A B cs ratio)
  | [], _ => isTrue trivial
  | c :: cs, ratio =>
    have : Decidable (Near A B cs (ratio * c / 2 ^ 128)) := decidableNear A B cs (ratio * c / 2 ^ 128)
    inferInstanceAs (Decidable (ratio * A ≤ c * B ∧ cs.length * B ≤ applyAll cs (c * B - ratio * A) ∧
      Near A B cs (ratio * c / 2 ^ 128)))

/-- One more tick: the trailing ones of `n` carry into the next bit, and the higher bits see both ratios. -/
theorem applyBits_succ_near {cs : List Nat} (hcs : ∀ c ∈ cs, c ≤ 2 ^ 128) {A B n ratio : Nat} (hnear : Near A B cs ratio)
    (hn : n + 1 < 2 ^ cs.length) : applyBits cs n ratio * A ≤ applyBits cs (n + 1) Q128 * B := by
  induction cs generalizing n ratio with
  | nil => simp at hn
  | cons c cs ih =>
    obtain ⟨hc, hslack, hrest⟩ := hnear
    have hcs' := fun d hd => hcs d (List.mem_cons_of_mem c hd)
    rw [List.length_cons, Nat.pow_succ] at hn
    rcases Nat.mod_two_eq_zero_or_one n with heven | hodd
    · have hq : Q128 * c / 2 ^ 128 = c := Nat.mul_div_cancel_left c (by decide)
      have hhalf : (n + 1) / 2 = n / 2 := by omega
      rw [applyBits, applyBits, if_neg (by omega), if_pos (by omega), hq, hhalf]
      have hstart : ratio * A + (c * B - ratio * A) ≤ c * B + 0 := by omega
      have hend := applyBits_near hcs' (n := n / 2) hstart
      omega
    · have hhalf : (n + 1) / 2 = n / 2 + 1 := by omega
      rw [applyBits, applyBits, if_pos hodd, if_neg (by omega), hhalf]
      exact ih hcs' hrest (by omega)

theorem ratioX128_near {n : Nat} (hn : n + 1 < 2 ^ 20) : ratioX128 n * 16384 ≤ ratioX128 (n + 1) * 16385 :=
  applyBits_succ_near (by decide) (by decide) hn

/-! ### Many ticks -/

theorem ratioX128_pow {n k : Nat} (hk : n + k < 2 ^ 20) : ratioX128 n * 16384 ^ k ≤ ratioX128 (n + k) * 16385 ^ k := by
  induction k with
  | zero => simp
  | succ k ih =>
    calc ratioX128 n * 16384 ^ (k + 1) = ratioX128 n * 16384 ^ k * 16384 := by ring
      _ ≤ ratioX128 (n + k) * 16385 ^ k * 16384 := Nat.mul_le_mul_right _ (ih (by omega))
      _ = ratioX128 (n + k) * 16384 * 16385 ^ k := by ring
      _ ≤ ratioX128 (n + (k + 1)) * 16385 * 16385 ^ k := Nat.mul_le_mul_right _ (ratioX128_near (by omega))
      _ = ratioX128 (n + (k + 1)) * 16385 ^ (k + 1) := by ring

/-- Ticks that together grow by at most a factor of 64 change a ratio by no more than that. -/
theorem ratioX128_le_of_growth {e : Nat} (hgrowth : 16385 ^ e ≤ 64 * 16384 ^ e) {n k : Nat} (hk : n + k < 2 ^ 20)
    (hfew : k ≤ e) : ratioX128 n ≤ 64 * ratioX128 (n + k) := by
  have hpow := ratioX128_pow hk
  obtain ⟨rest, hrest⟩ := Nat.exists_eq_add_of_le hfew
  refine Nat.le_of_mul_le_mul_right ?_ (Nat.pow_pos (n := e) (show 0 < 16384 by decide))
  calc ratioX128 n * 16384 ^ e = ratioX128 n * 16384 ^ k * 16384 ^ rest := by rw [hrest, Nat.pow_add, Nat.mul_assoc]
    _ ≤ ratioX128 (n + k) * 16385 ^ k * 16385 ^ rest := Nat.mul_le_mul hpow (Nat.pow_le_pow_left (by decide) rest)
    _ = ratioX128 (n + k) * 16385 ^ e := by rw [hrest, Nat.pow_add, Nat.mul_assoc]
    _ ≤ ratioX128 (n + k) * (64 * 16384 ^ e) := Nat.mul_le_mul_left _ hgrowth
    _ = 64 * ratioX128 (n + k) * 16384 ^ e := by ring

/-- At most `2 ^ 16` ticks change a ratio by at most a factor of 64. -/
theorem ratioX128_le_mul {n k : Nat} (hk : n + k < 2 ^ 20) (hfew : k ≤ 2 ^ 16) : ratioX128 n ≤ 64 * ratioX128 (n + k) :=
  ratioX128_le_of_growth (by decide +kernel) hk hfew

theorem roundToQ96_le_mul {x y m : Nat} (h : x ≤ m * y) : roundToQ96 x ≤ m * roundToQ96 y := by
  have hround : ∀ z, z ≤ roundToQ96 z * 2 ^ 32 := by
    intro z
    unfold roundToQ96
    split_ifs <;> omega
  have hleast : ∀ z k, z ≤ k * 2 ^ 32 → roundToQ96 z ≤ k := by
    intro z k hz
    unfold roundToQ96
    split_ifs <;> omega
  refine hleast x _ (h.trans ?_)
  rw [Nat.mul_assoc]
  exact Nat.mul_le_mul_left m (hround y)

/-- The inverse of a ratio grows by no more than the ratio shrinks, up to rounding. -/
theorem invert_le_mul {a b m : Nat} (ha : 0 < a) (ha' : a ≤ 2 ^ 128) (hb : 0 < b) (h : a ≤ m * b) :
    (2 ^ 256 - 1) / b ≤ 2 * m * ((2 ^ 256 - 1) / a) := by
  set q := (2 ^ 256 - 1) / a with hq
  have hone : 1 ≤ q := by
    rw [hq, Nat.le_div_iff_mul_le ha, Nat.one_mul]
    exact ha'.trans (by decide)
  have hlt : 2 ^ 256 - 1 < a * (q + 1) := Nat.lt_mul_div_succ _ ha
  have hbound : (2 ^ 256 - 1) / b < m * (q + 1) := by
    rw [Nat.div_lt_iff_lt_mul hb]
    calc 2 ^ 256 - 1 < a * (q + 1) := hlt
      _ ≤ m * b * (q + 1) := Nat.mul_le_mul_right _ h
      _ = m * (q + 1) * b := by ring
  calc (2 ^ 256 - 1) / b ≤ m * (q + 1) := hbound.le
    _ ≤ m * (q + q) := Nat.mul_le_mul_left m (by omega)
    _ = 2 * m * q := by ring

/-- Prices at or below one, at most `2 ^ 16` ticks apart. -/
theorem sqrtRatio_near_neg {m k : Nat} (hm : m + k < 2 ^ 20) (hfew : k ≤ 2 ^ 16) :
    sqrtRatio (-(m : Int)) ≤ 64 * sqrtRatio (-((m + k : Nat) : Int)) := by
  unfold sqrtRatio
  have hnatAbs : ∀ n : Nat, (-(n : Int)).natAbs = n := fun n => by omega
  rw [if_neg (by omega), if_neg (by omega), hnatAbs, hnatAbs]
  exact roundToQ96_le_mul (ratioX128_le_mul hm hfew)

/-- Prices above one, at most `2 ^ 16` ticks apart. -/
theorem sqrtRatio_near_pos {m k : Nat} (hpos : 0 < m) (hm : m + k < 2 ^ 20) (hfew : k ≤ 2 ^ 16) :
    sqrtRatio ((m + k : Nat) : Int) ≤ 128 * sqrtRatio (m : Int) := by
  unfold sqrtRatio
  rw [if_pos (by omega), if_pos (by omega), Int.natAbs_natCast, Int.natAbs_natCast]
  refine roundToQ96_le_mul ?_
  exact invert_le_mul (ratioX128_pos m) (ratioX128_le m) (ratioX128_pos _) (ratioX128_le_mul hm hfew)

/-- Prices at most `2 ^ 16` ticks apart differ by at most a factor of `2 ^ 14`. -/
theorem sqrtRatio_near {s t : Int} (hs : MIN_TICK ≤ s) (hst : s ≤ t) (ht : t ≤ MAX_TICK) (hfew : t ≤ s + 2 ^ 16) :
    sqrtRatio t ≤ 2 ^ 14 * sqrtRatio s := by
  unfold MIN_TICK at hs
  unfold MAX_TICK at ht
  have hfew : t ≤ s + 65536 := hfew
  by_cases htop : t ≤ 0
  · obtain ⟨m, rfl⟩ : ∃ m : Nat, t = -(m : Int) := ⟨t.natAbs, by omega⟩
    obtain ⟨k, rfl⟩ : ∃ k : Nat, s = -((m + k : Nat) : Int) := ⟨s.natAbs - m, by omega⟩
    have hnear := sqrtRatio_near_neg (m := m) (k := k) (by omega) (by omega)
    omega
  obtain ⟨n, rfl⟩ : ∃ n : Nat, t = (n : Int) := ⟨t.natAbs, by omega⟩
  by_cases hbottom : 0 < s
  · obtain ⟨m, rfl⟩ : ∃ m : Nat, s = (m : Int) := ⟨s.natAbs, by omega⟩
    obtain ⟨k, rfl⟩ : ∃ k : Nat, n = m + k := ⟨n - m, by omega⟩
    have hnear := sqrtRatio_near_pos (m := m) (k := k) (by omega) (by omega) (by omega)
    omega
  · obtain ⟨k, rfl⟩ : ∃ k : Nat, s = -((0 + k : Nat) : Int) := ⟨s.natAbs, by omega⟩
    obtain ⟨j, rfl⟩ : ∃ j : Nat, n = 1 + j := ⟨n - 1, by omega⟩
    have hup := sqrtRatio_near_pos (m := 1) (k := j) (by decide) (by omega) (by omega)
    have hdown := sqrtRatio_near_neg (m := 0) (k := k) (by omega) (by omega)
    have hmid : sqrtRatio ((1 : Nat) : Int) ≤ 2 * sqrtRatio (-((0 : Nat) : Int)) := by decide
    omega

end AmmState.V3
