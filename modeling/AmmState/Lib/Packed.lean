import Mathlib.Data.BitVec

/-! Packed words: bit fields of a fixed-width word, read and replaced. -/

namespace AmmState.Packed
variable {n len len' : Nat}

/-- The field of `len` bits that starts at bit `lo`. -/
def get (w : BitVec n) (lo len : Nat) : BitVec len := w.extractLsb' lo len

/-- The word with its field at bit `lo` replaced. -/
def set (w : BitVec n) (lo : Nat) (v : BitVec len) : BitVec n :=
  (w &&& ~~~((BitVec.allOnes len).setWidth n <<< lo)) ||| (v.setWidth n <<< lo)

theorem getLsbD_get {w : BitVec n} {lo i : Nat} (hi : i < len) : (get w lo len).getLsbD i = w.getLsbD (lo + i) := by
  simp [get, hi]

theorem getLsbD_set {w : BitVec n} {lo : Nat} {v : BitVec len} {i : Nat} (hi : i < n) :
    (set w lo v).getLsbD i = if lo ≤ i ∧ i < lo + len then v.getLsbD (i - lo) else w.getLsbD i := by
  simp only [set, BitVec.getLsbD_or, BitVec.getLsbD_and, BitVec.getLsbD_not, BitVec.getLsbD_shiftLeft,
    BitVec.getLsbD_setWidth, BitVec.getLsbD_allOnes, hi, decide_true, Bool.true_and]
  by_cases hlo : i < lo
  · rw [if_neg (by omega)]
    simp [hlo]
  · by_cases hhi : i < lo + len
    · rw [if_pos (by omega)]
      have : i - lo < len := by omega
      have hn : i - lo < n := by omega
      simp [hlo, this, hn]
    · rw [if_neg (by omega)]
      have : ¬ i - lo < len := by omega
      have hv : v.getLsbD (i - lo) = false := BitVec.getLsbD_of_ge _ _ (by omega)
      simp [this, hv]

@[simp] theorem get_set_self {w : BitVec n} {lo : Nat} {v : BitVec len} (h : lo + len ≤ n) :
    get (set w lo v) lo len = v := by
  refine BitVec.eq_of_getLsbD_eq fun i hi => ?_
  rw [getLsbD_get hi, getLsbD_set (by omega), if_pos (by omega), Nat.add_sub_cancel_left]

theorem get_set_of_disjoint {w : BitVec n} {lo lo' : Nat} {v : BitVec len}
    (h : lo + len ≤ lo' ∨ lo' + len' ≤ lo) : get (set w lo v) lo' len' = get w lo' len' := by
  refine BitVec.eq_of_getLsbD_eq fun i hi => ?_
  rw [getLsbD_get hi, getLsbD_get hi]
  by_cases hn : lo' + i < n
  · rw [getLsbD_set hn, if_neg (by omega)]
  · rw [BitVec.getLsbD_of_ge _ _ (by omega), BitVec.getLsbD_of_ge _ _ (by omega)]

theorem set_set {w : BitVec n} {lo : Nat} {v v' : BitVec len} : set (set w lo v) lo v' = set w lo v' := by
  refine BitVec.eq_of_getLsbD_eq fun i hi => ?_
  rw [getLsbD_set hi, getLsbD_set hi, getLsbD_set hi]
  split_ifs <;> rfl

theorem set_comm {w : BitVec n} {lo lo' : Nat} {v : BitVec len} {v' : BitVec len'}
    (h : lo + len ≤ lo' ∨ lo' + len' ≤ lo) : set (set w lo v) lo' v' = set (set w lo' v') lo v := by
  refine BitVec.eq_of_getLsbD_eq fun i hi => ?_
  rw [getLsbD_set hi, getLsbD_set hi, getLsbD_set hi, getLsbD_set hi]
  split_ifs <;> first | rfl | omega

/-- Writing back the field that a word has changes nothing. -/
theorem set_get {w : BitVec n} {lo : Nat} : set w lo (get w lo len) = w := by
  refine BitVec.eq_of_getLsbD_eq fun i hi => ?_
  rw [getLsbD_set hi]
  split_ifs with h
  · rw [getLsbD_get (by omega)]
    congr 1
    omega
  · rfl

end AmmState.Packed
