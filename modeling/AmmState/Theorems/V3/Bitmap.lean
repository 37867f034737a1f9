import AmmState.Theorems.V3.Cells
import Mathlib.Tactic.Linarith

/-! Bits of `tickBitmap` words: masks of one bit, and the bit of an aligned tick. -/

namespace AmmState.Canonical
open V3

theorem getLsbD_one_shiftLeft {b i : Nat} (hi : i < 256) : ((1 : U256) <<< b).getLsbD i = decide (i = b) := by
  rw [BitVec.getLsbD_shiftLeft]
  by_cases hib : i < b
  · simp [hib, hib.ne]
  · have : (1 : U256).getLsbD (i - b) = decide (i - b = 0) := by
      show (1#256).getLsbD (i - b) = _
      simp [BitVec.getLsbD_one]
    rw [this]
    have : (i - b = 0) ↔ i = b := by omega
    simp [hi, hib, this]

theorem and_mask_ne_zero {w : U256} {b : Nat} (hb : b < 256) : w &&& (1 : U256) <<< b ≠ 0 ↔ w.getLsbD b = true := by
  constructor
  · intro h
    by_contra hw
    refine h (BitVec.eq_of_getLsbD_eq fun i hi => ?_)
    rw [BitVec.getLsbD_and, getLsbD_one_shiftLeft hi]
    by_cases hib : i = b
    · subst hib
      simpa using hw
    · simp [hib]
  · intro h hz
    have := congrArg (fun v : U256 => v.getLsbD b) hz
    simp only [BitVec.getLsbD_and, getLsbD_one_shiftLeft hb, h] at this
    simp at this

/-- A flip toggles one bit. -/
theorem getLsbD_xor_mask {w : U256} {b i : Nat} (hi : i < 256) :
    (w ^^^ (1 : U256) <<< b).getLsbD i = if i = b then !w.getLsbD i else w.getLsbD i := by
  rw [BitVec.getLsbD_xor, getLsbD_one_shiftLeft hi]
  by_cases h : i = b
  · simp [h]
  · simp [h]

theorem bitPosition_lt (c : Int) : (c % 256).toNat < 256 := by omega

/-- Two compressed ticks of one word with one bit are one. -/
theorem compressed_eq {c d : Int} (hc : -2 ^ 23 ≤ c ∧ c < 2 ^ 23) (hd : -2 ^ 23 ≤ d ∧ d < 2 ^ 23)
    (hw : BitVec.ofInt 16 (c / 256) = BitVec.ofInt 16 (d / 256)) (hb : (c % 256).toNat = (d % 256).toNat) : c = d := by
  have h₁ : (BitVec.ofInt 16 (c / 256)).toInt = c / 256 := BitVec.toInt_ofInt_eq_self (by decide) (by omega) (by omega)
  have h₂ : (BitVec.ofInt 16 (d / 256)).toInt = d / 256 := BitVec.toInt_ofInt_eq_self (by decide) (by omega) (by omega)
  have hq : c / 256 = d / 256 := by rw [← h₁, ← h₂, hw]
  omega

theorem compressed_bounds {t spacing : Int} (hs : 0 < spacing) (ht : InRange t) :
    MIN_TICK ≤ t / spacing ∧ t / spacing ≤ MAX_TICK := by
  obtain ⟨hlo, hhi⟩ := ht
  unfold MIN_TICK MAX_TICK at *
  constructor
  · rw [Int.le_ediv_iff_mul_le hs]
    nlinarith
  · refine Int.lt_add_one_iff.mp ?_
    rw [Int.ediv_lt_iff_lt_mul hs]
    nlinarith

/-- The compressed tick of an aligned one in range fits the words of the bitmap. -/
theorem compressed_range {t spacing : Int} (hs : 0 < spacing) (ht : InRange t) :
    -2 ^ 23 ≤ t / spacing ∧ t / spacing < 2 ^ 23 := by
  obtain ⟨hlo, hhi⟩ := compressed_bounds hs ht
  unfold MIN_TICK at hlo
  unfold MAX_TICK at hhi
  omega

theorem ediv_mul_of_aligned {t spacing : Int} (h : t % spacing = 0) : t / spacing * spacing = t :=
  Int.ediv_mul_cancel (Int.dvd_of_emod_eq_zero h)

/-- Toggling the bit of another tick leaves the bit of this one, whatever slots the words have. -/
theorem toggled_bit {slot : BitVec 16 → U256} (hslot : ∀ {v w}, slot v = slot w → v = w) {spacing s t : Int}
    (hs : 0 < spacing) (hsr : InRange s) (htr : InRange t) (hsa : s % spacing = 0) (hta : t % spacing = 0) (hne : s ≠ t)
    (flipped : Bool) (F : Storage) :
    let word := slot (v3WordPosition s spacing)
    ((if flipped then Function.update F word (F word ^^^ (1 : U256) <<< (s / spacing % 256).toNat) else F)
      (slot (v3WordPosition t spacing))).getLsbD (t / spacing % 256).toNat =
        (F (slot (v3WordPosition t spacing))).getLsbD (t / spacing % 256).toNat := by
  cases flipped with
  | false => rfl
  | true =>
    have hcomp : s / spacing ≠ t / spacing := fun h => hne (by
      rw [← ediv_mul_of_aligned hsa, ← ediv_mul_of_aligned hta, h])
    simp only [if_true]
    by_cases hw : v3WordPosition t spacing = v3WordPosition s spacing
    · have hbit : (t / spacing % 256).toNat ≠ (s / spacing % 256).toNat := fun hb =>
        hcomp (compressed_eq (compressed_range hs hsr) (compressed_range hs htr) hw.symm hb.symm)
      rw [hw, Function.update_self, getLsbD_xor_mask (bitPosition_lt _), if_neg hbit]
    · rw [Function.update_of_ne fun h => hw (hslot h)]

/-- On well-formed ticks, the bit of an aligned tick is its gross liquidity. -/
theorem bit_of_aligned {keccak : Keccak} {spacing : Int} {F : Storage} (hF : TicksAgree keccak spacing F)
    (hs : 0 < spacing) {t : Int} (ht : InRange t) (ha : t % spacing = 0) :
    bitSet keccak F (t / spacing) = true ↔ grossAt keccak F t ≠ 0 := by
  have hr := compressed_range hs ht
  rw [hF.bit_iff _ hr.1 hr.2, ediv_mul_of_aligned ha]
  exact and_iff_right ht

end AmmState.Canonical
