import AmmState.Canonical.Initialize
import AmmState.Canonical.TickBitmap
import AmmState.Theorems.V3.Steps

/-! The step boundary is the contract's bitmap search: the same word, the same tick, the same flag. -/

namespace AmmState.Canonical
open V3 Checked

/-! ### The search in parts -/

theorem compress_eq (tick : Int) {spacing : Int} (hs : 0 < spacing) : compress tick spacing = tick / spacing := by
  have hdvd : tick.tmod spacing = 0 ↔ spacing ∣ tick := Int.dvd_iff_tmod_eq_zero.symm
  unfold compress
  rw [Int.tdiv_eq_ediv, Int.sign_eq_one_of_pos hs]
  by_cases hd : spacing ∣ tick
  · rw [if_neg fun h => h.2 (hdvd.mpr hd), if_pos (.inr hd), add_zero]
  · by_cases htick : tick < 0
    · rw [if_pos ⟨htick, fun h => hd (hdvd.mp h)⟩, if_neg fun h => h.elim (by omega) hd, add_sub_cancel_right]
    · rw [if_neg fun h => htick h.1, if_pos (.inl (not_lt.mp htick)), add_zero]

theorem position_eq (compressed : Int) :
    position compressed = (BitVec.ofInt 16 (compressed / 256), (compressed % 256).toNat) := by
  unfold position
  have hbit : compressed.tmod 256 % 256 = compressed % 256 := by
    rw [Int.tmod_def, Int.sub_mul_emod_self_left]
  rw [Int.shiftRight_eq_div_pow, BitVec.toNat_ofInt]
  exact congrArg _ (congrArg Int.toNat hbit)

theorem highestBit_of_ne_zero {w : U256} (h : w ≠ 0) : highestBit w = some (mostSignificantBit 8 w.toNat) := by
  have hpos : 0 < w.toNat := Nat.pos_of_ne_zero fun hzero => h (BitVec.eq_of_toNat_eq hzero)
  obtain ⟨hlo, hhi⟩ := mostSignificantBit_spec 8 hpos w.isLt
  cases hbit : highestBit w with
  | none =>
    exact absurd (BitVec.eq_of_getLsbD_eq fun i hi => (highestBit_eq_none hbit i hi).trans BitVec.getLsbD_zero.symm) h
  | some b =>
    obtain ⟨hb, hset, hrest⟩ := highestBit_eq_some hbit
    have hle : b ≤ mostSignificantBit 8 w.toNat := by
      by_contra hlt
      have : w.toNat.testBit b = false :=
        Nat.testBit_lt_two_pow (hhi.trans_le (Nat.pow_le_pow_right (by decide) (by omega)))
      exact absurd (hset.symm.trans this) (by decide)
    have hge : mostSignificantBit 8 w.toNat ≤ b := by
      by_contra hlt
      have hzero : w.toNat < 2 ^ (b + 1) := by
        refine Nat.lt_pow_two_of_testBit _ fun i hi => ?_
        by_cases hi' : i < 256
        · exact hrest i (by omega) hi'
        · exact BitVec.getLsbD_of_ge w i (by omega)
      exact absurd (hlo.trans_lt hzero) (not_lt.mpr (Nat.pow_le_pow_right (by decide) (by omega)))
    rw [Nat.le_antisymm hle hge]

theorem lowestBit_of_ne_zero {w : U256} (h : w ≠ 0) : lowestBit w = some (leastSignificantBit 8 w.toNat) := by
  have hpos : 0 < w.toNat := Nat.pos_of_ne_zero fun hzero => h (BitVec.eq_of_toNat_eq hzero)
  have hmod : w.toNat % 2 ^ 2 ^ 8 = w.toNat := Nat.mod_eq_of_lt w.isLt
  obtain ⟨hlt, hset, hclear⟩ := leastSignificantBit_spec 8 (hmod.symm ▸ hpos)
  cases hbit : lowestBit w with
  | none =>
    exact absurd (BitVec.eq_of_getLsbD_eq fun i hi => (lowestBit_eq_none hbit i hi).trans BitVec.getLsbD_zero.symm) h
  | some b =>
    obtain ⟨hb, hset', hclear'⟩ := lowestBit_eq_some hbit
    rcases Nat.lt_trichotomy b (leastSignificantBit 8 w.toNat) with hlt' | heq | hgt
    · exact absurd (hset'.symm.trans (hclear b hlt')) (by decide)
    · rw [heq]
    · exact absurd (hset.symm.trans (hclear' _ hgt)) (by decide)

theorem highestBit_zero : highestBit 0 = none := by decide +kernel

theorem lowestBit_zero : lowestBit 0 = none := by decide +kernel

/-- The contract's search is the search of one word. -/
theorem nextInitializedTickWithinOneWord_eq (bitmap : BitVec 16 → U256) (tick spacing : Int) (lte : Bool) :
    nextInitializedTickWithinOneWord bitmap tick spacing lte =
      ((searchWord (bitmap (searchedWord tick spacing lte)) (searchStart tick spacing lte) lte).1 * spacing,
        (searchWord (bitmap (searchedWord tick spacing lte)) (searchStart tick spacing lte) lte).2) := by
  unfold nextInitializedTickWithinOneWord searchedWord searchWord
  generalize searchStart tick spacing lte = start
  simp only [position_eq]
  have hlow : ∀ n : Nat, (1 <<< n) - 1 + (1 <<< n) = 2 ^ (n + 1) - 1 := fun n => by
    have := Nat.two_pow_pos n
    rw [Nat.one_shiftLeft, pow_succ]
    omega
  have hmask : ∀ n : Nat, BitVec.ofNat 256 (2 ^ n - 1) = lowMask n := fun _ => rfl
  cases lte with
  | true =>
    simp only [if_true, hlow, hmask]
    generalize bitmap _ &&& lowMask _ = masked
    by_cases hzero : masked = 0#256
    · subst hzero
      simp [show highestBit 0#256 = none from highestBit_zero]
    · simp [highestBit_of_ne_zero hzero, hzero]
  | false =>
    simp only [Bool.false_eq_true, if_false, Nat.one_shiftLeft, hmask]
    generalize bitmap _ &&& ~~~lowMask _ = masked
    by_cases hzero : masked = 0#256
    · subst hzero
      simp [show lowestBit 0#256 = none from lowestBit_zero]
    · simp [lowestBit_of_ne_zero hzero, hzero]

theorem tickNext_eq (next : Int) : tickNext next = max MIN_TICK (min MAX_TICK next) := by
  have : MIN_TICK ≤ MAX_TICK := by decide
  unfold tickNext
  split_ifs <;> omega

/-! ### Its bounds -/

section
variable {tick spacing : Int} {zeroForOne : Bool}

theorem searchStart_eq (hs : 0 < spacing) :
    searchStart tick spacing zeroForOne = if zeroForOne then tick / spacing else tick / spacing + 1 := by
  rw [searchStart, compress_eq tick hs]

/-- A found tick is within a word of the tick. -/
theorem found_mul_near {bitmap : U256} (hs : 0 < spacing) {found : Int × Bool}
    (hfound : WordSearch bitmap (searchStart tick spacing zeroForOne) zeroForOne found) :
    tick - 256 * spacing < found.1 * spacing ∧ found.1 * spacing ≤ tick + 256 * spacing := by
  have hword := hfound.word
  rw [searchStart_eq hs] at hword
  have hlo : tick / spacing - 255 ≤ found.1 := by split_ifs at hword <;> omega
  have hhi : found.1 ≤ tick / spacing + 256 := by split_ifs at hword <;> omega
  have hmul : tick / spacing * spacing ≤ tick := Int.ediv_mul_le tick hs.ne'
  have hmul' : tick < (tick / spacing + 1) * spacing := Int.lt_ediv_add_one_mul_self tick hs
  constructor
  · nlinarith [mul_le_mul_of_nonneg_right hlo hs.le]
  · nlinarith [mul_le_mul_of_nonneg_right hhi hs.le]

/-- A tick found from an `int24` tick and spacing is an `i32`. -/
theorem found_mul_bounds {bitmap : U256} (hs : 0 < spacing) (hs24 : spacing < 2 ^ 23) (hlo : -2 ^ 23 ≤ tick)
    (hhi : tick < 2 ^ 23) {found : Int × Bool}
    (hfound : WordSearch bitmap (searchStart tick spacing zeroForOne) zeroForOne found) :
    -2 ^ 31 ≤ found.1 * spacing ∧ found.1 * spacing < 2 ^ 31 := by
  obtain ⟨hnear_lo, hnear_hi⟩ := found_mul_near hs hfound
  by_cases hsmall : spacing < 2 ^ 22
  · constructor
    · omega
    · omega
  · -- a spacing this large leaves three compressed ticks, in the words around zero
    have hword := hfound.word
    rw [searchStart_eq hs] at hword
    have hc_lo : -3 ≤ tick / spacing := by
      rw [Int.le_ediv_iff_mul_le hs]
      omega
    have hc_hi : tick / spacing < 3 := by
      rw [Int.ediv_lt_iff_lt_mul hs]
      omega
    have hf_lo : -256 ≤ found.1 := by split_ifs at hword <;> omega
    have hf_hi : found.1 ≤ 255 := by split_ifs at hword <;> omega
    constructor
    · nlinarith [mul_le_mul_of_nonneg_right hf_lo hs.le]
    · nlinarith [mul_le_mul_of_nonneg_right hf_hi hs.le]

end

/-! ### The boundary -/

/-- The boundary of a step is what the contract's search finds in the one word that it reads, kept in the range of ticks;
    without that word it is missing state. -/
theorem nextStepBoundary_canonical {keccak : Keccak} {address : Address} {layout : V3StorageLayout} {state : StateView}
    {bitmap : BitVec 16 → U256} {tick : Int} (zeroForOne : Bool)
    (hspacing : 0 < layout.tickSpacing ∧ layout.tickSpacing < 2 ^ 23) (htick : -2 ^ 23 ≤ tick ∧ tick < 2 ^ 23)
    (hheld : ∀ word value, state address (v3TickBitmapStorageKeyWithBase keccak word layout.tickBitmapBaseSlot) =
      some value →
      value = bitmap word) :
    let slot := v3TickBitmapStorageKeyWithBase keccak (searchedWord tick layout.tickSpacing zeroForOne)
      layout.tickBitmapBaseSlot
    let next := nextInitializedTickWithinOneWord bitmap tick layout.tickSpacing zeroForOne
    nextStepBoundary keccak address layout state tick zeroForOne =
        (if state address slot = none then .error (.missingState address slot) else .ok ⟨tickNext next.1, next.2⟩) ∧
      nextSlipstreamStepBoundary keccak address layout state tick zeroForOne =
        (if state address slot = none then .error (.missingState address slot) else .ok ⟨tickNext next.1, next.2⟩) ∧
      (∃ compressed, next.1 = compressed * layout.tickSpacing ∧
        WordSearch (bitmap (searchedWord tick layout.tickSpacing zeroForOne))
          (if zeroForOne then tick / layout.tickSpacing else tick / layout.tickSpacing + 1) zeroForOne
            (compressed, next.2)) ∧
      (layout.tickSpacing < 16384 → MIN_TICK - 1 ≤ tick → tick ≤ MAX_TICK → -2 ^ 23 ≤ next.1 ∧ next.1 < 2 ^ 23) := by
  intro slot next
  have hsearch := searchWord_spec (bitmap (searchedWord tick layout.tickSpacing zeroForOne))
    (searchStart tick layout.tickSpacing zeroForOne) zeroForOne
  have hnext : next = _ := nextInitializedTickWithinOneWord_eq bitmap tick layout.tickSpacing zeroForOne
  have hboundary : nextStepBoundary keccak address layout state tick zeroForOne =
      if state address slot = none then .error (.missingState address slot) else .ok ⟨tickNext next.1, next.2⟩ := by
    have hstart : (if zeroForOne = true then tick / layout.tickSpacing else tick / layout.tickSpacing + 1) =
        searchStart tick layout.tickSpacing zeroForOne := (searchStart_eq hspacing.1).symm
    have hslot : v3TickBitmapStorageKeyWithBase keccak
        (BitVec.ofInt 16 (searchStart tick layout.tickSpacing zeroForOne / 256)) layout.tickBitmapBaseSlot = slot := by
      simp only [slot, searchedWord, position_eq]
    rw [nextStepBoundary]
    simp only [hstart, hslot]
    cases hcell : state address slot with
    | none =>
      rw [if_pos rfl, required, StateView.storage, hcell]
      rfl
    | some value =>
      obtain rfl := hheld _ value hcell
      have hfits := found_mul_bounds hspacing.1 hspacing.2 htick.1 htick.2 hsearch
      rw [if_neg (Option.some_ne_none _), required, StateView.storage, hcell, orError, ok_bind, ensure_bind hfits, hnext,
        tickNext_eq]
      rfl
  refine ⟨hboundary, hboundary, ?_, fun hsmall hmin hmax => ?_⟩
  · rw [hnext, ← searchStart_eq hspacing.1]
    exact ⟨_, rfl, hsearch⟩
  · obtain ⟨hlo, hhi⟩ := found_mul_near hspacing.1 hsearch
    rw [hnext]
    unfold MIN_TICK at hmin
    unfold MAX_TICK at hmax
    exact ⟨by simp only; omega, by simp only; omega⟩

/-- A view that holds one word, in which the tick -120 of spacing 60 is initialized. -/
def wordView : StateView := fun _ slot => if slot = bitmapSlot tabulatedKeccak (-1) then some ((1 : U256) <<< 254) else none

theorem wordView_holds (word : BitVec 16) (value : U256)
    (h : wordView 0 (v3TickBitmapStorageKeyWithBase tabulatedKeccak word V3_TICK_BITMAP_BASE_SLOT) = some value) :
    value = if word = -1 then (1 : U256) <<< 254 else 0 := by
  unfold wordView at h
  split_ifs at h with hslot
  rw [if_pos (tabulatedKeccak_distinct.bitmap_inj hslot)]
  exact (Option.some.inj h).symm

/-- Below tick -61 comes -120, and the search above it reads the same word. -/
theorem nextStepBoundary_canonical_negative :
    nextStepBoundary tabulatedKeccak 0 (.uniswap 60) wordView (-61) true = .ok ⟨-120, true⟩ ∧
      nextStepBoundary tabulatedKeccak 0 (.uniswap 60) wordView (-61) false = .ok ⟨-60, false⟩ ∧
      nextStepBoundary tabulatedKeccak 0 (.uniswap 60) wordView 0 true =
        .error (.missingState 0 (bitmapSlot tabulatedKeccak 0)) :=
  ⟨(nextStepBoundary_canonical true (by decide) (by decide) wordView_holds).1.trans (by decide +kernel),
    (nextStepBoundary_canonical false (by decide) (by decide) wordView_holds).1.trans (by decide +kernel),
    (nextStepBoundary_canonical true (by decide) (by decide) wordView_holds).1.trans (by decide +kernel)⟩

end AmmState.Canonical
