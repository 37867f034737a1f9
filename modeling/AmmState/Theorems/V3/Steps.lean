import AmmState.Theorems.V3.Liquidity

/-! Step boundaries of a swap: the nearest initialized tick within one bitmap word, or the edge of the word. Nothing that
    holds liquidity lies between a tick and its boundary. -/

namespace AmmState.Canonical
open V3 Checked

/-! ### Highest and lowest bits -/

theorem highestBit_eq_some {w : U256} {b : Nat} (h : highestBit w = some b) :
    b < 256 ∧ w.getLsbD b = true ∧ ∀ i, b < i → i < 256 → w.getLsbD i = false := by
  obtain ⟨hb, as, bs, hl, has⟩ := List.find?_eq_some_iff_append.mp h
  have hmem : ∀ i, i < 256 → i ∈ as ++ b :: bs := fun i hi => by
    rw [← hl, List.mem_reverse, List.mem_range]
    exact hi
  have hsorted : (as ++ b :: bs).Pairwise (· > ·) := by
    rw [← hl, List.pairwise_reverse]
    exact List.pairwise_lt_range
  have hb256 : b < 256 := by
    have : b ∈ (List.range 256).reverse := hl ▸ List.mem_append_right _ List.mem_cons_self
    simpa using this
  refine ⟨hb256, hb, fun i hbi hi => ?_⟩
  rcases List.mem_append.mp (hmem i hi) with hi | hi
  · simpa using has i hi
  · have htail := (List.pairwise_append.mp hsorted).2.1
    rcases List.mem_cons.mp hi with rfl | hi
    · omega
    · have := List.rel_of_pairwise_cons htail hi
      omega

theorem highestBit_eq_none {w : U256} (h : highestBit w = none) (i : Nat) (hi : i < 256) : w.getLsbD i = false := by
  have := List.find?_eq_none.mp h i (by simpa using hi)
  simpa using this

theorem lowestBit_eq_some {w : U256} {b : Nat} (h : lowestBit w = some b) :
    b < 256 ∧ w.getLsbD b = true ∧ ∀ i < b, w.getLsbD i = false := by
  obtain ⟨hb, hmem, hlt⟩ := List.find?_range_eq_some.mp h
  refine ⟨by simpa using hmem, hb, fun i hi => ?_⟩
  simpa using hlt i hi

theorem lowestBit_eq_none {w : U256} (h : lowestBit w = none) (i : Nat) (hi : i < 256) : w.getLsbD i = false := by
  have := List.find?_eq_none.mp h i (by simpa using hi)
  simpa using this

theorem getLsbD_lowMask {n i : Nat} (hi : i < 256) : (lowMask n).getLsbD i = decide (i < n) := by
  rw [lowMask, BitVec.getLsbD_ofNat, Nat.testBit_two_pow_sub_one]
  simp [hi]

/-- A masked word has the bits of the word below the mask. -/
theorem getLsbD_and_lowMask {w : U256} {n i : Nat} (hi : i < 256) :
    (w &&& lowMask n).getLsbD i = (w.getLsbD i && decide (i < n)) := by
  rw [BitVec.getLsbD_and, getLsbD_lowMask hi]

theorem getLsbD_and_not_lowMask {w : U256} {n i : Nat} (hi : i < 256) :
    (w &&& ~~~lowMask n).getLsbD i = (w.getLsbD i && !decide (i < n)) := by
  rw [BitVec.getLsbD_and, BitVec.getLsbD_not, getLsbD_lowMask hi]
  simp [hi]

/-! ### One word -/

/-- What a search of one word finds: the word's next bit in the direction, or its edge. -/
structure WordSearch (bitmap : U256) (search : Int) (zeroForOne : Bool) (found : Int × Bool) : Prop where
  word : found.1 / 256 = search / 256
  down : zeroForOne = true → found.1 ≤ search ∧
    (∀ c, found.1 < c → c ≤ search → bitmap.getLsbD (c % 256).toNat = false) ∧ (found.2 = false → found.1 % 256 = 0)
  up : zeroForOne = false → search ≤ found.1 ∧
    (∀ c, search ≤ c → c < found.1 → bitmap.getLsbD (c % 256).toNat = false) ∧ (found.2 = false → found.1 % 256 = 255)
  bit : bitmap.getLsbD (found.1 % 256).toNat = found.2

theorem searchWord_down (bitmap : U256) (search : Int) : WordSearch bitmap search true (searchWord bitmap search true) := by
  unfold searchWord
  simp only [if_true]
  set position := (search % 256).toNat with hposition
  have hlt : position < 256 := bitPosition_lt search
  cases hbit : highestBit (bitmap &&& lowMask (position + 1)) with
  | none =>
    have hclear : ∀ i, i ≤ position → bitmap.getLsbD i = false := fun i hi => by
      have := highestBit_eq_none hbit i (by omega)
      rw [getLsbD_and_lowMask (by omega)] at this
      simpa [show i < position + 1 by omega] using this
    refine ⟨by simp only; omega, fun _ => ⟨by simp only; omega, fun c h₁ h₂ => ?_, fun _ => by simp only; omega⟩, nofun, ?_⟩
    · simp only at h₁
      exact hclear _ (by omega)
    · exact hclear _ (by simp only; omega)
  | some b =>
    obtain ⟨hb, hset, hrest⟩ := highestBit_eq_some hbit
    rw [getLsbD_and_lowMask hb] at hset
    obtain ⟨hset, hle⟩ : bitmap.getLsbD b = true ∧ b < position + 1 := by simpa using hset
    refine ⟨by simp only; omega, fun _ => ⟨by simp only; omega, fun c h₁ h₂ => ?_, nofun⟩, nofun, ?_⟩
    · simp only at h₁
      have := hrest (c % 256).toNat (by omega) (by omega)
      rw [getLsbD_and_lowMask (by omega)] at this
      simpa [show (c % 256).toNat < position + 1 by omega] using this
    · rw [show ((search - (position - b : Nat)) % 256).toNat = b by omega, hset]

theorem searchWord_up (bitmap : U256) (search : Int) : WordSearch bitmap search false (searchWord bitmap search false) := by
  unfold searchWord
  simp only [Bool.false_eq_true, if_false]
  set position := (search % 256).toNat with hposition
  have hlt : position < 256 := bitPosition_lt search
  cases hbit : lowestBit (bitmap &&& ~~~lowMask position) with
  | none =>
    have hclear : ∀ i, position ≤ i → i < 256 → bitmap.getLsbD i = false := fun i hi hi' => by
      have := lowestBit_eq_none hbit i hi'
      rw [getLsbD_and_not_lowMask hi'] at this
      simpa [show ¬ i < position by omega] using this
    refine ⟨by simp only; omega, nofun, fun _ => ⟨by simp only; omega, fun c h₁ h₂ => ?_, fun _ => by simp only; omega⟩, ?_⟩
    · simp only at h₂
      exact hclear _ (by omega) (by omega)
    · exact hclear _ (by simp only; omega) (by simp only; omega)
  | some b =>
    obtain ⟨hb, hset, hrest⟩ := lowestBit_eq_some hbit
    rw [getLsbD_and_not_lowMask hb] at hset
    obtain ⟨hset, hle⟩ : bitmap.getLsbD b = true ∧ position ≤ b := by simpa using hset
    refine ⟨by simp only; omega, nofun, fun _ => ⟨by simp only; omega, fun c h₁ h₂ => ?_, nofun⟩, ?_⟩
    · simp only at h₂
      have := hrest (c % 256).toNat (by omega)
      rw [getLsbD_and_not_lowMask (by omega)] at this
      simpa [show ¬ (c % 256).toNat < position by omega] using this
    · rw [show ((search + (b - position : Nat)) % 256).toNat = b by omega, hset]

theorem searchWord_spec (bitmap : U256) (search : Int) (zeroForOne : Bool) :
    WordSearch bitmap search zeroForOne (searchWord bitmap search zeroForOne) := by
  cases zeroForOne with
  | true => exact searchWord_down bitmap search
  | false => exact searchWord_up bitmap search

/-! ### Boundaries -/

/-- Where a swap at a tick stops next: a tick in range in its direction, initialized or not, with no liquidity between. -/
structure BoundarySpec (keccak : Keccak) (F : Storage) (tick : Int) (zeroForOne : Bool)
    (boundary : StepBoundary) : Prop where
  inRange : InRange boundary.tick
  initialized : boundary.initialized = true ↔ grossAt keccak F boundary.tick ≠ 0
  down : zeroForOne = true → boundary.tick ≤ tick ∧ ∀ t, boundary.tick < t → t ≤ tick → grossAt keccak F t = 0
  up : zeroForOne = false → tick < boundary.tick ∧ ∀ t, tick < t → t < boundary.tick → grossAt keccak F t = 0

section
variable {keccak : Keccak} {F : Storage} {spacing : Int}

/-- A compressed tick whose bit is clear stands for a tick without liquidity. -/
theorem gross_of_bit (hT : TicksAgree keccak spacing F) {t : Int} (hs : 0 < spacing) (ht : InRange t)
    (h : t % spacing = 0 → bitSet keccak F (t / spacing) = false) : grossAt keccak F t = 0 := by
  by_contra hg
  have ha := hT.aligned t ht hg
  rw [(bit_of_aligned hT hs ht ha).mpr hg] at h
  exact absurd (h ha) (by decide)

/-- A bit of the searched word is the bit of its compressed tick. -/
theorem bitSet_of_word {c search : Int} (h : c / 256 = search / 256) :
    bitSet keccak F c = (F (bitmapSlot keccak (BitVec.ofInt 16 (search / 256)))).getLsbD (c % 256).toNat := by
  rw [bitSet, h]

/-- Boundary of a found compressed tick, clamped to the range of ticks. -/
def boundaryOf (spacing : Int) (found : Int × Bool) : StepBoundary :=
  ⟨max MIN_TICK (min MAX_TICK (found.1 * spacing)), found.2⟩

theorem boundaryOf_down (hT : TicksAgree keccak spacing F) (hs : 0 < spacing) {tick : Int} (ht : InRange tick)
    {found : Int × Bool} (hfound : WordSearch (F (bitmapSlot keccak (BitVec.ofInt 16 (tick / spacing / 256))))
      (tick / spacing) true found) : BoundarySpec keccak F tick true (boundaryOf spacing found) := by
  obtain ⟨hle, hclear, -⟩ := hfound.down rfl
  have hrange := compressed_range hs ht
  have hword := hfound.word
  have hmul : found.1 * spacing ≤ tick := (mul_le_mul_of_nonneg_right hle hs.le).trans (Int.ediv_mul_le tick hs.ne')
  have hlower : found.1 * spacing ≤ (boundaryOf spacing found).tick := by
    obtain ⟨-, hmax⟩ := ht
    simp only [boundaryOf]
    omega
  have hupper : (boundaryOf spacing found).tick ≤ tick := by
    obtain ⟨hmin, -⟩ := ht
    simp only [boundaryOf]
    omega
  have hin : InRange (boundaryOf spacing found).tick := by
    constructor
    · exact le_max_left _ _
    · exact hupper.trans ht.2
  have hbit : ∀ c, found.1 ≤ c → c ≤ tick / spacing → (found.1 < c ∨ found.2 = false) → bitSet keccak F c = false := by
    intro c h₁ h₂ h₃
    rw [bitSet_of_word (show c / 256 = tick / spacing / 256 by omega)]
    rcases eq_or_lt_of_le h₁ with rfl | hlt
    · rw [hfound.bit]
      rcases h₃ with h₃ | h₃
      · omega
      · exact h₃
    · exact hclear c hlt h₂
  refine ⟨hin, ?_, fun _ => ⟨hupper, fun t h₁ h₂ => ?_⟩, nofun⟩
  · constructor
    · intro hinit
      have hset : bitSet keccak F found.1 = true := by
        rw [bitSet_of_word hword, hfound.bit]
        exact hinit
      obtain ⟨hr, hg⟩ := (hT.bit_iff found.1 (by omega) (by omega)).mp hset
      have heq : (boundaryOf spacing found).tick = found.1 * spacing := by
        obtain ⟨hmin, hmax⟩ := hr
        simp only [boundaryOf]
        omega
      rwa [heq]
    · intro hg
      by_contra hinit
      have hinit : found.2 = false := by simpa [boundaryOf] using hinit
      refine hg (gross_of_bit hT hs hin fun ha => hbit _ ?_ ?_ (.inr hinit))
      · exact (Int.le_ediv_iff_mul_le hs).mpr hlower
      · exact Int.ediv_le_ediv hs hupper
  · have htr : InRange t := ⟨hin.1.trans h₁.le, h₂.trans ht.2⟩
    refine gross_of_bit hT hs htr fun ha => ?_
    have hlt : found.1 < t / spacing := by
      refine lt_of_mul_lt_mul_right ?_ hs.le
      rw [ediv_mul_of_aligned ha]
      omega
    exact hbit _ hlt.le (Int.ediv_le_ediv hs h₂) (.inl hlt)

theorem boundaryOf_up (hT : TicksAgree keccak spacing F) (hs : 0 < spacing) {tick : Int} (ht : InRange tick)
    (hlt : tick < MAX_TICK) {found : Int × Bool}
    (hfound : WordSearch (F (bitmapSlot keccak (BitVec.ofInt 16 ((tick / spacing + 1) / 256)))) (tick / spacing + 1) false
      found) : BoundarySpec keccak F tick false (boundaryOf spacing found) := by
  obtain ⟨hle, hclear, -⟩ := hfound.up rfl
  have hrange := compressed_bounds hs ht
  have hword := hfound.word
  have hmul : tick < found.1 * spacing := by
    have h₁ : tick < (tick / spacing + 1) * spacing := Int.lt_ediv_add_one_mul_self tick hs
    exact h₁.trans_le (mul_le_mul_of_nonneg_right hle hs.le)
  have hupper : (boundaryOf spacing found).tick ≤ found.1 * spacing := by
    obtain ⟨hmin, -⟩ := ht
    simp only [boundaryOf]
    omega
  have hlower : tick < (boundaryOf spacing found).tick := by
    simp only [boundaryOf]
    omega
  have hin : InRange (boundaryOf spacing found).tick := by
    refine ⟨le_max_left _ _, max_le (by decide) (min_le_left _ _)⟩
  have hbit : ∀ c, tick / spacing + 1 ≤ c → c ≤ found.1 → (c < found.1 ∨ found.2 = false) → bitSet keccak F c = false := by
    intro c h₁ h₂ h₃
    rw [bitSet_of_word (show c / 256 = (tick / spacing + 1) / 256 by omega)]
    rcases eq_or_lt_of_le h₂ with rfl | hlt
    · rw [hfound.bit]
      rcases h₃ with h₃ | h₃
      · omega
      · exact h₃
    · exact hclear c h₁ hlt
  have hpast : ∀ t, tick < t → t % spacing = 0 → tick / spacing + 1 ≤ t / spacing := by
    intro t h₁ ha
    have : tick / spacing < t / spacing := by
      refine lt_of_mul_lt_mul_right ?_ hs.le
      rw [ediv_mul_of_aligned ha]
      exact (Int.ediv_mul_le tick hs.ne').trans_lt h₁
    omega
  refine ⟨hin, ?_, nofun, fun _ => ⟨hlower, fun t h₁ h₂ => ?_⟩⟩
  · constructor
    · intro hinit
      have hset : bitSet keccak F found.1 = true := by
        rw [bitSet_of_word hword, hfound.bit]
        exact hinit
      obtain ⟨hr, hg⟩ := (hT.bit_iff found.1 (by unfold MIN_TICK at hrange; omega)
        (by unfold MAX_TICK at hrange; omega)).mp hset
      have heq : (boundaryOf spacing found).tick = found.1 * spacing := by
        obtain ⟨hmin, hmax⟩ := hr
        simp only [boundaryOf]
        omega
      rwa [heq]
    · intro hg
      by_contra hinit
      have hinit : found.2 = false := by simpa [boundaryOf] using hinit
      refine hg (gross_of_bit hT hs hin fun ha => hbit _ (hpast _ hlower ha) ?_ (.inr hinit))
      refine le_of_mul_le_mul_right ?_ hs
      rw [ediv_mul_of_aligned ha]
      exact hupper
  · have htr : InRange t := ⟨ht.1.trans h₁.le, h₂.le.trans hin.2⟩
    refine gross_of_bit hT hs htr fun ha => ?_
    have hlt' : t / spacing < found.1 := by
      refine lt_of_mul_lt_mul_right ?_ hs.le
      rw [ediv_mul_of_aligned ha]
      omega
    exact hbit _ (hpast t h₁ ha) hlt'.le (.inl hlt')

/-- The boundary of the replay, read from the bitmap word that it searches. -/
theorem nextStepBoundary_spec {state : StateView} {address : Address} (h : Holds state address F)
    (hT : TicksAgree keccak spacing F) (hs : 0 < spacing) {tick : Int} (ht : InRange tick) {zeroForOne : Bool}
    (hup : zeroForOne = false → tick < MAX_TICK) {boundary : StepBoundary}
    (hok : nextStepBoundary keccak address (.uniswap spacing) state tick zeroForOne = .ok boundary) :
    BoundarySpec keccak F tick zeroForOne boundary := by
  obtain ⟨bitmap, hbitmap, hok⟩ := bind_eq_ok.mp hok
  obtain ⟨_, -, hok⟩ := bind_eq_ok.mp hok
  obtain rfl := pure_eq_ok.mp hok
  obtain rfl := Except.ok.inj ((h.required _).symm.trans hbitmap)
  cases zeroForOne with
  | true => exact boundaryOf_down hT hs ht (searchWord_spec _ _ _)
  | false => exact boundaryOf_up hT hs ht (hup rfl) (searchWord_spec _ _ _)

end

end AmmState.Canonical
