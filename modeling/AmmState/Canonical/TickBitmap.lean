import AmmState.V3.Slipstream

/-! The bitmap search of the contract (`TickBitmap`, `BitMath`), over exact integers. -/

namespace AmmState.Canonical
open V3

/-! ### Bit scans by bisection -/

/-- The bisection of `mostSignificantBit` from a width of `2 ^ k` bits. -/
def mostSignificantBit : Nat → Nat → Nat
  | 0, _ => 0
  | k + 1, x => if 2 ^ 2 ^ k ≤ x then 2 ^ k + mostSignificantBit k (x >>> 2 ^ k) else mostSignificantBit k x

/-- The bisection of `leastSignificantBit`; the contract counts down from 255. -/
def leastSignificantBit : Nat → Nat → Nat
  | 0, _ => 0
  | k + 1, x =>
    if 0 < x % 2 ^ 2 ^ k then leastSignificantBit k x else 2 ^ k + leastSignificantBit k (x >>> 2 ^ k)

theorem mostSignificantBit_spec (k : Nat) {x : Nat} (hpos : 0 < x) (hlt : x < 2 ^ 2 ^ k) :
    2 ^ mostSignificantBit k x ≤ x ∧ x < 2 ^ (mostSignificantBit k x + 1) := by
  induction k generalizing x with
  | zero =>
    simp only [mostSignificantBit]
    omega
  | succ k ih =>
    rw [pow_succ, pow_mul, pow_two] at hlt
    rw [mostSignificantBit]
    split_ifs with hle
    · have hdiv : x >>> 2 ^ k = x / 2 ^ 2 ^ k := Nat.shiftRight_eq_div_pow _ _
      obtain ⟨hlo, hhi⟩ := ih (x := x >>> 2 ^ k) (hdiv ▸ Nat.div_pos hle (Nat.two_pow_pos _))
        (hdiv ▸ Nat.div_lt_of_lt_mul hlt)
      rw [hdiv] at hlo hhi ⊢
      refine ⟨?_, ?_⟩
      · rw [pow_add, mul_comm]
        exact (Nat.mul_le_mul_right _ hlo).trans (Nat.div_mul_le_self x _)
      · rw [add_assoc, pow_add]
        exact ((Nat.div_lt_iff_lt_mul (Nat.two_pow_pos _)).mp hhi).trans_eq (mul_comm _ _)
    · exact ih hpos (not_le.mp hle)

theorem leastSignificantBit_spec (k : Nat) {x : Nat} (hpos : 0 < x % 2 ^ 2 ^ k) :
    leastSignificantBit k x < 2 ^ k ∧ x.testBit (leastSignificantBit k x) = true ∧
      ∀ i < leastSignificantBit k x, x.testBit i = false := by
  induction k generalizing x with
  | zero =>
    refine ⟨Nat.one_pos, ?_, fun i hi => absurd hi (Nat.not_lt_zero i)⟩
    have : x % 2 = 1 := by
      simp only [pow_zero, pow_one] at hpos
      omega
    rw [leastSignificantBit, Nat.testBit_zero, this]
    rfl
  | succ k ih =>
    rw [leastSignificantBit, pow_succ]
    split_ifs with hlow
    · obtain ⟨hlt, hbit, hclear⟩ := ih hlow
      exact ⟨by omega, hbit, hclear⟩
    · have hzero : x % 2 ^ 2 ^ k = 0 := by omega
      have hhigh : 0 < (x >>> 2 ^ k) % 2 ^ 2 ^ k := by
        rw [Nat.shiftRight_eq_div_pow]
        rw [pow_succ, pow_mul, pow_two, Nat.mod_mul, hzero, zero_add] at hpos
        exact Nat.pos_of_mul_pos_left hpos
      obtain ⟨hlt, hbit, hclear⟩ := ih hhigh
      refine ⟨by omega, ?_, fun i hi => ?_⟩
      · rw [Nat.testBit_shiftRight] at hbit
        exact hbit
      · by_cases hi' : i < 2 ^ k
        · have : (x % 2 ^ 2 ^ k).testBit i = x.testBit i := by
            rw [Nat.testBit_mod_two_pow, decide_eq_true hi', Bool.true_and]
          rw [← this, hzero, Nat.zero_testBit]
        · have := hclear (i - 2 ^ k) (by omega)
          rwa [Nat.testBit_shiftRight, Nat.add_sub_cancel' (not_lt.mp hi')] at this

/-! ### The search -/

/-- The compressed tick: the quotient, rounded towards negative infinity. -/
def compress (tick spacing : Int) : Int :=
  if tick < 0 ∧ tick.tmod spacing ≠ 0 then tick.tdiv spacing - 1 else tick.tdiv spacing

/-- The word and the bit of a compressed tick. -/
def position (compressed : Int) : BitVec 16 × Nat :=
  (BitVec.ofInt 16 (compressed >>> (8 : Nat)), (BitVec.ofInt 8 (compressed.tmod 256)).toNat)

/-- Where the search starts: at the tick itself, or at the next one. -/
def searchStart (tick spacing : Int) (lte : Bool) : Int :=
  if lte then compress tick spacing else compress tick spacing + 1

/-- The one word that the search reads. -/
def searchedWord (tick spacing : Int) (lte : Bool) : BitVec 16 := (position (searchStart tick spacing lte)).1

def nextInitializedTickWithinOneWord (bitmap : BitVec 16 → U256) (tick spacing : Int) (lte : Bool) : Int × Bool :=
  let start := searchStart tick spacing lte
  let (wordPos, bitPos) := position start
  if lte then
    let mask : U256 := BitVec.ofNat 256 ((1 <<< bitPos) - 1 + (1 <<< bitPos))
    let masked := bitmap wordPos &&& mask
    let initialized := decide (masked ≠ 0)
    (if initialized then (start - (bitPos - mostSignificantBit 8 masked.toNat : Nat)) * spacing
      else (start - bitPos) * spacing, initialized)
  else
    let mask : U256 := ~~~BitVec.ofNat 256 ((1 <<< bitPos) - 1)
    let masked := bitmap wordPos &&& mask
    let initialized := decide (masked ≠ 0)
    (if initialized then (start + (leastSignificantBit 8 masked.toNat - bitPos : Nat)) * spacing
      else (start + (255 - bitPos : Nat)) * spacing, initialized)

/-- The step's next tick: `swap` keeps it in the range of ticks. -/
def tickNext (next : Int) : Int :=
  if next < MIN_TICK then MIN_TICK else if MAX_TICK < next then MAX_TICK else next

end AmmState.Canonical
