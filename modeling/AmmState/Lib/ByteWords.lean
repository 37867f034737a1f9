import Mathlib.Tactic.Ring
import Mathlib.Tactic.Common

/-! Fixed-width numbers as bytes, least significant byte first; the big-endian form is the reverse. -/

namespace AmmState.ByteWords

/-- The `count` low bytes of a number. -/
def toLeBytes : Nat → Nat → List (BitVec 8)
  | 0, _ => []
  | count + 1, value => BitVec.ofNat 8 value :: toLeBytes count (value / 256)

def fromLeBytes : List (BitVec 8) → Nat
  | [] => 0
  | byte :: rest => byte.toNat + 256 * fromLeBytes rest

def toBeBytes (count value : Nat) : List (BitVec 8) := (toLeBytes count value).reverse

def fromBeBytes (bytes : List (BitVec 8)) : Nat := fromLeBytes bytes.reverse

@[simp] theorem length_toLeBytes (count value : Nat) : (toLeBytes count value).length = count := by
  induction count generalizing value with
  | zero => rfl
  | succ count ih => simp [toLeBytes, ih]

@[simp] theorem length_toBeBytes (count value : Nat) : (toBeBytes count value).length = count := by simp [toBeBytes]

theorem fromLeBytes_toLeBytes (count : Nat) {value : Nat} (h : value < 256 ^ count) :
    fromLeBytes (toLeBytes count value) = value := by
  induction count generalizing value with
  | zero =>
    obtain rfl : value = 0 := by simpa using h
    rfl
  | succ count ih =>
    have hrest : value / 256 < 256 ^ count := Nat.div_lt_of_lt_mul (by rwa [pow_succ, Nat.mul_comm] at h)
    rw [toLeBytes, fromLeBytes, ih hrest, BitVec.toNat_ofNat]
    exact Nat.mod_add_div value 256

theorem fromBeBytes_toBeBytes (count : Nat) {value : Nat} (h : value < 256 ^ count) :
    fromBeBytes (toBeBytes count value) = value := by
  rw [fromBeBytes, toBeBytes, List.reverse_reverse, fromLeBytes_toLeBytes count h]

theorem fromLeBytes_append (low high : List (BitVec 8)) :
    fromLeBytes (low ++ high) = fromLeBytes low + 256 ^ low.length * fromLeBytes high := by
  induction low with
  | nil => simp [fromLeBytes]
  | cons byte low ih =>
    rw [List.cons_append, fromLeBytes, fromLeBytes, ih, List.length_cons]
    ring

/-- Leading zeros do not count. -/
theorem fromBeBytes_drop {bytes : List (BitVec 8)} {count : Nat} (h : ∀ byte ∈ bytes.take count, byte = 0) :
    fromBeBytes (bytes.drop count) = fromBeBytes bytes := by
  induction count generalizing bytes with
  | zero => rw [List.drop_zero]
  | succ count ih =>
    cases bytes with
    | nil => rfl
    | cons byte bytes =>
      obtain rfl : byte = 0 := h byte List.mem_cons_self
      rw [List.drop_succ_cons, ih fun other hother => h other (List.mem_cons_of_mem _ hother)]
      simp [fromBeBytes, fromLeBytes_append, fromLeBytes]

end AmmState.ByteWords
