import AmmState.Canonical.Initialize
import AmmState.Slipstream.Keys

/-! A hash under which the derived keys of a Slipstream pool do not collide, with the chain's own values at a few keys. -/

namespace AmmState.Slipstream
open V3 Canonical

/-- `keccak256` of a tick and the slot of `ticks`: the chain's value at four ticks, elsewhere one that meets no other. -/
def tickHash (tick : BitVec 24) : Nat :=
  if tick = -400 then 0x74fee208cc7f9eb6a74fe52630d08d714e47529b7c0bdba5d9683415408c4745
  else if tick = -200 then 0xf8728eb7960a06836625dcbe7d765f7e3ee019326448a53bd548c83137ec102f
  else if tick = 200 then 0x3342f3943919b6eca1851ee5f59c35336e7e5e165bc32724ba642e82a03ac18d
  else if tick = 400 then 0xb6a7f7b13e376a827d3417b89efba3da2b970571299ff98917ec20e1f5e9743b
  else 2 ^ 40 + 8 * tick.toNat

/-- The same for a word and the slot of `tickBitmap`. -/
def wordHash (word : BitVec 16) : Nat :=
  if word = 0 then 0x7e7fa33969761a458e04f477e039a608702b4f924981d6653935a8319a08ad7b
  else if word = -1 then 0x38a7014c891815c312752673b617180a4abd1a642674354e7719ef6c24c13037
  else 2 ^ 30 + word.toNat

def tabulatedKeccak : Keccak := fun key slot =>
  if slot = 17 then BitVec.ofNat 256 (tickHash (key.setWidth 24))
  else if slot = 18 then BitVec.ofNat 256 (wordHash (key.setWidth 16))
  else 0

theorem tabulated_tickSlot (tick : Int) (i : Nat) :
    tickSlot tabulatedKeccak tick i = BitVec.ofNat 256 (tickHash (BitVec.ofInt 24 tick) + i) := by
  rw [tickSlot, v3TickInfoStorageKeyWithBase, v3TickInfoStorageBase, tabulatedKeccak, if_pos (by rfl),
    signExtend_setWidth (by omega), BitVec.ofNat_add]

theorem tabulated_bitmapSlot (word : BitVec 16) : bitmapSlot tabulatedKeccak word = BitVec.ofNat 256 (wordHash word) := by
  rw [bitmapSlot, v3TickBitmapStorageKeyWithBase, tabulatedKeccak, if_neg (by decide), if_pos (by rfl),
    signExtend_setWidth (by omega)]

theorem tickHash_lt (x : BitVec 24) : 2 ^ 40 ≤ tickHash x ∧ tickHash x + 6 < 2 ^ 256 := by
  have := x.isLt
  unfold tickHash
  split_ifs <;> omega

theorem wordHash_lt (x : BitVec 16) : 2 ^ 30 ≤ wordHash x ∧ wordHash x < 2 ^ 256 := by
  have := x.isLt
  unfold wordHash
  split_ifs <;> omega

theorem tickHash_inj {x y : BitVec 24} {i j : Nat} (hi : i < 6) (hj : j < 6) (h : tickHash x + i = tickHash y + j) :
    x = y ∧ i = j := by
  have hx := x.isLt
  have hy := y.isLt
  unfold tickHash at h
  have hnat : x.toNat = y.toNat → x = y := BitVec.eq_of_toNat_eq
  split_ifs at h with h₁ h₂ h₃ h₄ h₅ h₆ h₇ h₈ <;>
    first
    | omega
    | exact ⟨‹x = _›.trans ‹y = _›.symm, by omega⟩
    | exact ⟨hnat (by omega), by omega⟩

theorem wordHash_inj {x y : BitVec 16} (h : wordHash x = wordHash y) : x = y := by
  have hx := x.isLt
  have hy := y.isLt
  have hnat : x.toNat = y.toNat → x = y := BitVec.eq_of_toNat_eq
  unfold wordHash at h
  split_ifs at h <;>
    first
    | omega
    | exact ‹x = _›.trans ‹y = _›.symm
    | exact hnat (by omega)

theorem tickHash_ne_wordHash (x : BitVec 24) (y : BitVec 16) {i : Nat} (hi : i < 6) : tickHash x + i ≠ wordHash y := by
  have hx := x.isLt
  have hy := y.isLt
  unfold tickHash wordHash
  split_ifs <;> omega

theorem tabulatedKeccak_distinct : DistinctKeys tabulatedKeccak := by
  refine ⟨fun {s t i j} hs ht hi hj h => ?_, fun {v w} h => ?_, fun {t i w} _ hi h => ?_, fun {t i n} _ hi hn h => ?_,
    fun {w n} hn h => ?_⟩
  · rw [tabulated_tickSlot, tabulated_tickSlot] at h
    have h₁ := tickHash_lt (BitVec.ofInt 24 s)
    have h₂ := tickHash_lt (BitVec.ofInt 24 t)
    obtain ⟨hst, hij⟩ := tickHash_inj hi hj (ofNat_inj (by omega) (by omega) h)
    exact ⟨ofInt24_inj hs ht hst, hij⟩
  · rw [tabulated_bitmapSlot, tabulated_bitmapSlot] at h
    exact wordHash_inj (ofNat_inj (wordHash_lt v).2 (wordHash_lt w).2 h)
  · rw [tabulated_tickSlot, tabulated_bitmapSlot] at h
    have h₁ := tickHash_lt (BitVec.ofInt 24 t)
    exact tickHash_ne_wordHash _ _ hi (ofNat_inj (by omega) (wordHash_lt w).2 h)
  · rw [tabulated_tickSlot] at h
    have h₁ := tickHash_lt (BitVec.ofInt 24 t)
    have := ofNat_inj (by omega) (by omega) h
    omega
  · rw [tabulated_bitmapSlot] at h
    have h₁ := wordHash_lt w
    have := ofNat_inj h₁.2 (by omega) h
    omega

end AmmState.Slipstream
