import AmmState.Theorems.V3.Bitmap
import AmmState.Theorems.V3.Oracle

/-! A pool that was just initialized is well formed, under any hash whose derived keys do not collide; and one such hash
    that has the chain's own values at a few keys. -/

namespace AmmState.Canonical
open V3

/-! ### A new pool -/

/-- `slot0` of a pool of one observation, unlocked and without a protocol fee. -/
def initializedSlot0 (sqrtPriceX96 : Nat) (tick : Int) : U256 :=
  let w := Packed.set (0 : U256) 0 (BitVec.ofNat 160 sqrtPriceX96)
  let w := Packed.set w 160 (BitVec.ofInt 24 tick)
  let w := Packed.set w 200 (1 : BitVec 16)
  let w := Packed.set w 216 (1 : BitVec 16)
  Packed.set w 240 (1 : BitVec 8)

/-- Storage after `initialize`. -/
def initialized (sqrtPriceX96 : Nat) (tick : Int) (time : BitVec 32) : Storage :=
  let F := Function.update (fun _ => 0) 0 (initializedSlot0 sqrtPriceX96 tick)
  Function.update F 8 (OracleEntry.word ⟨time, 0, 0, true⟩)

section
variable {sqrtPriceX96 : Nat} {tick : Int} {time : BitVec 32}

theorem initialized_slot0 : (initialized sqrtPriceX96 tick time).slot0 = initializedSlot0 sqrtPriceX96 tick := by
  unfold Storage.slot0 initialized
  rw [Function.update_of_ne (by decide), Function.update_self]

theorem initialized_of_ne {x : U256} (h0 : x ≠ 0) (h8 : x ≠ 8) : initialized sqrtPriceX96 tick time x = 0 := by
  unfold initialized
  rw [Function.update_of_ne h8, Function.update_of_ne h0]

theorem initialized_sqrtPrice (hp : sqrtPriceX96 < 2 ^ 160) :
    (initialized sqrtPriceX96 tick time).sqrtPriceX96 = sqrtPriceX96 := by
  rw [Storage.sqrtPriceX96, initialized_slot0, field, initializedSlot0]
  rw [Packed.get_set_of_disjoint (by omega), Packed.get_set_of_disjoint (by omega), Packed.get_set_of_disjoint (by omega),
    Packed.get_set_of_disjoint (by omega), Packed.get_set_self (by omega), BitVec.toNat_ofNat, Nat.mod_eq_of_lt hp]

theorem initialized_tick (ht : MIN_TICK ≤ tick ∧ tick ≤ MAX_TICK) : (initialized sqrtPriceX96 tick time).tick = tick := by
  obtain ⟨hlo, hhi⟩ := ht
  unfold MIN_TICK at hlo
  unfold MAX_TICK at hhi
  rw [Storage.tick, initialized_slot0, signedField, initializedSlot0]
  rw [Packed.get_set_of_disjoint (by omega), Packed.get_set_of_disjoint (by omega), Packed.get_set_of_disjoint (by omega),
    Packed.get_set_self (by omega), BitVec.toInt_ofInt_eq_self (by omega) (by omega) (by omega)]

/-- Every word of a tick is zero in a new pool. -/
theorem initialized_tickInfo {keccak : Keccak} (hk : DistinctKeys keccak) {t : Int} (ht : InRange t) :
    tickInfo keccak (initialized sqrtPriceX96 tick time) t = TickWords.zero := by
  have hcell : ∀ i < 4, initialized sqrtPriceX96 tick time (tickSlot keccak t i) = 0 := fun i hi =>
    initialized_of_ne (hk.tick_ne_fixed (n := 0) ht hi (by decide)) (hk.tick_ne_fixed (n := 8) ht hi (by decide))
  rw [tickInfo, hcell 0 (by decide), hcell 1 (by decide), hcell 2 (by decide), hcell 3 (by decide)]
  rfl

theorem initializedSlot0_high {lo len : Nat} (h : 184 ≤ lo) :
    Packed.get (initializedSlot0 sqrtPriceX96 tick) lo len = Packed.get (initializedSlot0 0 0) lo len := by
  refine BitVec.eq_of_getLsbD_eq fun i hi => ?_
  rw [Packed.getLsbD_get hi, Packed.getLsbD_get hi]
  by_cases hw : lo + i < 256
  · unfold initializedSlot0
    simp only [Packed.getLsbD_set hw, show ¬ (160 ≤ lo + i ∧ lo + i < 160 + 24) by omega,
      show ¬ (0 ≤ lo + i ∧ lo + i < 0 + 160) by omega, if_false]
  · rw [BitVec.getLsbD_of_ge _ _ (by omega), BitVec.getLsbD_of_ge _ _ (by omega)]

theorem word_initialized (time : BitVec 32) :
    (Observation.decode (OracleEntry.word ⟨time, 0, 0, true⟩)).initialized = true := by
  have hget : Packed.get (OracleEntry.word ⟨time, 0, 0, true⟩) 248 1 = 1 := by
    refine BitVec.eq_of_getLsbD_eq fun i hi => ?_
    obtain rfl : i = 0 := by omega
    rw [Packed.getLsbD_get (by omega), OracleEntry.word, Packed.getLsbD_set (by omega), if_pos (by omega)]
    rfl
  show decide ((Packed.get _ 248 1).toNat ≠ 0) = true
  rw [hget]
  rfl

theorem initialized_wellFormed {keccak : Keccak} (hk : DistinctKeys keccak) {pool : Immutables}
    (hfee : pool.fee < 1000000) (hs : 0 < pool.tickSpacing ∧ pool.tickSpacing < 16384)
    (ht : MIN_TICK ≤ tick ∧ tick < MAX_TICK) (hlo : sqrtRatio tick ≤ sqrtPriceX96)
    (hhi : sqrtPriceX96 < sqrtRatio (tick + 1)) :
    WellFormed keccak pool (initialized sqrtPriceX96 tick time) := by
  have hmax : sqrtPriceX96 < MAX_SQRT_RATIO := by
    rw [← sqrtRatio_max]
    exact hhi.trans_le (sqrtRatio_le (by omega) (by omega) le_rfl)
  have hprice : (initialized sqrtPriceX96 tick time).sqrtPriceX96 = sqrtPriceX96 :=
    initialized_sqrtPrice (hmax.trans (by decide))
  have htick : (initialized sqrtPriceX96 tick time).tick = tick := initialized_tick ⟨ht.1, ht.2.le⟩
  have hword : ∀ t, InRange t → initialized sqrtPriceX96 tick time (tickSlot keccak t 0) = 0 := fun t ht =>
    congrArg TickWords.word0 (initialized_tickInfo hk ht)
  have hgross : ∀ t, InRange t → grossAt keccak (initialized sqrtPriceX96 tick time) t = 0 := fun t ht => by
    rw [grossAt, hword t ht]
    decide
  have hnet : ∀ t, InRange t → netAt keccak (initialized sqrtPriceX96 tick time) t = 0 := fun t ht => by
    rw [netAt, hword t ht]
    decide
  have hsum : ∀ t ≤ MAX_TICK, ∑ s ∈ Finset.Icc MIN_TICK t, netAt keccak (initialized sqrtPriceX96 tick time) s = 0 :=
    fun t hle => Finset.sum_eq_zero fun s hmem => by
      obtain ⟨h₁, h₂⟩ := Finset.mem_Icc.mp hmem
      exact hnet s ⟨h₁, h₂.trans hle⟩
  have h4 : initialized sqrtPriceX96 tick time 4 = 0 := initialized_of_ne (by decide) (by decide)
  have hrest : ∀ lo len, 184 ≤ lo → field (initialized sqrtPriceX96 tick time).slot0 lo len =
      field (initializedSlot0 0 0) lo len := fun lo len hlo => by
    rw [initialized_slot0]
    exact congrArg BitVec.toNat (initializedSlot0_high hlo)
  have hindex : (initialized sqrtPriceX96 tick time).observationIndex = 0 :=
    (hrest 184 16 (by omega)).trans (by decide)
  have hcard : (initialized sqrtPriceX96 tick time).observationCardinality = 1 :=
    (hrest 200 16 (by omega)).trans (by decide)
  have hnext : (initialized sqrtPriceX96 tick time).observationCardinalityNext = 1 :=
    (hrest 216 16 (by omega)).trans (by decide)
  refine
    { fee_lt := hfee
      spacing_pos := hs.1
      spacing_lt := hs.2
      unlocked := (hrest 240 8 (by omega)).trans (by decide)
      ticks := ⟨fun c _ _ => ?_, fun t ht h => absurd (hgross t ht) h, fun t ht => ?_,
        fun t ht _ => initialized_tickInfo hk ht⟩
      sums := ⟨hsum _ le_rfl, ?_⟩
      price := ⟨htick.symm.le.trans' ht.1, htick.le.trans_lt ht.2, ?_, ?_⟩
      price_lt := hprice.le.trans_lt hmax
      oracle := ⟨by rw [hindex, hcard]; decide, by rw [hcard, hnext], ?_⟩
      liquidity_lt := by rw [h4]; decide
      net_le := fun t ht => by rw [hnet t ht, hgross t ht]; decide
      gross_le := fun t ht => by rw [hgross t ht]; exact Nat.zero_le _ }
  · have hbit : initialized sqrtPriceX96 tick time (bitmapSlot keccak (BitVec.ofInt 16 (c / 256))) = 0 :=
      initialized_of_ne (hk.bitmap_ne_fixed (n := 0) (by decide)) (hk.bitmap_ne_fixed (n := 8) (by decide))
    rw [bitSet, hbit]
    constructor
    · intro h
      simp at h
    · rintro ⟨hr, h⟩
      exact absurd (hgross _ hr) h
  · rw [hgross t ht, flagAt, show initialized sqrtPriceX96 tick time (tickSlot keccak t 3) = 0 from
      congrArg TickWords.word3 (initialized_tickInfo hk ht)]
    decide
  · rw [h4, htick, hsum tick ht.2.le]
    rfl
  · rw [htick, hprice]
    exact hlo
  · rw [htick, hprice]
    exact hhi.le
  · have hcell : initialized sqrtPriceX96 tick time (observationSlot 0) = OracleEntry.word ⟨time, 0, 0, true⟩ := by
      rw [show observationSlot 0 = 8 from rfl, initialized, Function.update_self]
    rw [hindex, hcell]
    exact word_initialized time

end

/-! ### Keys of the chain -/

/-- `keccak256` of a tick and the slot of `ticks`: the chain's value at four ticks, elsewhere one that meets no other. -/
def tickHash (tick : BitVec 24) : Nat :=
  if tick = 60 then 0x251d9ec284fd981039307083734139a5137ee1b6185374514892855fcbc5bd9d
  else if tick = 120 then 0x29a15b4128bed86920d8d75ce6a7a845aa25ce798f5ce1c8595abd2c96c2672c
  else if tick = 180 then 0xec79235ffe9302935718f9bddc23f2c5c6c950ae49f49d137c786213c3618027
  else if tick = 240 then 0x8f1f8d8603083de2188a488f28ef47d95c6a94bf4065f05fc0994e068c803c59
  else 2 ^ 40 + 4 * tick.toNat

/-- The same for a word and the slot of `tickBitmap`. -/
def wordHash (word : BitVec 16) : Nat :=
  if word = 0 then 0x54cdd369e4e8a8515e52ca72ec816c2101831ad1f18bf44102ed171459c9b4f8
  else if word = -1 then 0x63187d71e139eee983a88d0737447c7451979b3dbb75903c76b5fe430d36588e
  else 2 ^ 30 + word.toNat

def tabulatedKeccak : Keccak := fun key slot =>
  if slot = 5 then BitVec.ofNat 256 (tickHash (key.setWidth 24))
  else if slot = 6 then BitVec.ofNat 256 (wordHash (key.setWidth 16))
  else 0

theorem signExtend_setWidth {n : Nat} (hn : n ≤ 256) (x : BitVec n) : (x.signExtend 256).setWidth n = x := by
  refine BitVec.eq_of_getLsbD_eq fun i hi => ?_
  rw [BitVec.getLsbD_setWidth, BitVec.getLsbD_signExtend]
  simp [hi, show i < 256 by omega]

theorem tabulated_tickSlot (tick : Int) (i : Nat) :
    tickSlot tabulatedKeccak tick i = BitVec.ofNat 256 (tickHash (BitVec.ofInt 24 tick) + i) := by
  rw [tickSlot, v3TickInfoStorageKeyWithBase, v3TickInfoStorageBase, tabulatedKeccak, if_pos (by rfl),
    signExtend_setWidth (by omega), BitVec.ofNat_add]

theorem tabulated_bitmapSlot (word : BitVec 16) : bitmapSlot tabulatedKeccak word = BitVec.ofNat 256 (wordHash word) := by
  rw [bitmapSlot, v3TickBitmapStorageKeyWithBase, tabulatedKeccak, if_neg (by decide), if_pos (by rfl),
    signExtend_setWidth (by omega)]

theorem tickHash_lt (x : BitVec 24) : 2 ^ 40 ≤ tickHash x ∧ tickHash x + 4 < 2 ^ 256 := by
  have := x.isLt
  unfold tickHash
  split_ifs <;> omega

theorem wordHash_lt (x : BitVec 16) : 2 ^ 30 ≤ wordHash x ∧ wordHash x < 2 ^ 256 := by
  have := x.isLt
  unfold wordHash
  split_ifs <;> omega

theorem tickHash_inj {x y : BitVec 24} {i j : Nat} (hi : i < 4) (hj : j < 4) (h : tickHash x + i = tickHash y + j) :
    x = y ∧ i = j := by
  have hx := x.isLt
  have hy := y.isLt
  unfold tickHash at h
  have hnat : x.toNat = y.toNat → x = y := BitVec.eq_of_toNat_eq
  split_ifs at h with h₁ h₂ h₃ h₄ h₅ h₆ h₇ h₈ <;>
    first
    | omega
    | exact ⟨‹x = _›.trans ‹y = _›.symm, by omega⟩
    | exact ⟨hnat (by omega), by omega⟩

theorem wordHash_inj {x y : BitVec 16} (h : wordHash x = wordHash y) : x = y := by
  have hx := x.isLt
  have hy := y.isLt
  have hnat : x.toNat = y.toNat → x = y := BitVec.eq_of_toNat_eq
  unfold wordHash at h
  split_ifs at h <;>
    first
    | omega
    | exact ‹x = _›.trans ‹y = _›.symm
    | exact hnat (by omega)

theorem tickHash_ne_wordHash (x : BitVec 24) (y : BitVec 16) {i : Nat} (hi : i < 4) : tickHash x + i ≠ wordHash y := by
  have hx := x.isLt
  have hy := y.isLt
  unfold tickHash wordHash
  split_ifs <;> omega

/-- Numbers below `2 ^ 256` are told apart as words. -/
theorem ofNat_inj {a b : Nat} (ha : a < 2 ^ 256) (hb : b < 2 ^ 256)
    (h : BitVec.ofNat 256 a = BitVec.ofNat 256 b) : a = b := by
  have := congrArg BitVec.toNat h
  rwa [BitVec.toNat_ofNat, BitVec.toNat_ofNat, Nat.mod_eq_of_lt ha, Nat.mod_eq_of_lt hb] at this

theorem ofInt24_inj {s t : Int} (hs : InRange s) (ht : InRange t) (h : BitVec.ofInt 24 s = BitVec.ofInt 24 t) : s = t := by
  have h₁ : ∀ {t : Int}, InRange t → (BitVec.ofInt 24 t).toInt = t := fun {t} ht => by
    obtain ⟨hlo, hhi⟩ := ht
    unfold MIN_TICK at hlo
    unfold MAX_TICK at hhi
    exact BitVec.toInt_ofInt_eq_self (by omega) (by omega) (by omega)
  rw [← h₁ hs, ← h₁ ht, h]

theorem tabulatedKeccak_distinct : DistinctKeys tabulatedKeccak := by
  refine ⟨fun {s t i j} hs ht hi hj h => ?_, fun {v w} h => ?_, fun {t i w} _ hi h => ?_, fun {t i n} _ hi hn h => ?_,
    fun {w n} hn h => ?_⟩
  · rw [tabulated_tickSlot, tabulated_tickSlot] at h
    have h₁ := tickHash_lt (BitVec.ofInt 24 s)
    have h₂ := tickHash_lt (BitVec.ofInt 24 t)
    obtain ⟨hst, hij⟩ := tickHash_inj hi hj (ofNat_inj (by omega) (by omega) h)
    exact ⟨ofInt24_inj hs ht hst, hij⟩
  · rw [tabulated_bitmapSlot, tabulated_bitmapSlot] at h
    exact wordHash_inj (ofNat_inj (wordHash_lt v).2 (wordHash_lt w).2 h)
  · rw [tabulated_tickSlot, tabulated_bitmapSlot] at h
    have h₁ := tickHash_lt (BitVec.ofInt 24 t)
    exact tickHash_ne_wordHash _ _ hi (ofNat_inj (by omega) (wordHash_lt w).2 h)
  · rw [tabulated_tickSlot] at h
    have h₁ := tickHash_lt (BitVec.ofInt 24 t)
    have := ofNat_inj (by omega) (by omega) h
    omega
  · rw [tabulated_bitmapSlot] at h
    have h₁ := wordHash_lt w
    have := ofNat_inj h₁.2 (by omega) h
    omega

/-- A pool of spacing 60 at tick 90, and a view that holds it in full. -/
def poolAt90 : Storage := initialized (sqrtRatio 90) 90 1000

def viewOf (F : Storage) : StateView := fun _ slot => some (F slot)

/-- A context with every field. -/
def contextAt (time : Nat) : AdapterEventContext where
  chainId := some 1
  blockNumber := some 1
  blockHash := some 1
  parentHash := some 0
  blockTimestamp := some time
  transactionHash := some 0
  transactionIndex := some 0
  logIndex := some 0
  slipstreamFeeEvidence := none

theorem poolAt90_wellFormed : WellFormed tabulatedKeccak ⟨3000, 60⟩ poolAt90 :=
  initialized_wellFormed tabulatedKeccak_distinct (by decide) (by decide) (by decide) le_rfl
    (sqrtRatio_lt_succ (by decide) (by decide))

end AmmState.Canonical
