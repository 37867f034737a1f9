import AmmState.Theorems.V3.Cells

/-! The oracle advance of the replay is that of the contract: the same reading of now, the same ring write. -/

namespace AmmState.Canonical
open V3 Checked

/-- An observation with the widths of the contract. -/
def OracleEntry.ofObservation (o : Observation) : OracleEntry :=
  ⟨BitVec.ofNat 32 o.timestamp, BitVec.ofInt 56 o.tickCumulative, BitVec.ofNat 160 o.secondsPerLiquidityCumulativeX128,
    o.initialized⟩

theorem field_lt (raw : U256) (lo len : Nat) : field raw lo len < 2 ^ len := (Packed.get raw lo len).isLt

theorem ofNat_field (raw : U256) (lo len : Nat) : BitVec.ofNat len (field raw lo len) = Packed.get raw lo len := by
  rw [field, BitVec.ofNat_toNat, BitVec.setWidth_eq]

theorem ofInt_signedField (raw : U256) (lo len : Nat) : BitVec.ofInt len (signedField raw lo len) = Packed.get raw lo len :=
  BitVec.ofInt_toInt

/-- Time passes modulo `2 ^ 32`. -/
theorem elapsed_eq {time last : Nat} (ht : time < 2 ^ 32) (hl : last < 2 ^ 32) :
    (BitVec.ofNat 32 time - BitVec.ofNat 32 last).toNat = (time + 2 ^ 32 - last) % 2 ^ 32 := by
  rw [BitVec.toNat_sub, BitVec.toNat_ofNat, BitVec.toNat_ofNat, Nat.mod_eq_of_lt ht, Nat.mod_eq_of_lt hl]
  congr 1
  omega

theorem transform_eq {o : Observation} {time : Nat} {tick : Int} {liquidity : Nat} (ht : time < 2 ^ 32)
    (ho : o.timestamp < 2 ^ 32) (hs : o.secondsPerLiquidityCumulativeX128 < 2 ^ 160) (hl : liquidity < 2 ^ 128) :
    OracleEntry.ofObservation (o.transform time tick liquidity) =
      (OracleEntry.ofObservation o).transform (BitVec.ofNat 32 time) tick liquidity := by
  have hd := elapsed_eq ht ho
  set delta := (time + 2 ^ 32 - o.timestamp) % 2 ^ 32 with hdelta
  have hlt : delta < 2 ^ 32 := Nat.mod_lt _ (by decide)
  have hcum : BitVec.ofInt 56 (wrapSigned 56 (o.tickCumulative + tick * delta)) = BitVec.ofInt 56 o.tickCumulative +
      BitVec.ofInt 56 tick * (BitVec.ofNat 32 time - BitVec.ofNat 32 o.timestamp).setWidth 56 := by
    have hw : (BitVec.ofNat 32 time - BitVec.ofNat 32 o.timestamp).setWidth 56 = BitVec.ofInt 56 (delta : Int) := by
      refine BitVec.eq_of_toNat_eq ?_
      rw [BitVec.toNat_setWidth, hd, BitVec.ofInt_natCast, BitVec.toNat_ofNat]
    rw [hw, wrapSigned, BitVec.ofInt_toInt, BitVec.ofInt_add, BitVec.ofInt_mul]
  have hspl : BitVec.ofNat 160 ((o.secondsPerLiquidityCumulativeX128 +
        delta * 2 ^ 128 / (if liquidity = 0 then 1 else liquidity)) % 2 ^ 160) =
      BitVec.ofNat 160 o.secondsPerLiquidityCumulativeX128 +
        ((BitVec.ofNat 32 time - BitVec.ofNat 32 o.timestamp).setWidth 160 <<< 128) /
          BitVec.ofNat 160 (if 0 < liquidity then liquidity else 1) := by
    have hden : (if 0 < liquidity then liquidity else 1) = if liquidity = 0 then 1 else liquidity := by
      rcases Nat.eq_zero_or_pos liquidity with rfl | hpos
      · rfl
      · rw [if_pos hpos, if_neg hpos.ne']
    have hdlt : (if liquidity = 0 then 1 else liquidity) < 2 ^ 160 := by
      split_ifs
      · decide
      · exact hl.trans (by decide)
    refine BitVec.eq_of_toNat_eq ?_
    rw [hden, BitVec.toNat_ofNat, BitVec.toNat_add, BitVec.toNat_udiv, BitVec.toNat_shiftLeft, BitVec.toNat_setWidth, hd,
      BitVec.toNat_ofNat, BitVec.toNat_ofNat, Nat.shiftLeft_eq, Nat.mod_eq_of_lt hdlt, Nat.mod_eq_of_lt hs, Nat.mod_mod,
      Nat.mod_eq_of_lt (show delta < 2 ^ 160 by omega), Nat.mod_eq_of_lt (show delta * 2 ^ 128 < 2 ^ 160 by omega)]
  unfold Observation.transform OracleEntry.transform OracleEntry.ofObservation
  simp only []
  rw [hcum, hspl]

/-- No time passes: the reading is the stored one. -/
theorem transform_same {o : Observation} (tick : Int) (liquidity : Nat)
    (hs : o.secondsPerLiquidityCumulativeX128 < 2 ^ 160) :
    BitVec.ofInt 56 (o.transform o.timestamp tick liquidity).tickCumulative = BitVec.ofInt 56 o.tickCumulative ∧
      (o.transform o.timestamp tick liquidity).secondsPerLiquidityCumulativeX128 =
        o.secondsPerLiquidityCumulativeX128 := by
  have hd : (o.timestamp + 2 ^ 32 - o.timestamp) % 2 ^ 32 = 0 := by
    rw [Nat.add_sub_cancel_left, Nat.mod_self]
  unfold Observation.transform
  simp only [hd, wrapSigned, BitVec.ofInt_toInt, Nat.zero_mul, Nat.zero_div, Nat.add_zero, Nat.mod_eq_of_lt hs]
  simp

/-- The entry of a stored word. -/
theorem ofObservation_decode (raw : U256) : OracleEntry.ofObservation (Observation.decode raw) =
    ⟨Packed.get raw 0 32, Packed.get raw 32 56, Packed.get raw 88 160, (Observation.decode raw).initialized⟩ := by
  simp only [OracleEntry.ofObservation, Observation.decode, ofNat_field, ofInt_signedField]

/-- The ring writes of an advance. -/
def OracleAdvance.updates (address : Address) (advance : OracleAdvance) : List StateUpdate :=
  advance.write.toList.map fun w => ⟨address, w.1, w.2⟩

theorem decode_encode_initialized {o : Observation} (h : o.initialized = true) :
    (Observation.decode o.encode).initialized = true := by
  have hget : Packed.get o.encode 248 1 = 1 := by
    refine BitVec.eq_of_getLsbD_eq fun i hi => ?_
    obtain rfl : i = 0 := by omega
    rw [Packed.getLsbD_get (by omega), Observation.encode, Packed.getLsbD_set (by omega), if_pos (by omega), h]
    rfl
  simp [Observation.decode, field, hget]

/-! ### An advance over any ring -/

/-- The entry of a word of the ring. -/
def OracleEntry.ofWord (raw : U256) : OracleEntry := .ofObservation (Observation.decode raw)

/-- `observeSingle` of the newest word, with `secondsAgo = 0`. -/
def OracleEntry.observe (last : OracleEntry) (time : BitVec 32) (tick : Int) (liquidity : Nat) : OracleEntry :=
  if last.blockTimestamp = time then last else last.transform time tick liquidity

/-- The outcome of an advance over a ring whose word at the current index is `raw`: what is read, and the write that
    `Oracle.write` makes. -/
structure Advanced (base : U256) (slot0 : Slot0) (raw : U256) (time liquidity : Nat) (advance : OracleAdvance) : Prop where
  tickCumulative : ((OracleEntry.ofWord raw).observe (BitVec.ofNat 32 time) slot0.tick liquidity).tickCumulative =
    BitVec.ofInt 56 advance.now.tickCumulative
  secondsPerLiquidity : ((OracleEntry.ofWord raw).observe (BitVec.ofNat 32 time) slot0.tick
    liquidity).secondsPerLiquidityCumulativeX128 = BitVec.ofNat 160 advance.now.secondsPerLiquidityCumulativeX128
  index_lt : advance.observationIndex < advance.observationCardinality
  cardinality_le : advance.observationCardinality ≤ slot0.observationCardinalityNext
  initialized : ∀ w ∈ advance.write, (Observation.decode w.2).initialized = true
  same : (OracleEntry.ofWord raw).blockTimestamp = BitVec.ofNat 32 time →
    advance.write = none ∧ advance.observationIndex = slot0.observationIndex ∧
      advance.observationCardinality = slot0.observationCardinality
  moved : (OracleEntry.ofWord raw).blockTimestamp ≠ BitVec.ofNat 32 time →
    advance.observationCardinality = (if slot0.observationCardinality < slot0.observationCardinalityNext ∧
      slot0.observationIndex = slot0.observationCardinality - 1 then slot0.observationCardinalityNext
      else slot0.observationCardinality) ∧
    advance.observationIndex = (slot0.observationIndex + 1) % 2 ^ 16 % advance.observationCardinality ∧
    advance.write = some (base + BitVec.ofNat 256 advance.observationIndex,
      ((OracleEntry.ofWord raw).transform (BitVec.ofNat 32 time) slot0.tick liquidity).word)

/-- A ring in use at its current index can be advanced, whatever the family of the pool. -/
theorem advanceOracle_advanced {state : StateView} {address : Address} {surface : SwapStorageSurface} {word raw : U256}
    (hraw : state.storage address (surface.observationsBaseSlot + BitVec.ofNat 256 (Slot0.decode word).observationIndex) =
      some raw) (hindex : (Slot0.decode word).observationIndex < (Slot0.decode word).observationCardinality)
    (hle : (Slot0.decode word).observationCardinality ≤ (Slot0.decode word).observationCardinalityNext)
    (hinit : (Observation.decode raw).initialized = true) {time liquidity : Nat} (ht : time < 2 ^ 32)
    (hl : liquidity < 2 ^ 128) :
    ∃ advance, advanceOracle address surface (Slot0.decode word) liquidity state time = .ok advance ∧
      Advanced surface.observationsBaseSlot (Slot0.decode word) raw time liquidity advance := by
  set slot0 := Slot0.decode word with hslot0
  set current := Observation.decode raw with hcurrent
  have hcard : slot0.observationCardinality < 2 ^ 16 := field_lt _ _ _
  have hts : current.timestamp < 2 ^ 32 := field_lt _ _ _
  have hseconds : current.secondsPerLiquidityCumulativeX128 < 2 ^ 160 := field_lt _ _ _
  have htrans : (OracleEntry.ofWord raw).transform (BitVec.ofNat 32 time) slot0.tick liquidity =
      OracleEntry.ofObservation (current.transform time slot0.tick liquidity) :=
    (transform_eq ht hts hseconds hl).symm
  have hsame : (OracleEntry.ofWord raw).blockTimestamp = BitVec.ofNat 32 time ↔ current.timestamp = time := by
    refine ⟨fun heq => ?_, fun heq => congrArg (BitVec.ofNat 32) heq⟩
    have := congrArg BitVec.toNat heq
    rwa [show (OracleEntry.ofWord raw).blockTimestamp = BitVec.ofNat 32 current.timestamp from rfl, BitVec.toNat_ofNat,
      BitVec.toNat_ofNat, Nat.mod_eq_of_lt hts, Nat.mod_eq_of_lt ht] at this
  set cardinality := if slot0.observationCardinality < slot0.observationCardinalityNext ∧
    slot0.observationIndex = slot0.observationCardinality - 1 then slot0.observationCardinalityNext
    else slot0.observationCardinality with hcardinality
  have hparts : advanceOracle address surface slot0 liquidity state time =
      if current.timestamp = time then .ok ⟨slot0.observationIndex, slot0.observationCardinality, none,
        current.transform time slot0.tick liquidity⟩
      else .ok ⟨(slot0.observationIndex + 1) % cardinality, cardinality,
        some (surface.observationsBaseSlot + BitVec.ofNat 256 ((slot0.observationIndex + 1) % cardinality),
          (current.transform time slot0.tick liquidity).encode), current.transform time slot0.tick liquidity⟩ := by
    unfold advanceOracle
    rw [ensure_bind (show slot0.observationCardinality ≠ 0 by omega), ensure_bind hindex, ensure_bind hle, required, hraw,
      orError, ok_bind]
    exact ensure_bind hinit
  by_cases hnow : current.timestamp = time
  · obtain ⟨hcum, hspl⟩ := transform_same slot0.tick liquidity hseconds
    rw [hnow] at hcum hspl
    have hobs : (OracleEntry.ofWord raw).observe (BitVec.ofNat 32 time) slot0.tick liquidity = OracleEntry.ofWord raw :=
      if_pos (hsame.mpr hnow)
    refine ⟨_, by rw [hparts, if_pos hnow], ?_⟩
    refine ⟨?_, ?_, hindex, hle, fun _ hw => (by cases hw), fun _ => ⟨rfl, rfl, rfl⟩,
      fun hne => absurd (hsame.mpr hnow) hne⟩
    · rw [hobs, hcum]
      rfl
    · rw [hobs, hspl]
      rfl
  · have hobs : (OracleEntry.ofWord raw).observe (BitVec.ofNat 32 time) slot0.tick liquidity =
        OracleEntry.ofObservation (current.transform time slot0.tick liquidity) :=
      (if_neg (mt hsame.mp hnow)).trans htrans
    have hpos : 0 < cardinality ∧ cardinality ≤ slot0.observationCardinalityNext := by
      rw [hcardinality]
      split_ifs <;> omega
    refine ⟨_, by rw [hparts, if_neg hnow], ?_⟩
    refine ⟨by rw [hobs]; rfl, by rw [hobs]; rfl, Nat.mod_lt _ hpos.1, hpos.2, ?_,
      fun heq => absurd (hsame.mp heq) hnow, fun _ => ⟨rfl, ?_, ?_⟩⟩
    · rintro w ⟨⟩
      exact decode_encode_initialized rfl
    · rw [Nat.mod_eq_of_lt (show slot0.observationIndex + 1 < 2 ^ 16 by omega)]
    · rw [htrans]
      rfl

/-- An entry read from a word: only the flag may be read differently. -/
def OracleEntry.Reads (last : OracleEntry) (raw : U256) : Prop :=
  last = { OracleEntry.ofWord raw with initialized := last.initialized }

namespace Advanced
variable {base : U256} {slot0 : Slot0} {raw : U256} {time liquidity : Nat} {advance : OracleAdvance} {last : OracleEntry}

theorem observe (h : Advanced base slot0 raw time liquidity advance) (hlast : last.Reads raw) :
    (last.observe (BitVec.ofNat 32 time) slot0.tick liquidity).tickCumulative =
        BitVec.ofInt 56 advance.now.tickCumulative ∧
      (last.observe (BitVec.ofNat 32 time) slot0.tick liquidity).secondsPerLiquidityCumulativeX128 =
        BitVec.ofNat 160 advance.now.secondsPerLiquidityCumulativeX128 := by
  rw [← h.tickCumulative, ← h.secondsPerLiquidity, hlast]
  unfold OracleEntry.observe
  by_cases hnow : (OracleEntry.ofWord raw).blockTimestamp = BitVec.ofNat 32 time
  · rw [if_pos hnow, if_pos hnow]
    exact ⟨rfl, rfl⟩
  · rw [if_neg hnow, if_neg hnow]
    exact ⟨rfl, rfl⟩

/-- The ring write of the contract is that of the advance. -/
theorem ring (h : Advanced base slot0 raw time liquidity advance) (hlast : last.Reads raw) (address : Address)
    (G : Storage) :
    (let cardinality := if slot0.observationCardinality < slot0.observationCardinalityNext ∧
        slot0.observationIndex = slot0.observationCardinality - 1 then slot0.observationCardinalityNext
        else slot0.observationCardinality
      let index := (slot0.observationIndex + 1) % 2 ^ 16 % cardinality
      if last.blockTimestamp = BitVec.ofNat 32 time then some (G, slot0.observationIndex, slot0.observationCardinality)
      else if cardinality = 0 then none
      else some (Function.update G (base + BitVec.ofNat 256 index)
        (last.transform (BitVec.ofNat 32 time) slot0.tick liquidity).word, index, cardinality)) =
      some (G.applyUpdates (OracleAdvance.updates address advance), advance.observationIndex,
        advance.observationCardinality) := by
  have hpos := h.index_lt
  rw [hlast]
  by_cases hnow : (OracleEntry.ofWord raw).blockTimestamp = BitVec.ofNat 32 time
  · obtain ⟨hwrite, hindex, hcard⟩ := h.same hnow
    simp only [if_pos hnow, OracleAdvance.updates, hwrite, hindex, hcard, Option.toList_none, List.map_nil,
      Storage.applyUpdates_nil]
  · obtain ⟨hcard, hindex, hwrite⟩ := h.moved hnow
    simp only [if_neg hnow, ← hcard, ← hindex, OracleAdvance.updates, hwrite, Option.toList_some, List.map_cons,
      List.map_nil, Storage.applyUpdates_cons, Storage.applyUpdates_nil]
    rw [if_neg (by omega)]
    rfl

/-- Where nothing is written, nothing moves. -/
theorem unmoved (h : Advanced base slot0 raw time liquidity advance) (hwrite : advance.write = none) :
    advance.observationIndex = slot0.observationIndex ∧
      advance.observationCardinality = slot0.observationCardinality := by
  by_cases hnow : (OracleEntry.ofWord raw).blockTimestamp = BitVec.ofNat 32 time
  · exact (h.same hnow).2
  · obtain ⟨-, -, hsome⟩ := h.moved hnow
    exact absurd (hwrite.symm.trans hsome) nofun

/-- What is written goes to the index that is recorded. -/
theorem write_slot (h : Advanced base slot0 raw time liquidity advance) :
    ∀ w ∈ advance.write, w.1 = base + BitVec.ofNat 256 advance.observationIndex := by
  intro w hw
  by_cases hnow : (OracleEntry.ofWord raw).blockTimestamp = BitVec.ofNat 32 time
  · exact absurd ((h.same hnow).1.symm.trans hw) nofun
  · obtain ⟨-, -, hsome⟩ := h.moved hnow
    obtain rfl := Option.some.inj (hsome.symm.trans hw)
    rfl

end Advanced

/-! ### The canonical ring -/

/-- What an advance has to do with the contract: the reading of now, the recorded index and cardinality, and the cell. -/
structure AdvanceSpec (F : Storage) (time liquidity : Nat) (advance : OracleAdvance) : Prop where
  tickCumulative : (observeSingle F (BitVec.ofNat 32 time) F.tick F.observationIndex liquidity).tickCumulative =
    BitVec.ofInt 56 advance.now.tickCumulative
  secondsPerLiquidity : (observeSingle F (BitVec.ofNat 32 time) F.tick F.observationIndex
    liquidity).secondsPerLiquidityCumulativeX128 = BitVec.ofNat 160 advance.now.secondsPerLiquidityCumulativeX128
  index_lt : advance.observationIndex < advance.observationCardinality
  cardinality_le : advance.observationCardinality ≤ F.observationCardinalityNext
  write : ∀ w ∈ advance.write, w.1 = observationSlot advance.observationIndex ∧ (Observation.decode w.2).initialized = true
  same : advance.write = none →
    advance.observationIndex = F.observationIndex ∧ advance.observationCardinality = F.observationCardinality
  oracleWrite : ∀ (address : Address) (G : Storage),
    G (observationSlot F.observationIndex) = F (observationSlot F.observationIndex) →
    oracleWrite G (BitVec.ofNat 32 time) F.tick F.observationIndex liquidity F.observationCardinality
      F.observationCardinalityNext =
        some (G.applyUpdates (OracleAdvance.updates address advance), advance.observationIndex,
          advance.observationCardinality)

theorem readObservation_reads {F : Storage} {index : Nat} {raw : U256} (h : F (observationSlot index) = raw) :
    (readObservation F index).Reads raw := by
  rw [OracleEntry.Reads, OracleEntry.ofWord, ofObservation_decode, readObservation, h]

theorem advanceOracle_spec {state : StateView} {address : Address} {F : Storage} (h : Holds state address F)
    (hO : OracleReady F) {time liquidity : Nat} (ht : time < 2 ^ 32) (hl : liquidity < 2 ^ 128) :
    ∃ advance, advanceOracle address UNISWAP_V3_SURFACE (Slot0.decode F.slot0) liquidity state time = .ok advance ∧
      AdvanceSpec F time liquidity advance := by
  have hraw : state.storage address (UNISWAP_V3_SURFACE.observationsBaseSlot +
      BitVec.ofNat 256 (Slot0.decode F.slot0).observationIndex) = some (F (observationSlot F.observationIndex)) := h _
  obtain ⟨advance, hok, hadv⟩ := advanceOracle_advanced hraw hO.index_lt hO.cardinality_le hO.initialized ht hl
  obtain ⟨hcum, hspl⟩ := hadv.observe (readObservation_reads (rfl : F _ = _))
  exact ⟨advance, hok, hcum, hspl, hadv.index_lt, hadv.cardinality_le,
    fun w hw => ⟨hadv.write_slot w hw, hadv.initialized w hw⟩, hadv.unmoved,
    fun address G hG => hadv.ring (readObservation_reads hG) address G⟩

end AmmState.Canonical
