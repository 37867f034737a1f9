import AmmState.Canonical.Accounting
import AmmState.Canonical.Initialize
import AmmState.Theorems.V3.Batches
import AmmState.Theorems.V3.FinalStep
import AmmState.Theorems.V3.Ring

/-! The accounting derivations against the contract: exactly when they take an event that the contract could emit, and that
    they then write what it writes. -/

namespace AmmState.Canonical
open V3 Checked

/-! ### Parents -/

/-- A pool between two calls: unlocked, with nothing in the observations that are not reserved. -/
structure InUse (F : Storage) : Prop where
  unlocked : F.unlocked = true
  liquidity_lt : (F 4).toNat < 2 ^ 128
  cardinality_ne : F.observationCardinality ≠ 0
  cardinality_le : F.observationCardinality ≤ F.observationCardinalityNext
  unreserved : ∀ i, F.observationCardinalityNext ≤ i → i < 2 ^ 16 → F (observationSlot i) = 0

/-- Storage that a canonical pool can have before an event: in use, or not yet initialized. -/
def IsParent (F : Storage) : Prop := InUse F ∨ ∀ slot, F slot = 0

theorem IsParent.inUse {F : Storage} (h : IsParent F) (hunlocked : F.unlocked = true) : InUse F := by
  rcases h with h | h
  · exact h
  · have hslot0 : F.slot0 = 0 := h 0
    rw [Storage.unlocked, hslot0] at hunlocked
    exact absurd hunlocked (by decide)

theorem IsParent.liquidity_lt {F : Storage} (h : IsParent F) : (F 4).toNat < 2 ^ 128 := by
  rcases h with h | h
  · exact h.liquidity_lt
  · rw [h 4]
    decide

/-! ### What the contract emits -/

section Contract
variable {pool : Immutables} {F F' : Storage} {event : AccountingEvent}

theorem flash_event {amount0 amount1 before0 after0 before1 after1 : U256}
    (h : flash pool F amount0 amount1 before0 after0 before1 after1 = some (F', some event)) : ∃ e, event = .flash e := by
  simp only [flash, Option.bind_eq_bind, Option.bind_eq_some_iff, Option.guard_eq_some', Option.pure_def, Option.some.injEq,
    Prod.mk.injEq, exists_const] at h
  obtain ⟨-, _, -, _, -, -, -, _, -, _, -, -, heq⟩ := h
  exact ⟨_, heq.symm⟩

theorem setFeeProtocol_event {p0 p1 : BitVec 8} (h : setFeeProtocol F p0 p1 = some (F', some event)) :
    ∃ e, event = .setFeeProtocol e := by
  simp only [setFeeProtocol, Option.bind_eq_bind, Option.bind_eq_some_iff, Option.pure_def, Option.some.injEq,
    Prod.mk.injEq] at h
  obtain ⟨_, -, -, heq⟩ := h
  exact ⟨_, heq.symm⟩

theorem collectProtocol_event {r0 r1 : BitVec 128} (h : collectProtocol F r0 r1 = some (F', some event)) :
    ∃ e, event = .collectProtocol e := by
  obtain ⟨-, heq⟩ := Prod.mk.inj (Option.some.inj h)
  exact ⟨_, (Option.some.inj heq).symm⟩

theorem increaseObservationCardinalityNext_event {next : BitVec 16}
    (h : increaseObservationCardinalityNext F next = some (F', some event)) :
    ∃ e, event = .increaseObservationCardinalityNext e := by
  simp only [increaseObservationCardinalityNext, Option.bind_eq_bind, Option.bind_eq_some_iff, Option.pure_def,
    Option.some.injEq, Prod.mk.injEq, Option.ite_none_right_eq_some] at h
  obtain ⟨_, -, -, -, heq⟩ := h
  exact ⟨_, heq.symm⟩

/-- Each kind of event comes from the function of its name. -/
theorem emits_iff : Emits pool F event F' ↔ F.unlocked = true ∧ (match event with
    | .flash e => ∃ amount0 amount1 before0 after0 before1 after1,
        flash pool F amount0 amount1 before0 after0 before1 after1 = some (F', some (.flash e))
    | .setFeeProtocol e => ∃ p0 p1, setFeeProtocol F p0 p1 = some (F', some (.setFeeProtocol e))
    | .collectProtocol e => ∃ r0 r1, collectProtocol F r0 r1 = some (F', some (.collectProtocol e))
    | .increaseObservationCardinalityNext e => ∃ next,
        increaseObservationCardinalityNext F next = some (F', some (.increaseObservationCardinalityNext e))) := by
  constructor
  · rintro ⟨call, h⟩
    unfold accountingCall at h
    obtain ⟨_, hunlocked, h⟩ := Option.bind_eq_some_iff.mp h
    refine ⟨(Option.guard_eq_some' _).mp hunlocked, ?_⟩
    cases call with
    | flash =>
      obtain ⟨e, rfl⟩ := flash_event h
      exact ⟨_, _, _, _, _, _, h⟩
    | setFeeProtocol =>
      obtain ⟨e, rfl⟩ := setFeeProtocol_event h
      exact ⟨_, _, h⟩
    | collectProtocol =>
      obtain ⟨e, rfl⟩ := collectProtocol_event h
      exact ⟨_, _, h⟩
    | increaseObservationCardinalityNext =>
      obtain ⟨e, rfl⟩ := increaseObservationCardinalityNext_event h
      exact ⟨_, h⟩
  · rintro ⟨hunlocked, h⟩
    unfold Emits accountingCall
    simp only [guard, if_pos hunlocked]
    cases event with
    | flash =>
      obtain ⟨amount0, amount1, before0, after0, before1, after1, h⟩ := h
      exact ⟨.flash amount0 amount1 before0 after0 before1 after1, h⟩
    | setFeeProtocol =>
      obtain ⟨p0, p1, h⟩ := h
      exact ⟨.setFeeProtocol p0 p1, h⟩
    | collectProtocol =>
      obtain ⟨r0, r1, h⟩ := h
      exact ⟨.collectProtocol r0 r1, h⟩
    | increaseObservationCardinalityNext =>
      obtain ⟨next, h⟩ := h
      exact ⟨.increaseObservationCardinalityNext next, h⟩

end Contract

/-! ### What the derivations take -/

section Derive
variable {address : Address} {spacing : Int} {state : StateView} {context : AdapterEventContext} {F : Storage}
  {us : List StateUpdate}

theorem validateCanonicalAccounting_eq (hspacing : 0 < spacing) {t : Nat} (hcontext : validateContext context = .ok t) :
    validateCanonicalAccounting (.uniswap spacing) context = .ok t := by
  have hlayout : V3StorageLayout.uniswap spacing = .uniswap (V3StorageLayout.uniswap spacing).tickSpacing := rfl
  have hpositive : 0 < (V3StorageLayout.uniswap spacing).tickSpacing := hspacing
  rw [validateCanonicalAccounting, hcontext, ok_bind, ensure_bind hlayout, ensure_bind hpositive]
  rfl

theorem required_eq {slot value : U256} (h : state.storage address slot = some value) :
    required state address slot = .ok value := by
  rw [required, h]
  rfl

theorem deriveSetFeeProtocol_iff (hspacing : 0 < spacing) {t : Nat} (hcontext : validateContext context = .ok t)
    (h0 : state.storage address 0 = some (F 0)) (event : DecodedFeeProtocol) :
    deriveUniswapV3SetFeeProtocol address (.uniswap spacing) state event context = .ok us ↔
      (canonicalFeeProtocol event.new0 ∧ canonicalFeeProtocol event.new1) ∧
      Packed.get (F 0) 232 8 = event.old0 ||| event.old1 <<< 4 ∧
      [⟨address, 0, Packed.set (F 0) 232 (event.new0 ||| event.new1 <<< 4)⟩] = us := by
  have hslot0 : required state address (V3StorageLayout.uniswap spacing).slot0Slot = .ok (F 0) := required_eq h0
  simp only [deriveUniswapV3SetFeeProtocol, validateCanonicalAccounting_eq hspacing hcontext, ok_bind, hslot0, bind_eq_ok,
    ensure_eq_ok, pure_eq_ok, exists_const]
  rfl

theorem deriveCollectProtocol_iff (hspacing : 0 < spacing) {t : Nat} (hcontext : validateContext context = .ok t)
    (h3 : state.storage address 3 = some (F 3)) (event : DecodedCollectProtocol) :
    deriveUniswapV3CollectProtocol address (.uniswap spacing) state event context = .ok us ↔
      event.amount0 ≤ field (F 3) 0 128 ∧ event.amount1 ≤ field (F 3) 128 128 ∧
      [⟨address, 3, Packed.set (Packed.set (0 : U256) 0 (BitVec.ofNat 128 (field (F 3) 0 128 - event.amount0))) 128
        (BitVec.ofNat 128 (field (F 3) 128 128 - event.amount1))⟩] = us := by
  have hslot3 : required state address UNISWAP_V3_SURFACE.protocolFeesSlot = .ok (F 3) := required_eq h3
  have h0 : field (F 3) 0 128 < 2 ^ 128 := BitVec.isLt _
  have h1 : field (F 3) 128 128 < 2 ^ 128 := BitVec.isLt _
  simp only [deriveUniswapV3CollectProtocol, validateCanonicalAccounting_eq hspacing hcontext, ok_bind, hslot3, bind_eq_ok,
    ensure_eq_ok, pure_eq_ok, exists_const, checkedSub]
  constructor
  · rintro ⟨-, _, ⟨hle0, rfl⟩, _, ⟨hle1, rfl⟩, heq⟩
    exact ⟨hle0, hle1, heq⟩
  · rintro ⟨hle0, hle1, heq⟩
    refine ⟨⟨?_, ?_⟩, _, ⟨hle0, rfl⟩, _, ⟨hle1, rfl⟩, heq⟩
    · unfold WORD_128_MASK
      omega
    · unfold WORD_128_MASK
      omega

theorem deriveObservationGrowth_iff (hspacing : 0 < spacing) {t : Nat} (hcontext : validateContext context = .ok t)
    (h0 : state.storage address 0 = some (F 0)) (event : DecodedObservationGrowth) :
    deriveUniswapV3ObservationGrowth address (.uniswap spacing) state event context = .ok us ↔
      event.old.toNat < event.new.toNat ∧ F.observationCardinality ≠ 0 ∧
      F.observationCardinalityNext = event.old.toNat ∧
      growthWrites address event.old.toNat event.new.toNat ++ [⟨address, 0, Packed.set (F 0) 216 event.new⟩] = us := by
  have hslot0 : required state address (V3StorageLayout.uniswap spacing).slot0Slot = .ok (F 0) := required_eq h0
  simp only [deriveUniswapV3ObservationGrowth, validateCanonicalAccounting_eq hspacing hcontext,
    ok_bind, hslot0, bind_eq_ok,
    ensure_eq_ok, pure_eq_ok, exists_const]
  rfl

/-- Both tokens of a flash, and the writes. -/
theorem deriveFlash_iff (hspacing : 0 < spacing) {t : Nat} (hcontext : validateContext context = .ok t)
    (hcells : ∀ slot ∈ [0, 1, 2, 3, 4], state.storage address slot = some (F slot)) (hliquidity : (F 4).toNat < 2 ^ 128)
    {fee : Nat} (hfee : fee < FEE_DENOMINATOR) (event : DecodedFlash) :
    deriveUniswapV3Flash address (.uniswap spacing) state fee event context = .ok us ↔
      0 < (F 4).toNat ∧
      (∃ fee0, mulDivRoundUp event.amount0 fee FEE_DENOMINATOR = .ok fee0 ∧ fee0 ≤ event.paid0) ∧
      (∃ fee1, mulDivRoundUp event.amount1 fee FEE_DENOMINATOR = .ok fee1 ∧ fee1 ≤ event.paid1) ∧
      ∃ growth0 fees0, flashToken event.paid0 (F.feeProtocol % 16) (F 4).toNat 0 (F 1) (F 3) = .ok (growth0, fees0) ∧
        ∃ growth1 fees1, flashToken event.paid1 (F.feeProtocol / 16) (F 4).toNat 128 (F 2) fees0 = .ok (growth1, fees1) ∧
        [⟨address, 1, growth0⟩, ⟨address, 2, growth1⟩, ⟨address, 3, fees1⟩] = us := by
  have hslot0 : required state address (V3StorageLayout.uniswap spacing).slot0Slot = .ok (F 0) :=
    required_eq (hcells 0 (by simp))
  have hslot4 : required state address (V3StorageLayout.uniswap spacing).liquiditySlot = .ok (F 4) :=
    required_eq (hcells 4 (by simp))
  have hslot1 : required state address UNISWAP_V3_SURFACE.feeGrowth0Slot = .ok (F 1) := required_eq (hcells 1 (by simp))
  have hslot2 : required state address UNISWAP_V3_SURFACE.feeGrowth1Slot = .ok (F 2) := required_eq (hcells 2 (by simp))
  have hslot3 : required state address UNISWAP_V3_SURFACE.protocolFeesSlot = .ok (F 3) := required_eq (hcells 3 (by simp))
  have hprotocol : (Slot0.decode (F 0)).feeProtocol = F.feeProtocol := rfl
  have hpositive : F 4 ≠ 0 ↔ 0 < (F 4).toNat := by
    rw [Nat.pos_iff_ne_zero, Ne, Ne, ← BitVec.toNat_inj]
    rfl
  have hle : (F 4).toNat ≤ WORD_128_MASK := by
    unfold WORD_128_MASK
    omega
  simp only [deriveUniswapV3Flash, validateCanonicalAccounting_eq hspacing hcontext, ok_bind, hslot0,
    hslot1, hslot2, hslot3, hslot4, hprotocol, bind_eq_ok, ensure_eq_ok, pure_eq_ok, exists_const, hpositive, hfee, hle,
    true_and, Prod.exists]
  constructor
  · rintro ⟨hpos, fee0, hfee0, fee1, hfee1, hle0, hle1, growth0, fees0, h0, growth1, fees1, h1, heq⟩
    exact ⟨hpos, ⟨fee0, hfee0, hle0⟩, ⟨fee1, hfee1, hle1⟩, growth0, fees0, h0, growth1, fees1, h1, heq⟩
  · rintro ⟨hpos, ⟨fee0, hfee0, hle0⟩, ⟨fee1, hfee1, hle1⟩, growth0, fees0, h0, growth1, fees1, h1, heq⟩
    exact ⟨hpos, fee0, hfee0, fee1, hfee1, hle0, hle1, growth0, fees0, h0, growth1, fees1, h1, heq⟩

end Derive

/-! ### Flash -/

section Flash
variable {pool : Immutables} {F F' : Storage}

/-- One token's payment is the contract's. -/
theorem flashPay_eq_some {growthSlot : U256} {lo feeProtocol liquidity paid : Nat} (hslot : growthSlot ≠ 3) :
    flashPay growthSlot lo feeProtocol liquidity paid F = some F' ↔
      ∃ growth fees, flashToken paid feeProtocol liquidity lo (F growthSlot) (F 3) = .ok (growth, fees) ∧
        F' = Function.update (Function.update F 3 fees) growthSlot growth := by
  unfold flashPay flashToken
  by_cases hpaid : paid = 0
  · rw [if_neg (by omega), if_pos hpaid]
    constructor
    · intro h
      obtain rfl := Option.some.inj h
      exact ⟨_, _, rfl, by simp⟩
    · rintro ⟨growth, fees, h, rfl⟩
      cases pure_eq_ok.mp h
      simp
  · have hle : (if feeProtocol = 0 then 0 else paid / feeProtocol) ≤ paid := by
      split_ifs
      · exact Nat.zero_le _
      · exact Nat.div_le_self _ _
    rw [if_pos (by omega), if_neg hpaid]
    set share := if feeProtocol = 0 then 0 else paid / feeProtocol with hshare
    have hpositive : 0 < BitVec.ofNat 128 share ↔ BitVec.ofNat 128 share ≠ 0 := by bv_omega
    set fees := if BitVec.ofNat 128 share = 0 then F 3
      else Packed.set (F 3) lo (Packed.get (F 3) lo 128 + BitVec.ofNat 128 share) with hfees
    have hpaidFees : (if 0 < BitVec.ofNat 128 share
        then Function.update F 3 (Packed.set (F 3) lo (Packed.get (F 3) lo 128 + BitVec.ofNat 128 share)) else F) =
        Function.update F 3 fees := by
      rw [hfees]
      by_cases hzero : BitVec.ofNat 128 share = 0
      · rw [if_neg (mt hpositive.mp (not_not.mpr hzero)), if_pos hzero, Function.update_eq_self]
      · rw [if_pos (hpositive.mpr hzero), if_neg hzero]
    simp only [hpaidFees, Option.bind_eq_bind, Option.bind_eq_some_iff, bind_eq_ok, pure_eq_ok, Option.pure_def,
      Option.some.injEq, checkedSub, ensure_bind hle, mulDiv_eq_ok, Prod.mk.injEq, Function.update_of_ne hslot]
    constructor
    · rintro ⟨growth, hgrowth, rfl⟩
      exact ⟨_, _, ⟨_, rfl, growth, hgrowth, rfl, rfl⟩, rfl⟩
    · rintro ⟨_, _, ⟨_, rfl, growth, hgrowth, rfl, rfl⟩, rfl⟩
      exact ⟨growth, hgrowth, rfl⟩

/-- The amounts of a decoded event are words. -/
structure FlashWords (event : DecodedFlash) : Prop where
  amount0 : event.amount0 < 2 ^ 256
  amount1 : event.amount1 < 2 ^ 256
  paid0 : event.paid0 < 2 ^ 256
  paid1 : event.paid1 < 2 ^ 256

/-- The balances are free: any payment that covers the fees can be emitted. -/
theorem flash_emits_iff (hunlocked : F.unlocked = true) {event : DecodedFlash} (hwords : FlashWords event) :
    Emits pool F (.flash event) F' ↔ 0 < F.liquidity ∧
      (∃ fee0, mulDivRoundingUp event.amount0 pool.fee 1000000 = some fee0 ∧ fee0 ≤ event.paid0) ∧
      (∃ fee1, mulDivRoundingUp event.amount1 pool.fee 1000000 = some fee1 ∧ fee1 ≤ event.paid1) ∧
      ∃ G, flashPay 1 0 (F.feeProtocol % 16) F.liquidity event.paid0 F = some G ∧
        flashPay 2 128 (F.feeProtocol / 16) F.liquidity event.paid1 G = some F' := by
  rw [emits_iff, and_iff_right hunlocked]
  constructor
  · rintro ⟨amount0, amount1, before0, after0, before1, after1, h⟩
    simp only [flash, Option.bind_eq_bind, Option.bind_eq_some_iff, Option.guard_eq_some', Option.pure_def,
      Option.some.injEq, Prod.mk.injEq, exists_const] at h
    obtain ⟨hpos, fee0, hfee0, fee1, hfee1, hle0, hle1, G, hG, H, hH, rfl, heq⟩ := h
    cases heq
    exact ⟨hpos, ⟨fee0, hfee0, Nat.le_sub_of_add_le' hle0⟩, ⟨fee1, hfee1, Nat.le_sub_of_add_le' hle1⟩, G, hG, hH⟩
  · rintro ⟨hpos, ⟨fee0, hfee0, hle0⟩, ⟨fee1, hfee1, hle1⟩, G, hG, hH⟩
    have hword : ∀ {n : Nat}, n < 2 ^ 256 → (BitVec.ofNat 256 n).toNat = n := fun hn => by
      rw [BitVec.toNat_ofNat, Nat.mod_eq_of_lt hn]
    refine ⟨BitVec.ofNat 256 event.amount0, BitVec.ofNat 256 event.amount1, 0, BitVec.ofNat 256 event.paid0, 0,
      BitVec.ofNat 256 event.paid1, ?_⟩
    simp only [flash, hword hwords.amount0, hword hwords.amount1, hword hwords.paid0, hword hwords.paid1,
      show BitVec.toNat (0 : U256) = 0 from rfl, Nat.zero_add, Nat.sub_zero, Option.bind_eq_bind, Option.bind_eq_some_iff,
      Option.guard_eq_some', Option.pure_def, exists_const]
    exact ⟨hpos, fee0, hfee0, fee1, hfee1, hle0, hle1, G, hG, F', hH, rfl⟩

/-- The derivation of a flash takes what the contract can emit, and writes what it leaves. -/
theorem flash_derived_iff {address : Address} {spacing : Int} {state : StateView} {context : AdapterEventContext}
    (hspacing : 0 < spacing) {t : Nat} (hcontext : validateContext context = .ok t)
    (hcells : ∀ slot ∈ [0, 1, 2, 3, 4], state.storage address slot = some (F slot)) (hfee : pool.fee < 1000000)
    (hF : InUse F) {event : DecodedFlash} (hwords : FlashWords event) :
    (∃ us, deriveUniswapV3Flash address (.uniswap spacing) state pool.fee event context = .ok us ∧ F.applyUpdates us = F') ↔
      Emits pool F (.flash event) F' := by
  have hliquidity : F.liquidity = (F 4).toNat := by
    rw [Storage.liquidity, Packed.get, BitVec.extractLsb'_toNat, Nat.shiftRight_zero, Nat.mod_eq_of_lt hF.liquidity_lt]
  rw [flash_emits_iff hF.unlocked hwords, hliquidity]
  simp only [deriveFlash_iff hspacing hcontext hcells hF.liquidity_lt hfee, FEE_DENOMINATOR, mulDivRoundUp_eq_ok,
    flashPay_eq_some (show (1 : U256) ≠ 3 by decide), flashPay_eq_some (show (2 : U256) ≠ 3 by decide)]
  have hstored : ∀ growth0 fees0 growth1 fees1,
      Function.update (Function.update (Function.update (Function.update F 3 fees0) 1 growth0) 3 fees1) 2 growth1 =
        F.applyUpdates [⟨address, 1, growth0⟩, ⟨address, 2, growth1⟩, ⟨address, 3, fees1⟩] := by
    intro growth0 fees0 growth1 fees1
    simp only [Storage.applyUpdates_cons, Storage.applyUpdates_nil]
    rw [Function.update_comm (show (1 : U256) ≠ 3 by decide), Function.update_idem,
      Function.update_comm (show (2 : U256) ≠ 3 by decide), Function.update_comm (show (1 : U256) ≠ 3 by decide)]
  constructor
  · rintro ⟨us, ⟨hpos, hfee0, hfee1, growth0, fees0, h0, growth1, fees1, h1, rfl⟩, rfl⟩
    exact ⟨hpos, hfee0, hfee1, _, ⟨growth0, fees0, h0, rfl⟩, growth1, fees1, h1, (hstored growth0 fees0 growth1 fees1).symm⟩
  · rintro ⟨hpos, hfee0, hfee1, _, ⟨growth0, fees0, h0, rfl⟩, growth1, fees1, h1, rfl⟩
    exact ⟨_, ⟨hpos, hfee0, hfee1, growth0, fees0, h0, growth1, fees1, h1, rfl⟩, (hstored growth0 fees0 growth1 fees1).symm⟩

end Flash

/-! ### Protocol fees -/

section ProtocolFees
variable {pool : Immutables} {F F' : Storage} {address : Address} {spacing : Int} {state : StateView}
  {context : AdapterEventContext}

/-- Nibbles are packed the same with a sum as with a union. -/
theorem nibbles_or {a b : BitVec 8} (ha : a.toNat < 16) : a ||| b <<< 4 = a + b <<< 4 := by
  refine BitVec.eq_of_toNat_eq ?_
  have hb : (b <<< 4).toNat = 2 ^ 4 * (b.toNat % 16) := by
    rw [BitVec.toNat_shiftLeft, Nat.shiftLeft_eq]
    omega
  rw [BitVec.toNat_or, BitVec.toNat_add, hb, Nat.or_comm, ← Nat.two_pow_add_eq_or_of_lt ha]
  omega

theorem canonicalFeeProtocol_lt {value : BitVec 8} (h : canonicalFeeProtocol value) : value.toNat < 16 := by
  rcases h with rfl | ⟨-, hle⟩
  · decide
  · omega

/-- A byte has one pair of nibbles. -/
theorem nibbles_iff {byte a b : BitVec 8} (ha : a.toNat < 16) (hb : b.toNat < 16) :
    byte = a ||| b <<< 4 ↔ a = byte % 16 ∧ b = byte >>> 4 := by
  have hshift : (b <<< 4).toNat = 16 * b.toNat := by
    rw [BitVec.toNat_shiftLeft, Nat.shiftLeft_eq]
    omega
  have hmod : (byte % 16).toNat = byte.toNat % 16 := BitVec.toNat_umod
  have hdiv : (byte >>> 4).toNat = byte.toNat / 16 := by
    rw [BitVec.toNat_ushiftRight, Nat.shiftRight_eq_div_pow]
  rw [nibbles_or ha, ← BitVec.toNat_inj, ← BitVec.toNat_inj, ← BitVec.toNat_inj, BitVec.toNat_add, hshift, hmod, hdiv]
  omega

theorem nibbles_lt {byte a b : BitVec 8} (ha : a = byte % 16) (hb : b = byte >>> 4) : a.toNat < 16 ∧ b.toNat < 16 := by
  have hbyte := byte.isLt
  have hmod : (byte % 16).toNat = byte.toNat % 16 := BitVec.toNat_umod
  have hdiv : (byte >>> 4).toNat = byte.toNat / 16 := by
    rw [BitVec.toNat_ushiftRight, Nat.shiftRight_eq_div_pow]
  rw [ha, hb, hmod, hdiv]
  omega

theorem setFeeProtocol_emits_iff (hunlocked : F.unlocked = true) {event : DecodedFeeProtocol} :
    Emits pool F (.setFeeProtocol event) F' ↔
      (canonicalFeeProtocol event.new0 ∧ canonicalFeeProtocol event.new1) ∧
      (event.old0 = Packed.get (F 0) 232 8 % 16 ∧ event.old1 = Packed.get (F 0) 232 8 >>> 4) ∧
      Function.update F 0 (Packed.set (F 0) 232 (event.new0 + event.new1 <<< 4)) = F' := by
  rw [emits_iff, and_iff_right hunlocked]
  simp only [setFeeProtocol, Option.bind_eq_bind, Option.bind_eq_some_iff, Option.guard_eq_some', Option.pure_def,
    Option.some.injEq, Prod.mk.injEq, exists_const]
  constructor
  · rintro ⟨p0, p1, hcanonical, rfl, heq⟩
    cases heq
    exact ⟨hcanonical, ⟨rfl, rfl⟩, rfl⟩
  · rintro ⟨hcanonical, ⟨hold0, hold1⟩, rfl⟩
    refine ⟨event.new0, event.new1, hcanonical, rfl, ?_⟩
    rw [show F.slot0 = F 0 from rfl, ← hold0, ← hold1]

theorem setFeeProtocol_derived_iff (hspacing : 0 < spacing) {t : Nat} (hcontext : validateContext context = .ok t)
    (h0 : state.storage address 0 = some (F 0)) (hF : InUse F) {event : DecodedFeeProtocol}
    (hold0 : event.old0.toNat < 16) (hold1 : event.old1.toNat < 16) :
    (∃ us, deriveUniswapV3SetFeeProtocol address (.uniswap spacing) state event context = .ok us ∧ F.applyUpdates us = F') ↔
      Emits pool F (.setFeeProtocol event) F' := by
  rw [setFeeProtocol_emits_iff hF.unlocked]
  simp only [deriveSetFeeProtocol_iff hspacing hcontext h0, nibbles_iff hold0 hold1]
  constructor
  · rintro ⟨us, ⟨hcanonical, hold, rfl⟩, rfl⟩
    rw [nibbles_or (canonicalFeeProtocol_lt hcanonical.1)]
    exact ⟨hcanonical, hold, rfl⟩
  · rintro ⟨hcanonical, hold, rfl⟩
    refine ⟨_, ⟨hcanonical, hold, rfl⟩, ?_⟩
    rw [nibbles_or (canonicalFeeProtocol_lt hcanonical.1)]
    rfl

/-- Nothing is collected of a token, or less than is stored. -/
theorem collectAmount_lt (stored requested : BitVec 128) :
    (collectAmount stored requested).toNat = 0 ∨ (collectAmount stored requested).toNat < stored.toNat := by
  unfold collectAmount
  by_cases hcapped : stored < requested
  · rw [if_pos hcapped]
    by_cases hpos : 0 < stored
    · rw [if_pos ⟨hpos, rfl⟩]
      bv_omega
    · rw [if_neg fun h => hpos h.1]
      bv_omega
  · rw [if_neg hcapped]
    by_cases hwhole : 0 < requested ∧ requested = stored
    · rw [if_pos hwhole]
      obtain ⟨hpos, rfl⟩ := hwhole
      bv_omega
    · rw [if_neg hwhole]
      by_cases hpos : 0 < requested
      · have hne : requested ≠ stored := fun heq => hwhole ⟨hpos, heq⟩
        bv_omega
      · bv_omega

theorem collectAmount_iff {stored : BitVec 128} {amount : Nat} :
    (∃ requested, (collectAmount stored requested).toNat = amount) ↔ amount = 0 ∨ amount < stored.toNat := by
  constructor
  · rintro ⟨requested, rfl⟩
    exact collectAmount_lt stored requested
  · intro h
    have hlt : amount < 2 ^ 128 := by
      have := stored.isLt
      omega
    refine ⟨BitVec.ofNat 128 amount, ?_⟩
    have hnat : (BitVec.ofNat 128 amount).toNat = amount := by rw [BitVec.toNat_ofNat, Nat.mod_eq_of_lt hlt]
    have hcapped : ¬ stored < BitVec.ofNat 128 amount := by
      rw [BitVec.lt_def, hnat]
      omega
    have hwhole : ¬ (0 < BitVec.ofNat 128 amount ∧ BitVec.ofNat 128 amount = stored) := by
      rintro ⟨hpos, heq⟩
      rw [BitVec.lt_def, hnat] at hpos
      rw [← heq, hnat] at h
      exact h.elim (Nat.ne_of_gt hpos) (Nat.lt_irrefl _)
    unfold collectAmount
    rw [if_neg hcapped, if_neg hwhole, hnat]

theorem collectProtocol_emits_iff (hunlocked : F.unlocked = true) {event : DecodedCollectProtocol} :
    Emits pool F (.collectProtocol event) F' ↔
      (event.amount0 = 0 ∨ event.amount0 < field (F 3) 0 128) ∧ (event.amount1 = 0 ∨ event.amount1 < field (F 3) 128 128) ∧
      Function.update F 3 (Packed.set (Packed.set (F 3) 0 (BitVec.ofNat 128 (field (F 3) 0 128 - event.amount0))) 128
        (BitVec.ofNat 128 (field (F 3) 128 128 - event.amount1))) = F' := by
  have hleft : ∀ {stored amount : BitVec 128}, amount.toNat = 0 ∨ amount.toNat < stored.toNat →
      BitVec.ofNat 128 (stored.toNat - amount.toNat) = stored - amount := by
    intro stored amount h
    bv_omega
  have hword : F.protocolFees = F 3 := rfl
  rw [emits_iff, and_iff_right hunlocked]
  constructor
  · rintro ⟨r0, r1, h⟩
    obtain ⟨rfl, heq⟩ := Prod.mk.inj (Option.some.inj h)
    cases heq
    have h0 := collectAmount_lt (Packed.get (F 3) 0 128) r0
    have h1 := collectAmount_lt (Packed.get (F 3) 128 128) r1
    refine ⟨h0, h1, ?_⟩
    simp only [field, hword]
    rw [hleft h0, hleft h1]
  · rintro ⟨h0, h1, rfl⟩
    obtain ⟨r0, hr0⟩ := collectAmount_iff.mpr h0
    obtain ⟨r1, hr1⟩ := collectAmount_iff.mpr h1
    have heq0 := hleft (collectAmount_lt (Packed.get (F 3) 0 128) r0)
    have heq1 := hleft (collectAmount_lt (Packed.get (F 3) 128 128) r1)
    rw [hr0] at heq0
    rw [hr1] at heq1
    refine ⟨r0, r1, ?_⟩
    simp only [collectProtocol, hword, Option.pure_def, field]
    rw [heq0, heq1, hr0, hr1]

/-- Both halves of a word are replaced, whatever it held. -/
theorem set_set_halves (w w' : U256) (a b : BitVec 128) :
    Packed.set (Packed.set w 0 a) 128 b = Packed.set (Packed.set w' 0 a) 128 b := by
  refine BitVec.eq_of_getLsbD_eq fun i hi => ?_
  rw [Packed.getLsbD_set hi, Packed.getLsbD_set hi, Packed.getLsbD_set hi, Packed.getLsbD_set hi]
  split_ifs with hhigh hlow
  · rfl
  · rfl
  · omega

theorem collectProtocol_derived_iff (hspacing : 0 < spacing) {t : Nat} (hcontext : validateContext context = .ok t)
    (h3 : state.storage address 3 = some (F 3)) (hF : InUse F) {event : DecodedCollectProtocol}
    (hleft0 : event.amount0 = field (F 3) 0 128 → event.amount0 = 0)
    (hleft1 : event.amount1 = field (F 3) 128 128 → event.amount1 = 0) :
    (∃ us, deriveUniswapV3CollectProtocol address (.uniswap spacing) state event context = .ok us ∧
      F.applyUpdates us = F') ↔
      Emits pool F (.collectProtocol event) F' := by
  rw [collectProtocol_emits_iff hF.unlocked]
  simp only [deriveCollectProtocol_iff hspacing hcontext h3]
  constructor
  · rintro ⟨us, ⟨hle0, hle1, rfl⟩, rfl⟩
    refine ⟨by omega, by omega, ?_⟩
    rw [set_set_halves _ 0]
    rfl
  · rintro ⟨h0, h1, rfl⟩
    refine ⟨_, ⟨by omega, by omega, rfl⟩, ?_⟩
    rw [set_set_halves (F 3) 0]
    rfl

end ProtocolFees

/-! ### Observations -/

section Observations
variable {pool : Immutables} {F F' : Storage} {address : Address} {spacing : Int} {state : StateView}
  {context : AdapterEventContext}

theorem growObservations_of_ne {current count : Nat} {slot : U256} (h : ∀ i < count, slot ≠ observationSlot (current + i)) :
    growObservations current count F slot = F slot := by
  induction count with
  | zero => rfl
  | succ count ih =>
    rw [growObservations, Function.update_of_ne (h count (Nat.lt_succ_self _)), ih fun i hi => h i (by omega)]

theorem growObservations_slot0 {current count : Nat} (hlt : current + count ≤ 2 ^ 16) :
    growObservations current count F 0 = F 0 :=
  growObservations_of_ne fun i hi => (observationSlot_ne (n := 0) (by omega) (by omega)).symm

/-- The loop leaves the words that are derived, where it finds the new entries empty. -/
theorem growObservations_eq (address : Address) {current count : Nat} (hlt : current + count ≤ 2 ^ 16)
    (hempty : ∀ i, current ≤ i → i < current + count → F (observationSlot i) = 0) :
    growObservations current count F = F.applyUpdates (growthWrites address current (current + count)) := by
  induction count with
  | zero =>
    rw [growthWrites, Nat.add_zero, Nat.sub_self]
    rfl
  | succ count ih =>
    have hwrites : growthWrites address current (current + (count + 1)) =
        growthWrites address current (current + count) ++ [⟨address, observationSlot (current + count), 1⟩] := by
      rw [growthWrites, growthWrites, Nat.add_sub_cancel_left, Nat.add_sub_cancel_left, List.range_succ, List.map_append]
      rfl
    have hslot : growObservations current count F (observationSlot (current + count)) = 0 := by
      rw [growObservations_of_ne fun i hi heq => ?_]
      · exact hempty _ (by omega) (by omega)
      · have := observationSlot_inj (by omega) (by omega) heq
        omega
    rw [hwrites, Storage.applyUpdates_append, ← ih (by omega) fun i h₁ h₂ => hempty i h₁ (by omega),
      growObservations, hslot]
    rfl

theorem increase_emits_iff (hunlocked : F.unlocked = true) {event : DecodedObservationGrowth} :
    Emits pool F (.increaseObservationCardinalityNext event) F' ↔ event.old.toNat < event.new.toNat ∧
      0 < event.old.toNat ∧ F.observationCardinalityNext = event.old.toNat ∧
      Function.update (growObservations event.old.toNat (event.new.toNat - event.old.toNat) F) 0
        (Packed.set (F 0) 216 event.new) = F' := by
  rw [emits_iff, and_iff_right hunlocked]
  simp only [increaseObservationCardinalityNext, Option.bind_eq_bind, Option.bind_eq_some_iff, Option.guard_eq_some',
    Option.pure_def, Option.some.injEq, Prod.mk.injEq, exists_const, Option.ite_none_right_eq_some]
  have hnext : F.observationCardinalityNext = (Packed.get F.slot0 216 16).toNat := rfl
  have hslot0 : ∀ new : BitVec 16, Packed.set (Storage.slot0 (growObservations (Packed.get F.slot0 216 16).toNat
      (new.toNat - (Packed.get F.slot0 216 16).toNat) F)) 216 new = Packed.set (F 0) 216 new := by
    intro new
    rw [Storage.slot0, growObservations_slot0 (by have := new.isLt; have := (Packed.get F.slot0 216 16).isLt; omega)]
  constructor
  · rintro ⟨next, hpos, rfl, hne, heq⟩
    cases heq
    have hgrows : ¬ next ≤ Packed.get F.slot0 216 16 := fun hle => hne (if_pos hle).symm
    rw [if_neg hgrows]
    refine ⟨by bv_omega, by bv_omega, hnext, ?_⟩
    rw [hslot0]
  · rintro ⟨hlt, hpos, hold, rfl⟩
    have hold : event.old = Packed.get F.slot0 216 16 := BitVec.eq_of_toNat_eq (hold.symm.trans hnext)
    have hgrows : ¬ event.new ≤ Packed.get F.slot0 216 16 := by
      rw [← hold]
      bv_omega
    refine ⟨event.new, ?_, ?_⟩
    · rw [← hold]
      bv_omega
    · rw [if_neg hgrows, hslot0, ← hold]
      exact ⟨rfl, by bv_omega, rfl⟩

/-- Growth of a reservation takes what the contract can emit, and stamps the new entries alone. -/
theorem observationGrowth_derived_iff (hspacing : 0 < spacing) {t : Nat} (hcontext : validateContext context = .ok t)
    (h0 : state.storage address 0 = some (F 0)) (hF : InUse F) {event : DecodedObservationGrowth} :
    (∃ us, deriveUniswapV3ObservationGrowth address (.uniswap spacing) state event context = .ok us ∧
        F.applyUpdates us = F') ↔ Emits pool F (.increaseObservationCardinalityNext event) F' := by
  have hnew := event.new.isLt
  have hcardinality := hF.cardinality_ne
  have hle := hF.cardinality_le
  rw [increase_emits_iff hF.unlocked]
  simp only [deriveObservationGrowth_iff hspacing hcontext h0]
  have hgrown : ∀ (hlt : event.old.toNat < event.new.toNat) (hold : F.observationCardinalityNext = event.old.toNat),
      F.applyUpdates (growthWrites address event.old.toNat event.new.toNat ++
        [⟨address, 0, Packed.set (F 0) 216 event.new⟩]) =
      Function.update (growObservations event.old.toNat (event.new.toNat - event.old.toNat) F) 0
        (Packed.set (F 0) 216 event.new) := by
    intro hlt hold
    rw [growObservations_eq address (by omega) fun i h₁ h₂ => hF.unreserved i (by omega) (by omega),
      Nat.add_sub_cancel' hlt.le, Storage.applyUpdates_append]
    rfl
  constructor
  · rintro ⟨us, ⟨hlt, hcard, hold, rfl⟩, rfl⟩
    exact ⟨hlt, by omega, hold, (hgrown hlt hold).symm⟩
  · rintro ⟨hlt, hpos, hold, rfl⟩
    exact ⟨_, ⟨hlt, hcardinality, hold, rfl⟩, hgrown hlt hold⟩

end Observations

/-! ### Exactness -/

section Exact
variable {address : Address} {spacing : Int} {pool : Immutables} {F F' : Storage} {state : StateView}
  {context : AdapterEventContext} {event : AccountingEvent} {us : List StateUpdate}

/-- The fields that the contract writes: growth and protocol fees of the tokens paid, the fee protocol byte, the two halves
    of the protocol fees, the reservation and its new entries. -/
def ChangesOnly (F F' : Storage) : AccountingEvent → Prop
  | .flash event => (∀ slot, slot ≠ 1 → slot ≠ 2 → slot ≠ 3 → F' slot = F slot) ∧
      (event.paid0 = 0 → F' 1 = F 1 ∧ Packed.get (F' 3) 0 128 = Packed.get (F 3) 0 128) ∧
      (event.paid1 = 0 → F' 2 = F 2 ∧ Packed.get (F' 3) 128 128 = Packed.get (F 3) 128 128)
  | .setFeeProtocol _ => (∀ slot, slot ≠ 0 → F' slot = F slot) ∧ ∃ value : BitVec 8, F' 0 = Packed.set (F 0) 232 value
  | .collectProtocol _ => ∀ slot, slot ≠ 3 → F' slot = F slot
  | .increaseObservationCardinalityNext event => F' 0 = Packed.set (F 0) 216 event.new ∧
      ∀ slot, slot ≠ 0 → (∀ i, event.old.toNat ≤ i → i < event.new.toNat → slot ≠ observationSlot i) → F' slot = F slot

/-- The derivation takes an event exactly where the contract can emit it, and then leaves the contract's storage. -/
structure Exact (address : Address) (spacing : Int) (pool : Immutables) (F : Storage) (state : StateView)
    (context : AdapterEventContext) (event : AccountingEvent) : Prop where
  accepts : (∃ us, deriveCanonicalAccounting address (.uniswap spacing) state pool.fee event context = .ok us) ↔
    CanEmit pool F event
  storage : ∀ us, deriveCanonicalAccounting address (.uniswap spacing) state pool.fee event context = .ok us →
    ∀ F', Emits pool F event F' ↔ F.applyUpdates us = F'
  fields : ∀ us, deriveCanonicalAccounting address (.uniswap spacing) state pool.fee event context = .ok us →
    ChangesOnly F (F.applyUpdates us) event

/-- The cells a derivation reads. -/
def readCells : AccountingEvent → List U256
  | .flash _ => [0, 1, 2, 3, 4]
  | .setFeeProtocol _ | .increaseObservationCardinalityNext _ => [0]
  | .collectProtocol _ => [3]

def HoldsCells (state : StateView) (address : Address) (event : AccountingEvent) : Prop :=
  ∀ slot ∈ readCells event, ∃ value, state.storage address slot = some value

theorem holdsCells_of_derive
    (hok : deriveCanonicalAccounting address (.uniswap spacing) state pool.fee event context = .ok us) :
    HoldsCells state address event := by
  have hheld : ∀ {slot value}, required state address slot = .ok value → ∃ value, state.storage address slot = some value :=
    fun h => ⟨_, required_eq_ok.mp h⟩
  intro slot hslot
  cases event with
  | flash =>
    obtain ⟨_, -, hok⟩ := bind_eq_ok.mp hok
    obtain ⟨_, -, hok⟩ := bind_eq_ok.mp hok
    obtain ⟨_, h0, hok⟩ := bind_eq_ok.mp hok
    obtain ⟨_, h4, hok⟩ := bind_eq_ok.mp hok
    obtain ⟨_, -, hok⟩ := bind_eq_ok.mp hok
    obtain ⟨_, -, hok⟩ := bind_eq_ok.mp hok
    obtain ⟨_, h1, hok⟩ := bind_eq_ok.mp hok
    obtain ⟨_, h2, hok⟩ := bind_eq_ok.mp hok
    obtain ⟨_, h3, hok⟩ := bind_eq_ok.mp hok
    simp only [readCells, List.mem_cons, List.not_mem_nil, or_false] at hslot
    rcases hslot with rfl | rfl | rfl | rfl | rfl
    · exact hheld h0
    · exact hheld h1
    · exact hheld h2
    · exact hheld h3
    · exact hheld h4
  | setFeeProtocol =>
    obtain rfl := List.mem_singleton.mp hslot
    obtain ⟨raw, hraw, -⟩ := deriveUniswapV3SetFeeProtocol_cases hok
    exact ⟨raw, hraw⟩
  | collectProtocol =>
    obtain rfl := List.mem_singleton.mp hslot
    obtain ⟨_, -, hok⟩ := bind_eq_ok.mp hok
    obtain ⟨_, -, hok⟩ := bind_eq_ok.mp hok
    obtain ⟨_, h3, hok⟩ := bind_eq_ok.mp hok
    exact hheld h3
  | increaseObservationCardinalityNext =>
    obtain rfl := List.mem_singleton.mp hslot
    obtain ⟨raw, hraw, -⟩ := deriveUniswapV3ObservationGrowth_cases hok
    exact ⟨raw, hraw⟩

/-- A token that was not paid keeps its growth and its half of the protocol fees. -/
theorem flashToken_unpaid {paid share liquidity lo : Nat} {growth fees growth' fees' : U256} (hpaid : paid = 0)
    (hok : flashToken paid share liquidity lo growth fees = .ok (growth', fees')) : growth' = growth ∧ fees' = fees := by
  rw [flashToken, if_pos hpaid] at hok
  cases pure_eq_ok.mp hok
  exact ⟨rfl, rfl⟩

/-- A paid token leaves the other half of the protocol fees. -/
theorem flashToken_other {paid share liquidity lo lo' : Nat} {growth fees growth' fees' : U256}
    (hok : flashToken paid share liquidity lo growth fees = .ok (growth', fees')) (hlo : lo + 128 ≤ lo' ∨ lo' + 128 ≤ lo) :
    Packed.get fees' lo' 128 = Packed.get fees lo' 128 := by
  unfold flashToken at hok
  by_cases hpaid : paid = 0
  · rw [if_pos hpaid] at hok
    cases pure_eq_ok.mp hok
    rfl
  · rw [if_neg hpaid] at hok
    obtain ⟨_, -, hok⟩ := bind_eq_ok.mp hok
    obtain ⟨_, -, hok⟩ := bind_eq_ok.mp hok
    cases pure_eq_ok.mp hok
    by_cases hzero : BitVec.ofNat 128 (if share = 0 then 0 else paid / share) = 0
    · rw [if_pos hzero]
    · rw [if_neg hzero, Packed.get_set_of_disjoint hlo]

theorem cells_of_held (hstate : Agrees state address F) (hheld : HoldsCells state address event) :
    ∀ slot ∈ readCells event, state.storage address slot = some (F slot) := by
  intro slot hslot
  obtain ⟨value, hvalue⟩ := hheld slot hslot
  rw [hvalue, hstate slot value hvalue]

theorem changesOnly_of_derive (hspacing : 0 < spacing) {t : Nat} (hcontext : validateContext context = .ok t)
    (hstate : Agrees state address F) (hF : IsParent F) (hfee : pool.fee < 1000000)
    (hok : deriveCanonicalAccounting address (.uniswap spacing) state pool.fee event context = .ok us) :
    ChangesOnly F (F.applyUpdates us) event := by
  have hcells := cells_of_held hstate (holdsCells_of_derive hok)
  cases event with
  | flash event =>
    obtain ⟨-, -, -, growth0, fees0, h0, growth1, fees1, h1, rfl⟩ :=
      (deriveFlash_iff hspacing hcontext hcells hF.liquidity_lt hfee event).mp hok
    refine ⟨fun slot h₁ h₂ h₃ => ?_, fun hpaid => ?_, fun hpaid => ?_⟩
    · refine Storage.applyUpdates_of_notMem fun u hu => ?_
      simp only [List.mem_cons, List.not_mem_nil, or_false] at hu
      rcases hu with rfl | rfl | rfl
      · exact h₁.symm
      · exact h₂.symm
      · exact h₃.symm
    · obtain ⟨rfl, rfl⟩ := flashToken_unpaid hpaid h0
      exact ⟨rfl, flashToken_other h1 (.inr (by omega))⟩
    · obtain ⟨rfl, rfl⟩ := flashToken_unpaid hpaid h1
      exact ⟨rfl, flashToken_other h0 (.inl (by omega))⟩
  | setFeeProtocol event =>
    obtain ⟨-, -, rfl⟩ := (deriveSetFeeProtocol_iff hspacing hcontext (hcells 0 List.mem_cons_self) event).mp hok
    exact ⟨fun slot h => Function.update_of_ne h _ _, _, rfl⟩
  | collectProtocol event =>
    obtain ⟨-, -, rfl⟩ := (deriveCollectProtocol_iff hspacing hcontext (hcells 3 List.mem_cons_self) event).mp hok
    exact fun slot h => Function.update_of_ne h _ _
  | increaseObservationCardinalityNext event =>
    obtain ⟨-, -, -, rfl⟩ := (deriveObservationGrowth_iff hspacing hcontext (hcells 0 List.mem_cons_self) event).mp hok
    rw [Storage.applyUpdates_append]
    refine ⟨rfl, fun slot h₀ hring => ?_⟩
    refine (Function.update_of_ne h₀ _ _).trans (Storage.applyUpdates_of_notMem fun u hu heq => ?_)
    obtain ⟨i, h₁, h₂, hslot⟩ := mem_growthWrites hu
    exact hring i h₁ h₂ (heq.symm.trans hslot)

/-- One storage for each event decides all of exactness. -/
theorem Exact.of_iff
    (hiff : ∀ F', (∃ us, deriveCanonicalAccounting address (.uniswap spacing) state pool.fee event context = .ok us ∧
      F.applyUpdates us = F') ↔ Emits pool F event F')
    (hfields : ∀ us, deriveCanonicalAccounting address (.uniswap spacing) state pool.fee event context = .ok us →
      ChangesOnly F (F.applyUpdates us) event) : Exact address spacing pool F state context event where
  accepts := by
    constructor
    · rintro ⟨us, hok⟩
      exact ⟨_, (hiff _).mp ⟨us, hok, rfl⟩⟩
    · rintro ⟨F', hemits⟩
      obtain ⟨us, hok, -⟩ := (hiff F').mpr hemits
      exact ⟨us, hok⟩
  storage us hok F' := by
    constructor
    · intro hemits
      obtain ⟨us', hok', rfl⟩ := (hiff F').mpr hemits
      rw [Except.ok.inj (hok.symm.trans hok')]
    · rintro rfl
      exact (hiff _).mp ⟨us, hok, rfl⟩
  fields := hfields

/-- Where the derivation refuses and the contract cannot emit, there is nothing to compare. -/
theorem Exact.of_neither (hrefuses : ∀ us,
      deriveCanonicalAccounting address (.uniswap spacing) state pool.fee event context ≠ .ok us)
    (hemits : ¬ CanEmit pool F event) : Exact address spacing pool F state context event where
  accepts := ⟨fun ⟨us, hok⟩ => absurd hok (hrefuses us), fun h => absurd h hemits⟩
  storage us hok := absurd hok (hrefuses us)
  fields us hok := absurd hok (hrefuses us)

/-- An event that the checks of its derivation let through is one of a pool in use: its old bytes are nibbles, and it does
    not collect all that is stored. -/
def Sound (F : Storage) : AccountingEvent → Prop
  | .flash _ | .increaseObservationCardinalityNext _ => True
  | .setFeeProtocol event =>
    (canonicalFeeProtocol event.new0 ∧ canonicalFeeProtocol event.new1) ∧
        Packed.get (F 0) 232 8 = event.old0 ||| event.old1 <<< 4 →
      F.unlocked = true ∧ event.old0.toNat < 16 ∧ event.old1.toNat < 16
  | .collectProtocol event =>
    event.amount0 ≤ field (F 3) 0 128 ∧ event.amount1 ≤ field (F 3) 128 128 →
      F.unlocked = true ∧ (event.amount0 = field (F 3) 0 128 → event.amount0 = 0) ∧
        (event.amount1 = field (F 3) 128 128 → event.amount1 = 0)

/-- The amounts of the event are words. -/
def WordSized : AccountingEvent → Prop
  | .flash event => FlashWords event
  | _ => True

theorem not_canEmit (hlocked : ¬ F.unlocked = true) : ¬ CanEmit pool F event :=
  fun ⟨_, hemits⟩ => hlocked (emits_iff.mp hemits).1

/-- A pool that is not initialized has no liquidity to lend and no observations to reserve. -/
theorem exact_of_locked (hspacing : 0 < spacing) {t : Nat} (hcontext : validateContext context = .ok t)
    (hcells : ∀ slot ∈ readCells event, state.storage address slot = some (F slot)) (hfee : pool.fee < 1000000)
    (hzero : ∀ slot, F slot = 0) (hlocked : ¬ F.unlocked = true) (hsound : Sound F event) :
    Exact address spacing pool F state context event := by
  refine .of_neither (fun us hok => ?_) (not_canEmit hlocked)
  cases event with
  | flash event =>
    have hliquidity : (F 4).toNat = 0 := by rw [hzero 4]; rfl
    obtain ⟨hpos, -⟩ :=
      (deriveFlash_iff hspacing hcontext hcells (by omega) hfee event).mp hok
    omega
  | setFeeProtocol event =>
    obtain ⟨hcanonical, hold, -⟩ := (deriveSetFeeProtocol_iff hspacing hcontext (hcells 0 List.mem_cons_self) event).mp hok
    exact hlocked (hsound ⟨hcanonical, hold⟩).1
  | collectProtocol event =>
    obtain ⟨hle0, hle1, -⟩ := (deriveCollectProtocol_iff hspacing hcontext (hcells 3 List.mem_cons_self) event).mp hok
    exact hlocked (hsound ⟨hle0, hle1⟩).1
  | increaseObservationCardinalityNext event =>
    obtain ⟨-, hcardinality, -⟩ :=
      (deriveObservationGrowth_iff hspacing hcontext (hcells 0 List.mem_cons_self) event).mp hok
    have hslot0 : F.slot0 = 0 := hzero 0
    rw [Storage.observationCardinality, hslot0] at hcardinality
    exact hcardinality rfl

theorem exact_of_inUse (hspacing : 0 < spacing) {t : Nat} (hcontext : validateContext context = .ok t)
    (hcells : ∀ slot ∈ readCells event, state.storage address slot = some (F slot)) (hfee : pool.fee < 1000000)
    (hF : InUse F) (hwords : WordSized event) (hsound : Sound F event)
    (hfields : ∀ us, deriveCanonicalAccounting address (.uniswap spacing) state pool.fee event context = .ok us →
      ChangesOnly F (F.applyUpdates us) event) : Exact address spacing pool F state context event := by
  cases event with
  | flash event => exact .of_iff (fun _ => flash_derived_iff hspacing hcontext hcells hfee hF hwords) hfields
  | setFeeProtocol event =>
    have h0 := hcells 0 List.mem_cons_self
    by_cases hold : event.old0.toNat < 16 ∧ event.old1.toNat < 16
    · exact .of_iff (fun _ => setFeeProtocol_derived_iff hspacing hcontext h0 hF hold.1 hold.2) hfields
    · refine .of_neither (fun us hok => ?_) fun hemits => ?_
      · obtain ⟨hcanonical, hbyte, -⟩ := (deriveSetFeeProtocol_iff hspacing hcontext h0 event).mp hok
        exact hold (hsound ⟨hcanonical, hbyte⟩).2
      · obtain ⟨F', hemits⟩ := hemits
        obtain ⟨-, ⟨hold0, hold1⟩, -⟩ := (setFeeProtocol_emits_iff hF.unlocked).mp hemits
        exact hold (nibbles_lt hold0 hold1)
  | collectProtocol event =>
    have h3 := hcells 3 List.mem_cons_self
    by_cases hleft : (event.amount0 = field (F 3) 0 128 → event.amount0 = 0) ∧
        (event.amount1 = field (F 3) 128 128 → event.amount1 = 0)
    · exact .of_iff (fun _ => collectProtocol_derived_iff hspacing hcontext h3 hF hleft.1 hleft.2) hfields
    · refine .of_neither (fun us hok => ?_) fun hemits => ?_
      · obtain ⟨hle0, hle1, -⟩ := (deriveCollectProtocol_iff hspacing hcontext h3 event).mp hok
        exact hleft (hsound ⟨hle0, hle1⟩).2
      · obtain ⟨F', hemits⟩ := hemits
        obtain ⟨h0, h1, -⟩ := (collectProtocol_emits_iff hF.unlocked).mp hemits
        exact hleft ⟨fun heq => by omega, fun heq => by omega⟩
  | increaseObservationCardinalityNext event =>
    exact .of_iff (fun _ => observationGrowth_derived_iff hspacing hcontext (hcells 0 List.mem_cons_self) hF) hfields

/-- What the derivation takes in exact agreement with the contract is sound. -/
theorem Exact.sound (h : Exact address spacing pool F state context event) (hspacing : 0 < spacing) {t : Nat}
    (hcontext : validateContext context = .ok t)
    (hcells : ∀ slot ∈ readCells event, state.storage address slot = some (F slot)) : Sound F event := by
  cases event with
  | flash => exact trivial
  | setFeeProtocol event =>
    rintro ⟨hcanonical, hbyte⟩
    obtain ⟨F', hemits⟩ := h.accepts.mp
      ⟨_, (deriveSetFeeProtocol_iff hspacing hcontext (hcells 0 List.mem_cons_self) event).mpr ⟨hcanonical, hbyte, rfl⟩⟩
    have hunlocked := (emits_iff.mp hemits).1
    obtain ⟨-, ⟨hold0, hold1⟩, -⟩ := (setFeeProtocol_emits_iff hunlocked).mp hemits
    exact ⟨hunlocked, nibbles_lt hold0 hold1⟩
  | collectProtocol event =>
    rintro ⟨hle0, hle1⟩
    obtain ⟨F', hemits⟩ := h.accepts.mp
      ⟨_, (deriveCollectProtocol_iff hspacing hcontext (hcells 3 List.mem_cons_self) event).mpr ⟨hle0, hle1, rfl⟩⟩
    have hunlocked := (emits_iff.mp hemits).1
    obtain ⟨h0, h1, -⟩ := (collectProtocol_emits_iff hunlocked).mp hemits
    exact ⟨hunlocked, fun heq => by omega, fun heq => by omega⟩
  | increaseObservationCardinalityNext => exact trivial

/-- Exactly when the derivation and the contract agree on an event: the cells that an event of the contract needs are held,
    and an event whose derivation goes through is sound. -/
theorem accounting_exact_iff (hspacing : 0 < spacing) {t : Nat} (hcontext : validateContext context = .ok t)
    (hfee : pool.fee < 1000000) (hF : IsParent F) (hstate : Agrees state address F) (hwords : WordSized event) :
    Exact address spacing pool F state context event ↔
      (CanEmit pool F event → HoldsCells state address event) ∧ (HoldsCells state address event → Sound F event) := by
  constructor
  · intro h
    refine ⟨fun hemits => ?_, fun hheld => h.sound hspacing hcontext (cells_of_held hstate hheld)⟩
    obtain ⟨us, hok⟩ := h.accepts.mpr hemits
    exact holdsCells_of_derive hok
  · rintro ⟨hcold, hsound⟩
    by_cases hheld : HoldsCells state address event
    · have hcells := cells_of_held hstate hheld
      by_cases hunlocked : F.unlocked = true
      · exact exact_of_inUse hspacing hcontext hcells hfee (hF.inUse hunlocked) hwords (hsound hheld)
          fun us hok => changesOnly_of_derive hspacing hcontext hstate hF hfee hok
      · have hzero := hF.resolve_left fun h => hunlocked h.unlocked
        exact exact_of_locked hspacing hcontext hcells hfee hzero hunlocked (hsound hheld)
    · exact .of_neither (fun us hok => hheld (holdsCells_of_derive hok)) fun hemits => hheld (hcold hemits)

end Exact

/-! ### A pool with protocol fees -/

/-- A new pool whose protocol takes a fourth of both tokens' fees, and has 303 of the first one. -/
def protocolPool : Storage :=
  Function.update (Function.update (initialized (2 ^ 96) 0 0) 0
    (Packed.set (initializedSlot0 (2 ^ 96) 0) 232 (0x44 : BitVec 8)))
    3 303

theorem protocolPool_inUse : InUse protocolPool where
  unlocked := by decide +kernel
  liquidity_lt := by decide +kernel
  cardinality_ne := by decide +kernel
  cardinality_le := by decide +kernel
  unreserved i hi hlt := by
    have hnext : protocolPool.observationCardinalityNext = 1 := by decide +kernel
    have h8 : observationSlot i ≠ 8 := fun heq => by
      have := observationSlot_inj hlt (j := 0) (by decide) (heq.trans (by decide))
      omega
    have h3 : observationSlot i ≠ 3 := observationSlot_ne hlt (n := 3) (by decide)
    have h0 : observationSlot i ≠ 0 := observationSlot_ne hlt (n := 0) (by decide)
    rw [protocolPool, Function.update_of_ne h3, Function.update_of_ne h0, initialized_of_ne h0 h8]

/-- A view of one pool that holds all of its storage. -/
def fullView (F : Storage) : StateView := fun _ slot => some (F slot)

theorem fullView_agrees (F : Storage) (address : Address) : Agrees (fullView F) address F :=
  fun _ _ h => Option.some.inj h

def accountingContext : AdapterEventContext :=
  ⟨some 1, some 1, some 1, some 0, some 1, some 1, some 0, some 0, none⟩

/-- The bytes of a packed pair in one field, all of a balance, and a pool that is not initialized: the derivation takes
    three events that no contract emits. -/
theorem accounting_takes_foreign :
    ¬ Exact 1 60 ⟨3000, 60⟩ protocolPool (fullView protocolPool) accountingContext (.setFeeProtocol ⟨0x44, 0, 5, 6⟩) ∧
    ¬ Exact 1 60 ⟨3000, 60⟩ protocolPool (fullView protocolPool) accountingContext (.collectProtocol ⟨303, 0⟩) ∧
    ¬ Exact 1 60 ⟨3000, 60⟩ (fun _ => 0) (fullView fun _ => 0) accountingContext (.setFeeProtocol ⟨0, 0, 4, 4⟩) := by
  refine ⟨fun h => ?_, fun h => ?_, fun h => ?_⟩
  · exact absurd (h.sound (by decide) (t := 1) rfl (fun _ _ => rfl) (by decide +kernel)).2.1 (by decide)
  · exact absurd ((h.sound (by decide) (t := 1) rfl (fun _ _ => rfl) (by decide +kernel)).2.1
      (by decide +kernel)) (by decide)
  · exact absurd (h.sound (by decide) (t := 1) rfl (fun _ _ => rfl) (by decide +kernel)).1 (by decide)

theorem accounting_exact_set_fee_protocol :
    Exact 1 60 ⟨3000, 60⟩ protocolPool (fullView protocolPool) accountingContext (.setFeeProtocol ⟨4, 4, 5, 6⟩) := by
  have hwords : WordSized (.setFeeProtocol ⟨4, 4, 5, 6⟩) := trivial
  have hsound : Sound protocolPool (.setFeeProtocol ⟨4, 4, 5, 6⟩) := fun _ => by decide +kernel
  exact (accounting_exact_iff (by decide) (t := 1) rfl (by decide) (.inl protocolPool_inUse)
    (fullView_agrees _ _) hwords).mpr
    ⟨fun _ _ _ => ⟨_, rfl⟩, fun _ => hsound⟩

end AmmState.Canonical
