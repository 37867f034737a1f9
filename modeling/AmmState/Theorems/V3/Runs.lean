import AmmState.Theorems.V3.Invariant
import Mathlib.Algebra.BigOperators.Group.Finset.Piecewise

/-! Whole runs of a replayed pool. Liquidity and accounting events keep the invariant, one event at a time; the run lemma
    follows by induction on the events. -/

namespace AmmState.Canonical
open V3 Checked

/-! ### Boundaries of a liquidity change -/

section
variable {keccak : Keccak} {pool : Immutables} {F : Storage} {time : Nat} {parent : LiquidityParent}

theorem tickGross_liquidityWord {gross : Nat} (h : gross < 2 ^ 128) (net : Int) :
    tickGross (liquidityWord gross net) = gross := by
  unfold tickGross field liquidityWord
  rw [Packed.get_set_of_disjoint (by omega), Packed.get_set_self (by omega), BitVec.toNat_ofNat, Nat.mod_eq_of_lt h]

theorem tickNet_liquidityWord {net : Int} (h : -2 ^ 127 ≤ net ∧ net < 2 ^ 127) (gross : Nat) :
    tickNet (liquidityWord gross net) = net := by
  unfold tickNet signedField liquidityWord
  rw [Packed.get_set_self (by omega), BitVec.toInt_ofInt_eq_self (by omega) (by omega) (by omega)]

/-- The flag of a tick that a change leaves in use. -/
theorem changedWords_flag (hT : TicksAgree keccak pool.tickSpacing F) {tick : Int} (ht : InRange tick)
    (gross : Nat) (net : Int) : tickFlag (changedWords (tickInfo keccak F tick) tick parent time gross net).word3 = 1 := by
  unfold changedWords
  by_cases hg : tickGross (tickInfo keccak F tick).word0 = 0
  · simp only [hg, if_true]
    unfold initializeWords
    split_ifs
    · simp only [tickFlag, field]
      rw [Packed.get_set_self (by omega)]
      rfl
    · simp only [tickFlag, field]
      rw [Packed.get_set_self (by omega)]
      rfl
  · simp only [hg, if_false]
    exact (hT.flag_iff tick ht).mpr hg

/-- The net liquidity that stays at a boundary: an emptied tick is cleared. -/
def settledNet (r : Nat × Int) : Int := if r.1 = 0 then 0 else r.2

/-- A tick after a change: gross, net and flag of its new words, all zero where it empties. -/
theorem changedTickWords_spec (hT : TicksAgree keccak pool.tickSpacing F) (parent : LiquidityParent) (time : Nat)
    {tick : Int} (ht : InRange tick) {r : Nat × Int} (hgross : r.1 < 2 ^ 128) (hnet : -2 ^ 127 ≤ r.2 ∧ r.2 < 2 ^ 127) :
    let words := changedTickWords (tickInfo keccak F tick) tick parent time r.1 r.2
    tickGross words.word0 = r.1 ∧ tickNet words.word0 = settledNet r ∧ (tickFlag words.word3 = 1 ↔ r.1 ≠ 0) ∧
      (r.1 = 0 → words = TickWords.zero) := by
  intro words
  have hwords : words = _ := changedTickWords_eq (tickInfo keccak F tick) tick parent time r.1 r.2
  unfold settledNet
  by_cases hg : r.1 = 0
  · rw [if_pos hg] at hwords
    rw [hwords, if_pos hg, hg]
    exact ⟨by decide, by decide, by decide, fun _ => rfl⟩
  · rw [if_neg hg] at hwords
    rw [hwords, if_neg hg]
    refine ⟨?_, ?_, ?_, fun h => absurd h hg⟩
    · exact tickGross_liquidityWord hgross _
    · exact tickNet_liquidityWord hnet _
    · rw [changedWords_flag hT ht]
      simp [hg]

/-- A flip toggles the bit of its own tick and of no other. -/
theorem bitSet_flipCell (hk : DistinctKeys keccak) {spacing t c : Int} (hs : 0 < spacing) (ht : InRange t)
    (hc : -2 ^ 23 ≤ c ∧ c < 2 ^ 23) (flipped : Bool) :
    bitSet keccak (flipCell keccak spacing flipped F t) c =
      (bitSet keccak F c ^^ (flipped && decide (c = t / spacing))) := by
  cases flipped with
  | false => simp [flipCell]
  | true =>
    unfold bitSet flipCell
    simp only [if_true, Bool.true_and]
    by_cases hw : BitVec.ofInt 16 (c / 256) = v3WordPosition t spacing
    · rw [hw, Function.update_self, getLsbD_xor_mask (bitPosition_lt _)]
      by_cases hct : c = t / spacing
      · subst hct
        simp
      · have hbit : (c % 256).toNat ≠ (t / spacing % 256).toNat := fun hb =>
          hct (compressed_eq hc (compressed_range hs ht) hw hb)
        rw [if_neg hbit]
        simp [hct]
    · rw [Function.update_of_ne fun h => hw (hk.bitmap_inj h)]
      have hct : c ≠ t / spacing := fun h => hw (by rw [h]; rfl)
      simp [hct]

theorem compressed_iff {spacing c t : Int} (hs : 0 < spacing) (ht : t % spacing = 0) :
    c = t / spacing ↔ c * spacing = t := by
  constructor
  · rintro rfl
    exact ediv_mul_of_aligned ht
  · rintro rfl
    exact (Int.mul_ediv_cancel c hs.ne').symm

/-- A bit that says whether a tick was in use, flipped where that changes, says whether it is in use. -/
theorem flip_bit {bit : Bool} {before after : Nat} (h : bit = true ↔ before ≠ 0) :
    (bit ^^ (decide (after = 0) != decide (before = 0))) = true ↔ after ≠ 0 := by
  by_cases h₁ : before = 0 <;> by_cases h₂ : after = 0 <;> simp_all

/-- A change that the contract accepts fits its tick. -/
structure FitsTick (r : Nat × Int) : Prop where
  gross_lt : r.1 < 2 ^ 128
  net_range : -2 ^ 127 ≤ r.2 ∧ r.2 < 2 ^ 127

theorem FitsTick.of_changeTick {gross : Nat} {net delta : Int} {upper : Bool} {r : Nat × Int}
    (h : changeTick gross net delta upper pool.maxLiquidityPerTick = some r) : FitsTick r := by
  obtain ⟨-, hle, -, hnet⟩ := changeTick_eq_some.mp h
  exact ⟨hle.trans_lt (maxLiquidityPerTick_lt pool), hnet⟩

section
variable {tickLower tickUpper : Int} {l u : Nat × Int}

/-- The words of every tick after both boundaries moved. -/
theorem tickInfo_moved (hk : DistinctKeys keccak) (hL : InRange tickLower) (hU : InRange tickUpper)
    (hlt : tickLower < tickUpper) {t : Int} (ht : InRange t) :
    tickInfo keccak (movedBoundaries keccak pool F parent time tickLower tickUpper l u) t =
      if t = tickUpper then changedTickWords (tickInfo keccak F tickUpper) tickUpper parent time u.1 u.2
      else if t = tickLower then changedTickWords (tickInfo keccak F tickLower) tickLower parent time l.1 l.2
      else tickInfo keccak F t := by
  have hflip : ∀ (flipped : Bool) (G : Storage) (s : Int),
      tickInfo keccak (flipCell keccak pool.tickSpacing flipped G s) t = tickInfo keccak G t := by
    intro flipped G s
    unfold flipCell
    split_ifs
    · exact tickInfo_update_of_ne fun i hi h => hk.tick_ne_bitmap ht hi h.symm
    · rfl
  unfold movedBoundaries
  simp only []
  split_ifs with h₁ h₂
  · subst h₁
    exact tickInfo_setTickInfo _ _ _
  · subst h₂
    rw [tickInfo_setTickInfo_of_ne hk hU ht h₁, tickInfo_setTickInfo]
  · rw [tickInfo_setTickInfo_of_ne hk hU ht h₁, tickInfo_setTickInfo_of_ne hk hL ht h₂, hflip, hflip]

theorem bitSet_moved (hk : DistinctKeys keccak) (hs : 0 < pool.tickSpacing) (hL : InRange tickLower)
    (hU : InRange tickUpper) {c : Int} (hc : -2 ^ 23 ≤ c ∧ c < 2 ^ 23) :
    bitSet keccak (movedBoundaries keccak pool F parent time tickLower tickUpper l u) c =
      (bitSet keccak F c ^^ ((decide (l.1 = 0) != decide (grossAt keccak F tickLower = 0)) &&
        decide (c = tickLower / pool.tickSpacing)) ^^
        ((decide (u.1 = 0) != decide (grossAt keccak F tickUpper = 0)) && decide (c = tickUpper / pool.tickSpacing))) := by
  have hset : ∀ (G : Storage) (s : Int) (w : TickWords), InRange s →
      bitSet keccak (setTickInfo keccak G s w) c = bitSet keccak G c := by
    intro G s w hr
    rw [bitSet, setTickInfo_bitmap hk hr, bitSet]
  unfold movedBoundaries
  simp only []
  rw [hset _ _ _ hU, hset _ _ _ hL, bitSet_flipCell hk hs hU hc, bitSet_flipCell hk hs hL hc]

variable (parent time) (hT : TicksAgree keccak pool.tickSpacing F) (hL : InRange tickLower) (hU : InRange tickUpper)
  (hlt : tickLower < tickUpper)
  (hl : FitsTick l) (hu : FitsTick u)
include hT hL hU hlt hl hu

/-- Gross, net and flag of every tick after both boundaries moved. -/
theorem moved_tick (hk : DistinctKeys keccak) {t : Int} (ht : InRange t) :
    let G := movedBoundaries keccak pool F parent time tickLower tickUpper l u
    grossAt keccak G t = (if t = tickUpper then u.1 else if t = tickLower then l.1 else grossAt keccak F t) ∧
      netAt keccak G t = netAt keccak F t + (if t = tickLower then settledNet l - netAt keccak F tickLower else 0) +
        (if t = tickUpper then settledNet u - netAt keccak F tickUpper else 0) ∧
      (flagAt keccak G t = 1 ↔ grossAt keccak G t ≠ 0) ∧
      (grossAt keccak G t = 0 → tickInfo keccak G t = TickWords.zero) := by
  intro G
  have hinfo : tickInfo keccak G t =
      if t = tickUpper then changedTickWords (tickInfo keccak F tickUpper) tickUpper parent time u.1 u.2
      else if t = tickLower then changedTickWords (tickInfo keccak F tickLower) tickLower parent time l.1 l.2
      else tickInfo keccak F t := tickInfo_moved hk hL hU hlt ht
  have hword0 : G (tickSlot keccak t 0) = (tickInfo keccak G t).word0 := rfl
  have hword3 : G (tickSlot keccak t 3) = (tickInfo keccak G t).word3 := rfl
  rw [grossAt, netAt, flagAt, hword0, hword3, hinfo]
  split_ifs with h₁ h₂ h₂
  · omega
  · subst h₁
    obtain ⟨hgross, hnet, hflag, hzero⟩ := changedTickWords_spec hT parent time ht hu.gross_lt hu.net_range
    refine ⟨hgross, ?_, by rw [hflag, hgross], fun h => hzero (hgross ▸ h)⟩
    rw [hnet]
    omega
  · subst h₂
    obtain ⟨hgross, hnet, hflag, hzero⟩ := changedTickWords_spec hT parent time ht hl.gross_lt hl.net_range
    refine ⟨hgross, ?_, by rw [hflag, hgross], fun h => hzero (hgross ▸ h)⟩
    rw [hnet]
    omega
  · refine ⟨rfl, ?_, hT.flag_iff t ht, hT.empty t ht⟩
    rw [add_zero, add_zero]
    rfl

theorem moved_ticks (hk : DistinctKeys keccak) (hs : 0 < pool.tickSpacing) (haL : tickLower % pool.tickSpacing = 0)
    (haU : tickUpper % pool.tickSpacing = 0) :
    TicksAgree keccak pool.tickSpacing (movedBoundaries keccak pool F parent time tickLower tickUpper l u) := by
  have htick := fun t (ht : InRange t) => moved_tick time parent hT hL hU hlt hl hu hk ht
  refine ⟨fun c h₁ h₂ => ?_, fun t ht hg => ?_, fun t ht => (htick t ht).2.2.1, fun t ht => (htick t ht).2.2.2⟩
  · rw [bitSet_moved hk hs hL hU ⟨h₁, h₂⟩]
    simp only [compressed_iff hs haL, compressed_iff hs haU]
    have hbit := hT.bit_iff c h₁ h₂
    by_cases hr : InRange (c * pool.tickSpacing)
    · obtain ⟨hgross, -⟩ := htick _ hr
      rw [hgross]
      simp only [hr, true_and] at hbit ⊢
      by_cases hcU : c * pool.tickSpacing = tickUpper
      · have hcL : c * pool.tickSpacing ≠ tickLower := by omega
        rw [hcU] at hbit
        simpa [hcU, hlt.ne'] using flip_bit hbit
      · by_cases hcL : c * pool.tickSpacing = tickLower
        · rw [hcL] at hbit
          simpa [hcL, hlt.ne] using flip_bit hbit
        · simpa [hcL, hcU] using hbit
    · have hcL : c * pool.tickSpacing ≠ tickLower := fun h => hr (h ▸ hL)
      have hcU : c * pool.tickSpacing ≠ tickUpper := fun h => hr (h ▸ hU)
      simpa [hcL, hcU, hr] using hbit
  · obtain ⟨hgross, -⟩ := htick t ht
    rw [hgross] at hg
    split_ifs at hg with h₁ h₂
    · rwa [h₁]
    · rwa [h₂]
    · exact hT.aligned t ht hg

/-- The net liquidity up to a tick changes by what each boundary below it changes by. -/
theorem moved_sumNet (hk : DistinctKeys keccak) {t : Int} (ht : t ≤ MAX_TICK) :
    sumNet keccak (movedBoundaries keccak pool F parent time tickLower tickUpper l u) t =
      sumNet keccak F t + (if tickLower ≤ t then settledNet l - netAt keccak F tickLower else 0) +
        (if tickUpper ≤ t then settledNet u - netAt keccak F tickUpper else 0) := by
  have hsum : sumNet keccak (movedBoundaries keccak pool F parent time tickLower tickUpper l u) t =
      ∑ s ∈ Finset.Icc MIN_TICK t, (netAt keccak F s +
        (if s = tickLower then settledNet l - netAt keccak F tickLower else 0) +
        (if s = tickUpper then settledNet u - netAt keccak F tickUpper else 0)) := by
    refine Finset.sum_congr rfl fun s hs => ?_
    obtain ⟨h₁, h₂⟩ := Finset.mem_Icc.mp hs
    exact (moved_tick time parent hT hL hU hlt hl hu hk ⟨h₁, h₂.trans ht⟩).2.1
  rw [hsum, Finset.sum_add_distrib, Finset.sum_add_distrib, Finset.sum_ite_eq', Finset.sum_ite_eq', sumNet]
  simp only [Finset.mem_Icc, hL.1, hU.1, true_and]

end

end

/-! ### Liquidity events -/

theorem addDelta_eq {x y : Nat} {delta : Int} (h : addDelta x delta = some y) : (y : Int) = x + delta := by
  unfold addDelta at h
  split_ifs at h <;> simp only [Option.some.injEq] at h <;> omega

section
variable {keccak : Keccak} {pool : Immutables} {F G : Storage} {time : Nat} {parent : LiquidityParent} {address : Address}

/-- The cells that an in-range change writes: the ring, `slot0` and the active liquidity. -/
theorem activeWrites_slots (hp : ParentSpec pool F time parent) (liquidity : Nat) :
    ∀ u ∈ activeWrites address parent liquidity, ∃ n < 2 ^ 17, u.slot = BitVec.ofNat 256 n := by
  intro u hu
  rcases List.mem_append.mp hu with hu | hu
  · cases hw : parent.oracle.write with
    | none =>
      rw [hw] at hu
      cases hu
    | some w =>
      have hindex := hp.oracle.ring.index_lt_word
      simp only [hw, List.mem_cons, List.not_mem_nil, or_false] at hu
      rcases hu with rfl | rfl
      · refine ⟨8 + parent.oracle.observationIndex, by omega, ?_⟩
        rw [← observationSlot_eq]
        exact (hp.oracle.write w hw).1
      · exact ⟨0, by decide, rfl⟩
  · obtain rfl := List.mem_singleton.mp hu
    exact ⟨4, by decide, rfl⟩

/-- An in-range change keeps price and tick, moves the ring and sets the active liquidity. -/
theorem activeWrites_cells (address : Address) (hp : ParentSpec pool F time parent) (hO : OracleReady F)
    (hfixed : ∀ n < 2 ^ 17, G (BitVec.ofNat 256 n) = F (BitVec.ofNat 256 n)) (liquidity : Nat) :
    let G' := G.applyUpdates (activeWrites address parent liquidity)
    G' 4 = BitVec.ofNat 256 liquidity ∧ G'.tick = F.tick ∧ G'.sqrtPriceX96 = F.sqrtPriceX96 ∧ OracleReady G' := by
  intro G'
  have hring := hp.oracle.ring
  have hindex := hring.index_lt_word
  have h0 : G 0 = F 0 := hfixed 0 (by decide)
  have hobs : ∀ i < 2 ^ 16, G (observationSlot i) = F (observationSlot i) := by
    intro i hi
    rw [observationSlot_eq]
    exact hfixed _ (by omega)
  have hne0 : ∀ i < 2 ^ 16, observationSlot i ≠ 0 := fun i hi => observationSlot_ne hi (by decide)
  have hne4 : ∀ i < 2 ^ 16, observationSlot i ≠ 4 := fun i hi => observationSlot_ne hi (by decide)
  have h4 : G' 4 = BitVec.ofNat 256 liquidity := by
    simp only [G', activeWrites, Storage.applyUpdates_append, Storage.applyUpdates_cons, Storage.applyUpdates_nil]
    exact Function.update_self _ _ _
  refine ⟨h4, ?_⟩
  cases hw : parent.oracle.write with
  | none =>
    have hG' : G' = Function.update G 4 (BitVec.ofNat 256 liquidity) := by
      simp only [G', activeWrites, hw, List.nil_append]
      rfl
    have h0' : G'.slot0 = F.slot0 := by
      rw [Storage.slot0, hG', Function.update_of_ne (by decide), h0]
      rfl
    obtain ⟨hi, hc⟩ := hring.same hw
    refine ⟨by rw [Storage.tick, h0']; rfl, by rw [Storage.sqrtPriceX96, h0']; rfl, ?_⟩
    have hnone : ∀ w, parent.oracle.write ≠ some w := fun w hsome => by cases hw.symm.trans hsome
    refine hring.ready hO ?_ ?_ ?_ (fun w hsome => absurd hsome (hnone w)) fun _ i hi => ?_
    · rw [Storage.observationIndex, h0', hi]
      rfl
    · rw [Storage.observationCardinality, h0', hc]
      rfl
    · rw [Storage.observationCardinalityNext, h0']
      rfl
    · rw [hG', Function.update_of_ne (hne4 i hi)]
      exact hobs i hi
  | some w =>
    obtain ⟨hslot, -⟩ := hring.write w hw
    set slot0 := parent.slot0.encodeFinal parent.slot0.sqrtPriceX96 parent.slot0.tick parent.oracle.observationIndex
      parent.oracle.observationCardinality with hslot0
    have hG' : G' = Function.update (Function.update (Function.update G w.1 w.2) 0 slot0) 4
        (BitVec.ofNat 256 liquidity) := by
      simp only [G', activeWrites, hw]
      rfl
    have h0' : G'.slot0 = Packed.set (Packed.set F.slot0 184 (BitVec.ofNat 16 parent.oracle.observationIndex)) 200
        (BitVec.ofNat 16 parent.oracle.observationCardinality) := by
      rw [← encodeFinal_same, ← hp.slot0, Storage.slot0, hG', Function.update_of_ne (by decide), Function.update_self]
    refine ⟨?_, ?_, ?_⟩
    · rw [Storage.tick, h0', signedField, Packed.get_set_of_disjoint (by omega), Packed.get_set_of_disjoint (by omega)]
      rfl
    · rw [Storage.sqrtPriceX96, h0', field, Packed.get_set_of_disjoint (by omega), Packed.get_set_of_disjoint (by omega)]
      rfl
    · refine hring.ready hO ?_ ?_ ?_ ?_ fun hnone => by cases hw.symm.trans hnone
      · rw [Storage.observationIndex, h0', field, Packed.get_set_of_disjoint (by omega), Packed.get_set_self (by omega),
          BitVec.toNat_ofNat, Nat.mod_eq_of_lt hindex]
      · rw [Storage.observationCardinality, h0', field, Packed.get_set_self (by omega), BitVec.toNat_ofNat,
          Nat.mod_eq_of_lt hring.cardinality_lt_word]
      · rw [Storage.observationCardinalityNext, h0', field, Packed.get_set_of_disjoint (by omega),
          Packed.get_set_of_disjoint (by omega)]
        rfl
      · intro w' hw'
        obtain rfl := Option.some.inj (hw.symm.trans hw')
        rw [hG', hslot, Function.update_of_ne (hne4 _ hindex), Function.update_of_ne (hne0 _ hindex), Function.update_self]

variable {state : StateView} {event : DecodedLiquidity}

/-- How a nonzero liquidity change moves the storage: both boundaries, then the active liquidity where it is in range. -/
structure LiquidityMove (keccak : Keccak) (address : Address) (pool : Immutables) (F : Storage) (event : DecodedLiquidity)
    (F' : Storage) (time : Nat) (parent : LiquidityParent) (l u : Nat × Int) : Prop where
  amount_pos : 0 < event.amount
  spec : ParentSpec pool F time parent
  lower : InRange event.tickLower ∧ event.tickLower % pool.tickSpacing = 0
  upper : InRange event.tickUpper ∧ event.tickUpper % pool.tickSpacing = 0
  lt : event.tickLower < event.tickUpper
  changeLower : changeTick (grossAt keccak F event.tickLower) (netAt keccak F event.tickLower) event.delta false
    pool.maxLiquidityPerTick = some l
  changeUpper : changeTick (grossAt keccak F event.tickUpper) (netAt keccak F event.tickUpper) event.delta true
    pool.maxLiquidityPerTick = some u
  storage : let moved := movedBoundaries keccak pool F parent time event.tickLower event.tickUpper l u
    if event.tickLower ≤ F.tick ∧ F.tick < event.tickUpper then
      ∃ n, addDelta (F 4).toNat event.delta = some n ∧ F' = moved.applyUpdates (activeWrites address parent n)
    else F' = moved

theorem liquidity_moves (hk : DistinctKeys keccak) (hT : TicksAgree keccak pool.tickSpacing F) (hO : OracleReady F)
    (h : Holds state address F) {context : AdapterEventContext} {transition : CanonicalLiquidityTransition}
    (hok : deriveUniswapV3Liquidity keccak address (.uniswap pool.tickSpacing) state event context = .ok transition) :
    event.amount = 0 ∧ F.applyUpdates transition.updates = F ∨
      ∃ time parent l u, LiquidityMove keccak address pool F event (F.applyUpdates transition.updates) time parent l u := by
  obtain ⟨t, F', hcheck, hrun, -, -, hF'⟩ := deriveUniswapV3Liquidity_sound hk hT hO h hok
  obtain ⟨hv, hs, hmin, hmax, hlt, haL, haU⟩ := checkLiquidityInputs_eq_ok.mp hcheck
  rw [changeLiquidity_eq] at hrun
  split_ifs at hrun with h0 hburn hsmall
  · exact .inl ⟨h0, hF'.trans (Option.some.inj hrun).symm⟩
  · right
    obtain ⟨t', hcheck', hok⟩ := bind_eq_ok.mp hok
    obtain rfl := Except.ok.inj (hcheck.symm.trans hcheck')
    rw [if_neg h0] at hok
    obtain ⟨_, -, hok⟩ := bind_eq_ok.mp hok
    obtain ⟨parent, hload, -⟩ := bind_eq_ok.mp hok
    have hp := loadLiquidityParent_spec h hs hO (validateContext_lt hv) hload
    have hL : InRange event.tickLower := ⟨hmin, by omega⟩
    have hU : InRange event.tickUpper := ⟨by omega, hmax⟩
    rw [modifyPosition_eq hk hT hp (Nat.pos_of_ne_zero h0) hL hU haL haU hlt address] at hrun
    obtain ⟨l, hl, hrun⟩ := Option.bind_eq_some_iff.mp hrun
    obtain ⟨u, hu, hrun⟩ := Option.bind_eq_some_iff.mp hrun
    refine ⟨t, parent, l, u, Nat.pos_of_ne_zero h0, hp, ⟨hL, haL⟩, ⟨hU, haU⟩, hlt, hl, hu, ?_⟩
    rw [hF']
    simp only at hrun ⊢
    split_ifs at hrun ⊢ with hr
    · obtain ⟨n, hn, hrun⟩ := Option.bind_eq_some_iff.mp hrun
      exact ⟨n, hn, (Option.some.inj hrun).symm⟩
    · exact (Option.some.inj hrun).symm

section
variable {F' : Storage} {l u : Nat × Int}

/-- The storage after a move: its boundaries, with the fixed cells that an active range rewrites. -/
theorem LiquidityMove.cells (h : LiquidityMove keccak address pool F event F' time parent l u) (hk : DistinctKeys keccak)
    (hO : OracleReady F) :
    SameTicks keccak (movedBoundaries keccak pool F parent time event.tickLower event.tickUpper l u) F' ∧
      F'.tick = F.tick ∧ F'.sqrtPriceX96 = F.sqrtPriceX96 ∧ OracleReady F' ∧
      ((F' 4).toNat : Int) =
        (F 4).toNat + if event.tickLower ≤ F.tick ∧ F.tick < event.tickUpper then event.delta else 0 := by
  have hfixed : ∀ n < 2 ^ 17, movedBoundaries keccak pool F parent time event.tickLower event.tickUpper l u
      (BitVec.ofNat 256 n) = F (BitVec.ofNat 256 n) := fun n hn => movedBoundaries_fixed hk h.lower.1 h.upper.1 l u hn
  have hstorage := h.storage
  simp only at hstorage
  set moved := movedBoundaries keccak pool F parent time event.tickLower event.tickUpper l u
  split_ifs at hstorage ⊢ with hr
  · obtain ⟨n, hn, rfl⟩ := hstorage
    obtain ⟨h4, htick, hprice, hready⟩ := activeWrites_cells address h.spec hO hfixed n
    refine ⟨.fixed hk (activeWrites_slots h.spec n), htick, hprice, hready, ?_⟩
    have hlt := addDelta_lt h.spec.liquidity_lt hn
    rw [h4, BitVec.toNat_ofNat, Nat.mod_eq_of_lt (by omega)]
    exact addDelta_eq hn
  · subst hstorage
    have h0 : moved.slot0 = F.slot0 := hfixed 0 (by decide)
    have hi : F.observationIndex < 2 ^ 16 := field_lt _ _ _
    refine ⟨.refl keccak _, by rw [Storage.tick, h0]; rfl, by rw [Storage.sqrtPriceX96, h0]; rfl,
      hO.of_cells ?_ ?_ ?_ ?_, ?_⟩
    · rw [Storage.observationIndex, h0]
      rfl
    · rw [Storage.observationCardinality, h0]
      rfl
    · rw [Storage.observationCardinalityNext, Storage.observationCardinalityNext, h0]
    · rw [observationSlot_eq]
      exact hfixed _ (by omega)
    · rw [show moved 4 = F 4 from hfixed 4 (by decide), add_zero]

/-- The net liquidity up to a tick after a move. -/
theorem LiquidityMove.sumNet (h : LiquidityMove keccak address pool F event F' time parent l u) (hk : DistinctKeys keccak)
    (hT : TicksAgree keccak pool.tickSpacing F) (hO : OracleReady F) {t : Int} (ht : t ≤ MAX_TICK) :
    sumNet keccak F' t =
      sumNet keccak F t + (if event.tickLower ≤ t then settledNet l - netAt keccak F event.tickLower else 0) +
        (if event.tickUpper ≤ t then settledNet u - netAt keccak F event.tickUpper else 0) := by
  obtain ⟨hsame, -⟩ := h.cells hk hO
  rw [hsame.sumNet ht]
  exact moved_sumNet time parent hT h.lower.1 h.upper.1 h.lt (.of_changeTick h.changeLower) (.of_changeTick h.changeUpper)
    hk ht

/-- What a boundary keeps where an emptied tick has no net liquidity left. -/
theorem settledNet_eq {gross maxLiquidity : Nat} {net delta : Int} {upper : Bool} {r : Nat × Int}
    (h : changeTick gross net delta upper maxLiquidity = some r) (hd : delta ≠ 0)
    (hclean : delta < 0 → (gross : Int) = -delta → net = if upper then delta else -delta) :
    settledNet r = net + if upper then -delta else delta := by
  obtain ⟨hgross, -, hnet, -⟩ := changeTick_eq_some.mp h
  have hgross := addDelta_eq hgross
  unfold settledNet
  split_ifs at hnet ⊢ with h0 hup hup
  · have := hclean (by omega) (by omega)
    rw [if_pos hup] at this
    omega
  · have := hclean (by omega) (by omega)
    rw [if_neg hup] at this
    omega
  · exact hnet
  · exact hnet

/-- A liquidity change keeps the pool well formed, where a tick that it empties has no net liquidity left. -/
theorem LiquidityMove.inv (h : LiquidityMove keccak address pool F event F' time parent l u) (hk : DistinctKeys keccak)
    (hI : PoolInvariant keccak pool.tickSpacing F) (hl : settledNet l = netAt keccak F event.tickLower + event.delta)
    (hu : settledNet u = netAt keccak F event.tickUpper - event.delta) : PoolInvariant keccak pool.tickSpacing F' := by
  obtain ⟨hsame, htick, hprice, hO, h4⟩ := h.cells hk hI.oracle
  have hticks := hsame.ticks (moved_ticks time parent hI.ticks h.lower.1 h.upper.1 h.lt (.of_changeTick h.changeLower)
    (.of_changeTick h.changeUpper) hk h.spec.spacing_pos h.lower.2 h.upper.2)
  have hsum : ∀ t ≤ MAX_TICK, AmmState.Canonical.sumNet keccak F' t = AmmState.Canonical.sumNet keccak F t +
      if event.tickLower ≤ t ∧ t < event.tickUpper then event.delta else 0 := by
    intro t ht
    have hlt := h.lt
    rw [h.sumNet hk hI.ticks hI.oracle ht, hl, hu]
    split_ifs <;> omega
  refine ⟨hticks, ⟨?_, ?_⟩, hI.price.of_eq htick hprice, hO⟩
  · have hmax := h.upper.1.2
    have h₁ := hsum MAX_TICK le_rfl
    rw [if_neg (by omega), add_zero] at h₁
    exact h₁.trans hI.sums.net
  · have h₁ := hsum F.tick hI.price.tick_lt.le
    rw [htick, h4, hI.sums.active]
    exact h₁.symm

end

end

/-! ### Accounting events -/

section
variable {keccak : Keccak} {spacing : Int} {F : Storage} {state : StateView} {address : Address}
  {context : AdapterEventContext} {us : List StateUpdate}

/-- A batch of fixed cells keeps the pool well formed, where it keeps active liquidity, tick and price and the oracle. -/
theorem PoolInvariant.of_fixed (hI : PoolInvariant keccak spacing F) (hk : DistinctKeys keccak)
    (hus : ∀ u ∈ us, ∃ n < 2 ^ 17, u.slot = BitVec.ofNat 256 n) (h4 : F.applyUpdates us 4 = F 4)
    (htick : (F.applyUpdates us).tick = F.tick) (hprice : (F.applyUpdates us).sqrtPriceX96 = F.sqrtPriceX96)
    (hO : OracleReady (F.applyUpdates us)) : PoolInvariant keccak spacing (F.applyUpdates us) := by
  refine hI.of_sameTicks (.fixed hk hus) ?_ (hI.price.of_eq htick hprice) hO
  rw [h4, htick]
  exact hI.sums.active

/-- A batch of the accounting cells 1 to 3 keeps the pool well formed. -/
theorem PoolInvariant.of_accounting (hI : PoolInvariant keccak spacing F) (hk : DistinctKeys keccak)
    (hus : ∀ u ∈ us, u.slot = 1 ∨ u.slot = 2 ∨ u.slot = 3) : PoolInvariant keccak spacing (F.applyUpdates us) := by
  have hsame : ∀ x, x ≠ 1 → x ≠ 2 → x ≠ 3 → F.applyUpdates us x = F x := by
    intro x h₁ h₂ h₃
    refine Storage.applyUpdates_of_notMem fun u hu => ?_
    rcases hus u hu with h | h | h
    · exact h ▸ h₁.symm
    · exact h ▸ h₂.symm
    · exact h ▸ h₃.symm
  have h0 : (F.applyUpdates us).slot0 = F.slot0 := hsame 0 (by decide) (by decide) (by decide)
  have hi : F.observationIndex < 2 ^ 16 := field_lt _ _ _
  refine hI.of_fixed hk (fun u hu => ?_) (hsame 4 (by decide) (by decide) (by decide)) ?_ ?_
    (hI.oracle.of_cells ?_ ?_ ?_ ?_)
  · rcases hus u hu with h | h | h
    · exact ⟨1, by decide, h⟩
    · exact ⟨2, by decide, h⟩
    · exact ⟨3, by decide, h⟩
  · rw [Storage.tick, h0, Storage.tick]
  · rw [Storage.sqrtPriceX96, h0, Storage.sqrtPriceX96]
  · rw [Storage.observationIndex, h0, Storage.observationIndex]
  · rw [Storage.observationCardinality, h0, Storage.observationCardinality]
  · rw [Storage.observationCardinalityNext, Storage.observationCardinalityNext, h0]
  · exact hsame _ (observationSlot_ne hi (n := 1) (by decide)) (observationSlot_ne hi (n := 2) (by decide))
      (observationSlot_ne hi (n := 3) (by decide))

theorem flash_inv (hk : DistinctKeys keccak) (hI : PoolInvariant keccak spacing F) {fee : Nat} {event : DecodedFlash}
    (hok : deriveUniswapV3Flash address (.uniswap spacing) state fee event context = .ok us) :
    PoolInvariant keccak spacing (F.applyUpdates us) := by
  obtain ⟨growth0, growth1, fees, rfl⟩ := deriveUniswapV3Flash_cases hok
  refine hI.of_accounting hk fun u hu => ?_
  simp only [List.mem_cons, List.not_mem_nil, or_false] at hu
  rcases hu with rfl | rfl | rfl
  · exact .inl rfl
  · exact .inr (.inl rfl)
  · exact .inr (.inr rfl)

theorem collectProtocol_inv (hk : DistinctKeys keccak) (hI : PoolInvariant keccak spacing F)
    {event : DecodedCollectProtocol}
    (hok : deriveUniswapV3CollectProtocol address (.uniswap spacing) state event context = .ok us) :
    PoolInvariant keccak spacing (F.applyUpdates us) := by
  obtain ⟨fees, rfl⟩ := deriveUniswapV3CollectProtocol_cases hok
  refine hI.of_accounting hk fun u hu => ?_
  rw [List.mem_singleton.mp hu]
  exact .inr (.inr rfl)

theorem setFeeProtocol_inv (hk : DistinctKeys keccak) (hI : PoolInvariant keccak spacing F) (h : Holds state address F)
    {event : DecodedFeeProtocol}
    (hok : deriveUniswapV3SetFeeProtocol address (.uniswap spacing) state event context = .ok us) :
    PoolInvariant keccak spacing (F.applyUpdates us) := by
  obtain ⟨raw, hraw, rfl⟩ := deriveUniswapV3SetFeeProtocol_cases hok
  obtain rfl : F 0 = raw := Option.some.inj ((h 0).symm.trans hraw)
  set word := Packed.set (F 0) 232 (event.new0 ||| (event.new1 <<< 4)) with hword
  set F' := F.applyUpdates [⟨address, 0, word⟩] with hF'
  have h0 : F'.slot0 = Packed.set F.slot0 232 (event.new0 ||| (event.new1 <<< 4)) := by
    rw [Storage.slot0, hF', Storage.applyUpdates_cons, Storage.applyUpdates_nil, Function.update_self]
    rfl
  have hi : F.observationIndex < 2 ^ 16 := field_lt _ _ _
  have hrest : ∀ x, x ≠ 0 → F' x = F x := fun x hx => Function.update_of_ne hx _ _
  -- the byte at bit 232 lies above every field that the invariant reads
  refine hI.of_fixed hk (fun u hu => ?_) (hrest 4 (by decide)) ?_ ?_ (hI.oracle.of_cells ?_ ?_ ?_ ?_)
  · rw [List.mem_singleton.mp hu]
    exact ⟨0, by decide, rfl⟩
  · rw [Storage.tick, h0, signedField, Packed.get_set_of_disjoint (by omega)]
    rfl
  · rw [Storage.sqrtPriceX96, h0, field, Packed.get_set_of_disjoint (by omega)]
    rfl
  · rw [Storage.observationIndex, h0, field, Packed.get_set_of_disjoint (by omega)]
    rfl
  · rw [Storage.observationCardinality, h0, field, Packed.get_set_of_disjoint (by omega)]
    rfl
  · rw [Storage.observationCardinalityNext, Storage.observationCardinalityNext, h0, field, field,
      Packed.get_set_of_disjoint (by omega)]
  · exact hrest _ (observationSlot_ne hi (n := 0) (by decide))

/-- Growth stamps cells from the old reservation on, which the current observation is not. -/
theorem observationGrowth_inv (hk : DistinctKeys keccak) (hI : PoolInvariant keccak spacing F) (h : Holds state address F)
    {event : DecodedObservationGrowth}
    (hok : deriveUniswapV3ObservationGrowth address (.uniswap spacing) state event context = .ok us) :
    PoolInvariant keccak spacing (F.applyUpdates us) := by
  obtain ⟨raw, hraw, hlt, hnext, rfl⟩ := deriveUniswapV3ObservationGrowth_cases hok
  obtain rfl : F 0 = raw := Option.some.inj ((h 0).symm.trans hraw)
  have hnew : event.new.toNat < 2 ^ 16 := event.new.isLt
  have hold : F.observationCardinalityNext = event.old.toNat := hnext
  have hcurrent : F.observationIndex < event.old.toNat := by
    rw [← hold]
    exact hI.oracle.index_lt.trans_le hI.oracle.cardinality_le
  set F' := F.applyUpdates (growthWrites address event.old.toNat event.new.toNat ++
    [⟨address, 0, Packed.set (F 0) 216 event.new⟩]) with hF'
  have h0 : F'.slot0 = Packed.set F.slot0 216 event.new := by
    rw [Storage.slot0, hF', Storage.applyUpdates_append, Storage.applyUpdates_cons, Storage.applyUpdates_nil,
      Function.update_self]
    rfl
  have hrest : ∀ x, x ≠ 0 → (∀ i, event.old.toNat ≤ i → i < event.new.toNat → observationSlot i ≠ x) → F' x = F x := by
    intro x hx hi
    rw [hF', Storage.applyUpdates_append, Storage.applyUpdates_cons, Storage.applyUpdates_nil, Function.update_of_ne hx]
    refine Storage.applyUpdates_of_notMem fun u hu => ?_
    obtain ⟨i, h₁, h₂, hslot⟩ := mem_growthWrites hu
    exact hslot ▸ hi i h₁ h₂
  refine hI.of_fixed hk (fun u hu => ?_) ?_ ?_ ?_ (hI.oracle.of_cells ?_ ?_ ?_ ?_)
  · rcases List.mem_append.mp hu with hu | hu
    · obtain ⟨i, -, hi, hslot⟩ := mem_growthWrites hu
      exact ⟨8 + i, by omega, hslot.trans (observationSlot_eq i)⟩
    · rw [List.mem_singleton.mp hu]
      exact ⟨0, by decide, rfl⟩
  · exact hrest 4 (by decide) fun i _ hi => observationSlot_ne (n := 4) (by omega) (by decide)
  · rw [Storage.tick, h0, signedField, Packed.get_set_of_disjoint (by omega)]
    rfl
  · rw [Storage.sqrtPriceX96, h0, field, Packed.get_set_of_disjoint (by omega)]
    rfl
  · rw [Storage.observationIndex, h0, field, Packed.get_set_of_disjoint (by omega)]
    rfl
  · rw [Storage.observationCardinality, h0, field, Packed.get_set_of_disjoint (by omega)]
    rfl
  · rw [hold, Storage.observationCardinalityNext, h0, field, Packed.get_set_self (by omega)]
    exact hlt.le
  · refine hrest _ (observationSlot_ne (n := 0) (by omega) (by decide)) fun i h₁ h₂ heq => ?_
    rw [observationSlot_eq, observationSlot_eq] at heq
    have := ofNat_inj (by omega) (by omega) heq
    omega

end

/-! ### Runs -/

section
variable (keccak : Keccak) (address : Address) (pool : Immutables)

/-- A boundary whose gross liquidity is all burned has `net` as its net liquidity. -/
def CleanBoundary (state : StateView) (tick : Int) (amount : Nat) (net : Int) : Prop :=
  ∀ word, state.storage address (tickSlot keccak tick 0) = some word → tickGross word = amount → tickNet word = net

/-- A burn that empties a boundary takes the net liquidity that is there: all of the tick's liquidity belongs to ranges
    that start (end) at it, as it does in the contract, where a position burns at most what it minted. -/
def EmptiesCleanly (state : StateView) : PoolEvent → Prop
  | .liquidity event => event.isMint = false →
      CleanBoundary keccak address state event.tickLower event.amount event.amount ∧
        CleanBoundary keccak address state event.tickUpper event.amount (-event.amount)
  | _ => True

/-- Every burn of a run empties cleanly, in the view that the run has come to. -/
def CleanRun (state : StateView) : List (PoolEvent × AdapterEventContext) → Prop
  | [] => True
  | event :: rest => EmptiesCleanly keccak address state event.1 ∧
      ∀ state', replayStep keccak address (.uniswap pool.tickSpacing) pool.fee state event =
        .ok state' → CleanRun state' rest

end

section
variable {keccak : Keccak} {address : Address} {pool : Immutables} {F : Storage} {state : StateView}

theorem liquidity_inv (hk : DistinctKeys keccak) (hI : PoolInvariant keccak pool.tickSpacing F) (h : Holds state address F)
    {event : DecodedLiquidity} (hclean : EmptiesCleanly keccak address state (.liquidity event))
    {context : AdapterEventContext} {transition : CanonicalLiquidityTransition}
    (hok : deriveUniswapV3Liquidity keccak address (.uniswap pool.tickSpacing) state event context = .ok transition) :
    PoolInvariant keccak pool.tickSpacing (F.applyUpdates transition.updates) := by
  rcases liquidity_moves hk hI.ticks hI.oracle h hok with ⟨-, heq⟩ | ⟨time, parent, l, u, hmove⟩
  · rwa [heq]
  · have hd := delta_ne_zero hmove.amount_pos
    have hburn : event.delta < 0 → event.isMint = false ∧ event.delta = -event.amount := by
      unfold DecodedLiquidity.delta
      cases event.isMint with
      | true => simp only [if_true]; omega
      | false => simp
    refine hmove.inv hk hI ((settledNet_eq hmove.changeLower hd fun hneg hgross => ?_).trans ?_)
      ((settledNet_eq hmove.changeUpper hd fun hneg hgross => ?_).trans ?_)
    · obtain ⟨hmint, hdelta⟩ := hburn hneg
      have hnet : netAt keccak F event.tickLower = event.amount :=
        (hclean hmint).1 _ (h _) (by unfold grossAt at hgross; omega)
      simpa [hdelta] using hnet
    · simp
    · obtain ⟨hmint, hdelta⟩ := hburn hneg
      have hnet : netAt keccak F event.tickUpper = -event.amount :=
        (hclean hmint).2 _ (h _) (by unfold grossAt at hgross; omega)
      simpa [hdelta] using hnet
    · simp [sub_eq_add_neg]

/-- The batch of an event on a full view is for its pool, leaves nothing unknown and keeps the pool well formed. -/
theorem replay_inv (hk : DistinctKeys keccak) (hI : PoolInvariant keccak pool.tickSpacing F) (h : Holds state address F)
    {event : PoolEvent} {context : AdapterEventContext} (hclean : EmptiesCleanly keccak address state event)
    {transition : CanonicalLiquidityTransition}
    (hok : replay keccak address (.uniswap pool.tickSpacing) pool.fee event state context = .ok transition) :
    transition.coldSlots = [] ∧ (∀ u ∈ transition.updates, u.address = address) ∧
      PoolInvariant keccak pool.tickSpacing (F.applyUpdates transition.updates) := by
  cases event with
  | liquidity event =>
    have hok : deriveUniswapV3Liquidity keccak address (.uniswap pool.tickSpacing) state event context = .ok transition :=
      hok
    have hsound : ∃ t F', checkLiquidityInputs (.uniswap pool.tickSpacing) event context = .ok t ∧
        changeLiquidity keccak pool F (BitVec.ofNat 32 t) event = some F' ∧ Leaves address F F' transition :=
      deriveUniswapV3Liquidity_sound hk hI.ticks hI.oracle h hok
    obtain ⟨-, -, -, -, hcold, haddr, -⟩ := hsound
    exact ⟨hcold, haddr, liquidity_inv hk hI h hclean hok⟩
  | swap event =>
    obtain ⟨hok, hcold⟩ := exactly_eq_ok.mp hok
    exact ⟨hcold, deriveUniswapV3Swap_address hok, swap_inv hk hI h hok⟩
  | flash event =>
    obtain ⟨hok, hcold⟩ := exactly_eq_ok.mp hok
    exact ⟨hcold, deriveUniswapV3Flash_address hok, flash_inv hk hI hok⟩
  | setFeeProtocol event =>
    obtain ⟨hok, hcold⟩ := exactly_eq_ok.mp hok
    exact ⟨hcold, deriveUniswapV3SetFeeProtocol_address hok, setFeeProtocol_inv hk hI h hok⟩
  | collectProtocol event =>
    obtain ⟨hok, hcold⟩ := exactly_eq_ok.mp hok
    exact ⟨hcold, deriveUniswapV3CollectProtocol_address hok, collectProtocol_inv hk hI hok⟩
  | observationGrowth event =>
    obtain ⟨hok, hcold⟩ := exactly_eq_ok.mp hok
    exact ⟨hcold, deriveUniswapV3ObservationGrowth_address hok, observationGrowth_inv hk hI h hok⟩

variable (pool) in
/-- One event: the view stays full and its pool well formed. -/
theorem replayStep_inv (hk : DistinctKeys keccak) (hI : PoolInvariant keccak pool.tickSpacing F) (h : Holds state address F)
    {event : PoolEvent × AdapterEventContext} (hclean : EmptiesCleanly keccak address state event.1) {state' : StateView}
    (hok : replayStep keccak address (.uniswap pool.tickSpacing) pool.fee state event = .ok state') :
    ∃ F', Holds state' address F' ∧ PoolInvariant keccak pool.tickSpacing F' := by
  obtain ⟨transition, hreplay, hstate'⟩ := bind_eq_ok.mp hok
  obtain rfl := pure_eq_ok.mp hstate'
  obtain ⟨hcold, haddr, hinv⟩ := replay_inv hk hI h hclean hreplay
  rw [hcold, purge_nil]
  exact ⟨_, h.applyUpdates haddr, hinv⟩

variable (pool) in
/-- A run of events from a full, well-formed view: after every event the view is full and well formed, as long as the
    burns of the run empty cleanly. -/
theorem replayRun_inv (hk : DistinctKeys keccak) (hI : PoolInvariant keccak pool.tickSpacing F) (h : Holds state address F)
    {events : List (PoolEvent × AdapterEventContext)} (hclean : CleanRun keccak address pool state events)
    {state' : StateView} (hrun : replayRun keccak address (.uniswap pool.tickSpacing) pool.fee state events = .ok state') :
    ∃ F', Holds state' address F' ∧ PoolInvariant keccak pool.tickSpacing F' := by
  induction events generalizing state F with
  | nil =>
    obtain rfl := pure_eq_ok.mp hrun
    exact ⟨F, h, hI⟩
  | cons event rest ih =>
    obtain ⟨middle, hstep, hrun⟩ := bind_eq_ok.mp hrun
    obtain ⟨G, hG, hIG⟩ := replayStep_inv pool hk hI h hclean.1 hstep
    exact ih hIG hG (hclean.2 middle hstep) hrun

end

/-! ### Two concrete runs -/

/-- The writes of a tick above the price that holds liquidity. -/
def heldTick (tick : Int) (gross : Nat) (net : Int) : List StateUpdate :=
  tickWordUpdates 7 (v3TickInfoStorageKeysWithBase tabulatedKeccak tick V3_TICKS_BASE_SLOT)
    ⟨liquidityWord gross net, 0, 0, (1 : U256) <<< 248⟩

def mint180 : PoolEvent × AdapterEventContext := (.liquidity ⟨120, 180, 5, true⟩, contextAt 1012)
def mint240 : PoolEvent × AdapterEventContext := (.liquidity ⟨120, 240, 5, true⟩, contextAt 1024)
def burn180 : PoolEvent × AdapterEventContext := (.liquidity ⟨120, 180, 5, false⟩, contextAt 1036)
/-- A range that was never minted: it ends where one range ends and starts where another does. -/
def burn240 : PoolEvent × AdapterEventContext := (.liquidity ⟨180, 240, 5, false⟩, contextAt 1036)

/-- The pool after one mint, and after both. -/
def minted180 : StateView := (viewOf poolAt90).applyUpdates
  (heldTick 120 5 5 ++ heldTick 180 5 (-5) ++ [⟨7, bitmapSlot tabulatedKeccak 0, 12⟩])

def minted240 : StateView := minted180.applyUpdates
  (heldTick 120 10 10 ++ heldTick 240 5 (-5) ++ [⟨7, bitmapSlot tabulatedKeccak 0, 28⟩])

def writes (r : Result CanonicalLiquidityTransition) (updates : List StateUpdate) : Bool :=
  match r with
  | .ok transition => decide (transition.updates = updates) && transition.coldSlots.isEmpty
  | .error _ => false

theorem replayStep_of_writes {state : StateView} {event : PoolEvent × AdapterEventContext} {updates : List StateUpdate}
    (h : writes (replay tabulatedKeccak 7 (.uniswap 60) 3000 event.1 state event.2) updates = true) :
    replayStep tabulatedKeccak 7 (.uniswap 60) 3000 state event = .ok (state.applyUpdates updates) := by
  unfold replayStep
  cases hr : replay tabulatedKeccak 7 (.uniswap 60) 3000 event.1 state event.2 with
  | error e =>
    rw [hr] at h
    cases h
  | ok transition =>
    obtain ⟨us, cold⟩ := transition
    rw [hr] at h
    simp only [writes, Bool.and_eq_true, decide_eq_true_eq, List.isEmpty_iff] at h
    obtain ⟨rfl, rfl⟩ := h
    rw [ok_bind, purge_nil]
    rfl

theorem mint180_step : replayStep tabulatedKeccak 7 (.uniswap 60) 3000 (viewOf poolAt90) mint180 = .ok minted180 :=
  replayStep_of_writes (by decide +kernel)

theorem mint240_step : replayStep tabulatedKeccak 7 (.uniswap 60) 3000 minted180 mint240 = .ok minted240 :=
  replayStep_of_writes (by decide +kernel)

theorem poolAt90_invariant : PoolInvariant tabulatedKeccak 60 poolAt90 :=
  ⟨poolAt90_wellFormed.ticks, poolAt90_wellFormed.sums, poolAt90_wellFormed.price, poolAt90_wellFormed.oracle⟩

/-- A range minted and burned again. -/
theorem replayRun_inv_mintAndBurn : ∃ state' F',
    replayRun tabulatedKeccak 7 (.uniswap 60) 3000 (viewOf poolAt90) [mint180, burn180] = .ok state' ∧
      Holds state' 7 F' ∧ PoolInvariant tabulatedKeccak 60 F' := by
  have hburn : ∃ state', replayStep tabulatedKeccak 7 (.uniswap 60) 3000 minted180 burn180 = .ok state' :=
    isOk_iff.mp (by decide +kernel)
  obtain ⟨state', hburn⟩ := hburn
  have hrun : replayRun tabulatedKeccak 7 (.uniswap 60) 3000 (viewOf poolAt90) [mint180, burn180] = .ok state' := by
    rw [replayRun, List.foldlM_cons, mint180_step, ok_bind, List.foldlM_cons, hburn]
    rfl
  have h120 : minted180.storage 7 (tickSlot tabulatedKeccak 120 0) = some (liquidityWord 5 5) := by decide +kernel
  have h180 : minted180.storage 7 (tickSlot tabulatedKeccak 180 0) = some (liquidityWord 5 (-5)) := by decide +kernel
  have hclean : CleanRun tabulatedKeccak 7 ⟨3000, 60⟩ (viewOf poolAt90) [mint180, burn180] := by
    refine ⟨nofun, fun middle hstep => ⟨fun _ => ⟨fun word hword _ => ?_, fun word hword _ => ?_⟩, fun _ _ => trivial⟩⟩
    · obtain rfl := Except.ok.inj (mint180_step.symm.trans hstep)
      obtain rfl := Option.some.inj (h120.symm.trans hword)
      decide
    · obtain rfl := Except.ok.inj (mint180_step.symm.trans hstep)
      obtain rfl := Option.some.inj (h180.symm.trans hword)
      decide
  obtain ⟨F', hF'⟩ := replayRun_inv ⟨3000, 60⟩ tabulatedKeccak_distinct poolAt90_invariant (fun _ => rfl) hclean hrun
  exact ⟨state', F', hrun, hF'⟩

/-- Both mints keep the pool well formed. -/
theorem minted240_invariant : ∃ F, Holds minted240 7 F ∧ PoolInvariant tabulatedKeccak 60 F := by
  have h180 : EmptiesCleanly tabulatedKeccak 7 (viewOf poolAt90) mint180.1 := fun h => nomatch (h : true = false)
  have h240 : EmptiesCleanly tabulatedKeccak 7 minted180 mint240.1 := fun h => nomatch (h : true = false)
  obtain ⟨F, hF, hI⟩ := replayStep_inv ⟨3000, 60⟩ tabulatedKeccak_distinct poolAt90_invariant
    (fun _ => rfl) h180 mint180_step
  exact replayStep_inv ⟨3000, 60⟩ tabulatedKeccak_distinct hI hF h240 mint240_step

/-- A burn of a range that nobody minted is accepted, and the net liquidity of the ticks no longer balances. -/
theorem replayRun_burn240_unbalanced : DistinctKeys tabulatedKeccak ∧ PoolInvariant tabulatedKeccak 60 poolAt90 ∧
    ∃ state', replayRun tabulatedKeccak 7 (.uniswap 60) 3000 (viewOf poolAt90) [mint180, mint240, burn240] = .ok state' ∧
      ∀ F', Holds state' 7 F' → ¬ PoolInvariant tabulatedKeccak 60 F' := by
  refine ⟨tabulatedKeccak_distinct, poolAt90_invariant, ?_⟩
  obtain ⟨state', hburn⟩ := isOk_iff.mp (show (replayStep tabulatedKeccak 7
    (.uniswap 60) 3000 minted240 burn240).isOk = true
    by decide +kernel)
  refine ⟨state', ?_, fun F' hF' hI' => ?_⟩
  · rw [replayRun, List.foldlM_cons, mint180_step, ok_bind, List.foldlM_cons, mint240_step, ok_bind,
      List.foldlM_cons, hburn]
    rfl
  obtain ⟨F, hF, hI⟩ := minted240_invariant
  obtain ⟨transition, hok, hstate'⟩ := bind_eq_ok.mp hburn
  have hok : deriveUniswapV3Liquidity tabulatedKeccak 7 (.uniswap (Immutables.mk 3000 60).tickSpacing) minted240
    ⟨180, 240, 5, false⟩ (contextAt 1036) = .ok transition := hok
  obtain ⟨-, -, -, -, hcold, haddr, -⟩ := deriveUniswapV3Liquidity_sound tabulatedKeccak_distinct hI.ticks hI.oracle hF hok
  have hF'eq : F' = F.applyUpdates transition.updates := by
    funext x
    have hx := hF.applyUpdates haddr x
    rw [← pure_eq_ok.mp hstate', hcold, purge_nil] at hF'
    exact Option.some.inj ((hF' x).symm.trans hx)
  have h180 : F (tickSlot tabulatedKeccak 180 0) = liquidityWord 5 (-5) :=
    Option.some.inj ((hF _).symm.trans (by decide +kernel))
  have h240 : F (tickSlot tabulatedKeccak 240 0) = liquidityWord 5 (-5) :=
    Option.some.inj ((hF _).symm.trans (by decide +kernel))
  rcases liquidity_moves tabulatedKeccak_distinct hI.ticks hI.oracle hF hok with ⟨h0, -⟩ | ⟨time, parent, l, u, hmove⟩
  · exact absurd h0 (by decide)
  · have hl : settledNet l = 0 := by
      have hgross : grossAt tabulatedKeccak F 180 = 5 := by rw [grossAt, h180]; decide
      obtain ⟨hl, -⟩ := changeTick_eq_some.mp (hgross ▸ hmove.changeLower)
      exact if_pos (Option.some.inj hl).symm
    have hu : settledNet u = 0 := by
      have hgross : grossAt tabulatedKeccak F 240 = 5 := by rw [grossAt, h240]; decide
      obtain ⟨hu, -⟩ := changeTick_eq_some.mp (hgross ▸ hmove.changeUpper)
      exact if_pos (Option.some.inj hu).symm
    have hnet180 : netAt tabulatedKeccak F 180 = -5 := by rw [netAt, h180]; decide
    have hnet240 : netAt tabulatedKeccak F 240 = -5 := by rw [netAt, h240]; decide
    have hsum := hmove.sumNet tabulatedKeccak_distinct hI.ticks hI.oracle le_rfl
    have hbefore : sumNet tabulatedKeccak F MAX_TICK = 0 := hI.sums.net
    have hafter : sumNet tabulatedKeccak (F.applyUpdates transition.updates) MAX_TICK = 0 := hF'eq ▸ hI'.sums.net
    rw [hbefore, hafter, hl, hu] at hsum
    simp only [hnet180, hnet240] at hsum
    exact absurd hsum (by decide)

end AmmState.Canonical
