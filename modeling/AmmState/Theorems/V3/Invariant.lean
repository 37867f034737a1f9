import AmmState.Theorems.V3.Batches
import AmmState.Theorems.V3.Path

/-! Well-formedness of a replayed pool over whole runs: every event keeps ticks, bitmap, liquidity sums, price and oracle in
    agreement, as long as a burn that empties a tick empties its net liquidity too. -/

namespace AmmState.Canonical
open V3 Checked

/-- What the words of a pool say of each other. -/
structure PoolInvariant (keccak : Keccak) (spacing : Int) (F : Storage) : Prop where
  ticks : TicksAgree keccak spacing F
  sums : LiquiditySums keccak F
  price : PriceInTick F
  oracle : OracleReady F

/-! ### Writes that leave the ticks alone -/

/-- Two storages with the same bitmap, the same liquidity at every tick and the same empty ticks. -/
structure SameTicks (keccak : Keccak) (F G : Storage) : Prop where
  word0 : ∀ t, InRange t → G (tickSlot keccak t 0) = F (tickSlot keccak t 0)
  flag : ∀ t, InRange t → flagAt keccak G t = flagAt keccak F t
  bitmap : ∀ w, G (bitmapSlot keccak w) = F (bitmapSlot keccak w)
  empty : ∀ t, InRange t → grossAt keccak F t = 0 → tickInfo keccak G t = tickInfo keccak F t

/-- A batch that keeps the ticks of `F` and writes no fixed cell. -/
def TickBatch (keccak : Keccak) (F : Storage) (us : List StateUpdate) : Prop :=
  ∀ G, SameTicks keccak F G → SameTicks keccak F (G.applyUpdates us) ∧
    ∀ n < 2 ^ 17, G.applyUpdates us (BitVec.ofNat 256 n) = G (BitVec.ofNat 256 n)

section
variable {keccak : Keccak} {spacing : Int} {F G : Storage}

theorem SameTicks.refl (keccak : Keccak) (F : Storage) : SameTicks keccak F F :=
  ⟨fun _ _ => rfl, fun _ _ => rfl, fun _ => rfl, fun _ _ _ => rfl⟩

theorem SameTicks.gross (h : SameTicks keccak F G) {t : Int} (ht : InRange t) :
    grossAt keccak G t = grossAt keccak F t := by
  rw [grossAt, h.word0 t ht, grossAt]

theorem SameTicks.net (h : SameTicks keccak F G) {t : Int} (ht : InRange t) : netAt keccak G t = netAt keccak F t := by
  rw [netAt, h.word0 t ht, netAt]

theorem SameTicks.sumNet (h : SameTicks keccak F G) {t : Int} (ht : t ≤ MAX_TICK) :
    sumNet keccak G t = sumNet keccak F t :=
  Finset.sum_congr rfl fun x hx => by
    obtain ⟨h₁, h₂⟩ := Finset.mem_Icc.mp hx
    exact h.net ⟨h₁, h₂.trans ht⟩

theorem SameTicks.ticks (h : SameTicks keccak F G) (hT : TicksAgree keccak spacing F) : TicksAgree keccak spacing G := by
  refine ⟨fun c h₁ h₂ => ?_, fun t ht hg => ?_, fun t ht => ?_, fun t ht hg => ?_⟩
  · have hbit : bitSet keccak G c = bitSet keccak F c := by rw [bitSet, h.bitmap, bitSet]
    rw [hbit, hT.bit_iff c h₁ h₂]
    exact and_congr_right fun hr => by rw [h.gross hr]
  · exact hT.aligned t ht (h.gross ht ▸ hg)
  · rw [h.flag t ht, h.gross ht]
    exact hT.flag_iff t ht
  · rw [h.gross ht] at hg
    rw [h.empty t ht hg]
    exact hT.empty t ht hg

/-- Cells apart from ticks and bitmap may change. -/
theorem SameTicks.of_cells (hcells : ∀ t i, InRange t → i < 4 → G (tickSlot keccak t i) = F (tickSlot keccak t i))
    (hbits : ∀ w, G (bitmapSlot keccak w) = F (bitmapSlot keccak w)) : SameTicks keccak F G :=
  ⟨fun t ht => hcells t 0 ht (by decide), fun t ht => by rw [flagAt, hcells t 3 ht (by decide), flagAt], hbits,
    fun t ht _ => tickInfo_congr fun i hi => hcells t i ht hi⟩

theorem SameTicks.fixed (hk : DistinctKeys keccak) {us : List StateUpdate}
    (hus : ∀ u ∈ us, ∃ n < 2 ^ 17, u.slot = BitVec.ofNat 256 n) : SameTicks keccak F (F.applyUpdates us) := by
  refine .of_cells (fun t i ht hi => Storage.applyUpdates_of_notMem fun u hu => ?_) fun w =>
    Storage.applyUpdates_of_notMem fun u hu => ?_
  · obtain ⟨n, hn, hslot⟩ := hus u hu
    rw [hslot]
    exact (hk.tick_ne_fixed ht hi hn).symm
  · obtain ⟨n, hn, hslot⟩ := hus u hu
    rw [hslot]
    exact (hk.bitmap_ne_fixed hn).symm

theorem TickBatch.nil (keccak : Keccak) (F : Storage) : TickBatch keccak F [] := fun _ h => ⟨h, fun _ _ => rfl⟩

theorem TickBatch.append {us vs : List StateUpdate} (hus : TickBatch keccak F us) (hvs : TickBatch keccak F vs) :
    TickBatch keccak F (us ++ vs) := by
  intro G hG
  obtain ⟨h₁, h₂⟩ := hus G hG
  obtain ⟨h₃, h₄⟩ := hvs _ h₁
  rw [Storage.applyUpdates_append]
  exact ⟨h₃, fun n hn => (h₄ n hn).trans (h₂ n hn)⟩

theorem flag_crossTickWord (raw : U256) (cumulative : Int) (seconds timestamp : Nat) :
    tickFlag (crossTickWord raw cumulative seconds timestamp) = tickFlag raw := by
  unfold tickFlag field crossTickWord
  simp only []
  rw [Packed.get_set_of_disjoint (by omega), Packed.get_set_of_disjoint (by omega), Packed.get_set_of_disjoint (by omega)]

/-- The writes of a crossing keep the liquidity and the flag of the tick. -/
theorem TickBatch.cross (hk : DistinctKeys keccak) {t : Int} (ht : InRange t) (hg : grossAt keccak F t ≠ 0)
    (address : Address) (now : Observation) (timestamp : Nat) (growth0 growth1 : U256) :
    TickBatch keccak F (crossTick address now timestamp (crossedTick keccak F t) growth0 growth1) := by
  intro G hG
  set words : TickWords := ⟨F (tickSlot keccak t 0), growth0 - F (tickSlot keccak t 1), growth1 - F (tickSlot keccak t 2),
    crossTickWord (F (tickSlot keccak t 3)) now.tickCumulative now.secondsPerLiquidityCumulativeX128 timestamp⟩ with hwords
  have heq : G.applyUpdates (crossTick address now timestamp (crossedTick keccak F t) growth0 growth1) =
      setTickInfo keccak G t words := applyUpdates_tickWordUpdates G address t words
  rw [heq]
  have hself : tickInfo keccak (setTickInfo keccak G t words) t = words := tickInfo_setTickInfo G t words
  have hother : ∀ s, InRange s → s ≠ t → tickInfo keccak (setTickInfo keccak G t words) s = tickInfo keccak G s :=
    fun s hs hne => tickInfo_setTickInfo_of_ne hk ht hs hne words
  refine ⟨⟨fun s hs => ?_, fun s hs => ?_, fun w => ?_, fun s hs hgs => ?_⟩, fun n hn => setTickInfo_fixed hk ht hn words⟩
  · by_cases hst : s = t
    · subst hst
      exact congrArg TickWords.word0 hself
    · exact (congrArg TickWords.word0 (hother s hs hst)).trans (hG.word0 s hs)
  · by_cases hst : s = t
    · subst hst
      have hword3 : setTickInfo keccak G s words (tickSlot keccak s 3) = words.word3 := congrArg TickWords.word3 hself
      rw [flagAt, hword3, hwords, flag_crossTickWord]
      rfl
    · have hword3 : setTickInfo keccak G t words (tickSlot keccak s 3) = G (tickSlot keccak s 3) :=
        congrArg TickWords.word3 (hother s hs hst)
      rw [flagAt, hword3]
      exact hG.flag s hs
  · rw [setTickInfo_bitmap hk ht]
    exact hG.bitmap w
  · have hst : s ≠ t := fun h => hg (h ▸ hgs)
    rw [hother s hs hst]
    exact hG.empty s hs hgs

end

/-! ### Swaps -/

section
variable {raw : U256} {price index cardinality : Nat} {tick : Int}

theorem encodeFinal_price (h : price < 2 ^ 160) :
    field ((Slot0.decode raw).encodeFinal price tick index cardinality) 0 160 = price := by
  unfold field Slot0.encodeFinal
  simp only []
  rw [Packed.get_set_of_disjoint (by omega), Packed.get_set_of_disjoint (by omega), Packed.get_set_of_disjoint (by omega),
    Packed.get_set_self (by omega), BitVec.toNat_ofNat, Nat.mod_eq_of_lt h]

theorem encodeFinal_tick (h : MIN_TICK ≤ tick ∧ tick ≤ MAX_TICK) :
    signedField ((Slot0.decode raw).encodeFinal price tick index cardinality) 160 24 = tick := by
  obtain ⟨hlo, hhi⟩ := h
  unfold MIN_TICK at hlo
  unfold MAX_TICK at hhi
  unfold signedField Slot0.encodeFinal
  simp only []
  rw [Packed.get_set_of_disjoint (by omega), Packed.get_set_of_disjoint (by omega), Packed.get_set_self (by omega),
    BitVec.toInt_ofInt_eq_self (by omega) (by omega) (by omega)]

theorem encodeFinal_index (h : index < 2 ^ 16) :
    field ((Slot0.decode raw).encodeFinal price tick index cardinality) 184 16 = index := by
  unfold field Slot0.encodeFinal
  simp only []
  rw [Packed.get_set_of_disjoint (by omega), Packed.get_set_self (by omega), BitVec.toNat_ofNat, Nat.mod_eq_of_lt h]

theorem encodeFinal_cardinality (h : cardinality < 2 ^ 16) :
    field ((Slot0.decode raw).encodeFinal price tick index cardinality) 200 16 = cardinality := by
  unfold field Slot0.encodeFinal
  simp only []
  rw [Packed.get_set_self (by omega), BitVec.toNat_ofNat, Nat.mod_eq_of_lt h]

theorem encodeFinal_rest {lo len : Nat} (h : 216 ≤ lo) :
    field ((Slot0.decode raw).encodeFinal price tick index cardinality) lo len = field raw lo len := by
  unfold field Slot0.encodeFinal
  simp only []
  rw [Packed.get_set_of_disjoint (by omega), Packed.get_set_of_disjoint (by omega), Packed.get_set_of_disjoint (by omega),
    Packed.get_set_of_disjoint (by omega)]
  rfl

end

section
variable {keccak : Keccak} {spacing : Int} {F : Storage} {state : StateView} {address : Address}

/-- The ticks that a list of segments crosses hold liquidity. -/
def CrossesHeld (keccak : Keccak) (F : Storage) (segments : List Segment) : Prop :=
  ∀ segment ∈ segments, ∀ c ∈ segment.crossedTick, ∃ t, InRange t ∧ grossAt keccak F t ≠ 0 ∧ c = crossedTick keccak F t

theorem allocateSegment_tickBatch (hk : DistinctKeys keccak) {fee divisor timestamp : Nat} {zeroForOne isLast : Bool}
    {now : Observation} {segment : Segment} {f f' : FeeState} (hs : CrossesHeld keccak F [segment])
    (h : allocateSegment address fee divisor zeroForOne now timestamp segment isLast f = .ok f')
    (hf : TickBatch keccak F f.tickUpdates) : TickBatch keccak F f'.tickUpdates := by
  obtain ⟨feeAmount, -, h⟩ := bind_eq_ok.mp h
  obtain ⟨remaining, -, h⟩ := bind_eq_ok.mp h
  obtain ⟨growth, -, h⟩ := bind_eq_ok.mp h
  cases hc : segment.crossedTick with
  | none =>
    rw [hc] at h
    obtain rfl := pure_eq_ok.mp h
    rwa [accrue_tickUpdates]
  | some c =>
    rw [hc] at h
    obtain rfl := pure_eq_ok.mp h
    obtain ⟨t, ht, hg, rfl⟩ := hs segment List.mem_cons_self c hc
    rw [accrue_tickUpdates]
    exact hf.append (.cross hk ht hg address now timestamp _ _)

theorem allocateFees_tickBatch (hk : DistinctKeys keccak) {fee divisor timestamp : Nat} {zeroForOne : Bool}
    {now : Observation} {segments : List Segment} {f f' : FeeState} (hs : CrossesHeld keccak F segments)
    (h : allocateFees address fee divisor zeroForOne now timestamp segments f = .ok f')
    (hf : TickBatch keccak F f.tickUpdates) : TickBatch keccak F f'.tickUpdates := by
  induction segments generalizing f with
  | nil =>
    obtain rfl := pure_eq_ok.mp h
    exact hf
  | cons segment rest ih =>
    obtain ⟨g, hg, h⟩ := bind_eq_ok.mp h
    refine ih (fun s hs' => hs s (List.mem_cons_of_mem _ hs')) h (allocateSegment_tickBatch hk ?_ hg hf)
    intro s hs'
    obtain rfl := List.mem_singleton.mp hs'
    exact hs s List.mem_cons_self

/-- The fixed cells that a swap reads are those of the pool. -/
theorem loadSwapParent_spec (h : Holds state address F) {parent : SwapParent}
    (hok : loadSwapParent address (.uniswap spacing) state = .ok parent) :
    (parent = ⟨Slot0.decode F.slot0, (F 4).toNat, F 1, F 2, F 3⟩ ∧ (F 4).toNat < 2 ^ 128) ∧
      field F.slot0 240 8 = 1 ∧ F.sqrtPriceX96 < MAX_SQRT_RATIO ∧ PriceInTick F := by
  obtain ⟨⟨slot0, liquidity⟩, hslot0, hok⟩ := bind_eq_ok.mp hok
  obtain ⟨raw, hraw, hunlocked, hprice, word, hword, hlt, heq⟩ := loadSlot0_eq_ok.mp hslot0
  obtain rfl : F 0 = raw := Option.some.inj ((h 0).symm.trans hraw)
  obtain rfl : F 4 = word := Option.some.inj ((h 4).symm.trans hword)
  obtain ⟨rfl, rfl⟩ := Prod.mk.inj heq
  obtain ⟨hmax, hlo, hhi, hlower, hupper⟩ := validateParentSlot0_eq_ok.mp hprice
  simp only [h.required, ok_bind] at hok
  obtain rfl := pure_eq_ok.mp hok
  exact ⟨⟨rfl, hlt⟩, hunlocked, hmax, hlo, hhi, hlower, hupper⟩

/-- What a swap's oracle leaves: an index in use, and a written observation that is initialized. -/
structure RingSpec (F : Storage) (oracle : OracleAdvance) : Prop where
  index_lt : oracle.observationIndex < oracle.observationCardinality
  cardinality_le : oracle.observationCardinality ≤ F.observationCardinalityNext
  write : ∀ w ∈ oracle.write, w.1 = observationSlot oracle.observationIndex ∧ (Observation.decode w.2).initialized = true
  same : oracle.write = none →
    oracle.observationIndex = F.observationIndex ∧ oracle.observationCardinality = F.observationCardinality

theorem RingSpec.index_lt_word {oracle : OracleAdvance} (h : RingSpec F oracle) : oracle.observationIndex < 2 ^ 16 := by
  have h₁ := h.index_lt
  have h₂ := h.cardinality_le
  have h₃ : F.observationCardinalityNext < 2 ^ 16 := field_lt _ _ _
  omega

theorem PriceInTick.of_eq {F' : Storage} (h : PriceInTick F) (htick : F'.tick = F.tick)
    (hprice : F'.sqrtPriceX96 = F.sqrtPriceX96) : PriceInTick F' := by
  refine ⟨?_, ?_, ?_, ?_⟩
  · rw [htick]
    exact h.tick_ge
  · rw [htick]
    exact h.tick_lt
  · rw [htick, hprice]
    exact h.lower
  · rw [htick, hprice]
    exact h.upper

/-- The ring stays in use where its index, its cardinality and its current cell stay. -/
theorem OracleReady.of_cells {F' : Storage} (hO : OracleReady F) (hindex : F'.observationIndex = F.observationIndex)
    (hcard : F'.observationCardinality = F.observationCardinality)
    (hnext : F.observationCardinalityNext ≤ F'.observationCardinalityNext)
    (hcell : F' (observationSlot F.observationIndex) = F (observationSlot F.observationIndex)) : OracleReady F' := by
  refine ⟨?_, ?_, ?_⟩
  · rw [hindex, hcard]
    exact hO.index_lt
  · rw [hcard]
    exact hO.cardinality_le.trans hnext
  · rw [hindex, hcell]
    exact hO.initialized

/-- The ring stays in use where `slot0` takes the new index and cardinality. -/
theorem RingSpec.ready {oracle : OracleAdvance} {F' : Storage} (h : RingSpec F oracle) (hO : OracleReady F)
    (hindex : F'.observationIndex = oracle.observationIndex)
    (hcard : F'.observationCardinality = oracle.observationCardinality)
    (hnext : F'.observationCardinalityNext = F.observationCardinalityNext) (hwrite : ∀ w ∈ oracle.write, F' w.1 = w.2)
    (hnone : oracle.write = none → ∀ i < 2 ^ 16, F' (observationSlot i) = F (observationSlot i)) : OracleReady F' := by
  refine ⟨?_, ?_, ?_⟩
  · rw [hindex, hcard]
    exact h.index_lt
  · rw [hcard, hnext]
    exact h.cardinality_le
  · rw [hindex]
    cases hw : oracle.write with
    | none =>
      rw [hnone hw _ h.index_lt_word, (h.same hw).1]
      exact hO.initialized
    | some w =>
      obtain ⟨hslot, hinit⟩ := h.write w hw
      rw [← hslot, hwrite w hw]
      exact hinit

theorem RingSpec.cardinality_lt_word {oracle : OracleAdvance} (h : RingSpec F oracle) :
    oracle.observationCardinality < 2 ^ 16 := h.cardinality_le.trans_lt (field_lt _ _ _)

theorem AdvanceSpec.ring {time liquidity : Nat} {oracle : OracleAdvance} (h : AdvanceSpec F time liquidity oracle) :
    RingSpec F oracle := ⟨h.index_lt, h.cardinality_le, h.write, h.same⟩

theorem swapOracle_spec (h : Holds state address F) (hO : OracleReady F) {time liquidity : Nat} (ht : time < 2 ^ 32)
    (hl : liquidity < 2 ^ 128) {tick : Int} {oracle : OracleAdvance}
    (hok : swapOracle address (Slot0.decode F.slot0) liquidity state time tick = .ok oracle) : RingSpec F oracle := by
  unfold swapOracle at hok
  split_ifs at hok
  · obtain ⟨advance, hadv, hspec⟩ := advanceOracle_spec h hO ht hl
    obtain rfl := Except.ok.inj (hadv.symm.trans hok)
    exact hspec.ring
  · obtain rfl := Except.ok.inj hok
    exact ⟨hO.index_lt, hO.cardinality_le, nofun, fun _ => ⟨rfl, rfl⟩⟩

/-- The event of a successful replay moves the price its own way and stands in its tick. -/
theorem checkSwapEvent_spec {slot0 : Slot0} {swap : DecodedSwap} {zeroForOne : Bool}
    (h : checkSwapEvent slot0 swap = .ok zeroForOne) :
    swapDirection swap = .ok zeroForOne ∧ FinalTick swap zeroForOne ∧
      (unchangedTinySwap slot0 swap zeroForOne = true ∨
        if zeroForOne then swap.sqrtPriceX96 < slot0.sqrtPriceX96 else slot0.sqrtPriceX96 < swap.sqrtPriceX96) := by
  obtain ⟨z, hz, h⟩ := bind_eq_ok.mp h
  obtain ⟨_, hdir, h⟩ := bind_eq_ok.mp h
  obtain ⟨_, hfinal, h⟩ := bind_eq_ok.mp h
  obtain rfl := pure_eq_ok.mp h
  exact ⟨hz, .of_ok hfinal, ensure_eq_ok.mp hdir⟩

theorem PathInv.start (hI : PoolInvariant keccak spacing F) (hl : (F 4).toNat < 2 ^ 128) {swap : DecodedSwap}
    {zeroForOne : Bool} (hdir : unchangedTinySwap (Slot0.decode F.slot0) swap zeroForOne = true ∨
      if zeroForOne then swap.sqrtPriceX96 < F.sqrtPriceX96 else F.sqrtPriceX96 < swap.sqrtPriceX96) :
    PathInv keccak F swap zeroForOne ⟨F.sqrtPriceX96, F.tick, (F 4).toNat, []⟩ := by
  have hside : if zeroForOne then swap.sqrtPriceX96 ≤ F.sqrtPriceX96 else F.sqrtPriceX96 ≤ swap.sqrtPriceX96 := by
    rcases hdir with hdir | hdir
    · have heq : swap.sqrtPriceX96 = F.sqrtPriceX96 := (of_decide_eq_true hdir).2
      rw [heq]
      split_ifs <;> exact le_rfl
    · split_ifs at hdir ⊢ <;> exact hdir.le
  exact ⟨hI.price.tick_ge, hI.price.tick_lt, hI.price.lower, hI.price.upper, fun hz => by subst hz; exact hside,
    fun hz => by subst hz; exact hside, hI.sums.active, hl, nofun⟩

theorem CrossesHeld.nil (keccak : Keccak) (F : Storage) : CrossesHeld keccak F [] := nofun

theorem CrossesHeld.append {segments : List Segment} (h : CrossesHeld keccak F segments) (sqrt liquidity : Nat) :
    CrossesHeld keccak F (segments ++ [emptySegment sqrt liquidity]) := by
  intro s hs
  rcases List.mem_append.mp hs with hs | hs
  · exact h s hs
  · obtain rfl := List.mem_singleton.mp hs
    nofun

/-- The path and the segments of a successful replay. -/
theorem replaySegments_spec {swap : DecodedSwap} {zeroForOne : Bool} {slot0 : Slot0} {liquidity : Nat} {path : Path}
    {segments : List Segment}
    (h : replaySegments keccak address (.uniswap spacing) state slot0 liquidity swap zeroForOne = .ok (path, segments)) :
    replayPath keccak address (.uniswap spacing) state swap zeroForOne ⟨slot0.sqrtPriceX96, slot0.tick, liquidity, []⟩ =
        .ok path ∧ path.liquidity = swap.liquidity ∧ path.tick = swap.tick ∧
      (path.segments ≠ [] ∧ segments = path.segments ∨
        path.segments = [] ∧ unchangedTinySwap slot0 swap zeroForOne = true ∧
          segments = [emptySegment path.sqrt path.liquidity]) := by
  obtain ⟨path', hpath, h⟩ := bind_eq_ok.mp h
  obtain ⟨segments', hsegments, h⟩ := bind_eq_ok.mp h
  obtain ⟨_, hliquidity, h⟩ := bind_eq_ok.mp h
  obtain ⟨_, htick, h⟩ := bind_eq_ok.mp h
  obtain ⟨rfl, rfl⟩ := Prod.mk.inj (pure_eq_ok.mp h)
  refine ⟨hpath, ensure_eq_ok.mp hliquidity, ensure_eq_ok.mp htick, ?_⟩
  unfold pathSegments at hsegments
  split_ifs at hsegments with hnil htiny
  · exact .inr ⟨hnil, htiny, (Except.ok.inj hsegments).symm⟩
  · exact .inl ⟨hnil, (Except.ok.inj hsegments).symm⟩

theorem PoolInvariant.of_sameTicks {F' : Storage} (hI : PoolInvariant keccak spacing F) (hsame : SameTicks keccak F F')
    (hactive : ((F' 4).toNat : Int) = sumNet keccak F F'.tick) (hprice : PriceInTick F') (hO : OracleReady F') :
    PoolInvariant keccak spacing F' := by
  refine ⟨hsame.ticks hI.ticks, ⟨?_, ?_⟩, hprice, hO⟩
  · exact (hsame.sumNet le_rfl).trans hI.sums.net
  · rw [hactive]
    exact (hsame.sumNet hprice.tick_lt.le).symm

/-- The cells of the pool after a swap: the ticks keep their liquidity, the fixed cells have the new values. -/
theorem swapUpdates_cells (hk : DistinctKeys keccak) (address : Address) (spacing : Int) (parent : SwapParent)
    (swap : DecodedSwap) (path : Path) {oracle : OracleAdvance} {f : FeeState} (hO : RingSpec F oracle)
    (hf : TickBatch keccak F f.tickUpdates) :
    let F' := F.applyUpdates (swapUpdates address (.uniswap spacing) parent swap oracle path f)
    SameTicks keccak F F' ∧
      F' 0 = parent.slot0.encodeFinal swap.sqrtPriceX96 swap.tick oracle.observationIndex oracle.observationCardinality ∧
      F' 4 = BitVec.ofNat 256 path.liquidity ∧
      (∀ w ∈ oracle.write, F' w.1 = w.2) ∧
      (oracle.write = none → ∀ i < 2 ^ 16, F' (observationSlot i) = F (observationSlot i)) := by
  intro F'
  set slot0 := parent.slot0.encodeFinal swap.sqrtPriceX96 swap.tick oracle.observationIndex oracle.observationCardinality
  set fixed : List StateUpdate := [⟨address, 0, slot0⟩, ⟨address, 1, f.feeGrowth0⟩, ⟨address, 2, f.feeGrowth1⟩,
    ⟨address, 3, f.protocolFees⟩, ⟨address, 4, BitVec.ofNat 256 path.liquidity⟩]
  set ring : List StateUpdate := oracle.write.toList.map fun w => ⟨address, w.1, w.2⟩
  have hF' : F' = (F.applyUpdates (fixed ++ ring)).applyUpdates f.tickUpdates := Storage.applyUpdates_append _ _ _
  have hslots : ∀ u ∈ fixed ++ ring, ∃ n < 2 ^ 17, u.slot = BitVec.ofNat 256 n := by
    intro u hu
    rcases List.mem_append.mp hu with hu | hu
    · simp only [fixed, List.mem_cons, List.not_mem_nil, or_false] at hu
      rcases hu with rfl | rfl | rfl | rfl | rfl
      exacts [⟨0, by decide, rfl⟩, ⟨1, by decide, rfl⟩, ⟨2, by decide, rfl⟩, ⟨3, by decide, rfl⟩, ⟨4, by decide, rfl⟩]
    · obtain ⟨w, hw, rfl⟩ := List.mem_map.mp hu
      have hindex := hO.index_lt_word
      refine ⟨8 + oracle.observationIndex, by omega, ?_⟩
      rw [← observationSlot_eq]
      exact (hO.write w (Option.mem_toList.mp hw)).1
  obtain ⟨hsame, hcells⟩ := hf _ (SameTicks.fixed hk hslots)
  rw [← hF'] at hsame
  have hfixed : ∀ n < 2 ^ 17, F' (BitVec.ofNat 256 n) = (F.applyUpdates fixed).applyUpdates ring (BitVec.ofNat 256 n) := by
    intro n hn
    rw [hF', hcells n hn, Storage.applyUpdates_append]
  have hring : ∀ n < 8, (F.applyUpdates fixed).applyUpdates ring (BitVec.ofNat 256 n) =
      F.applyUpdates fixed (BitVec.ofNat 256 n) := by
    intro n hn
    refine Storage.applyUpdates_of_notMem fun u hu => ?_
    obtain ⟨w, hw, rfl⟩ := List.mem_map.mp hu
    rw [(hO.write w (Option.mem_toList.mp hw)).1]
    exact observationSlot_ne hO.index_lt_word hn
  refine ⟨hsame, ?_, ?_, ?_, ?_⟩
  · rw [show (0 : U256) = BitVec.ofNat 256 0 from rfl, hfixed 0 (by decide), hring 0 (by decide)]
    simp only [fixed, Storage.applyUpdates_cons, Storage.applyUpdates_nil]
    rw [Function.update_of_ne (by decide), Function.update_of_ne (by decide), Function.update_of_ne (by decide),
      Function.update_of_ne (by decide)]
    exact Function.update_self _ _ _
  · rw [show (4 : U256) = BitVec.ofNat 256 4 from rfl, hfixed 4 (by decide), hring 4 (by decide)]
    simp only [fixed, Storage.applyUpdates_cons, Storage.applyUpdates_nil]
    exact Function.update_self _ _ _
  · intro w hw
    obtain ⟨hslot, -⟩ := hO.write w hw
    have hindex := hO.index_lt_word
    rw [hslot, observationSlot_eq, hfixed _ (by omega), ← observationSlot_eq, ← hslot]
    simp only [ring, hw.out, Option.toList_some, List.map_cons, List.map_nil, Storage.applyUpdates_cons,
      Storage.applyUpdates_nil]
    exact Function.update_self _ _ _
  · intro hw i hi
    rw [observationSlot_eq, hfixed _ (by omega), ← observationSlot_eq]
    simp only [ring, hw, Option.toList_none, List.map_nil, Storage.applyUpdates_nil]
    refine Storage.applyUpdates_of_notMem fun u hu => ?_
    simp only [fixed, List.mem_cons, List.not_mem_nil, or_false] at hu
    rcases hu with rfl | rfl | rfl | rfl | rfl
    exacts [(observationSlot_ne (n := 0) hi (by decide)).symm, (observationSlot_ne (n := 1) hi (by decide)).symm,
      (observationSlot_ne (n := 2) hi (by decide)).symm, (observationSlot_ne (n := 3) hi (by decide)).symm,
      (observationSlot_ne (n := 4) hi (by decide)).symm]

/-- A swap keeps the pool well formed. -/
theorem swap_inv (hk : DistinctKeys keccak) (hI : PoolInvariant keccak spacing F) (h : Holds state address F) {fee : Nat}
    {swap : DecodedSwap} {context : AdapterEventContext} {us : List StateUpdate}
    (hok : deriveUniswapV3Swap keccak address (.uniswap spacing) fee swap state context = .ok us) :
    PoolInvariant keccak spacing (F.applyUpdates us) := by
  obtain ⟨r, rfl⟩ := deriveUniswapV3Swap_eq_ok.mp hok
  obtain ⟨⟨hparent, hlt⟩, -⟩ := loadSwapParent_spec h r.load
  have hslot0 : r.parent.slot0 = Slot0.decode F.slot0 := by rw [hparent]
  have hliquidity : r.parent.liquidity = (F 4).toNat := by rw [hparent]
  obtain ⟨hs, ht⟩ : 0 < spacing ∧ r.timestamp < 2 ^ 32 := by
    obtain ⟨t, hv, hin⟩ := bind_eq_ok.mp r.inputs
    obtain ⟨_, -, hin⟩ := bind_eq_ok.mp hin
    obtain ⟨_, -, hin⟩ := bind_eq_ok.mp hin
    obtain ⟨_, hs, hin⟩ := bind_eq_ok.mp hin
    obtain ⟨_, -, hin⟩ := bind_eq_ok.mp hin
    rw [← pure_eq_ok.mp hin]
    exact ⟨ensure_eq_ok.mp hs, validateContext_lt hv⟩
  obtain ⟨-, hfinal, hdir⟩ := checkSwapEvent_spec r.event
  rw [hslot0] at hdir
  obtain ⟨hpath, -, htick, hsegments⟩ := replaySegments_spec r.walk
  rw [hslot0, hliquidity] at hpath
  obtain ⟨hinv, hprice⟩ := replayPath_inv h hI.ticks hs hfinal (PathInv.start hI hlt hdir) hpath
  have hheld : CrossesHeld keccak F r.segments := by
    rcases hsegments with ⟨-, heq⟩ | ⟨-, -, heq⟩
    · rw [heq]
      exact hinv.crossed
    · rw [heq]
      exact (CrossesHeld.nil keccak F).append _ _
  have hpaid : CrossesHeld keccak F r.paid := by
    rcases splitFees_segments r.split with heq | heq
    · rwa [heq]
    · rw [heq]
      exact hheld.append _ _
  have hbatch := allocateFees_tickBatch hk hpaid r.allocate (.nil keccak F)
  have hadvance := r.advance
  rw [hslot0, hliquidity] at hadvance
  have hring := swapOracle_spec h hI.oracle ht hlt hadvance
  obtain ⟨hsame, h0, h4, hwrite, hnone⟩ := swapUpdates_cells hk address spacing r.parent swap r.path hring hbatch
  set F' := F.applyUpdates (swapUpdates address (.uniswap spacing) r.parent swap r.oracle r.path r.fees)
  rw [hslot0] at h0
  have hprice' : F'.sqrtPriceX96 = swap.sqrtPriceX96 := by
    rw [Storage.sqrtPriceX96, Storage.slot0, h0, encodeFinal_price (hfinal.price_lt.trans (by decide))]
  have htick' : F'.tick = swap.tick := by
    rw [Storage.tick, Storage.slot0, h0, encodeFinal_tick ⟨hfinal.tick_ge, hfinal.tick_lt.le⟩]
  have hindex' : F'.observationIndex = r.oracle.observationIndex := by
    rw [Storage.observationIndex, Storage.slot0, h0, encodeFinal_index hring.index_lt_word]
  have hcard' : F'.observationCardinality = r.oracle.observationCardinality := by
    rw [Storage.observationCardinality, Storage.slot0, h0, encodeFinal_cardinality hring.cardinality_lt_word]
  have hnext' : F'.observationCardinalityNext = F.observationCardinalityNext := by
    rw [Storage.observationCardinalityNext, Storage.slot0, h0, encodeFinal_rest (by omega)]
    rfl
  refine hI.of_sameTicks hsame ?_ ⟨?_, ?_, ?_, ?_⟩ (hring.ready hI.oracle hindex' hcard' hnext' hwrite hnone)
  · have hlt := hinv.liquidity_lt
    rw [h4, BitVec.toNat_ofNat, Nat.mod_eq_of_lt (by omega), htick', ← htick]
    exact hinv.liquidity
  · rw [htick']
    exact hfinal.tick_ge
  · rw [htick']
    exact hfinal.tick_lt
  · rw [htick', hprice']
    exact hfinal.lower
  · rw [htick', hprice']
    exact hfinal.upper_le

end

end AmmState.Canonical
