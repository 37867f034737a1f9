import AmmState.Theorems.V3.Invariant

/-! Which cells a replay writes and forgets, for a view of any part of the pool: the fixed cells it names, whole ticks, and
    bitmap words. -/

namespace AmmState.Canonical
open V3 Checked

/-! ### Views -/

section
variable {state : StateView} {address : Address} {slot value : U256} {us : List StateUpdate}

/-- A cell held after a batch was written by it, or held before and left alone. -/
theorem storage_applyUpdates (h : (state.applyUpdates us).storage address slot = some value) :
    ⟨address, slot, value⟩ ∈ us ∨
      state.storage address slot = some value ∧ ∀ u ∈ us, u.address = address → u.slot ≠ slot := by
  induction us generalizing state with
  | nil => exact .inr ⟨h, nofun⟩
  | cons u us ih =>
    have h : ((u.apply state).applyUpdates us).storage address slot = some value := h
    rcases ih h with hmem | ⟨hstate, hrest⟩
    · exact .inl (List.mem_cons_of_mem _ hmem)
    · simp only [StateView.storage, StateUpdate.apply] at hstate
      split_ifs at hstate with hu
      · left
        obtain rfl := Option.some.inj hstate
        obtain ⟨rfl, rfl⟩ := hu
        exact List.mem_cons_self
      · refine .inr ⟨hstate, fun v hv ha => ?_⟩
        rcases List.mem_cons.mp hv with rfl | hv
        · exact fun hs => hu ⟨ha.symm, hs.symm⟩
        · exact hrest v hv ha

/-- What is held after a purge was held before it, and is none of its cells. -/
theorem storage_purge {cold : List U256} (h : (state.purge address cold).storage address slot = some value) :
    state.storage address slot = some value ∧ slot ∉ cold := by
  simp only [StateView.storage, StateView.purge] at h
  split_ifs at h with hc
  exact ⟨h, fun hs => hc ⟨trivial, hs⟩⟩

end

/-! ### Derived cells -/

section
variable {keccak : Keccak} {address : Address} {spacing : Int} {state : StateView}

/-- A word of a tick in range. -/
def TickCell (keccak : Keccak) (slot : U256) : Prop := ∃ t i, InRange t ∧ i < 4 ∧ slot = tickSlot keccak t i

/-- A word of a tick or of the bitmap. -/
def DerivedCell (keccak : Keccak) (slot : U256) : Prop := TickCell keccak slot ∨ ∃ w, slot = bitmapSlot keccak w

theorem DerivedCell.ne_fixed (hk : DistinctKeys keccak) {slot : U256} (h : DerivedCell keccak slot) {n : Nat}
    (hn : n < 2 ^ 17) : slot ≠ BitVec.ofNat 256 n := by
  rcases h with ⟨t, i, ht, hi, rfl⟩ | ⟨w, rfl⟩
  · exact hk.tick_ne_fixed ht hi hn
  · exact hk.bitmap_ne_fixed hn

theorem mem_tickKeys {t : Int} {slot : U256} :
    slot ∈ v3TickInfoStorageKeysWithBase keccak t V3_TICKS_BASE_SLOT ↔ ∃ i < 4, slot = tickSlot keccak t i := by
  constructor
  · intro h
    obtain ⟨i, hi, rfl⟩ := List.mem_map.mp h
    refine ⟨i, ?_, rfl⟩
    simp only [List.mem_cons, List.not_mem_nil, or_false] at hi
    omega
  · rintro ⟨i, hi, rfl⟩
    refine List.mem_map.mpr ⟨i, ?_, rfl⟩
    simp only [List.mem_cons, List.not_mem_nil, or_false]
    omega

/-- The updates of a tick name its words. -/
theorem mem_tickWordUpdates {t : Int} {words : TickWords} {u : StateUpdate}
    (h : u ∈ tickWordUpdates address (v3TickInfoStorageKeysWithBase keccak t V3_TICKS_BASE_SLOT) words) :
    ∃ i < 4, u.slot = tickSlot keccak t i := by
  obtain ⟨⟨slot, value⟩, hp, rfl⟩ := List.mem_map.mp h
  exact mem_tickKeys.mp (List.of_mem_zip hp).1

/-- Every word of the tick is among its updates. -/
theorem tickWordUpdates_slot (address : Address) (t : Int) (words : TickWords) {i : Nat} (hi : i < 4) :
    ∃ u ∈ tickWordUpdates address (v3TickInfoStorageKeysWithBase keccak t V3_TICKS_BASE_SLOT) words,
      u.address = address ∧ u.slot = tickSlot keccak t i := by
  have hlist : tickWordUpdates address (v3TickInfoStorageKeysWithBase keccak t V3_TICKS_BASE_SLOT) words =
    [⟨address, tickSlot keccak t 0, words.word0⟩, ⟨address, tickSlot keccak t 1, words.word1⟩,
      ⟨address, tickSlot keccak t 2, words.word2⟩, ⟨address, tickSlot keccak t 3, words.word3⟩] := rfl
  rw [hlist]
  rcases i with _ | _ | _ | _ | i
  · exact ⟨_, List.mem_cons_self, rfl, rfl⟩
  · exact ⟨_, List.mem_cons_of_mem _ List.mem_cons_self, rfl, rfl⟩
  · exact ⟨_, List.mem_cons_of_mem _ (List.mem_cons_of_mem _ List.mem_cons_self), rfl, rfl⟩
  · exact ⟨_, List.mem_cons_of_mem _ (List.mem_cons_of_mem _ (List.mem_cons_of_mem _ List.mem_cons_self)), rfl, rfl⟩
  · omega

/-! ### Crossed ticks -/

/-- The ticks that a list of segments crosses were loaded from the view. -/
def CrossesLoaded (keccak : Keccak) (address : Address) (spacing : Int) (state : StateView) (segments : List Segment) :
    Prop :=
  ∀ segment ∈ segments, ∀ c ∈ segment.crossedTick,
    ∃ t, InRange t ∧ loadInitializedTick keccak address (.uniswap spacing) state t = .ok c

theorem CrossesLoaded.append {segments : List Segment} {segment : Segment}
    (h : CrossesLoaded keccak address spacing state segments)
    (hs : ∀ c ∈ segment.crossedTick, ∃ t, InRange t ∧
      loadInitializedTick keccak address (.uniswap spacing) state t = .ok c) :
    CrossesLoaded keccak address spacing state (segments ++ [segment]) := by
  intro s hmem
  rcases List.mem_append.mp hmem with hmem | hmem
  · exact h s hmem
  · obtain rfl := List.mem_singleton.mp hmem
    exact hs

theorem nextStepBoundary_inRange {tick : Int} {zeroForOne : Bool} {boundary : StepBoundary}
    (h : nextStepBoundary keccak address (.uniswap spacing) state tick zeroForOne = .ok boundary) :
    InRange boundary.tick := by
  obtain ⟨bitmap, -, h⟩ := bind_eq_ok.mp h
  obtain ⟨_, -, h⟩ := bind_eq_ok.mp h
  obtain rfl := pure_eq_ok.mp h
  exact ⟨le_max_left _ _, max_le (by decide) (min_le_left _ _)⟩

theorem crossBoundary_loaded {boundary : StepBoundary} {reached zeroForOne : Bool} {liquidity next : Nat}
    {crossed : Option InitializedTick}
    (h : crossBoundary keccak address (.uniswap spacing) state boundary reached liquidity zeroForOne =
      .ok (crossed, next)) :
    ∀ c ∈ crossed, loadInitializedTick keccak address (.uniswap spacing) state boundary.tick = .ok c := by
  unfold crossBoundary at h
  split_ifs at h
  · obtain ⟨r, hr, h⟩ := bind_eq_ok.mp h
    obtain ⟨next', -, h⟩ := bind_eq_ok.mp h
    obtain ⟨rfl, -⟩ := Prod.mk.inj (pure_eq_ok.mp h)
    rintro c ⟨⟩
    exact hr
  · obtain ⟨rfl, -⟩ := Prod.mk.inj (pure_eq_ok.mp h)
    nofun

theorem pathStep_loaded {swap : DecodedSwap} {zeroForOne : Bool} {path path' : Path}
    (hpath : CrossesLoaded keccak address spacing state path.segments)
    (h : pathStep keccak address (.uniswap spacing) state swap zeroForOne path = .ok path') :
    CrossesLoaded keccak address spacing state path'.segments := by
  obtain ⟨boundary, hboundary, h⟩ := bind_eq_ok.mp h
  obtain ⟨boundarySqrt, -, h⟩ := bind_eq_ok.mp h
  obtain ⟨⟨amountIn, amountOut⟩, -, h⟩ := bind_eq_ok.mp h
  obtain ⟨⟨crossed, liquidity⟩, hcross, h⟩ := bind_eq_ok.mp h
  obtain rfl := pure_eq_ok.mp h
  exact hpath.append fun c hc => ⟨_, nextStepBoundary_inRange hboundary, crossBoundary_loaded hcross c hc⟩

theorem enterBoundary_loaded {path path' : Path} (hpath : CrossesLoaded keccak address spacing state path.segments)
    (h : enterBoundary keccak address (.uniswap spacing) state path = .ok path') :
    CrossesLoaded keccak address spacing state path'.segments := by
  obtain ⟨boundary, hboundary, h⟩ := bind_eq_ok.mp h
  obtain ⟨boundarySqrt, -, h⟩ := bind_eq_ok.mp h
  split_ifs at h
  · obtain ⟨⟨crossed, liquidity⟩, hcross, h⟩ := bind_eq_ok.mp h
    obtain rfl := pure_eq_ok.mp h
    exact hpath.append fun c hc => ⟨_, nextStepBoundary_inRange hboundary, crossBoundary_loaded hcross c hc⟩
  · obtain rfl := pure_eq_ok.mp h
    exact hpath

theorem walk_loaded {swap : DecodedSwap} {zeroForOne : Bool} {steps : Nat} {path path' : Path}
    (hpath : CrossesLoaded keccak address spacing state path.segments)
    (h : walk keccak address (.uniswap spacing) state swap zeroForOne steps path = .ok path') :
    CrossesLoaded keccak address spacing state path'.segments := by
  induction steps generalizing path with
  | zero =>
    unfold walk at h
    split_ifs at h
    obtain rfl := pure_eq_ok.mp h
    exact hpath
  | succ steps ih =>
    unfold walk at h
    split_ifs at h
    · obtain rfl := pure_eq_ok.mp h
      exact hpath
    · obtain ⟨next, hnext, h⟩ := bind_eq_ok.mp h
      exact ih (pathStep_loaded hpath hnext) h

theorem replayPath_loaded {swap : DecodedSwap} {zeroForOne : Bool} {start path : Path}
    (hstart : CrossesLoaded keccak address spacing state start.segments)
    (h : replayPath keccak address (.uniswap spacing) state swap zeroForOne start = .ok path) :
    CrossesLoaded keccak address spacing state path.segments := by
  obtain ⟨entered, hentered, h⟩ := bind_eq_ok.mp h
  refine walk_loaded ?_ h
  split_ifs at hentered
  · exact enterBoundary_loaded hstart hentered
  · obtain rfl := pure_eq_ok.mp hentered
    exact hstart

/-- The segments that carry the fee of a swap cross ticks of the view. -/
theorem SwapReplay.loaded {fee : Nat} {swap : DecodedSwap} {context : AdapterEventContext}
    (r : SwapReplay keccak address (.uniswap spacing) fee swap state context) :
    CrossesLoaded keccak address spacing state r.paid := by
  obtain ⟨hpath, -, -, hsegments⟩ := replaySegments_spec r.walk
  have hloaded := replayPath_loaded (show CrossesLoaded keccak address spacing state [] from nofun) hpath
  have hseg : CrossesLoaded keccak address spacing state r.segments := by
    rcases hsegments with ⟨-, heq⟩ | ⟨-, -, heq⟩
    · rwa [heq]
    · rw [heq]
      exact (show CrossesLoaded keccak address spacing state [] from nofun).append nofun
  rcases splitFees_segments r.split with heq | heq
  · rwa [heq]
  · rw [heq]
    exact hseg.append nofun

theorem loadInitializedTick_keys {t : Int} {c : InitializedTick}
    (h : loadInitializedTick keccak address (.uniswap spacing) state t = .ok c) :
    c.keys = v3TickInfoStorageKeysWithBase keccak t V3_TICKS_BASE_SLOT := by
  obtain ⟨words, -, h⟩ := bind_eq_ok.mp h
  obtain ⟨_, -, h⟩ := bind_eq_ok.mp h
  obtain ⟨_, -, h⟩ := bind_eq_ok.mp h
  rw [← pure_eq_ok.mp h]
  rfl

theorem allocateSegment_cells {fee divisor timestamp : Nat} {zeroForOne isLast : Bool} {now : Observation}
    {segment : Segment} {f f' : FeeState} (hs : CrossesLoaded keccak address spacing state [segment])
    (h : allocateSegment address fee divisor zeroForOne now timestamp segment isLast f = .ok f')
    (hf : ∀ u ∈ f.tickUpdates, TickCell keccak u.slot) : ∀ u ∈ f'.tickUpdates, TickCell keccak u.slot := by
  obtain ⟨feeAmount, -, h⟩ := bind_eq_ok.mp h
  obtain ⟨remaining, -, h⟩ := bind_eq_ok.mp h
  obtain ⟨growth, -, h⟩ := bind_eq_ok.mp h
  cases hc : segment.crossedTick with
  | none =>
    rw [hc] at h
    obtain rfl := pure_eq_ok.mp h
    rwa [accrue_tickUpdates]
  | some c =>
    rw [hc] at h
    obtain rfl := pure_eq_ok.mp h
    obtain ⟨t, ht, hload⟩ := hs segment List.mem_cons_self c hc
    intro u hu
    rcases List.mem_append.mp hu with hu | hu
    · rw [accrue_tickUpdates] at hu
      exact hf u hu
    · rw [crossTick, loadInitializedTick_keys hload] at hu
      obtain ⟨i, hi, hslot⟩ := mem_tickWordUpdates hu
      exact ⟨t, i, ht, hi, hslot⟩

theorem allocateFees_cells {fee divisor timestamp : Nat} {zeroForOne : Bool} {now : Observation} {segments : List Segment}
    {f f' : FeeState} (hs : CrossesLoaded keccak address spacing state segments)
    (h : allocateFees address fee divisor zeroForOne now timestamp segments f = .ok f')
    (hf : ∀ u ∈ f.tickUpdates, TickCell keccak u.slot) : ∀ u ∈ f'.tickUpdates, TickCell keccak u.slot := by
  induction segments generalizing f with
  | nil =>
    obtain rfl := pure_eq_ok.mp h
    exact hf
  | cons segment rest ih =>
    obtain ⟨g, hg, h⟩ := bind_eq_ok.mp h
    have hhead : CrossesLoaded keccak address spacing state [segment] := by
      intro s hs'
      obtain rfl := List.mem_singleton.mp hs'
      exact hs s List.mem_cons_self
    exact ih (fun s hs' => hs s (List.mem_cons_of_mem _ hs')) h (allocateSegment_cells hhead hg hf)

/-! ### Batches -/

theorem validateContext_timestamp {context : AdapterEventContext} {t : Nat} (h : validateContext context = .ok t) :
    context.blockTimestamp = some t := by
  unfold validateContext at h
  simp only [bind_eq_ok, ensure_eq_ok, exists_const, pure_eq_ok, orError_eq_ok] at h
  obtain ⟨-, -, -, -, t', ht, -, -, -, -, rfl⟩ := h
  exact ht

/-- The batch of a swap: five fixed cells, the observation, then words of ticks. -/
structure SwapFrame (keccak : Keccak) (address : Address) (state : StateView) (swap : DecodedSwap)
    (context : AdapterEventContext) (us : List StateUpdate) where
  timestamp : Nat
  raw : U256
  word : U256
  growth0 : U256
  growth1 : U256
  fees : U256
  oracle : OracleAdvance
  ticks : List StateUpdate
  context_ok : validateContext context = .ok timestamp
  slot0 : state.storage address 0 = some raw
  liquidity : state.storage address 4 = some word
  liquidity_lt : word.toNat < 2 ^ 128
  advance : swapOracle address (Slot0.decode raw) word.toNat state timestamp swap.tick = .ok oracle
  tick_range : MIN_TICK ≤ swap.tick ∧ swap.tick ≤ MAX_TICK
  final_lt : swap.liquidity < 2 ^ 128
  tick_cells : ∀ u ∈ ticks, u.address = address ∧ TickCell keccak u.slot
  updates : us = [⟨address, 0, (Slot0.decode raw).encodeFinal swap.sqrtPriceX96 swap.tick oracle.observationIndex
      oracle.observationCardinality⟩, ⟨address, 1, growth0⟩, ⟨address, 2, growth1⟩, ⟨address, 3, fees⟩,
      ⟨address, 4, BitVec.ofNat 256 swap.liquidity⟩] ++ oracle.write.toList.map (fun w => ⟨address, w.1, w.2⟩) ++ ticks

/-- The fixed cells of a swap besides its observation. -/
def SwapFrame.fixed {swap : DecodedSwap} {context : AdapterEventContext} {us : List StateUpdate}
    (f : SwapFrame keccak address state swap context us) : List StateUpdate :=
  [⟨address, 0, (Slot0.decode f.raw).encodeFinal swap.sqrtPriceX96 swap.tick f.oracle.observationIndex
    f.oracle.observationCardinality⟩, ⟨address, 1, f.growth0⟩, ⟨address, 2, f.growth1⟩, ⟨address, 3, f.fees⟩,
    ⟨address, 4, BitVec.ofNat 256 swap.liquidity⟩]

theorem SwapFrame.mem_updates {swap : DecodedSwap} {context : AdapterEventContext} {us : List StateUpdate}
    (f : SwapFrame keccak address state swap context us) {u : StateUpdate} :
    u ∈ us ↔ u ∈ f.fixed ∨ (∃ w ∈ f.oracle.write, u = ⟨address, w.1, w.2⟩) ∨ u ∈ f.ticks := by
  refine (iff_of_eq (congrArg (u ∈ ·) f.updates)).trans ?_
  rw [List.mem_append, List.mem_append, or_assoc]
  refine or_congr_right (or_congr_left ?_)
  constructor
  · intro hu
    obtain ⟨w, hw, rfl⟩ := List.mem_map.mp hu
    exact ⟨w, Option.mem_toList.mp hw, rfl⟩
  · rintro ⟨w, hw, rfl⟩
    exact List.mem_map.mpr ⟨w, Option.mem_toList.mpr hw, rfl⟩

/-- A fixed cell is named by the first five updates or by the observation. -/
theorem SwapFrame.mem_fixed (hk : DistinctKeys keccak) {swap : DecodedSwap} {context : AdapterEventContext}
    {us : List StateUpdate} (f : SwapFrame keccak address state swap context us) {n : Nat} (hn : n < 2 ^ 17) {v : U256} :
    ⟨address, BitVec.ofNat 256 n, v⟩ ∈ us ↔
      ⟨address, BitVec.ofNat 256 n, v⟩ ∈ f.fixed ∨ f.oracle.write = some (BitVec.ofNat 256 n, v) := by
  rw [f.mem_updates]
  refine or_congr_right ?_
  constructor
  · rintro (⟨w, hw, heq⟩ | hu)
    · simp only [StateUpdate.mk.injEq, true_and] at heq
      rw [heq.1, heq.2]
      exact hw
    · exact absurd rfl (DerivedCell.ne_fixed hk (.inl (f.tick_cells _ hu).2) hn)
  · intro hw
    exact .inl ⟨_, hw, rfl⟩

theorem swap_frame {fee : Nat} {swap : DecodedSwap} {context : AdapterEventContext} {us : List StateUpdate}
    (h : deriveUniswapV3Swap keccak address (.uniswap spacing) fee swap state context = .ok us) :
    Nonempty (SwapFrame keccak address state swap context us) := by
  obtain ⟨r, rfl⟩ := deriveUniswapV3Swap_eq_ok.mp h
  obtain ⟨⟨slot0, liquidity⟩, hslot0, hload⟩ := bind_eq_ok.mp r.load
  obtain ⟨raw, hraw, -, -, word, hword, hlt, heq⟩ := loadSlot0_eq_ok.mp hslot0
  obtain ⟨rfl, rfl⟩ := Prod.mk.inj heq
  obtain ⟨growth0, -, hload⟩ := bind_eq_ok.mp hload
  obtain ⟨growth1, -, hload⟩ := bind_eq_ok.mp hload
  obtain ⟨fees, -, hload⟩ := bind_eq_ok.mp hload
  have hparent := pure_eq_ok.mp hload
  obtain ⟨t, hv, hin⟩ := bind_eq_ok.mp r.inputs
  obtain ⟨_, -, hin⟩ := bind_eq_ok.mp hin
  obtain ⟨_, -, hin⟩ := bind_eq_ok.mp hin
  obtain ⟨_, -, hin⟩ := bind_eq_ok.mp hin
  obtain ⟨_, hwidth, hin⟩ := bind_eq_ok.mp hin
  obtain rfl := pure_eq_ok.mp hin
  obtain ⟨-, hfinal, -⟩ := checkSwapEvent_spec r.event
  obtain ⟨-, hliquidity, -, -⟩ := replaySegments_spec r.walk
  have hadvance := r.advance
  rw [← hparent] at hadvance
  have hmask := (ensure_eq_ok.mp hwidth).2
  unfold WORD_128_MASK at hmask
  refine ⟨⟨r.timestamp, raw, word, r.fees.feeGrowth0, r.fees.feeGrowth1, r.fees.protocolFees, r.oracle,
    r.fees.tickUpdates, hv, hraw, hword, hlt, hadvance,
    ⟨hfinal.tick_ge, hfinal.tick_lt.le⟩, by omega, fun u hu => ⟨?_, ?_⟩, ?_⟩⟩
  · exact allocateFees_address r.allocate nofun u hu
  · exact allocateFees_cells r.loaded r.allocate nofun u hu
  · rw [swapUpdates, hliquidity, ← hparent]
    rfl

theorem loadLiquidityParent_cases {parent : LiquidityParent} {t : Nat}
    (h : loadLiquidityParent address (.uniswap spacing) state t = .ok parent) : ∃ raw word,
    state.storage address 0 = some raw ∧ state.storage address 4 = some word ∧ word.toNat < 2 ^ 128 ∧
      parent.slot0 = Slot0.decode raw ∧ parent.liquidity = word.toNat ∧ PriceInTick (fun _ => raw) ∧
      advanceOracle address UNISWAP_V3_SURFACE (Slot0.decode raw) word.toNat state t = .ok parent.oracle := by
  obtain ⟨⟨slot0, liquidity⟩, hslot0, h⟩ := bind_eq_ok.mp h
  obtain ⟨raw, hraw, -, hprice, word, hword, hlt, heq⟩ := loadSlot0_eq_ok.mp hslot0
  obtain ⟨rfl, rfl⟩ := Prod.mk.inj heq
  obtain ⟨maxLiquidity, -, h⟩ := bind_eq_ok.mp h
  obtain ⟨oracle, horacle, h⟩ := bind_eq_ok.mp h
  obtain ⟨growth0, -, h⟩ := bind_eq_ok.mp h
  obtain ⟨growth1, -, h⟩ := bind_eq_ok.mp h
  obtain rfl := pure_eq_ok.mp h
  obtain ⟨-, hlo, hhi, hlower, hupper⟩ := validateParentSlot0_eq_ok.mp hprice
  exact ⟨raw, word, hraw, hword, hlt, rfl, rfl, ⟨hlo, hhi, hlower, hupper⟩, horacle⟩

/-- The update of a resolved boundary names the words of its tick. -/
theorem resolveBoundary_keys {event : DecodedLiquidity} {parent : LiquidityParent} {timestamp : Nat}
    {t : Int} {upper : Bool} {update : CanonicalTickUpdate}
    (h : resolveBoundary keccak address (.uniswap spacing) state event parent timestamp
    (boundaryPosition keccak address (.uniswap spacing) state t upper) = .ok (some update)) :
    update.keys = v3TickInfoStorageKeysWithBase keccak t V3_TICKS_BASE_SLOT := by
  unfold resolveBoundary at h
  split at h
  · cases h
  · split at h
    · rename_i update' hupdate
      obtain rfl : update' = update := Option.some.inj (Except.ok.inj h)
      obtain ⟨words, -, hupdate⟩ := bind_eq_ok.mp hupdate
      obtain ⟨_, -, hupdate⟩ := bind_eq_ok.mp hupdate
      obtain ⟨⟨g, n⟩, -, hupdate⟩ := bind_eq_ok.mp hupdate
      rw [← pure_eq_ok.mp hupdate]
      rfl
    · cases h
    · cases h

theorem boundaryUpdates_cells {event : DecodedLiquidity} {parent : LiquidityParent} {timestamp : Nat} {t : Int}
    {upper : Bool} (ht : InRange t) {r : Option CanonicalTickUpdate}
    (h : resolveBoundary keccak address (.uniswap spacing) state event parent timestamp
      (boundaryPosition keccak address (.uniswap spacing) state t upper) = .ok r) {u : StateUpdate}
    (hu : u ∈ boundaryUpdates address (r, boundaryPosition keccak address (.uniswap spacing) state t upper)) :
    u.address = address ∧ TickCell keccak u.slot := by
  cases r with
  | none => cases hu
  | some update =>
    refine ⟨tickWordUpdates_address hu, ?_⟩
    rw [boundaryUpdates, resolveBoundary_keys h] at hu
    obtain ⟨i, hi, hslot⟩ := mem_tickWordUpdates hu
    exact ⟨t, i, ht, hi, hslot⟩

theorem coldCells_derived {t : Int} (ht : InRange t) {upper : Bool} {r : Option CanonicalTickUpdate} {x : U256}
    (hx : x ∈ coldCells keccak (.uniswap spacing) (r, boundaryPosition keccak address (.uniswap spacing) state t upper)) :
    DerivedCell keccak x := by
  cases r with
  | some update => cases hx
  | none =>
    rcases List.mem_append.mp hx with hx | hx
    · obtain ⟨i, hi, rfl⟩ := mem_tickKeys.mp hx
      exact .inl ⟨t, i, ht, hi, rfl⟩
    · rw [List.mem_singleton.mp hx]
      exact .inr ⟨_, rfl⟩

theorem bitmapUpdates_cells {s : BitmapState} {cold : List U256} {lower upper : Int} {u : StateUpdate}
    (hu : u ∈ bitmapUpdates address s cold (boundaryPosition keccak address (.uniswap spacing) state lower false)
      (boundaryPosition keccak address (.uniswap spacing) state upper true)) : DerivedCell keccak u.slot := by
  obtain ⟨slot, hslot, hu⟩ := List.mem_filterMap.mp hu
  obtain ⟨value, -, rfl⟩ := Option.map_eq_some_iff.mp hu
  have hmem := List.mem_dedup.mp (List.mem_filter.mp hslot).1
  refine .inr ?_
  split_ifs at hmem <;> simp only [List.mem_cons, List.not_mem_nil, or_false] at hmem <;> rcases hmem with rfl | rfl <;>
    exact ⟨_, rfl⟩

/-- The parts of a successful change of liquidity, in the order they are computed. -/
structure LiquidityReplay (keccak : Keccak) (address : Address) (spacing : Int) (state : StateView)
    (event : DecodedLiquidity) (context : AdapterEventContext) where
  timestamp : Nat
  parent : LiquidityParent
  lower : Option CanonicalTickUpdate
  upper : Option CanonicalTickUpdate
  bitmaps : BitmapState
  active : List StateUpdate
  context_ok : validateContext context = .ok timestamp
  amount_pos : 0 < event.amount
  spacing_pos : 0 < spacing
  lower_tick : InRange event.tickLower ∧ event.tickLower % spacing = 0
  upper_tick : InRange event.tickUpper ∧ event.tickUpper % spacing = 0
  load : loadLiquidityParent address (.uniswap spacing) state timestamp = .ok parent
  lower_ok : resolveBoundary keccak address (.uniswap spacing) state event parent timestamp
    (boundaryPosition keccak address (.uniswap spacing) state event.tickLower false) = .ok lower
  upper_ok : resolveBoundary keccak address (.uniswap spacing) state event parent timestamp
    (boundaryPosition keccak address (.uniswap spacing) state event.tickUpper true) = .ok upper
  bitmaps_ok : [(lower, boundaryPosition keccak address (.uniswap spacing) state event.tickLower false),
    (upper, boundaryPosition keccak address (.uniswap spacing) state event.tickUpper true)].foldlM flipBoundary
      ⟨state.storage address, []⟩ = .ok bitmaps
  active_ok : activeUpdates address (.uniswap spacing) event parent = .ok active

namespace LiquidityReplay
variable {event : DecodedLiquidity} {context : AdapterEventContext}
  (r : LiquidityReplay keccak address spacing state event context)

/-- Both boundaries, with what was resolved of them. -/
def lowerBoundary : Option CanonicalTickUpdate × BoundaryPosition :=
  (r.lower, boundaryPosition keccak address (.uniswap spacing) state event.tickLower false)

def upperBoundary : Option CanonicalTickUpdate × BoundaryPosition :=
  (r.upper, boundaryPosition keccak address (.uniswap spacing) state event.tickUpper true)

/-- The cells of the boundaries that stay unknown. -/
def cold : List U256 :=
  coldCells keccak (.uniswap spacing) r.lowerBoundary ++ coldCells keccak (.uniswap spacing) r.upperBoundary

/-- The words of ticks and of the bitmap. -/
def cells : List StateUpdate :=
  boundaryUpdates address r.lowerBoundary ++ boundaryUpdates address r.upperBoundary ++
    bitmapUpdates address r.bitmaps r.cold r.lowerBoundary.2 r.upperBoundary.2

theorem cells_derived {u : StateUpdate} (hu : u ∈ r.cells) : u.address = address ∧ DerivedCell keccak u.slot := by
  rcases List.mem_append.mp hu with hu | hu
  · rcases List.mem_append.mp hu with hu | hu
    · obtain ⟨haddress, hcell⟩ := boundaryUpdates_cells r.lower_tick.1 r.lower_ok hu
      exact ⟨haddress, .inl hcell⟩
    · obtain ⟨haddress, hcell⟩ := boundaryUpdates_cells r.upper_tick.1 r.upper_ok hu
      exact ⟨haddress, .inl hcell⟩
  · exact ⟨bitmapUpdates_address hu, bitmapUpdates_cells hu⟩

theorem cold_derived {x : U256} (hx : x ∈ r.cold) : DerivedCell keccak x := by
  rcases List.mem_append.mp hx with hx | hx
  · exact coldCells_derived r.lower_tick.1 hx
  · exact coldCells_derived r.upper_tick.1 hx

end LiquidityReplay

/-- The batch of a change: nothing for a zero burn, else words of ticks and of the bitmap, then the active cells. -/
theorem liquidity_replay {event : DecodedLiquidity} {context : AdapterEventContext}
    {transition : CanonicalLiquidityTransition}
    (h : deriveUniswapV3Liquidity keccak address (.uniswap spacing) state event context = .ok transition) :
    event.amount = 0 ∧ transition = ⟨[], []⟩ ∨
      ∃ r : LiquidityReplay keccak address spacing state event context,
        transition.updates = r.cells ++ r.active ∧ ∀ x, x ∈ transition.coldSlots ↔ x ∈ r.cold := by
  obtain ⟨t, hcheck, h⟩ := bind_eq_ok.mp h
  have hcheck : checkLiquidityInputs (.uniswap (⟨0, spacing⟩ : Immutables).tickSpacing) event context = .ok t := hcheck
  obtain ⟨hv, hs, hmin, hmax, hlt, haL, haU⟩ := checkLiquidityInputs_eq_ok.mp hcheck
  split_ifs at h with hzero
  · obtain ⟨_, -, h⟩ := bind_eq_ok.mp h
    exact .inl ⟨hzero, (pure_eq_ok.mp h).symm⟩
  · obtain ⟨_, -, h⟩ := bind_eq_ok.mp h
    obtain ⟨parent, hparent, h⟩ := bind_eq_ok.mp h
    obtain ⟨lower, hlower, h⟩ := bind_eq_ok.mp h
    obtain ⟨upper, hupper, h⟩ := bind_eq_ok.mp h
    obtain ⟨bitmaps, hbitmaps, h⟩ := bind_eq_ok.mp h
    obtain ⟨active, hactive, h⟩ := bind_eq_ok.mp h
    obtain rfl := pure_eq_ok.mp h
    refine .inr ⟨⟨t, parent, lower, upper, bitmaps, active, hv, Nat.pos_of_ne_zero hzero, hs, ⟨⟨hmin, ?_⟩, haL⟩,
      ⟨⟨?_, hmax⟩, haU⟩, hparent, hlower, hupper, hbitmaps, hactive⟩, ?_, fun x => ?_⟩
    · omega
    · omega
    · simp only [List.flatMap_cons, List.flatMap_nil, List.append_nil]
      rfl
    · rw [List.mem_dedup, List.mem_mergeSort]
      simp only [List.flatMap_cons, List.flatMap_nil, List.append_nil]
      rfl

end

end AmmState.Canonical
