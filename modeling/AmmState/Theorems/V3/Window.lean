import AmmState.Theorems.V3.Frames
import AmmState.Theorems.V3.Runs

/-! The warm window of a pool: a view that holds the fixed cells, a set of bitmap words and the ticks that these words set.
    Every event keeps the window, and a swap that leaves it says which bitmap word it wants. -/

namespace AmmState.Canonical
open V3 Checked

/-! ### Held cells -/

/-- The view holds the cell. -/
def Held (state : StateView) (address : Address) (slot : U256) : Prop := ∃ value, state.storage address slot = some value

section
variable {state : StateView} {address : Address} {slot : U256} {us : List StateUpdate}

theorem Held.applyUpdates (h : Held state address slot) : Held (state.applyUpdates us) address slot := by
  induction us generalizing state with
  | nil => exact h
  | cons u us ih =>
    refine ih (?_ : Held (u.apply state) address slot)
    unfold Held StateView.storage StateUpdate.apply
    split_ifs
    · exact ⟨_, rfl⟩
    · exact h

/-- A batch holds what it writes. -/
theorem Held.of_mem {u : StateUpdate} (hu : u ∈ us) (ha : u.address = address) (hs : u.slot = slot) :
    Held (state.applyUpdates us) address slot := by
  induction us generalizing state with
  | nil => cases hu
  | cons v us ih =>
    rcases List.mem_cons.mp hu with rfl | hu
    · have hheld : Held (u.apply state) address slot := ⟨u.value, if_pos ⟨ha.symm, hs.symm⟩⟩
      exact (hheld.applyUpdates : Held ((u.apply state).applyUpdates us) address slot)
    · exact ih hu

theorem Held.purge {cold : List U256} (h : Held state address slot) (hcold : slot ∉ cold) :
    Held (state.purge address cold) address slot := by
  obtain ⟨value, hv⟩ := h
  exact ⟨value, (if_neg fun hc => hcold hc.2).trans hv⟩

end

/-! ### The window -/

/-- The tick of a bit of a bitmap word. -/
def bitTick (spacing : Int) (w : BitVec 16) (b : Nat) : Int := (w.toInt * 256 + b) * spacing

/-- The view holds the fixed cells, the current observation, the words of `W`, and every tick in range that they set. -/
structure Closed (keccak : Keccak) (address : Address) (spacing : Int) (state : StateView)
    (W : Set (BitVec 16)) : Prop where
  base : ∀ n < 5, Held state address (BitVec.ofNat 256 n)
  observation : ∀ raw, state.storage address 0 = some raw → Held state address (observationSlot (field raw 184 16))
  bitmap : ∀ w ∈ W, Held state address (bitmapSlot keccak w)
  ticks : ∀ w ∈ W, ∀ word, state.storage address (bitmapSlot keccak w) = some word → ∀ b < 256, word.getLsbD b = true →
    InRange (bitTick spacing w b) → ∀ i < 4, Held state address (tickSlot keccak (bitTick spacing w b) i)

section
variable {keccak : Keccak} {address : Address} {spacing : Int} {state : StateView} {W : Set (BitVec 16)}

theorem bitTick_compressed (hs : 0 < spacing) (w : BitVec 16) (b : Nat) :
    bitTick spacing w b / spacing = w.toInt * 256 + b := Int.mul_ediv_cancel _ hs.ne'

/-- The word and the bit of a tick. -/
theorem bitTick_word (hs : 0 < spacing) (w : BitVec 16) {b : Nat} (hb : b < 256) :
    v3WordPosition (bitTick spacing w b) spacing = w ∧ (bitTick spacing w b / spacing % 256).toNat = b := by
  rw [v3WordPosition, bitTick_compressed hs]
  constructor
  · rw [show (w.toInt * 256 + b) / 256 = w.toInt by omega, BitVec.ofInt_toInt]
  · omega

/-- The tick of the word and the bit of a tick on the spacing. -/
theorem bitTick_of_aligned (hs : 0 < spacing) {t : Int} (ht : InRange t) (ha : t % spacing = 0) :
    bitTick spacing (v3WordPosition t spacing) (t / spacing % 256).toNat = t := by
  have hrange := compressed_range hs ht
  have hword : (v3WordPosition t spacing).toInt = t / spacing / 256 :=
    BitVec.toInt_ofInt_eq_self (by omega) (by omega) (by omega)
  rw [bitTick, hword, show t / spacing / 256 * 256 + ((t / spacing % 256).toNat : Int) = t / spacing by omega]
  exact ediv_mul_of_aligned ha

/-- What an event may do to a window and keep it. -/
structure KeepsWindow (keccak : Keccak) (address : Address) (spacing : Int) (state state' : StateView)
    (W : Set (BitVec 16)) : Prop where
  base : ∀ n < 5, Held state' address (BitVec.ofNat 256 n)
  observation : ∀ raw, state'.storage address 0 = some raw → Held state' address (observationSlot (field raw 184 16))
  bitmap : ∀ w ∈ W, Held state' address (bitmapSlot keccak w)
  tick : ∀ w ∈ W, ∀ b < 256, InRange (bitTick spacing w b) → ∀ i < 4,
    Held state address (tickSlot keccak (bitTick spacing w b) i) →
      Held state' address (tickSlot keccak (bitTick spacing w b) i)
  bit : ∀ w ∈ W, ∀ b < 256, InRange (bitTick spacing w b) → ∀ word',
    state'.storage address (bitmapSlot keccak w) = some word' → word'.getLsbD b = true →
    (∃ word, state.storage address (bitmapSlot keccak w) = some word ∧ word.getLsbD b = true) ∨
      ∀ i < 4, Held state' address (tickSlot keccak (bitTick spacing w b) i)

theorem Closed.of_keeps {state' : StateView} (h : Closed keccak address spacing state W)
    (hkeep : KeepsWindow keccak address spacing state state' W) : Closed keccak address spacing state' W := by
  refine ⟨hkeep.base, hkeep.observation, hkeep.bitmap, fun w hw word' hword' b hb hbit hin i hi => ?_⟩
  rcases hkeep.bit w hw b hb hin word' hword' hbit with ⟨word, hword, hbit⟩ | hheld
  · exact hkeep.tick w hw b hb hin i hi (h.ticks w hw word hword b hb hbit hin i hi)
  · exact hheld i hi

/-- A batch that leaves the bitmap alone keeps the window if it keeps the current observation. -/
theorem Closed.of_batch (h : Closed keccak address spacing state W) {us : List StateUpdate}
    (hbitmap : ∀ u ∈ us, u.address = address → ∀ w, u.slot ≠ bitmapSlot keccak w)
    (hobs : ∀ raw, ⟨address, 0, raw⟩ ∈ us →
      Held (state.applyUpdates us) address (observationSlot (field raw 184 16))) :
    Closed keccak address spacing (state.applyUpdates us) W := by
  refine h.of_keeps ⟨fun n hn => (h.base n hn).applyUpdates, fun raw hraw => ?_, fun w hw => (h.bitmap w hw).applyUpdates,
    fun w _ b _ _ i _ hheld => hheld.applyUpdates, fun w hw b _ _ word' hword' hbit => ?_⟩
  · rcases storage_applyUpdates hraw with hmem | ⟨hstate, -⟩
    · exact hobs raw hmem
    · exact (h.observation raw hstate).applyUpdates
  · rcases storage_applyUpdates hword' with hmem | ⟨hstate, -⟩
    · exact absurd rfl (hbitmap _ hmem rfl w)
    · exact .inl ⟨word', hstate, hbit⟩

/-! ### Events that leave the bitmap alone -/

/-- A batch of fixed cells whose `slot0` keeps its index. -/
theorem Closed.of_fixed (hk : DistinctKeys keccak) (h : Closed keccak address spacing state W) {us : List StateUpdate}
    (hfixed : ∀ u ∈ us, ∃ n < 2 ^ 17, u.slot = BitVec.ofNat 256 n)
    (hindex : ∀ v, ⟨address, 0, v⟩ ∈ us → ∃ raw, state.storage address 0 = some raw ∧ field v 184 16 = field raw 184 16) :
    Closed keccak address spacing (state.applyUpdates us) W := by
  refine h.of_batch (fun u hu _ w => ?_) fun v hv => ?_
  · obtain ⟨n, hn, hslot⟩ := hfixed u hu
    rw [hslot]
    exact (hk.bitmap_ne_fixed hn).symm
  · obtain ⟨raw, hraw, heq⟩ := hindex v hv
    rw [heq]
    exact (h.observation raw hraw).applyUpdates

/-- The index after an oracle advance has its observation. -/
theorem advanceOracle_index {slot0 : Slot0} {liquidity t : Nat} {oracle : OracleAdvance}
    (hok : advanceOracle address UNISWAP_V3_SURFACE slot0 liquidity state t = .ok oracle) :
    oracle.observationIndex < oracle.observationCardinality ∧
      oracle.observationCardinality ≤ slot0.observationCardinalityNext ∧
      (∀ w ∈ oracle.write, w.1 = observationSlot oracle.observationIndex) ∧
      (oracle.write = none → oracle.observationIndex = slot0.observationIndex) := by
  obtain ⟨_, hpos, hok⟩ := bind_eq_ok.mp hok
  obtain ⟨_, hlt, hok⟩ := bind_eq_ok.mp hok
  obtain ⟨_, hle, hok⟩ := bind_eq_ok.mp hok
  obtain ⟨cell, -, hok⟩ := bind_eq_ok.mp hok
  obtain ⟨_, -, hok⟩ := bind_eq_ok.mp hok
  have hpos := ensure_eq_ok.mp hpos
  have hlt := ensure_eq_ok.mp hlt
  have hle := ensure_eq_ok.mp hle
  simp only [] at hok
  split_ifs at hok with hsame hgrow
  · obtain rfl := pure_eq_ok.mp hok
    exact ⟨hlt, hle, nofun, fun _ => rfl⟩
  · obtain rfl := pure_eq_ok.mp hok
    refine ⟨Nat.mod_lt _ (by omega), le_rfl, ?_, nofun⟩
    rintro w ⟨⟩
    rfl
  · obtain rfl := pure_eq_ok.mp hok
    refine ⟨Nat.mod_lt _ (by omega), hle, ?_, nofun⟩
    rintro w ⟨⟩
    rfl

/-- The index that a swap leaves is in the ring, and its observation is written or was the current one. -/
theorem SwapFrame.index {swap : DecodedSwap} {context : AdapterEventContext} {us : List StateUpdate}
    (f : SwapFrame keccak address state swap context us) : f.oracle.observationIndex < 2 ^ 16 ∧
      (∀ w ∈ f.oracle.write, w.1 = observationSlot f.oracle.observationIndex) ∧
      (f.oracle.write = none → f.oracle.observationIndex = field f.raw 184 16) := by
  have hok := f.advance
  unfold swapOracle at hok
  split_ifs at hok
  · obtain ⟨hlt, hle, hslot, hnone⟩ := advanceOracle_index hok
    have hnext : (Slot0.decode f.raw).observationCardinalityNext < 2 ^ 16 := field_lt _ _ _
    exact ⟨by omega, hslot, hnone⟩
  · rw [← Except.ok.inj hok]
    exact ⟨field_lt _ _ _, nofun, fun _ => rfl⟩

theorem Closed.swap (hk : DistinctKeys keccak) (h : Closed keccak address spacing state W) {swap : DecodedSwap}
    {context : AdapterEventContext} {us : List StateUpdate} (f : SwapFrame keccak address state swap context us) :
    Closed keccak address spacing (state.applyUpdates us) W := by
  obtain ⟨hindex, hslot, hnone⟩ := f.index
  refine h.of_batch (fun u hu _ w => ?_) fun v hv => ?_
  · rcases f.mem_updates.mp hu with hu | ⟨c, hc, rfl⟩ | hu
    · simp only [SwapFrame.fixed, List.mem_cons, List.not_mem_nil, or_false] at hu
      rcases hu with rfl | rfl | rfl | rfl | rfl
      · exact (hk.bitmap_ne_fixed (n := 0) (by decide)).symm
      · exact (hk.bitmap_ne_fixed (n := 1) (by decide)).symm
      · exact (hk.bitmap_ne_fixed (n := 2) (by decide)).symm
      · exact (hk.bitmap_ne_fixed (n := 3) (by decide)).symm
      · exact (hk.bitmap_ne_fixed (n := 4) (by decide)).symm
    · rw [hslot c hc, observationSlot_eq]
      exact (hk.bitmap_ne_fixed (by omega)).symm
    · obtain ⟨t, i, ht, hi, heq⟩ := (f.tick_cells u hu).2
      rw [heq]
      exact hk.tick_ne_bitmap ht hi
  · have hv' : v = (Slot0.decode f.raw).encodeFinal swap.sqrtPriceX96 swap.tick f.oracle.observationIndex
        f.oracle.observationCardinality := by
      rcases (f.mem_fixed hk (n := 0) (by decide)).mp hv with hv | hw
      · simp only [SwapFrame.fixed, List.mem_cons, StateUpdate.mk.injEq, List.not_mem_nil, or_false, true_and] at hv
        rcases hv with ⟨-, rfl⟩ | ⟨heq, -⟩ | ⟨heq, -⟩ | ⟨heq, -⟩ | ⟨heq, -⟩
        · rfl
        all_goals exact absurd heq (by decide)
      · exact absurd (hslot _ hw).symm (observationSlot_ne (n := 0) hindex (by decide))
    rw [hv', encodeFinal_index hindex]
    cases hw : f.oracle.write with
    | none =>
      rw [hnone hw]
      exact (h.observation f.raw f.slot0).applyUpdates
    | some c => exact .of_mem (f.mem_updates.mpr (.inr (.inl ⟨c, hw, rfl⟩))) rfl (hslot c hw)

/-! ### Liquidity changes -/

theorem flipBoundary_bit {s s' : BitmapState} {boundary : Option CanonicalTickUpdate × BoundaryPosition}
    (h : flipBoundary s boundary = .ok s') {slot : U256} {b : Nat}
    (hne : slot ≠ boundary.2.slot ∨ boundary.2.mask.getLsbD b = false) :
    ((s'.values slot).getD 0).getLsbD b = ((s.values slot).getD 0).getLsbD b := by
  obtain ⟨_ | update, position⟩ := boundary
  · rw [← Except.ok.inj h]
  · obtain ⟨_, -, h⟩ := bind_eq_ok.mp h
    split_ifs at h
    · obtain rfl := pure_eq_ok.mp h
      dsimp only at hne ⊢
      by_cases hslot : slot = position.slot
      · subst hslot
        have hmask := hne.resolve_left fun hc => hc rfl
        rw [Function.update_self, Option.getD_some, BitVec.getLsbD_xor, hmask, Bool.xor_false]
      · rw [Function.update_of_ne hslot]
    · rw [← pure_eq_ok.mp h]

theorem Held.required {slot : U256} (h : Held state address slot) : ∃ value, required state address slot = .ok value := by
  obtain ⟨value, hv⟩ := h
  exact ⟨value, required_eq_ok.mpr hv⟩

theorem decided_loadTickWords {t : Int} (h : ∀ i < 4, Held state address (tickSlot keccak t i)) :
    Decided (loadTickWords keccak address (.uniswap spacing) state t) := by
  have hrequired : ∀ i < 4, Decided (required state address (tickSlot keccak t i)) := by
    intro i hi a slot
    obtain ⟨value, hv⟩ := (h i hi).required
    rw [hv]
    nofun
  exact .bind (hrequired 0 (by decide)) fun _ => .bind (hrequired 1 (by decide)) fun _ =>
    .bind (hrequired 2 (by decide)) fun _ => .bind (hrequired 3 (by decide)) fun _ => .ok _

/-- A boundary in the window is resolved. -/
theorem Closed.resolves (h : Closed keccak address spacing state W) (hs : 0 < spacing) {t : Int} (ht : InRange t)
    (ha : t % spacing = 0) (hw : v3WordPosition t spacing ∈ W) {upper : Bool} {event : DecodedLiquidity}
    {parent : LiquidityParent} {timestamp : Nat} {r : Option CanonicalTickUpdate}
    (hok : resolveBoundary keccak address (.uniswap spacing) state event parent timestamp
      (boundaryPosition keccak address (.uniswap spacing) state t upper) = .ok r) : r ≠ none := by
  rintro rfl
  obtain ⟨word, hword⟩ := h.bitmap _ hw
  have hvalue : (boundaryPosition keccak address (.uniswap spacing) state t upper).value = some word := hword
  have hdecided : ∀ initialized, initialized = decide (word &&& (1 : U256) <<< (t / spacing % 256).toNat ≠ 0) →
      Decided (boundaryWords keccak address (.uniswap spacing) state t initialized) := by
    rintro initialized rfl
    unfold boundaryWords
    split_ifs with hbit
    · have hbit := (and_mask_ne_zero (bitPosition_lt _)).mp (of_decide_eq_true hbit)
      have htick := bitTick_of_aligned hs ht ha
      refine decided_loadTickWords fun i hi => ?_
      have hheld := h.ticks _ hw word hword _ (bitPosition_lt _) hbit (by rwa [htick]) i hi
      rwa [htick] at hheld
    · exact .bind .ensure fun _ => .ok _
  unfold resolveBoundary at hok
  rw [hvalue] at hok
  simp only [] at hok
  split at hok
  · cases hok
  · rename_i a slot hupdate
    refine (Decided.bind (hdecided _ rfl) fun words => ?_) a slot hupdate
    exact .bind (.bind .ensure fun _ => .ensure) fun _ => .bind decided_changeTickLiquidity fun _ => .ok _
  · cases hok

/-- The cold cells of a boundary are its own. -/
theorem mem_coldCells {t : Int} {upper : Bool} {r : Option CanonicalTickUpdate} {x : U256}
    (hx : x ∈ coldCells keccak (.uniswap spacing) (r, boundaryPosition keccak address (.uniswap spacing) state t upper)) :
    r = none ∧ ((∃ i < 4, x = tickSlot keccak t i) ∨ x = bitmapSlot keccak (v3WordPosition t spacing)) := by
  cases r with
  | some update => cases hx
  | none =>
    refine ⟨rfl, ?_⟩
    rcases List.mem_append.mp hx with hx | hx
    · exact .inl (mem_tickKeys.mp hx)
    · exact .inr (List.mem_singleton.mp hx)

section
variable {event : DecodedLiquidity} {context : AdapterEventContext}
  (r : LiquidityReplay keccak address spacing state event context)

/-- A cold cell is of a boundary outside the window. -/
theorem LiquidityReplay.mem_cold (h : Closed keccak address spacing state W) {x : U256} (hx : x ∈ r.cold) :
    ∃ t, InRange t ∧ v3WordPosition t spacing ∉ W ∧
      ((∃ i < 4, x = tickSlot keccak t i) ∨ x = bitmapSlot keccak (v3WordPosition t spacing)) := by
  rcases List.mem_append.mp hx with hx | hx
  · obtain ⟨hnone, hcell⟩ := mem_coldCells hx
    exact ⟨_, r.lower_tick.1, fun hw => h.resolves r.spacing_pos r.lower_tick.1 r.lower_tick.2 hw r.lower_ok hnone, hcell⟩
  · obtain ⟨hnone, hcell⟩ := mem_coldCells hx
    exact ⟨_, r.upper_tick.1, fun hw => h.resolves r.spacing_pos r.upper_tick.1 r.upper_tick.2 hw r.upper_ok hnone, hcell⟩

theorem LiquidityReplay.bitmap_warm (hk : DistinctKeys keccak) (h : Closed keccak address spacing state W) {w : BitVec 16}
    (hw : w ∈ W) : bitmapSlot keccak w ∉ r.cold := by
  intro hx
  obtain ⟨t, ht, hout, ⟨i, hi, heq⟩ | heq⟩ := r.mem_cold h hx
  · exact hk.tick_ne_bitmap ht hi heq.symm
  · exact hout (hk.bitmap_inj heq ▸ hw)

theorem LiquidityReplay.tick_warm (hk : DistinctKeys keccak) (h : Closed keccak address spacing state W) {w : BitVec 16}
    (hw : w ∈ W) {b : Nat} (hb : b < 256) (hin : InRange (bitTick spacing w b)) {i : Nat} (hi : i < 4) :
    tickSlot keccak (bitTick spacing w b) i ∉ r.cold := by
  intro hx
  obtain ⟨t, ht, hout, ⟨j, hj, heq⟩ | heq⟩ := r.mem_cold h hx
  · obtain ⟨rfl, -⟩ := hk.tick_inj hin ht hi hj heq
    rw [(bitTick_word r.spacing_pos w hb).1] at hout
    exact hout hw
  · exact hk.tick_ne_bitmap hin hi heq

/-- A bit of the window that the merge leaves is that of the parent, unless its tick is a boundary. -/
theorem LiquidityReplay.bit_kept (hk : DistinctKeys keccak) {w : BitVec 16} {b : Nat} (hb : b < 256)
    (hL : bitTick spacing w b ≠ event.tickLower) (hU : bitTick spacing w b ≠ event.tickUpper) :
    ((r.bitmaps.values (bitmapSlot keccak w)).getD 0).getLsbD b =
      ((state.storage address (bitmapSlot keccak w)).getD 0).getLsbD b := by
  have hne : ∀ (t : Int) (upper : Bool), InRange t → t % spacing = 0 → bitTick spacing w b ≠ t →
      bitmapSlot keccak w ≠ (boundaryPosition keccak address (.uniswap spacing) state t upper).slot ∨
        (boundaryPosition keccak address (.uniswap spacing) state t upper).mask.getLsbD b = false := by
    intro t upper ht ha hne
    by_cases hslot : w = v3WordPosition t spacing
    · refine .inr ?_
      show ((1 : U256) <<< (t / spacing % 256).toNat).getLsbD b = false
      rw [getLsbD_one_shiftLeft hb]
      refine decide_eq_false fun hbit => hne ?_
      rw [hslot, hbit]
      exact bitTick_of_aligned r.spacing_pos ht ha
    · exact .inl fun heq => hslot (hk.bitmap_inj heq)
  obtain ⟨s, hs, hlast⟩ := bind_eq_ok.mp r.bitmaps_ok
  obtain ⟨s', hs', hlast⟩ := bind_eq_ok.mp hlast
  obtain rfl := pure_eq_ok.mp hlast
  rw [flipBoundary_bit hs' (hne _ _ r.upper_tick.1 r.upper_tick.2 hU),
    flipBoundary_bit hs (hne _ _ r.lower_tick.1 r.lower_tick.2 hL)]

/-- A resolved boundary leaves its tick held. -/
theorem resolveBoundary_held {t : Int} {upper : Bool} {parent : LiquidityParent} {timestamp : Nat}
    {update : CanonicalTickUpdate}
    (hok : resolveBoundary keccak address (.uniswap spacing) state event parent timestamp
      (boundaryPosition keccak address (.uniswap spacing) state t upper) = .ok (some update)) {i : Nat} (hi : i < 4) :
    ∃ u ∈ boundaryUpdates address (some update, boundaryPosition keccak address (.uniswap spacing) state t upper),
      u.address = address ∧ u.slot = tickSlot keccak t i := by
  rw [boundaryUpdates, resolveBoundary_keys hok]
  exact tickWordUpdates_slot address t update.words hi

/-- The active cells: the observation with its index in `slot0`, and the liquidity. -/
theorem LiquidityReplay.mem_active {u : StateUpdate} (hu : u ∈ r.active) : u.address = address ∧
    ∃ i < 2 ^ 16, u.slot = observationSlot i ∨ u.slot = 4 ∨
      u.slot = 0 ∧ field u.value 184 16 = i ∧ ∃ value, ⟨address, observationSlot i, value⟩ ∈ r.active := by
  obtain ⟨raw, word, -, -, -, hslot0, -, -, hadvance⟩ := loadLiquidityParent_cases r.load
  obtain ⟨hlt, hle, hslot, -⟩ := advanceOracle_index hadvance
  have hindex : r.parent.oracle.observationIndex < 2 ^ 16 := by
    have hnext : (Slot0.decode raw).observationCardinalityNext < 2 ^ 16 := field_lt _ _ _
    omega
  have hok : activeUpdates address (.uniswap (⟨0, spacing⟩ : Immutables).tickSpacing) event r.parent = .ok r.active :=
    r.active_ok
  have hactive := (activeUpdates_eq_ok r.amount_pos).mp hok
  split_ifs at hactive
  · obtain ⟨n, -, -, hwrites⟩ := hactive
    rw [hwrites] at hu ⊢
    unfold activeWrites at hu ⊢
    cases hw : r.parent.oracle.write with
    | none =>
      rw [hw] at hu
      obtain rfl := List.mem_singleton.mp hu
      exact ⟨rfl, 0, by decide, .inr (.inl rfl)⟩
    | some c =>
      obtain ⟨slot, value⟩ := c
      obtain rfl : slot = observationSlot r.parent.oracle.observationIndex := hslot _ hw
      rw [hw] at hu
      simp only [List.cons_append, List.nil_append, List.mem_cons, List.not_mem_nil, or_false] at hu
      rcases hu with rfl | rfl | rfl
      · exact ⟨rfl, _, hindex, .inl rfl⟩
      · refine ⟨rfl, _, hindex, .inr (.inr ⟨rfl, ?_, value, List.mem_append_left _ List.mem_cons_self⟩)⟩
        rw [hslot0]
        exact encodeFinal_index hindex
      · exact ⟨rfl, 0, by decide, .inr (.inl rfl)⟩
  · rw [hactive] at hu
    cases hu

/-- A bitmap word that is written is the merged one. -/
theorem LiquidityReplay.mem_cells_bitmap (hk : DistinctKeys keccak) {w : BitVec 16} {v : U256}
    (hu : ⟨address, bitmapSlot keccak w, v⟩ ∈ r.cells) : r.bitmaps.values (bitmapSlot keccak w) = some v := by
  rcases List.mem_append.mp hu with hu | hu
  · have hcell : TickCell keccak (bitmapSlot keccak w) := by
      rcases List.mem_append.mp hu with hu | hu
      · exact (boundaryUpdates_cells r.lower_tick.1 r.lower_ok hu).2
      · exact (boundaryUpdates_cells r.upper_tick.1 r.upper_ok hu).2
    obtain ⟨t, i, ht, hi, heq⟩ := hcell
    exact absurd heq.symm (hk.tick_ne_bitmap ht hi)
  · obtain ⟨slot, -, hu⟩ := List.mem_filterMap.mp hu
    obtain ⟨value, hvalue, heq⟩ := Option.map_eq_some_iff.mp hu
    simp only [StateUpdate.mk.injEq, true_and] at heq
    rw [← heq.1, ← heq.2]
    exact hvalue

theorem Closed.liquidity (hk : DistinctKeys keccak) (h : Closed keccak address spacing state W) {cold : List U256}
    (hcold : ∀ x, x ∈ cold ↔ x ∈ r.cold) :
    Closed keccak address spacing ((state.applyUpdates (r.cells ++ r.active)).purge address cold) W := by
  have hwarm : ∀ n < 2 ^ 17, BitVec.ofNat 256 n ∉ cold := fun n hn hx =>
    DerivedCell.ne_fixed hk (r.cold_derived ((hcold _).mp hx)) hn rfl
  have hobs : ∀ i < 2 ^ 16, observationSlot i ∉ cold := fun i hi => by
    rw [observationSlot_eq]
    exact hwarm _ (by omega)
  have hbitmap : ∀ w ∈ W, bitmapSlot keccak w ∉ cold := fun w hw hx => r.bitmap_warm hk h hw ((hcold _).mp hx)
  have hresolved : ∀ w ∈ W, ∀ b < 256, InRange (bitTick spacing w b) →
      (bitTick spacing w b = event.tickLower ∨ bitTick spacing w b = event.tickUpper) → ∀ i < 4,
      ∃ u ∈ r.cells ++ r.active, u.address = address ∧ u.slot = tickSlot keccak (bitTick spacing w b) i := by
    intro w hw b hb hin heq i hi
    have hword := (bitTick_word r.spacing_pos w hb).1
    rcases heq with heq | heq
    · rw [heq] at hword ⊢
      obtain ⟨update, hupdate⟩ := Option.ne_none_iff_exists'.mp
        (h.resolves r.spacing_pos r.lower_tick.1 r.lower_tick.2 (hword ▸ hw) r.lower_ok)
      obtain ⟨u, hu, ha, hslot⟩ := resolveBoundary_held (hupdate ▸ r.lower_ok) hi
      refine ⟨u, List.mem_append_left _ (List.mem_append_left _ (List.mem_append_left _ ?_)), ha, hslot⟩
      rwa [LiquidityReplay.lowerBoundary, hupdate]
    · rw [heq] at hword ⊢
      obtain ⟨update, hupdate⟩ := Option.ne_none_iff_exists'.mp
        (h.resolves r.spacing_pos r.upper_tick.1 r.upper_tick.2 (hword ▸ hw) r.upper_ok)
      obtain ⟨u, hu, ha, hslot⟩ := resolveBoundary_held (hupdate ▸ r.upper_ok) hi
      refine ⟨u, List.mem_append_left _ (List.mem_append_left _ (List.mem_append_right _ ?_)), ha, hslot⟩
      rwa [LiquidityReplay.upperBoundary, hupdate]
  refine h.of_keeps ⟨fun n hn => ?_, fun raw hraw => ?_, fun w hw => ?_, fun w hw b hb hin i hi hheld => ?_,
    fun w hw b hb hin word' hword' hbit => ?_⟩
  · exact (h.base n hn).applyUpdates.purge (hwarm n (by omega))
  · obtain ⟨hraw, -⟩ := storage_purge hraw
    rcases storage_applyUpdates hraw with hmem | ⟨hstate, -⟩
    · rcases List.mem_append.mp hmem with hmem | hmem
      · exact absurd rfl (DerivedCell.ne_fixed hk (r.cells_derived hmem).2 (n := 0) (by decide))
      · obtain ⟨-, i, hi, hslot | hslot | ⟨-, hfield, value, hvalue⟩⟩ := r.mem_active hmem
        · exact absurd hslot.symm (observationSlot_ne (n := 0) hi (by decide))
        · exact absurd (show (0 : U256) = 4 from hslot) (by decide)
        · rw [hfield]
          exact (Held.of_mem (List.mem_append_right _ hvalue) rfl rfl).purge (hobs i hi)
    · exact (h.observation raw hstate).applyUpdates.purge (hobs _ (field_lt _ _ _))
  · exact (h.bitmap w hw).applyUpdates.purge (hbitmap w hw)
  · exact hheld.applyUpdates.purge fun hx => r.tick_warm hk h hw hb hin hi ((hcold _).mp hx)
  · by_cases heq : bitTick spacing w b = event.tickLower ∨ bitTick spacing w b = event.tickUpper
    · refine .inr fun i hi => ?_
      obtain ⟨u, hu, ha, hslot⟩ := hresolved w hw b hb hin heq i hi
      exact (Held.of_mem hu ha hslot).purge fun hx => r.tick_warm hk h hw hb hin hi ((hcold _).mp hx)
    · rw [not_or] at heq
      obtain ⟨hword', -⟩ := storage_purge hword'
      rcases storage_applyUpdates hword' with hmem | ⟨hstate, -⟩
      · have hvalue : r.bitmaps.values (bitmapSlot keccak w) = some word' := by
          rcases List.mem_append.mp hmem with hmem | hmem
          · exact r.mem_cells_bitmap hk hmem
          · obtain ⟨-, i, hi, hslot | hslot | ⟨hslot, -⟩⟩ := r.mem_active hmem
            · rw [observationSlot_eq] at hslot
              exact absurd hslot (hk.bitmap_ne_fixed (by omega))
            · exact absurd hslot (hk.bitmap_ne_fixed (n := 4) (by decide))
            · exact absurd hslot (hk.bitmap_ne_fixed (n := 0) (by decide))
        obtain ⟨word, hword⟩ := h.bitmap w hw
        have hkept := r.bit_kept hk hb heq.1 heq.2
        rw [hvalue, hword, Option.getD_some, Option.getD_some] at hkept
        exact .inl ⟨word, hword, hkept ▸ hbit⟩
      · exact .inl ⟨word', hstate, hbit⟩

end

/-- Every event keeps the window. -/
theorem replayStep_closed (hk : DistinctKeys keccak) (h : Closed keccak address spacing state W) {fee : Nat}
    {event : PoolEvent × AdapterEventContext} {state' : StateView}
    (hok : replayStep keccak address (.uniswap spacing) fee state event = .ok state') :
    Closed keccak address spacing state' W := by
  obtain ⟨event, context⟩ := event
  obtain ⟨transition, hreplay, hstate'⟩ := bind_eq_ok.mp hok
  obtain rfl := pure_eq_ok.mp hstate'
  cases event with
  | swap swap =>
    obtain ⟨hus, hcold⟩ := exactly_eq_ok.mp hreplay
    obtain ⟨f⟩ := swap_frame hus
    rw [hcold, purge_nil]
    exact h.swap hk f
  | liquidity event =>
    rcases liquidity_replay hreplay with ⟨-, rfl⟩ | ⟨r, hupdates, hcold⟩
    · rwa [purge_nil]
    · rw [hupdates]
      exact h.liquidity r hk hcold
  | flash event =>
    obtain ⟨hus, hcold⟩ := exactly_eq_ok.mp hreplay
    obtain ⟨growth0, growth1, fees, hus⟩ := deriveUniswapV3Flash_cases hus
    rw [hcold, purge_nil, hus]
    refine h.of_fixed hk (fun u hu => ?_) fun v hv => ?_
    · simp only [List.mem_cons, List.not_mem_nil, or_false] at hu
      rcases hu with rfl | rfl | rfl
      exacts [⟨1, by decide, rfl⟩, ⟨2, by decide, rfl⟩, ⟨3, by decide, rfl⟩]
    · simp at hv
  | setFeeProtocol event =>
    obtain ⟨hus, hcold⟩ := exactly_eq_ok.mp hreplay
    obtain ⟨raw, hraw, hus⟩ := deriveUniswapV3SetFeeProtocol_cases hus
    rw [hcold, purge_nil, hus]
    refine h.of_fixed hk (fun u hu => ?_) fun v hv => ⟨raw, hraw, ?_⟩
    · rw [List.mem_singleton.mp hu]
      exact ⟨0, by decide, rfl⟩
    · have heq := List.mem_singleton.mp hv
      simp only [StateUpdate.mk.injEq, true_and] at heq
      rw [heq, field, Packed.get_set_of_disjoint (by omega), field]
  | collectProtocol event =>
    obtain ⟨hus, hcold⟩ := exactly_eq_ok.mp hreplay
    obtain ⟨fees, hus⟩ := deriveUniswapV3CollectProtocol_cases hus
    rw [hcold, purge_nil, hus]
    refine h.of_fixed hk (fun u hu => ?_) fun v hv => ?_
    · rw [List.mem_singleton.mp hu]
      exact ⟨3, by decide, rfl⟩
    · simp at hv
  | observationGrowth event =>
    obtain ⟨hus, hcold⟩ := exactly_eq_ok.mp hreplay
    obtain ⟨raw, hraw, -, -, hus⟩ := deriveUniswapV3ObservationGrowth_cases hus
    rw [hcold, purge_nil, hus]
    have hnew := event.new.isLt
    have hgrown : ∀ u ∈ growthWrites address event.old.toNat event.new.toNat, ∃ i < 2 ^ 16, u.slot = observationSlot i := by
      intro u hu
      obtain ⟨i, hi, rfl⟩ := List.mem_map.mp hu
      have hi := List.mem_range.mp hi
      exact ⟨event.old.toNat + i, by omega, rfl⟩
    refine h.of_fixed hk (fun u hu => ?_) fun v hv => ⟨raw, hraw, ?_⟩
    · rcases List.mem_append.mp hu with hu | hu
      · obtain ⟨i, hi, hslot⟩ := hgrown u hu
        exact ⟨8 + i, by omega, hslot.trans (observationSlot_eq i)⟩
      · rw [List.mem_singleton.mp hu]
        exact ⟨0, by decide, rfl⟩
    · rcases List.mem_append.mp hv with hv | hv
      · obtain ⟨i, hi, hslot⟩ := hgrown _ hv
        exact absurd hslot.symm (observationSlot_ne (n := 0) hi (by decide))
      · have heq := List.mem_singleton.mp hv
        simp only [StateUpdate.mk.injEq, true_and] at heq
        rw [heq, field, Packed.get_set_of_disjoint (by omega), field]

/-! ### What a swap can miss -/

end

namespace Decided
variable {α β : Type}

theorem error (e : V3TransitionError) : Decided (.error (.v3Transition e) : Result α) := fun _ _ => nofun

theorem malformed {c : Prop} [Decidable c] {what : String} :
    Decided (Checked.ensure c (AdapterEventError.malformedLog what)) := by
  intro address slot
  unfold Checked.ensure
  split_ifs
  · exact nofun
  · exact fun h => nomatch h

theorem foldlM {f : β → α → Result β} (h : ∀ b a, Decided (f b a)) (l : List α) (b : β) : Decided (l.foldlM f b) := by
  induction l generalizing b with
  | nil => exact .ok b
  | cons a l ih => exact .bind (h b a) ih

theorem mapM {f : α → Result β} (h : ∀ a, Decided (f a)) (l : List α) : Decided (l.mapM f) := by
  induction l with
  | nil => exact .ok []
  | cons a l ih =>
    rw [List.mapM_cons]
    exact .bind (h a) fun _ => .bind ih fun _ => .ok _

end Decided

section
variable {e : V3TransitionError}

theorem decided_checkedAdd (a b : Nat) : Decided (checkedAdd a b (.v3Transition e)) := .bind .ensure fun _ => .ok _

theorem decided_checkedSub (a b : Nat) : Decided (checkedSub a b (.v3Transition e)) := .bind .ensure fun _ => .ok _

theorem decided_div512 (a b : Nat) (roundUp : Bool) : Decided (div512 a b roundUp) :=
  .bind .ensure fun _ => .bind .ensure fun _ => .ok _

theorem decided_sqrtRatioAtTick (tick : Int) : Decided (sqrtRatioAtTick tick) :=
  .bind .ensure fun _ => .bind (.foldlM (fun _ _ => .ite (.bind .ensure fun _ => .ok _) (.ok _)) _ _) fun _ => .ok _

theorem decided_segmentAmounts (a b liquidity : Nat) (zeroForOne : Bool) :
    Decided (segmentAmounts a b liquidity zeroForOne) :=
  .bind .ensure fun _ => .ite (.bind (decided_div512 _ _ _) fun _ => .bind (decided_div512 _ _ _) fun _ => .ok _)
    (.bind (decided_div512 _ _ _) fun _ => .bind (decided_div512 _ _ _) fun _ => .ok _)

theorem decided_nextSqrtFromOutput (sqrt liquidity amount : Nat) (zeroForOne : Bool) :
    Decided (nextSqrtFromOutput sqrt liquidity amount zeroForOne) :=
  .bind .ensure fun _ => .ite
    (.bind (decided_div512 _ _ _) fun _ => .bind .ensure fun _ => .bind .ensure fun _ => .ok _)
    (.ite (.ok _) (.bind .ensure fun _ => .bind (decided_div512 _ _ _) fun _ => .bind .ensure fun _ => .ok _))

theorem decided_nextSqrtFromInput (sqrt liquidity amount : Nat) (zeroForOne : Bool) :
    Decided (nextSqrtFromInput sqrt liquidity amount zeroForOne) :=
  .bind .ensure fun _ => .ite
    (.ite (.ok _) (.ite (.bind (decided_div512 _ _ _) fun _ => .bind .ensure fun _ => .ok _)
      (.bind (decided_checkedAdd _ _) fun _ => .bind (decided_div512 _ _ _) fun _ => .bind .ensure fun _ => .ok _)))
    (.bind (decided_div512 _ _ _) fun _ => .bind (decided_checkedAdd _ _) fun _ => .bind .ensure fun _ => .ok _)

theorem decided_outputIsCapped (a b liquidity final derived actual : Nat) (zeroForOne : Bool) :
    Decided (outputIsCapped a b liquidity final derived actual zeroForOne) :=
  .ite (.ok _) (.bind (decided_checkedSub _ _) fun _ =>
    .ite (.bind (decided_nextSqrtFromOutput _ _ _ _) fun _ => .bind .ensure fun _ => .ok _) (.error _))

theorem decided_validFinalStepFee (a b liquidity amountIn feeAmount fee : Nat) (zeroForOne : Bool) :
    Decided (validFinalStepFee a b liquidity amountIn feeAmount fee zeroForOne) :=
  .bind (decided_div512 _ _ _) fun _ => .ite (.ok _) (.ite (.ok _) (.bind (decided_checkedAdd _ _) fun _ =>
    .bind (decided_div512 _ _ _) fun _ => .bind (decided_nextSqrtFromInput _ _ _ _) fun _ => .ok _))

theorem decided_checkedSum (values : List Nat) : Decided (checkedSum values) :=
  .foldlM (fun _ _ => decided_checkedAdd _ _) _ _

theorem decided_fullStepFees (segments : List Segment) (fee : Nat) : Decided (fullStepFees segments fee) :=
  .bind (.mapM (fun _ => decided_div512 _ _ _) _) fun _ => decided_checkedSum _

theorem decided_splitFees (fee : Nat) (swap : DecodedSwap) (zeroForOne : Bool) (path : Path) (segments : List Segment) :
    Decided (splitFees fee swap zeroForOne path segments) := by
  refine .bind (decided_checkedSum _) fun _ => .bind (decided_checkedSum _) fun _ =>
    .bind (decided_outputIsCapped _ _ _ _ _ _ _) fun _ => .bind (decided_checkedSub _ _) fun _ => .bind ?_ fun _ =>
    .bind ?_ fun _ => .ok _
  · exact .ite (.bind (decided_fullStepFees _ _) fun _ => .ensure) (.ok _)
  · exact .ite (.bind (decided_fullStepFees _ _) fun _ => .ite
      (.bind (decided_validFinalStepFee _ _ _ _ _ _ _) fun _ => .ok _) (.ok _)) (.ok _)

theorem decided_allocateSegment {address : Address} {fee divisor timestamp : Nat} {zeroForOne isLast : Bool}
    {now : Observation} (segment : Segment) (f : FeeState) :
    Decided (allocateSegment address fee divisor zeroForOne now timestamp segment isLast f) := by
  refine .bind ?_ fun _ => .bind (decided_checkedSub _ _) fun _ => .bind ?_ fun _ => ?_
  · exact .ite (.bind (decided_validFinalStepFee _ _ _ _ _ _ _) fun _ => .bind .ensure fun _ => .ok _)
      (decided_div512 _ _ _)
  · exact .ite (.bind .ensure fun _ => .ok _) (decided_div512 _ _ _)
  · cases segment.crossedTick with
    | none => exact .ok _
    | some tick => exact .ok _

theorem decided_allocateFees {address : Address} {fee divisor timestamp : Nat} {zeroForOne : Bool} {now : Observation}
    (segments : List Segment) (f : FeeState) :
    Decided (allocateFees address fee divisor zeroForOne now timestamp segments f) := by
  induction segments generalizing f with
  | nil => exact .ok f
  | cons segment rest ih => exact .bind (decided_allocateSegment _ _) ih

theorem decided_applyLiquidityNet (liquidity : Nat) (net : Int) (zeroForOne : Bool) :
    Decided (applyLiquidityNet liquidity net zeroForOne) := by
  have hrest : ∀ delta : Int, Decided (do
      let result ← (if delta < 0 then checkedSub liquidity delta.natAbs (arithmetic "active liquidity overflow/underflow")
        else checkedAdd liquidity delta.natAbs (arithmetic "active liquidity overflow/underflow"))
      Checked.ensure (result ≤ WORD_128_MASK) (arithmetic "active liquidity exceeds uint128")
      return result) := fun _ =>
    .bind (.ite (decided_checkedSub _ _) (decided_checkedAdd _ _)) fun _ => .bind .ensure fun _ => .ok _
  cases zeroForOne with
  | true => exact .bind .ensure fun _ => hrest _
  | false => exact hrest _

theorem decided_validateParentSlot0 (slot0 : Slot0) : Decided (validateParentSlot0 slot0) :=
  .bind (decided_sqrtRatioAtTick _) fun _ => .bind (decided_sqrtRatioAtTick _) fun _ => .bind .ensure fun _ =>
    .bind (decided_sqrtRatioAtTick _) fun _ => .bind (decided_sqrtRatioAtTick _) fun _ => .ensure

theorem decided_validateFinalTick (price : Nat) (tick : Int) (zeroForOne : Bool) :
    Decided (validateFinalTick price tick zeroForOne) := by
  refine .bind (decided_sqrtRatioAtTick _) fun _ => .bind (decided_sqrtRatioAtTick _) fun _ => .bind .ensure fun _ =>
    .bind (decided_sqrtRatioAtTick _) fun _ => .bind (.ite (.ok _) ?_) fun _ => .ensure
  exact .bind (decided_sqrtRatioAtTick _) fun _ => .ok _

theorem decided_checkSwapEvent (slot0 : Slot0) (swap : DecodedSwap) : Decided (checkSwapEvent slot0 swap) := by
  refine .bind ?_ fun _ => .bind .ensure fun _ => .bind (decided_validateFinalTick _ _ _) fun _ => .ok _
  unfold swapDirection
  split
  · exact .ok _
  · exact .ok _
  · exact .ok _
  · exact .ok _
  · exact .error _

theorem decided_checkSwapInputs (layout : V3StorageLayout) (fee : Nat) (swap : DecodedSwap)
    (context : AdapterEventContext) : Decided (checkSwapInputs layout fee swap context) := by
  refine .bind ?_ fun _ => .bind .ensure fun _ => .bind .ensure fun _ => .bind .ensure fun _ =>
    .bind .malformed fun _ => .ok _
  refine .bind .ensure fun _ => .bind .ensure fun _ => .bind .ensure fun _ => .bind .ensure fun _ => .bind ?_ fun _ =>
    .bind .ensure fun _ => .bind .ensure fun _ => .bind .ensure fun _ => .bind .ensure fun _ => .ok _
  cases context.blockTimestamp with
  | none => exact .error _
  | some t => exact .ok t

end

/-- A missing cell is one of those that the predicate names. -/
def Misses (P : Address → U256 → Prop) {α : Type} (r : Result α) : Prop :=
  ∀ a slot, r = .error (.missingState a slot) → P a slot

namespace Misses
variable {P : Address → U256 → Prop} {α β : Type}

theorem of_decided {r : Result α} (h : Decided r) : Misses P r := fun a slot hr => absurd hr (h a slot)

theorem bind {r : Result α} {f : α → Result β} (hr : Misses P r) (hf : ∀ a, r = .ok a → Misses P (f a)) :
    Misses P (r >>= f) := by
  intro a slot h
  cases r with
  | error e => exact hr a slot (by cases h; rfl)
  | ok x => exact hf x rfl a slot h

theorem required {state : StateView} {address : Address} {slot : U256} (h : ¬ Held state address slot → P address slot) :
    Misses P (required state address slot) := by
  intro a slot' hr
  unfold V3.required at hr
  cases hs : state.storage address slot with
  | some value =>
    rw [hs] at hr
    cases hr
  | none =>
    rw [hs] at hr
    cases hr
    refine h fun ⟨value, hv⟩ => ?_
    rw [hs] at hv
    cases hv

end Misses

section
variable {keccak : Keccak} {address : Address} {spacing : Int} {state : StateView} {W : Set (BitVec 16)}

/-- An absent cell outside the window: a bitmap word, or a word of a tick that a held bitmap word outside the window
    sets. -/
def Outside (keccak : Keccak) (address : Address) (spacing : Int) (state : StateView) (W : Set (BitVec 16)) (a : Address)
    (slot : U256) : Prop :=
  a = address ∧ ¬ Held state address slot ∧ ∃ w ∉ W, slot = bitmapSlot keccak w ∨
    ∃ word, state.storage address (bitmapSlot keccak w) = some word ∧ ∃ b < 256, word.getLsbD b = true ∧
      InRange (bitTick spacing w b) ∧ ∃ i < 4, slot = tickSlot keccak (bitTick spacing w b) i

/-- The ticks that a walk can stand on. -/
def Walkable (tick : Int) : Prop := MIN_TICK ≤ tick ∧ tick < MAX_TICK

theorem nextStepBoundary_misses (h : Closed keccak address spacing state W) (tick : Int) (zeroForOne : Bool) :
    Misses (Outside keccak address spacing state W)
      (nextStepBoundary keccak address (.uniswap spacing) state tick zeroForOne) := by
  refine .bind (.required fun hnone => ?_) fun _ _ => .of_decided (.bind .ensure fun _ => .ok _)
  exact ⟨rfl, hnone, _, fun hw => hnone (h.bitmap _ hw), .inl rfl⟩

/-- The boundary of a walk lies in its direction; an initialized one inside the range of ticks is that of a set bit. -/
theorem nextStepBoundary_bit (hs : 0 < spacing) {tick : Int} (ht : Walkable tick) {zeroForOne : Bool}
    {boundary : StepBoundary}
    (hok : nextStepBoundary keccak address (.uniswap spacing) state tick zeroForOne = .ok boundary) :
    (if zeroForOne then boundary.tick ≤ tick else tick < boundary.tick) ∧
      (boundary.initialized = true → MIN_TICK < boundary.tick → boundary.tick < MAX_TICK →
        ∃ w word b, b < 256 ∧ state.storage address (bitmapSlot keccak w) = some word ∧ word.getLsbD b = true ∧
          bitTick spacing w b = boundary.tick) := by
  obtain ⟨word, hword, hok⟩ := bind_eq_ok.mp hok
  obtain ⟨_, -, hok⟩ := bind_eq_ok.mp hok
  have hboundary := pure_eq_ok.mp hok
  obtain ⟨search, hsearch⟩ : ∃ search, search = if zeroForOne = true then tick / spacing else tick / spacing + 1 := ⟨_, rfl⟩
  have hword : required state address (bitmapSlot keccak (BitVec.ofInt 16 (search / 256))) = .ok word := by
    rw [hsearch]
    exact hword
  obtain ⟨found, hfound⟩ : ∃ found, found = searchWord word search zeroForOne := ⟨_, rfl⟩
  have htick : boundary.tick = max MIN_TICK (min MAX_TICK (found.1 * spacing)) := by
    rw [← hboundary, hfound, hsearch]
    rfl
  have hflag : boundary.initialized = found.2 := by
    rw [← hboundary, hfound, hsearch]
    rfl
  have hspec : WordSearch word search zeroForOne found := hfound ▸ searchWord_spec word search zeroForOne
  have hrange := compressed_bounds hs ⟨ht.1, ht.2.le⟩
  obtain ⟨hmin, hmax⟩ := ht
  constructor
  · rw [htick]
    cases zeroForOne with
    | true =>
      obtain ⟨hle, -⟩ := hspec.down rfl
      have hmul : found.1 * spacing ≤ tick := by
        rw [hsearch] at hle
        exact (mul_le_mul_of_nonneg_right hle hs.le).trans (Int.ediv_mul_le tick hs.ne')
      simp only [if_true]
      omega
    | false =>
      obtain ⟨hle, -⟩ := hspec.up rfl
      have hmul : tick < found.1 * spacing := by
        rw [hsearch] at hle
        exact (Int.lt_ediv_add_one_mul_self tick hs).trans_le (mul_le_mul_of_nonneg_right hle hs.le)
      simp only [Bool.false_eq_true, if_false]
      omega
  · intro hinit hlo hhi
    have hq : (BitVec.ofInt 16 (search / 256)).toInt = search / 256 := by
      unfold MIN_TICK MAX_TICK at hrange
      refine BitVec.toInt_ofInt_eq_self (by decide) ?_ ?_ <;> rw [hsearch] <;> split_ifs <;> omega
    refine ⟨BitVec.ofInt 16 (search / 256), word, (found.1 % 256).toNat, bitPosition_lt _, required_eq_ok.mp hword, ?_, ?_⟩
    · rw [hspec.bit, ← hflag]
      exact hinit
    · have hcompressed : search / 256 * 256 + ((found.1 % 256).toNat : Int) = found.1 := by
        have := hspec.word
        omega
      rw [bitTick, hq, hcompressed]
      omega

theorem crossBoundary_misses (h : Closed keccak address spacing state W) (hs : 0 < spacing) {tick : Int}
    (ht : Walkable tick) {zeroForOne : Bool} {boundary : StepBoundary}
    (hb : nextStepBoundary keccak address (.uniswap spacing) state tick zeroForOne = .ok boundary) {reached : Bool}
    (hreached : reached = true → MIN_TICK < boundary.tick ∧ boundary.tick < MAX_TICK) (liquidity : Nat) (direction : Bool) :
    Misses (Outside keccak address spacing state W)
      (crossBoundary keccak address (.uniswap spacing) state boundary reached liquidity direction) := by
  unfold crossBoundary
  split_ifs with hc
  · obtain ⟨hlo, hhi⟩ := hreached hc.1
    obtain ⟨w, word, b, hb, hword, hbit, htick⟩ := (nextStepBoundary_bit hs ht hb).2 hc.2 hlo hhi
    have hin : InRange (bitTick spacing w b) := htick ▸ ⟨hlo.le, hhi.le⟩
    have hrequired : ∀ i < 4, Misses (Outside keccak address spacing state W)
        (required state address (tickSlot keccak boundary.tick i)) := by
      intro i hi
      refine .required fun hnone => ⟨rfl, hnone, w, fun hw => hnone ?_, .inr ⟨word, hword, b, hb, hbit, hin, i, hi, ?_⟩⟩
      · rw [← htick]
        exact h.ticks w hw word hword b hb hbit hin i hi
      · rw [htick]
    refine .bind (.bind ?_ fun _ _ => .of_decided (.bind .ensure fun _ => .bind .ensure fun _ => .ok _)) fun _ _ =>
      .of_decided (.bind (decided_applyLiquidityNet _ _ _) fun _ => .ok _)
    exact .bind (hrequired 0 (by decide)) fun _ _ => .bind (hrequired 1 (by decide)) fun _ _ =>
      .bind (hrequired 2 (by decide)) fun _ _ => .bind (hrequired 3 (by decide)) fun _ _ => .of_decided (.ok _)
  · exact .of_decided (.ok _)

/-- A boundary that the price of a swap reaches is none of the two ends. -/
theorem reached_inside (hs : 0 < spacing) {swap : DecodedSwap} {zeroForOne : Bool} (hfinal : FinalTick swap zeroForOne)
    {tick : Int} (ht : Walkable tick) {boundary : StepBoundary}
    (hb : nextStepBoundary keccak address (.uniswap spacing) state tick zeroForOne = .ok boundary)
    (hside : if zeroForOne then swap.sqrtPriceX96 ≤ sqrtRatio boundary.tick else sqrtRatio
      boundary.tick ≤ swap.sqrtPriceX96) :
    MIN_TICK < boundary.tick ∧ boundary.tick < MAX_TICK := by
  have hin := nextStepBoundary_inRange hb
  have hdir := (nextStepBoundary_bit hs ht hb).1
  cases zeroForOne with
  | true =>
    refine ⟨lt_of_le_of_ne hin.1 fun heq => ?_, lt_of_le_of_lt hdir ht.2⟩
    have hgt := hfinal.price_gt
    rw [← sqrtRatio_min, heq] at hgt
    exact absurd hside (not_le.mpr hgt)
  | false =>
    refine ⟨lt_of_le_of_lt ht.1 hdir, lt_of_le_of_ne hin.2 fun heq => ?_⟩
    have hlt := hfinal.price_lt
    rw [← sqrtRatio_max, ← heq] at hlt
    exact absurd hside (not_le.mpr hlt)

theorem pathStep_misses (h : Closed keccak address spacing state W) (hs : 0 < spacing) {swap : DecodedSwap}
    {zeroForOne : Bool} (hfinal : FinalTick swap zeroForOne) {path : Path} (ht : Walkable path.tick) :
    Misses (Outside keccak address spacing state W)
        (pathStep keccak address (.uniswap spacing) state swap zeroForOne path) ∧
      ∀ path', pathStep keccak address (.uniswap spacing) state swap zeroForOne path = .ok path' → Walkable path'.tick := by
  have hinside : ∀ {boundary}, nextStepBoundary keccak address (.uniswap spacing) state path.tick
      zeroForOne = .ok boundary →
      (if zeroForOne then max (sqrtRatio boundary.tick) swap.sqrtPriceX96
        else min (sqrtRatio boundary.tick) swap.sqrtPriceX96) = sqrtRatio boundary.tick →
      MIN_TICK < boundary.tick ∧ boundary.tick < MAX_TICK := by
    intro boundary hb heq
    refine reached_inside hs hfinal ht hb ?_
    cases zeroForOne with
    | true => exact heq ▸ le_max_right _ _
    | false => exact heq ▸ min_le_right _ _
  constructor
  · refine .bind (nextStepBoundary_misses h _ _) fun boundary hb => .bind (.of_decided (decided_sqrtRatioAtTick _))
      fun boundarySqrt hsqrt => .bind (.of_decided (decided_segmentAmounts _ _ _ _)) fun _ _ => .bind ?_ fun _ _ =>
      .of_decided (.ok _)
    obtain ⟨-, rfl⟩ := sqrtRatioAtTick_eq_ok.mp hsqrt
    exact crossBoundary_misses h hs ht hb (fun hr => hinside hb (of_decide_eq_true hr)) _ _
  · intro path' hok
    obtain ⟨boundary, hb, hok⟩ := bind_eq_ok.mp hok
    obtain ⟨boundarySqrt, hsqrt, hok⟩ := bind_eq_ok.mp hok
    obtain ⟨_, -, hok⟩ := bind_eq_ok.mp hok
    obtain ⟨_, -, hok⟩ := bind_eq_ok.mp hok
    obtain rfl := pure_eq_ok.mp hok
    obtain ⟨-, rfl⟩ := sqrtRatioAtTick_eq_ok.mp hsqrt
    by_cases hr : (if zeroForOne then max (sqrtRatio boundary.tick) swap.sqrtPriceX96
        else min (sqrtRatio boundary.tick) swap.sqrtPriceX96) = sqrtRatio boundary.tick
    · obtain ⟨hlo, hhi⟩ := hinside hb hr
      simp only [hr, decide_true, if_true]
      cases zeroForOne with
      | true => exact ⟨Int.le_sub_one_of_lt hlo, by simp only [if_true]; omega⟩
      | false => exact ⟨hlo.le, hhi⟩
    · simp only [hr, decide_false, Bool.false_eq_true, if_false]
      exact ⟨hfinal.tick_ge, hfinal.tick_lt⟩

theorem enterBoundary_misses (h : Closed keccak address spacing state W) (hs : 0 < spacing) {swap : DecodedSwap}
    (hfinal : FinalTick swap true) {path : Path} (ht : Walkable path.tick) (heq : path.sqrt = swap.sqrtPriceX96) :
    Misses (Outside keccak address spacing state W) (enterBoundary keccak address (.uniswap spacing) state path) ∧
      ∀ path', enterBoundary keccak address (.uniswap spacing) state path = .ok path' → Walkable path'.tick := by
  have hinside : ∀ {boundary}, nextStepBoundary keccak address (.uniswap spacing) state path.tick true = .ok boundary →
      sqrtRatio boundary.tick = path.sqrt → MIN_TICK < boundary.tick ∧ boundary.tick < MAX_TICK := by
    intro boundary hb hstand
    refine reached_inside hs hfinal ht hb ?_
    rw [if_pos rfl, hstand, heq]
  constructor
  · refine .bind (nextStepBoundary_misses h _ _) fun boundary hb => .bind (.of_decided (decided_sqrtRatioAtTick _))
      fun boundarySqrt hsqrt => ?_
    obtain ⟨-, rfl⟩ := sqrtRatioAtTick_eq_ok.mp hsqrt
    split_ifs with hstand
    · exact .bind (crossBoundary_misses h hs ht hb (fun _ => hinside hb hstand) _ _) fun _ _ => .of_decided (.ok _)
    · exact .of_decided (.ok _)
  · intro path' hok
    obtain ⟨boundary, hb, hok⟩ := bind_eq_ok.mp hok
    obtain ⟨boundarySqrt, hsqrt, hok⟩ := bind_eq_ok.mp hok
    obtain ⟨-, rfl⟩ := sqrtRatioAtTick_eq_ok.mp hsqrt
    split_ifs at hok with hstand
    · obtain ⟨_, -, hok⟩ := bind_eq_ok.mp hok
      obtain rfl := pure_eq_ok.mp hok
      obtain ⟨hlo, hhi⟩ := hinside hb hstand
      exact ⟨Int.le_sub_one_of_lt hlo, by simp only []; omega⟩
    · obtain rfl := pure_eq_ok.mp hok
      exact ht

theorem walk_misses (h : Closed keccak address spacing state W) (hs : 0 < spacing) {swap : DecodedSwap}
    {zeroForOne : Bool} (hfinal : FinalTick swap zeroForOne) (steps : Nat) {path : Path} (ht : Walkable path.tick) :
    Misses (Outside keccak address spacing state W)
      (walk keccak address (.uniswap spacing) state swap zeroForOne steps path) := by
  induction steps generalizing path with
  | zero => exact .of_decided (.ite (.ok _) (.error _))
  | succ steps ih =>
    unfold walk
    split_ifs
    · exact .of_decided (.ok _)
    · obtain ⟨hmisses, hnext⟩ := pathStep_misses h hs hfinal ht
      exact .bind hmisses fun next hok => ih (hnext next hok)

/-- The oracle of a swap reads the current observation alone. -/
theorem decided_swapOracle (h : Closed keccak address spacing state W) {raw : U256}
    (hraw : state.storage address 0 = some raw) (liquidity t : Nat) (tick : Int) :
    Decided (swapOracle address (Slot0.decode raw) liquidity state t tick) := by
  have hread : Decided (required state address (UNISWAP_V3_SURFACE.observationsBaseSlot +
      BitVec.ofNat 256 (Slot0.decode raw).observationIndex)) := by
    intro a slot
    obtain ⟨value, hv⟩ := (h.observation raw hraw).required
    rw [show UNISWAP_V3_SURFACE.observationsBaseSlot + BitVec.ofNat 256 (Slot0.decode raw).observationIndex =
      observationSlot (field raw 184 16) from rfl, hv]
    nofun
  exact .ite (.bind .ensure fun _ => .bind .ensure fun _ => .bind .ensure fun _ => .bind hread fun _ =>
    .bind .ensure fun _ => .ite (.ok _) (.ok _)) (.ok _)

theorem decided_loadSwapParent (h : Closed keccak address spacing state W) :
    Decided (loadSwapParent address (.uniswap spacing) state) := by
  have hread : ∀ n < 5, Decided (required state address (BitVec.ofNat 256 n)) := by
    intro n hn a slot
    obtain ⟨value, hv⟩ := (h.base n hn).required
    rw [hv]
    nofun
  refine .bind ?_ fun _ => .bind (hread 1 (by decide)) fun _ => .bind (hread 2 (by decide)) fun _ =>
    .bind (hread 3 (by decide)) fun _ => .ok _
  exact .bind (hread 0 (by decide)) fun _ => .bind .ensure fun _ => .bind (decided_validateParentSlot0 _) fun _ =>
    .bind (hread 4 (by decide)) fun _ => .bind .ensure fun _ => .ok _

/-- A swap from a closed view misses nothing but what lies outside the window. -/
theorem deriveUniswapV3Swap_misses (h : Closed keccak address spacing state W) (fee : Nat) (swap : DecodedSwap)
    (context : AdapterEventContext) : Misses (Outside keccak address spacing state W)
      (deriveUniswapV3Swap keccak address (.uniswap spacing) fee swap state context) := by
  refine .bind (.of_decided (decided_checkSwapInputs _ _ _ _)) fun timestamp hinputs =>
    .bind (.of_decided (decided_loadSwapParent h)) fun parent hload =>
    .bind (.of_decided (decided_checkSwapEvent _ _)) fun zeroForOne hevent => ?_
  obtain ⟨⟨slot0, liquidity⟩, hslot0, hload⟩ := bind_eq_ok.mp hload
  obtain ⟨raw, hraw, -, hprice, word, -, -, heq⟩ := loadSlot0_eq_ok.mp hslot0
  obtain ⟨rfl, rfl⟩ := Prod.mk.inj heq
  obtain ⟨growth0, -, hload⟩ := bind_eq_ok.mp hload
  obtain ⟨growth1, -, hload⟩ := bind_eq_ok.mp hload
  obtain ⟨fees, -, hload⟩ := bind_eq_ok.mp hload
  obtain rfl := pure_eq_ok.mp hload
  obtain ⟨-, hlo, hhi, -⟩ := validateParentSlot0_eq_ok.mp hprice
  obtain ⟨-, hfinal, -⟩ := checkSwapEvent_spec hevent
  have hs : 0 < spacing := by
    obtain ⟨_, -, hin⟩ := bind_eq_ok.mp hinputs
    obtain ⟨_, -, hin⟩ := bind_eq_ok.mp hin
    obtain ⟨_, -, hin⟩ := bind_eq_ok.mp hin
    obtain ⟨_, hs, -⟩ := bind_eq_ok.mp hin
    exact ensure_eq_ok.mp hs
  have hpath : Misses (Outside keccak address spacing state W) (replayPath keccak address (.uniswap spacing) state swap
      zeroForOne ⟨(Slot0.decode raw).sqrtPriceX96, (Slot0.decode raw).tick, word.toNat, []⟩) := by
    unfold replayPath
    split_ifs with hc
    · obtain ⟨rfl, heq⟩ := hc
      obtain ⟨hmisses, hnext⟩ := enterBoundary_misses h hs hfinal ⟨hlo, hhi⟩ heq
      exact .bind hmisses fun path hok => walk_misses h hs hfinal _ (hnext path hok)
    · exact .bind (.of_decided (.ok _)) fun path hok => walk_misses h hs hfinal _ (by
        obtain rfl := pure_eq_ok.mp hok
        exact ⟨hlo, hhi⟩)
  refine .bind (.of_decided (decided_swapOracle h hraw _ _ _)) fun oracle _ => .bind ?_ fun _ _ =>
    .of_decided (.bind (decided_splitFees _ _ _ _ _) fun _ => .bind (decided_allocateFees _ _) fun _ =>
      .bind .ensure fun _ => .ok _)
  refine .bind hpath fun path _ => .of_decided (.bind ?_ fun _ => .bind .ensure fun _ => .bind .ensure fun _ => .ok _)
  exact .ite (.ite (.ok _) (.error _)) (.ok _)

/-- Every event keeps a closed window with all its words, and a swap from it that misses a cell names one outside: a bitmap
    word, unless the view holds a stray bitmap word outside the window and misses a tick of that word. -/
theorem closed_window (hk : DistinctKeys keccak) (h : Closed keccak address spacing state W) :
    (∀ fee event context state', replayStep keccak address (.uniswap spacing) fee state (event, context) = .ok state' →
      (∀ w ∈ W, Held state' address (bitmapSlot keccak w)) ∧ Closed keccak address spacing state' W) ∧
    (∀ fee swap context a slot, deriveUniswapV3Swap keccak address (.uniswap spacing) fee swap state context =
        .error (.missingState a slot) →
      Outside keccak address spacing state W a slot ∧
        ((∀ w ∉ W, ¬ Held state address (bitmapSlot keccak w)) → ∃ w ∉ W, slot = bitmapSlot keccak w)) := by
  refine ⟨fun fee event context state' hok => ?_, fun fee swap context a slot herr => ?_⟩
  · have hclosed := replayStep_closed hk h hok
    exact ⟨hclosed.bitmap, hclosed⟩
  · have hout := deriveUniswapV3Swap_misses h fee swap context a slot herr
    refine ⟨hout, fun hstray => ?_⟩
    obtain ⟨-, -, w, hw, heq | ⟨word, hword, -⟩⟩ := hout
    · exact ⟨w, hw, heq⟩
    · exact absurd ⟨word, hword⟩ (hstray w hw)

end

/-! ### Views of one pool -/

/-- The cells of a pool with an empty window. -/
def baseAt90 : StateView := fun _ slot => if slot ∈ [0, 1, 2, 3, 4, 8] then some (poolAt90 slot) else none

/-- The same with a bitmap word that sets tick 120. -/
def strayAt90 : StateView := baseAt90.applyUpdates [⟨7, bitmapSlot tabulatedKeccak 0, 4⟩]

/-- A swap from tick 90 past tick 120. -/
def swapPast120 : DecodedSwap where
  amount0Negative := false
  amount0 := 0
  amount1Negative := false
  amount1 := 1
  sqrtPriceX96 := sqrtRatio 130
  liquidity := 0
  tick := 130

theorem baseAt90_base {state : StateView} (h : ∀ slot, Held baseAt90 7 slot → Held state 7 slot)
    (hslot0 : state.storage 7 0 = some (poolAt90 0)) : Closed tabulatedKeccak 7 60 state ∅ := by
  have hcell : ∀ slot ∈ ([0, 1, 2, 3, 4, 8] : List U256), Held state 7 slot := fun slot hslot =>
    h slot ⟨poolAt90 slot, if_pos hslot⟩
  refine ⟨fun n hn => hcell _ ?_, fun raw hraw => ?_, nofun, nofun⟩
  · rcases n with _ | _ | _ | _ | _ | n
    · decide
    · decide
    · decide
    · decide
    · decide
    · omega
  · obtain rfl := Option.some.inj (hslot0.symm.trans hraw)
    exact hcell _ (by decide +kernel)

/-- The view after a mint between 120 and 180: the first bitmap word, the two ticks that it sets, and no other. -/
def windowAt90 : StateView := baseAt90.applyUpdates
  (heldTick 120 5 5 ++ heldTick 180 5 (-5) ++ [⟨7, bitmapSlot tabulatedKeccak 0, 12⟩])

theorem windowAt90_closed : Closed tabulatedKeccak 7 60 windowAt90 {0} := by
  have hbase : Closed tabulatedKeccak 7 60 windowAt90 ∅ := baseAt90_base (fun _ h => h.applyUpdates) (by decide +kernel)
  have hword : windowAt90.storage 7 (bitmapSlot tabulatedKeccak 0) = some 12 := by decide +kernel
  refine ⟨hbase.base, hbase.observation, fun w hw => ?_, fun w hw word hstored b hb hbit _ i hi => ?_⟩
  · rw [Set.mem_singleton_iff.mp hw]
    exact ⟨12, hword⟩
  · obtain rfl := Set.mem_singleton_iff.mp hw
    obtain rfl := Option.some.inj (hword.symm.trans hstored)
    have hset : ∀ b < 256, (12 : U256).getLsbD b = true → b = 2 ∨ b = 3 := by decide +kernel
    have hheld : ∀ b ∈ [2, 3], ∀ i < 4,
        (windowAt90.storage 7 (tickSlot tabulatedKeccak (bitTick 60 0 b) i)).isSome = true := by decide +kernel
    exact Option.isSome_iff_exists.mp (hheld b (by simpa using hset b hb hbit) i hi)

/-- A swap from tick 90 over both ticks of the window. -/
def swapPast180 : DecodedSwap := { swapPast120 with amount1 := 2, sqrtPriceX96 := sqrtRatio 200, tick := 200 }

/-- A swap on over tick 15300, the last of the window. -/
def swapPastWindow : DecodedSwap := { swapPast120 with sqrtPriceX96 := sqrtRatio 16000, tick := 16000 }

/-- A swap that crosses both ticks of the window, a mint that sets a third, and a swap that leaves the window. -/
theorem closed_window_windowAt90 :
    (∃ state', replayStep tabulatedKeccak 7 (.uniswap 60) 3000 windowAt90 (.swap swapPast180, contextAt 1012) = .ok state' ∧
      Closed tabulatedKeccak 7 60 state' {0}) ∧
    (∃ state', replayStep tabulatedKeccak 7 (.uniswap 60) 3000 windowAt90 mint240 = .ok state' ∧
      Closed tabulatedKeccak 7 60 state' {0}) ∧
    deriveUniswapV3Swap tabulatedKeccak 7 (.uniswap 60) 3000 swapPastWindow windowAt90 (contextAt 1012) =
      .error (.missingState 7 (bitmapSlot tabulatedKeccak 1)) ∧
    Outside tabulatedKeccak 7 60 windowAt90 {0} 7 (bitmapSlot tabulatedKeccak 1) := by
  obtain ⟨swapped, hswap⟩ := isOk_iff.mp (show (replayStep tabulatedKeccak 7 (.uniswap 60) 3000 windowAt90
    (.swap swapPast180, contextAt 1012)).isOk = true by decide +kernel)
  obtain ⟨minted, hmint⟩ := isOk_iff.mp (show (replayStep tabulatedKeccak 7 (.uniswap 60) 3000 windowAt90
    mint240).isOk = true by decide +kernel)
  have herr : deriveUniswapV3Swap tabulatedKeccak 7 (.uniswap 60) 3000 swapPastWindow windowAt90 (contextAt 1012) =
      .error (.missingState 7 (bitmapSlot tabulatedKeccak 1)) := by decide +kernel
  obtain ⟨hkeeps, hmisses⟩ := closed_window tabulatedKeccak_distinct windowAt90_closed
  exact ⟨⟨swapped, hswap, (hkeeps _ _ _ _ hswap).2⟩, ⟨minted, hmint, (hkeeps _ _ _ _ hmint).2⟩, herr,
    (hmisses _ _ _ _ _ herr).1⟩

/-- A bitmap word held outside the window: the swap names a word of the tick that it sets. -/
theorem strayAt90_misses_tick : Closed tabulatedKeccak 7 60 strayAt90 ∅ ∧
    deriveUniswapV3Swap tabulatedKeccak 7 (.uniswap 60) 3000 swapPast120 strayAt90 (contextAt 1012) =
      .error (.missingState 7 (tickSlot tabulatedKeccak 120 0)) ∧
    (∀ w, tickSlot tabulatedKeccak 120 0 ≠ bitmapSlot tabulatedKeccak w) ∧
    ∀ i < 2 ^ 16, tickSlot tabulatedKeccak 120 0 ≠ observationSlot i := by
  have hin : InRange 120 := ⟨by decide, by decide⟩
  refine ⟨baseAt90_base (fun _ h => h.applyUpdates) (by decide +kernel), by decide +kernel, fun w => ?_, fun i hi => ?_⟩
  · exact tabulatedKeccak_distinct.tick_ne_bitmap hin (by decide)
  · rw [observationSlot_eq]
    exact tabulatedKeccak_distinct.tick_ne_fixed hin (by decide) (by omega)

end AmmState.Canonical
