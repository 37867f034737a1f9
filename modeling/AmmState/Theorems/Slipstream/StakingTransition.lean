import AmmState.Slipstream.StakingTransition
import AmmState.Slipstream.Tabulated
import AmmState.Theorems.V3.SlipstreamPath

/-! What a stake change does to storage: it adds to the lower halves of at most three words. A withdrawal takes back what
    the deposit added. -/

namespace AmmState.Slipstream
open V3 Canonical Checked

/-! ### Adding to the lower half of words -/

/-- Add to the lower half of one word of the pool. -/
def bump (state : StateView) (shift : U256 × BitVec 128) : StateView := fun address slot =>
  if address = POOL ∧ slot = shift.1 then
    (state address slot).map fun word => Packed.set word 0 (Packed.get word 0 128 + shift.2)
  else state address slot

/-- What a list of additions comes to at one slot. -/
def total (shifts : List (U256 × BitVec 128)) (slot : U256) : BitVec 128 :=
  (shifts.map fun shift => if slot = shift.1 then shift.2 else 0).sum

theorem foldl_bump (shifts : List (U256 × BitVec 128)) (state : StateView) (slot : U256) :
    shifts.foldl bump state POOL slot =
      (state POOL slot).map fun word => Packed.set word 0 (Packed.get word 0 128 + total shifts slot) := by
  induction shifts generalizing state with
  | nil =>
    cases h : state POOL slot with
    | none => exact h
    | some word => simp [total, h, Packed.set_get]
  | cons shift shifts ih =>
    rw [List.foldl_cons, ih, bump]
    by_cases hslot : slot = shift.1
    · rw [if_pos ⟨rfl, hslot⟩, Option.map_map]
      congr 1
      funext word
      simp only [Function.comp_apply, total, List.map_cons, List.sum_cons, if_pos hslot]
      rw [Packed.set_set, Packed.get_set_self (by omega), add_assoc]
    · rw [if_neg fun h => hslot h.2]
      congr 1
      funext word
      simp only [total, List.map_cons, List.sum_cons, if_neg hslot, zero_add]

theorem foldl_bump_other (shifts : List (U256 × BitVec 128)) (state : StateView) {address : Address}
    (h : address ≠ POOL) (slot : U256) : shifts.foldl bump state address slot = state address slot := by
  induction shifts generalizing state with
  | nil => rfl
  | cons shift shifts ih => rw [List.foldl_cons, ih, bump, if_neg fun hslot => h hslot.1]

theorem total_of_notMem {shifts : List (U256 × BitVec 128)} {slot : U256} (h : slot ∉ shifts.map Prod.fst) :
    total shifts slot = 0 := by
  induction shifts with
  | nil => rfl
  | cons shift shifts ih =>
    rw [List.map_cons, List.mem_cons, not_or] at h
    have hrest := ih h.2
    simp only [total] at hrest
    simp only [total, List.map_cons, List.sum_cons, if_neg h.1, hrest, add_zero]

theorem total_append (shifts others : List (U256 × BitVec 128)) (slot : U256) :
    total (shifts ++ others) slot = total shifts slot + total others slot := by
  rw [total, List.map_append, List.sum_append]
  rfl

theorem total_ite {c : Prop} [Decidable c] {at_ slot : U256} {shift : BitVec 128} :
    total (if c then [(at_, shift)] else []) slot = if c ∧ slot = at_ then shift else 0 := by
  by_cases hc : c
  · simp [total, hc]
  · simp [total, hc]

/-- The opposite additions. -/
def negated (shifts : List (U256 × BitVec 128)) : List (U256 × BitVec 128) := shifts.map fun shift => (shift.1, -shift.2)

theorem total_negated (shifts : List (U256 × BitVec 128)) (slot : U256) :
    total (negated shifts) slot = -total shifts slot := by
  induction shifts with
  | nil => exact neg_zero.symm
  | cons shift shifts ih =>
    simp only [total, negated, List.map_cons, List.map_map, List.sum_cons] at ih ⊢
    rw [ih, neg_add]
    congr 1
    split
    · rfl
    · exact neg_zero.symm

/-- Adding and taking away leaves every word as it was. -/
theorem foldl_bump_negated (shifts : List (U256 × BitVec 128)) (state : StateView) :
    (negated shifts).foldl bump (shifts.foldl bump state) = state := by
  funext address slot
  by_cases haddress : address = POOL
  · subst haddress
    rw [foldl_bump, foldl_bump, total_negated, Option.map_map]
    cases state POOL slot with
    | none => rfl
    | some word =>
      simp only [Option.map_some, Function.comp_apply]
      rw [Packed.set_set, Packed.get_set_self (by omega), add_neg_cancel_right, Packed.set_get]
  · rw [foldl_bump_other _ _ haddress, foldl_bump_other _ _ haddress]

/-- The update that adds to a word that is held. -/
def Adds (state : StateView) (shift : U256 × BitVec 128) (update : StateUpdate) : Prop :=
  ∃ word, state POOL shift.1 = some word ∧
    update = ⟨POOL, shift.1, Packed.set word 0 (Packed.get word 0 128 + shift.2)⟩

/-- A batch of updates at different slots adds what each one adds. -/
theorem applyUpdates_adds {shifts : List (U256 × BitVec 128)} {updates : List StateUpdate} {state : StateView}
    (h : List.Forall₂ (Adds state) shifts updates) (hnodup : (shifts.map Prod.fst).Nodup) :
    state.applyUpdates updates = shifts.foldl bump state := by
  induction shifts generalizing updates state with
  | nil =>
    cases h
    rfl
  | cons shift shifts ih =>
    obtain ⟨hnot, hnodup⟩ := List.nodup_cons.mp hnodup
    obtain ⟨update, rest, ⟨word, hword, rfl⟩, hrest, rfl⟩ := List.forall₂_cons_left_iff.mp h
    have hstep : StateUpdate.apply ⟨POOL, shift.1, Packed.set word 0 (Packed.get word 0 128 + shift.2)⟩ state =
        bump state shift := by
      funext address slot
      simp only [StateUpdate.apply, bump]
      split_ifs with hcell
      · obtain ⟨rfl, rfl⟩ := hcell
        rw [hword]
        rfl
      · rfl
    have hkept : ∀ other ∈ shifts, bump state shift POOL other.1 = state POOL other.1 := fun other hother =>
      if_neg fun hslot : POOL = POOL ∧ other.1 = shift.1 => hnot (hslot.2 ▸ List.mem_map_of_mem hother)
    show StateView.applyUpdates (StateUpdate.apply _ state) rest = _
    rw [hstep, List.foldl_cons]
    refine ih (List.forall₂_iff_get.mpr ?_) hnodup
    obtain ⟨hlength, hget⟩ := List.forall₂_iff_get.mp hrest
    refine ⟨hlength, fun i hi hi' => ?_⟩
    obtain ⟨word', hword', heq⟩ := hget i hi hi'
    exact ⟨word', (hkept _ (List.getElem_mem hi)).trans hword', heq⟩

/-! ### One accepted change -/

theorem validateReviewedSlipstreamEvent_layout {address : Address} {layout : V3StorageLayout}
    {context : AdapterEventContext} {timestamp : Nat}
    (hok : validateReviewedSlipstreamEvent address layout context = .ok timestamp) : layout = .slipstream 200 := by
  have hspacing := validateReviewedSlipstreamEvent_spacing hok
  obtain ⟨_, -, hok⟩ := bind_eq_ok.mp hok
  obtain ⟨_, hlayout, -⟩ := bind_eq_ok.mp hok
  rw [← hspacing]
  exact ensure_eq_ok.mp hlayout

section
variable {keccak : Keccak} {layout : V3StorageLayout} {state : StateView} {lower upper delta : Int}

/-- A tick whose flag is one. -/
def Initialized (keccak : Keccak) (state : StateView) (tick : Int) : Prop :=
  ∃ word, state POOL (tickSlot keccak tick 5) = some word ∧ field word 248 8 = 1

/-- The pool's tick lies in a range. -/
def InRangeNow (state : StateView) (lower upper : Int) : Prop :=
  ∃ slot0, state POOL SLIPSTREAM_SLOT0_SLOT = some slot0 ∧ lower ≤ signedField slot0 160 24 ∧
    signedField slot0 160 24 < upper

/-- The words that a stake change adds to. -/
noncomputable def shiftsOf (keccak : Keccak) (state : StateView) (lower upper delta : Int) : List (U256 × BitVec 128) :=
  open Classical in
  (if InRangeNow state lower upper then [(SLIPSTREAM_STAKED_LAST_SPACING_SLOT, BitVec.ofInt 128 delta)] else []) ++
    (if Initialized keccak state lower then [(tickSlot keccak lower 1, BitVec.ofInt 128 delta)] else []) ++
    (if Initialized keccak state upper then [(tickSlot keccak upper 1, -BitVec.ofInt 128 delta)] else [])

theorem ofInt_wrapSigned_neg (delta : Int) : BitVec.ofInt 128 (wrapSigned 128 (-delta)) = -BitVec.ofInt 128 delta := by
  rw [wrapSigned, BitVec.ofInt_toInt, BitVec.ofInt_neg]

theorem set_ofInt_add (word : U256) (delta : Int) :
    Packed.set word 0 (BitVec.ofInt 128 (signedField word 0 128 + delta)) =
      Packed.set word 0 (Packed.get word 0 128 + BitVec.ofInt 128 delta) := by
  rw [BitVec.ofInt_add, signedField, BitVec.ofInt_toInt]

/-- What a boundary takes to be accepted, and the word that it adds to. -/
theorem stakeTick_eq_ok {tick : Int} {updates : List StateUpdate} (hlayout : layout = .slipstream 200) :
    stakeTick keccak layout state tick delta = .ok updates ↔
      ∃ flag, state POOL (tickSlot keccak tick 5) = some flag ∧ field flag 248 8 ≤ 1 ∧
        if field flag 248 8 = 1 then
          ∃ word, state POOL (tickSlot keccak tick 1) = some word ∧
            (-2 ^ 127 ≤ signedField word 0 128 + delta ∧ signedField word 0 128 + delta < 2 ^ 127) ∧
            ∃ gross, state POOL (tickSlot keccak tick 0) = some gross ∧
              (signedField word 0 128 + delta).natAbs ≤ field gross 0 128 ∧
              updates = [⟨POOL, tickSlot keccak tick 1,
                Packed.set word 0 (Packed.get word 0 128 + BitVec.ofInt 128 delta)⟩]
        else updates = [] := by
  subst hlayout
  simp only [stakeTick, bind_eq_ok, required, orError_eq_ok, ensure_eq_ok, exists_const, StateView.storage]
  refine exists_congr fun flag => and_congr_right fun _ => and_congr_right fun _ => ?_
  by_cases hflag : field flag 248 8 = 1
  · rw [if_pos hflag, if_pos hflag]
    simp only [bind_eq_ok, orError_eq_ok, ensure_eq_ok, exists_const, pure_eq_ok, set_ofInt_add]
    simp only [eq_comm (b := updates)]
    rfl
  · rw [if_neg hflag, if_neg hflag, pure_eq_ok, eq_comm]

theorem stakeTick_adds {tick : Int} {updates : List StateUpdate} (hlayout : layout = .slipstream 200)
    (hok : stakeTick keccak layout state tick delta = .ok updates) :
    open Classical in
    List.Forall₂ (Adds state)
      (if Initialized keccak state tick then [(tickSlot keccak tick 1, BitVec.ofInt 128 delta)] else []) updates := by
  obtain ⟨flag, hflag, -, hcase⟩ := (stakeTick_eq_ok hlayout).mp hok
  split at hcase
  · rename_i hone
    obtain ⟨word, hword, -, gross, -, -, rfl⟩ := hcase
    rw [if_pos ⟨flag, hflag, hone⟩]
    exact .cons ⟨word, hword, rfl⟩ .nil
  · rename_i hzero
    subst hcase
    rw [if_neg]
    · exact .nil
    · rintro ⟨flag', hflag', hone⟩
      exact hzero (Option.some.inj (hflag.symm.trans hflag') ▸ hone)

theorem ofNat_staked {word : U256} {next : Nat} (h : (next : Int) = field word 0 128 + delta) :
    BitVec.ofNat 128 next = Packed.get word 0 128 + BitVec.ofInt 128 delta := by
  rw [← BitVec.ofInt_natCast, h, BitVec.ofInt_add, BitVec.ofInt_natCast, field, BitVec.ofNat_toNat, BitVec.setWidth_eq]

theorem stakePool_eq_ok {word : U256} {active : Nat} {update : StateUpdate} :
    stakePool word (field word 0 128) active delta = .ok update ↔
      0 ≤ field word 0 128 + delta ∧ field word 0 128 + delta ≤ WORD_128_MASK ∧ field word 0 128 + delta ≤ active ∧
        update = ⟨POOL, SLIPSTREAM_STAKED_LAST_SPACING_SLOT,
          Packed.set word 0 (Packed.get word 0 128 + BitVec.ofInt 128 delta)⟩ := by
  have hresult : ∀ next : Nat, (next : Int) = field word 0 128 + delta →
      ((ensure (next ≤ WORD_128_MASK ∧ next ≤ active) (failure "staking delta exceeds active liquidity") >>= fun _ =>
        pure ⟨POOL, SLIPSTREAM_STAKED_LAST_SPACING_SLOT, Packed.set word 0 (BitVec.ofNat 128 next)⟩) = .ok update ↔
      0 ≤ field word 0 128 + delta ∧ field word 0 128 + delta ≤ WORD_128_MASK ∧ field word 0 128 + delta ≤ active ∧
        update = ⟨POOL, SLIPSTREAM_STAKED_LAST_SPACING_SLOT,
          Packed.set word 0 (Packed.get word 0 128 + BitVec.ofInt 128 delta)⟩) := by
    intro next hnext
    simp only [bind_eq_ok, ensure_eq_ok, exists_const, pure_eq_ok, ofNat_staked hnext, ← hnext, Int.natCast_nonneg,
      true_and, Nat.cast_le, and_assoc]
    exact and_congr_right fun _ => and_congr_right fun _ => eq_comm
  unfold stakePool
  by_cases hpos : 0 < delta
  · simp only [if_pos hpos]
    exact hresult _ (by omega)
  · simp only [if_neg hpos, checkedSub]
    by_cases hle : delta.natAbs ≤ field word 0 128
    · rw [ensure_bind hle]
      exact hresult _ (by omega)
    · rw [ensure, if_neg hle]
      exact ⟨fun h => (by cases h), fun h => absurd h.1 (by omega)⟩

/-- What the pool takes to be accepted. -/
theorem stakeUpdates_eq_ok (hlayout : layout = .slipstream 200) {updates : List StateUpdate} :
    stakeUpdates keccak layout state lower upper delta = .ok updates ↔
      ∃ slot0, state POOL SLIPSTREAM_SLOT0_SLOT = some slot0 ∧
      ∃ word, state POOL SLIPSTREAM_STAKED_LAST_SPACING_SLOT = some word ∧
      ∃ active, state POOL SLIPSTREAM_LIQUIDITY_SLOT = some active ∧ field word 0 128 ≤ field active 0 128 ∧
        (field word 160 24 = 200 ∧ field slot0 232 8 = 1 ∧ MIN_TICK ≤ signedField slot0 160 24 ∧
          signedField slot0 160 24 ≤ MAX_TICK) ∧
      ∃ pool, (if lower ≤ signedField slot0 160 24 ∧ signedField slot0 160 24 < upper
          then ∃ update, stakePool word (field word 0 128) (field active 0 128) delta = .ok update ∧ pool = [update]
          else pool = []) ∧
      ∃ below, stakeTick keccak layout state lower delta = .ok below ∧
      ∃ above, stakeTick keccak layout state upper (wrapSigned 128 (-delta)) = .ok above ∧
        pool ++ below ++ above = updates := by
  have hslots : layout.slot0Slot = SLIPSTREAM_SLOT0_SLOT ∧ layout.liquiditySlot = SLIPSTREAM_LIQUIDITY_SLOT := by
    subst hlayout
    exact ⟨rfl, rfl⟩
  have hpool : ∀ (c : Prop) [Decidable c] (x : Result StateUpdate) (pool : List StateUpdate),
      ((if c then (fun update => [update]) <$> x else pure []) = .ok pool ↔
        if c then ∃ update, x = .ok update ∧ pool = [update] else pool = []) := by
    intro c _ x pool
    split
    · cases x with
      | error error => exact ⟨nofun, fun ⟨_, h, _⟩ => nomatch h⟩
      | ok update =>
        exact ⟨fun h => ⟨update, rfl, (Except.ok.inj h).symm⟩, fun ⟨_, h, hpool⟩ => by
          rw [hpool, ← Except.ok.inj h]
          rfl⟩
    · rw [pure_eq_ok, eq_comm]
  rw [stakeUpdates, hslots.1, hslots.2]
  simp only [bind_eq_ok, required, orError_eq_ok, ensure_eq_ok, exists_const, StateView.storage, pure_eq_ok, hpool]

/-- An accepted change adds to the words of its range, within the active liquidity. -/
theorem stakeUpdates_adds (hlayout : layout = .slipstream 200) {updates : List StateUpdate}
    (hok : stakeUpdates keccak layout state lower upper delta = .ok updates) :
    List.Forall₂ (Adds state) (shiftsOf keccak state lower upper delta) updates ∧
      (InRangeNow state lower upper → ∃ word active, state POOL SLIPSTREAM_STAKED_LAST_SPACING_SLOT = some word ∧
        state POOL SLIPSTREAM_LIQUIDITY_SLOT = some active ∧ 0 ≤ field word 0 128 + delta ∧
        field word 0 128 + delta ≤ field active 0 128) := by
  obtain ⟨slot0, hslot0, word, hword, active, hactive, -, -, pool, hpool, below, hbelow, above, habove, rfl⟩ :=
    (stakeUpdates_eq_ok hlayout).mp hok
  have hbelow := stakeTick_adds hlayout hbelow
  have habove := stakeTick_adds hlayout habove
  rw [ofInt_wrapSigned_neg] at habove
  have hnow : InRangeNow state lower upper ↔ lower ≤ signedField slot0 160 24 ∧ signedField slot0 160 24 < upper := by
    refine ⟨?_, fun h => ⟨slot0, hslot0, h⟩⟩
    rintro ⟨slot0', hslot0', h⟩
    exact Option.some.inj (hslot0.symm.trans hslot0') ▸ h
  unfold shiftsOf
  by_cases hrange : InRangeNow state lower upper
  · rw [if_pos (hnow.mp hrange)] at hpool
    obtain ⟨update, hupdate, rfl⟩ := hpool
    obtain ⟨hpos, -, hle, rfl⟩ := stakePool_eq_ok.mp hupdate
    rw [if_pos hrange]
    exact ⟨List.rel_append (List.rel_append (.cons ⟨word, hword, rfl⟩ .nil) hbelow) habove,
      fun _ => ⟨word, active, hword, hactive, hpos, hle⟩⟩
  · rw [if_neg fun h => hrange (hnow.mpr h)] at hpool
    subst hpool
    rw [if_neg hrange]
    exact ⟨List.rel_append (List.rel_append .nil hbelow) habove, fun h => absurd h hrange⟩

/-- The slots that a stake change may write. -/
def stakedSlots (keccak : Keccak) (lower upper : Int) : List U256 :=
  [SLIPSTREAM_STAKED_LAST_SPACING_SLOT, tickSlot keccak lower 1, tickSlot keccak upper 1]

theorem shiftsOf_sublist :
    ((shiftsOf keccak state lower upper delta).map Prod.fst).Sublist (stakedSlots keccak lower upper) := by
  have hone : ∀ (c : Prop) [Decidable c] (slot : U256) (shift : BitVec 128),
      ((if c then [(slot, shift)] else []).map Prod.fst).Sublist [slot] := by
    intro c _ slot shift
    split
    · exact .refl _
    · exact List.nil_sublist _
  classical
  unfold shiftsOf
  rw [List.map_append, List.map_append]
  exact ((hone _ _ _).append (hone _ _ _)).append (hone _ _ _)

theorem bump_of_notMem {shifts : List (U256 × BitVec 128)} {slot : U256} (h : slot ∉ shifts.map Prod.fst) :
    shifts.foldl bump state POOL slot = state POOL slot := by
  rw [foldl_bump, total_of_notMem h]
  cases state POOL slot with
  | none => rfl
  | some word => simp [Packed.set_get]

theorem foldl_bump_of_notMem {address : Address} {slot : U256}
    (h : ¬ (address = POOL ∧ slot ∈ stakedSlots keccak lower upper)) :
    (shiftsOf keccak state lower upper delta).foldl bump state address slot = state address slot := by
  by_cases haddress : address = POOL
  · subst haddress
    exact bump_of_notMem fun hmem => h ⟨rfl, shiftsOf_sublist.subset hmem⟩
  · exact foldl_bump_other _ _ haddress _

/-- In a state of the same tick and flags, the opposite change adds to the same words. -/
theorem shiftsOf_neg {after : StateView} (hslot0 : after POOL SLIPSTREAM_SLOT0_SLOT = state POOL SLIPSTREAM_SLOT0_SLOT)
    (hbelow : after POOL (tickSlot keccak lower 5) = state POOL (tickSlot keccak lower 5))
    (habove : after POOL (tickSlot keccak upper 5) = state POOL (tickSlot keccak upper 5)) :
    shiftsOf keccak after lower upper (-delta) = negated (shiftsOf keccak state lower upper delta) := by
  classical
  have hone : ∀ (c : Prop) [Decidable c] (slot : U256) (shift : BitVec 128),
      negated (if c then [(slot, shift)] else []) = if c then [(slot, -shift)] else [] := by
    intro c _ slot shift
    split
    · rfl
    · rfl
  have hnow : InRangeNow after lower upper ↔ InRangeNow state lower upper := by rw [InRangeNow, InRangeNow, hslot0]
  have hl : Initialized keccak after lower ↔ Initialized keccak state lower := by rw [Initialized, Initialized, hbelow]
  have hu : Initialized keccak after upper ↔ Initialized keccak state upper := by rw [Initialized, Initialized, habove]
  unfold shiftsOf
  rw [negated, List.map_append, List.map_append, ← negated, ← negated, ← negated, hone, hone, hone, BitVec.ofInt_neg]
  simp only [hnow, hl, hu]

/-! ### The accepted evidence -/

/-- Evidence that is bound to the log of a context, of a pool with the reviewed layout. -/
def Bound (pool : PoolRegistration) (context : AdapterEventContext) (evidence : SlipstreamStakingEvidence) : Prop :=
  EventKey.context context = some evidence.key ∧ layoutFor pool = some (.slipstream 200) ∧
    ∃ timestamp, validateReviewedSlipstreamEvent POOL (.slipstream 200) context = .ok timestamp

/-- An ordered range of ticks on the spacing. -/
structure StakeRange (lower upper : Int) : Prop where
  lower_ge : MIN_TICK ≤ lower
  upper_le : upper ≤ MAX_TICK
  lt : lower < upper
  lower_mod : lower % 200 = 0
  upper_mod : upper % 200 = 0

theorem derive_eq_ok {pool : PoolRegistration} {context : AdapterEventContext} {evidence : SlipstreamStakingEvidence}
    {updates : List StateUpdate} :
    derive keccak pool state context evidence = .ok updates ↔
      Bound pool context evidence ∧ StakeRange evidence.lower evidence.upper ∧
        if evidence.delta = 0 then updates = []
        else stakeUpdates keccak (.slipstream 200) state evidence.lower evidence.upper evidence.delta = .ok updates := by
  have hrange : ∀ lower upper : Int, checkStakeRange (.slipstream 200) lower upper = .ok () ↔ StakeRange lower upper :=
    fun lower upper => ensure_eq_ok.trans
      ⟨fun ⟨h₁, h₂, h₃, h₄, h₅⟩ => ⟨h₁, h₂, h₃, h₄, h₅⟩, fun ⟨h₁, h₂, h₃, h₄, h₅⟩ => ⟨h₁, h₂, h₃, h₄, h₅⟩⟩
  constructor
  · intro hok
    obtain ⟨_, hkey, hok⟩ := bind_eq_ok.mp hok
    obtain ⟨layout, hlayout, hok⟩ := bind_eq_ok.mp hok
    obtain ⟨timestamp, hreviewed, hok⟩ := bind_eq_ok.mp hok
    obtain ⟨_, hstake, hok⟩ := bind_eq_ok.mp hok
    obtain rfl : layout = .slipstream 200 := validateReviewedSlipstreamEvent_layout hreviewed
    refine ⟨⟨ensure_eq_ok.mp hkey, orError_eq_ok.mp hlayout, timestamp, hreviewed⟩, (hrange _ _).mp hstake, ?_⟩
    split_ifs at hok ⊢ with hzero
    · exact (pure_eq_ok.mp hok).symm
    · exact hok
  · rintro ⟨⟨hkey, hlayout, timestamp, hreviewed⟩, hstake, hcase⟩
    refine bind_eq_ok.mpr ⟨(), ensure_eq_ok.mpr hkey, bind_eq_ok.mpr ⟨_, orError_eq_ok.mpr hlayout,
      bind_eq_ok.mpr ⟨timestamp, hreviewed, bind_eq_ok.mpr ⟨(), (hrange _ _).mpr hstake, ?_⟩⟩⟩⟩
    split_ifs at hcase ⊢ with hzero
    · rw [hcase]
      rfl
    · exact hcase

/-! ### What changes -/

/-- Staked liquidity is within active liquidity. Both fields are unsigned. -/
def StakedBounded (state : StateView) : Prop :=
  ∀ word active, state POOL SLIPSTREAM_STAKED_LAST_SPACING_SLOT = some word →
    state POOL SLIPSTREAM_LIQUIDITY_SLOT = some active → field word 0 128 ≤ field active 0 128

/-- The staked net of a tick is within its gross liquidity. -/
def NetBounded (keccak : Keccak) (state : StateView) (tick : Int) : Prop :=
  ∀ word gross, state POOL (tickSlot keccak tick 1) = some word → state POOL (tickSlot keccak tick 0) = some gross →
    (signedField word 0 128).natAbs ≤ field gross 0 128

/-- Nothing differs but staked liquidity and the staked nets of a range, and staked liquidity only where the range is
    active. -/
structure OnlyStaked (keccak : Keccak) (lower upper : Int) (before after : StateView) : Prop where
  elsewhere : ∀ address slot, ¬ (address = POOL ∧ slot ∈ stakedSlots keccak lower upper) →
    after address slot = before address slot
  upperHalf : ∀ slot, (after POOL slot).map (fun word => Packed.get word 128 128) =
    (before POOL slot).map fun word => Packed.get word 128 128
  pool : ¬ InRangeNow before lower upper →
    after POOL SLIPSTREAM_STAKED_LAST_SPACING_SLOT = before POOL SLIPSTREAM_STAKED_LAST_SPACING_SLOT

/-! ### The change back -/

theorem signedField_add {word : U256} (hlo : -2 ^ 127 ≤ signedField word 0 128 + delta)
    (hhi : signedField word 0 128 + delta < 2 ^ 127) :
    signedField (Packed.set word 0 (Packed.get word 0 128 + BitVec.ofInt 128 delta)) 0 128 =
      signedField word 0 128 + delta := by
  rw [← set_ofInt_add, signedField, Packed.get_set_self (by omega)]
  exact BitVec.toInt_ofInt_eq_self (by omega) hlo hhi

/-- A boundary that took a change takes the opposite one. -/
theorem stakeTick_back {tick : Int} {updates : List StateUpdate} {after : StateView}
    (hflag : after POOL (tickSlot keccak tick 5) = state POOL (tickSlot keccak tick 5))
    (hgross : after POOL (tickSlot keccak tick 0) = state POOL (tickSlot keccak tick 0))
    (hword : Initialized keccak state tick → after POOL (tickSlot keccak tick 1) =
      (state POOL (tickSlot keccak tick 1)).map fun word =>
        Packed.set word 0 (Packed.get word 0 128 + BitVec.ofInt 128 delta))
    (hnet : NetBounded keccak state tick)
    (hok : stakeTick keccak (.slipstream 200) state tick delta = .ok updates) :
    ∃ updates', stakeTick keccak (.slipstream 200) after tick (-delta) = .ok updates' := by
  obtain ⟨flag, hf, hle, hcase⟩ := (stakeTick_eq_ok rfl).mp hok
  by_cases hone : field flag 248 8 = 1
  · rw [if_pos hone] at hcase
    obtain ⟨word, hw, ⟨hlo, hhi⟩, gross, hg, -, -⟩ := hcase
    have hafter := hword ⟨flag, hf, hone⟩
    rw [hw, Option.map_some] at hafter
    have hback := signedField_add hlo hhi
    have hsame : signedField word 0 128 + delta + -delta = signedField word 0 128 := by omega
    have hrange : -2 ^ 127 ≤ signedField word 0 128 ∧ signedField word 0 128 < 2 ^ 127 :=
      ⟨BitVec.le_toInt _, BitVec.toInt_lt⟩
    have hback_range := hrange
    have hback_net := hnet word gross hw hg
    rw [← hsame, ← hback] at hback_range hback_net
    exact ⟨[⟨POOL, tickSlot keccak tick 1, _⟩], (stakeTick_eq_ok rfl).mpr ⟨flag, hflag.trans hf, hle, by
      rw [if_pos hone]
      exact ⟨_, hafter, hback_range, gross, hgross.trans hg, hback_net, rfl⟩⟩⟩
  · refine ⟨[], (stakeTick_eq_ok rfl).mpr ⟨flag, hflag.trans hf, hle, ?_⟩⟩
    rw [if_neg hone]

/-! ### Distinct words -/

variable (hk : DistinctKeys keccak) (hlower : InRange lower) (hupper : InRange upper)
include hk hlower hupper

theorem stakedSlots_nodup (hlt : lower < upper) : (stakedSlots keccak lower upper).Nodup := by
  have hl : SLIPSTREAM_STAKED_LAST_SPACING_SLOT ≠ tickSlot keccak lower 1 :=
    (hk.tick_ne_fixed (n := 15) hlower (by decide) (by decide)).symm
  have hu : SLIPSTREAM_STAKED_LAST_SPACING_SLOT ≠ tickSlot keccak upper 1 :=
    (hk.tick_ne_fixed (n := 15) hupper (by decide) (by decide)).symm
  have hlu : tickSlot keccak lower 1 ≠ tickSlot keccak upper 1 := fun h =>
    hlt.ne (hk.tick_inj hlower hupper (by decide) (by decide) h).1
  simp [stakedSlots, hl, hu, hlu]

/-- The words that decide a stake change are not among those that it writes. -/
theorem tickSlot_notMem_stakedSlots {tick : Int} (htick : InRange tick) {i : Nat} (hi : i < 6) (hne : i ≠ 1) :
    tickSlot keccak tick i ∉ stakedSlots keccak lower upper := by
  have hfixed : tickSlot keccak tick i ≠ SLIPSTREAM_STAKED_LAST_SPACING_SLOT :=
    hk.tick_ne_fixed (n := 15) htick hi (by decide)
  have hl : tickSlot keccak tick i ≠ tickSlot keccak lower 1 := fun h => hne (hk.tick_inj htick hlower hi (by decide) h).2
  have hu : tickSlot keccak tick i ≠ tickSlot keccak upper 1 := fun h => hne (hk.tick_inj htick hupper hi (by decide) h).2
  simp [stakedSlots, hfixed, hl, hu]

theorem fixed_notMem_stakedSlots {n : Nat} (hn : n < 15 ∨ n = 16) :
    BitVec.ofNat 256 n ∉ stakedSlots keccak lower upper := by
  have hfixed : BitVec.ofNat 256 n ≠ SLIPSTREAM_STAKED_LAST_SPACING_SLOT := by
    intro h
    have := congrArg BitVec.toNat h
    simp [SLIPSTREAM_STAKED_LAST_SPACING_SLOT] at this
    omega
  have hl : BitVec.ofNat 256 n ≠ tickSlot keccak lower 1 := (hk.tick_ne_fixed hlower (by decide) (by omega)).symm
  have hu : BitVec.ofNat 256 n ≠ tickSlot keccak upper 1 := (hk.tick_ne_fixed hupper (by decide) (by omega)).symm
  simp [stakedSlots, hfixed, hl, hu]

/-- What a stake change adds to each of its words. -/
theorem total_shiftsOf (hlt : lower < upper) :
    open Classical in
    total (shiftsOf keccak state lower upper delta) SLIPSTREAM_STAKED_LAST_SPACING_SLOT =
        (if InRangeNow state lower upper then BitVec.ofInt 128 delta else 0) ∧
      total (shiftsOf keccak state lower upper delta) (tickSlot keccak lower 1) =
        (if Initialized keccak state lower then BitVec.ofInt 128 delta else 0) ∧
      total (shiftsOf keccak state lower upper delta) (tickSlot keccak upper 1) =
        (if Initialized keccak state upper then -BitVec.ofInt 128 delta else 0) := by
  classical
  have hnodup := stakedSlots_nodup hk hlower hupper hlt
  simp only [stakedSlots, List.nodup_cons, List.mem_cons, List.not_mem_nil, or_false, not_or] at hnodup
  obtain ⟨⟨hl, hu⟩, hlu, -⟩ := hnodup
  simp only [shiftsOf, total_append, total_ite, hl, hu, hlu, Ne.symm hl, Ne.symm hu, Ne.symm hlu, and_true, and_false,
    if_false, add_zero, zero_add, and_self]

theorem onlyStaked_shifts (hlt : lower < upper) :
    OnlyStaked keccak lower upper state ((shiftsOf keccak state lower upper delta).foldl bump state) where
  elsewhere _ _ h := foldl_bump_of_notMem h
  upperHalf slot := by
    rw [foldl_bump]
    cases state POOL slot with
    | none => rfl
    | some word => exact congrArg some (Packed.get_set_of_disjoint (.inl (le_refl _)))
  pool hout := by
    rw [foldl_bump, (total_shiftsOf hk hlower hupper hlt).1, if_neg hout]
    simp only [add_zero, Packed.set_get, Option.map_id']

theorem stakedBounded_shifts (hlt : lower < upper) (hbounded : StakedBounded state)
    (hpool : InRangeNow state lower upper → ∃ word active, state POOL SLIPSTREAM_STAKED_LAST_SPACING_SLOT = some word ∧
      state POOL SLIPSTREAM_LIQUIDITY_SLOT = some active ∧ 0 ≤ field word 0 128 + delta ∧
      field word 0 128 + delta ≤ field active 0 128) :
    StakedBounded ((shiftsOf keccak state lower upper delta).foldl bump state) := by
  intro word active hword hactive
  replace hactive := (foldl_bump_of_notMem fun h =>
    fixed_notMem_stakedSlots hk hlower hupper (n := 16) (.inr rfl) h.2).symm.trans hactive
  by_cases hrange : InRangeNow state lower upper
  · obtain ⟨word', active', hword', hactive', hpos, hle⟩ := hpool hrange
    obtain rfl := Option.some.inj (hactive.symm.trans hactive')
    rw [foldl_bump, (total_shiftsOf hk hlower hupper hlt).1, if_pos hrange, hword', Option.map_some] at hword
    obtain rfl := Option.some.inj hword
    obtain ⟨next, hnext⟩ := Int.eq_ofNat_of_zero_le hpos
    have hnext_lt : next < 2 ^ 128 := by
      have : field active 0 128 < 2 ^ 128 := (Packed.get active 0 128).isLt
      omega
    rw [field, Packed.get_set_self (by omega), ← ofNat_staked hnext.symm, BitVec.toNat_ofNat, Nat.mod_eq_of_lt hnext_lt]
    omega
  · rw [(onlyStaked_shifts hk hlower hupper hlt).pool hrange] at hword
    exact hbounded word active hword hactive

/-- A withdrawal of what was deposited is accepted at once. -/
theorem stakeUpdates_back {updates : List StateUpdate} (hlt : lower < upper)
    (hpos : 0 < delta) (hi128 : delta < 2 ^ 127) (hbelow : NetBounded keccak state lower)
    (habove : NetBounded keccak state upper)
    (hok : stakeUpdates keccak (.slipstream 200) state lower upper delta = .ok updates) :
    ∃ updates', stakeUpdates keccak (.slipstream 200)
      ((shiftsOf keccak state lower upper delta).foldl bump state) lower upper (-delta) = .ok updates' := by
  obtain ⟨slot0, hslot0, word, hword, active, hactive, hle, hgeometry, pool, hpool, below, hlow, above, hupp, -⟩ :=
    (stakeUpdates_eq_ok rfl).mp hok
  have hneg : wrapSigned 128 (-delta) = -delta := BitVec.toInt_ofInt_eq_self (by omega) (by omega) (by omega)
  have hneg' : wrapSigned 128 (- -delta) = - -delta := BitVec.toInt_ofInt_eq_self (by omega) (by omega) (by omega)
  rw [hneg] at hupp
  have hkept : ∀ {tick : Int} {i : Nat}, InRange tick → i < 6 → i ≠ 1 →
      (shiftsOf keccak state lower upper delta).foldl bump state POOL (tickSlot keccak tick i) =
        state POOL (tickSlot keccak tick i) := fun htick hi hne =>
    foldl_bump_of_notMem fun h => tickSlot_notMem_stakedSlots hk hlower hupper htick hi hne h.2
  have hslot0' : (shiftsOf keccak state lower upper delta).foldl bump state POOL SLIPSTREAM_SLOT0_SLOT = some slot0 :=
    (foldl_bump_of_notMem fun h => fixed_notMem_stakedSlots hk hlower hupper (n := 6) (.inl (by omega)) h.2).trans hslot0
  have hactive' : (shiftsOf keccak state lower upper delta).foldl bump state POOL SLIPSTREAM_LIQUIDITY_SLOT = some active :=
    (foldl_bump_of_notMem fun h => fixed_notMem_stakedSlots hk hlower hupper (n := 16) (.inr rfl) h.2).trans hactive
  obtain ⟨below', hlow'⟩ := stakeTick_back (hkept hlower (by omega) (by omega)) (hkept hlower (by omega) (by omega))
    (fun hinit => by rw [foldl_bump, (total_shiftsOf hk hlower hupper hlt).2.1, if_pos hinit]) hbelow hlow
  obtain ⟨above', hupp'⟩ := stakeTick_back (hkept hupper (by omega) (by omega)) (hkept hupper (by omega) (by omega))
    (fun hinit => by rw [foldl_bump, (total_shiftsOf hk hlower hupper hlt).2.2, if_pos hinit, BitVec.ofInt_neg]) habove hupp
  have hafter := foldl_bump (shiftsOf keccak state lower upper delta) state SLIPSTREAM_STAKED_LAST_SPACING_SLOT
  rw [hword, (total_shiftsOf hk hlower hupper hlt).1, Option.map_some] at hafter
  have hspacing : ∀ value : BitVec 128, field (Packed.set word 0 value) 160 24 = field word 160 24 := fun value => by
    rw [field, Packed.get_set_of_disjoint (.inl (by omega)), field]
  by_cases hrange : InRangeNow state lower upper
  · have hrange' : lower ≤ signedField slot0 160 24 ∧ signedField slot0 160 24 < upper := by
      obtain ⟨slot0', hs, h⟩ := hrange
      exact Option.some.inj (hslot0.symm.trans hs) ▸ h
    rw [if_pos hrange'] at hpool
    obtain ⟨update, hupdate, -⟩ := hpool
    obtain ⟨hsum_nonneg, -, hsum_active, -⟩ := stakePool_eq_ok.mp hupdate
    rw [if_pos hrange] at hafter
    obtain ⟨next, hnext⟩ := Int.eq_ofNat_of_zero_le hsum_nonneg
    have hstaked : field (Packed.set word 0 (Packed.get word 0 128 + BitVec.ofInt 128 delta)) 0 128 = next := by
      rw [field, Packed.get_set_self (by omega), ← ofNat_staked hnext.symm, BitVec.toNat_ofNat, Nat.mod_eq_of_lt]
      have : field active 0 128 < 2 ^ 128 := (Packed.get active 0 128).isLt
      omega
    rw [← hstaked] at hnext
    have hback : (field (Packed.set word 0 (Packed.get word 0 128 + BitVec.ofInt 128 delta)) 0 128 : Int) + -delta =
        field word 0 128 := by
      rw [← hnext, add_neg_cancel_right]
    have hmask : field word 0 128 ≤ WORD_128_MASK := Nat.le_sub_one_of_lt (Packed.get word 0 128).isLt
    have hback_pool := stakePool_eq_ok.mpr ⟨hback ▸ Int.natCast_nonneg _, hback ▸ Int.ofNat_le.mpr hmask,
      hback ▸ Int.ofNat_le.mpr hle, rfl⟩
    exact ⟨_, (stakeUpdates_eq_ok rfl).mpr ⟨slot0, hslot0', _, hafter, active, hactive', by omega,
      ⟨(hspacing _).trans hgeometry.1, hgeometry.2⟩, [_], by
        rw [if_pos hrange']
        exact ⟨_, hback_pool, rfl⟩,
      below', hlow', above', by rwa [hneg'], rfl⟩⟩
  · have hrange' : ¬ (lower ≤ signedField slot0 160 24 ∧ signedField slot0 160 24 < upper) := fun h =>
      hrange ⟨slot0, hslot0, h⟩
    rw [if_neg hrange, add_zero, Packed.set_get] at hafter
    exact ⟨_, (stakeUpdates_eq_ok rfl).mpr ⟨slot0, hslot0', word, hafter, active, hactive', hle, hgeometry, [],
      by rw [if_neg hrange'], below', hlow', above', by rwa [hneg'], rfl⟩⟩

end

/-! ### The evidence -/

theorem applyUpdates_of_stakeUpdates {keccak : Keccak} {state : StateView} {lower upper delta : Int}
    {updates : List StateUpdate} (hk : DistinctKeys keccak) (hrange : StakeRange lower upper)
    (hok : stakeUpdates keccak (.slipstream 200) state lower upper delta = .ok updates) :
    state.applyUpdates updates = (shiftsOf keccak state lower upper delta).foldl bump state := by
  have hlower : InRange lower := ⟨hrange.lower_ge, hrange.lt.le.trans hrange.upper_le⟩
  have hupper : InRange upper := ⟨hrange.lower_ge.trans hrange.lt.le, hrange.upper_le⟩
  exact applyUpdates_adds (stakeUpdates_adds rfl hok).1
    (shiftsOf_sublist.nodup (stakedSlots_nodup hk hlower hupper hrange.lt))

/-- An accepted stake change touches staked liquidity alone and keeps it within active liquidity. A withdrawal of what was
    just deposited restores every word, and is accepted where the staked nets were within gross liquidity. -/
theorem derive_stakes {keccak : Keccak} {state : StateView} {pool : PoolRegistration} {context : AdapterEventContext}
    {evidence : SlipstreamStakingEvidence} {updates : List StateUpdate} (hk : DistinctKeys keccak)
    (hi128 : -2 ^ 127 ≤ evidence.delta ∧ evidence.delta < 2 ^ 127) (hbounded : StakedBounded state)
    (hok : derive keccak pool state context evidence = .ok updates) :
    OnlyStaked keccak evidence.lower evidence.upper state (state.applyUpdates updates) ∧
      StakedBounded (state.applyUpdates updates) ∧
      (0 < evidence.delta → ∀ (later : AdapterEventContext) (withdrawal : SlipstreamStakingEvidence),
        withdrawal.lower = evidence.lower → withdrawal.upper = evidence.upper → withdrawal.delta = -evidence.delta →
        (∀ updates', derive keccak pool (state.applyUpdates updates) later withdrawal = .ok updates' →
          (state.applyUpdates updates).applyUpdates updates' = state) ∧
        (Bound pool later withdrawal → NetBounded keccak state evidence.lower → NetBounded keccak state evidence.upper →
          ∃ updates', derive keccak pool (state.applyUpdates updates) later withdrawal = .ok updates')) := by
  obtain ⟨-, hrange, hcase⟩ := derive_eq_ok.mp hok
  by_cases hzero : evidence.delta = 0
  · rw [if_pos hzero] at hcase
    subst hcase
    exact ⟨⟨fun _ _ _ => rfl, fun _ => rfl, fun _ => rfl⟩, hbounded, fun hpos => absurd hzero hpos.ne'⟩
  · rw [if_neg hzero] at hcase
    have hlower : InRange evidence.lower := ⟨hrange.lower_ge, hrange.lt.le.trans hrange.upper_le⟩
    have hupper : InRange evidence.upper := ⟨hrange.lower_ge.trans hrange.lt.le, hrange.upper_le⟩
    have honly : OnlyStaked keccak evidence.lower evidence.upper state
        ((shiftsOf keccak state evidence.lower evidence.upper evidence.delta).foldl bump state) :=
      onlyStaked_shifts hk hlower hupper hrange.lt
    have hfixed : ∀ {n : Nat}, n < 15 ∨ n = 16 →
        ¬ (POOL = POOL ∧ BitVec.ofNat 256 n ∈ stakedSlots keccak evidence.lower evidence.upper) := fun hn h =>
      fixed_notMem_stakedSlots hk hlower hupper hn h.2
    have hflag : ∀ {tick : Int}, InRange tick →
        ¬ (POOL = POOL ∧ tickSlot keccak tick 5 ∈ stakedSlots keccak evidence.lower evidence.upper) := fun htick h =>
      tickSlot_notMem_stakedSlots hk hlower hupper htick (by omega) (by omega) h.2
    rw [applyUpdates_of_stakeUpdates hk hrange hcase]
    refine ⟨honly, stakedBounded_shifts hk hlower hupper hrange.lt hbounded (stakeUpdates_adds rfl hcase).2,
      fun hpos later withdrawal hl hu hdelta => ⟨fun updates' hback => ?_, fun hbound hbelow habove => ?_⟩⟩
    · obtain ⟨-, -, hback⟩ := derive_eq_ok.mp hback
      rw [hl, hu, hdelta, if_neg (by omega)] at hback
      rw [applyUpdates_of_stakeUpdates hk hrange hback,
        shiftsOf_neg (honly.elsewhere _ _ (hfixed (n := 6) (.inl (by omega)))) (honly.elsewhere _ _ (hflag hlower))
          (honly.elsewhere _ _ (hflag hupper)), foldl_bump_negated]
    · obtain ⟨updates', hback⟩ := stakeUpdates_back hk hlower hupper hrange.lt hpos hi128.2 hbelow habove hcase
      refine ⟨updates', derive_eq_ok.mpr ⟨hbound, ?_, ?_⟩⟩
      · rwa [hl, hu]
      · rwa [hl, hu, hdelta, if_neg (by omega)]

/-- A registration of the reviewed pool with its preset layout. -/
def reviewedPool : PoolRegistration :=
  ⟨.slipstream POOL, [POOL], [], .slipstream ⟨none, none, none, some 200, none, none, none, none, []⟩, .ready⟩

/-- Active liquidity 1000 and staked liquidity 500 at tick 0, all of it between the ticks -200 and 200. -/
def stakedView : StateView := fun address slot =>
  let slots : List (U256 × U256) :=
    [(6, 1 <<< 232), (15, 200 <<< 160 ||| 500), (16, 1000),
      (tickSlot tabulatedKeccak (-200) 0, 1000 <<< 128 ||| 1000), (tickSlot tabulatedKeccak (-200) 1, 500),
      (tickSlot tabulatedKeccak (-200) 5, 1 <<< 248),
      (tickSlot tabulatedKeccak 200 0, (-1000) <<< 128 ||| 1000), (tickSlot tabulatedKeccak 200 1, (2 ^ 128 - 500)),
      (tickSlot tabulatedKeccak 200 5, 1 <<< 248)]
  if address = POOL then slots.lookup slot else none

def stakingContext (log : Nat) : AdapterEventContext :=
  ⟨some 10, some 1, some 1, some 0, some 1000, some 0, some 0, some log, none⟩

def stakingEvidence (log : Nat) (delta : Int) : SlipstreamStakingEvidence :=
  ⟨⟨⟨10, 1, 1, 0, 1000, 0, 0⟩, log⟩, 0, -200, 200, delta⟩

def deposited : List StateUpdate :=
  [⟨POOL, 15, 200 <<< 160 ||| 600⟩, ⟨POOL, tickSlot tabulatedKeccak (-200) 1, 600⟩,
    ⟨POOL, tickSlot tabulatedKeccak 200 1, 2 ^ 128 - 600⟩]

theorem derive_deposited :
    derive tabulatedKeccak reviewedPool stakedView (stakingContext 7) (stakingEvidence 7 100) = .ok deposited := by
  decide +kernel

theorem stakedView_bounded : StakedBounded stakedView := by
  intro word active hword hactive
  have h15 : stakedView POOL SLIPSTREAM_STAKED_LAST_SPACING_SLOT = some (200 <<< 160 ||| 500) := by decide +kernel
  have h16 : stakedView POOL SLIPSTREAM_LIQUIDITY_SLOT = some 1000 := by decide +kernel
  obtain rfl := Option.some.inj (h15.symm.trans hword)
  obtain rfl := Option.some.inj (h16.symm.trans hactive)
  decide +kernel

theorem stakedView_netBounded {tick : Int} (htick : tick = -200 ∨ tick = 200) :
    NetBounded tabulatedKeccak stakedView tick := by
  intro word gross hword hgross
  rcases htick with rfl | rfl
  · have h1 : stakedView POOL (tickSlot tabulatedKeccak (-200) 1) = some 500 := by decide +kernel
    have h0 : stakedView POOL (tickSlot tabulatedKeccak (-200) 0) = some (1000 <<< 128 ||| 1000) := by decide +kernel
    obtain rfl := Option.some.inj (h1.symm.trans hword)
    obtain rfl := Option.some.inj (h0.symm.trans hgross)
    decide +kernel
  · have h1 : stakedView POOL (tickSlot tabulatedKeccak 200 1) = some (2 ^ 128 - 500) := by decide +kernel
    have h0 : stakedView POOL (tickSlot tabulatedKeccak 200 0) = some ((-1000 : U256) <<< 128 ||| 1000) := by decide +kernel
    obtain rfl := Option.some.inj (h1.symm.trans hword)
    obtain rfl := Option.some.inj (h0.symm.trans hgross)
    decide +kernel

/-- A deposit of 100 at tick 0 and its withdrawal. -/
theorem derive_stakes_deposited :
    OnlyStaked tabulatedKeccak (-200) 200 stakedView (stakedView.applyUpdates deposited) ∧
      StakedBounded (stakedView.applyUpdates deposited) ∧
      ∃ withdrawn, derive tabulatedKeccak reviewedPool (stakedView.applyUpdates deposited) (stakingContext 8)
        (stakingEvidence 8 (-100)) = .ok withdrawn ∧
        (stakedView.applyUpdates deposited).applyUpdates withdrawn = stakedView := by
  obtain ⟨honly, hbounded, hback⟩ := derive_stakes tabulatedKeccak_distinct (by decide) stakedView_bounded derive_deposited
  obtain ⟨hrestored, haccepted⟩ := hback (by decide) (stakingContext 8) (stakingEvidence 8 (-100)) rfl rfl rfl
  obtain ⟨withdrawn, hwithdrawn⟩ := haccepted ⟨by decide, by decide, 1000, by decide⟩ (stakedView_netBounded (.inl rfl))
    (stakedView_netBounded (.inr rfl))
  exact ⟨honly, hbounded, withdrawn, hwithdrawn, hrestored withdrawn hwithdrawn⟩

end AmmState.Slipstream
