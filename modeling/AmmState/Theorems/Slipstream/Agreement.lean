import AmmState.Theorems.Slipstream.Accounting

/-! The replay of a Slipstream swap with fee evidence and the one without it agree: on the fee, and on every cell that is
    not of the fee, reward and outside-growth accounting. The word of the staked liquidity agrees but for the time of the
    last reward update. -/

namespace AmmState.V3
open Checked

/-! ### Cells after a batch -/

/-- What a batch leaves in a cell, if it writes there. -/
def lastWrite (address : Address) (slot : U256) : List StateUpdate → Option U256
  | [] => none
  | u :: us => (lastWrite address slot us).or (if address = u.address ∧ slot = u.slot then some u.value else none)

section Writes
variable {address : Address} {slot : U256}

theorem storage_applyUpdates (us : List StateUpdate) (state : StateView) :
    (state.applyUpdates us).storage address slot = (lastWrite address slot us).or (state.storage address slot) := by
  induction us generalizing state with
  | nil => rfl
  | cons u us ih =>
    show ((u.apply state).applyUpdates us).storage address slot = _
    rw [ih, lastWrite, Option.or_assoc]
    congr 1
    show (if _ then _ else _) = _
    split_ifs <;> rfl

theorem lastWrite_append (us vs : List StateUpdate) :
    lastWrite address slot (us ++ vs) = (lastWrite address slot vs).or (lastWrite address slot us) := by
  induction us with
  | nil => exact (Option.or_none).symm
  | cons u us ih => rw [List.cons_append, lastWrite, ih, lastWrite, Option.or_assoc]

theorem lastWrite_eq_none {us : List StateUpdate} (h : ∀ u ∈ us, u.address = address → u.slot ≠ slot) :
    lastWrite address slot us = none := by
  induction us with
  | nil => rfl
  | cons u us ih =>
    rw [lastWrite, ih fun v hv => h v (List.mem_cons_of_mem _ hv),
      if_neg fun heq => h u List.mem_cons_self heq.1.symm heq.2.symm, Option.or_none]

end Writes

/-! ### The accounting -/

/-- The words of a crossed tick that accrue outside of it. -/
def outsideKeys (segments : List SlipstreamSegment) : List U256 :=
  segments.flatMap fun segment => (segment.crossedTick.map (·.keys.drop 2)).getD []

/-- The cells of the fee, reward and outside-growth accounting. -/
def accountingSlots (trace : SlipstreamSwapTrace) : List U256 :=
  growthSlot trace.zeroForOne :: SLIPSTREAM_GAUGE_FEES_SLOT :: SLIPSTREAM_REWARD_GROWTH_SLOT ::
    SLIPSTREAM_REWARD_RESERVE_SLOT :: SLIPSTREAM_ROLLOVER_SLOT :: outsideKeys trace.segments

section Loop
variable {address : Address} {unstakedFee timestamp : Nat} {zeroForOne : Bool} {now : Observation} {state : StateView}
  {start accounts accounts' : SlipstreamAccounts} {step : SlipstreamSegment × Nat} {steps : List (SlipstreamSegment × Nat)}

theorem mem_crossSlipstreamTick_outside {tick : SlipstreamInitializedTick} {u : StateUpdate}
    (h : u ∈ crossSlipstreamTick address now timestamp tick accounts) :
    u.address = address ∧ u.slot ∈ tick.keys.drop 2 := by
  obtain ⟨⟨slot, value⟩, hmem, rfl⟩ := List.mem_map.mp h
  exact ⟨rfl, (List.of_mem_zip hmem).1⟩

/-- What the steps write to ticks, and when rewards were last brought up to date. -/
structure Outside (address : Address) (timestamp : Nat) (start : SlipstreamAccounts)
    (steps : List (SlipstreamSegment × Nat)) (accounts : SlipstreamAccounts) : Prop where
  account : ∀ u ∈ accounts.tickUpdates, u.address = address
  ticks : ∀ u ∈ accounts.tickUpdates, ∃ step ∈ steps, ∃ tick ∈ step.1.crossedTick, u.slot ∈ tick.keys.drop 2
  updated : accounts.lastUpdated = start.lastUpdated ∨ accounts.lastUpdated = timestamp

theorem accrueSlipstreamFee_outside
    (hok : accrueSlipstreamFee unstakedFee zeroForOne step.1 step.2 accounts = .ok accounts') :
    accounts'.tickUpdates = accounts.tickUpdates ∧ accounts'.lastUpdated = accounts.lastUpdated := by
  unfold accrueSlipstreamFee at hok
  split_ifs at hok
  · obtain rfl := pure_eq_ok.mp hok
    exact ⟨rfl, rfl⟩
  all_goals
    obtain ⟨share, -, hok⟩ := bind_eq_ok.mp hok
    obtain rfl := pure_eq_ok.mp hok
    cases zeroForOne <;> exact ⟨rfl, rfl⟩

theorem updateSlipstreamRewards_updated {growth : U256} {staked lastUpdated : Nat} {update : SlipstreamRewardUpdate}
    (hok : updateSlipstreamRewards address growth staked lastUpdated timestamp state = .ok update) :
    update.lastUpdated = lastUpdated ∨ update.lastUpdated = timestamp := by
  unfold updateSlipstreamRewards at hok
  dsimp only at hok
  by_cases hdelta : (timestamp + 2 ^ 32 - lastUpdated) % 2 ^ 32 = 0
  · rw [if_pos hdelta] at hok
    obtain rfl := pure_eq_ok.mp hok
    exact .inl rfl
  · rw [if_neg hdelta] at hok
    obtain ⟨reserve, -, hok⟩ := bind_eq_ok.mp hok
    by_cases hreserve : reserve = 0
    · rw [if_pos hreserve] at hok
      obtain rfl := pure_eq_ok.mp hok
      exact .inr rfl
    · rw [if_neg hreserve] at hok
      obtain ⟨rate, -, hok⟩ := bind_eq_ok.mp hok
      split_ifs at hok
      all_goals
        obtain ⟨word, -, hok⟩ := bind_eq_ok.mp hok
        obtain rfl := pure_eq_ok.mp hok
        exact .inr rfl

theorem accrueSlipstreamRewards_outside
    (hok : accrueSlipstreamRewards address timestamp state step.1 accounts = .ok accounts') :
    accounts'.tickUpdates = accounts.tickUpdates ∧
      (accounts'.lastUpdated = accounts.lastUpdated ∨ accounts'.lastUpdated = timestamp) := by
  unfold accrueSlipstreamRewards at hok
  by_cases hupdated : accounts.rewardsUpdated = true
  · rw [if_pos hupdated] at hok
    obtain rfl := pure_eq_ok.mp hok
    exact ⟨rfl, .inl rfl⟩
  · rw [if_neg hupdated] at hok
    obtain ⟨update, hupdate, hok⟩ := bind_eq_ok.mp hok
    obtain rfl := pure_eq_ok.mp hok
    exact ⟨rfl, updateSlipstreamRewards_updated hupdate⟩

theorem Outside.append (h : Outside address timestamp start steps accounts)
    (hok : accountSlipstreamStep address unstakedFee zeroForOne now timestamp state accounts step = .ok accounts') :
    Outside address timestamp start (steps ++ [step]) accounts' := by
  obtain ⟨charged, hcharged, hok⟩ := bind_eq_ok.mp hok
  obtain ⟨hticks, hlast⟩ := accrueSlipstreamFee_outside hcharged
  have hkept : ∀ u ∈ charged.tickUpdates, ∃ s ∈ steps ++ [step], ∃ tick ∈ s.1.crossedTick, u.slot ∈ tick.keys.drop 2 := by
    intro u hu
    obtain ⟨s, hs, hslot⟩ := h.ticks u (hticks ▸ hu)
    exact ⟨s, List.mem_append_left _ hs, hslot⟩
  cases hcross : step.1.crossedTick with
  | none =>
    rw [hcross] at hok
    obtain rfl := pure_eq_ok.mp hok
    exact ⟨hticks ▸ h.account, hkept, hlast ▸ h.updated⟩
  | some tick =>
    rw [hcross] at hok
    obtain ⟨paid, hpaid, hok⟩ := bind_eq_ok.mp hok
    obtain rfl := pure_eq_ok.mp hok
    obtain ⟨hticks', hlast'⟩ := accrueSlipstreamRewards_outside hpaid
    refine ⟨fun u hu => ?_, fun u hu => ?_, ?_⟩
    · rcases List.mem_append.mp hu with hu | hu
      · exact h.account u (hticks ▸ hticks' ▸ hu)
      · exact (mem_crossSlipstreamTick_outside hu).1
    · rcases List.mem_append.mp hu with hu | hu
      · exact hkept u (hticks' ▸ hu)
      · exact ⟨step, List.mem_append_right _ List.mem_cons_self, tick, hcross, (mem_crossSlipstreamTick_outside hu).2⟩
    · rcases hlast' with hsame | hnow
      · rcases h.updated with hstart | hnow
        · exact .inl (hsame.trans (hlast.trans hstart))
        · exact .inr (hsame.trans (hlast.trans hnow))
      · exact .inr hnow

theorem accountSlipstreamSteps_outside (hstart : start.tickUpdates = [])
    (hok : accountSlipstreamSteps address unstakedFee zeroForOne now timestamp state steps start = .ok accounts) :
    Outside address timestamp start steps accounts :=
  foldlM_induct (Outside address timestamp start) hok
    ⟨fun _ hu => absurd (hstart ▸ hu) List.not_mem_nil, fun _ hu => absurd (hstart ▸ hu) List.not_mem_nil, .inl rfl⟩
    fun _ _ _ _ _ h hstep => h.append hstep

end Loop
/-! ### The trace -/

/-- The context without its fee evidence. -/
def AdapterEventContext.withoutEvidence (context : AdapterEventContext) : AdapterEventContext :=
  { context with slipstreamFeeEvidence := none }

section Trace
variable {keccak : Keccak} {address : Address} {layout : V3StorageLayout} {swap : DecodedSwap} {state : StateView}
  {context : AdapterEventContext} {trace : SlipstreamSwapTrace} {words : SlipstreamAccountWords}
  {accounts : SlipstreamAccounts} {evidence : SlipstreamSwapFeeEvidence}

/-- A replay with evidence goes through without it, over the same path and with the same fee. -/
theorem traceSlipstreamSwap_withoutEvidence
    (hok : traceSlipstreamSwap keccak address layout swap state context = .ok trace) :
    traceSlipstreamSwap keccak address layout swap state context.withoutEvidence = .ok { trace with evidence := none } := by
  obtain ⟨timestamp, hreviewed, hok⟩ := bind_eq_ok.mp hok
  obtain ⟨checked, -, hok⟩ := bind_eq_ok.mp hok
  obtain ⟨_, hwidth, hok⟩ := bind_eq_ok.mp hok
  obtain ⟨parent, hparent, hok⟩ := bind_eq_ok.mp hok
  obtain ⟨liquidityWord, hliquidity, hok⟩ := bind_eq_ok.mp hok
  obtain ⟨stakedWord, hstaked, hok⟩ := bind_eq_ok.mp hok
  obtain ⟨accounts, -, hok⟩ := bind_eq_ok.mp hok
  obtain ⟨zeroForOne, hevent, hok⟩ := bind_eq_ok.mp hok
  obtain ⟨oracle, horacle, hok⟩ := bind_eq_ok.mp hok
  obtain ⟨replayed, hreplay, hok⟩ := bind_eq_ok.mp hok
  obtain ⟨_, -, hok⟩ := bind_eq_ok.mp hok
  obtain ⟨fees, hfees, hok⟩ := bind_eq_ok.mp hok
  obtain rfl := pure_eq_ok.mp hok
  refine bind_eq_ok.mpr ⟨timestamp, hreviewed, bind_eq_ok.mpr ⟨none, rfl, bind_eq_ok.mpr ⟨(), hwidth, ?_⟩⟩⟩
  refine bind_eq_ok.mpr ⟨parent, hparent, bind_eq_ok.mpr ⟨liquidityWord, hliquidity, ?_⟩⟩
  refine bind_eq_ok.mpr ⟨stakedWord, hstaked, ?_⟩
  refine bind_eq_ok.mpr ⟨none, rfl, bind_eq_ok.mpr ⟨zeroForOne, hevent, bind_eq_ok.mpr ⟨oracle, horacle, ?_⟩⟩⟩
  exact bind_eq_ok.mpr ⟨replayed, hreplay, bind_eq_ok.mpr ⟨(), rfl, bind_eq_ok.mpr ⟨fees, hfees, rfl⟩⟩⟩

/-! ### The updates -/

/-- The cells that both replays write, which are no cells of the accounting. -/
def quoteSlots (layout : V3StorageLayout) (trace : SlipstreamSwapTrace) : List U256 :=
  layout.slot0Slot :: SLIPSTREAM_STAKED_LAST_SPACING_SLOT :: layout.liquiditySlot ::
    trace.oracle.write.toList.map Prod.fst

/-- How the states after both replays agree. -/
structure AgreeOnQuotes (address : Address) (layout : V3StorageLayout) (trace : SlipstreamSwapTrace)
    (full quote : StateView) : Prop where
  cells : ∀ account slot, (account = address → slot ∉ accountingSlots trace ∧ slot ≠ SLIPSTREAM_STAKED_LAST_SPACING_SLOT) →
    full.storage account slot = quote.storage account slot
  staked : ∃ word, quote.storage address SLIPSTREAM_STAKED_LAST_SPACING_SLOT = some word ∧
    (full.storage address SLIPSTREAM_STAKED_LAST_SPACING_SLOT = some word ∨
      full.storage address SLIPSTREAM_STAKED_LAST_SPACING_SLOT =
        some (Packed.set word 128 (BitVec.ofNat 32 trace.timestamp)))
  apart : ∀ slot ∈ quoteSlots layout trace, slot ∉ accountingSlots trace

/-- The writes of the ticks are to cells of the accounting. -/
theorem Outside.tick_mem {start : SlipstreamAccounts}
    (h : Outside address trace.timestamp start (trace.segments.zip trace.stepFees) accounts) {u : StateUpdate}
    (hu : u ∈ accounts.tickUpdates) : u.slot ∈ outsideKeys trace.segments := by
  obtain ⟨step, hstep, tick, htick, hslot⟩ := h.ticks u hu
  refine List.mem_flatMap.mpr ⟨step.1, (List.of_mem_zip hstep).1, ?_⟩
  rw [Option.mem_def.mp htick]
  exact hslot

/-- Off the accounting, the full replay writes slot 0, both liquidities and the observation. -/
theorem lastWrite_full {slot : U256} (hticks : ∀ u ∈ accounts.tickUpdates, u.slot ∈ outsideKeys trace.segments)
    (hslot : slot ∉ accountingSlots trace) (account : Address) :
    lastWrite account slot (slipstreamFullUpdates address layout swap trace words accounts) =
      (lastWrite account slot (trace.oracle.write.toList.map fun (slot, value) => ⟨address, slot, value⟩)).or
        (lastWrite account slot [⟨address, layout.slot0Slot, slipstreamFinalSlot0 swap trace⟩,
          ⟨address, SLIPSTREAM_STAKED_LAST_SPACING_SLOT,
            Packed.set (Packed.set trace.stakedWord 0 (BitVec.ofNat 128 trace.path.stakedLiquidity)) 128
              (BitVec.ofNat 32 accounts.lastUpdated)⟩,
          ⟨address, layout.liquiditySlot, slipstreamFinalLiquidity trace⟩]) := by
  simp only [accountingSlots, List.mem_cons, not_or] at hslot
  obtain ⟨hgrowth, hgauge, hreward, hreserve, hrollover, houtside⟩ := hslot
  have htickless : lastWrite account slot accounts.tickUpdates = none :=
    lastWrite_eq_none fun u hu _ heq => houtside (heq ▸ hticks u hu)
  have hrolled : lastWrite account slot
      (accounts.rollover.toList.map fun value => ⟨address, SLIPSTREAM_ROLLOVER_SLOT, value⟩) = none :=
    lastWrite_eq_none fun u hu _ => by
      obtain ⟨value, -, rfl⟩ := List.mem_map.mp hu
      exact Ne.symm hrollover
  have hreserved : lastWrite account slot
      (accounts.rewardReserve.toList.map fun value => ⟨address, SLIPSTREAM_REWARD_RESERVE_SLOT, value⟩) = none :=
    lastWrite_eq_none fun u hu _ => by
      obtain ⟨value, -, rfl⟩ := List.mem_map.mp hu
      exact Ne.symm hreserve
  have hrewarded : lastWrite account slot
      (if accounts.rewardsUpdated then [⟨address, SLIPSTREAM_REWARD_GROWTH_SLOT, accounts.rewardGrowth⟩] else []) = none :=
    lastWrite_eq_none fun u hu _ => by
      split_ifs at hu
      · rw [List.mem_singleton.mp hu]
        exact Ne.symm hreward
      · exact absurd hu List.not_mem_nil
  have hgrown : slot ≠ (if trace.zeroForOne
      then (⟨address, SLIPSTREAM_SURFACE.feeGrowth0Slot, accounts.feeGrowth0⟩ : StateUpdate)
      else ⟨address, SLIPSTREAM_SURFACE.feeGrowth1Slot, accounts.feeGrowth1⟩).slot := by
    rw [growthSlot] at hgrowth
    split_ifs at hgrowth ⊢ <;> exact hgrowth
  rw [slipstreamFullUpdates]
  simp only [lastWrite_append, htickless, hrolled, hreserved, hrewarded, Option.none_or]
  simp only [lastWrite, hgrown, hgauge, and_false, if_false, Option.or_none, Option.none_or]

theorem lastWrite_quote (slot : U256) (account : Address) :
    lastWrite account slot (slipstreamQuoteUpdates address layout swap trace) =
      (lastWrite account slot (trace.oracle.write.toList.map fun (slot, value) => ⟨address, slot, value⟩)).or
        (lastWrite account slot [⟨address, layout.slot0Slot, slipstreamFinalSlot0 swap trace⟩,
          ⟨address, SLIPSTREAM_STAKED_LAST_SPACING_SLOT,
            Packed.set trace.stakedWord 0 (BitVec.ofNat 128 trace.path.stakedLiquidity)⟩,
          ⟨address, layout.liquiditySlot, slipstreamFinalLiquidity trace⟩]) := lastWrite_append ..

/-- The word of the staked liquidity, where the observation lies elsewhere. -/
theorem lastWrite_staked (hlayout : layout = .slipstream layout.tickSpacing)
    (hother : ∀ u ∈ trace.oracle.write.toList.map (fun (slot, value) => (⟨address, slot, value⟩ : StateUpdate)),
      u.slot ≠ SLIPSTREAM_STAKED_LAST_SPACING_SLOT) (slot0 word liquidity : U256) :
    (lastWrite address SLIPSTREAM_STAKED_LAST_SPACING_SLOT
        (trace.oracle.write.toList.map fun (slot, value) => ⟨address, slot, value⟩)).or
      (lastWrite address SLIPSTREAM_STAKED_LAST_SPACING_SLOT [⟨address, layout.slot0Slot, slot0⟩,
        ⟨address, SLIPSTREAM_STAKED_LAST_SPACING_SLOT, word⟩, ⟨address, layout.liquiditySlot, liquidity⟩]) = some word := by
  have hliquidity : SLIPSTREAM_STAKED_LAST_SPACING_SLOT ≠ layout.liquiditySlot := by
    rw [hlayout]
    show SLIPSTREAM_STAKED_LAST_SPACING_SLOT ≠ SLIPSTREAM_LIQUIDITY_SLOT
    decide
  rw [lastWrite_eq_none fun u hu _ => hother u hu, Option.none_or]
  simp only [lastWrite, hliquidity, and_false, if_false, and_self, if_true, Option.none_or, Option.some_or]

/-- No fixed cell and no observation is a word of a crossed tick. -/
theorem Traced.fixed_notMem_outside (h : Traced keccak address layout swap state trace evidence words)
    (hk : Slipstream.DistinctKeys keccak) {n : Nat} (hn : n < 2 ^ 17) :
    BitVec.ofNat 256 n ∉ outsideKeys trace.segments := by
  intro hmem
  obtain ⟨segment, hsegment, hkey⟩ := List.mem_flatMap.mp hmem
  cases hcrossed : segment.crossedTick with
  | none =>
    rw [hcrossed] at hkey
    exact absurd hkey List.not_mem_nil
  | some tick =>
    rw [hcrossed] at hkey
    obtain ⟨t, ht, hkeys⟩ := h.keyed segment hsegment tick hcrossed
    have hkey : BitVec.ofNat 256 n ∈ tick.keys := List.mem_of_mem_drop hkey
    rw [hkeys, h.layout_eq] at hkey
    obtain ⟨i, hi, hslot⟩ := List.mem_map.mp hkey
    refine hk.tick_ne_fixed ht ?_ hn hslot
    simp only [List.mem_cons, List.not_mem_nil, or_false] at hi
    omega

theorem Traced.fixed_notMem (h : Traced keccak address layout swap state trace evidence words)
    (hk : Slipstream.DistinctKeys keccak) {n : Nat} (hn : n < 2 ^ 17) (hfree : n ∉ [7, 8, 9, 10, 12, 14]) :
    BitVec.ofNat 256 n ∉ accountingSlots trace := by
  have hne : ∀ m ∈ [7, 8, 9, 10, 12, 14], BitVec.ofNat 256 n ≠ BitVec.ofNat 256 m := by
    intro m hm heq
    have hsmall : m < 2 ^ 17 := by
      simp only [List.mem_cons, List.not_mem_nil, or_false] at hm
      omega
    exact hfree (Canonical.ofNat_inj (hn.trans (by decide)) (hsmall.trans (by decide)) heq ▸ hm)
  simp only [accountingSlots, List.mem_cons, not_or]
  refine ⟨?_, hne 10 (by decide), hne 9 (by decide), hne 12 (by decide), hne 14 (by decide), h.fixed_notMem_outside hk hn⟩
  rw [growthSlot]
  split_ifs
  · exact hne 7 (by decide)
  · exact hne 8 (by decide)

theorem Traced.quoteSlots_notMem (h : Traced keccak address layout swap state trace evidence words)
    (hk : Slipstream.DistinctKeys keccak) : ∀ slot ∈ quoteSlots layout trace, slot ∉ accountingSlots trace := by
  intro slot hslot
  rw [quoteSlots, h.layout_eq] at hslot
  simp only [List.mem_cons] at hslot
  rcases hslot with rfl | rfl | rfl | hslot
  · exact (h.fixed_notMem hk (by decide) (by decide) : BitVec.ofNat 256 6 ∉ _)
  · exact (h.fixed_notMem hk (by decide) (by decide) : BitVec.ofNat 256 15 ∉ _)
  · exact (h.fixed_notMem hk (by decide) (by decide) : BitVec.ofNat 256 16 ∉ _)
  · obtain ⟨p, hp, rfl⟩ := List.mem_map.mp hslot
    obtain ⟨i, hi, hring⟩ := h.write p (Option.mem_toList.mp hp)
    rw [hring]
    refine h.fixed_notMem hk (by omega) ?_
    simp only [List.mem_cons, List.not_mem_nil, or_false]
    omega

/-- Both replays write cells of the pool alone. -/
theorem address_of_mem_full (hticks : ∀ u ∈ accounts.tickUpdates, u.address = address) {u : StateUpdate}
    (hu : u ∈ slipstreamFullUpdates address layout swap trace words accounts) : u.address = address := by
  simp only [slipstreamFullUpdates, List.mem_append, List.mem_cons, List.not_mem_nil, or_false, List.mem_map] at hu
  rcases hu with (((((rfl | rfl | rfl | rfl | rfl) | hu) | ⟨_, -, rfl⟩) | ⟨_, -, rfl⟩) | ⟨_, -, rfl⟩) | hu
  case inl.inl.inl.inl.inr =>
    split_ifs at hu
    · rw [List.mem_singleton.mp hu]
    · exact absurd hu List.not_mem_nil
  case inr => exact hticks u hu
  case inl.inl.inl.inl.inl.inr.inl => split_ifs <;> rfl
  all_goals rfl

theorem address_of_mem_quote {u : StateUpdate} (hu : u ∈ slipstreamQuoteUpdates address layout swap trace) :
    u.address = address := by
  simp only [slipstreamQuoteUpdates, List.mem_append, List.mem_cons, List.not_mem_nil, or_false, List.mem_map] at hu
  rcases hu with (rfl | rfl | rfl) | ⟨_, -, rfl⟩ <;> rfl

theorem Traced.ring_ne_staked (h : Traced keccak address layout swap state trace evidence words) :
    ∀ u ∈ trace.oracle.write.toList.map (fun (slot, value) => (⟨address, slot, value⟩ : StateUpdate)),
      u.slot ≠ SLIPSTREAM_STAKED_LAST_SPACING_SLOT := by
  intro u hu
  obtain ⟨p, hp, rfl⟩ := List.mem_map.mp hu
  obtain ⟨i, hi, hcell⟩ := h.write p (Option.mem_toList.mp hp)
  show p.1 ≠ BitVec.ofNat 256 15
  rw [hcell]
  intro heq
  have := Canonical.ofNat_inj (by omega) (by omega) heq
  omega

/-- A replay that evidence accompanies has the fee that the evidence claims, goes through without the evidence with the same
    fee, and leaves the same quotes. -/
theorem evidence_agrees (hk : Slipstream.DistinctKeys keccak) (hevidence : context.slipstreamFeeEvidence = some evidence)
    {full : List StateUpdate} (hok : deriveSlipstreamSwap keccak address layout swap state context = .ok full) :
    ∃ quote trace, deriveSlipstreamSwap keccak address layout swap state context.withoutEvidence = .ok quote ∧
      inferSlipstreamSwapFee keccak address layout swap state context.withoutEvidence = .ok evidence.effectiveSwapFee ∧
      traceSlipstreamSwap keccak address layout swap state context = .ok trace ∧
      AgreeOnQuotes address layout trace (state.applyUpdates full) (state.applyUpdates quote) := by
  obtain ⟨⟨updates, fee⟩, hinner, hok⟩ := bind_eq_ok.mp hok
  obtain ⟨_, hclaimed, hok⟩ := bind_eq_ok.mp hok
  obtain rfl := pure_eq_ok.mp hok
  rw [ensure_eq_ok, hevidence] at hclaimed
  have hclaimed : evidence.effectiveSwapFee = fee := of_decide_eq_true hclaimed
  obtain ⟨trace, htrace, hinner⟩ := bind_eq_ok.mp hinner
  obtain ⟨checked, words, htraced⟩ := traceSlipstreamSwap_traced (by rw [hevidence]; rfl) htrace
  rw [htraced.evidence_eq] at hinner
  obtain ⟨accounts, haccounts, hinner⟩ := bind_eq_ok.mp hinner
  obtain ⟨rfl, rfl⟩ := Prod.mk.inj (pure_eq_ok.mp hinner)
  have hquote : deriveSlipstreamSwapInner keccak address layout swap state context.withoutEvidence =
      .ok (slipstreamQuoteUpdates address layout swap trace, trace.fee) :=
    bind_eq_ok.mpr ⟨_, traceSlipstreamSwap_withoutEvidence htrace, rfl⟩
  refine ⟨_, trace, bind_eq_ok.mpr ⟨_, hquote, rfl⟩, ?_, htrace, ?_⟩
  · rw [inferSlipstreamSwapFee, hquote, hclaimed]
    rfl
  · have houtside : Outside address trace.timestamp (startAccounts trace words)
      (trace.segments.zip trace.stepFees) accounts :=
      accountSlipstreamSteps_outside rfl haccounts
    have hticks : ∀ u ∈ accounts.tickUpdates, u.slot ∈ outsideKeys trace.segments := fun _ hu => houtside.tick_mem hu
    have hapart := htraced.quoteSlots_notMem hk
    have hring := htraced.ring_ne_staked
    refine ⟨fun account slot hslot => ?_, ?_, hapart⟩
    · rw [storage_applyUpdates, storage_applyUpdates]
      congr 1
      by_cases haccount : account = address
      · obtain ⟨hoff, hstaked⟩ := hslot haccount
        rw [lastWrite_full hticks hoff, lastWrite_quote]
        simp only [lastWrite, hstaked, and_false, if_false, Option.or_none]
      · rw [lastWrite_eq_none fun u hu heq => absurd (heq.symm.trans (address_of_mem_full houtside.account hu)) haccount,
          lastWrite_eq_none fun u hu heq => absurd (heq.symm.trans (address_of_mem_quote hu)) haccount]
    · refine ⟨Packed.set trace.stakedWord 0 (BitVec.ofNat 128 trace.path.stakedLiquidity), ?_, ?_⟩
      · rw [storage_applyUpdates, lastWrite_quote, lastWrite_staked htraced.layout_eq hring, Option.some_or]
      · rw [storage_applyUpdates, lastWrite_full hticks (hapart _ (List.mem_cons_of_mem _ List.mem_cons_self)),
          lastWrite_staked htraced.layout_eq hring, Option.some_or]
        rcases houtside.updated with hsame | hnow
        · left
          have hkept : BitVec.ofNat 32 (startAccounts trace words).lastUpdated =
              Packed.get (Packed.set trace.stakedWord 0 (BitVec.ofNat 128 trace.path.stakedLiquidity)) 128 32 := by
            rw [Packed.get_set_of_disjoint (.inl (by decide))]
            exact (BitVec.ofNat_toNat ..).trans (BitVec.setWidth_eq _)
          rw [hsame, hkept, Packed.set_get]
        · rw [hnow]
          exact .inr rfl

end Trace
/-- The crossing swap, replayed with the fee that its evidence claims and without the evidence. -/
theorem evidence_agrees_crossing : ∃ full quote trace,
    deriveSlipstreamSwap Slipstream.tabulatedKeccak (reviewedSlipstreamPool .velodromeOptimismBifi) (.slipstream 200)
      crossingSwap stakedPool crossingContext = .ok full ∧
    deriveSlipstreamSwap Slipstream.tabulatedKeccak (reviewedSlipstreamPool .velodromeOptimismBifi) (.slipstream 200)
      crossingSwap stakedPool crossingContext.withoutEvidence = .ok quote ∧
    inferSlipstreamSwapFee Slipstream.tabulatedKeccak (reviewedSlipstreamPool .velodromeOptimismBifi) (.slipstream 200)
      crossingSwap stakedPool crossingContext.withoutEvidence = .ok crossingEvidence.effectiveSwapFee ∧
    AgreeOnQuotes (reviewedSlipstreamPool .velodromeOptimismBifi) (.slipstream 200) trace (stakedPool.applyUpdates full)
      (stakedPool.applyUpdates quote) := by
  have hok : (deriveSlipstreamSwap Slipstream.tabulatedKeccak (reviewedSlipstreamPool .velodromeOptimismBifi)
      (.slipstream 200) crossingSwap stakedPool crossingContext).isOk = true := by decide +kernel
  obtain ⟨full, hok⟩ := isOk_iff.mp hok
  obtain ⟨quote, trace, hquote, hfee, -, hagree⟩ := evidence_agrees Slipstream.tabulatedKeccak_distinct rfl hok
  exact ⟨full, quote, trace, hok, hquote, hfee, hagree⟩

end AmmState.V3
