import AmmState.Theorems.V3.Batches

/-! Replays on a partial view: what succeeds there is what the whole pool would give, and a cell that the view still holds
    afterwards is the pool's own. -/

namespace AmmState.Canonical
open V3 Checked

/-- The second view holds every cell of the pool that the first one does, with its value. -/
def Knows (address : Address) (P Q : StateView) : Prop :=
  ∀ slot value, P.storage address slot = some value → Q.storage address slot = some value

/-! ### Swaps -/

section
variable {keccak : Keccak} {address : Address} {layout : V3StorageLayout}

theorem persistent_required (slot : U256) : Persistent (Knows address) fun state => required state address slot :=
  fun _ _ hk _ h => required_eq_ok.mpr (hk _ _ (required_eq_ok.mp h))

theorem persistent_loadTickWords (tick : Int) :
    Persistent (Knows address) fun state => loadTickWords keccak address layout state tick :=
  .bind (persistent_required _) fun _ => .bind (persistent_required _) fun _ => .bind (persistent_required _) fun _ =>
    .bind (persistent_required _) fun _ => .const _

theorem persistent_nextStepBoundary (tick : Int) (zeroForOne : Bool) :
    Persistent (Knows address) fun state => nextStepBoundary keccak address layout state tick zeroForOne :=
  .bind (persistent_required _) fun _ => .const _

theorem persistent_crossBoundary (boundary : StepBoundary) (reached : Bool) (liquidity : Nat) (zeroForOne : Bool) :
    Persistent (Knows address) fun state => crossBoundary keccak address layout state boundary reached
      liquidity zeroForOne :=
  .ite (.bind (.bind (persistent_loadTickWords _) fun _ => .const _) fun _ => .const _) (.const _)

theorem persistent_enterBoundary (path : Path) :
    Persistent (Knows address) fun state => enterBoundary keccak address layout state path :=
  .bind (persistent_nextStepBoundary _ _) fun _ => .bind (.const _) fun _ =>
    .ite (.bind (persistent_crossBoundary _ _ _ _) fun _ => .const _) (.const _)

theorem persistent_pathStep (swap : DecodedSwap) (zeroForOne : Bool) (path : Path) :
    Persistent (Knows address) fun state => pathStep keccak address layout state swap zeroForOne path :=
  .bind (persistent_nextStepBoundary _ _) fun _ => .bind (.const _) fun _ => .bind (.const _) fun _ =>
    .bind (persistent_crossBoundary _ _ _ _) fun _ => .const _

theorem persistent_walk (swap : DecodedSwap) (zeroForOne : Bool) (steps : Nat) (path : Path) :
    Persistent (Knows address) fun state => walk keccak address layout state swap zeroForOne steps path := by
  induction steps generalizing path with
  | zero => exact .const _
  | succ steps ih => exact .ite (.const _) (.bind (persistent_pathStep _ _ _) ih)

theorem persistent_advanceOracle (slot0 : Slot0) (liquidity timestamp : Nat) :
    Persistent (Knows address) fun state => advanceOracle address UNISWAP_V3_SURFACE slot0 liquidity state timestamp :=
  .bind (.const _) fun _ => .bind (.const _) fun _ => .bind (.const _) fun _ =>
    .bind (persistent_required _) fun _ => .const _

theorem persistent_loadSlot0 : Persistent (Knows address) fun state => loadSlot0 address layout state :=
  .bind (persistent_required _) fun _ => .bind (.const _) fun _ => .bind (.const _) fun _ =>
    .bind (persistent_required _) fun _ => .const _

/-- The replay of a swap reads cells and nothing else: what it derives from a part it derives from the whole. -/
theorem persistent_deriveUniswapV3Swap (fee : Nat) (swap : DecodedSwap) (context : AdapterEventContext) :
    Persistent (Knows address) fun state => deriveUniswapV3Swap keccak address layout fee swap state context := by
  refine .bind (.const _) fun timestamp => .bind ?_ fun parent => .bind (.const _) fun zeroForOne => .bind ?_ fun oracle =>
    .bind ?_ fun _ => .const _
  · exact .bind persistent_loadSlot0 fun _ => .bind (persistent_required _) fun _ => .bind (persistent_required _) fun _ =>
      .bind (persistent_required _) fun _ => .const _
  · exact .ite (persistent_advanceOracle _ _ _) (.const _)
  · exact .bind (.bind (.ite (persistent_enterBoundary _) (.const _)) fun path => persistent_walk _ _ _ path) fun _ =>
      .const _

end

/-! ### Accounting events -/

section
variable {address : Address} {layout : V3StorageLayout} {state : StateView} {us : List StateUpdate}

theorem persistent_deriveUniswapV3Flash (fee : Nat) (event : DecodedFlash) (context : AdapterEventContext) :
    Persistent (Knows address) fun state => deriveUniswapV3Flash address layout state fee event context :=
  .bind (.const _) fun _ => .bind (.const _) fun _ => .bind (persistent_required _) fun _ =>
    .bind (persistent_required _) fun _ => .bind (.const _) fun _ => .bind (.const _) fun _ =>
    .bind (persistent_required _) fun _ => .bind (persistent_required _) fun _ => .bind (persistent_required _) fun _ =>
    .const _

theorem persistent_deriveUniswapV3SetFeeProtocol (event : DecodedFeeProtocol) (context : AdapterEventContext) :
    Persistent (Knows address) fun state => deriveUniswapV3SetFeeProtocol address layout state event context :=
  .bind (.const _) fun _ => .bind (.const _) fun _ => .bind (persistent_required _) fun _ => .const _

theorem persistent_deriveUniswapV3CollectProtocol (event : DecodedCollectProtocol) (context : AdapterEventContext) :
    Persistent (Knows address) fun state => deriveUniswapV3CollectProtocol address layout state event context :=
  .bind (.const _) fun _ => .bind (.const _) fun _ => .bind (persistent_required _) fun _ => .const _

theorem persistent_deriveUniswapV3ObservationGrowth (event : DecodedObservationGrowth) (context : AdapterEventContext) :
    Persistent (Knows address) fun state => deriveUniswapV3ObservationGrowth address layout state event context :=
  .bind (.const _) fun _ => .bind (.const _) fun _ => .bind (persistent_required _) fun _ => .const _

end

/-! ### Boundaries of a liquidity change -/

theorem Agrees.knows {P : StateView} {address : Address} {F : Storage} (h : Agrees P address F) :
    Knows address P (viewOf F) := fun slot value hv => congrArg some (h slot value hv)

theorem Agrees.applyUpdates {P : StateView} {address : Address} {F : Storage} {us : List StateUpdate}
    (h : Agrees P address F) (ha : ∀ u ∈ us, u.address = address) :
    Agrees (P.applyUpdates us) address (F.applyUpdates us) := by
  induction us generalizing P F with
  | nil => exact h
  | cons u us ih =>
    refine ih (F := Function.update F u.slot u.value) ?_ fun v hv => ha v (List.mem_cons_of_mem _ hv)
    intro slot value hv
    simp only [StateView.storage, StateUpdate.apply] at hv
    by_cases hs : slot = u.slot
    · subst hs
      rw [if_pos ⟨(ha u List.mem_cons_self).symm, rfl⟩] at hv
      rw [Function.update_self]
      exact Option.some.inj hv
    · rw [if_neg fun hc => hs hc.2] at hv
      rw [Function.update_of_ne hs]
      exact h slot value hv

namespace Storage

theorem applyUpdates_congr {F G : Storage} {x : U256} (h : F x = G x) (us : List StateUpdate) :
    F.applyUpdates us x = G.applyUpdates us x := by
  induction us generalizing F G with
  | nil => exact h
  | cons u us ih =>
    refine ih (F := Function.update F u.slot u.value) (G := Function.update G u.slot u.value) ?_
    simp only [Function.update_apply, h]

end Storage

section
variable {keccak : Keccak} {pool : Immutables} {F : Storage} {time : Nat} {parent : LiquidityParent} {P : StateView}
  {address : Address} {event : DecodedLiquidity}

/-- The words of a boundary, where the view has them. -/
theorem boundaryWords_partial (h : Agrees P address F) (hT : TicksAgree keccak pool.tickSpacing F) {tick : Int}
    (ht : InRange tick) {words : TickWords}
    (hok : boundaryWords keccak address (.uniswap pool.tickSpacing) P tick (decide (grossAt keccak F tick ≠ 0)) =
      .ok words) : words = tickInfo keccak F tick := by
  have hfull : boundaryWords keccak address (.uniswap pool.tickSpacing) (viewOf F) tick
      (decide (grossAt keccak F tick ≠ 0)) =
      .ok (tickInfo keccak F tick) := boundaryWords_of_holds (fun _ => rfl) hT ht
  by_cases hg : grossAt keccak F tick = 0
  · rw [boundaryWords, if_neg (by simp [hg])] at hok
    obtain ⟨_, -, hok⟩ := bind_eq_ok.mp hok
    rw [← pure_eq_ok.mp hok, hT.empty tick ht hg]
  · rw [boundaryWords, if_pos (by simp [hg])] at hok hfull
    exact Except.ok.inj ((persistent_loadTickWords tick h.knows words hok).symm.trans hfull)

/-- A boundary that the view can resolve is resolved as from the whole pool; else it is left out. -/
theorem resolveBoundary_partial (h : Agrees P address F) (hT : TicksAgree keccak pool.tickSpacing F)
    (hp : ParentSpec pool F time parent) (hamount : 0 < event.amount) {tick : Int} (ht : InRange tick)
    (ha : tick % pool.tickSpacing = 0) {upper : Bool} {g : Nat} {n : Int}
    (hc : changeTick (grossAt keccak F tick) (netAt keccak F tick) event.delta upper pool.maxLiquidityPerTick = some (g, n))
    {r : Option CanonicalTickUpdate}
    (hok : resolveBoundary keccak address (.uniswap pool.tickSpacing) P event parent time
      (boundaryPosition keccak address (.uniswap pool.tickSpacing) P tick upper) = .ok r) :
    r = none ∨ r = some (tickUpdateOf keccak F parent time tick g n) ∧
      (P.storage address (bitmapSlot keccak (v3WordPosition tick pool.tickSpacing))).isSome := by
  unfold resolveBoundary at hok
  cases hval : (boundaryPosition keccak address (.uniswap pool.tickSpacing) P tick upper).value with
  | none =>
    rw [hval] at hok
    exact .inl (Except.ok.inj hok).symm
  | some bitmap =>
    have hword : F (bitmapSlot keccak (v3WordPosition tick pool.tickSpacing)) = bitmap := h _ _ hval
    have hbit : decide (bitmap &&& (boundaryPosition keccak address (.uniswap pool.tickSpacing) P tick upper).mask ≠ 0) =
        decide (grossAt keccak F tick ≠ 0) := by
      rw [← hword]
      exact decide_eq_decide.mpr (boundaryBit hT hp.spacing_pos ht ha)
    rw [hval] at hok
    simp only [hbit] at hok
    cases hu : updateCanonicalLiquidityTick keccak address (.uniswap pool.tickSpacing) P event parent time tick upper
        (decide (grossAt keccak F tick ≠ 0)) with
    | ok update =>
      have hr : r = some update := by
        rw [show (boundaryPosition keccak address (.uniswap pool.tickSpacing) P tick upper).tick = tick from rfl,
          show (boundaryPosition keccak address (.uniswap pool.tickSpacing) P tick upper).upper = upper from rfl, hu] at hok
        exact (Except.ok.inj hok).symm
      obtain ⟨words, hwords, hu⟩ := bind_eq_ok.mp hu
      obtain rfl := boundaryWords_partial h hT ht hwords
      obtain ⟨_, -, hu⟩ := bind_eq_ok.mp hu
      obtain ⟨⟨g', n'⟩, hchange, hu⟩ := bind_eq_ok.mp hu
      rw [hp.maxLiquidity] at hchange
      have hc' := (changeTickLiquidity_eq_ok hamount (maxLiquidityPerTick_lt pool)).mp hchange
      obtain ⟨rfl, rfl⟩ := Prod.mk.inj (Option.some.inj (hc.symm.trans hc'))
      refine .inr ⟨?_, Option.isSome_iff_exists.mpr ⟨bitmap, hval⟩⟩
      rw [hr, ← pure_eq_ok.mp hu]
      rfl
    | error e =>
      rw [show (boundaryPosition keccak address (.uniswap pool.tickSpacing) P tick upper).tick = tick from rfl,
        show (boundaryPosition keccak address (.uniswap pool.tickSpacing) P tick upper).upper = upper from rfl, hu] at hok
      cases e with
      | missingState a b => exact .inl (Except.ok.inj hok).symm
      | malformedLog w => cases hok
      | v3Transition e => cases hok

/-- The tick writes of a boundary, where it is known or not. -/
theorem boundaryUpdates_apply {H : Storage} {tick : Int} {g : Nat} {n : Int} {r : Option CanonicalTickUpdate}
    {position : BoundaryPosition} (hr : r = none ∨ r = some (tickUpdateOf keccak F parent time tick g n))
    (hposition : position.tick = tick) {x : U256} (hx : x ∉ coldCells keccak (.uniswap pool.tickSpacing) (r, position)) :
    H.applyUpdates (boundaryUpdates address (r, position)) x =
      setTickInfo keccak H tick (changedTickWords (tickInfo keccak F tick) tick parent time g n) x := by
  rcases hr with rfl | rfl
  · refine (setTickInfo_of_ne fun i hi heq => hx ?_).symm
    subst heq
    rw [← hposition]
    refine List.mem_append_left _ (List.mem_map.mpr ⟨i, ?_, rfl⟩)
    simp only [List.mem_cons, List.not_mem_nil, or_false]
    omega
  · exact congrFun (applyUpdates_tickWordUpdates H address tick _) x

theorem boundaryUpdates_address {boundary : Option CanonicalTickUpdate × BoundaryPosition} {u : StateUpdate}
    (h : u ∈ boundaryUpdates address boundary) : u.address = address := by
  obtain ⟨_ | update, position⟩ := boundary
  · cases h
  · exact tickWordUpdates_address h

/-- One boundary of the merge on a partial view. -/
theorem Merged.flip_partial {view : U256 → Option U256} {G : Storage} {cold slots : List U256} {s s' : BitmapState}
    {tick : Int} (h : Merged view F G cold slots s) {state : StateView} {upper : Bool} {g : Nat} {n : Int}
    {r : Option CanonicalTickUpdate}
    (hr : r = none ∨ r = some (tickUpdateOf keccak F parent time tick g n) ∧
      (view (bitmapSlot keccak (v3WordPosition tick pool.tickSpacing))).isSome)
    (hcold : ∀ x ∈ coldCells keccak (.uniswap pool.tickSpacing)
      (r, boundaryPosition keccak address (.uniswap pool.tickSpacing) state tick upper), x ∈ cold)
    (hmem : bitmapSlot keccak (v3WordPosition tick pool.tickSpacing) ∈ slots)
    (hflip : flipBoundary s (r, boundaryPosition keccak address (.uniswap pool.tickSpacing) state tick upper) = .ok s') :
    Merged view F (flipCell keccak pool.tickSpacing
      (decide (g = 0) != decide (grossAt keccak F tick = 0)) G tick) cold slots
      s' := by
  rcases hr with rfl | ⟨rfl, hheld⟩
  · obtain rfl := Except.ok.inj hflip
    exact h.flip_cold (hcold _ (List.mem_append_right _ List.mem_cons_self)) _
  · exact h.flip_some hheld hmem hflip

/-- Off its cold cells, the batch of a partial view leaves what the whole pool leaves. -/
theorem liquidityTransition_partial (hk : DistinctKeys keccak) (h : Agrees P address F)
    (hT : TicksAgree keccak pool.tickSpacing F) (hp : ParentSpec pool F time parent) (ha : 0 < event.amount)
    (hL : InRange event.tickLower) (hU : InRange event.tickUpper) (haL : event.tickLower % pool.tickSpacing = 0)
    (haU : event.tickUpper % pool.tickSpacing = 0) {l u : Nat × Int}
    (hl : changeTick (grossAt keccak F event.tickLower) (netAt keccak F event.tickLower) event.delta false
      pool.maxLiquidityPerTick = some l)
    (hu : changeTick (grossAt keccak F event.tickUpper) (netAt keccak F event.tickUpper) event.delta true
      pool.maxLiquidityPerTick = some u) {transition : CanonicalLiquidityTransition}
    (hok : liquidityTransition keccak address (.uniswap pool.tickSpacing) P event parent time = .ok transition) :
    ∃ active, activeUpdates address (.uniswap pool.tickSpacing) event parent = .ok active ∧
      (∀ x ∈ transition.updates, x.address = address) ∧
      ∀ x ∉ transition.coldSlots, F.applyUpdates transition.updates x =
        (movedBoundaries keccak pool F parent time event.tickLower event.tickUpper l u).applyUpdates active x := by
  obtain ⟨gL, nL⟩ := l
  obtain ⟨gU, nU⟩ := u
  obtain ⟨lower, hlower, hok⟩ := bind_eq_ok.mp hok
  obtain ⟨upper, hupper, hok⟩ := bind_eq_ok.mp hok
  obtain ⟨s₂, hfold, hok⟩ := bind_eq_ok.mp hok
  obtain ⟨active, hactive, hok⟩ := bind_eq_ok.mp hok
  obtain rfl := pure_eq_ok.mp hok
  rw [List.foldlM_cons] at hfold
  obtain ⟨s₁, hs₁, hfold⟩ := bind_eq_ok.mp hfold
  rw [List.foldlM_cons] at hfold
  obtain ⟨s₂', hs₂, hfold⟩ := bind_eq_ok.mp hfold
  obtain rfl := pure_eq_ok.mp hfold
  have hlr := resolveBoundary_partial h hT hp ha hL haL hl hlower
  have hur := resolveBoundary_partial h hT hp ha hU haU hu hupper
  set pL := boundaryPosition keccak address (.uniswap pool.tickSpacing) P event.tickLower false
  set pU := boundaryPosition keccak address (.uniswap pool.tickSpacing) P event.tickUpper true
  set cold := [(lower, pL), (upper, pU)].flatMap (coldCells keccak (.uniswap pool.tickSpacing)) with hcold
  have hcL : ∀ x ∈ coldCells keccak (.uniswap pool.tickSpacing) (lower, pL), x ∈ cold := fun x hx =>
    List.mem_flatMap.mpr ⟨_, List.mem_cons_self, hx⟩
  have hcU : ∀ x ∈ coldCells keccak (.uniswap pool.tickSpacing) (upper, pU), x ∈ cold := fun x hx =>
    List.mem_flatMap.mpr ⟨_, List.mem_cons_of_mem _ List.mem_cons_self, hx⟩
  have hstart : Merged (P.storage address) F F cold [pL.slot, pU.slot] ⟨P.storage address, []⟩ :=
    ⟨fun x _ hv => by
      obtain ⟨v, hv⟩ := Option.isSome_iff_exists.mp hv
      exact hv.trans (congrArg some (h x v hv).symm), fun _ _ _ => rfl, nofun⟩
  have hm₁ := hstart.flip_partial hlr hcL List.mem_cons_self hs₁
  have hm₂ := hm₁.flip_partial hur hcU (List.mem_cons_of_mem _ List.mem_cons_self) hs₂
  refine ⟨active, hactive, fun x hx => ?_, fun x hx => ?_⟩
  · rcases List.mem_append.mp hx with hx | hx
    · rcases List.mem_append.mp hx with hx | hx
      · obtain ⟨b, -, hx⟩ := List.mem_flatMap.mp hx
        exact boundaryUpdates_address hx
      · exact bitmapUpdates_address hx
    · exact activeUpdates_address ha hactive x hx
  · have hx : x ∉ cold := fun hc => hx (by
      rw [List.mem_dedup, List.mem_mergeSort]
      exact hc)
    have hbatch : [(lower, pL), (upper, pU)].flatMap (boundaryUpdates address) =
        boundaryUpdates address (lower, pL) ++ boundaryUpdates address (upper, pU) := by
      simp only [List.flatMap_cons, List.flatMap_nil, List.append_nil]
    rw [Storage.applyUpdates_append]
    refine Storage.applyUpdates_congr ?_ _
    rw [Storage.applyUpdates_append, hm₂.applyUpdates hx, hbatch, Storage.applyUpdates_append,
      boundaryUpdates_apply (hur.imp_right And.left) rfl fun hc => hx (hcU x hc)]
    unfold movedBoundaries
    simp only []
    split_ifs with hc
    · obtain ⟨w, rfl⟩ : ∃ w, x = bitmapSlot keccak w := by
        rcases List.mem_cons.mp (hm₂.mem x hc).1 with rfl | hx
        · exact ⟨_, rfl⟩
        · exact ⟨_, List.mem_singleton.mp hx⟩
      rw [setTickInfo_bitmap hk hU, setTickInfo_bitmap hk hL]
    · refine setTickInfo_apply_congr ?_
      rw [boundaryUpdates_apply (hlr.imp_right And.left) rfl fun hc => hx (hcL x hc)]
      exact setTickInfo_apply_congr (hm₂.unchanged x hx hc).symm

theorem persistent_loadLiquidityParent {layout : V3StorageLayout} (timestamp : Nat) :
    Persistent (Knows address) fun state => loadLiquidityParent address layout state timestamp :=
  .bind persistent_loadSlot0 fun _ => .bind (.const _) fun _ => .bind (persistent_advanceOracle _ _ _) fun _ =>
    .bind (persistent_required _) fun _ => .bind (persistent_required _) fun _ => .const _

/-- A liquidity change that the contract makes, replayed on a part of the pool: off the cold cells, its batch leaves the
    contract's storage. -/
theorem deriveUniswapV3Liquidity_partial (hk : DistinctKeys keccak) (hF : WellFormed keccak pool F)
    (h : Agrees P address F) {context : AdapterEventContext} (hc : validateContext context = .ok time) {F' : Storage}
    (hrun : changeLiquidity keccak pool F (BitVec.ofNat 32 time) event = some F')
    {transition : CanonicalLiquidityTransition}
    (hok : deriveUniswapV3Liquidity keccak address (.uniswap pool.tickSpacing) P event context = .ok transition) :
    (∀ x ∈ transition.updates, x.address = address) ∧
      ∀ x ∉ transition.coldSlots, F.applyUpdates transition.updates x = F' x := by
  obtain ⟨t, hcheck, hok⟩ := bind_eq_ok.mp hok
  obtain ⟨hv, hs, hmin, hmax, hlt, haL, haU⟩ := checkLiquidityInputs_eq_ok.mp hcheck
  obtain rfl := Except.ok.inj (hc.symm.trans hv)
  rw [changeLiquidity_eq] at hrun
  by_cases h0 : event.amount = 0
  · rw [if_pos h0] at hok hrun
    obtain ⟨_, -, hok⟩ := bind_eq_ok.mp hok
    obtain rfl := pure_eq_ok.mp hok
    refine ⟨nofun, fun x _ => ?_⟩
    split_ifs at hrun
    obtain rfl := Option.some.inj hrun
    rfl
  · rw [if_neg h0] at hok hrun
    obtain ⟨_, hamount, hok⟩ := bind_eq_ok.mp hok
    obtain ⟨parent, hload, hok⟩ := bind_eq_ok.mp hok
    have ha := Nat.pos_of_ne_zero h0
    have hL : InRange event.tickLower := ⟨hmin, by omega⟩
    have hU : InRange event.tickUpper := ⟨by omega, hmax⟩
    have hp := loadLiquidityParent_spec (fun _ => rfl) hs hF.oracle (validateContext_lt hv)
      (persistent_loadLiquidityParent _ h.knows parent hload)
    rw [if_pos (ensure_eq_ok.mp hamount), modifyPosition_eq hk hF.ticks hp ha hL hU haL haU hlt address] at hrun
    obtain ⟨l, hl, hrun⟩ := Option.bind_eq_some_iff.mp hrun
    obtain ⟨u, hu, hrun⟩ := Option.bind_eq_some_iff.mp hrun
    obtain ⟨active, hactive, haddr, hcells⟩ := liquidityTransition_partial hk h hF.ticks hp ha hL hU haL haU hl hu hok
    have htick : parent.slot0.tick = F.tick := by rw [hp.slot0]; rfl
    have hactive := (activeUpdates_eq_ok ha).mp hactive
    rw [htick, hp.liquidity] at hactive
    refine ⟨haddr, fun x hx => (hcells x hx).trans ?_⟩
    split_ifs at hrun hactive with hr
    · obtain ⟨n, hn, -, rfl⟩ := hactive
      rw [hn] at hrun
      rw [← Option.some.inj hrun]
    · subst hactive
      rw [← Option.some.inj hrun]
      rfl

end

/-! ### Events -/

/-- A `Mint` or a `Burn` of the contract is a change that it makes from the parent; nothing is asked of
    other events. -/
def Emitted (keccak : Keccak) (pool : Immutables) (F : Storage) (context : AdapterEventContext) : PoolEvent → Prop
  | .liquidity event => ∃ time F', validateContext context = .ok time ∧
      changeLiquidity keccak pool F (BitVec.ofNat 32 time) event = some F'
  | _ => True

section
variable {keccak : Keccak} {address : Address} {pool : Immutables} {F : Storage} {P full : StateView}

/-- Cells of the pool, written by a batch that does not depend on how much is known. -/
theorem exactly_partial {f : StateView → Result (List StateUpdate)} (hpersistent : Persistent (Knows address) f)
    (haddress : ∀ state us, f state = .ok us → ∀ u ∈ us, u.address = address) (hP : Agrees P address F)
    (hfull : Holds full address F) {transition : CanonicalLiquidityTransition} (hok : exactly (f P) = .ok transition) :
    ∃ whole, exactly (f full) = .ok whole ∧ whole.coldSlots = [] ∧
      ∀ slot value,
        ((P.applyUpdates transition.updates).purge address transition.coldSlots).storage address slot = some value →
          (full.applyUpdates whole.updates).storage address slot = some value := by
  have hknows : Knows address P full := fun slot value hv => by rw [hfull slot, hP slot value hv]
  obtain ⟨us, hus, hok⟩ := bind_eq_ok.mp hok
  obtain rfl := pure_eq_ok.mp hok
  have haddr := haddress P us hus
  refine ⟨⟨us, []⟩, bind_eq_ok.mpr ⟨us, hpersistent hknows us hus, rfl⟩, rfl, fun slot value hv => ?_⟩
  have hv : (P.applyUpdates us).storage address slot = some value := by
    simpa [StateView.purge, StateView.storage] using hv
  rw [hfull.applyUpdates haddr slot, hP.applyUpdates haddr slot value hv]

/-- An event replayed on a part of the pool. If it succeeds there it succeeds on the whole, and every cell that is held
    after the batch and after forgetting what is cold is the whole pool's own after its own batch. -/
theorem replay_partial (hk : DistinctKeys keccak) (hF : WellFormed keccak pool F) (hP : Agrees P address F)
    (hfull : Holds full address F) {context : AdapterEventContext} {event : PoolEvent}
    (hevent : Emitted keccak pool F context event) {transition : CanonicalLiquidityTransition}
    (hok : replay keccak address (.uniswap pool.tickSpacing) pool.fee event P context = .ok transition) :
    ∃ whole, replay keccak address (.uniswap pool.tickSpacing) pool.fee event full context = .ok whole ∧
      whole.coldSlots = [] ∧
      ∀ slot value,
        ((P.applyUpdates transition.updates).purge address transition.coldSlots).storage address slot = some value →
          (full.applyUpdates whole.updates).storage address slot = some value := by
  cases event with
  | liquidity event =>
    obtain ⟨time, F', hc, hrun⟩ := hevent
    obtain ⟨t, hcheck, -⟩ := bind_eq_ok.mp hok
    obtain ⟨-, -, -, -, hlt, haL, haU⟩ := checkLiquidityInputs_eq_ok.mp hcheck
    obtain ⟨whole, hwhole⟩ := deriveUniswapV3Liquidity_complete hk hF hfull hc hlt haL haU hrun
    obtain ⟨t', F'', hcheck', hrun', hcold, haddr', hleaves⟩ :=
      deriveUniswapV3Liquidity_sound hk hF.ticks hF.oracle hfull hwhole
    obtain rfl := Except.ok.inj (hc.symm.trans (checkLiquidityInputs_eq_ok.mp hcheck').1)
    obtain rfl := Option.some.inj (hrun.symm.trans hrun')
    obtain ⟨haddr, hcells⟩ := deriveUniswapV3Liquidity_partial hk hF hP hc hrun hok
    refine ⟨whole, hwhole, hcold, fun slot value hv => ?_⟩
    simp only [StateView.storage, StateView.purge, true_and] at hv
    split_ifs at hv with hmem
    rw [hfull.applyUpdates haddr' slot, hleaves, ← hcells slot hmem, hP.applyUpdates haddr slot value hv]
  | swap event =>
    exact exactly_partial (persistent_deriveUniswapV3Swap pool.fee event context) (fun _ _ => deriveUniswapV3Swap_address)
      hP hfull hok
  | flash event =>
    exact exactly_partial (persistent_deriveUniswapV3Flash pool.fee event context) (fun _ _ => deriveUniswapV3Flash_address)
      hP hfull hok
  | setFeeProtocol event =>
    exact exactly_partial (persistent_deriveUniswapV3SetFeeProtocol event context)
      (fun _ _ => deriveUniswapV3SetFeeProtocol_address) hP hfull hok
  | collectProtocol event =>
    exact exactly_partial (persistent_deriveUniswapV3CollectProtocol event context)
      (fun _ _ => deriveUniswapV3CollectProtocol_address) hP hfull hok
  | observationGrowth event =>
    exact exactly_partial (persistent_deriveUniswapV3ObservationGrowth event context)
      (fun _ _ => deriveUniswapV3ObservationGrowth_address) hP hfull hok

end

/-- The new pool without its bitmap word, so that a mint leaves both boundaries cold. -/
def withoutBitmap : StateView := fun _ slot =>
  if slot = bitmapSlot tabulatedKeccak 0 then none else some (poolAt90 slot)

theorem replay_partial_mint : ∃ transition whole,
    replay tabulatedKeccak 7 (.uniswap 60) 3000 (.liquidity mintAt90) withoutBitmap (contextAt 1012) = .ok transition ∧
    replay tabulatedKeccak 7 (.uniswap 60) 3000 (.liquidity mintAt90) (viewOf poolAt90) (contextAt 1012) = .ok whole ∧
    ∀ slot value,
      ((withoutBitmap.applyUpdates transition.updates).purge 7 transition.coldSlots).storage 7 slot = some value →
        ((viewOf poolAt90).applyUpdates whole.updates).storage 7 slot = some value := by
  obtain ⟨transition, hok⟩ := isOk_iff.mp (show (replay tabulatedKeccak 7 (.uniswap 60) 3000
    (.liquidity mintAt90) withoutBitmap (contextAt 1012)).isOk = true by decide +kernel)
  have hagrees : Agrees withoutBitmap 7 poolAt90 := by
    intro slot value hv
    simp only [withoutBitmap, StateView.storage] at hv
    split_ifs at hv
    exact Option.some.inj hv
  have hmint : ∃ F', changeLiquidity tabulatedKeccak ⟨3000, 60⟩ poolAt90 (BitVec.ofNat 32 1012) mintAt90 = some F' :=
    Option.isSome_iff_exists.mp (by decide +kernel)
  obtain ⟨F', hrun⟩ := hmint
  have hevent : Emitted tabulatedKeccak ⟨3000, 60⟩ poolAt90 (contextAt 1012) (.liquidity mintAt90) := ⟨1012, F', rfl, hrun⟩
  obtain ⟨whole, hwhole, -, hcells⟩ := replay_partial tabulatedKeccak_distinct poolAt90_wellFormed hagrees
    (show Holds (viewOf poolAt90) 7 poolAt90 from fun _ => rfl) hevent hok
  exact ⟨transition, whole, hok, hwhole, hcells⟩

end AmmState.Canonical
