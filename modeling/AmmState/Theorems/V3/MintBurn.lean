import AmmState.Theorems.V3.Runs

/-! A `Burn` right after a `Mint` of the same range and amount undoes it: gross and net liquidity, flags, bitmap words and
    active liquidity of the whole pool are as before, and a tick that the mint initialized is cleared. -/

namespace AmmState.Canonical
open V3 Checked

section
variable {keccak : Keccak} {pool : Immutables} {F F' : Storage} {time : Nat} {parent : LiquidityParent} {address : Address}
  {event : DecodedLiquidity} {l u : Nat × Int}

/-! ### Ticks and fixed cells after a move -/

/-- Gross and net liquidity of every tick after a move. -/
theorem LiquidityMove.tick (h : LiquidityMove keccak address pool F event F' time parent l u) (hk : DistinctKeys keccak)
    (hT : TicksAgree keccak pool.tickSpacing F) (hO : OracleReady F) {t : Int} (ht : InRange t) :
    grossAt keccak F' t =
        (if t = event.tickUpper then u.1 else if t = event.tickLower then l.1 else grossAt keccak F t) ∧
      netAt keccak F' t = (if t = event.tickUpper then settledNet u
        else if t = event.tickLower then settledNet l else netAt keccak F t) := by
  obtain ⟨hsame, -⟩ := h.cells hk hO
  obtain ⟨hgross, hnet, -⟩ := moved_tick time parent hT h.lower.1 h.upper.1 h.lt (.of_changeTick h.changeLower)
    (.of_changeTick h.changeUpper) hk ht
  refine ⟨(hsame.gross ht).trans hgross, (hsame.net ht).trans (hnet.trans ?_)⟩
  have hlt := h.lt
  split_ifs with h₁ h₂ h₂
  · omega
  · subst h₁
    omega
  · subst h₂
    omega
  · omega

theorem LiquidityMove.ticks (h : LiquidityMove keccak address pool F event F' time parent l u) (hk : DistinctKeys keccak)
    (hT : TicksAgree keccak pool.tickSpacing F) (hO : OracleReady F) : TicksAgree keccak pool.tickSpacing F' :=
  (h.cells hk hO).1.ticks (moved_ticks time parent hT h.lower.1 h.upper.1 h.lt (.of_changeTick h.changeLower)
    (.of_changeTick h.changeUpper) hk h.spec.spacing_pos h.lower.2 h.upper.2)

/-- A move writes price, tick, index and cardinality of `slot0` only. -/
theorem LiquidityMove.slot0_rest (h : LiquidityMove keccak address pool F event F' time parent l u)
    (hk : DistinctKeys keccak) {lo len : Nat} (hlo : 216 ≤ lo) : field F'.slot0 lo len = field F.slot0 lo len := by
  have hmoved : movedBoundaries keccak pool F parent time event.tickLower event.tickUpper l u 0 = F 0 :=
    movedBoundaries_fixed hk h.lower.1 h.upper.1 l u (n := 0) (by decide)
  have hstorage := h.storage
  simp only at hstorage
  split_ifs at hstorage with hr
  · obtain ⟨n, -, rfl⟩ := hstorage
    set moved := movedBoundaries keccak pool F parent time event.tickLower event.tickUpper l u
    cases hw : parent.oracle.write with
    | none =>
      have hslot0 : (moved.applyUpdates (activeWrites address parent n)).slot0 = F.slot0 := by
        simp only [activeWrites, hw, List.nil_append, Storage.applyUpdates_cons, Storage.applyUpdates_nil, Storage.slot0]
        rw [Function.update_of_ne (by decide), hmoved]
      rw [hslot0]
    | some w =>
      have hslot0 : (moved.applyUpdates (activeWrites address parent n)).slot0 =
          (Slot0.decode F.slot0).encodeFinal parent.slot0.sqrtPriceX96 parent.slot0.tick parent.oracle.observationIndex
            parent.oracle.observationCardinality := by
        simp only [activeWrites, hw, List.cons_append, List.nil_append, Storage.applyUpdates_cons, Storage.applyUpdates_nil]
        rw [← h.spec.slot0, Storage.slot0, Function.update_of_ne (by decide), Function.update_self]
      rw [hslot0, encodeFinal_rest hlo]
  · subst hstorage
    rw [Storage.slot0, hmoved]
    rfl

/-- Active liquidity after a move is a uint128. -/
theorem LiquidityMove.liquidity_lt (h : LiquidityMove keccak address pool F event F' time parent l u)
    (hk : DistinctKeys keccak) (hO : OracleReady F) : (F' 4).toNat < 2 ^ 128 := by
  obtain ⟨-, -, -, -, h4⟩ := h.cells hk hO
  have hstorage := h.storage
  simp only at hstorage
  split_ifs at hstorage h4 with hr
  · obtain ⟨n, hn, -⟩ := hstorage
    have hlt := addDelta_lt h.spec.liquidity_lt hn
    have hsum := addDelta_eq hn
    omega
  · have hlt := h.spec.liquidity_lt
    omega

/-! ### Mints -/

/-- What a mint leaves at a boundary: the amount is added to the gross liquidity, and to or from the net liquidity. -/
theorem changeTick_add {gross maxLiquidity : Nat} {net : Int} {amount : Nat} (ha : 0 < amount)
    {upper : Bool} {r : Nat × Int} (h : changeTick gross net amount upper maxLiquidity = some r) :
    r.1 = gross + amount ∧ settledNet r = net + (if upper then -(amount : Int) else amount) ∧ r.1 ≤ maxLiquidity := by
  obtain ⟨hgross, hle, hnet, -⟩ := changeTick_eq_some.mp h
  have hsum := addDelta_eq hgross
  refine ⟨by omega, ?_, hle⟩
  rw [settledNet, if_neg (by omega), hnet]

theorem delta_mint (hmint : event.isMint = true) : event.delta = event.amount := by
  rw [DecodedLiquidity.delta, if_pos hmint]

/-- A mint keeps a pool well formed. -/
theorem LiquidityMove.wellFormed (h : LiquidityMove keccak address pool F event F' time parent l u)
    (hk : DistinctKeys keccak) (hF : WellFormed keccak pool F) (hmint : event.isMint = true) :
    WellFormed keccak pool F' := by
  have hI : PoolInvariant keccak pool.tickSpacing F := ⟨hF.ticks, hF.sums, hF.price, hF.oracle⟩
  obtain ⟨hgL, hnL, hmL⟩ := changeTick_add h.amount_pos (delta_mint hmint ▸ h.changeLower)
  obtain ⟨hgU, hnU, hmU⟩ := changeTick_add h.amount_pos (delta_mint hmint ▸ h.changeUpper)
  rw [if_neg Bool.false_ne_true] at hnL
  rw [if_pos rfl] at hnU
  have hinv : PoolInvariant keccak pool.tickSpacing F' := by
    refine h.inv hk hI ?_ ?_
    · rw [hnL, delta_mint hmint]
    · rw [hnU, delta_mint hmint]
      rfl
  obtain ⟨-, htick, hprice, -⟩ := h.cells hk hF.oracle
  refine ⟨hF.fee_lt, hF.spacing_pos, hF.spacing_lt, ?_, hinv.ticks, hinv.sums, hinv.price, ?_, hinv.oracle,
    h.liquidity_lt hk hF.oracle, fun t ht => ?_, fun t ht => ?_⟩
  · rw [h.slot0_rest hk (by decide)]
    exact hF.unlocked
  · rw [hprice]
    exact hF.price_lt
  · obtain ⟨hgross, hnet⟩ := h.tick hk hF.ticks hF.oracle ht
    rw [hgross, hnet, hnL, hnU, hgL, hgU]
    have hle := hF.net_le t ht
    split_ifs with h₁ h₂
    · rw [h₁] at hle
      omega
    · rw [h₂] at hle
      omega
    · exact hle
  · obtain ⟨hgross, -⟩ := h.tick hk hF.ticks hF.oracle ht
    rw [hgross]
    split_ifs with h₁ h₂
    · exact hmU
    · exact hmL
    · exact hF.gross_le t ht

/-! ### The burn after it -/

/-- What a burn takes back of what a mint left: the contract accepts it, and it leaves gross and net as they were. -/
theorem changeTick_sub {gross maxLiquidity : Nat} {net : Int} {amount : Nat} {upper : Bool} (ha : 0 < amount)
    (hmax : gross ≤ maxLiquidity) (hnet : -2 ^ 127 ≤ net ∧ net < 2 ^ 127) :
    changeTick (gross + amount) (net + if upper then -(amount : Int) else amount) (-amount) upper maxLiquidity =
      some (gross, net) := by
  refine changeTick_eq_some.mpr ⟨?_, hmax, ?_, hnet⟩
  · rw [addDelta, if_pos (by omega), if_pos (by omega)]
    exact congrArg some (by omega)
  · split_ifs <;> omega

theorem netAt_range (F : Storage) (t : Int) : -2 ^ 127 ≤ netAt keccak F t ∧ netAt keccak F t < 2 ^ 127 := by
  unfold netAt tickNet signedField
  exact ⟨BitVec.le_toInt _, BitVec.toInt_lt⟩

theorem netAt_of_empty (hT : TicksAgree keccak pool.tickSpacing F) {t : Int} (ht : InRange t)
    (hg : grossAt keccak F t = 0) : netAt keccak F t = 0 := by
  have hzero := congrArg TickWords.word0 (hT.empty t ht hg)
  exact (congrArg tickNet hzero).trans (by decide)

section
variable {spacing : Int} {G : Storage}

/-- Where gross liquidity agrees at every tick, so do the flags … -/
theorem TicksAgree.flag_eq (hF : TicksAgree keccak spacing F) (hG : TicksAgree keccak spacing G)
    (hgross : ∀ t, InRange t → grossAt keccak G t = grossAt keccak F t) (t : Int) (ht : InRange t) :
    flagAt keccak G t = flagAt keccak F t := by
  by_cases hg : grossAt keccak F t = 0
  · have hword : ∀ {H : Storage}, tickInfo keccak H t = TickWords.zero → flagAt keccak H t = tickFlag 0 :=
      fun h => congrArg tickFlag (congrArg TickWords.word3 h)
    rw [hword (hG.empty t ht ((hgross t ht).trans hg)), hword (hF.empty t ht hg)]
  · rw [(hG.flag_iff t ht).mpr (by rwa [hgross t ht]), (hF.flag_iff t ht).mpr hg]

/-- … and the words of the bitmap. -/
theorem TicksAgree.bitmap_eq (hF : TicksAgree keccak spacing F) (hG : TicksAgree keccak spacing G)
    (hgross : ∀ t, InRange t → grossAt keccak G t = grossAt keccak F t) (w : BitVec 16) :
    G (bitmapSlot keccak w) = F (bitmapSlot keccak w) := by
  refine BitVec.eq_of_getLsbD_eq fun i hi => ?_
  have hlo := BitVec.le_toInt w
  have hhi := @BitVec.toInt_lt 16 w
  have hbit : ∀ H : Storage, bitSet keccak H (w.toInt * 256 + i) = (H (bitmapSlot keccak w)).getLsbD i := by
    intro H
    rw [bitSet, show (w.toInt * 256 + i) / 256 = w.toInt by omega, BitVec.ofInt_toInt,
      show ((w.toInt * 256 + i) % 256).toNat = i by omega]
  rw [← hbit, ← hbit, Bool.eq_iff_iff, hF.bit_iff _ (by omega) (by omega), hG.bit_iff _ (by omega) (by omega)]
  exact and_congr_right fun hr => by rw [hgross _ hr]

end

/-- The liquidity state of a pool as it was: every tick, every bitmap word and the active liquidity. -/
structure Restores (keccak : Keccak) (F G : Storage) : Prop where
  gross : ∀ t, InRange t → grossAt keccak G t = grossAt keccak F t
  net : ∀ t, InRange t → netAt keccak G t = netAt keccak F t
  flag : ∀ t, InRange t → flagAt keccak G t = flagAt keccak F t
  bitmap : ∀ w, G (bitmapSlot keccak w) = F (bitmapSlot keccak w)
  liquidity : G 4 = F 4
  /-- Every word of a tick that was not initialized. -/
  empty : ∀ t, InRange t → flagAt keccak F t ≠ 1 → tickInfo keccak G t = TickWords.zero

def DecodedLiquidity.burned (event : DecodedLiquidity) : DecodedLiquidity := { event with isMint := false }

theorem delta_burned (event : DecodedLiquidity) : (DecodedLiquidity.burned event).delta = -event.amount := rfl

section
variable {F₁ : Storage} {time' : Nat} {parent' : LiquidityParent} {l' u' : Nat × Int}
  (h : LiquidityMove keccak address pool F event F₁ time parent l u) (hk : DistinctKeys keccak)
  (hF : WellFormed keccak pool F) (hmint : event.isMint = true)
include h hk hF hmint

/-- The boundaries of the burn, whose ticks a mint has changed. -/
theorem changeTick_burned :
    changeTick (grossAt keccak F₁ event.tickLower) (netAt keccak F₁ event.tickLower) (-event.amount) false
        pool.maxLiquidityPerTick = some (grossAt keccak F event.tickLower, netAt keccak F event.tickLower) ∧
      changeTick (grossAt keccak F₁ event.tickUpper) (netAt keccak F₁ event.tickUpper) (-event.amount) true
        pool.maxLiquidityPerTick = some (grossAt keccak F event.tickUpper, netAt keccak F event.tickUpper) := by
  obtain ⟨hgL, hnL, -⟩ := changeTick_add h.amount_pos (delta_mint hmint ▸ h.changeLower)
  obtain ⟨hgU, hnU, -⟩ := changeTick_add h.amount_pos (delta_mint hmint ▸ h.changeUpper)
  obtain ⟨hgrossL, hnetL⟩ := h.tick hk hF.ticks hF.oracle h.lower.1
  obtain ⟨hgrossU, hnetU⟩ := h.tick hk hF.ticks hF.oracle h.upper.1
  rw [if_neg h.lt.ne, if_pos rfl] at hgrossL hnetL
  rw [if_pos rfl] at hgrossU hnetU
  rw [hgrossL, hnetL, hgrossU, hnetU, hgL, hnL, hgU, hnU]
  exact ⟨changeTick_sub h.amount_pos (hF.gross_le _ h.lower.1) (netAt_range F _),
    changeTick_sub h.amount_pos (hF.gross_le _ h.upper.1) (netAt_range F _)⟩

/-- The contract accepts the burn. -/
theorem changeLiquidity_burned (ht : time' < 2 ^ 32) (hamount : event.amount < 2 ^ 127) :
    ∃ F₂, changeLiquidity keccak pool F₁ (BitVec.ofNat 32 time') (DecodedLiquidity.burned event) = some F₂ := by
  have hF₁ := h.wellFormed hk hF hmint
  have hview : Holds (viewOf F₁) address F₁ := fun _ => rfl
  obtain ⟨parent', hload⟩ := loadLiquidityParent_of hview hF₁ ht
  have hp := loadLiquidityParent_spec hview hF₁.spacing_pos hF₁.oracle ht hload
  obtain ⟨hcL, hcU⟩ := changeTick_burned h hk hF hmint
  obtain ⟨-, htick, -, -, h4⟩ := h.cells hk hF.oracle
  have ha : 0 < (DecodedLiquidity.burned event).amount := h.amount_pos
  have heq := modifyPosition_eq hk hF₁.ticks hp ha h.lower.1 h.upper.1 h.lower.2 h.upper.2 h.lt address
  rw [changeLiquidity_eq, if_neg ha.ne', if_pos (show (DecodedLiquidity.burned event).amount < 2 ^ 127 from hamount), heq,
    delta_burned]
  obtain ⟨moved, hmoved⟩ : ∃ moved, movedBoundaries keccak pool F₁ parent' time' event.tickLower event.tickUpper
      (grossAt keccak F event.tickLower, netAt keccak F event.tickLower)
      (grossAt keccak F event.tickUpper, netAt keccak F event.tickUpper) = moved := ⟨_, rfl⟩
  rw [show (DecodedLiquidity.burned event).tickLower = event.tickLower from rfl,
    show (DecodedLiquidity.burned event).tickUpper = event.tickUpper from rfl, hcL, hcU]
  simp only [Option.bind_some, hmoved]
  split_ifs with hr
  · rw [htick] at hr
    rw [if_pos hr, delta_mint hmint] at h4
    have hdelta : addDelta (F₁ 4).toNat (-event.amount) = some (F 4).toNat := by
      have hpos := h.amount_pos
      rw [addDelta, if_pos (by omega), if_pos (by omega)]
      exact congrArg some (by omega)
    rw [hdelta]
    exact ⟨_, rfl⟩
  · exact ⟨_, rfl⟩

/-- A burn that moves the pool after the mint restores it. -/
theorem LiquidityMove.restores {F₂ : Storage}
    (h' : LiquidityMove keccak address pool F₁ (DecodedLiquidity.burned event) F₂ time' parent' l' u') :
    Restores keccak F F₂ := by
  have hF₁ := h.wellFormed hk hF hmint
  obtain ⟨hcL, hcU⟩ := changeTick_burned h hk hF hmint
  obtain rfl : (grossAt keccak F event.tickLower, netAt keccak F event.tickLower) = l' :=
    Option.some.inj (hcL.symm.trans h'.changeLower)
  obtain rfl : (grossAt keccak F event.tickUpper, netAt keccak F event.tickUpper) = u' :=
    Option.some.inj (hcU.symm.trans h'.changeUpper)
  have hsettled : ∀ t, InRange t → settledNet (grossAt keccak F t, netAt keccak F t) = netAt keccak F t := by
    intro t ht
    rw [settledNet]
    split_ifs with hg
    · exact (netAt_of_empty hF.ticks ht hg).symm
    · rfl
  have htick : ∀ t, InRange t → grossAt keccak F₂ t = grossAt keccak F t ∧ netAt keccak F₂ t = netAt keccak F t := by
    intro t ht
    obtain ⟨hg₁, hn₁⟩ := h.tick hk hF.ticks hF.oracle ht
    obtain ⟨hg₂, hn₂⟩ : grossAt keccak F₂ t = (if t = event.tickUpper then grossAt keccak F event.tickUpper
          else if t = event.tickLower then grossAt keccak F event.tickLower else grossAt keccak F₁ t) ∧
        netAt keccak F₂ t = (if t = event.tickUpper then settledNet (_, netAt keccak F event.tickUpper)
          else if t = event.tickLower then settledNet (_, netAt keccak F event.tickLower) else netAt keccak F₁ t) :=
      h'.tick hk hF₁.ticks hF₁.oracle ht
    rw [hsettled _ h.upper.1, hsettled _ h.lower.1] at hn₂
    rw [hg₂, hn₂]
    split_ifs with hU hL
    · exact ⟨congrArg _ hU.symm, congrArg _ hU.symm⟩
    · exact ⟨congrArg _ hL.symm, congrArg _ hL.symm⟩
    · rw [hg₁, hn₁, if_neg hU, if_neg hL, if_neg hU, if_neg hL]
      exact ⟨rfl, rfl⟩
  have hT₂ := h'.ticks hk hF₁.ticks hF₁.oracle
  have hgross := fun t ht => (htick t ht).1
  refine ⟨hgross, fun t ht => (htick t ht).2, hF.ticks.flag_eq hT₂ hgross, hF.ticks.bitmap_eq hT₂ hgross, ?_, ?_⟩
  · obtain ⟨-, htick₁, -, -, h4₁⟩ := h.cells hk hF.oracle
    obtain ⟨-, -, -, -, h4₂⟩ := h'.cells hk hF₁.oracle
    rw [htick₁, delta_burned] at h4₂
    rw [delta_mint hmint] at h4₁
    refine BitVec.eq_of_toNat_eq ?_
    simp only [DecodedLiquidity.burned] at h4₂
    split_ifs at h4₁ h4₂ <;> omega
  · intro t ht hflag
    refine hT₂.empty t ht ?_
    rw [hgross t ht]
    exact not_not.mp fun hg => hflag ((hF.ticks.flag_iff t ht).mpr hg)

end

/-- The context of a later log of the same block. -/
structure SameBlock (context context' : AdapterEventContext) : Prop where
  chainId : context'.chainId = context.chainId
  blockNumber : context'.blockNumber = context.blockNumber
  blockHash : context'.blockHash = context.blockHash
  parentHash : context'.parentHash = context.parentHash
  blockTimestamp : context'.blockTimestamp = context.blockTimestamp
  transactionHash : context'.transactionHash.isSome = true
  transactionIndex : context'.transactionIndex.isSome = true
  logIndex : context'.logIndex.isSome = true

theorem SameBlock.validateContext {context context' : AdapterEventContext} (h : SameBlock context context') {t : Nat}
    (hv : validateContext context = .ok t) : validateContext context' = .ok t := by
  unfold V3.validateContext at hv ⊢
  simp only [bind_eq_ok, ensure_eq_ok, orError_eq_ok, exists_const, pure_eq_ok] at hv ⊢
  rw [h.chainId, h.blockNumber, h.blockHash, h.parentHash, h.blockTimestamp]
  obtain ⟨hchain, hnumber, hhash, hparent, t', ht, -, -, -, hlt, heq⟩ := hv
  exact ⟨hchain, hnumber, hhash, hparent, t', ht, h.transactionHash, h.transactionIndex, h.logIndex, hlt, heq⟩

variable {state : StateView}

variable (pool) in
/-- From a well-formed pool held in full, a burn in the same block after a mint of the same range and amount is replayed
    and restores the liquidity state of the whole pool. -/
theorem replayStep_mint_burn (hk : DistinctKeys keccak) (hF : WellFormed keccak pool F) (h : Holds state address F)
    (hmint : event.isMint = true) {context context' : AdapterEventContext} (hsame : SameBlock context context')
    {minted : StateView} (hok : replayStep keccak address (.uniswap pool.tickSpacing) pool.fee state
      (.liquidity event, context) = .ok minted) :
    ∃ burned F₂, replayStep keccak address (.uniswap pool.tickSpacing) pool.fee minted
        (.liquidity (DecodedLiquidity.burned event), context') = .ok burned ∧
      Holds burned address F₂ ∧ Restores keccak F F₂ := by
  obtain ⟨transition, hmintOk, hminted⟩ := bind_eq_ok.mp hok
  obtain rfl := pure_eq_ok.mp hminted
  have hmintOk : deriveUniswapV3Liquidity keccak address (.uniswap pool.tickSpacing) state event context = .ok transition :=
    hmintOk
  obtain ⟨t, F', hcheck, hrun, hcold, haddr, -⟩ := deriveUniswapV3Liquidity_sound hk hF.ticks hF.oracle h hmintOk
  obtain ⟨hv, -, -, -, hlt, haL, haU⟩ := checkLiquidityInputs_eq_ok.mp hcheck
  rw [changeLiquidity_eq] at hrun
  rcases liquidity_moves hk hF.ticks hF.oracle h hmintOk with ⟨h0, -⟩ | ⟨time, parent, l, u, hmove⟩
  · rw [if_pos h0, hmint] at hrun
    simp at hrun
  · have hamount : event.amount < 2 ^ 127 := by
      by_contra hbig
      rw [if_neg hmove.amount_pos.ne', if_neg hbig] at hrun
      cases hrun
    have hF₁ := hmove.wellFormed hk hF hmint
    have hview := h.applyUpdates haddr
    obtain ⟨F₂, hF₂⟩ := changeLiquidity_burned hmove hk hF hmint (validateContext_lt hv) hamount
    obtain ⟨burned, hburned⟩ : ∃ burned, deriveUniswapV3Liquidity keccak address (.uniswap pool.tickSpacing)
        (state.applyUpdates transition.updates) (DecodedLiquidity.burned event) context' = .ok burned :=
      deriveUniswapV3Liquidity_complete hk hF₁ hview (hsame.validateContext hv) hlt haL haU hF₂
    obtain ⟨_, _, -, -, hcold', haddr', -⟩ := deriveUniswapV3Liquidity_sound hk hF₁.ticks hF₁.oracle hview hburned
    refine ⟨_, _, ?_, hview.applyUpdates haddr', ?_⟩
    · rw [hcold, purge_nil]
      unfold replayStep
      rw [show replay keccak address (.uniswap pool.tickSpacing) pool.fee (.liquidity (DecodedLiquidity.burned event))
        (state.applyUpdates transition.updates) context' = .ok burned from hburned, ok_bind, hcold', purge_nil]
      rfl
    · rcases liquidity_moves hk hF₁.ticks hF₁.oracle hview hburned with ⟨h0, -⟩ | ⟨time', parent', l', u', hmove'⟩
      · exact absurd h0 hmove.amount_pos.ne'
      · exact hmove.restores hk hF hmint hmove'

end

/-- A mint of a range that shares a bitmap word, and the burn after it. -/
theorem replayStep_mint_burn_at90 : ∃ burned F₂,
    replayStep tabulatedKeccak 7 (.uniswap 60) 3000 minted180 (.liquidity (DecodedLiquidity.burned ⟨120, 180, 5, true⟩),
        contextAt 1012) = .ok burned ∧
      Holds burned 7 F₂ ∧ Restores tabulatedKeccak poolAt90 F₂ :=
  replayStep_mint_burn ⟨3000, 60⟩ tabulatedKeccak_distinct poolAt90_wellFormed (fun _ => rfl) rfl
    ⟨rfl, rfl, rfl, rfl, rfl, rfl, rfl, rfl⟩ mint180_step

end AmmState.Canonical
