import AmmState.Slipstream.FeeEvidence
import AmmState.V3.Slipstream

/-! Fee and reward accounting of a Slipstream swap (`derive_slipstream_swap_inner` of `v3_transition.rs`): with evidence of
    the unstaked fee, what each step pays to the gauge and to unstaked liquidity, and what the reward reserve pays at the
    first crossing. -/

namespace AmmState.V3
open Checked

def SLIPSTREAM_FACTORY_SLOT : U256 := 0
def SLIPSTREAM_REWARD_GROWTH_SLOT : U256 := 9
def SLIPSTREAM_GAUGE_FEES_SLOT : U256 := 10
def SLIPSTREAM_REWARD_RATE_SLOT : U256 := 11
def SLIPSTREAM_REWARD_RESERVE_SLOT : U256 := 12
def SLIPSTREAM_ROLLOVER_SLOT : U256 := 14

/-- The difference of two words: nothing checks it, so it would wrap. -/
def wrappingSub (a b : Nat) : Nat := (2 ^ 256 + a - b) % 2 ^ 256

/-! ### The split of a fee -/

/-- The share of staked liquidity, rounded up. -/
def baseGaugeFee (feeAmount liquidity stakedLiquidity : Nat) : Result Nat :=
  if stakedLiquidity = 0 then pure 0 else mulDivRoundUp feeAmount stakedLiquidity liquidity

/-- What unstaked liquidity pays to the gauge on top, rounded up. -/
def unstakedLevy (unstakedBeforeLevy unstakedFee : Nat) : Result Nat :=
  mulDivRoundUp unstakedBeforeLevy unstakedFee FEE_DENOMINATOR

/-- The growth per unit of unstaked liquidity, and the gauge's part. -/
def slipstreamFeeGrowth (feeAmount liquidity stakedLiquidity unstakedFee : Nat) : Result (Nat × Nat) := do
  validateSlipstreamLiquidity liquidity stakedLiquidity
  if liquidity = 0 then return (0, 0)
  else if liquidity = stakedLiquidity then return (0, feeAmount)
  else
    let base ← baseGaugeFee feeAmount liquidity stakedLiquidity
    let unstakedBeforeLevy := wrappingSub feeAmount base
    let levy ← unstakedLevy unstakedBeforeLevy unstakedFee
    let unstakedFeeAmount := wrappingSub unstakedBeforeLevy levy
    let growth ← mulDiv unstakedFeeAmount Q128 (wrappingSub liquidity stakedLiquidity)
    return (growth, base + levy)

/-! ### Rewards -/

structure SlipstreamRewardUpdate where
  rewardGrowth : U256
  lastUpdated : Nat
  rewardReserve : Option U256
  rollover : Option U256

/-- Rewards since the last update, at most the reserve: to staked liquidity, or rolled over where there is none. -/
def updateSlipstreamRewards (address : Address) (rewardGrowth : U256) (stakedLiquidity lastUpdated timestamp : Nat)
    (state : StateView) : Result SlipstreamRewardUpdate := do
  let delta := (timestamp + 2 ^ 32 - lastUpdated) % 2 ^ 32
  if delta = 0 then return ⟨rewardGrowth, lastUpdated, none, none⟩
  else
    let reserve ← required state address SLIPSTREAM_REWARD_RESERVE_SLOT
    if reserve = 0 then return ⟨rewardGrowth, timestamp, none, none⟩
    else
      let rate ← required state address SLIPSTREAM_REWARD_RATE_SLOT
      let reward := if rate * BitVec.ofNat 256 delta ≤ reserve then rate * BitVec.ofNat 256 delta else reserve
      let remainingReserve := reserve - reward
      if stakedLiquidity = 0 then
        let rollover ← required state address SLIPSTREAM_ROLLOVER_SLOT
        return ⟨rewardGrowth, timestamp, some remainingReserve, some (rollover + reward)⟩
      else
        let growth ← mulDiv reward.toNat Q128 stakedLiquidity
        return ⟨rewardGrowth + BitVec.ofNat 256 growth, timestamp, some remainingReserve, none⟩

/-! ### Evidence -/

/-- Evidence for this very event, of the reviewed runtime that the parent state still names. -/
def validateSlipstreamEvidence (address : Address) (state : StateView) (context : AdapterEventContext) :
    Result SlipstreamSwapFeeEvidence := do
  let evidence ← orError context.slipstreamFeeEvidence (.v3Transition .missingSlipstreamFeeEvidence)
  let reviewed := Slipstream.reviewedRuntime evidence.runtimeFamily
  let invalid reason := AdapterEventError.v3Transition (.slipstreamFeeEvidence reason)
  ensure ((Slipstream.validate evidence).isOk = true) (invalid "evidence constructor validation failed")
  ensure (evidence.chainId = reviewed.chainId ∧ context.chainId = some evidence.chainId) (invalid "chain identity mismatch")
  ensure (address = reviewed.pool ∧ evidence.pool = address) (invalid "pool identity mismatch")
  ensure (evidence.factory = reviewed.factory) (invalid "factory identity mismatch")
  ensure (evidence.proxyRuntimeCodeHash = reviewed.proxyRuntimeCodeHash ∧
    evidence.implementation = reviewed.implementation ∧
    evidence.implementationRuntimeCodeHash = reviewed.implementationRuntimeCodeHash) (invalid "runtime identity mismatch")
  ensure (context.blockNumber = some evidence.blockNumber ∧ context.blockHash = some evidence.blockHash ∧
    context.parentHash = some evidence.parentHash ∧ context.blockTimestamp = some evidence.blockTimestamp ∧
    context.transactionHash = some evidence.transactionHash ∧ context.transactionIndex = some evidence.transactionIndex ∧
    context.logIndex = some evidence.logIndex) (invalid "event lineage mismatch")
  ensure (evidence.effectiveSwapFee ≤ 100000 ∧ evidence.effectiveUnstakedFee ≤ FEE_DENOMINATOR)
    (invalid "effective fee is outside deployed bounds")
  let factoryWord ← required state address SLIPSTREAM_FACTORY_SLOT
  ensure (factoryWord.setWidth 160 = evidence.factory) (invalid "parent factory storage mismatch")
  return evidence

/-! ### The accounting loop -/

/-- What the steps have accrued so far. -/
structure SlipstreamAccounts where
  feeGrowth0 : U256
  feeGrowth1 : U256
  rewardGrowth : U256
  gaugeFee : BitVec 128
  lastUpdated : Nat
  rewardsUpdated : Bool
  rewardReserve : Option U256
  rollover : Option U256
  tickUpdates : List StateUpdate

section Accounting
variable (address : Address) (unstakedFee : Nat) (zeroForOne : Bool) (now : Observation)
  (timestamp : Nat) (state : StateView)

/-- The fee of one step: growth of the input token, and the gauge's part. -/
def accrueSlipstreamFee (segment : SlipstreamSegment) (feeAmount : Nat) (accounts : SlipstreamAccounts) :
    Result SlipstreamAccounts := do
  if segment.liquidity = 0 then return accounts
  else
    let (growth, stepGaugeFee) ← slipstreamFeeGrowth feeAmount segment.liquidity segment.stakedLiquidity unstakedFee
    let accounts := if zeroForOne then { accounts with feeGrowth0 := accounts.feeGrowth0 + BitVec.ofNat 256 growth }
      else { accounts with feeGrowth1 := accounts.feeGrowth1 + BitVec.ofNat 256 growth }
    return { accounts with gaugeFee := accounts.gaugeFee + BitVec.ofNat 128 stepGaugeFee }

/-- Rewards are brought up to date once, at the first crossing. -/
def accrueSlipstreamRewards (segment : SlipstreamSegment) (accounts : SlipstreamAccounts) : Result SlipstreamAccounts := do
  if accounts.rewardsUpdated then return accounts
  else
    let update ← updateSlipstreamRewards address accounts.rewardGrowth segment.stakedLiquidity
      accounts.lastUpdated timestamp
      state
    return { accounts with
      rewardGrowth := update.rewardGrowth
      lastUpdated := update.lastUpdated
      rewardReserve := update.rewardReserve
      rollover := update.rollover
      rewardsUpdated := true }

/-- The writes of a crossing: the last four words, turned over. -/
def crossSlipstreamTick (tick : SlipstreamInitializedTick) (accounts : SlipstreamAccounts) : List StateUpdate :=
  let words := [accounts.feeGrowth0 - tick.words.getD 2 0, accounts.feeGrowth1 - tick.words.getD 3 0,
    accounts.rewardGrowth - tick.words.getD 4 0,
    crossTickWord (tick.words.getD 5 0) now.tickCumulative now.secondsPerLiquidityCumulativeX128 timestamp]
  ((tick.keys.drop 2).zip words).map fun (slot, value) => ⟨address, slot, value⟩

def accountSlipstreamStep (accounts : SlipstreamAccounts) (step : SlipstreamSegment × Nat) : Result SlipstreamAccounts := do
  let accounts ← accrueSlipstreamFee unstakedFee zeroForOne step.1 step.2 accounts
  match step.1.crossedTick with
  | some tick =>
    let accounts ← accrueSlipstreamRewards address timestamp state step.1 accounts
    return { accounts with tickUpdates := accounts.tickUpdates ++ crossSlipstreamTick address now timestamp tick accounts }
  | none => return accounts

def accountSlipstreamSteps (steps : List (SlipstreamSegment × Nat)) (accounts : SlipstreamAccounts) :
    Result SlipstreamAccounts :=
  steps.foldlM (accountSlipstreamStep address unstakedFee zeroForOne now timestamp state) accounts

end Accounting

/-! ### The derivation -/

/-- Growth words and gauge fees of the parent, which only evidence makes use of. -/
structure SlipstreamAccountWords where
  feeGrowth0 : U256
  feeGrowth1 : U256
  rewardGrowth : U256
  gaugeFees : U256

def loadSlipstreamAccountWords (address : Address) (state : StateView) : Result SlipstreamAccountWords := do
  let feeGrowth0 ← required state address SLIPSTREAM_SURFACE.feeGrowth0Slot
  let feeGrowth1 ← required state address SLIPSTREAM_SURFACE.feeGrowth1Slot
  let rewardGrowth ← required state address SLIPSTREAM_REWARD_GROWTH_SLOT
  let gaugeFees ← required state address SLIPSTREAM_GAUGE_FEES_SLOT
  return ⟨feeGrowth0, feeGrowth1, rewardGrowth, gaugeFees⟩

/-- What the replay of an event comes to before its accounting. -/
structure SlipstreamSwapTrace where
  timestamp : Nat
  evidence : Option (SlipstreamSwapFeeEvidence × SlipstreamAccountWords)
  slot0 : Slot0
  liquidityWord : U256
  stakedWord : U256
  zeroForOne : Bool
  oracle : OracleAdvance
  path : SlipstreamPath
  fee : Nat
  segments : List SlipstreamSegment
  stepFees : List Nat

def slipstreamOracle (address : Address) (slot0 : Slot0) (liquidity : Nat) (state : StateView) (timestamp : Nat)
    (tick : Int) : Result OracleAdvance :=
  if slot0.tick ≠ tick then advanceOracle address SLIPSTREAM_SURFACE slot0 liquidity state timestamp
  else .ok ⟨slot0.observationIndex, slot0.observationCardinality, none, ⟨timestamp, 0, 0, true⟩⟩

/-- A fee that is declared unused meets staked liquidity alone. -/
def checkUnusedFee (evidence : Option SlipstreamSwapFeeEvidence) (segments : List SlipstreamSegment) : Result Unit :=
  ensure (¬ (evidence.any fun evidence => evidence.unstakedFeeProof.kind = .unusedAllLiquidityStaked) = true ∨
      ∀ segment ∈ segments, segment.liquidity = segment.stakedLiquidity)
    (.v3Transition (.slipstreamFeeEvidence "unstaked fee was declared unused for mixed-liquidity swap step"))

def traceSlipstreamSwap (keccak : Keccak) (address : Address) (layout : V3StorageLayout) (swap : DecodedSwap)
    (state : StateView) (context : AdapterEventContext) : Result SlipstreamSwapTrace := do
  let timestamp ← validateReviewedSlipstreamEvent address layout context
  let evidence ← (if context.slipstreamFeeEvidence.isSome then some <$> validateSlipstreamEvidence address state context
    else pure none)
  ensure (swap.sqrtPriceX96 ≤ SLOT0_SQRT_MASK ∧ swap.liquidity ≤ WORD_128_MASK)
    (.malformedLog "Slipstream Swap final value exceeds its ABI width")
  let parent ← loadSlipstreamParent address layout state
  let liquidityWord ← required state address layout.liquiditySlot
  let stakedWord ← required state address SLIPSTREAM_STAKED_LAST_SPACING_SLOT
  let accounts ← (match evidence with
    | some evidence => (fun words => some (evidence, words)) <$> loadSlipstreamAccountWords address state
    | none => pure none)
  let zeroForOne ← checkSwapEvent parent.slot0 swap
  let oracle ← slipstreamOracle address parent.slot0 parent.liquidity state timestamp swap.tick
  let (path, segments) ← replaySlipstreamSegments keccak address layout state parent swap zeroForOne
  checkUnusedFee evidence segments
  let (fee, segments, stepFees) ← slipstreamSwapFees path segments swap zeroForOne
  return ⟨timestamp, accounts, parent.slot0, liquidityWord, stakedWord, zeroForOne, oracle, path, fee, segments, stepFees⟩

section Updates
variable (address : Address) (layout : V3StorageLayout) (swap : DecodedSwap) (trace : SlipstreamSwapTrace)

def slipstreamFinalSlot0 : U256 :=
  trace.slot0.encodeFinal swap.sqrtPriceX96 swap.tick trace.oracle.observationIndex trace.oracle.observationCardinality

def slipstreamFinalLiquidity : U256 := Packed.set trace.liquidityWord 0 (BitVec.ofNat 128 trace.path.liquidity)

/-- Without evidence: what later quotes read, and no accounting. -/
def slipstreamQuoteUpdates : List StateUpdate :=
  [⟨address, layout.slot0Slot, slipstreamFinalSlot0 swap trace⟩,
    ⟨address, SLIPSTREAM_STAKED_LAST_SPACING_SLOT,
      Packed.set trace.stakedWord 0 (BitVec.ofNat 128 trace.path.stakedLiquidity)⟩,
    ⟨address, layout.liquiditySlot, slipstreamFinalLiquidity trace⟩] ++
  trace.oracle.write.toList.map fun (slot, value) => ⟨address, slot, value⟩

/-- The accounts before the first step. -/
def startAccounts (words : SlipstreamAccountWords) : SlipstreamAccounts where
  feeGrowth0 := words.feeGrowth0
  feeGrowth1 := words.feeGrowth1
  rewardGrowth := words.rewardGrowth
  gaugeFee := 0
  lastUpdated := field trace.stakedWord 128 32
  rewardsUpdated := false
  rewardReserve := none
  rollover := none
  tickUpdates := []

/-- Gauge fees with those of the swap added to the half of its input token. -/
def slipstreamGaugeFees (gaugeFees : U256) (gaugeFee : BitVec 128) : U256 :=
  if trace.zeroForOne then Packed.set gaugeFees 0 (Packed.get gaugeFees 0 128 + gaugeFee)
  else Packed.set gaugeFees 128 (Packed.get gaugeFees 128 128 + gaugeFee)

def slipstreamFullUpdates (words : SlipstreamAccountWords) (accounts : SlipstreamAccounts) : List StateUpdate :=
  let stakedWord := Packed.set (Packed.set trace.stakedWord 0 (BitVec.ofNat 128 trace.path.stakedLiquidity)) 128
    (BitVec.ofNat 32 accounts.lastUpdated)
  [⟨address, layout.slot0Slot, slipstreamFinalSlot0 swap trace⟩,
    if trace.zeroForOne then ⟨address, SLIPSTREAM_SURFACE.feeGrowth0Slot, accounts.feeGrowth0⟩
      else ⟨address, SLIPSTREAM_SURFACE.feeGrowth1Slot, accounts.feeGrowth1⟩,
    ⟨address, SLIPSTREAM_GAUGE_FEES_SLOT, slipstreamGaugeFees trace words.gaugeFees accounts.gaugeFee⟩,
    ⟨address, SLIPSTREAM_STAKED_LAST_SPACING_SLOT, stakedWord⟩,
    ⟨address, layout.liquiditySlot, slipstreamFinalLiquidity trace⟩] ++
  (if accounts.rewardsUpdated then [⟨address, SLIPSTREAM_REWARD_GROWTH_SLOT, accounts.rewardGrowth⟩] else []) ++
  accounts.rewardReserve.toList.map (fun value => ⟨address, SLIPSTREAM_REWARD_RESERVE_SLOT, value⟩) ++
  accounts.rollover.toList.map (fun value => ⟨address, SLIPSTREAM_ROLLOVER_SLOT, value⟩) ++
  trace.oracle.write.toList.map (fun (slot, value) => ⟨address, slot, value⟩) ++ accounts.tickUpdates

end Updates

/-- The storage after the event, and its fee. -/
def deriveSlipstreamSwapInner (keccak : Keccak) (address : Address) (layout : V3StorageLayout) (swap : DecodedSwap)
    (state : StateView) (context : AdapterEventContext) : Result (List StateUpdate × Nat) := do
  let trace ← traceSlipstreamSwap keccak address layout swap state context
  match trace.evidence with
  | none => return (slipstreamQuoteUpdates address layout swap trace, trace.fee)
  | some (evidence, words) =>
    let accounts ← accountSlipstreamSteps address evidence.effectiveUnstakedFee trace.zeroForOne trace.oracle.now
      trace.timestamp state (trace.segments.zip trace.stepFees) (startAccounts trace words)
    return (slipstreamFullUpdates address layout swap trace words accounts, trace.fee)

/-- `derive_slipstream_swap`: the fee that evidence claims must be the one that the event implies. -/
def deriveSlipstreamSwap (keccak : Keccak) (address : Address) (layout : V3StorageLayout) (swap : DecodedSwap)
    (state : StateView) (context : AdapterEventContext) : Result (List StateUpdate) := do
  let (updates, inferredFee) ← deriveSlipstreamSwapInner keccak address layout swap state context
  ensure (context.slipstreamFeeEvidence.all (·.effectiveSwapFee = inferredFee) = true)
    (.v3Transition (.slipstreamFeeEvidence "effective swap fee does not match unique event-derived fee"))
  return updates

/-- `infer_slipstream_swap_fee` -/
def inferSlipstreamSwapFee (keccak : Keccak) (address : Address) (layout : V3StorageLayout) (swap : DecodedSwap)
    (state : StateView) (context : AdapterEventContext) : Result Nat :=
  Prod.snd <$> deriveSlipstreamSwapInner keccak address layout swap state context

end AmmState.V3
