import AmmState.Slipstream.Tabulated
import AmmState.Theorems.V3.Cells
import AmmState.Theorems.V3.SlipstreamPath
import AmmState.V3.SlipstreamAccounting

/-! Slipstream accounting conserves fees and rewards: the steps of a swap pay what its input exceeds the principal by, each
    step's fee covers its gauge fee and what it credits to unstaked liquidity, and the reward reserve pays exactly what goes
    to reward growth or is rolled over. -/

namespace AmmState.V3
open Checked Canonical

/-! ### The split of a fee -/

theorem wrappingSub_of_le {a b : Nat} (hle : b ≤ a) (hlt : a < 2 ^ 256) : wrappingSub a b = a - b := by
  rw [wrappingSub, Nat.add_sub_assoc hle, Nat.add_mod_left, Nat.mod_eq_of_lt (by omega)]

/-- A share of at most the whole is at most the amount, although it is rounded up. -/
theorem mulDivRoundUp_le {a b d r : Nat} (hle : b ≤ d) (hok : mulDivRoundUp a b d = .ok r) : r ≤ a := by
  obtain ⟨hd, rfl, -⟩ := div512_eq_ok.mp hok
  rw [if_pos rfl, ceilDiv_le_iff_le_mul hd, Nat.mul_comm d a]
  exact Nat.mul_le_mul_left a hle

theorem baseGaugeFee_le {fee liquidity staked base : Nat} (hle : staked ≤ liquidity)
    (hok : baseGaugeFee fee liquidity staked = .ok base) : base ≤ fee := by
  unfold baseGaugeFee at hok
  split_ifs at hok
  · obtain rfl := pure_eq_ok.mp hok
    exact Nat.zero_le fee
  · exact mulDivRoundUp_le hle hok

/-- A step's fee covers the gauge's part and the amount credited to unstaked liquidity, and no difference wraps. -/
structure SplitsFee (unstakedFee : Nat) (step : SlipstreamSegment × Nat) (share : Nat × Nat) : Prop where
  staked_le : step.1.liquidity ≠ 0 → step.1.stakedLiquidity ≤ step.1.liquidity
  base_le : ∀ base, baseGaugeFee step.2 step.1.liquidity step.1.stakedLiquidity = .ok base → base ≤ step.2
  levy_le : ∀ base levy, baseGaugeFee step.2 step.1.liquidity step.1.stakedLiquidity = .ok base →
    unstakedLevy (step.2 - base) unstakedFee = .ok levy → levy ≤ step.2 - base
  credited : ∃ credited, share.2 + credited ≤ step.2 ∧ (step.1.liquidity ≠ 0 → share.2 + credited = step.2) ∧
    share.1 = credited * Q128 / (step.1.liquidity - step.1.stakedLiquidity)

theorem SplitsFee.of_staked_le {unstakedFee fee : Nat} {segment : SlipstreamSegment} {share : Nat × Nat}
    (hunstaked : unstakedFee ≤ FEE_DENOMINATOR) (hle : segment.liquidity ≠ 0 → segment.stakedLiquidity ≤ segment.liquidity)
    (hcredited : ∃ credited, share.2 + credited ≤ fee ∧ (segment.liquidity ≠ 0 → share.2 + credited = fee) ∧
      share.1 = credited * Q128 / (segment.liquidity - segment.stakedLiquidity)) :
    SplitsFee unstakedFee (segment, fee) share where
  staked_le := hle
  base_le base hbase := by
    by_cases hzero : segment.liquidity = 0
    · unfold baseGaugeFee at hbase
      split_ifs at hbase
      · obtain rfl := pure_eq_ok.mp hbase
        exact Nat.zero_le fee
      · exact absurd hzero (Nat.ne_of_gt (div512_eq_ok.mp hbase).1)
    · exact baseGaugeFee_le (hle hzero) hbase
  levy_le base levy _ hlevy := mulDivRoundUp_le hunstaked hlevy
  credited := hcredited

theorem slipstreamFeeGrowth_splits {unstakedFee fee : Nat} {segment : SlipstreamSegment} {share : Nat × Nat}
    (hfee : fee < 2 ^ 256) (hliquidity : segment.liquidity < 2 ^ 256) (hunstaked : unstakedFee ≤ FEE_DENOMINATOR)
    (hok : slipstreamFeeGrowth fee segment.liquidity segment.stakedLiquidity unstakedFee = .ok share) :
    SplitsFee unstakedFee (segment, fee) share := by
  obtain ⟨_, hle, hok⟩ := bind_eq_ok.mp hok
  have hle : segment.stakedLiquidity ≤ segment.liquidity := ensure_eq_ok.mp hle
  refine .of_staked_le hunstaked (fun _ => hle) ?_
  split_ifs at hok with hzero hall
  · obtain rfl := pure_eq_ok.mp hok
    exact ⟨0, Nat.zero_le fee, fun hne => absurd hzero hne, by simp⟩
  · obtain rfl := pure_eq_ok.mp hok
    exact ⟨0, le_rfl, fun _ => rfl, by simp⟩
  · obtain ⟨base, hbase, hok⟩ := bind_eq_ok.mp hok
    have hbaseLe := baseGaugeFee_le hle hbase
    rw [wrappingSub_of_le hbaseLe hfee, wrappingSub_of_le hle hliquidity] at hok
    obtain ⟨levy, hlevy, hok⟩ := bind_eq_ok.mp hok
    have hlevyLe : levy ≤ fee - base := mulDivRoundUp_le hunstaked hlevy
    rw [wrappingSub_of_le hlevyLe (by omega)] at hok
    obtain ⟨growth, hgrowth, hok⟩ := bind_eq_ok.mp hok
    obtain rfl := pure_eq_ok.mp hok
    obtain ⟨-, hgrowth, -⟩ := div512_eq_ok.mp hgrowth
    have hsum : base + levy + (fee - base - levy) = fee := by omega
    exact ⟨fee - base - levy, hsum.le, fun _ => hsum, hgrowth⟩

/-! ### Rewards -/

/-- Nothing is taken from the reserve. -/
def KeepsRewards (before growth : U256) (reserveWrite rolloverWrite : Option U256) : Prop :=
  reserveWrite = none ∧ rolloverWrite = none ∧ growth = before

/-- A reward of at most the reserve is taken from it: it is rolled over where nothing is staked, and goes to growth
    elsewhere. -/
def PaysRewards (address : Address) (state : StateView) (staked : Nat) (before growth : U256)
    (reserveWrite rolloverWrite : Option U256) : Prop :=
  ∃ reserve reward : U256, state.storage address SLIPSTREAM_REWARD_RESERVE_SLOT = some reserve ∧
    reward.toNat ≤ reserve.toNat ∧ reserveWrite = some (reserve - reward) ∧
    ((staked = 0 ∧ growth = before ∧ ∃ rollover, state.storage address SLIPSTREAM_ROLLOVER_SLOT = some rollover ∧
        rolloverWrite = some (rollover + reward)) ∨
      (0 < staked ∧ rolloverWrite = none ∧ growth = before + BitVec.ofNat 256 (reward.toNat * Q128 / staked)))

theorem updateSlipstreamRewards_pays {address : Address} {growth : U256} {staked lastUpdated timestamp : Nat}
    {state : StateView} {update : SlipstreamRewardUpdate}
    (hok : updateSlipstreamRewards address growth staked lastUpdated timestamp state = .ok update) :
    KeepsRewards growth update.rewardGrowth update.rewardReserve update.rollover ∨
      PaysRewards address state staked growth update.rewardGrowth update.rewardReserve update.rollover := by
  unfold updateSlipstreamRewards at hok
  dsimp only at hok
  set delta := (timestamp + 2 ^ 32 - lastUpdated) % 2 ^ 32 with hdeltaEq
  by_cases hdelta : delta = 0
  · rw [if_pos hdelta] at hok
    obtain rfl := pure_eq_ok.mp hok
    exact .inl ⟨rfl, rfl, rfl⟩
  rw [if_neg hdelta] at hok
  obtain ⟨reserve, hreserve, hok⟩ := bind_eq_ok.mp hok
  by_cases hempty : reserve = 0
  · rw [if_pos hempty] at hok
    obtain rfl := pure_eq_ok.mp hok
    exact .inl ⟨rfl, rfl, rfl⟩
  rw [if_neg hempty] at hok
  obtain ⟨rate, -, hok⟩ := bind_eq_ok.mp hok
  set reward := if rate * BitVec.ofNat 256 delta ≤ reserve then rate * BitVec.ofNat 256 delta else reserve with hreward
  have hle : reward.toNat ≤ reserve.toNat := by
    rw [hreward]
    split_ifs with h
    · exact h
    · exact le_rfl
  refine .inr ⟨reserve, reward, orError_eq_ok.mp hreserve, hle, ?_⟩
  split_ifs at hok with hstaked
  · obtain ⟨rollover, hrollover, hok⟩ := bind_eq_ok.mp hok
    obtain rfl := pure_eq_ok.mp hok
    exact ⟨rfl, .inl ⟨hstaked, rfl, rollover, orError_eq_ok.mp hrollover, rfl⟩⟩
  · obtain ⟨paid, hpaid, hok⟩ := bind_eq_ok.mp hok
    obtain rfl := pure_eq_ok.mp hok
    obtain ⟨hpos, rfl, -⟩ := div512_eq_ok.mp hpaid
    exact ⟨rfl, .inr ⟨hpos, rfl, rfl⟩⟩

/-! ### The accounting loop -/

namespace SlipstreamAccounts

/-- Fee growth of the input token. -/
def growthIn (zeroForOne : Bool) (accounts : SlipstreamAccounts) : U256 :=
  if zeroForOne then accounts.feeGrowth0 else accounts.feeGrowth1

end SlipstreamAccounts

section Loop
variable {address : Address} {unstakedFee timestamp : Nat} {zeroForOne : Bool} {now : Observation} {state : StateView}
  {start accounts accounts' : SlipstreamAccounts} {steps : List (SlipstreamSegment × Nat)} {step : SlipstreamSegment × Nat}

/-- The gauge and the growth word have what the steps' shares sum to. -/
structure AccruesFees (unstakedFee : Nat) (zeroForOne : Bool) (start : SlipstreamAccounts)
    (steps : List (SlipstreamSegment × Nat)) (accounts : SlipstreamAccounts) (shares : List (Nat × Nat)) : Prop where
  splits : List.Forall₂ (SplitsFee unstakedFee) steps shares
  growth : accounts.growthIn zeroForOne = start.growthIn zeroForOne + BitVec.ofNat 256 (shares.map Prod.fst).sum
  gauge : accounts.gaugeFee = start.gaugeFee + BitVec.ofNat 128 (shares.map Prod.snd).sum

theorem AccruesFees.congr {shares : List (Nat × Nat)} (h : AccruesFees unstakedFee zeroForOne start steps accounts shares)
    (hgrowth : accounts'.growthIn zeroForOne = accounts.growthIn zeroForOne)
    (hgauge : accounts'.gaugeFee = accounts.gaugeFee) : AccruesFees unstakedFee zeroForOne start steps accounts' shares :=
  ⟨h.splits, hgrowth.trans h.growth, hgauge.trans h.gauge⟩

theorem AccruesFees.append {shares : List (Nat × Nat)} {share : Nat × Nat}
    (h : AccruesFees unstakedFee zeroForOne start steps accounts shares) (hstep : SplitsFee unstakedFee step share)
    (hgrowth : accounts'.growthIn zeroForOne = accounts.growthIn zeroForOne + BitVec.ofNat 256 share.1)
    (hgauge : accounts'.gaugeFee = accounts.gaugeFee + BitVec.ofNat 128 share.2) :
    AccruesFees unstakedFee zeroForOne start (steps ++ [step]) accounts' (shares ++ [share]) := by
  refine ⟨List.rel_append h.splits (.cons hstep .nil), ?_, ?_⟩
  · rw [hgrowth, h.growth, List.map_append, List.sum_append, BitVec.ofNat_add, BitVec.add_assoc]
    simp
  · rw [hgauge, h.gauge, List.map_append, List.sum_append, BitVec.ofNat_add, BitVec.add_assoc]
    simp

theorem accrueSlipstreamFee_splits (hfee : step.2 < 2 ^ 256) (hliquidity : step.1.liquidity < 2 ^ 256)
    (hunstaked : unstakedFee ≤ FEE_DENOMINATOR)
    (hok : accrueSlipstreamFee unstakedFee zeroForOne step.1 step.2 accounts = .ok accounts') :
    ∃ share, SplitsFee unstakedFee step share ∧
      accounts'.growthIn zeroForOne = accounts.growthIn zeroForOne + BitVec.ofNat 256 share.1 ∧
      accounts'.gaugeFee = accounts.gaugeFee + BitVec.ofNat 128 share.2 ∧
      accounts'.rewardGrowth = accounts.rewardGrowth ∧ accounts'.rewardsUpdated = accounts.rewardsUpdated ∧
      accounts'.rewardReserve = accounts.rewardReserve ∧ accounts'.rollover = accounts.rollover ∧
      accounts'.tickUpdates = accounts.tickUpdates := by
  unfold accrueSlipstreamFee at hok
  by_cases hzero : step.1.liquidity = 0
  · rw [if_pos hzero] at hok
    obtain rfl := pure_eq_ok.mp hok
    refine ⟨(0, 0), .of_staked_le hunstaked (fun hne => absurd hzero hne)
      ⟨0, Nat.zero_le _, fun hne => absurd hzero hne, ?_⟩, ?_, ?_, rfl, rfl, rfl, rfl, rfl⟩
    · simp
    · simp
    · simp
  · rw [if_neg hzero] at hok
    obtain ⟨share, hshare, hok⟩ := bind_eq_ok.mp hok
    have hsplits := slipstreamFeeGrowth_splits hfee hliquidity hunstaked hshare
    obtain rfl := pure_eq_ok.mp hok
    refine ⟨share, hsplits, ?_⟩
    cases zeroForOne with
    | true => exact ⟨rfl, rfl, rfl, rfl, rfl, rfl, rfl⟩
    | false => exact ⟨rfl, rfl, rfl, rfl, rfl, rfl, rfl⟩

/-- Rewards are paid at most once, at one of the steps. -/
structure AccruesRewards (address : Address) (state : StateView) (start : SlipstreamAccounts)
    (steps : List (SlipstreamSegment × Nat)) (accounts : SlipstreamAccounts) : Prop where
  pays : KeepsRewards start.rewardGrowth accounts.rewardGrowth accounts.rewardReserve accounts.rollover ∨
    ∃ step ∈ steps, PaysRewards address state step.1.stakedLiquidity start.rewardGrowth accounts.rewardGrowth
      accounts.rewardReserve accounts.rollover
  unpaid : accounts.rewardsUpdated = false →
    KeepsRewards start.rewardGrowth accounts.rewardGrowth accounts.rewardReserve accounts.rollover

theorem AccruesRewards.congr (h : AccruesRewards address state start steps accounts)
    (hgrowth : accounts'.rewardGrowth = accounts.rewardGrowth)
    (hupdated : accounts'.rewardsUpdated = accounts.rewardsUpdated)
    (hreserve : accounts'.rewardReserve = accounts.rewardReserve) (hrollover : accounts'.rollover = accounts.rollover) :
    AccruesRewards address state start steps accounts' := by
  refine ⟨?_, fun hfalse => ?_⟩
  · rw [hgrowth, hreserve, hrollover]
    exact h.pays
  · rw [hgrowth, hreserve, hrollover]
    exact h.unpaid (hupdated ▸ hfalse)

theorem AccruesRewards.append (h : AccruesRewards address state start steps accounts) (step : SlipstreamSegment × Nat) :
    AccruesRewards address state start (steps ++ [step]) accounts :=
  ⟨h.pays.imp_right fun ⟨s, hs, hpays⟩ => ⟨s, List.mem_append_left _ hs, hpays⟩, h.unpaid⟩

theorem accrueSlipstreamRewards_pays (zeroForOne : Bool) (h : AccruesRewards address state start steps accounts)
    (hmem : step ∈ steps) (hok : accrueSlipstreamRewards address timestamp state step.1 accounts = .ok accounts') :
    AccruesRewards address state start steps accounts' ∧ accounts'.growthIn zeroForOne = accounts.growthIn zeroForOne ∧
      accounts'.gaugeFee = accounts.gaugeFee ∧ accounts'.tickUpdates = accounts.tickUpdates := by
  unfold accrueSlipstreamRewards at hok
  cases hupdated : accounts.rewardsUpdated with
  | true =>
    rw [if_pos hupdated] at hok
    obtain rfl := pure_eq_ok.mp hok
    exact ⟨h, rfl, rfl, rfl⟩
  | false =>
    rw [if_neg (by simp [hupdated])] at hok
    obtain ⟨update, hupdate, hok⟩ := bind_eq_ok.mp hok
    have hpays := updateSlipstreamRewards_pays hupdate
    rw [(h.unpaid hupdated).2.2] at hpays
    obtain rfl := pure_eq_ok.mp hok
    exact ⟨⟨hpays.imp_right fun hpays => ⟨step, hmem, hpays⟩, nofun⟩, rfl, rfl, rfl⟩

/-- The accounts after some steps: fees, rewards, and writes to crossed ticks alone. -/
structure Accrued (address : Address) (unstakedFee : Nat) (zeroForOne : Bool) (state : StateView)
    (start : SlipstreamAccounts) (steps : List (SlipstreamSegment × Nat)) (accounts : SlipstreamAccounts) : Prop where
  fees : ∃ shares, AccruesFees unstakedFee zeroForOne start steps accounts shares
  rewards : AccruesRewards address state start steps accounts
  ticks : ∀ u ∈ accounts.tickUpdates, ∃ step ∈ steps, ∃ tick ∈ step.1.crossedTick, u.slot ∈ tick.keys

theorem mem_crossSlipstreamTick {tick : SlipstreamInitializedTick} {u : StateUpdate}
    (h : u ∈ crossSlipstreamTick address now timestamp tick accounts) : u.slot ∈ tick.keys := by
  obtain ⟨⟨slot, value⟩, hmem, rfl⟩ := List.mem_map.mp h
  exact List.mem_of_mem_drop (List.of_mem_zip hmem).1

theorem accountSlipstreamStep_accrued (hfee : step.2 < 2 ^ 256) (hliquidity : step.1.liquidity < 2 ^ 256)
    (hunstaked : unstakedFee ≤ FEE_DENOMINATOR) (h : Accrued address unstakedFee zeroForOne state start steps accounts)
    (hok : accountSlipstreamStep address unstakedFee zeroForOne now timestamp state accounts step = .ok accounts') :
    Accrued address unstakedFee zeroForOne state start (steps ++ [step]) accounts' := by
  obtain ⟨charged, hcharged, hok⟩ := bind_eq_ok.mp hok
  obtain ⟨shares, hshares⟩ := h.fees
  obtain ⟨share, hsplits, hgrowth, hgauge, hreward, hupdated, hreserve, hrollover, hticks⟩ :=
    accrueSlipstreamFee_splits hfee hliquidity hunstaked hcharged
  have hfees := hshares.append hsplits hgrowth hgauge
  have hrewards := (h.rewards.append step).congr hreward hupdated hreserve hrollover
  have hkept : ∀ u ∈ charged.tickUpdates, ∃ s ∈ steps ++ [step], ∃ tick ∈ s.1.crossedTick, u.slot ∈ tick.keys := by
    intro u hu
    obtain ⟨s, hs, hslot⟩ := h.ticks u (hticks ▸ hu)
    exact ⟨s, List.mem_append_left _ hs, hslot⟩
  cases hcross : step.1.crossedTick with
  | none =>
    rw [hcross] at hok
    obtain rfl := pure_eq_ok.mp hok
    exact ⟨⟨_, hfees⟩, hrewards, hkept⟩
  | some tick =>
    rw [hcross] at hok
    obtain ⟨paid, hpaid, hok⟩ := bind_eq_ok.mp hok
    obtain rfl := pure_eq_ok.mp hok
    obtain ⟨hpays, hgrowth', hgauge', hticks'⟩ :=
      accrueSlipstreamRewards_pays zeroForOne hrewards (List.mem_append_right _ List.mem_cons_self) hpaid
    refine ⟨⟨_, hfees.congr hgrowth' hgauge'⟩, hpays.congr rfl rfl rfl rfl, fun u hu => ?_⟩
    rcases List.mem_append.mp hu with hu | hu
    · exact hkept u (hticks' ▸ hu)
    · exact ⟨step, List.mem_append_right _ List.mem_cons_self, tick, hcross, mem_crossSlipstreamTick hu⟩

theorem accountSlipstreamSteps_accrued (hfees : ∀ step ∈ steps, step.2 < 2 ^ 256)
    (hliquidity : ∀ step ∈ steps, step.1.liquidity < 2 ^ 256) (hunstaked : unstakedFee ≤ FEE_DENOMINATOR)
    (hreserve : start.rewardReserve = none) (hrollover : start.rollover = none)
    (hticks : start.tickUpdates = [])
    (hok : accountSlipstreamSteps address unstakedFee zeroForOne now timestamp state steps start = .ok accounts) :
    Accrued address unstakedFee zeroForOne state start steps accounts := by
  refine foldlM_induct (Accrued address unstakedFee zeroForOne state start) hok ?_ ?_
  · refine ⟨⟨[], .nil, by simp, by simp⟩, ⟨.inl ⟨hreserve, hrollover, rfl⟩, fun _ => ⟨hreserve, hrollover, rfl⟩⟩, ?_⟩
    rw [hticks]
    nofun
  · intro done step accounts accounts' hmem hdone hstep
    exact accountSlipstreamStep_accrued (hfees step hmem) (hliquidity step hmem) hunstaked hdone hstep

end Loop

/-! ### The fee of the event -/

theorem checkedSum_eq_ok {values : List Nat} {r : Nat} (hok : checkedSum values = .ok r) : r = values.sum := by
  refine foldlM_induct (fun done sum => sum = done.sum) hok rfl ?_
  rintro done value sum sum' - rfl hok
  obtain ⟨_, -, hok⟩ := bind_eq_ok.mp hok
  obtain rfl := pure_eq_ok.mp hok
  simp

theorem feeForFullStep_lt {amountIn fee r : Nat} (hok : feeForFullStep amountIn fee = .ok r) : r < 2 ^ 256 :=
  (div512_eq_ok.mp hok).2.2

/-- A fee that the final step accepts is that of a full move, or fits a word together with the input. -/
theorem validFinalStepFee_lt {sqrtStart sqrtEnd liquidity amountIn feeAmount fee : Nat} {zeroForOne : Bool}
    (hok : validFinalStepFee sqrtStart sqrtEnd liquidity amountIn feeAmount fee zeroForOne = .ok true) :
    feeAmount < 2 ^ 256 := by
  obtain ⟨full, hfull, hok⟩ := bind_eq_ok.mp hok
  split_ifs at hok with hless hfull'
  · exact absurd (pure_eq_ok.mp hok) Bool.false_ne_true
  · rw [hfull']
    exact feeForFullStep_lt hfull
  · obtain ⟨gross, hgross, -⟩ := bind_eq_ok.mp hok
    obtain ⟨_, hlt, -⟩ := bind_eq_ok.mp hgross
    exact Nat.lt_of_le_of_lt (Nat.le_add_left _ _) (ensure_eq_ok.mp hlt)

theorem slipstreamStepFee_lt {fee remaining r : Nat} {zeroForOne capped isLast : Bool} {segment : SlipstreamSegment}
    (hok : slipstreamStepFee fee zeroForOne capped segment isLast remaining = .ok r) : r < 2 ^ 256 := by
  have htail : (validFinalStepFee segment.sqrtStart segment.sqrtEnd segment.liquidity segment.amountIn remaining fee
      zeroForOne >>= fun valid => ensure (valid = true)
        (contradiction "final-step fee does not match exact-input or exact-output semantics") >>= fun _ =>
      pure remaining) = .ok r → r < 2 ^ 256 := by
    intro hok
    obtain ⟨valid, hvalid, hok⟩ := bind_eq_ok.mp hok
    obtain ⟨_, htrue, hok⟩ := bind_eq_ok.mp hok
    obtain rfl := pure_eq_ok.mp hok
    obtain rfl := ensure_eq_ok.mp htrue
    exact validFinalStepFee_lt hvalid
  rw [slipstreamStepFee] at hok
  split_ifs at hok
  · obtain ⟨full, -, hok⟩ := bind_eq_ok.mp hok
    obtain ⟨_, -, hok⟩ := bind_eq_ok.mp hok
    exact htail hok
  · exact htail hok
  · exact feeForFullStep_lt hok

/-- The steps pay what they take from the total. -/
theorem allocateSteps_sum {fee total rest : Nat} {zeroForOne capped : Bool} {segments : List SlipstreamSegment}
    {fees : List Nat} (hok : allocateSteps fee zeroForOne capped segments total = .ok (fees, rest)) :
    fees.length = segments.length ∧ fees.sum + rest = total ∧ ∀ r ∈ fees, r < 2 ^ 256 := by
  induction segments generalizing total fees with
  | nil =>
    obtain ⟨rfl, rfl⟩ := Prod.mk.inj (pure_eq_ok.mp hok)
    exact ⟨rfl, Nat.zero_add _, nofun⟩
  | cons segment segments ih =>
    obtain ⟨amount, hamount, hok⟩ := bind_eq_ok.mp hok
    obtain ⟨left, hleft, hok⟩ := bind_eq_ok.mp hok
    obtain ⟨_, hle, hleft⟩ := bind_eq_ok.mp hleft
    have hle := ensure_eq_ok.mp hle
    obtain rfl := pure_eq_ok.mp hleft
    obtain ⟨⟨others, rest'⟩, hothers, hok⟩ := bind_eq_ok.mp hok
    obtain ⟨rfl, rfl⟩ := Prod.mk.inj (pure_eq_ok.mp hok)
    obtain ⟨hlength, hsum, hlt⟩ := ih hothers
    refine ⟨congrArg Nat.succ hlength, ?_, ?_⟩
    · rw [List.sum_cons]
      omega
    · intro r hr
      rcases List.mem_cons.mp hr with rfl | hr
      · exact slipstreamStepFee_lt hamount
      · exact hlt r hr

theorem residualSlipstreamSegments_eq {path : SlipstreamPath} {segments paid : List SlipstreamSegment} {total fee : Nat}
    {zeroForOne capped : Bool} (hok : residualSlipstreamSegments path segments total fee zeroForOne capped = .ok paid) :
    paid = segments ∨ paid = segments ++ [emptySlipstreamSegment path.sqrt path.liquidity path.stakedLiquidity] := by
  unfold residualSlipstreamSegments at hok
  split_ifs at hok with hboundary
  · obtain ⟨full, -, hok⟩ := bind_eq_ok.mp hok
    split_ifs at hok
    · obtain ⟨valid, -, hok⟩ := bind_eq_ok.mp hok
      obtain rfl := pure_eq_ok.mp hok
      split_ifs
      · exact .inr rfl
      · exact .inl rfl
    · exact .inl (pure_eq_ok.mp hok).symm
  · exact .inl (pure_eq_ok.mp hok).symm

/-- The step fees and the principal are the event's input. -/
theorem slipstreamSwapFees_sum {path : SlipstreamPath} {segments paid : List SlipstreamSegment} {swap : DecodedSwap}
    {zeroForOne : Bool} {fee : Nat} {fees : List Nat}
    (hok : slipstreamSwapFees path segments swap zeroForOne = .ok (fee, paid, fees)) :
    (paid = segments ∨ paid = segments ++ [emptySlipstreamSegment path.sqrt path.liquidity path.stakedLiquidity]) ∧
      fees.length = paid.length ∧ (∀ r ∈ fees, r < 2 ^ 256) ∧
      fees.sum + (paid.map (·.amountIn)).sum = swap.input zeroForOne := by
  obtain ⟨principal, hprincipal, hok⟩ := bind_eq_ok.mp hok
  obtain rfl := checkedSum_eq_ok hprincipal
  obtain ⟨_, -, hok⟩ := bind_eq_ok.mp hok
  obtain ⟨capped, -, hok⟩ := bind_eq_ok.mp hok
  obtain ⟨total, htotal, hok⟩ := bind_eq_ok.mp hok
  obtain ⟨_, hle, htotal⟩ := bind_eq_ok.mp htotal
  have hle := ensure_eq_ok.mp hle
  obtain rfl := pure_eq_ok.mp htotal
  obtain ⟨_, -, hok⟩ := bind_eq_ok.mp hok
  obtain ⟨_, -, hok⟩ := bind_eq_ok.mp hok
  obtain ⟨⟨paid', fees'⟩, hallocated, hok⟩ := bind_eq_ok.mp hok
  cases pure_eq_ok.mp hok
  obtain ⟨residual, hresidual, hok⟩ := bind_eq_ok.mp hallocated
  obtain ⟨⟨fees', rest⟩, hsteps, hok⟩ := bind_eq_ok.mp hok
  obtain ⟨_, hrest, hok⟩ := bind_eq_ok.mp hok
  obtain rfl := ensure_eq_ok.mp hrest
  cases pure_eq_ok.mp hok
  obtain ⟨hlength, hsum, hlt⟩ := allocateSteps_sum hsteps
  have hpaid := residualSlipstreamSegments_eq hresidual
  refine ⟨hpaid, hlength, hlt, ?_⟩
  have hprincipal : (paid.map (·.amountIn)).sum = (segments.map (·.amountIn)).sum := by
    rcases hpaid with rfl | rfl
    · rfl
    · simp [emptySlipstreamSegment]
  omega

/-! ### Crossed ticks -/

section Crossings
variable {keccak : Keccak} {address : Address} {layout : V3StorageLayout} {state : StateView} {swap : DecodedSwap}
  {zeroForOne : Bool} {start path path' : SlipstreamPath}

/-- What the start and every step keep holds of the path. -/
theorem replaySlipstreamPath_induct {P : SlipstreamPath → Prop} (hstart : P start)
    (henter : ∀ path', enterSlipstreamBoundary keccak address layout state start = .ok path' → P path')
    (hstep : ∀ path path', P path → slipstreamStep keccak address layout state swap zeroForOne path = .ok path' → P path')
    (hok : replaySlipstreamPath keccak address layout state swap zeroForOne start = .ok path) : P path := by
  have hwalk : ∀ steps path path', P path →
      slipstreamWalk keccak address layout state swap zeroForOne steps path = .ok path' → P path' := by
    intro steps
    induction steps with
    | zero =>
      intro path path' hpath hok
      unfold slipstreamWalk at hok
      split_ifs at hok
      obtain rfl := pure_eq_ok.mp hok
      exact hpath
    | succ steps ih =>
      intro path path' hpath hok
      unfold slipstreamWalk at hok
      split_ifs at hok
      · obtain rfl := pure_eq_ok.mp hok
        exact hpath
      · obtain ⟨next, hnext, hok⟩ := bind_eq_ok.mp hok
        exact ih next path' (hstep path next hpath hnext) hok
  obtain ⟨entered, hentered, hok⟩ := bind_eq_ok.mp hok
  refine hwalk _ entered path ?_ hok
  split_ifs at hentered
  · exact henter entered hentered
  · obtain rfl := pure_eq_ok.mp hentered
    exact hstart

/-- Crossed ticks lie in range, under their six keys. -/
def CrossesKeyed (keccak : Keccak) (layout : V3StorageLayout) (segments : List SlipstreamSegment) : Prop :=
  ∀ segment ∈ segments, ∀ tick ∈ segment.crossedTick,
    ∃ t, InRange t ∧ tick.keys = slipstreamTickInfoStorageKeysWithBase keccak t layout.ticksBaseSlot

theorem CrossesKeyed.append {segments : List SlipstreamSegment} {segment : SlipstreamSegment}
    (h : CrossesKeyed keccak layout segments)
    (hs : ∀ tick ∈ segment.crossedTick,
      ∃ t, InRange t ∧ tick.keys = slipstreamTickInfoStorageKeysWithBase keccak t layout.ticksBaseSlot) :
    CrossesKeyed keccak layout (segments ++ [segment]) := by
  intro s hmem
  rcases List.mem_append.mp hmem with hmem | hmem
  · exact h s hmem
  · obtain rfl := List.mem_singleton.mp hmem
    exact hs

theorem nextSlipstreamStepBoundary_inRange {tick : Int} {boundary : StepBoundary}
    (hok : nextSlipstreamStepBoundary keccak address layout state tick zeroForOne = .ok boundary) :
    InRange boundary.tick := by
  obtain ⟨bitmap, -, hok⟩ := bind_eq_ok.mp hok
  obtain ⟨_, -, hok⟩ := bind_eq_ok.mp hok
  obtain rfl := pure_eq_ok.mp hok
  exact ⟨le_max_left _ _, max_le (by decide) (min_le_left _ _)⟩

theorem crossSlipstreamBoundary_keyed {boundary : StepBoundary} {reached : Bool} {liquidity staked liquidity' staked' : Nat}
    {crossed : Option SlipstreamInitializedTick} (hboundary : InRange boundary.tick)
    (hok : crossSlipstreamBoundary keccak address layout state boundary reached liquidity staked zeroForOne =
      .ok (crossed, liquidity', staked')) :
    ∀ tick ∈ crossed, ∃ t, InRange t ∧ tick.keys = slipstreamTickInfoStorageKeysWithBase keccak t layout.ticksBaseSlot := by
  unfold crossSlipstreamBoundary at hok
  split_ifs at hok
  · obtain ⟨loaded, hloaded, hok⟩ := bind_eq_ok.mp hok
    obtain ⟨_, -, hok⟩ := bind_eq_ok.mp hok
    obtain ⟨_, -, hok⟩ := bind_eq_ok.mp hok
    obtain ⟨_, -, hok⟩ := bind_eq_ok.mp hok
    cases pure_eq_ok.mp hok
    obtain ⟨words, -, hloaded⟩ := bind_eq_ok.mp hloaded
    obtain ⟨_, -, hloaded⟩ := bind_eq_ok.mp hloaded
    obtain ⟨_, -, hloaded⟩ := bind_eq_ok.mp hloaded
    obtain rfl := pure_eq_ok.mp hloaded
    rintro tick ⟨⟩
    exact ⟨boundary.tick, hboundary, rfl⟩
  · cases pure_eq_ok.mp hok
    nofun

theorem slipstreamStep_keyed (hpath : CrossesKeyed keccak layout path.segments)
    (hok : slipstreamStep keccak address layout state swap zeroForOne path = .ok path') :
    CrossesKeyed keccak layout path'.segments := by
  obtain ⟨boundary, hboundary, hok⟩ := bind_eq_ok.mp hok
  obtain ⟨boundarySqrt, -, hok⟩ := bind_eq_ok.mp hok
  obtain ⟨⟨amountIn, amountOut⟩, -, hok⟩ := bind_eq_ok.mp hok
  obtain ⟨⟨crossed, liquidity, staked⟩, hcross, hok⟩ := bind_eq_ok.mp hok
  obtain rfl := pure_eq_ok.mp hok
  exact hpath.append (crossSlipstreamBoundary_keyed (nextSlipstreamStepBoundary_inRange hboundary) hcross)

theorem enterSlipstreamBoundary_keyed (hpath : CrossesKeyed keccak layout path.segments)
    (hok : enterSlipstreamBoundary keccak address layout state path = .ok path') :
    CrossesKeyed keccak layout path'.segments := by
  obtain ⟨boundary, hboundary, hok⟩ := bind_eq_ok.mp hok
  obtain ⟨boundarySqrt, -, hok⟩ := bind_eq_ok.mp hok
  split_ifs at hok
  · obtain ⟨⟨crossed, liquidity, staked⟩, hcross, hok⟩ := bind_eq_ok.mp hok
    obtain rfl := pure_eq_ok.mp hok
    exact hpath.append (crossSlipstreamBoundary_keyed (nextSlipstreamStepBoundary_inRange hboundary) hcross)
  · obtain rfl := pure_eq_ok.mp hok
    exact hpath

theorem replaySlipstreamSegments_keyed {parent : SlipstreamParent} {segments : List SlipstreamSegment}
    (hok : replaySlipstreamSegments keccak address layout state parent swap zeroForOne = .ok (path, segments)) :
    CrossesKeyed keccak layout segments := by
  obtain ⟨walked, hwalked, hok⟩ := bind_eq_ok.mp hok
  obtain ⟨found, hfound, hok⟩ := bind_eq_ok.mp hok
  obtain ⟨_, -, hok⟩ := bind_eq_ok.mp hok
  obtain ⟨_, -, hok⟩ := bind_eq_ok.mp hok
  cases pure_eq_ok.mp hok
  have hempty : CrossesKeyed keccak layout [] := nofun
  have hwalked := replaySlipstreamPath_induct (P := fun path => CrossesKeyed keccak layout path.segments) hempty
    (fun _ => enterSlipstreamBoundary_keyed hempty) (fun _ _ => slipstreamStep_keyed) hwalked
  split_ifs at hfound
  · obtain rfl := pure_eq_ok.mp hfound
    exact hempty.append nofun
  · obtain rfl := pure_eq_ok.mp hfound
    exact hwalked

end Crossings

/-! ### The trace -/

/-- What the accounting relies on in the replay of an event with evidence. -/
structure Traced (keccak : Keccak) (address : Address) (layout : V3StorageLayout) (swap : DecodedSwap) (state : StateView)
    (trace : SlipstreamSwapTrace) (evidence : SlipstreamSwapFeeEvidence) (words : SlipstreamAccountWords) : Prop where
  evidence_eq : trace.evidence = some (evidence, words)
  unstakedFee_le : evidence.effectiveUnstakedFee ≤ FEE_DENOMINATOR
  layout_eq : layout = .slipstream layout.tickSpacing
  words : loadSlipstreamAccountWords address state = .ok words
  liquidity_lt : ∀ segment ∈ trace.segments, segment.liquidity < 2 ^ 128
  keyed : CrossesKeyed keccak layout trace.segments
  length : trace.stepFees.length = trace.segments.length
  fee_lt : ∀ fee ∈ trace.stepFees, fee < 2 ^ 256
  sum : trace.stepFees.sum + (trace.segments.map (·.amountIn)).sum = swap.input trace.zeroForOne
  write : ∀ p ∈ trace.oracle.write, ∃ i < 2 ^ 16, p.1 = BitVec.ofNat 256 (20 + i)

theorem validateSlipstreamEvidence_fee {address : Address} {state : StateView} {context : AdapterEventContext}
    {evidence : SlipstreamSwapFeeEvidence} (hok : validateSlipstreamEvidence address state context = .ok evidence) :
    evidence.effectiveUnstakedFee ≤ FEE_DENOMINATOR := by
  obtain ⟨found, -, hok⟩ := bind_eq_ok.mp hok
  obtain ⟨_, -, hok⟩ := bind_eq_ok.mp hok
  obtain ⟨_, -, hok⟩ := bind_eq_ok.mp hok
  obtain ⟨_, -, hok⟩ := bind_eq_ok.mp hok
  obtain ⟨_, -, hok⟩ := bind_eq_ok.mp hok
  obtain ⟨_, -, hok⟩ := bind_eq_ok.mp hok
  obtain ⟨_, -, hok⟩ := bind_eq_ok.mp hok
  obtain ⟨_, hfee, hok⟩ := bind_eq_ok.mp hok
  obtain ⟨factoryWord, -, hok⟩ := bind_eq_ok.mp hok
  obtain ⟨_, -, hok⟩ := bind_eq_ok.mp hok
  obtain rfl := pure_eq_ok.mp hok
  exact (ensure_eq_ok.mp hfee).2

theorem validateReviewedSlipstreamEvent_layout {address : Address} {layout : V3StorageLayout}
    {context : AdapterEventContext} {timestamp : Nat}
    (hok : validateReviewedSlipstreamEvent address layout context = .ok timestamp) :
    layout = .slipstream layout.tickSpacing := by
  obtain ⟨_, -, hok⟩ := bind_eq_ok.mp hok
  obtain ⟨_, hlayout, -⟩ := bind_eq_ok.mp hok
  exact ensure_eq_ok.mp hlayout

/-- The observation written lies in the ring. -/
theorem slipstreamOracle_write {address : Address} {slot0 : Slot0} {liquidity timestamp : Nat}
    {state : StateView} {tick : Int} {oracle : OracleAdvance} (hnext : slot0.observationCardinalityNext < 2 ^ 16)
    (hok : slipstreamOracle address slot0 liquidity state timestamp tick = .ok oracle) :
    ∀ p ∈ oracle.write, ∃ i < 2 ^ 16, p.1 = BitVec.ofNat 256 (20 + i) := by
  unfold slipstreamOracle at hok
  split_ifs at hok
  · obtain ⟨_, hzero, hok⟩ := bind_eq_ok.mp hok
    obtain ⟨_, hindex, hok⟩ := bind_eq_ok.mp hok
    obtain ⟨_, hle, hok⟩ := bind_eq_ok.mp hok
    obtain ⟨raw, -, hok⟩ := bind_eq_ok.mp hok
    obtain ⟨_, -, hok⟩ := bind_eq_ok.mp hok
    have hindex := ensure_eq_ok.mp hindex
    have hle := ensure_eq_ok.mp hle
    split_ifs at hok with hnow hgrow
    · obtain rfl := pure_eq_ok.mp hok
      nofun
    · obtain rfl := pure_eq_ok.mp hok
      rintro p ⟨⟩
      exact ⟨_, (Nat.mod_lt _ (by omega)).trans hnext, (BitVec.ofNat_add _ _).symm⟩
    · obtain rfl := pure_eq_ok.mp hok
      rintro p ⟨⟩
      exact ⟨_, (Nat.mod_lt _ (by omega)).trans (hle.trans_lt hnext), (BitVec.ofNat_add _ _).symm⟩
  · obtain rfl := Except.ok.inj hok
    nofun

theorem traceSlipstreamSwap_traced {keccak : Keccak} {address : Address} {layout : V3StorageLayout} {swap : DecodedSwap}
    {state : StateView} {context : AdapterEventContext} {trace : SlipstreamSwapTrace}
    (hevidence : context.slipstreamFeeEvidence.isSome = true)
    (hok : traceSlipstreamSwap keccak address layout swap state context = .ok trace) :
    ∃ evidence words, Traced keccak address layout swap state trace evidence words := by
  obtain ⟨timestamp, hreviewed, hok⟩ := bind_eq_ok.mp hok
  rw [if_pos hevidence] at hok
  obtain ⟨checked, hchecked, hok⟩ := bind_eq_ok.mp hok
  obtain ⟨evidence, hvalid, rfl⟩ := map_eq_ok.mp hchecked
  obtain ⟨_, -, hok⟩ := bind_eq_ok.mp hok
  obtain ⟨parent, hparent, hok⟩ := bind_eq_ok.mp hok
  obtain ⟨liquidityWord, -, hok⟩ := bind_eq_ok.mp hok
  obtain ⟨stakedWord, -, hok⟩ := bind_eq_ok.mp hok
  obtain ⟨accounts, haccounts, hok⟩ := bind_eq_ok.mp hok
  obtain ⟨words, hwords, rfl⟩ := map_eq_ok.mp haccounts
  obtain ⟨zeroForOne, hevent, hok⟩ := bind_eq_ok.mp hok
  obtain ⟨oracle, horacle, hok⟩ := bind_eq_ok.mp hok
  obtain ⟨⟨path, segments⟩, hreplay, hok⟩ := bind_eq_ok.mp hok
  obtain ⟨_, -, hok⟩ := bind_eq_ok.mp hok
  obtain ⟨⟨fee, paid, fees⟩, hfees, hok⟩ := bind_eq_ok.mp hok
  obtain rfl := pure_eq_ok.mp hok
  have hspacing := validateReviewedSlipstreamEvent_spacing hreviewed
  have hreplayed := replaySlipstreamSegments_spec hspacing hparent hevent hreplay
  have hkeyed := replaySlipstreamSegments_keyed hreplay
  obtain ⟨hpaid, hlength, hlt, hsum⟩ := slipstreamSwapFees_sum hfees
  refine ⟨evidence, words, rfl, validateSlipstreamEvidence_fee hvalid,
    validateReviewedSlipstreamEvent_layout hreviewed, hwords, ?_, ?_, hlength, hlt, hsum, slipstreamOracle_write ?_ horacle⟩
  · intro segment hsegment
    rcases hpaid with rfl | rfl
    · exact (hreplayed.segment segment hsegment).liquidity_lt
    · rcases List.mem_append.mp hsegment with hsegment | hsegment
      · exact (hreplayed.segment segment hsegment).liquidity_lt
      · obtain rfl := List.mem_singleton.mp hsegment
        exact hreplayed.liquidity_lt
  · rcases hpaid with rfl | rfl
    · exact hkeyed
    · exact hkeyed.append nofun
  · obtain ⟨raw, -, hparent⟩ := bind_eq_ok.mp hparent
    obtain ⟨_, -, hparent⟩ := bind_eq_ok.mp hparent
    obtain ⟨_, -, hparent⟩ := bind_eq_ok.mp hparent
    obtain ⟨_, -, hparent⟩ := bind_eq_ok.mp hparent
    obtain ⟨_, -, hparent⟩ := bind_eq_ok.mp hparent
    obtain ⟨_, -, hparent⟩ := bind_eq_ok.mp hparent
    obtain ⟨_, -, hparent⟩ := bind_eq_ok.mp hparent
    obtain rfl := pure_eq_ok.mp hparent
    exact BitVec.isLt _

/-! ### After the event -/

/-- What no update of a batch names is unchanged. -/
theorem storage_applyUpdates_of_ne {state : StateView} {address : Address} {slot : U256} {us : List StateUpdate}
    (h : ∀ u ∈ us, u.slot ≠ slot) : (state.applyUpdates us).storage address slot = state.storage address slot := by
  induction us generalizing state with
  | nil => rfl
  | cons u us ih =>
    show ((u.apply state).applyUpdates us).storage address slot = _
    rw [ih fun v hv => h v (List.mem_cons_of_mem _ hv)]
    exact if_neg fun heq => h u List.mem_cons_self heq.2.symm

theorem applyUpdates_append (state : StateView) (us vs : List StateUpdate) :
    state.applyUpdates (us ++ vs) = (state.applyUpdates us).applyUpdates vs := List.foldl_append

section After
variable {address : Address} {layout : V3StorageLayout} {swap : DecodedSwap} {state : StateView}
  {trace : SlipstreamSwapTrace} {words : SlipstreamAccountWords} {accounts : SlipstreamAccounts}

/-- The word of the input token's fee growth. -/
def growthSlot (zeroForOne : Bool) : U256 :=
  if zeroForOne then SLIPSTREAM_SURFACE.feeGrowth0Slot else SLIPSTREAM_SURFACE.feeGrowth1Slot

/-- The accounting cells after the event, where the observation and the ticks lie elsewhere. -/
theorem slipstreamFullUpdates_cells (hlayout : layout = .slipstream layout.tickSpacing)
    (hother : ∀ n < 20, ∀ u ∈ trace.oracle.write.toList.map (fun (slot, value) => ⟨address, slot, value⟩) ++
      accounts.tickUpdates, u.slot ≠ BitVec.ofNat 256 n) :
    let after := state.applyUpdates (slipstreamFullUpdates address layout swap trace words accounts)
    after.storage address (growthSlot trace.zeroForOne) = some (accounts.growthIn trace.zeroForOne) ∧
      after.storage address SLIPSTREAM_GAUGE_FEES_SLOT =
        some (slipstreamGaugeFees trace words.gaugeFees accounts.gaugeFee) ∧
      after.storage address SLIPSTREAM_REWARD_GROWTH_SLOT = (if accounts.rewardsUpdated then some accounts.rewardGrowth
        else state.storage address SLIPSTREAM_REWARD_GROWTH_SLOT) ∧
      after.storage address SLIPSTREAM_REWARD_RESERVE_SLOT =
        accounts.rewardReserve.or (state.storage address SLIPSTREAM_REWARD_RESERVE_SLOT) ∧
      after.storage address SLIPSTREAM_ROLLOVER_SLOT = accounts.rollover.or
        (state.storage address SLIPSTREAM_ROLLOVER_SLOT) := by
  intro after
  have hafter : ∀ n < 20, after.storage address (BitVec.ofNat 256 n) =
      (state.applyUpdates ([⟨address, 6, slipstreamFinalSlot0 swap trace⟩,
        if trace.zeroForOne then ⟨address, 7, accounts.feeGrowth0⟩ else ⟨address, 8, accounts.feeGrowth1⟩,
        ⟨address, 10, slipstreamGaugeFees trace words.gaugeFees accounts.gaugeFee⟩,
        ⟨address, 15, Packed.set (Packed.set trace.stakedWord 0 (BitVec.ofNat 128 trace.path.stakedLiquidity)) 128
          (BitVec.ofNat 32 accounts.lastUpdated)⟩,
        ⟨address, 16, slipstreamFinalLiquidity trace⟩] ++
        (if accounts.rewardsUpdated then [⟨address, 9, accounts.rewardGrowth⟩] else []) ++
        accounts.rewardReserve.toList.map (fun value => ⟨address, 12, value⟩) ++
        accounts.rollover.toList.map (fun value => ⟨address, 14, value⟩))).storage address (BitVec.ofNat 256 n) := by
    intro n hn
    show (state.applyUpdates (slipstreamFullUpdates address layout swap trace words accounts)).storage _ _ = _
    rw [slipstreamFullUpdates, List.append_assoc, applyUpdates_append, storage_applyUpdates_of_ne (hother n hn), hlayout]
    rfl
  refine ⟨?_, (hafter 10 (by decide)).trans ?_, (hafter 9 (by decide)).trans ?_, (hafter 12 (by decide)).trans ?_,
    (hafter 14 (by decide)).trans ?_⟩
  · cases hdirection : trace.zeroForOne with
    | true =>
      refine (hafter 7 (by decide)).trans ?_
      rw [if_pos hdirection]
      cases accounts.rewardsUpdated <;> cases accounts.rewardReserve <;> cases accounts.rollover <;>
        simp [StateView.applyUpdates, StateUpdate.apply, StateView.storage, SlipstreamAccounts.growthIn]
    | false =>
      refine (hafter 8 (by decide)).trans ?_
      rw [if_neg (by simp [hdirection])]
      cases accounts.rewardsUpdated <;> cases accounts.rewardReserve <;> cases accounts.rollover <;>
        simp [StateView.applyUpdates, StateUpdate.apply, StateView.storage, SlipstreamAccounts.growthIn]
  all_goals
    cases trace.zeroForOne <;> cases accounts.rewardsUpdated <;> cases accounts.rewardReserve
      <;> cases accounts.rollover <;>
      simp [StateView.applyUpdates, StateUpdate.apply, StateView.storage, SLIPSTREAM_REWARD_GROWTH_SLOT,
        SLIPSTREAM_REWARD_RESERVE_SLOT, SLIPSTREAM_ROLLOVER_SLOT]

/-- The growth word of the input token gains the steps' growth, and its gauge half their gauge fees. -/
def PaysFees (address : Address) (unstakedFee : Nat) (trace : SlipstreamSwapTrace) (before after : StateView) : Prop :=
  ∃ shares growth gauge, List.Forall₂ (SplitsFee unstakedFee) (trace.segments.zip trace.stepFees) shares ∧
    before.storage address (growthSlot trace.zeroForOne) = some growth ∧
    after.storage address (growthSlot trace.zeroForOne) = some (growth + BitVec.ofNat 256 (shares.map Prod.fst).sum) ∧
    before.storage address SLIPSTREAM_GAUGE_FEES_SLOT = some gauge ∧
    after.storage address SLIPSTREAM_GAUGE_FEES_SLOT =
      some (slipstreamGaugeFees trace gauge (BitVec.ofNat 128 (shares.map Prod.snd).sum))

/-- The reserve gives up what is rolled over or goes to growth, and no more than it holds. -/
def SettlesRewards (address : Address) (trace : SlipstreamSwapTrace) (before after : StateView) : Prop :=
  (∀ slot ∈ [SLIPSTREAM_REWARD_RESERVE_SLOT, SLIPSTREAM_ROLLOVER_SLOT, SLIPSTREAM_REWARD_GROWTH_SLOT],
    after.storage address slot = before.storage address slot) ∨
  ∃ reserve reward growth : U256, ∃ segment ∈ trace.segments,
    before.storage address SLIPSTREAM_REWARD_RESERVE_SLOT = some reserve ∧ reward.toNat ≤ reserve.toNat ∧
    after.storage address SLIPSTREAM_REWARD_RESERVE_SLOT = some (reserve - reward) ∧
    before.storage address SLIPSTREAM_REWARD_GROWTH_SLOT = some growth ∧
    ((segment.stakedLiquidity = 0 ∧ after.storage address SLIPSTREAM_REWARD_GROWTH_SLOT = some growth ∧
        ∃ rollover, before.storage address SLIPSTREAM_ROLLOVER_SLOT = some rollover ∧
          after.storage address SLIPSTREAM_ROLLOVER_SLOT = some (rollover + reward)) ∨
      (0 < segment.stakedLiquidity ∧
        after.storage address SLIPSTREAM_ROLLOVER_SLOT = before.storage address SLIPSTREAM_ROLLOVER_SLOT ∧
        after.storage address SLIPSTREAM_REWARD_GROWTH_SLOT =
          some (growth + BitVec.ofNat 256 (reward.toNat * Q128 / segment.stakedLiquidity))))

/-- The observation and the crossed ticks lie off the fixed cells. -/
theorem Traced.off_fixed {keccak : Keccak} (hk : Slipstream.DistinctKeys keccak) {evidence : SlipstreamSwapFeeEvidence}
    (h : Traced keccak address layout swap state trace evidence words)
    (hticks : ∀ u ∈ accounts.tickUpdates, ∃ step ∈ trace.segments.zip trace.stepFees, ∃ tick ∈ step.1.crossedTick,
      u.slot ∈ tick.keys) {n : Nat} (hn : n < 20) :
    ∀ u ∈ trace.oracle.write.toList.map (fun (slot, value) => ⟨address, slot, value⟩) ++ accounts.tickUpdates,
      u.slot ≠ BitVec.ofNat 256 n := by
  intro u hu
  rcases List.mem_append.mp hu with hu | hu
  · obtain ⟨p, hp, rfl⟩ := List.mem_map.mp hu
    obtain ⟨i, hi, hslot⟩ := h.write p (Option.mem_toList.mp hp)
    show p.1 ≠ _
    rw [hslot]
    intro heq
    have := ofNat_inj (by omega) (by omega) heq
    omega
  · obtain ⟨step, hstep, tick, htick, hkey⟩ := hticks u hu
    obtain ⟨t, ht, hkeys⟩ := h.keyed step.1 (List.of_mem_zip hstep).1 tick htick
    rw [hkeys, h.layout_eq] at hkey
    obtain ⟨i, hi, hslot⟩ := List.mem_map.mp hkey
    rw [← hslot]
    refine hk.tick_ne_fixed ht ?_ (by omega)
    simp only [List.mem_cons, List.not_mem_nil, or_false] at hi
    omega

theorem loadSlipstreamAccountWords_held (trace : SlipstreamSwapTrace)
    (hok : loadSlipstreamAccountWords address state = .ok words) (zeroForOne : Bool) :
    state.storage address (growthSlot zeroForOne) = some ((startAccounts trace words).growthIn zeroForOne) ∧
      state.storage address SLIPSTREAM_REWARD_GROWTH_SLOT = some words.rewardGrowth ∧
      state.storage address SLIPSTREAM_GAUGE_FEES_SLOT = some words.gaugeFees := by
  obtain ⟨feeGrowth0, hgrowth0, hok⟩ := bind_eq_ok.mp hok
  obtain ⟨feeGrowth1, hgrowth1, hok⟩ := bind_eq_ok.mp hok
  obtain ⟨rewardGrowth, hrewardGrowth, hok⟩ := bind_eq_ok.mp hok
  obtain ⟨gaugeFees, hgaugeFees, hok⟩ := bind_eq_ok.mp hok
  obtain rfl := pure_eq_ok.mp hok
  refine ⟨?_, orError_eq_ok.mp hrewardGrowth, orError_eq_ok.mp hgaugeFees⟩
  cases zeroForOne with
  | true => exact orError_eq_ok.mp hgrowth0
  | false => exact orError_eq_ok.mp hgrowth1

/-- Every swap that is replayed with evidence conserves its fees and the rewards of the pool. -/
theorem deriveSlipstreamSwap_conserves {keccak : Keccak} (hk : Slipstream.DistinctKeys keccak) (address : Address)
    (layout : V3StorageLayout) (swap : DecodedSwap) (state : StateView) (context : AdapterEventContext)
    (hevidence : context.slipstreamFeeEvidence.isSome = true) (updates : List StateUpdate) (fee : Nat)
    (hok : deriveSlipstreamSwapInner keccak address layout swap state context = .ok (updates, fee)) :
    ∃ trace evidence words, traceSlipstreamSwap keccak address layout swap state context = .ok trace ∧
      trace.evidence = some (evidence, words) ∧
      trace.stepFees.length = trace.segments.length ∧
      trace.stepFees.sum + (trace.segments.map (·.amountIn)).sum = swap.input trace.zeroForOne ∧
      PaysFees address evidence.effectiveUnstakedFee trace state (state.applyUpdates updates) ∧
      SettlesRewards address trace state (state.applyUpdates updates) := by
  obtain ⟨trace, htrace, hok⟩ := bind_eq_ok.mp hok
  obtain ⟨evidence, words, htraced⟩ := traceSlipstreamSwap_traced hevidence htrace
  refine ⟨trace, evidence, words, htrace, htraced.evidence_eq, htraced.length, htraced.sum, ?_⟩
  rw [htraced.evidence_eq] at hok
  obtain ⟨accounts, haccounts, hok⟩ := bind_eq_ok.mp hok
  cases pure_eq_ok.mp hok
  have haccrued := accountSlipstreamSteps_accrued (fun step hstep => htraced.fee_lt step.2 (List.of_mem_zip hstep).2)
    (fun step hstep => (htraced.liquidity_lt step.1 (List.of_mem_zip hstep).1).trans (by decide)) htraced.unstakedFee_le
    rfl rfl rfl haccounts
  obtain ⟨hgrowth, hgauge, hreward, hreserve, hrollover⟩ := slipstreamFullUpdates_cells htraced.layout_eq
    fun n hn => htraced.off_fixed hk haccrued.ticks hn
  obtain ⟨hheldGrowth, hheldReward, hheldGauge⟩ := loadSlipstreamAccountWords_held trace htraced.words trace.zeroForOne
  constructor
  · obtain ⟨shares, hsplits, hin, hout⟩ := haccrued.fees
    refine ⟨shares, _, words.gaugeFees, hsplits, hheldGrowth, ?_, hheldGauge, ?_⟩
    · rw [hgrowth, hin]
    · rw [hgauge, hout]
      exact congrArg (fun fees => some (slipstreamGaugeFees trace words.gaugeFees fees)) (BitVec.zero_add _)
  · rcases haccrued.rewards.pays with ⟨hnone, hnone', hsame⟩ | ⟨step, hstep, reserve, reward, hheld, hle, hwrite, hwhere⟩
    · left
      intro slot hslot
      simp only [List.mem_cons, List.not_mem_nil, or_false] at hslot
      rcases hslot with rfl | rfl | rfl
      · rw [hreserve, hnone, Option.none_or]
      · rw [hrollover, hnone', Option.none_or]
      · rw [hreward, hsame, hheldReward]
        exact ite_self _
    · have hupdated : accounts.rewardsUpdated = true := by
        by_contra hfalse
        have hunpaid := (haccrued.rewards.unpaid (Bool.not_eq_true _ ▸ hfalse)).1
        rw [hwrite] at hunpaid
        exact absurd hunpaid (Option.some_ne_none _)
      rw [if_pos hupdated] at hreward
      rw [hwrite, Option.some_or] at hreserve
      refine .inr ⟨reserve, reward, words.rewardGrowth, step.1, (List.of_mem_zip hstep).1, hheld, hle,
        hreserve, hheldReward, ?_⟩
      rcases hwhere with ⟨hzero, hsame, rollover, hheldRollover, hto⟩ | ⟨hpos, hto, hpaid⟩
      · rw [hto, Option.some_or] at hrollover
        rw [hsame] at hreward
        exact .inl ⟨hzero, hreward, rollover, hheldRollover, hrollover⟩
      · rw [hto, Option.none_or] at hrollover
        rw [hpaid] at hreward
        exact .inr ⟨hpos, hrollover, hreward⟩

end After

/-! ### A swap that crosses a tick -/

/-- The reviewed pool of Optimism at price one, partly staked, with an initialized tick above. -/
def stakedPool : StateView := fun address slot =>
  let reviewed := Slipstream.reviewedRuntime .velodromeOptimismBifi
  let tickSlot := Slipstream.tickSlot Slipstream.tabulatedKeccak 200
  if address ≠ reviewed.pool then none
  else if slot = SLIPSTREAM_FACTORY_SLOT then some (reviewed.factory.setWidth 256)
  else if slot = SLIPSTREAM_SLOT0_SLOT then some (BitVec.ofNat 256 (2 ^ 96 + 2 ^ 200 + 2 ^ 216 + 2 ^ 232))
  else if slot = SLIPSTREAM_REWARD_RATE_SLOT then some 7
  else if slot = SLIPSTREAM_REWARD_RESERVE_SLOT then some 5000
  else if slot = SLIPSTREAM_STAKED_LAST_SPACING_SLOT then
    some (BitVec.ofNat 256 (4 * 10 ^ 17 + 900 * 2 ^ 128 + 200 * 2 ^ 160))
  else if slot = SLIPSTREAM_LIQUIDITY_SLOT then some (BitVec.ofNat 256 (10 ^ 18))
  else if slot = SLIPSTREAM_SURFACE.observationsBaseSlot then some (BitVec.ofNat 256 (900 + 2 ^ 248))
  else if slot = Slipstream.bitmapSlot Slipstream.tabulatedKeccak 0 then some 2
  else if slot = tickSlot 0 then some (BitVec.ofNat 256 (10 ^ 17 + 10 ^ 17 * 2 ^ 128))
  else if slot = tickSlot 1 then some (BitVec.ofNat 256 (5 * 10 ^ 16))
  else if slot = tickSlot 5 then some (BitVec.ofNat 256 (2 ^ 248))
  else some 0

/-- Evidence of a swap fee of 3000 and an unstaked fee of a tenth. -/
def crossingEvidence : SlipstreamSwapFeeEvidence where
  runtimeFamily := .velodromeOptimismBifi
  chainId := 10
  pool := 0x173cdc71e29d5cffa6d090ad99f555a24b8831f9
  factory := 0xcc0bddb707055e04e497ab22a59c2af4391cd12f
  proxyRuntimeCodeHash := 0x063ca35333cb7f2463f087d40ff9485475550abf4858a2f63c387d4d102b0f4f
  implementation := 0xc28ad28853a547556780bebf7847628501a3bcbb
  implementationRuntimeCodeHash := 0x36c3da904ca0b58544254cd0d978fe4801c32dc1f9e3b3e644487ef541299794
  effectiveSwapFee := 3000
  effectiveUnstakedFee := 100000
  unstakedFeeProof := ⟨.velodromeOptimismBifi, .reviewedRuntimeEvaluation, none, some 100000,
    some ⟨10, 1, 1, 1, 1000, 1, 0, 0⟩⟩
  blockNumber := 1
  blockHash := 1
  parentHash := 1
  blockTimestamp := 1000
  transactionHash := 1
  transactionIndex := 0
  logIndex := 0

def crossingContext : AdapterEventContext :=
  ⟨some 10, some 1, some 1, some 1, some 1000, some 1, some 0, some 0, some crossingEvidence⟩

/-- A swap up to tick 300, which crosses tick 200. -/
def crossingSwap : DecodedSwap :=
  ⟨true, 15381086647274212, false, 15665564148310887, 80425482538613550732120052346, 11 * 10 ^ 17, 300⟩

theorem deriveSlipstreamSwap_conserves_crossing : ∃ updates, ∃ fee trace evidence words,
    deriveSlipstreamSwapInner Slipstream.tabulatedKeccak (reviewedSlipstreamPool .velodromeOptimismBifi) (.slipstream 200)
      crossingSwap stakedPool crossingContext = .ok (updates, fee) ∧
    traceSlipstreamSwap Slipstream.tabulatedKeccak (reviewedSlipstreamPool .velodromeOptimismBifi) (.slipstream 200)
      crossingSwap stakedPool crossingContext = .ok trace ∧
    trace.evidence = some (evidence, words) ∧ trace.stepFees.length = trace.segments.length ∧
    trace.stepFees.sum + (trace.segments.map (·.amountIn)).sum = crossingSwap.input trace.zeroForOne ∧
    PaysFees (reviewedSlipstreamPool .velodromeOptimismBifi) evidence.effectiveUnstakedFee trace stakedPool
      (stakedPool.applyUpdates updates) ∧
    SettlesRewards (reviewedSlipstreamPool .velodromeOptimismBifi) trace stakedPool (stakedPool.applyUpdates updates) := by
  have hok : (deriveSlipstreamSwapInner Slipstream.tabulatedKeccak (reviewedSlipstreamPool .velodromeOptimismBifi)
      (.slipstream 200) crossingSwap stakedPool crossingContext).isOk = true := by decide +kernel
  obtain ⟨⟨updates, fee⟩, hok⟩ := isOk_iff.mp hok
  obtain ⟨trace, evidence, words, hrest⟩ := deriveSlipstreamSwap_conserves Slipstream.tabulatedKeccak_distinct _ _ _ _ _
    (by decide) updates fee hok
  exact ⟨updates, fee, trace, evidence, words, hok, hrest⟩

end AmmState.V3
