import AmmState.Theorems.V3.SlipstreamPath

/-! The fee of a Slipstream event (`infer_slipstream_fee`): both ends of the interval of totals that a fee explains grow
    with the fee, so the two binary searches find the first and the last fee that explain the total of the event, and the
    fees between them all do. -/

namespace AmmState.V3
open Checked

/-! ### Amounts -/

/-- The input of a step between two prices of `TickMath`. -/
def stepInput (zeroForOne : Bool) (sqrtStart sqrtEnd liquidity : Nat) : Nat :=
  if zeroForOne then exactPast sqrtStart sqrtEnd (liquidity * Q96) else liquidity * (sqrtEnd - sqrtStart) ⌈/⌉ Q96

theorem ReplayedSegment.amountIn_eq {zeroForOne : Bool} {segment : SlipstreamSegment}
    (h : ReplayedSegment zeroForOne segment) :
    segment.amountIn = stepInput zeroForOne segment.sqrtStart segment.sqrtEnd segment.liquidity := by
  have hamounts := h.amounts
  have hdirected := h.directed
  rw [segmentAmounts] at hamounts
  obtain ⟨_, -, hamounts⟩ := bind_eq_ok.mp hamounts
  unfold Directed at hdirected
  have hends : zeroForOne = true → ((if segment.sqrtStart < segment.sqrtEnd then segment.sqrtStart else segment.sqrtEnd) =
      segment.sqrtEnd ∧ (if segment.sqrtStart < segment.sqrtEnd then segment.sqrtEnd else segment.sqrtStart) =
      segment.sqrtStart) := by
    intro hz
    subst hz
    rw [if_neg (Nat.not_lt.mpr hdirected), if_neg (Nat.not_lt.mpr hdirected)]
    exact ⟨rfl, rfl⟩
  cases zeroForOne with
  | true =>
    obtain ⟨hlower, hupper⟩ := hends rfl
    rw [if_pos rfl, hlower, hupper] at hamounts
    obtain ⟨amountIn, hin, hamounts⟩ := bind_eq_ok.mp hamounts
    obtain ⟨amountOut, -, hamounts⟩ := bind_eq_ok.mp hamounts
    cases pure_eq_ok.mp hamounts
    obtain ⟨-, heq, -⟩ := div512_eq_ok.mp hin
    rw [heq, if_pos rfl, stepInput, if_pos rfl, exactPast]
    congr 1
    ring
  | false =>
    have hle : segment.sqrtStart ≤ segment.sqrtEnd := hdirected
    have hlower : (if segment.sqrtStart < segment.sqrtEnd then segment.sqrtStart else segment.sqrtEnd) =
        segment.sqrtStart := by
      split_ifs <;> omega
    have hupper : (if segment.sqrtStart < segment.sqrtEnd then segment.sqrtEnd else segment.sqrtStart) =
        segment.sqrtEnd := by
      split_ifs <;> omega
    rw [if_neg (by simp), hlower, hupper] at hamounts
    obtain ⟨amountIn, hin, hamounts⟩ := bind_eq_ok.mp hamounts
    obtain ⟨amountOut, -, hamounts⟩ := bind_eq_ok.mp hamounts
    cases pure_eq_ok.mp hamounts
    obtain ⟨-, heq, -⟩ := div512_eq_ok.mp hin
    rw [heq, if_pos rfl, stepInput, if_neg (by simp)]

theorem ReplayedSegment.amountIn_lt {zeroForOne : Bool} {segment : SlipstreamSegment}
    (h : ReplayedSegment zeroForOne segment) : segment.amountIn < 2 ^ 224 := by
  have hbound := h.liquidity_lt
  have hsmall : segment.liquidity * Q96 < 2 ^ 224 := by
    rw [show (2 : Nat) ^ 224 = 2 ^ 128 * Q96 by decide]
    exact Nat.mul_lt_mul_of_pos_right hbound (by decide)
  have hdirected := h.directed
  rw [h.amountIn_eq, stepInput]
  cases zeroForOne with
  | true =>
    refine Nat.lt_of_le_of_lt ?_ hsmall
    rw [if_pos rfl, exactPast_le h.finish.pos hdirected]
    calc segment.liquidity * Q96 * segment.sqrtStart
        ≤ segment.liquidity * Q96 * segment.sqrtStart * segment.sqrtEnd := Nat.le_mul_of_pos_right _ h.finish.pos
      _ ≤ (segment.liquidity * Q96 + segment.liquidity * Q96 * segment.sqrtStart) * segment.sqrtEnd :=
          Nat.mul_le_mul_right _ (Nat.le_add_left _ _)
  | false =>
    have hmax : segment.sqrtEnd ≤ 2 ^ 160 := h.finish.2.trans (by decide)
    rw [if_neg (by simp)]
    refine Nat.lt_of_le_of_lt ((ceilDiv_le_iff_le_mul (c := 2 ^ 192) (by decide)).mpr ?_) (by decide)
    calc segment.liquidity * (segment.sqrtEnd - segment.sqrtStart) ≤ 2 ^ 128 * 2 ^ 160 :=
          Nat.mul_le_mul hbound.le ((Nat.sub_le _ _).trans hmax)
      _ = Q96 * 2 ^ 192 := by decide

/-! ### Fees of steps -/

/-- The fee of a full step. -/
def fullFee (amountIn fee : Nat) : Nat := amountIn * fee ⌈/⌉ (FEE_DENOMINATOR - fee)

/-- The largest fee of a step whose price budget is limited. -/
def partialFee (amountIn budget fee : Nat) : Nat :=
  (budget + 1) * FEE_DENOMINATOR ⌈/⌉ (FEE_DENOMINATOR - fee) - 1 - amountIn

section Fees
variable {fee fee' : Nat}

theorem denominator_pos (hfee : fee ≤ MAX_SLIPSTREAM_FEE) : 0 < FEE_DENOMINATOR - fee := by
  unfold MAX_SLIPSTREAM_FEE at hfee
  unfold FEE_DENOMINATOR
  omega

theorem fullFee_le (hfee : fee ≤ MAX_SLIPSTREAM_FEE) (amountIn : Nat) : fullFee amountIn fee ≤ amountIn := by
  rw [fullFee, ceilDiv_le_iff_le_mul (denominator_pos hfee), Nat.mul_comm amountIn]
  refine Nat.mul_le_mul_right amountIn ?_
  unfold MAX_SLIPSTREAM_FEE at hfee
  unfold FEE_DENOMINATOR
  omega

theorem fullFee_mono (amountIn : Nat) (hle : fee ≤ fee') (hfee : fee' ≤ MAX_SLIPSTREAM_FEE) :
    fullFee amountIn fee ≤ fullFee amountIn fee' := by
  have hleast : amountIn * fee' ≤ (FEE_DENOMINATOR - fee') * fullFee amountIn fee' :=
    (ceilDiv_le_iff_le_mul (denominator_pos hfee)).mp le_rfl
  rw [fullFee, ceilDiv_le_iff_le_mul (denominator_pos (hle.trans hfee))]
  calc amountIn * fee ≤ amountIn * fee' := Nat.mul_le_mul_left amountIn hle
    _ ≤ (FEE_DENOMINATOR - fee') * fullFee amountIn fee' := hleast
    _ ≤ (FEE_DENOMINATOR - fee) * fullFee amountIn fee' := Nat.mul_le_mul_right _ (Nat.sub_le_sub_left hle _)

theorem partialFee_mono (amountIn budget : Nat) (hle : fee ≤ fee') (hfee : fee' ≤ MAX_SLIPSTREAM_FEE) :
    partialFee amountIn budget fee ≤ partialFee amountIn budget fee' := by
  have hceil : (budget + 1) * FEE_DENOMINATOR ⌈/⌉ (FEE_DENOMINATOR - fee) ≤
      (budget + 1) * FEE_DENOMINATOR ⌈/⌉ (FEE_DENOMINATOR - fee') := by
    rw [ceilDiv_le_iff_le_mul (denominator_pos (hle.trans hfee))]
    refine ((ceilDiv_le_iff_le_mul (denominator_pos hfee)).mp le_rfl).trans ?_
    exact Nat.mul_le_mul_right _ (Nat.sub_le_sub_left hle _)
  unfold partialFee
  omega

theorem invalidTotal_bounds (hfee : fee ≤ MAX_SLIPSTREAM_FEE) {budget : Nat} (hbudget : budget < 2 ^ 224) :
    0 < (budget + 1) * FEE_DENOMINATOR ⌈/⌉ (FEE_DENOMINATOR - fee) ∧
      (budget + 1) * FEE_DENOMINATOR ⌈/⌉ (FEE_DENOMINATOR - fee) ≤ 2 ^ 226 := by
  constructor
  · exact ceilDiv_pos (Nat.mul_pos (Nat.succ_pos _) (by decide)) (denominator_pos hfee)
  · rw [ceilDiv_le_iff_le_mul (denominator_pos hfee)]
    have hhalf : FEE_DENOMINATOR ≤ 2 * (FEE_DENOMINATOR - fee) := by
      unfold MAX_SLIPSTREAM_FEE at hfee
      unfold FEE_DENOMINATOR
      omega
    calc (budget + 1) * FEE_DENOMINATOR ≤ 2 ^ 224 * (2 * (FEE_DENOMINATOR - fee)) := Nat.mul_le_mul hbudget hhalf
      _ = (FEE_DENOMINATOR - fee) * 2 ^ 225 := by ring
      _ ≤ (FEE_DENOMINATOR - fee) * 2 ^ 226 := Nat.mul_le_mul_left _ (by decide)

theorem feeForFullStep_eq (hfee : fee ≤ MAX_SLIPSTREAM_FEE) {amountIn : Nat} (hamount : amountIn < 2 ^ 224) :
    feeForFullStep amountIn fee = .ok (fullFee amountIn fee) :=
  div512_up (denominator_pos hfee) ((fullFee_le hfee amountIn).trans_lt (hamount.trans (by decide)))

theorem maximumPartialFee_eq (hfee : fee ≤ MAX_SLIPSTREAM_FEE) (amountIn : Nat) {budget : Nat}
    (hbudget : budget < 2 ^ 224) : maximumPartialFee amountIn budget fee = .ok (partialFee amountIn budget fee) := by
  obtain ⟨hpos, hle⟩ := invalidTotal_bounds hfee hbudget
  have hfit : budget + 1 < 2 ^ 256 := by omega
  have hadd : checkedAdd budget 1 (arithmetic "partial-fee input overflow") = .ok (budget + 1) := ensure_bind hfit
  rw [maximumPartialFee, hadd, ok_bind, mulDivRoundUp, div512_up (denominator_pos hfee) (hle.trans_lt (by decide)), ok_bind,
    checkedSub, ensure_bind (Nat.succ_le_of_lt hpos)]
  rfl

/-- The full-step fees of some segments. -/
def fullFees (segments : List SlipstreamSegment) (fee : Nat) : Nat := (segments.map fun s => fullFee s.amountIn fee).sum

theorem fullFees_append (segments : List SlipstreamSegment) (last : SlipstreamSegment) (fee : Nat) :
    fullFees (segments ++ [last]) fee = fullFees segments fee + fullFee last.amountIn fee := by
  simp [fullFees]

theorem fullFees_mono (segments : List SlipstreamSegment) (hle : fee ≤ fee') (hfee : fee' ≤ MAX_SLIPSTREAM_FEE) :
    fullFees segments fee ≤ fullFees segments fee' :=
  List.sum_le_sum fun s _ => fullFee_mono s.amountIn hle hfee

theorem fullFees_le (hfee : fee ≤ MAX_SLIPSTREAM_FEE) {segments : List SlipstreamSegment}
    (hamounts : ∀ s ∈ segments, s.amountIn < 2 ^ 224) : fullFees segments fee ≤ segments.length * 2 ^ 224 := by
  have hle : ∀ x ∈ segments.map fun s => fullFee s.amountIn fee, x ≤ 2 ^ 224 := by
    intro x hx
    obtain ⟨s, hs, rfl⟩ := List.mem_map.mp hx
    exact (fullFee_le hfee s.amountIn).trans (hamounts s hs).le
  have hsum := List.sum_le_card_nsmul _ (2 ^ 224) hle
  rw [List.length_map] at hsum
  exact hsum

theorem checkedSum_eq {values : List Nat} (hfit : values.sum < 2 ^ 256) : checkedSum values = .ok values.sum := by
  have hfold : ∀ (start : Nat) (values : List Nat), start + values.sum < 2 ^ 256 →
      values.foldlM (fun sum value => checkedAdd sum value (arithmetic "amount sum overflow")) start =
        .ok (start + values.sum) := by
    intro start values
    induction values generalizing start with
    | nil =>
      intro _
      rfl
    | cons value rest ih =>
      intro hfit
      rw [List.sum_cons, ← Nat.add_assoc] at hfit ⊢
      have hadd : checkedAdd start value (arithmetic "amount sum overflow") = .ok (start + value) :=
        ensure_bind (by omega)
      rw [List.foldlM_cons, hadd, ok_bind]
      exact ih (start + value) hfit
  have hzero := hfold 0 values (by omega)
  rw [Nat.zero_add] at hzero
  exact hzero

theorem slipstreamStepFees_eq (hfee : fee ≤ MAX_SLIPSTREAM_FEE) {segments : List SlipstreamSegment}
    (hamounts : ∀ s ∈ segments, s.amountIn < 2 ^ 224) (hlength : segments.length ≤ MAX_SWAP_STEPS) :
    slipstreamStepFees segments fee = .ok (fullFees segments fee) := by
  have hmap : ∀ l : List SlipstreamSegment, (∀ s ∈ l, s.amountIn < 2 ^ 224) →
      l.mapM (fun segment => feeForFullStep segment.amountIn fee) = .ok (l.map fun s => fullFee s.amountIn fee) := by
    intro l
    induction l with
    | nil =>
      intro _
      rfl
    | cons s rest ih =>
      intro hl
      rw [List.mapM_cons, feeForFullStep_eq hfee (hl s List.mem_cons_self), ok_bind,
        ih fun t ht => hl t (List.mem_cons_of_mem s ht)]
      rfl
  have hle := fullFees_le hfee hamounts
  have hfit : fullFees segments fee < 2 ^ 256 := by
    refine hle.trans_lt ((Nat.mul_le_mul_right _ hlength).trans_lt ?_)
    decide
  rw [slipstreamStepFees, hmap segments hamounts, ok_bind]
  exact checkedSum_eq hfit

end Fees

/-! ### Intervals -/

/-- The largest fee of the last step. -/
def lastMaximum (last : SlipstreamSegment) (fee budget : Nat) (cappedOutput : Bool) : Nat :=
  if cappedOutput then fullFee last.amountIn fee
  else if last.reachedBoundary then fullFee last.amountIn fee + partialFee 0 budget fee
  else max (partialFee last.amountIn budget fee) (fullFee last.amountIn fee)

theorem fullFee_le_lastMaximum (last : SlipstreamSegment) (fee budget : Nat) (cappedOutput : Bool) :
    fullFee last.amountIn fee ≤ lastMaximum last fee budget cappedOutput := by
  unfold lastMaximum
  split_ifs
  · exact le_rfl
  · exact Nat.le_add_right _ _
  · exact le_max_right _ _

theorem lastMaximum_mono (last : SlipstreamSegment) (budget : Nat) (cappedOutput : Bool) {fee fee' : Nat} (hle : fee ≤ fee')
    (hfee : fee' ≤ MAX_SLIPSTREAM_FEE) : lastMaximum last fee budget cappedOutput ≤
      lastMaximum last fee' budget cappedOutput := by
  have hfull := fullFee_mono last.amountIn hle hfee
  unfold lastMaximum
  split_ifs
  · exact hfull
  · exact Nat.add_le_add hfull (partialFee_mono 0 budget hle hfee)
  · exact max_le_max (partialFee_mono last.amountIn budget hle hfee) hfull

/-- What the inference is given: a path that is not empty, with amounts and a budget that fit. -/
structure Inferable (segments : List SlipstreamSegment) (budget : Nat) : Prop where
  nonempty : segments ≠ []
  length_le : segments.length ≤ MAX_SWAP_STEPS
  amounts : ∀ s ∈ segments, s.amountIn < 2 ^ 224
  budget_lt : budget < 2 ^ 224

section Inference
variable {segments preceding : List SlipstreamSegment} {last : SlipstreamSegment} {budget fee : Nat} {cappedOutput : Bool}

theorem slipstreamLastMaximum_eq (hamount : last.amountIn < 2 ^ 224) (hbudget : budget < 2 ^ 224)
    (hfee : fee ≤ MAX_SLIPSTREAM_FEE) (cappedOutput : Bool) :
    slipstreamLastMaximum last (fullFee last.amountIn fee) fee budget cappedOutput =
      .ok (lastMaximum last fee budget cappedOutput) ∧ lastMaximum last fee budget cappedOutput ≤ 2 ^ 227 := by
  have hfull := (fullFee_le hfee last.amountIn).trans hamount.le
  have hinvalid := (invalidTotal_bounds hfee hbudget).2
  have hpart : ∀ amountIn, partialFee amountIn budget fee ≤ 2 ^ 226 := by
    intro amountIn
    unfold partialFee
    omega
  unfold slipstreamLastMaximum lastMaximum
  split_ifs
  · exact ⟨rfl, hfull.trans (by decide)⟩
  · have hle : fullFee last.amountIn fee + partialFee 0 budget fee ≤ 2 ^ 227 := by
      have := hpart 0
      omega
    rw [maximumPartialFee_eq hfee 0 hbudget, ok_bind, checkedAdd, ensure_bind (hle.trans_lt (by decide))]
    exact ⟨rfl, hle⟩
  · rw [maximumPartialFee_eq hfee last.amountIn hbudget, ok_bind]
    exact ⟨rfl, max_le ((hpart _).trans (by decide)) (hfull.trans (by decide))⟩

/-- The interval of a fee. -/
theorem slipstreamFeeInterval_eq (h : Inferable (preceding ++ [last]) budget) (hfee : fee ≤ MAX_SLIPSTREAM_FEE) :
    slipstreamFeeInterval (preceding ++ [last]) fee budget cappedOutput =
      .ok (fullFees preceding fee + fullFee last.amountIn fee,
        fullFees preceding fee + lastMaximum last fee budget cappedOutput) := by
  have hlast : last.amountIn < 2 ^ 224 := h.amounts last (by simp)
  have hpreceding : ∀ s ∈ preceding, s.amountIn < 2 ^ 224 := fun s hs => h.amounts s (List.mem_append_left _ hs)
  have hlength : preceding.length ≤ MAX_SWAP_STEPS := by
    have := h.length_le
    rw [List.length_append] at this
    omega
  obtain ⟨hmaximum, hmaximumLe⟩ := slipstreamLastMaximum_eq hlast h.budget_lt hfee cappedOutput
  have hfees : fullFees preceding fee ≤ MAX_SWAP_STEPS * 2 ^ 224 :=
    (fullFees_le hfee hpreceding).trans (Nat.mul_le_mul_right _ hlength)
  have hmaximumFit : fullFees preceding fee + lastMaximum last fee budget cappedOutput < 2 ^ 256 := by
    refine (Nat.add_le_add hfees hmaximumLe).trans_lt ?_
    decide
  have hminimumFit : fullFees preceding fee + fullFee last.amountIn fee < 2 ^ 256 :=
    (Nat.add_le_add_left (fullFee_le_lastMaximum last fee budget cappedOutput) _).trans_lt hmaximumFit
  rw [slipstreamFeeInterval, List.getLast?_concat, orError, ok_bind, List.dropLast_concat,
    slipstreamStepFees_eq hfee hpreceding hlength, ok_bind, feeForFullStep_eq hfee hlast, ok_bind, checkedAdd,
    ensure_bind hminimumFit]
  dsimp only [pure, Except.pure]
  rw [ok_bind, hmaximum, ok_bind, checkedAdd, ensure_bind hmaximumFit]
  rfl

/-- The totals that a fee explains. -/
def Compatible (segments : List SlipstreamSegment) (budget : Nat) (cappedOutput : Bool) (totalFee fee : Nat) : Prop :=
  fee ≤ MAX_SLIPSTREAM_FEE ∧ ∃ minimum maximum,
    slipstreamFeeInterval segments fee budget cappedOutput = .ok (minimum, maximum) ∧
      minimum ≤ totalFee ∧ totalFee ≤ maximum

/-- Both ends of the interval grow with the fee. -/
def MonotoneInterval (segments : List SlipstreamSegment) (budget : Nat) (cappedOutput : Bool) : Prop :=
  ∃ minimum maximum : Nat → Nat,
    (∀ fee ≤ MAX_SLIPSTREAM_FEE, slipstreamFeeInterval segments fee budget cappedOutput = .ok (minimum fee, maximum fee)) ∧
    ∀ fee fee', fee ≤ fee' → fee' ≤ MAX_SLIPSTREAM_FEE →
      minimum fee ≤ minimum fee' ∧ maximum fee ≤ maximum fee' ∧ minimum fee ≤ maximum fee

theorem Inferable.monotone (h : Inferable segments budget) (cappedOutput : Bool) :
    MonotoneInterval segments budget cappedOutput := by
  rcases List.eq_nil_or_concat' segments with rfl | ⟨preceding, last, rfl⟩
  · exact absurd rfl h.nonempty
  refine ⟨_, _, fun fee hfee => slipstreamFeeInterval_eq h hfee, fun fee fee' hle hfee => ⟨?_, ?_, ?_⟩⟩
  · exact Nat.add_le_add (fullFees_mono preceding hle hfee) (fullFee_mono last.amountIn hle hfee)
  · exact Nat.add_le_add (fullFees_mono preceding hle hfee) (lastMaximum_mono last budget cappedOutput hle hfee)
  · exact Nat.add_le_add_left (fullFee_le_lastMaximum last fee budget cappedOutput) _

/-! ### The searches -/

/-- The two tests of the searches, where the fee interval is known. -/
theorem reachesTotal_eq_ok (totalFee : Nat) {minimum maximum : Nat}
    (h : slipstreamFeeInterval segments fee budget cappedOutput = .ok (minimum, maximum)) : (do
      let (_, maximum) ← slipstreamFeeInterval segments fee budget cappedOutput
      return decide (totalFee ≤ maximum) : Result Bool) = .ok (decide (totalFee ≤ maximum)) := by
  rw [h]
  rfl

theorem withinTotal_eq_ok (totalFee : Nat) {minimum maximum : Nat}
    (h : slipstreamFeeInterval segments fee budget cappedOutput = .ok (minimum, maximum)) : (do
      let (minimum, _) ← slipstreamFeeInterval segments fee budget cappedOutput
      return decide (minimum ≤ totalFee) : Result Bool) = .ok (decide (minimum ≤ totalFee)) := by
  rw [h]
  rfl

/-- The search for the first fee splits the fees at the total. -/
theorem binaryFirstFee_spec {minimum maximum : Nat → Nat} {totalFee : Nat}
    (hinterval : ∀ fee ≤ MAX_SLIPSTREAM_FEE,
      slipstreamFeeInterval segments fee budget cappedOutput = .ok (minimum fee, maximum fee))
    (hmono : ∀ fee fee', fee ≤ fee' → fee' ≤ MAX_SLIPSTREAM_FEE → maximum fee ≤ maximum fee') :
    (∃ first, binaryFirstFee segments totalFee budget cappedOutput = .ok (some first) ∧ first ≤ MAX_SLIPSTREAM_FEE ∧
      ∀ fee ≤ MAX_SLIPSTREAM_FEE, totalFee ≤ maximum fee ↔ first ≤ fee) ∨
    binaryFirstFee segments totalFee budget cappedOutput = .ok none ∧
      ∀ fee ≤ MAX_SLIPSTREAM_FEE, ¬ totalFee ≤ maximum fee := by
  obtain ⟨found, hfound, -, hle, hholds, hfails⟩ := Bisect.first_eq_ok (Nat.zero_le _)
    (fun n _ hn => reachesTotal_eq_ok totalFee (hinterval n hn.le)) fun m n hmn hn h => h.trans (hmono m n hmn hn)
  have heq : binaryFirstFee segments totalFee budget cappedOutput =
      .ok (if totalFee ≤ maximum found then some found else none) := by
    rw [binaryFirstFee, hfound, ok_bind, hinterval found hle]
    rfl
  rw [heq]
  by_cases hreaches : totalFee ≤ maximum found
  · rw [if_pos hreaches]
    refine .inl ⟨found, rfl, hle, fun fee hfee => ⟨fun h => ?_, fun h => hreaches.trans (hmono found fee h hfee)⟩⟩
    exact Nat.not_lt.mp fun hlt => hfails fee (Nat.zero_le _) hlt h
  · rw [if_neg hreaches]
    refine .inr ⟨rfl, fun fee hfee h => hreaches (h.trans (hmono fee found ?_ hle))⟩
    have hend : found = MAX_SLIPSTREAM_FEE := Nat.le_antisymm hle (Nat.not_lt.mp (mt hholds hreaches))
    exact hend ▸ hfee

/-- The search for the last fee splits the fees at the total. -/
theorem binaryLastFee_spec {minimum maximum : Nat → Nat} {totalFee : Nat}
    (hinterval : ∀ fee ≤ MAX_SLIPSTREAM_FEE,
      slipstreamFeeInterval segments fee budget cappedOutput = .ok (minimum fee, maximum fee))
    (hmono : ∀ fee fee', fee ≤ fee' → fee' ≤ MAX_SLIPSTREAM_FEE → minimum fee ≤ minimum fee') :
    (∃ last, binaryLastFee segments totalFee budget cappedOutput = .ok (some last) ∧ last ≤ MAX_SLIPSTREAM_FEE ∧
      ∀ fee ≤ MAX_SLIPSTREAM_FEE, minimum fee ≤ totalFee ↔ fee ≤ last) ∨
    binaryLastFee segments totalFee budget cappedOutput = .ok none ∧
      ∀ fee ≤ MAX_SLIPSTREAM_FEE, ¬ minimum fee ≤ totalFee := by
  obtain ⟨found, hfound, -, hle, hholds, hfails⟩ := Bisect.last_eq_ok (Nat.zero_le _)
    (fun n _ hn => withinTotal_eq_ok totalFee (hinterval n hn)) fun m n hmn hn h => (hmono m n hmn hn).trans h
  have heq : binaryLastFee segments totalFee budget cappedOutput =
      .ok (if minimum found ≤ totalFee then some found else none) := by
    rw [binaryLastFee, hfound, ok_bind, hinterval found hle]
    rfl
  rw [heq]
  by_cases hreaches : minimum found ≤ totalFee
  · rw [if_pos hreaches]
    refine .inl ⟨found, rfl, hle, fun fee hfee => ⟨fun h => ?_, fun h => (hmono fee found h hle).trans hreaches⟩⟩
    exact Nat.not_lt.mp fun hlt => hfails fee hlt hfee h
  · rw [if_neg hreaches]
    refine .inr ⟨rfl, fun fee hfee h => hreaches ((hmono found fee ?_ hfee).trans h)⟩
    have hend : found = 0 := Nat.eq_zero_of_not_pos (mt hholds hreaches)
    exact hend ▸ Nat.zero_le fee

/-- What the inference reports about the fees that explain a total. -/
structure ExactInference (segments : List SlipstreamSegment) (budget : Nat) (cappedOutput : Bool)
    (totalFee : Nat) : Prop where
  unique : ∀ fee, inferSlipstreamFee segments totalFee budget cappedOutput = .ok fee ↔
    Compatible segments budget cappedOutput totalFee fee ∧
      ∀ other, Compatible segments budget cappedOutput totalFee other → other = fee
  ambiguous : ∀ first last, inferSlipstreamFee segments totalFee budget cappedOutput =
      .error (.v3Transition (.slipstreamFeeInferenceAmbiguous first last)) ↔
    first < last ∧ ∀ fee, Compatible segments budget cappedOutput totalFee fee ↔ first ≤ fee ∧ fee ≤ last
  noMatch : inferSlipstreamFee segments totalFee budget cappedOutput =
      .error (.v3Transition .slipstreamFeeInferenceNoMatch) ↔
    ∀ fee, ¬ Compatible segments budget cappedOutput totalFee fee

/-- Where the fees that explain the total are a range, the report says which. -/
theorem ExactInference.of_range {totalFee : Nat} (low high : Nat)
    (hset : ∀ fee, Compatible segments budget cappedOutput totalFee fee ↔ low ≤ fee ∧ fee ≤ high)
    (hinfer : inferSlipstreamFee segments totalFee budget cappedOutput =
      if low < high then .error (.v3Transition (.slipstreamFeeInferenceAmbiguous low high))
      else if low = high then .ok low else .error (.v3Transition .slipstreamFeeInferenceNoMatch)) :
    ExactInference segments budget cappedOutput totalFee := by
  rcases lt_trichotomy low high with hlt | rfl | hgt
  · have hlow := (hset low).mpr ⟨le_rfl, hlt.le⟩
    have hhigh := (hset high).mpr ⟨hlt.le, le_rfl⟩
    rw [if_pos hlt] at hinfer
    refine ⟨fun fee => ⟨fun h => ?_, fun ⟨_, hunique⟩ => ?_⟩, fun first last => ⟨fun h => ?_, fun ⟨hlt', hrange⟩ => ?_⟩,
      fun h => ?_, fun h => absurd hlow (h low)⟩
    · exact absurd (hinfer.symm.trans h) nofun
    · exact absurd ((hunique low hlow).trans (hunique high hhigh).symm) hlt.ne
    · cases hinfer.symm.trans h
      exact ⟨hlt, hset⟩
    · have hfirst := (hrange low).mp hlow
      have hlast := (hrange high).mp hhigh
      have hfirst' := (hset first).mp ((hrange first).mpr ⟨le_rfl, hlt'.le⟩)
      have hlast' := (hset last).mp ((hrange last).mpr ⟨hlt'.le, le_rfl⟩)
      obtain rfl : low = first := Nat.le_antisymm hfirst'.1 hfirst.1
      obtain rfl : high = last := Nat.le_antisymm hlast.2 hlast'.2
      exact hinfer
    · exact absurd (hinfer.symm.trans h) nofun
  · have hlow := (hset low).mpr ⟨le_rfl, le_rfl⟩
    rw [if_neg (Nat.lt_irrefl low), if_pos rfl] at hinfer
    refine ⟨fun fee => ⟨fun h => ?_, fun ⟨_, hunique⟩ => ?_⟩, fun first last => ⟨fun h => ?_, fun ⟨hlt', hrange⟩ => ?_⟩,
      fun h => ?_, fun h => absurd hlow (h low)⟩
    · cases hinfer.symm.trans h
      refine ⟨hlow, fun other hother => ?_⟩
      obtain ⟨h₁, h₂⟩ := (hset other).mp hother
      exact Nat.le_antisymm h₂ h₁
    · rw [hinfer, hunique low hlow]
    · exact absurd (hinfer.symm.trans h) nofun
    · have hfirst := (hset first).mp ((hrange first).mpr ⟨le_rfl, hlt'.le⟩)
      have hlast := (hset last).mp ((hrange last).mpr ⟨hlt'.le, le_rfl⟩)
      exact absurd (hlast.2.trans hfirst.1) (Nat.not_le.mpr hlt')
    · exact absurd (hinfer.symm.trans h) nofun
  · have hnone : ∀ fee, ¬ Compatible segments budget cappedOutput totalFee fee := by
      intro fee hfee
      obtain ⟨h₁, h₂⟩ := (hset fee).mp hfee
      exact absurd (h₁.trans h₂) (Nat.not_le.mpr hgt)
    rw [if_neg (Nat.not_lt.mpr hgt.le), if_neg hgt.ne'] at hinfer
    refine ⟨fun fee => ⟨fun h => ?_, fun ⟨hfee, _⟩ => absurd hfee (hnone fee)⟩,
      fun first last => ⟨fun h => ?_, fun ⟨hlt, hrange⟩ => ?_⟩, fun _ => hnone, fun _ => hinfer⟩
    · exact absurd (hinfer.symm.trans h) nofun
    · exact absurd (hinfer.symm.trans h) nofun
    · exact absurd ((hrange first).mpr ⟨le_rfl, hlt.le⟩) (hnone first)

theorem Inferable.exact (h : Inferable segments budget) (cappedOutput : Bool) (totalFee : Nat) :
    ExactInference segments budget cappedOutput totalFee := by
  obtain ⟨minimum, maximum, hinterval, hmono⟩ := h.monotone cappedOutput
  have hcompatible : ∀ fee, Compatible segments budget cappedOutput totalFee fee ↔
      fee ≤ MAX_SLIPSTREAM_FEE ∧ minimum fee ≤ totalFee ∧ totalFee ≤ maximum fee := by
    intro fee
    refine and_congr_right fun hfee => ?_
    rw [hinterval fee hfee]
    constructor
    · rintro ⟨_, _, ⟨⟩, hle⟩
      exact hle
    · intro hle
      exact ⟨_, _, rfl, hle⟩
  have hempty : inferSlipstreamFee segments totalFee budget cappedOutput =
        .error (.v3Transition .slipstreamFeeInferenceNoMatch) →
      (∀ fee, ¬ Compatible segments budget cappedOutput totalFee fee) →
      ExactInference segments budget cappedOutput totalFee := by
    intro hinfer hnone
    refine .of_range 1 0 (fun fee => ⟨fun hfee => absurd hfee (hnone fee), fun hfee => ?_⟩) hinfer
    omega
  rcases binaryFirstFee_spec hinterval fun fee fee' hle hfee => (hmono fee fee' hle hfee).2.1 with
    ⟨first, hfirst, -, hreaches⟩ | ⟨hfirst, hnone⟩
  swap
  · refine hempty ?_ fun fee hfee => hnone fee ((hcompatible fee).mp hfee).1 ((hcompatible fee).mp hfee).2.2
    rcases binaryLastFee_spec hinterval fun fee fee' hle hfee => (hmono fee fee' hle hfee).1 with
      ⟨last, hlast, -⟩ | ⟨hlast, -⟩
    · rw [inferSlipstreamFee, hfirst, ok_bind, hlast]
      rfl
    · rw [inferSlipstreamFee, hfirst, ok_bind, hlast]
      rfl
  rcases binaryLastFee_spec hinterval fun fee fee' hle hfee => (hmono fee fee' hle hfee).1 with
    ⟨last, hlast, hlastLe, hbelow⟩ | ⟨hlast, hnone⟩
  swap
  · refine hempty ?_ fun fee hfee => hnone fee ((hcompatible fee).mp hfee).1 ((hcompatible fee).mp hfee).2.1
    rw [inferSlipstreamFee, hfirst, ok_bind, hlast]
    rfl
  refine .of_range first last (fun fee => ?_) ?_
  · rw [hcompatible]
    constructor
    · rintro ⟨hfee, hmin, hmax⟩
      exact ⟨(hreaches fee hfee).mp hmax, (hbelow fee hfee).mp hmin⟩
    · rintro ⟨hge, hle⟩
      have hfee := hle.trans hlastLe
      exact ⟨hfee, (hbelow fee hfee).mpr hle, (hreaches fee hfee).mpr hge⟩
  · rw [inferSlipstreamFee, hfirst, ok_bind, hlast, ok_bind]
    dsimp only
    rcases lt_trichotomy first last with hlt | rfl | hgt
    · rw [if_pos hlt, ensure_bind hlt.le, ensure, if_neg hlt.ne]
      rfl
    · have hchecked : minimum first ≤ totalFee ∧ totalFee ≤ maximum first :=
        ⟨(hbelow first hlastLe).mpr le_rfl, (hreaches first hlastLe).mpr le_rfl⟩
      rw [if_neg (Nat.lt_irrefl _), if_pos rfl, ensure_bind le_rfl, ensure_bind rfl, hinterval first hlastLe, ok_bind]
      dsimp only
      rw [ensure_bind hchecked]
      rfl
    · rw [if_neg (Nat.not_lt.mpr hgt.le), if_neg hgt.ne', ensure, if_neg (Nat.not_le.mpr hgt)]
      rfl

end Inference

/-! ### Replays -/

/-- The step whose price a remainder would move: the last one, or one after the boundary that the path ends on. -/
def finalStep (path : SlipstreamPath) (last : SlipstreamSegment) : SlipstreamSegment :=
  if last.reachedBoundary then emptySlipstreamSegment path.sqrt path.liquidity path.stakedLiquidity else last

theorem Replayed.finalStep {zeroForOne : Bool} {path : SlipstreamPath} {segments : List SlipstreamSegment}
    (h : Replayed zeroForOne path segments) {last : SlipstreamSegment} (hlast : last ∈ segments) :
    ReplayedSegment zeroForOne (finalStep path last) := by
  unfold V3.finalStep
  split_ifs
  · exact .still h.inBounds rfl h.liquidity_lt rfl rfl
  · exact h.segment last hlast

/-- The budget of a replay is that of its final step; without liquidity it is zero. -/
theorem slipstreamFinalBudget_spec {zeroForOne : Bool} {path : SlipstreamPath} {preceding : List SlipstreamSegment}
    {last : SlipstreamSegment} (h : Replayed zeroForOne path (preceding ++ [last])) (cappedOutput : Bool) :
    ∃ budget, slipstreamFinalBudget path (preceding ++ [last]) zeroForOne cappedOutput = .ok budget ∧ budget < 2 ^ 224 ∧
      (cappedOutput = false → (finalStep path last).liquidity = 0 → budget = 0) ∧
      (cappedOutput = false → 0 < (finalStep path last).liquidity → IsBudget (finalStep path last).sqrtStart
        (finalStep path last).sqrtEnd (finalStep path last).liquidity zeroForOne budget) := by
  have heq : slipstreamFinalBudget path (preceding ++ [last]) zeroForOne cappedOutput =
      if cappedOutput then .ok 0 else maximumInputBudget (finalStep path last).sqrtStart (finalStep path last).sqrtEnd
        (finalStep path last).liquidity zeroForOne := by
    rw [slipstreamFinalBudget, List.getLast?_concat, Option.getD_some, finalStep]
    split_ifs
    · rfl
    · rfl
    · rfl
  have hstep := h.finalStep (List.mem_append_right preceding (List.mem_singleton.mpr rfl))
  rw [heq]
  cases cappedOutput with
  | true => exact ⟨0, rfl, by decide, nofun, nofun⟩
  | false =>
    rw [if_neg (by simp)]
    rcases Nat.eq_zero_or_pos (finalStep path last).liquidity with hzero | hpos
    · refine ⟨0, ?_, by decide, fun _ _ => rfl, fun _ hpos => absurd hzero (Nat.ne_of_gt hpos)⟩
      rw [maximumInputBudget, if_pos hzero]
      rfl
    · obtain ⟨budget, hbudget, hspec⟩ := maximumInputBudget_spec zeroForOne hstep.start hstep.finish hstep.directed hpos
        hstep.liquidity_lt
      exact ⟨budget, hbudget, hspec.small, fun _ hzero => absurd hzero (Nat.ne_of_gt hpos), fun _ _ => hspec⟩

theorem Replayed.inferable {zeroForOne : Bool} {path : SlipstreamPath} {segments : List SlipstreamSegment}
    (h : Replayed zeroForOne path segments) {budget : Nat} (hbudget : budget < 2 ^ 224) : Inferable segments budget :=
  ⟨h.nonempty, h.length_le, fun s hs => (h.segment s hs).amountIn_lt, hbudget⟩

/-- The inference of a replay is exact for every total, and both ends of its intervals grow with the fee. -/
theorem inferSlipstreamFee_exact (keccak : Keccak) (address : Address) (layout : V3StorageLayout) (swap : DecodedSwap)
    (state : StateView) (context : AdapterEventContext) (zeroForOne : Bool) (path : SlipstreamPath)
    (segments : List SlipstreamSegment)
    (hreplay : slipstreamReplay keccak address layout swap state context = .ok (zeroForOne, path, segments))
    (cappedOutput : Bool) (totalFee : Nat) :
    ∃ budget, slipstreamFinalBudget path segments zeroForOne cappedOutput = .ok budget ∧
      ExactInference segments budget cappedOutput totalFee ∧ MonotoneInterval segments budget cappedOutput := by
  have hreplayed := slipstreamReplay_spec hreplay
  rcases List.eq_nil_or_concat' segments with rfl | ⟨preceding, last, rfl⟩
  · exact absurd rfl hreplayed.nonempty
  obtain ⟨budget, hbudget, hlt, -⟩ := slipstreamFinalBudget_spec hreplayed cappedOutput
  have hinferable := hreplayed.inferable hlt
  exact ⟨budget, hbudget, hinferable.exact cappedOutput totalFee, hinferable.monotone cappedOutput⟩

/-! ### A replay -/

/-- An unlocked pool at price one without initialized ticks. -/
def slipstreamPool (liquidity : Nat) : StateView := fun address slot =>
  if address ≠ reviewedSlipstreamPool .aerodromeBaseBifi then none
  else if slot = SLIPSTREAM_SLOT0_SLOT then some (BitVec.ofNat 256 (2 ^ 96 + 2 ^ 200 + 2 ^ 216 + 2 ^ 232))
  else if slot = SLIPSTREAM_LIQUIDITY_SLOT then some (BitVec.ofNat 256 liquidity)
  else if slot = SLIPSTREAM_STAKED_LAST_SPACING_SLOT then some (BitVec.ofNat 256 (200 * 2 ^ 160))
  else some 0

/-- An event that moves the price up within tick zero. -/
def upwardSwap (liquidity : Nat) : DecodedSwap := ⟨true, 1, false, 2 ^ 90, 2 ^ 96 + 2 ^ 80, liquidity, 0⟩

def baseContext : AdapterEventContext := ⟨some 8453, some 1, some 1, some 0, some 1, some 1, some 0, some 0, none⟩

/-- The replay of the event on a pool with the given liquidity. -/
def upwardReplay (liquidity : Nat) : Result (Bool × SlipstreamPath × List SlipstreamSegment) :=
  slipstreamReplay (fun key _ => key) (reviewedSlipstreamPool .aerodromeBaseBifi) (.slipstream 200) (upwardSwap liquidity)
    (slipstreamPool liquidity) baseContext

theorem inferSlipstreamFee_exact_upward : ∃ zeroForOne path segments budget,
    upwardReplay (2 ^ 100) = .ok (zeroForOne, path, segments) ∧
      slipstreamFinalBudget path segments zeroForOne false = .ok budget ∧
      ExactInference segments budget false (2 ^ 71) ∧ MonotoneInterval segments budget false := by
  have hok : (upwardReplay (2 ^ 100)).isOk = true := by decide +kernel
  obtain ⟨⟨zeroForOne, path, segments⟩, hreplay⟩ := isOk_iff.mp hok
  obtain ⟨budget, hbudget, hexact⟩ := inferSlipstreamFee_exact _ _ _ _ _ _ zeroForOne path segments hreplay false (2 ^ 71)
  exact ⟨zeroForOne, path, segments, budget, hreplay, hbudget, hexact⟩

end AmmState.V3
