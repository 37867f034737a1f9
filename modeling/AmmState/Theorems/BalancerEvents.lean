import AmmState.BalancerEvents
import AmmState.Theorems.Balancer

/-! What a replay of vault events leaves in the cash fields: a swap that is decoded exactly credits one field and debits
    another, no bit beside the two fields changes, and every other event writes nothing. -/

namespace AmmState.Balancer
open Repairs (RepairAction)
open SyncManager (UpdateQuality)

/-! ### Bits -/

/-- A bit of one word belongs to a field. -/
def Covers (place : U256 × Bool) (slot : U256) (bit : Nat) : Prop :=
  place.1 = slot ∧ cashShift place.2 ≤ bit ∧ bit < cashShift place.2 + 112

theorem setCashField_bits {word cash : U256} {high : Bool} {bit : Nat}
    (h : ¬(cashShift high ≤ bit ∧ bit < cashShift high + 112)) :
    (setCashField word high cash).getLsbD bit = word.getLsbD bit := by
  by_cases hbit : bit < 256
  · rw [setCashField_eq, Packed.getLsbD_set hbit, if_neg h]
  · rw [BitVec.getLsbD_of_ge _ _ (not_lt.mp hbit), BitVec.getLsbD_of_ge _ _ (not_lt.mp hbit)]

theorem applyCashDelta_bits {word word' amount : U256} {high add : Bool}
    (h : applyCashDelta word high add amount = some word') {bit : Nat}
    (hbit : ¬(cashShift high ≤ bit ∧ bit < cashShift high + 112)) : word'.getLsbD bit = word.getLsbD bit := by
  obtain ⟨cash, -, h⟩ := Option.bind_eq_some_iff.mp h
  split_ifs at h
  cases h
  exact setCashField_bits hbit

/-- A credit is made where the field can hold the sum, and a debit where it holds the amount. -/
theorem applyCashDelta_isSome_iff {word amount : U256} {high add : Bool} :
    (applyCashDelta word high add amount).isSome = true ↔
    if add then (cashField word high).toNat + amount.toNat < 2 ^ 112 else amount.toNat ≤ (cashField word high).toNat := by
  have hfield : (cashField word high).toNat < 2 ^ 112 := by
    rw [cashField_eq, BitVec.toNat_setWidth_of_le (by decide)]
    exact BitVec.isLt _
  unfold applyCashDelta
  rw [Option.isSome_iff_exists]
  simp only [Option.bind_eq_some_iff, toNat_cashMask]
  cases add with
  | true =>
    simp only [if_true]
    constructor
    · rintro ⟨_, new, hnew, h⟩
      split_ifs at hnew h with hlt hfits
      cases hnew
      rw [BitVec.toNat_add, Nat.mod_eq_of_lt hlt] at hfits
      omega
    · intro h
      refine ⟨_, _, if_pos (by omega), if_neg ?_⟩
      rw [BitVec.toNat_add, Nat.mod_eq_of_lt (by omega)]
      omega
  | false =>
    simp only [Bool.false_eq_true, if_false]
    constructor
    · rintro ⟨_, new, hnew, -⟩
      split_ifs at hnew with hle
      exact hle
    · intro h
      refine ⟨_, _, if_pos h, if_neg ?_⟩
      rw [BitVec.toNat_sub_of_le (BitVec.le_def.mpr h)]
      omega

/-- Writes to held words keep what is held, and change no bit outside of a set. -/
structure EditsBits (view after : StateView) (edited : Address → U256 → Nat → Prop) : Prop where
  held : ∀ address slot word, view address slot = some word → ∃ word', after address slot = some word' ∧
    ∀ bit, ¬edited address slot bit → word'.getLsbD bit = word.getLsbD bit
  cold : ∀ address slot, view address slot = none → after address slot = none

namespace EditsBits
variable {view mid after : StateView} {edited edited' : Address → U256 → Nat → Prop}

theorem refl (view : StateView) : EditsBits view view edited :=
  ⟨fun _ _ word h => ⟨word, h, fun _ _ => rfl⟩, fun _ _ h => h⟩

theorem trans (h : EditsBits view mid edited) (h' : EditsBits mid after edited) : EditsBits view after edited := by
  refine ⟨fun address slot word hword => ?_, fun address slot hcold => h'.cold address slot (h.cold address slot hcold)⟩
  obtain ⟨word', hword', hbits⟩ := h.held address slot word hword
  obtain ⟨word'', hword'', hbits'⟩ := h'.held address slot word' hword'
  exact ⟨word'', hword'', fun bit hbit => (hbits' bit hbit).trans (hbits bit hbit)⟩

theorem mono (h : EditsBits view after edited) (hle : ∀ address slot bit, edited address slot bit →
    edited' address slot bit) :
    EditsBits view after edited' := by
  refine ⟨fun address slot word hword => ?_, h.cold⟩
  obtain ⟨word', hword', hbits⟩ := h.held address slot word hword
  exact ⟨word', hword', fun bit hbit => hbits bit fun hedited => hbit (hle address slot bit hedited)⟩

/-- One write to a word that is held. -/
theorem write {address : Address} {slot word value : U256} (hword : view address slot = some word)
    (hbits : ∀ bit, ¬edited address slot bit → value.getLsbD bit = word.getLsbD bit) :
    EditsBits view (view.write ⟨address, slot, value⟩) edited := by
  have hwrite : ∀ address' slot', view.write ⟨address, slot, value⟩ address' slot' =
      if address' = address ∧ slot' = slot then some value else view address' slot' := by
    intro address' slot'
    simp only [StateView.write, Function.update_apply]
    split_ifs <;> simp_all
  refine ⟨fun address' slot' word' hword' => ?_, fun address' slot' hcold => ?_⟩
  · rw [hwrite]
    split_ifs with hsame
    · obtain ⟨rfl, rfl⟩ := hsame
      cases hword.symm.trans hword'
      exact ⟨value, rfl, hbits⟩
    · exact ⟨word', hword', fun _ _ => rfl⟩
  · rw [hwrite, if_neg]
    · exact hcold
    · rintro ⟨rfl, rfl⟩
      cases hword.symm.trans hcold

end EditsBits

/-! ### One swap -/

section
variable {view : StateView} {vault : Address} {poolId : B256} {metadata : BalancerV2Metadata} {swap : SwapCashDelta}

/-- The bits of two fields of the vault. -/
def InFields (vault : Address) (inPlace outPlace : U256 × Bool) (address : Address) (slot : U256) (bit : Nat) : Prop :=
  address = vault ∧ (Covers inPlace slot bit ∨ Covers outPlace slot bit)

/-- A swap edits no bit beside the two fields at which its tokens are located. -/
theorem eventSourceSwap_bits {updates : List SlotUpdate}
    (h : eventSourceSwap view vault poolId metadata swap = some updates) :
    ∃ inLoc outLoc, tokenCashLocation metadata swap.tokenIn = some inLoc ∧
      tokenCashLocation metadata swap.tokenOut = some outLoc ∧
      EditsBits view (updates.foldl .write view)
        (InFields vault (inLoc.slot, inLoc.highField) (outLoc.slot, outLoc.highField)) := by
  obtain ⟨inLoc, hin, h⟩ := Option.bind_eq_some_iff.mp h
  obtain ⟨outLoc, hout, h⟩ := Option.bind_eq_some_iff.mp h
  refine ⟨inLoc, outLoc, hin, hout, ?_⟩
  split_ifs at h with hspecialization hslot hfield
  · obtain ⟨word, hword, h⟩ := Option.bind_eq_some_iff.mp h
    obtain ⟨wordIn, hcredit, h⟩ := Option.bind_eq_some_iff.mp h
    obtain ⟨wordOut, hdebit, h⟩ := Option.bind_eq_some_iff.mp h
    cases h
    refine .write hword fun bit hbit => ?_
    rw [InFields, Covers, Covers, ← hslot] at hbit
    rw [applyCashDelta_bits hdebit fun hcovers => hbit ⟨rfl, .inr ⟨rfl, hcovers⟩⟩,
      applyCashDelta_bits hcredit fun hcovers => hbit ⟨rfl, .inl ⟨rfl, hcovers⟩⟩]
  · obtain ⟨wordIn, hwordIn, h⟩ := Option.bind_eq_some_iff.mp h
    obtain ⟨wordIn', hcredit, h⟩ := Option.bind_eq_some_iff.mp h
    obtain ⟨wordOut, hwordOut, h⟩ := Option.bind_eq_some_iff.mp h
    obtain ⟨wordOut', hdebit, h⟩ := Option.bind_eq_some_iff.mp h
    cases h
    have hwritten : (view.write ⟨vault, inLoc.slot, wordIn'⟩) vault outLoc.slot = some wordOut := by
      rw [StateView.write, Function.update_self, Function.update_of_ne (Ne.symm hslot)]
      exact hwordOut
    refine .trans (.write hwordIn fun bit hbit => ?_) (.write hwritten fun bit hbit => ?_)
    · exact applyCashDelta_bits hcredit fun hcovers => hbit ⟨rfl, .inl ⟨rfl, hcovers⟩⟩
    · exact applyCashDelta_bits hdebit fun hcovers => hbit ⟨rfl, .inr ⟨rfl, hcovers⟩⟩

/-- Both tokens are located at fields that may hold cash, both words are held, and the amounts stay within the fields. -/
structure Fits (view : StateView) (vault : Address) (poolId : B256) (metadata : BalancerV2Metadata) (swap : SwapCashDelta)
    (inLoc outLoc : BalancerTokenBalance) : Prop where
  locatedIn : tokenCashLocation metadata swap.tokenIn = some inLoc
  locatedOut : tokenCashLocation metadata swap.tokenOut = some outLoc
  cash : isTwoTokenPool poolId = true ∨ inLoc.highField = false ∧ outLoc.highField = false
  apart : (inLoc.slot, inLoc.highField) ≠ (outLoc.slot, outLoc.highField)
  credit : ∃ cash, cashAt view vault (inLoc.slot, inLoc.highField) = some cash ∧ cash + swap.amountIn.toNat < 2 ^ 112
  debit : ∃ cash, cashAt view vault (outLoc.slot, outLoc.highField) = some cash ∧ swap.amountOut.toNat ≤ cash

theorem cashAt_eq_some {place : U256 × Bool} {cash : Nat} : cashAt view vault place = some cash ↔
    ∃ word, view vault place.1 = some word ∧ (cashField word place.2).toNat = cash := Option.map_eq_some_iff

/-- The field beside a credited one. -/
theorem cashField_of_credit {word word' amount : U256} {high other : Bool} (hother : high ≠ other)
    (h : applyCashDelta word high true amount = some word') : cashField word' other = cashField word other := by
  obtain ⟨cash, hfields, -⟩ := applyCashDelta_eq_some h
  rw [hfields, if_neg (Ne.symm hother)]

/-- A swap is replayed exactly where it fits. -/
theorem eventSourceSwap_isSome_iff : (eventSourceSwap view vault poolId metadata swap).isSome = true ↔
    ∃ inLoc outLoc, Fits view vault poolId metadata swap inLoc outLoc := by
  constructor
  · intro h
    obtain ⟨updates, h⟩ := Option.isSome_iff_exists.mp h
    obtain ⟨inLoc, hin, h⟩ := Option.bind_eq_some_iff.mp h
    obtain ⟨outLoc, hout, h⟩ := Option.bind_eq_some_iff.mp h
    refine ⟨inLoc, outLoc, ?_⟩
    split_ifs at h with hspecialization hslot hfield
    · obtain ⟨word, hword, h⟩ := Option.bind_eq_some_iff.mp h
      obtain ⟨wordIn, hcredit, h⟩ := Option.bind_eq_some_iff.mp h
      obtain ⟨wordOut, hdebit, -⟩ := Option.bind_eq_some_iff.mp h
      have hbound := applyCashDelta_isSome_iff.mp (Option.isSome_of_eq_some hcredit)
      have hcovered := applyCashDelta_isSome_iff.mp (Option.isSome_of_eq_some hdebit)
      rw [if_neg Bool.false_ne_true, cashField_of_credit hfield hcredit] at hcovered
      refine ⟨hin, hout, by simpa [Classical.or_iff_not_imp_left] using hspecialization, ?_,
        ⟨_, cashAt_eq_some.mpr ⟨word, hword, rfl⟩, hbound⟩, _, cashAt_eq_some.mpr ⟨word, hslot ▸ hword, rfl⟩, hcovered⟩
      exact fun heq => hfield (Prod.mk.inj heq).2
    · obtain ⟨wordIn, hwordIn, h⟩ := Option.bind_eq_some_iff.mp h
      obtain ⟨wordIn', hcredit, h⟩ := Option.bind_eq_some_iff.mp h
      obtain ⟨wordOut, hwordOut, h⟩ := Option.bind_eq_some_iff.mp h
      obtain ⟨wordOut', hdebit, -⟩ := Option.bind_eq_some_iff.mp h
      have hbound := applyCashDelta_isSome_iff.mp (Option.isSome_of_eq_some hcredit)
      have hcovered := applyCashDelta_isSome_iff.mp (Option.isSome_of_eq_some hdebit)
      refine ⟨hin, hout, by simpa [Classical.or_iff_not_imp_left] using hspecialization, ?_,
        ⟨_, cashAt_eq_some.mpr ⟨wordIn, hwordIn, rfl⟩, hbound⟩, _, cashAt_eq_some.mpr ⟨wordOut, hwordOut, rfl⟩, hcovered⟩
      exact fun heq => hslot (Prod.mk.inj heq).1
  · rintro ⟨inLoc, outLoc, hin, hout, hcash, hapart, ⟨cashIn, hcredit, hbound⟩, cashOut, hdebit, hcovered⟩
    obtain ⟨wordIn, hwordIn, rfl⟩ := cashAt_eq_some.mp hcredit
    obtain ⟨wordOut, hwordOut, rfl⟩ := cashAt_eq_some.mp hdebit
    obtain ⟨wordIn', hcredit⟩ := Option.isSome_iff_exists.mp (applyCashDelta_isSome_iff.mpr ((if_pos rfl).mpr hbound))
    have hspecialization : ¬(!isTwoTokenPool poolId && (inLoc.highField || outLoc.highField)) = true := by
      rcases hcash with hcash | ⟨hlowIn, hlowOut⟩
      · rw [hcash]
        exact Bool.false_ne_true
      · rw [hlowIn, hlowOut, Bool.or_false, Bool.and_false]
        exact Bool.false_ne_true
    unfold eventSourceSwap
    rw [hin, hout]
    simp only [Option.bind_eq_bind, Option.bind_some]
    rw [if_neg hspecialization]
    by_cases hslot : inLoc.slot = outLoc.slot
    · have hfield : inLoc.highField ≠ outLoc.highField := fun heq => hapart (Prod.ext hslot heq)
      cases (hslot ▸ hwordIn).symm.trans hwordOut
      have hdebited : (applyCashDelta wordIn' outLoc.highField false swap.amountOut).isSome = true := by
        rw [applyCashDelta_isSome_iff, if_neg Bool.false_ne_true, cashField_of_credit hfield hcredit]
        exact hcovered
      obtain ⟨wordOut', hdebit⟩ := Option.isSome_iff_exists.mp hdebited
      rw [if_pos hslot, if_neg hfield, hwordIn, Option.bind_some, hcredit, Option.bind_some, hdebit]
      rfl
    · obtain ⟨wordOut', hdebit⟩ := Option.isSome_iff_exists.mp
        (applyCashDelta_isSome_iff.mpr ((if_neg Bool.false_ne_true).mpr hcovered))
      rw [if_neg hslot, hwordIn, Option.bind_some, hcredit, Option.bind_some, hwordOut, Option.bind_some, hdebit]
      rfl

end

/-! ### One event -/

section
variable {abi : VaultAbi} {pool : PoolRegistration} {metadata : BalancerV2Metadata} {vault : Address} {log : Log}
  {view : StateView}

/-- The swap that a log is decoded to. -/
def VaultAbi.swapOf (abi : VaultAbi) (log : Log) : Option SwapCashDelta :=
  if log.data.topics.head? = some abi.swapSignature then abi.decodeSwap log.data else none

/-- The writes of a pool's log: those of a swap whose fields are located and warm. -/
def swapWrites (abi : VaultAbi) (pool : PoolRegistration) (metadata : BalancerV2Metadata)
    (vault : Address) (view : StateView) (log : Log) : Option (List SlotUpdate) :=
  (abi.swapOf log).bind fun swap => pool.key.bytes32.bind fun poolId => eventSourceSwap view vault poolId metadata swap

theorem resyncRepair_quality : (resyncRepair vault metadata).2 ≠ .exact := by
  unfold resyncRepair
  split_ifs <;> nofun

theorem decodeLiquidityChange_writes (abi : VaultAbi) (pool : PoolRegistration) (log : Log) :
    (decodeLiquidityChange abi pool log).quality ≠ some .exact ∧ (decodeLiquidityChange abi pool log).updates = [] := by
  unfold decodeLiquidityChange
  cases abi.decodePoolBalanceChanged log.data with
  | none => exact ⟨nofun, rfl⟩
  | some deltas =>
    refine ⟨fun h => ?_, rfl⟩
    have hquality := Option.some.inj h
    dsimp only at hquality
    split at hquality
    · next metadata _ =>
      cases hvault : metadata.vault with
      | none =>
        rw [hvault] at hquality
        cases hquality
      | some vault =>
        rw [hvault] at hquality
        exact resyncRepair_quality hquality
    · cases hquality

/-- An event is exact where its writes are known, and writes nothing elsewhere. -/
theorem decodeEvent_spec (hmetadata : pool.metadata = .balancerV2 metadata) (hvault : metadata.vault = some vault)
    (abi : VaultAbi) (log : Log) (view : StateView) :
    (decodeEvent abi pool log view).updates = (swapWrites abi pool metadata vault view log).getD [] ∧
      ((decodeEvent abi pool log view).quality = some .exact ↔
        (swapWrites abi pool metadata vault view log).isSome = true) := by
  unfold decodeEvent swapWrites VaultAbi.swapOf
  cases htopic : log.data.topics.head? with
  | none => exact ⟨rfl, nofun, nofun⟩
  | some topic0 =>
    by_cases hsignature : topic0 = abi.swapSignature
    · dsimp only
      rw [if_pos hsignature, if_pos (congrArg some hsignature)]
      unfold decodeSwap
      cases hswap : abi.decodeSwap log.data with
      | none => exact ⟨rfl, nofun, nofun⟩
      | some swap =>
        simp only [hmetadata, hvault, Option.bind_some]
        cases pool.key.bytes32.bind fun poolId => eventSourceSwap view vault poolId metadata swap with
        | none => exact ⟨rfl, fun h => absurd (Option.some.inj h) resyncRepair_quality, nofun⟩
        | some updates => exact ⟨rfl, fun _ => rfl, fun _ => rfl⟩
    · dsimp only
      rw [if_neg hsignature, if_neg fun heq => hsignature (Option.some.inj heq)]
      split_ifs
      · obtain ⟨hquality, hupdates⟩ := decodeLiquidityChange_writes abi pool log
        exact ⟨hupdates, fun h => absurd h hquality, nofun⟩
      · exact ⟨rfl, nofun, nofun⟩

/-- The log is a swap that fits the words that are held. -/
def Replayable (abi : VaultAbi) (pool : PoolRegistration) (metadata : BalancerV2Metadata)
    (vault : Address) (view : StateView) (log : Log) : Prop :=
  ∃ swap poolId inLoc outLoc, abi.swapOf log = some swap ∧ pool.key.bytes32 = some poolId ∧
    Fits view vault poolId metadata swap inLoc outLoc

theorem swapWrites_isSome_iff : (swapWrites abi pool metadata vault view log).isSome = true ↔
    Replayable abi pool metadata vault view log := by
  rw [Option.isSome_iff_exists]
  simp only [swapWrites, Option.bind_eq_some_iff]
  constructor
  · rintro ⟨updates, swap, hswap, poolId, hpool, h⟩
    obtain ⟨inLoc, outLoc, hfits⟩ := eventSourceSwap_isSome_iff.mp (Option.isSome_of_eq_some h)
    exact ⟨swap, poolId, inLoc, outLoc, hswap, hpool, hfits⟩
  · rintro ⟨swap, poolId, inLoc, outLoc, hswap, hpool, hfits⟩
    obtain ⟨updates, h⟩ := Option.isSome_iff_exists.mp (eventSourceSwap_isSome_iff.mpr ⟨inLoc, outLoc, hfits⟩)
    exact ⟨updates, swap, hswap, poolId, hpool, h⟩

end

/-! ### Runs -/

/-- The metadata locates tokens of the pool where the vault keeps their cash, no two of them in one field. -/
structure CashMap (metadata : BalancerV2Metadata) (tokens : Set Address) (place : Address → U256 × Bool) : Prop where
  located : ∀ token loc, tokenCashLocation metadata token = some loc → token ∈ tokens ∧
    place token = (loc.slot, loc.highField)
  injective : Set.InjOn place tokens

/-- The swaps of a replay that were exact. -/
def exactSwaps (abi : VaultAbi) : List Log → List AdapterEventResult → List SwapCashDelta
  | log :: logs, result :: results =>
    (if result.quality = some .exact then (abi.swapOf log).toList else []) ++ exactSwaps abi logs results
  | _, _ => []

/-- What a token was paid in by swaps. -/
def amountsIn (token : Address) (swaps : List SwapCashDelta) : Nat :=
  (swaps.map fun swap => if swap.tokenIn = token then swap.amountIn.toNat else 0).sum

/-- What a token was paid out by swaps. -/
def amountsOut (token : Address) (swaps : List SwapCashDelta) : Nat :=
  (swaps.map fun swap => if swap.tokenOut = token then swap.amountOut.toNat else 0).sum

theorem amountsIn_cons (token : Address) (swap : SwapCashDelta) (swaps : List SwapCashDelta) :
    amountsIn token (swap :: swaps) =
    (if swap.tokenIn = token then swap.amountIn.toNat else 0) + amountsIn token swaps := List.sum_cons

theorem amountsOut_cons (token : Address) (swap : SwapCashDelta) (swaps : List SwapCashDelta) :
    amountsOut token (swap :: swaps) =
    (if swap.tokenOut = token then swap.amountOut.toNat else 0) + amountsOut token swaps := List.sum_cons

/-- What swaps leave of a vault: each token's cash moved by its amounts, every word held that was, and no bit changed beside
    the cash of the tokens swapped. -/
structure Tracks (vault : Address) (tokens : Set Address) (place : Address → U256 × Bool) (swaps : List SwapCashDelta)
    (view after : StateView) : Prop where
  cash : ∀ token ∈ tokens, ∀ cash, cashAt view vault (place token) = some cash → ∃ cash',
    cashAt after vault (place token) = some cash' ∧ cash' + amountsOut token swaps = cash + amountsIn token swaps
  bits : EditsBits view after fun address slot bit =>
    ∃ swap ∈ swaps, InFields vault (place swap.tokenIn) (place swap.tokenOut) address slot bit

namespace Tracks
variable {vault : Address} {tokens : Set Address} {place : Address → U256 × Bool} {swaps : List SwapCashDelta}
  {swap : SwapCashDelta} {view mid after : StateView}

theorem refl (view : StateView) : Tracks vault tokens place [] view view :=
  ⟨fun _ _ cash h => ⟨cash, h, rfl⟩, .refl view⟩

theorem cons (h : Tracks vault tokens place [swap] view mid) (hrest : Tracks vault tokens place swaps mid after) :
    Tracks vault tokens place (swap :: swaps) view after := by
  refine ⟨fun token htoken cash hcash => ?_, ?_⟩
  · obtain ⟨cash', hcash', hsum⟩ := h.cash token htoken cash hcash
    obtain ⟨cash'', hcash'', hsum'⟩ := hrest.cash token htoken cash' hcash'
    refine ⟨cash'', hcash'', ?_⟩
    rw [amountsIn_cons, amountsOut_cons] at hsum ⊢
    have hnil : amountsIn token [] = 0 ∧ amountsOut token [] = 0 := ⟨rfl, rfl⟩
    omega
  · refine .trans (h.bits.mono ?_) (hrest.bits.mono ?_)
    · rintro address slot bit ⟨other, hother, hfields⟩
      obtain rfl := List.mem_singleton.mp hother
      exact ⟨other, List.mem_cons_self, hfields⟩
    · rintro address slot bit ⟨other, hother, hfields⟩
      exact ⟨other, List.mem_cons_of_mem _ hother, hfields⟩

end Tracks

section
variable {abi : VaultAbi} {pool : PoolRegistration} {metadata : BalancerV2Metadata} {vault : Address} {tokens : Set Address}
  {place : Address → U256 × Bool}

/-- The cash of a token moves by its part in a swap. -/
theorem eventSourceSwap_tracks (hmap : CashMap metadata tokens place) {view : StateView} {poolId : B256}
    {swap : SwapCashDelta} {updates : List SlotUpdate}
    (h : eventSourceSwap view vault poolId metadata swap = some updates) :
    Tracks vault tokens place [swap] view (updates.foldl .write view) := by
  obtain ⟨inLoc, outLoc, hfits⟩ := eventSourceSwap_isSome_iff.mp (Option.isSome_of_eq_some h)
  obtain ⟨hin, hinPlace⟩ := hmap.located _ _ hfits.locatedIn
  obtain ⟨hout, houtPlace⟩ := hmap.located _ _ hfits.locatedOut
  have hapart : place swap.tokenIn ≠ place swap.tokenOut := by
    rw [hinPlace, houtPlace]
    exact hfits.apart
  have htokens : swap.tokenIn ≠ swap.tokenOut := fun heq => hapart (congrArg place heq)
  obtain ⟨inLoc', outLoc', hin', hout', hedits⟩ := eventSourceSwap_edits h
  obtain ⟨inLoc'', outLoc'', hin'', hout'', hbits⟩ := eventSourceSwap_bits h
  cases hfits.locatedIn.symm.trans hin'
  cases hfits.locatedIn.symm.trans hin''
  cases hfits.locatedOut.symm.trans hout'
  cases hfits.locatedOut.symm.trans hout''
  rw [← hinPlace, ← houtPlace] at hedits hbits
  refine ⟨fun token htoken cash hcash => ?_,
    hbits.mono fun address slot bit hfields => ⟨swap, List.mem_singleton_self _, hfields⟩⟩
  rw [amountsIn_cons, amountsOut_cons]
  by_cases hisIn : swap.tokenIn = token
  · subst hisIn
    obtain ⟨before, hbefore, hafter⟩ := hedits.credited
    cases hcash.symm.trans hbefore
    exact ⟨_, hafter, by rw [if_pos rfl, if_neg (Ne.symm htokens)]; rfl⟩
  · by_cases hisOut : swap.tokenOut = token
    · subst hisOut
      obtain ⟨left, hbefore, hafter⟩ := hedits.debited
      cases hcash.symm.trans hbefore
      exact ⟨_, hafter, by rw [if_pos rfl, if_neg htokens]; exact (Nat.add_assoc ..).symm⟩
    · refine ⟨cash, ?_, by rw [if_neg hisIn, if_neg hisOut]; rfl⟩
      rw [hedits.others (place token) (fun heq => hisIn (hmap.injective hin htoken heq.symm))
        fun heq => hisOut (hmap.injective hout htoken heq.symm)]
      exact hcash

/-- A replay moves the cash of the pool's tokens by the amounts of its exact swaps. -/
theorem replayEvents_tracks (hmetadata : pool.metadata = .balancerV2 metadata) (hvault : metadata.vault = some vault)
    (hmap : CashMap metadata tokens place) (view : StateView) (logs : List Log) :
    Tracks vault tokens place (exactSwaps abi logs (replayEvents abi pool view logs).1) view
      (replayEvents abi pool view logs).2 := by
  induction logs generalizing view with
  | nil => exact .refl view
  | cons log logs ih =>
    obtain ⟨hupdates, hexact⟩ := decodeEvent_spec hmetadata hvault abi log view
    have hrest := ih ((decodeEvent abi pool log view).updates.foldl .write view)
    rw [replayEvents]
    dsimp only
    rw [exactSwaps]
    cases hwrites : swapWrites abi pool metadata vault view log with
    | none =>
      rw [hwrites] at hupdates hexact
      rw [if_neg fun h => Bool.false_ne_true (hexact.mp h), List.nil_append]
      rw [hupdates] at hrest ⊢
      exact hrest
    | some updates =>
      rw [hwrites] at hupdates hexact
      obtain ⟨swap, hswap, hwrites⟩ := Option.bind_eq_some_iff.mp hwrites
      obtain ⟨poolId, hpool, hwrites⟩ := Option.bind_eq_some_iff.mp hwrites
      rw [if_pos (hexact.mpr rfl), hswap, Option.toList_some, List.singleton_append]
      rw [hupdates] at hrest ⊢
      exact .cons (eventSourceSwap_tracks hmap hwrites) hrest

/-- A replay moves the cash of each token by its amounts in the exact swaps and changes no other bit. An event is exact
    where it is a swap of located and warm fields that can hold the result, and writes nothing elsewhere. -/
theorem replayEvents_exact (hmetadata : pool.metadata = .balancerV2 metadata) (hvault : metadata.vault = some vault)
    (hmap : CashMap metadata tokens place) (abi : VaultAbi) (view : StateView) (logs : List Log) :
    Tracks vault tokens place (exactSwaps abi logs (replayEvents abi pool view logs).1) view
      (replayEvents abi pool view logs).2 ∧
      ∀ view log, ((decodeEvent abi pool log view).quality = some .exact ↔ Replayable abi pool metadata vault view log) ∧
        ((decodeEvent abi pool log view).quality ≠ some .exact → (decodeEvent abi pool log view).updates = []) := by
  refine ⟨replayEvents_tracks hmetadata hvault hmap view logs, fun view log => ?_⟩
  obtain ⟨hupdates, hexact⟩ := decodeEvent_spec hmetadata hvault abi log view
  refine ⟨hexact.trans swapWrites_isSome_iff, fun hinexact => ?_⟩
  rw [hupdates, Option.not_isSome_iff_eq_none.mp (mt hexact.mpr hinexact)]
  rfl

end

/-! ### A shared word -/

/-- Two tokens whose cash shares slot 0x77 of the vault. -/
def sharedMetadata : BalancerV2Metadata := ⟨some 0xba, none, [1, 2], [0x77], [⟨1, 0x77, false⟩, ⟨2, 0x77, true⟩]⟩

def sharedPool : PoolRegistration := ⟨.balancerV2 (2 <<< 80), [], [], .balancerV2 sharedMetadata, .ready⟩

/-- 500 of the first token and 1000 of the second, changed last in block 5. -/
def sharedVault : StateView := fun address slot =>
  if address = 0xba ∧ slot = 0x77 then some (5 <<< 224 ||| 1000 <<< 112 ||| 500) else none

/-- The first data byte tells the direction: 30 in for 20 out, or 7 back in for more than there is. -/
def sharedAbi : VaultAbi where
  swapSignature := 1
  poolBalanceChangedSignature := 2
  decodeSwap data := if data.data.isEmpty then some ⟨1, 30, 2, 20⟩ else some ⟨2, 7, 1, 531⟩
  decodePoolBalanceChanged _ := none

def sharedLogs : List Log := [⟨0xba, [1], []⟩, ⟨0xba, [1], [0]⟩, ⟨0xba, [1], []⟩]

theorem sharedMap : CashMap sharedMetadata {1, 2} fun token => if token = 1 then (0x77, false) else (0x77, true) := by
  refine ⟨fun token loc h => ?_, ?_⟩
  · have hmem := List.mem_of_find?_eq_some h
    have htoken : loc.token = token := by simpa using List.find?_some h
    subst htoken
    simp only [sharedMetadata, List.mem_cons, List.not_mem_nil, or_false] at hmem
    rcases hmem with rfl | rfl <;> simp
  · rintro a (rfl | rfl) b (rfl | rfl) <;> simp

theorem replayEvents_exact_sharedWord :
    Tracks 0xba {1, 2} (fun token => if token = 1 then (0x77, false) else (0x77, true))
      [⟨1, 30, 2, 20⟩, ⟨1, 30, 2, 20⟩] sharedVault
        (replayEvents sharedAbi sharedPool sharedVault sharedLogs).2 ∧
      (replayEvents sharedAbi sharedPool sharedVault sharedLogs).2 0xba 0x77 =
      some (5 <<< 224 ||| 960 <<< 112 ||| 560) := by
  refine ⟨?_, by decide +kernel⟩
  have hexact : exactSwaps sharedAbi sharedLogs (replayEvents sharedAbi sharedPool sharedVault sharedLogs).1 =
      [⟨1, 30, 2, 20⟩, ⟨1, 30, 2, 20⟩] := by decide +kernel
  have h := (@replayEvents_exact sharedPool _ _ _ _ rfl rfl sharedMap sharedAbi sharedVault sharedLogs).1
  rw [hexact] at h
  exact h

end AmmState.Balancer
