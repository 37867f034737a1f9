import AmmState.Balancer
import Mathlib.Data.List.Lemmas

/-! Whether the search for cash finds it. A balance that the vault reports is cash and what is managed together, and the
    search compares it with single fields; a token whose own field does not hold its balance may find another one that
    does. -/

namespace AmmState.Balancer

/-! ### Fields -/

theorem cashMask_eq : CASH_MASK = (BitVec.allOnes 112).setWidth 256 := by decide

theorem toNat_cashMask : CASH_MASK.toNat = 2 ^ 112 - 1 := by decide

theorem cashField_eq (word : U256) (high : Bool) :
    cashField word high = (Packed.get word (cashShift high) 112).setWidth 256 := by
  refine BitVec.eq_of_getLsbD_eq fun i hi => ?_
  rw [cashField, cashMask_eq, BitVec.getLsbD_and, BitVec.getLsbD_setWidth, BitVec.getLsbD_setWidth,
    BitVec.getLsbD_ushiftRight,
    BitVec.getLsbD_allOnes]
  by_cases hlow : i < 112
  · rw [Packed.getLsbD_get hlow]
    simp [hlow, hi]
  · simp [hlow, BitVec.getLsbD_of_ge (Packed.get word (cashShift high) 112) i (by omega)]

theorem setCashField_eq (word : U256) (high : Bool) (cash : U256) :
    setCashField word high cash = Packed.set word (cashShift high) (cash.setWidth 112) := by
  have hcash : cash &&& CASH_MASK = (cash.setWidth 112).setWidth 256 := by
    refine BitVec.eq_of_getLsbD_eq fun i hi => ?_
    simp only [cashMask_eq, BitVec.getLsbD_and, BitVec.getLsbD_setWidth, BitVec.getLsbD_allOnes, hi,
      decide_true, Bool.true_and]
    exact Bool.and_comm _ _
  rw [setCashField, Packed.set, hcash, cashMask_eq, BitVec.allOnes_xor]

/-- A cash field is edited alone. -/
theorem cashField_setCashField {word cash : U256} {high : Bool} (hcash : cash.toNat ≤ CASH_MASK.toNat) (field : Bool) :
    cashField (setCashField word high cash) field = if field = high then cash else cashField word field := by
  rw [cashField_eq, setCashField_eq, cashField_eq]
  split_ifs with hfield
  · subst hfield
    rw [Packed.get_set_self (by cases field <;> decide)]
    refine BitVec.eq_of_toNat_eq ?_
    have hlt : cash.toNat < 2 ^ 112 := by
      rw [toNat_cashMask] at hcash
      omega
    rw [BitVec.toNat_setWidth, BitVec.toNat_setWidth, Nat.mod_eq_of_lt hlt, Nat.mod_eq_of_lt cash.isLt]
  · rw [Packed.get_set_of_disjoint]
    cases field <;> cases high <;> first | exact absurd rfl hfield | decide

/-- What a credit or a debit leaves, where the field can hold it. -/
theorem applyCashDelta_eq_some {word word' amount : U256} {high add : Bool}
    (h : applyCashDelta word high add amount = some word') :
    ∃ cash : U256, (∀ field, cashField word' field = if field = high then cash else cashField word field) ∧
      (add = true → cash.toNat = (cashField word high).toNat + amount.toNat) ∧
      (add = false → cash.toNat + amount.toNat = (cashField word high).toNat) := by
  unfold applyCashDelta at h
  obtain ⟨cash, hnew, h⟩ := Option.bind_eq_some_iff.mp h
  split_ifs at h with hfits
  cases h
  refine ⟨cash, cashField_setCashField (not_lt.mp hfits), ?_, ?_⟩
  · rintro rfl
    rw [if_pos rfl] at hnew
    split_ifs at hnew with hlt
    cases hnew
    rw [BitVec.toNat_add, Nat.mod_eq_of_lt hlt]
  · rintro rfl
    rw [if_neg Bool.false_ne_true] at hnew
    split_ifs at hnew with hle
    cases hnew
    rw [BitVec.toNat_sub_of_le (BitVec.le_def.mpr hle)]
    exact Nat.sub_add_cancel hle

/-! ### The layout of a vault -/

section
variable {tokens : List Address} {balances : List U256} {verifiedSlots : List (Address × U256)} {vault : Address}
  {state : StateView} {highFieldCanBeCash : Bool}

/-- Where a vault keeps the cash of a pool's tokens, and what it has managed elsewhere. It reports their sum. -/
structure CashLayout (tokens : List Address) (balances : List U256) (vault : Address) (state : StateView) where
  place : Address → U256 × Bool
  managed : Address → Nat
  apart : ∀ token ∈ tokens, ∀ other ∈ tokens, place token = place other → token = other
  reported : ∀ entry ∈ tokens.zip balances, ∀ word, state vault (place entry.1).1 = some word →
    entry.2.toNat = (cashField word (place entry.1).2).toNat + managed entry.1

variable (layout : CashLayout tokens balances vault state)

/-- The field is one that the search looks at. -/
def Probed (verifiedSlots : List (Address × U256)) (vault : Address) (state : StateView) (highFieldCanBeCash : Bool)
    (place : U256 × Bool) : Prop :=
  (vault, place.1) ∈ verifiedSlots ∧ (state vault place.1).isSome = true ∧ (place.2 = true → highFieldCanBeCash = true)

theorem mem_cashMatches {balance : U256} {place : U256 × Bool} :
    place ∈ cashMatches verifiedSlots vault state highFieldCanBeCash balance ↔
      (vault, place.1) ∈ verifiedSlots ∧ (place.2 = true → highFieldCanBeCash = true) ∧
        ∃ word, state vault place.1 = some word ∧ cashField word place.2 = balance := by
  have hfields : ∀ slot word, place ∈ fieldsHolding balance highFieldCanBeCash slot word ↔
      place.1 = slot ∧ (place.2 = true → highFieldCanBeCash = true) ∧ cashField word place.2 = balance := by
    intro slot word
    obtain ⟨place, high⟩ := place
    cases high <;> simp [fieldsHolding, and_comm, and_left_comm]
  simp only [cashMatches, List.mem_flatMap, List.mem_filterMap, List.mem_filter, decide_eq_true_eq,
    Option.map_eq_some_iff, hfields]
  constructor
  · rintro ⟨⟨slot, word⟩, ⟨⟨address, slot'⟩, ⟨hmem, rfl⟩, word', hword, heq⟩, hslot, hhigh, hholds⟩
    cases heq
    cases hslot
    exact ⟨hmem, hhigh, word, hword, hholds⟩
  · rintro ⟨hmem, hhigh, word, hword, hholds⟩
    exact ⟨(place.1, word), ⟨(vault, place.1), ⟨hmem, rfl⟩, word, hword, rfl⟩, rfl, hhigh, hholds⟩

theorem mem_probeTokenCash {located : BalancerTokenBalance} :
    located ∈ probeTokenCash tokens balances verifiedSlots vault state highFieldCanBeCash ↔
      ∃ balance, (located.token, balance) ∈ tokens.zip balances ∧ balance ≠ 0 ∧
        cashMatches verifiedSlots vault state highFieldCanBeCash balance = [(located.slot, located.highField)] := by
  simp only [probeTokenCash, List.mem_filterMap]
  constructor
  · rintro ⟨⟨token, balance⟩, hmem, hlocated⟩
    dsimp only at hlocated
    split_ifs at hlocated with hzero
    split at hlocated
    · next hmatches =>
      cases hlocated
      exact ⟨balance, hmem, hzero, hmatches⟩
    · cases hlocated
  · rintro ⟨balance, hmem, hzero, hmatches⟩
    refine ⟨(located.token, balance), hmem, ?_⟩
    dsimp only
    rw [if_neg hzero, hmatches]

/-! ### Soundness -/

/-- What the search has to find: for each token that it locates the field of its cash, and no field for two tokens. -/
structure ProbeSound (verifiedSlots : List (Address × U256)) (highFieldCanBeCash : Bool) : Prop where
  own : ∀ located ∈ probeTokenCash tokens balances verifiedSlots vault state highFieldCanBeCash,
    (located.slot, located.highField) = layout.place located.token
  apart : ∀ located ∈ probeTokenCash tokens balances verifiedSlots vault state highFieldCanBeCash,
    ∀ other ∈ probeTokenCash tokens balances verifiedSlots vault state highFieldCanBeCash, located.token ≠ other.token →
      (located.slot, located.highField) ≠ (other.slot, other.highField)

/-- A token has a managed balance, or its cash is not among the fields that the search looks at, and its reported balance is
    what exactly one of those fields holds. -/
def Coincides (verifiedSlots : List (Address × U256)) (highFieldCanBeCash : Bool) (token : Address)
    (balance : U256) : Prop :=
  (layout.managed token ≠ 0 ∨ ¬Probed verifiedSlots vault state highFieldCanBeCash (layout.place token)) ∧
    (cashMatches verifiedSlots vault state highFieldCanBeCash balance).length = 1

/-- The field of a token's cash holds its balance where nothing is managed. -/
theorem place_mem_iff {token : Address} {balance : U256} (h : (token, balance) ∈ tokens.zip balances) :
    layout.place token ∈ cashMatches verifiedSlots vault state highFieldCanBeCash balance ↔
      layout.managed token = 0 ∧ Probed verifiedSlots vault state highFieldCanBeCash (layout.place token) := by
  have hreported := layout.reported _ h
  dsimp only at hreported
  rw [mem_cashMatches, Probed, Option.isSome_iff_exists]
  constructor
  · rintro ⟨hmem, hhigh, word, hword, hholds⟩
    have hsum := hreported word hword
    rw [hholds] at hsum
    exact ⟨by omega, hmem, ⟨word, hword⟩, hhigh⟩
  · rintro ⟨hmanaged, hmem, ⟨word, hword⟩, hhigh⟩
    have hsum := hreported word hword
    rw [hmanaged, Nat.add_zero] at hsum
    exact ⟨hmem, hhigh, word, hword, (BitVec.eq_of_toNat_eq hsum).symm⟩

/-- The search is sound exactly where no token's balance is by coincidence what one foreign field holds. -/
theorem probe_sound_iff : ProbeSound layout verifiedSlots highFieldCanBeCash ↔
    ∀ entry ∈ tokens.zip balances, entry.2 ≠ 0 → ¬Coincides layout verifiedSlots highFieldCanBeCash entry.1 entry.2 := by
  constructor
  · rintro h ⟨token, balance⟩ hentry hzero ⟨hblind, hone⟩
    obtain ⟨⟨slot, high⟩, hmatches⟩ := List.length_eq_one_iff.mp hone
    have hown : (slot, high) = layout.place token :=
      h.own ⟨token, slot, high⟩ (mem_probeTokenCash.mpr ⟨balance, hentry, hzero, hmatches⟩)
    have hplace : layout.place token ∈ cashMatches verifiedSlots vault state highFieldCanBeCash balance := by
      rw [hmatches, hown]
      exact List.mem_singleton_self _
    obtain ⟨hmanaged, hprobed⟩ := (place_mem_iff layout hentry).mp hplace
    rcases hblind with hblind | hblind
    · exact hblind hmanaged
    · exact hblind hprobed
  · intro h
    have hown : ∀ located ∈ probeTokenCash tokens balances verifiedSlots vault state highFieldCanBeCash,
        (located.slot, located.highField) = layout.place located.token := by
      intro located hlocated
      obtain ⟨balance, hentry, hzero, hmatches⟩ := mem_probeTokenCash.mp hlocated
      have hplace : layout.place located.token ∈ cashMatches verifiedSlots vault state highFieldCanBeCash balance := by
        by_contra hplace
        rw [place_mem_iff layout hentry, not_and_or] at hplace
        exact h _ hentry hzero ⟨hplace, by rw [hmatches]; rfl⟩
      rw [hmatches] at hplace
      exact (List.mem_singleton.mp hplace).symm
    refine ⟨hown, fun located hlocated other hother hne hsame => hne ?_⟩
    rw [hown located hlocated, hown other hother] at hsame
    obtain ⟨_, hentry, -⟩ := mem_probeTokenCash.mp hlocated
    obtain ⟨_, hentry', -⟩ := mem_probeTokenCash.mp hother
    exact layout.apart _ (List.of_mem_zip hentry).1 _ (List.of_mem_zip hentry').1 hsame

end

/-! ### A vault that misleads the search -/

/-- Slot 1 has 100 in cash and 50 managed, slot 2 has 150 in cash. -/
def misleadingVault : StateView := fun _ slot =>
  if slot = 1 then some (9 <<< 224 ||| 50 <<< 112 ||| 100) else if slot = 2 then some (9 <<< 224 ||| 150) else none

def misleadingLayout : CashLayout [0x01, 0x02] [150, 150] 0xba misleadingVault where
  place token := if token = 0x01 then (1, false) else (2, false)
  managed token := if token = 0x01 then 50 else 0
  apart := by simp
  reported := by
    intro entry hentry word hword
    rcases List.mem_cons.mp hentry with rfl | hentry
    · cases hword
      decide
    · cases List.mem_singleton.mp hentry
      cases hword
      decide

/-- Both tokens are located in slot 2. -/
theorem probe_not_sound : ¬ProbeSound misleadingLayout [(0xba, 1), (0xba, 2)] false := by
  intro h
  exact h.apart ⟨0x01, 2, false⟩ (by decide) ⟨0x02, 2, false⟩ (by decide) (by decide) rfl

/-! ### Swaps -/

section
variable {view : StateView} {vault : Address} {poolId : B256} {metadata : BalancerV2Metadata} {swap : SwapCashDelta}

/-- The cash that a warm word has in one field. -/
def cashAt (view : StateView) (vault : Address) (place : U256 × Bool) : Option Nat :=
  (view vault place.1).map fun word => (cashField word place.2).toNat

theorem cashAt_write (slot value : U256) (place : U256 × Bool) : cashAt (view.write ⟨vault, slot, value⟩) vault place =
    if place.1 = slot then some (cashField value place.2).toNat else cashAt view vault place := by
  simp only [cashAt, StateView.write, Function.update_self, Function.update_apply]
  split_ifs <;> rfl

theorem cashAt_of_view {slot word : U256} (h : view vault slot = some word) (field : Bool) :
    cashAt view vault (slot, field) = some (cashField word field).toNat := by
  simp only [cashAt, h, Option.map_some]

/-- The two fields of a swap are edited by its amounts, and every other field is as it was. -/
structure EditsCash (view after : StateView) (vault : Address) (inPlace outPlace : U256 × Bool)
    (swap : SwapCashDelta) : Prop where
  credited : ∃ cash, cashAt view vault inPlace = some cash ∧ cashAt after vault inPlace = some (cash + swap.amountIn.toNat)
  debited : ∃ cash, cashAt view vault outPlace = some (cash + swap.amountOut.toNat) ∧
    cashAt after vault outPlace = some cash
  others : ∀ place, place ≠ inPlace → place ≠ outPlace → cashAt after vault place = cashAt view vault place

/-- A swap edits the fields at which its tokens are located, and nothing else. -/
theorem eventSourceSwap_edits {updates : List SlotUpdate}
    (h : eventSourceSwap view vault poolId metadata swap = some updates) :
    ∃ inLoc outLoc, tokenCashLocation metadata swap.tokenIn = some inLoc ∧
      tokenCashLocation metadata swap.tokenOut = some outLoc ∧
      EditsCash view (updates.foldl .write view) vault (inLoc.slot, inLoc.highField)
        (outLoc.slot, outLoc.highField) swap := by
  obtain ⟨inLoc, hin, h⟩ := Option.bind_eq_some_iff.mp h
  obtain ⟨outLoc, hout, h⟩ := Option.bind_eq_some_iff.mp h
  refine ⟨inLoc, outLoc, hin, hout, ?_⟩
  split_ifs at h with hspecialization hslot hfield
  · obtain ⟨word, hword, h⟩ := Option.bind_eq_some_iff.mp h
    obtain ⟨wordIn, hcredit, h⟩ := Option.bind_eq_some_iff.mp h
    obtain ⟨wordOut, hdebit, h⟩ := Option.bind_eq_some_iff.mp h
    cases h
    obtain ⟨cashIn, hfields, hadd, -⟩ := applyCashDelta_eq_some hcredit
    obtain ⟨cashOut, hfields', -, hsub⟩ := applyCashDelta_eq_some hdebit
    have hbefore := cashAt_of_view hword
    rw [List.foldl_cons, List.foldl_nil, ← hslot]
    refine ⟨⟨_, hbefore _, ?_⟩, ⟨_, ?_, (cashAt_write ..).trans (if_pos rfl)⟩, ?_⟩
    · rw [cashAt_write, if_pos rfl, hfields', if_neg hfield, hfields, if_pos rfl, hadd rfl]
    · rw [hbefore, hfields', if_pos rfl, hsub rfl, hfields, if_neg (Ne.symm hfield)]
    · rintro ⟨slot, field⟩ hneIn hneOut
      rw [cashAt_write]
      dsimp only
      split_ifs with hplace
      · subst hplace
        rw [hbefore, hfields', if_neg fun heq => hneOut (by rw [heq]), hfields, if_neg fun heq => hneIn (by rw [heq])]
      · rfl
  · obtain ⟨wordIn, hwordIn, h⟩ := Option.bind_eq_some_iff.mp h
    obtain ⟨wordIn', hcredit, h⟩ := Option.bind_eq_some_iff.mp h
    obtain ⟨wordOut, hwordOut, h⟩ := Option.bind_eq_some_iff.mp h
    obtain ⟨wordOut', hdebit, h⟩ := Option.bind_eq_some_iff.mp h
    cases h
    obtain ⟨cashIn, hfields, hadd, -⟩ := applyCashDelta_eq_some hcredit
    obtain ⟨cashOut, hfields', -, hsub⟩ := applyCashDelta_eq_some hdebit
    have hin := cashAt_of_view hwordIn
    have hout := cashAt_of_view hwordOut
    rw [List.foldl_cons, List.foldl_cons, List.foldl_nil]
    refine ⟨⟨_, hin _, ?_⟩, ⟨_, ?_, (cashAt_write ..).trans (if_pos rfl)⟩, ?_⟩
    · rw [cashAt_write, if_neg hslot, cashAt_write, if_pos rfl, hfields, if_pos rfl, hadd rfl]
    · rw [hout, hfields', if_pos rfl, hsub rfl]
    · rintro ⟨slot, field⟩ hneIn hneOut
      rw [cashAt_write, cashAt_write]
      dsimp only
      split_ifs with hplace hplace
      · subst hplace
        rw [hout, hfields', if_neg fun heq => hneOut (by rw [heq])]
      · subst hplace
        rw [hin, hfields, if_neg fun heq => hneIn (by rw [heq])]
      · rfl

end
end AmmState.Balancer
