import AmmState.Discovery.Pools

/-! What the lookups of a factory find: the pools that the mappings of its storage hold. A lookup asks one word of a pool
    mapping, then goes on by what the factory knows of the pool; an answer, where there is one, is the storage's. -/

namespace AmmState.Discovery
open Fallible

/-- The words of a whole storage. -/
def total (storage : StateSlot → U256) : Values := fun slot => some (storage slot)

@[simp] theorem get_total (storage : StateSlot → U256) (slot : StateSlot) :
    (total storage).get slot = some (storage slot) :=
  rfl

/-- Errors other than the refusal of a factory that lists no reads. -/
def DiscoveryError.OfLookup (error : DiscoveryError) : Prop :=
  ∀ protocol factory, error ≠ .preparedModeUnsupported protocol factory

/-- A derivation, if any, agrees with the mapping. -/
def Verified (expected : Option Address) (pool : Address) : Prop := ∀ derived, expected = some derived → derived = pool

/-- The pool of a mapping's word. -/
def heldAt (word : U256) (describe : Address → DiscoveredPool) : Option DiscoveredPool :=
  let pool : Address := word.setWidth 160
  if pool = 0 then none else some (describe pool)

/-- A mapping's word is an address, and a pool there satisfies the checks of its factory. -/
def SoundAt (word : U256) (checked : Address → Prop) : Prop :=
  word.toNat < 2 ^ 160 ∧ ((word.setWidth 160 : Address) ≠ 0 → checked (word.setWidth 160))

/-- The shape of all lookups. -/
def lookUp (word : Option U256) (expected : Option Address) (finish : Address → Latched (Option DiscoveredPool)) :
    Latched (Option DiscoveredPool) :=
  match word with
  | none => return none
  | some word => do
    let pool ← addressOf word
    if pool = 0 then return none
    verifyOnce expected pool
    finish pool

/-! ### Lookups -/

theorem addressOf_of_lt {word : U256} (h : word.toNat < 2 ^ 160) : addressOf word = pure (word.setWidth 160) := by
  unfold addressOf addressFromWord
  rw [if_pos h]
  rfl

theorem addressOf_yields (word : U256) : Yields (addressOf word) (word.setWidth 160) := by
  by_cases h : word.toNat < 2 ^ 160
  · rw [addressOf_of_lt h]
    exact .pure _
  · unfold addressOf addressFromWord
    rw [if_neg h]
    exact .throw _ _

theorem addressOf_errs (word : U256) : Errs (addressOf word) DiscoveryError.OfLookup := by
  unfold addressOf
  cases addressFromWord word with
  | none => exact .throw nofun
  | some address => exact .pure _

theorem verifyOnce_errs (expected : Option Address) (pool : Address) :
    Errs (verifyOnce expected pool) DiscoveryError.OfLookup := by
  refine .bind .get fun verified => .ite (.pure _) ?_
  cases expected with
  | none => exact .pure _
  | some derived => exact .ite (.bind (.throw nofun) fun _ => .set _) (.set _)

/-- The latch stays set from `latch` on. -/
def From (latch current : Bool) : Prop := latch = true → current = true

theorem verifyOnce_returns {latch : Bool} {expected : Option Address} {pool : Address}
    (h : latch = false → Verified expected pool) : Returns (From latch) (verifyOnce expected pool) () := by
  intro current hcurrent
  cases current with
  | true => exact ⟨true, rfl, hcurrent⟩
  | false =>
    have hlatch : latch = false := Bool.eq_false_iff.mpr fun hlatch => nomatch hcurrent hlatch
    cases expected with
    | none => exact ⟨false, rfl, hcurrent⟩
    | some derived =>
      obtain rfl := h hlatch derived rfl
      simp only [verifyOnce, ne_eq, not_true, if_false]
      exact ⟨true, rfl, fun _ => rfl⟩

section
variable {word : U256} {expected : Option Address} {finish : Address → Latched (Option DiscoveredPool)}
  {describe : Address → DiscoveredPool}

theorem lookUp_yields (hfinish : ∀ pool, Yields (finish pool) (some (describe pool))) :
    Yields (lookUp (some word) expected finish) (heldAt word describe) := by
  refine (addressOf_yields word).bind ?_
  rw [heldAt]
  split_ifs with hpool
  · exact .pure _
  · exact .bind (a := ()) (fun _ _ _ _ => rfl) (hfinish _)

theorem lookUp_returns {latch : Bool} {checked : Address → Prop} (h : SoundAt word checked)
    (hchecked : ∀ pool, checked pool →
      (latch = false → Verified expected pool) ∧ Returns (From latch) (finish pool) (some (describe pool))) :
    Returns (From latch) (lookUp (some word) expected finish) (heldAt word describe) := by
  unfold lookUp
  dsimp only
  rw [addressOf_of_lt h.1, heldAt, pure_bind]
  split_ifs with hpool
  · exact .pure _
  · obtain ⟨hverified, hreturns⟩ := hchecked _ (h.2 hpool)
    exact .bind (verifyOnce_returns hverified) hreturns

theorem lookUp_errs (hfinish : ∀ pool, Errs (finish pool) DiscoveryError.OfLookup) (word : Option U256) :
    Errs (lookUp word expected finish) DiscoveryError.OfLookup := by
  cases word with
  | none => exact .pure _
  | some word =>
    exact .bind (addressOf_errs word) fun pool => .ite (.pure _) (.bind (verifyOnce_errs _ _) fun _ => hfinish pool)

end

/-! ### Lists of candidates -/

section
variable {α : Type} {probe : α → Latched (Option DiscoveredPool)} {held : α → Option DiscoveredPool} {candidates : List α}

theorem collect_congr {probe' : α → Latched (Option DiscoveredPool)}
    (h : ∀ candidate ∈ candidates, probe candidate = probe' candidate) :
    collect probe candidates = collect probe' candidates := by
  induction candidates with
  | nil => rfl
  | cons candidate rest ih =>
    rw [collect, collect, h candidate List.mem_cons_self, ih fun c hc => h c (List.mem_cons_of_mem _ hc)]

theorem collect_yields (h : ∀ candidate ∈ candidates, Yields (probe candidate) (held candidate)) :
    Yields (collect probe candidates) (candidates.filterMap held) := by
  induction candidates with
  | nil => exact .pure _
  | cons candidate rest ih =>
    refine .bind (h candidate List.mem_cons_self) (.bind (ih fun c hc => h c (List.mem_cons_of_mem _ hc)) ?_)
    rw [List.filterMap_cons]
    cases held candidate <;> exact .pure _

theorem collect_returns {P : Bool → Prop} (h : ∀ candidate ∈ candidates, Returns P (probe candidate) (held candidate)) :
    Returns P (collect probe candidates) (candidates.filterMap held) := by
  induction candidates with
  | nil => exact .pure _
  | cons candidate rest ih =>
    refine .bind (h candidate List.mem_cons_self) (.bind (ih fun c hc => h c (List.mem_cons_of_mem _ hc)) ?_)
    rw [List.filterMap_cons]
    cases held candidate <;> exact .pure _

theorem collect_errs {E : DiscoveryError → Prop} (h : ∀ candidate, Errs (probe candidate) E) :
    Errs (collect probe candidates) E := by
  induction candidates with
  | nil => exact .pure _
  | cons candidate rest ih => exact .bind (h candidate) fun _ => .bind ih fun _ => .pure _

end

section
variable (keccak256 : Bytes → B256)

/-! ### Uniswap V2 -/

namespace UniswapV2Factory
variable (f : UniswapV2Factory) (storage : StateSlot → U256)

/-- The pool of a pair. -/
def heldPair (pair : Pair) : Option DiscoveredPool :=
  heldAt (storage (f.pairSlot keccak256 pair)) fun pool => f.registration pool pair.1 pair.2 .query

/-- A derivation matters as long as none was verified. -/
def SoundPair (latch : Bool) (pair : Pair) : Prop :=
  SoundAt (storage (f.pairSlot keccak256 pair)) fun pool =>
    latch = false → Verified (f.derivation keccak256 pair.1 pair.2) pool

variable {f storage}

theorem probe_eq (values : Values) (pair : Pair) : f.probe keccak256 values pair =
    lookUp (values.get (f.pairSlot keccak256 pair)) (f.derivation keccak256 pair.1 pair.2) fun pool =>
      return some (f.registration pool pair.1 pair.2 .query) := rfl

theorem probe_yields (pair : Pair) : Yields (f.probe keccak256 (total storage) pair) (f.heldPair keccak256 storage pair) :=
  lookUp_yields fun _ => .pure _

theorem probe_returns {latch : Bool} {pair : Pair} (h : f.SoundPair keccak256 storage latch pair) :
    Returns (From latch) (f.probe keccak256 (total storage) pair) (f.heldPair keccak256 storage pair) :=
  lookUp_returns h fun _ hchecked => ⟨hchecked, .pure _⟩

theorem probe_errs (values : Values) (pair : Pair) : Errs (f.probe keccak256 values pair) DiscoveryError.OfLookup :=
  lookUp_errs (fun _ => .pure _) _

/-- A lookup depends on the words of the listed slots only. -/
theorem assemblePairs_congr {pairs : List Pair} {values values' : Values}
    (h : ∀ slot ∈ f.candidateReads keccak256 pairs, values.get slot = values'.get slot) :
    f.assemblePairs keccak256 pairs values = f.assemblePairs keccak256 pairs values' :=
  collect_congr fun pair hpair => by rw [probe_eq, probe_eq, h _ (List.mem_map_of_mem hpair)]

end UniswapV2Factory

/-! ### Solidly -/

namespace SolidlyFactoryConfig
variable (f : SolidlyFactoryConfig) (storage : StateSlot → U256)

/-- The pool of a pair and a variant. -/
def heldVariant (candidate : Pair × Bool) : Option DiscoveredPool :=
  heldAt (storage (f.poolSlot keccak256 candidate)) fun pool =>
    f.registration pool candidate.1.1 candidate.1.2 candidate.2 .query

def SoundVariant (latch : Bool) (candidate : Pair × Bool) : Prop :=
  SoundAt (storage (f.poolSlot keccak256 candidate)) fun pool =>
    latch = false → Verified (f.derivation keccak256 candidate.1.1 candidate.1.2 candidate.2) pool

variable {f storage}

theorem probe_eq (values : Values) (candidate : Pair × Bool) : f.probe keccak256 values candidate =
    lookUp (values.get (f.poolSlot keccak256 candidate))
      (f.derivation keccak256 candidate.1.1 candidate.1.2 candidate.2) fun pool =>
        return some (f.registration pool candidate.1.1 candidate.1.2 candidate.2 .query) := rfl

theorem probe_yields (candidate : Pair × Bool) :
    Yields (f.probe keccak256 (total storage) candidate) (f.heldVariant keccak256 storage candidate) :=
  lookUp_yields fun _ => .pure _

theorem probe_returns {latch : Bool} {candidate : Pair × Bool} (h : f.SoundVariant keccak256 storage latch candidate) :
    Returns (From latch) (f.probe keccak256 (total storage) candidate) (f.heldVariant keccak256 storage candidate) :=
  lookUp_returns h fun _ hchecked => ⟨hchecked, .pure _⟩

theorem probe_errs (values : Values) (candidate : Pair × Bool) :
    Errs (f.probe keccak256 values candidate) DiscoveryError.OfLookup := lookUp_errs (fun _ => .pure _) _

theorem assemblePairs_congr {pairs : List Pair} {values values' : Values}
    (h : ∀ slot ∈ f.candidateReads keccak256 pairs, values.get slot = values'.get slot) :
    f.assemblePairs keccak256 pairs values = f.assemblePairs keccak256 pairs values' :=
  collect_congr fun candidate hcandidate => by rw [probe_eq, probe_eq, h _ (List.mem_map_of_mem hcandidate)]

end SolidlyFactoryConfig

/-! ### Concentrated liquidity -/

namespace ClFactorySpec
variable (f : ClFactorySpec) (storage : StateSlot → U256)

/-- The spacing of the pools of a key. -/
def heldSpacing : ClLookupKey → U32
  | .tickSpacing spacing => spacing
  | .fee fee =>
    match f.keying with
    | .tickSpacing _ => fee
    | .fee _ baseSlot => i24FromWord (storage ⟨f.factory, v3FeeAmountTickSpacingSlot keccak256 baseSlot fee⟩)

/-- The fee of the pools of a key. -/
def heldFee (key : ClLookupKey) : U32 :=
  match f.feeSource with
  | .key =>
    match key with
    | .fee fee => fee
    | .tickSpacing _ => 0
  | .fixed fee => fee
  | .factoryMapping baseSlot => u32FromWord (storage (f.feeSlot keccak256 baseSlot key))

/-- The pool of a pair and a key. -/
def heldKey (candidate : Pair × ClLookupKey) : Option DiscoveredPool :=
  heldAt (storage (f.poolSlot keccak256 candidate.1 candidate.2)) fun pool =>
    f.registration pool candidate.1.1 candidate.1.2 (f.heldFee keccak256 storage candidate.2)
      (f.heldSpacing keccak256 storage candidate.2) .query

/-- A key by its fee has a positive spacing, and a fee that is to be the key is looked up by fee. -/
def SoundKey (key : ClLookupKey) : Prop :=
  match key with
  | .tickSpacing _ => match f.feeSource with | .key => False | _ => True
  | .fee _ => match f.keying with | .tickSpacing _ => True | .fee _ _ => 0 < (f.heldSpacing keccak256 storage key).toInt

def SoundLookup (latch : Bool) (candidate : Pair × ClLookupKey) : Prop :=
  SoundAt (storage (f.poolSlot keccak256 candidate.1 candidate.2)) fun pool =>
    (latch = false → Verified (f.derivation keccak256 candidate.1.1 candidate.1.2 candidate.2) pool) ∧
      f.SoundKey keccak256 storage candidate.2

/-- The spacing, the fee and the registration of a pool that a key has. -/
def describe (values : Values) (candidate : Pair × ClLookupKey) (pool : Address) : Latched (Option DiscoveredPool) := do
  let spacing ← f.spacingForKey keccak256 candidate.2 values
  let fee ← f.feeForKey keccak256 candidate.2 values
  return some (f.registration pool candidate.1.1 candidate.1.2 fee spacing .query)

variable {f storage}

/-- A registration tells the fee and the spacing. -/
theorem registration_eq_iff {pool token0 token1 : Address} {fee fee' spacing spacing' : U32}
    {source source' : DiscoverySource} :
    (f.registration pool token0 token1 fee spacing source).registration =
      (f.registration pool token0 token1 fee' spacing' source').registration ↔ fee = fee' ∧ spacing = spacing' := by
  refine ⟨fun h => ?_, fun ⟨hfee, hspacing⟩ => by rw [hfee, hspacing]; rfl⟩
  have hmetadata := congrArg PoolRegistration.metadata h
  have hparts : (if fee ≠ 0 then some fee.toNat else none) = (if fee' ≠ 0 then some fee'.toNat else none) ∧
      some spacing.toInt = some spacing'.toInt := by
    unfold registration protocolMetadata newRegistration at hmetadata
    cases hprotocol : f.protocol <;> simp only [hprotocol] at hmetadata <;> injection hmetadata with hv3 <;>
      exact ⟨congrArg V3Metadata.fee hv3, congrArg V3Metadata.tickSpacing hv3⟩
  refine ⟨?_, BitVec.eq_of_toInt_eq (Option.some.inj hparts.2)⟩
  have hfee := hparts.1
  split_ifs at hfee with h0 h1 h1
  · exact BitVec.eq_of_toNat_eq (Option.some.inj hfee)
  · exact (not_not.mp h0).trans (not_not.mp h1).symm

theorem probe_eq (values : Values) (candidate : Pair × ClLookupKey) : f.probe keccak256 values candidate =
    lookUp (values.get (f.poolSlot keccak256 candidate.1 candidate.2))
      (f.derivation keccak256 candidate.1.1 candidate.1.2 candidate.2) (f.describe keccak256 values candidate) := rfl

theorem spacingForKey_yields (key : ClLookupKey) :
    Yields (f.spacingForKey keccak256 key (total storage)) (f.heldSpacing keccak256 storage key) := by
  unfold spacingForKey heldSpacing
  cases key with
  | tickSpacing spacing => exact .pure _
  | fee fee =>
    cases f.keying with
    | tickSpacing spacings => exact .pure _
    | fee tiers baseSlot =>
      dsimp only
      split_ifs
      · exact .throw _ _
      · exact .pure _

theorem feeForKey_yields (key : ClLookupKey) :
    Yields (f.feeForKey keccak256 key (total storage)) (f.heldFee keccak256 storage key) := by
  unfold feeForKey heldFee
  cases f.feeSource with
  | fixed fee => exact .pure _
  | factoryMapping baseSlot => exact .pure _
  | key =>
    cases key with
    | fee fee => exact .pure _
    | tickSpacing spacing => exact .throw _ _

theorem probe_yields (candidate : Pair × ClLookupKey) :
    Yields (f.probe keccak256 (total storage) candidate) (f.heldKey keccak256 storage candidate) :=
  lookUp_yields fun _ =>
    .bind (spacingForKey_yields keccak256 _) (.bind (feeForKey_yields keccak256 _) (.pure _))

theorem spacingForKey_returns {P : Bool → Prop} {key : ClLookupKey} (h : f.SoundKey keccak256 storage key) :
    Returns P (f.spacingForKey keccak256 key (total storage)) (f.heldSpacing keccak256 storage key) := by
  unfold SoundKey heldSpacing at h
  unfold spacingForKey heldSpacing
  cases key with
  | tickSpacing spacing => exact .pure _
  | fee fee =>
    cases hkeying : f.keying with
    | tickSpacing spacings => exact .pure _
    | fee tiers baseSlot =>
      rw [hkeying] at h
      dsimp only
      split_ifs with hneg
      · exact absurd hneg (not_le.mpr h)
      · exact .pure _

theorem feeForKey_returns {P : Bool → Prop} {key : ClLookupKey} (h : f.SoundKey keccak256 storage key) :
    Returns P (f.feeForKey keccak256 key (total storage)) (f.heldFee keccak256 storage key) := by
  unfold SoundKey at h
  unfold feeForKey heldFee
  cases hsource : f.feeSource with
  | fixed fee => exact .pure _
  | factoryMapping baseSlot => exact .pure _
  | key =>
    cases key with
    | fee fee => exact .pure _
    | tickSpacing spacing =>
      rw [hsource] at h
      exact h.elim

theorem probe_returns {latch : Bool} {candidate : Pair × ClLookupKey}
    (h : f.SoundLookup keccak256 storage latch candidate) :
    Returns (From latch) (f.probe keccak256 (total storage) candidate) (f.heldKey keccak256 storage candidate) :=
  lookUp_returns h fun _ ⟨hverified, hkey⟩ =>
    ⟨hverified, .bind (spacingForKey_returns keccak256 hkey) (.bind (feeForKey_returns keccak256 hkey) (.pure _))⟩

theorem probe_errs (values : Values) (candidate : Pair × ClLookupKey) :
    Errs (f.probe keccak256 values candidate) DiscoveryError.OfLookup := by
  refine lookUp_errs (fun pool => .bind ?_ fun spacing => .bind ?_ fun fee => .pure _) _
  · unfold spacingForKey
    cases candidate.2 with
    | tickSpacing spacing => exact .pure _
    | fee fee =>
      cases f.keying with
      | tickSpacing spacings => exact .pure _
      | fee tiers baseSlot => exact .ite (.bind (.throw nofun) fun _ => .pure _) (.pure _)
  · unfold feeForKey
    cases f.feeSource with
    | fixed fee => exact .pure _
    | factoryMapping baseSlot => exact .pure _
    | key =>
      cases candidate.2 with
      | fee fee => exact .pure _
      | tickSpacing spacing => exact .throw nofun

end ClFactorySpec
end
end AmmState.Discovery
