import AmmState.Theorems.Discovery.Lookup

/-! Which words a factory's lookups use, and whether its candidate reads list them. A factory keyed by fee lists the spacing
    mapping only; where its fees stand in a mapping of their own, they are looked up without being listed. -/

namespace AmmState.Discovery
open Fallible

variable (keccak256 : Bytes → B256)

namespace ClFactorySpec
variable (f : ClFactorySpec)

/-- The slots whose words a lookup uses. -/
def consults (candidate : Pair × ClLookupKey) : List StateSlot :=
  f.poolSlot keccak256 candidate.1 candidate.2 ::
    ((match candidate.2, f.keying with
      | .fee fee, .fee _ baseSlot => [⟨f.factory, v3FeeAmountTickSpacingSlot keccak256 baseSlot fee⟩]
      | _, _ => []) ++
    match f.feeSource with
    | .factoryMapping baseSlot => [f.feeSlot keccak256 baseSlot candidate.2]
    | _ => [])

/-- Fees that are looked up by fee stand in the spacing mapping, if anywhere. -/
def FeesListed (pairs : List Pair) : Prop :=
  match f.keying, f.feeSource with
  | .fee tiers spacingBase, .factoryMapping feeBase => feeBase = spacingBase ∨ tiers = [] ∨ pairs = []
  | _, _ => True

/-- An entry of one of the factory's mappings: a pool, or what a mapping from keys has under a key. -/
inductive MappingEntry
  | getPool (candidate : Pair × ClLookupKey)
  | ofKey (baseSlot : U256) (key : ClLookupKey)

def entrySlot : MappingEntry → StateSlot
  | .getPool candidate => f.poolSlot keccak256 candidate.1 candidate.2
  | .ofKey baseSlot key => f.feeSlot keccak256 baseSlot key

/-- The entries that a query can ask for. -/
def entries (pairs : List Pair) : List MappingEntry :=
  (f.candidates pairs).map .getPool ++
    (match f.keying with
      | .fee tiers baseSlot => tiers.map fun fee => .ofKey baseSlot (.fee fee)
      | .tickSpacing _ => []) ++
    match f.feeSource with
    | .factoryMapping baseSlot => f.lookupKeys.map (.ofKey baseSlot)
    | _ => []

/-- Different entries have different slots. -/
def DistinctSlots (pairs : List Pair) : Prop := Set.InjOn (f.entrySlot keccak256) {entry | entry ∈ f.entries pairs}

variable {f}

theorem probe_congr {values values' : Values} {candidate : Pair × ClLookupKey}
    (h : ∀ slot ∈ f.consults keccak256 candidate, values.get slot = values'.get slot) :
    f.probe keccak256 values candidate = f.probe keccak256 values' candidate := by
  have hspacing : f.spacingForKey keccak256 candidate.2 values = f.spacingForKey keccak256 candidate.2 values' := by
    unfold spacingForKey
    cases hkey : candidate.2 with
    | tickSpacing spacing => rfl
    | fee fee =>
      cases hkeying : f.keying with
      | tickSpacing spacings => rfl
      | fee tiers baseSlot =>
        dsimp only
        rw [h _ (List.mem_cons_of_mem _ (List.mem_append_left _ (by rw [hkey, hkeying]; exact List.mem_singleton.mpr rfl)))]
  have hfee : f.feeForKey keccak256 candidate.2 values = f.feeForKey keccak256 candidate.2 values' := by
    unfold feeForKey
    cases hsource : f.feeSource with
    | key => rfl
    | fixed fee => rfl
    | factoryMapping baseSlot =>
      dsimp only
      rw [h _ (List.mem_cons_of_mem _ (List.mem_append_right _ (by rw [hsource]; exact List.mem_singleton.mpr rfl)))]
  have hdescribe : f.describe keccak256 values candidate = f.describe keccak256 values' candidate := by
    funext pool
    rw [describe, describe, hspacing, hfee]
  rw [probe_eq, probe_eq, h _ List.mem_cons_self, hdescribe]

theorem mem_candidates {pairs : List Pair} {candidate : Pair × ClLookupKey} :
    candidate ∈ f.candidates pairs ↔ candidate.1 ∈ pairs ∧ candidate.2 ∈ f.lookupKeys := by
  simp only [candidates, List.mem_flatMap, List.mem_map]
  constructor
  · rintro ⟨pair, hpair, key, hkey, rfl⟩
    exact ⟨hpair, hkey⟩
  · rintro ⟨hpair, hkey⟩
    exact ⟨candidate.1, hpair, candidate.2, hkey, rfl⟩

/-- Where the fees are listed, every word of a lookup is. -/
theorem consults_listed {pairs : List Pair} (hfees : f.FeesListed pairs) {candidate : Pair × ClLookupKey}
    (hcandidate : candidate ∈ f.candidates pairs) {slot : StateSlot} (hslot : slot ∈ f.consults keccak256 candidate) :
    slot ∈ f.candidateReads keccak256 pairs := by
  obtain ⟨hpair, hkey⟩ := mem_candidates.mp hcandidate
  obtain ⟨pair, key⟩ := candidate
  unfold FeesListed at hfees
  unfold lookupKeys at hkey
  unfold consults at hslot
  unfold candidateReads
  cases hkeying : f.keying with
  | fee tiers spacingBase =>
    rw [hkeying] at hfees hkey hslot
    obtain ⟨fee, hfee, rfl⟩ := List.mem_map.mp hkey
    have hspacing : (⟨f.factory, v3FeeAmountTickSpacingSlot keccak256 spacingBase fee⟩ : StateSlot) ∈
        tiers.map fun fee => ⟨f.factory, v3FeeAmountTickSpacingSlot keccak256 spacingBase fee⟩ :=
      List.mem_map_of_mem hfee
    rcases List.mem_cons.mp hslot with rfl | hslot
    · exact List.mem_append_right _ (List.mem_flatMap.mpr ⟨pair, hpair, List.mem_map_of_mem hfee⟩)
    rcases List.mem_append.mp hslot with hslot | hslot
    · rw [List.mem_singleton.mp hslot]
      exact List.mem_append_left _ hspacing
    · cases hsource : f.feeSource with
      | key => simp [hsource] at hslot
      | fixed fee => simp [hsource] at hslot
      | factoryMapping feeBase =>
        rw [hsource] at hfees hslot
        rw [List.mem_singleton.mp hslot]
        rcases hfees with rfl | rfl | rfl
        · exact List.mem_append_left _ hspacing
        · cases hfee
        · cases hpair
  | tickSpacing spacings =>
    rw [hkeying] at hkey hslot
    obtain ⟨spacing, hspacing, rfl⟩ := List.mem_map.mp hkey
    refine List.mem_flatMap.mpr ⟨pair, hpair, List.mem_flatMap.mpr ⟨spacing, hspacing, ?_⟩⟩
    rcases List.mem_cons.mp hslot with rfl | hslot
    · exact List.mem_cons_self
    · exact List.mem_cons_of_mem _ hslot

theorem assemblePairs_congr {pairs : List Pair} (hfees : f.FeesListed pairs) {values values' : Values}
    (h : ∀ slot ∈ f.candidateReads keccak256 pairs, values.get slot = values'.get slot) :
    f.assemblePairs keccak256 pairs values = f.assemblePairs keccak256 pairs values' :=
  collect_congr fun _ hcandidate =>
    probe_congr keccak256 fun slot hslot => h slot (consults_listed keccak256 hfees hcandidate hslot)

theorem mem_candidateReads {tiers : List U32} {spacingBase : U256} (hkeying : f.keying = .fee tiers spacingBase)
    {pairs : List Pair} {slot : StateSlot} : slot ∈ f.candidateReads keccak256 pairs ↔
      (∃ fee ∈ tiers, slot = f.feeSlot keccak256 spacingBase (.fee fee)) ∨
        ∃ candidate ∈ f.candidates pairs, slot = f.poolSlot keccak256 candidate.1 candidate.2 := by
  have hkeys : f.lookupKeys = tiers.map .fee := by rw [lookupKeys, hkeying]
  rw [candidateReads, hkeying, candidates, hkeys]
  simp only [List.mem_append, List.mem_map, List.mem_flatMap, List.map_map]
  constructor
  · rintro (⟨fee, hfee, rfl⟩ | ⟨pair, hpair, fee, hfee, rfl⟩)
    · exact .inl ⟨fee, hfee, rfl⟩
    · exact .inr ⟨(pair, .fee fee), ⟨pair, hpair, fee, hfee, rfl⟩, rfl⟩
  · rintro (⟨fee, hfee, rfl⟩ | ⟨_, ⟨pair, hpair, fee, hfee, rfl⟩, rfl⟩)
    · exact .inl ⟨fee, hfee, rfl⟩
    · exact .inr ⟨pair, hpair, fee, hfee, rfl⟩

section
variable {tiers : List U32} {spacingBase feeBase : U256} {pairs : List Pair}

/-- A fee word of another mapping is no slot that a factory keyed by fee lists. -/
theorem feeSlot_not_listed (hdistinct : f.DistinctSlots keccak256 pairs) (hkeying : f.keying = .fee tiers spacingBase)
    (hsource : f.feeSource = .factoryMapping feeBase) (hbase : feeBase ≠ spacingBase) {tier : U32} (htier : tier ∈ tiers) :
    f.feeSlot keccak256 feeBase (.fee tier) ∉ f.candidateReads keccak256 pairs := by
  have hentry : MappingEntry.ofKey feeBase (.fee tier) ∈ f.entries pairs := by
    rw [entries, hsource, lookupKeys, hkeying]
    exact List.mem_append_right _ (List.mem_map_of_mem (List.mem_map_of_mem htier))
  rw [mem_candidateReads keccak256 hkeying]
  rintro (⟨fee, hfee, heq⟩ | ⟨candidate, hcandidate, heq⟩)
  · have hlisted : MappingEntry.ofKey spacingBase (.fee fee) ∈ f.entries pairs := by
      rw [entries, hkeying]
      exact List.mem_append_left _ (List.mem_append_right _ (List.mem_map_of_mem hfee))
    have hsame := hdistinct hentry hlisted heq
    exact hbase (MappingEntry.ofKey.inj hsame).1
  · have hlisted : MappingEntry.getPool candidate ∈ f.entries pairs :=
      List.mem_append_left _ (List.mem_append_left _ (List.mem_map_of_mem hcandidate))
    exact nomatch hdistinct hentry hlisted heq

/-- Where every listed word is one, a pool address and a positive spacing, all lookups by fee succeed. -/
theorem assemblePairs_ones (hkeying : f.keying = .fee tiers spacingBase) {storage : StateSlot → U256}
    (hones : ∀ slot ∈ f.candidateReads keccak256 pairs, storage slot = 1) :
    Returns (From true) (f.assemblePairs keccak256 pairs (total storage))
      ((f.candidates pairs).filterMap (f.heldKey keccak256 storage)) := by
  refine collect_returns fun candidate hcandidate => probe_returns keccak256 ?_
  have hpool := hones _ ((mem_candidateReads keccak256 hkeying).mpr (.inr ⟨candidate, hcandidate, rfl⟩))
  have hkey := (mem_candidates.mp hcandidate).2
  rw [lookupKeys, hkeying] at hkey
  obtain ⟨fee, hfee, hkey⟩ := List.mem_map.mp hkey
  have hspacing := hones _ ((mem_candidateReads keccak256 hkeying).mpr (.inl ⟨fee, hfee, rfl⟩))
  rw [feeSlot] at hspacing
  refine ⟨?_, fun _ => ⟨nofun, ?_⟩⟩
  · rw [hpool]
    decide
  · simp only [SoundKey, heldSpacing, ← hkey, hkeying, hspacing]
    decide

/-- Where the fees are not listed, two answers to the candidate reads that agree leave the fee open. -/
theorem reads_of_not_listed (hdistinct : f.DistinctSlots keccak256 pairs) (h : ¬ f.FeesListed pairs) :
    ∃ values values' : Values, (∀ slot ∈ f.candidateReads keccak256 pairs, values.get slot = values'.get slot) ∧
      f.assemblePairs keccak256 pairs values ≠ f.assemblePairs keccak256 pairs values' := by
  unfold FeesListed at h
  cases hkeying : f.keying with
  | tickSpacing spacings => simp [hkeying] at h
  | fee tiers spacingBase =>
  cases hsource : f.feeSource with
  | key => simp [hkeying, hsource] at h
  | fixed fee => simp [hkeying, hsource] at h
  | factoryMapping feeBase =>
  simp only [hkeying, hsource, not_or] at h
  obtain ⟨hbase, htiers, hpairs⟩ := h
  obtain ⟨tier, tiers', rfl⟩ := List.exists_cons_of_ne_nil htiers
  obtain ⟨pair, pairs', rfl⟩ := List.exists_cons_of_ne_nil hpairs
  have hhidden := feeSlot_not_listed keccak256 hdistinct hkeying hsource hbase List.mem_cons_self
  -- The first candidate is looked up under both storages.
  obtain ⟨rest, hrest⟩ : ∃ rest, f.candidates (pair :: pairs') = (pair, .fee tier) :: rest := by
    rw [candidates, List.flatMap_cons, lookupKeys, hkeying]
    exact ⟨_, rfl⟩
  let storage : StateSlot → U256 := fun _ => 1
  let storage' : StateSlot → U256 := Function.update storage (f.feeSlot keccak256 feeBase (.fee tier)) 5
  have hagree : ∀ slot ∈ f.candidateReads keccak256 (pair :: pairs'), storage' slot = storage slot := fun slot hslot =>
    Function.update_of_ne (by rintro rfl; exact hhidden hslot) _ _
  refine ⟨total storage, total storage', fun slot hslot => congrArg some (hagree slot hslot).symm, fun hassemble => ?_⟩
  have hones : ∀ slot ∈ f.candidateReads keccak256 (pair :: pairs'), storage slot = 1 := fun _ _ => rfl
  obtain ⟨latch, hrun, -⟩ := assemblePairs_ones keccak256 hkeying hones true id
  obtain ⟨latch', hrun', -⟩ := assemblePairs_ones keccak256 hkeying hagree true id
  rw [hassemble, hrun'] at hrun
  have hlists := Except.ok.inj (congrArg Prod.fst hrun)
  have hheld : ∀ storage : StateSlot → U256, storage (f.poolSlot keccak256 pair (.fee tier)) = 1 →
      f.heldKey keccak256 storage (pair, .fee tier) = some (f.registration 1 pair.1 pair.2
        (u32FromWord (storage (f.feeSlot keccak256 feeBase (.fee tier))))
          (f.heldSpacing keccak256 storage (.fee tier)) .query) := by
    intro storage hone
    simp only [heldKey, heldAt, hone, heldFee, hsource]
    rfl
  have hpool : f.poolSlot keccak256 pair (.fee tier) ∈ f.candidateReads keccak256 (pair :: pairs') :=
    (mem_candidateReads keccak256 hkeying).mpr (.inr ⟨_, hrest ▸ List.mem_cons_self, rfl⟩)
  rw [hrest, List.filterMap_cons_some (hheld _ (hagree _ hpool)), List.filterMap_cons_some (hheld _ rfl)] at hlists
  have hfee := (registration_eq_iff.mp (congrArg DiscoveredPool.registration (List.cons.inj hlists).1)).1
  rw [show storage' _ = 5 from Function.update_self _ _ _] at hfee
  exact absurd hfee (by decide)

end
end ClFactorySpec

/-! ### All factories -/

namespace PoolFactory

/-- The pools that the mappings of a storage hold for the pairs of a query. -/
def held (storage : StateSlot → U256) (f : PoolFactory) (pairs : List Pair) : List DiscoveredPool :=
  match f with
  | .uniswapV2 factory => pairs.filterMap (factory.heldPair keccak256 storage)
  | .concentratedLiquidity spec => (spec.candidates pairs).filterMap (spec.heldKey keccak256 storage)
  | .solidly config => (SolidlyFactoryConfig.candidates pairs).filterMap (config.heldVariant keccak256 storage)

/-- The words of a storage satisfy the checks of the lookups. -/
def Sound (storage : StateSlot → U256) (latch : Bool) (f : PoolFactory) (pairs : List Pair) : Prop :=
  match f with
  | .uniswapV2 factory => ∀ pair ∈ pairs, factory.SoundPair keccak256 storage latch pair
  | .concentratedLiquidity spec => ∀ candidate ∈ spec.candidates pairs, spec.SoundLookup keccak256 storage latch candidate
  | .solidly config =>
    ∀ candidate ∈ SolidlyFactoryConfig.candidates pairs, config.SoundVariant keccak256 storage latch candidate

def FeesListed : PoolFactory → List Pair → Prop
  | .concentratedLiquidity spec, pairs => spec.FeesListed pairs
  | _, _ => True

def DistinctSlots : PoolFactory → List Pair → Prop
  | .concentratedLiquidity spec, pairs => spec.DistinctSlots keccak256 pairs
  | _, _ => True

/-- A factory that looks up anything for a pair. -/
def Probes : PoolFactory → Prop
  | .concentratedLiquidity spec => spec.lookupKeys ≠ []
  | _ => True

variable {f : PoolFactory} {pairs : List Pair}

theorem assemblePairs_congr (hfees : f.FeesListed pairs) {values values' : Values}
    (h : ∀ slot ∈ f.candidateReads keccak256 pairs, values.get slot = values'.get slot) :
    f.assemblePairs keccak256 pairs values = f.assemblePairs keccak256 pairs values' := by
  cases f with
  | uniswapV2 factory => exact UniswapV2Factory.assemblePairs_congr keccak256 h
  | concentratedLiquidity spec => exact ClFactorySpec.assemblePairs_congr keccak256 hfees h
  | solidly config => exact SolidlyFactoryConfig.assemblePairs_congr keccak256 h

theorem reads_of_not_listed (hdistinct : f.DistinctSlots keccak256 pairs) (h : ¬ f.FeesListed pairs) :
    ∃ values values' : Values, (∀ slot ∈ f.candidateReads keccak256 pairs, values.get slot = values'.get slot) ∧
      f.assemblePairs keccak256 pairs values ≠ f.assemblePairs keccak256 pairs values' := by
  cases f with
  | uniswapV2 factory => exact absurd trivial h
  | concentratedLiquidity spec => exact ClFactorySpec.reads_of_not_listed keccak256 hdistinct h
  | solidly config => exact absurd trivial h

theorem assemblePairs_yields (storage : StateSlot → U256) :
    Yields (f.assemblePairs keccak256 pairs (total storage)) (f.held keccak256 storage pairs) := by
  cases f with
  | uniswapV2 factory => exact collect_yields fun pair _ => UniswapV2Factory.probe_yields keccak256 pair
  | concentratedLiquidity spec => exact collect_yields fun candidate _ => ClFactorySpec.probe_yields keccak256 candidate
  | solidly config => exact collect_yields fun candidate _ => SolidlyFactoryConfig.probe_yields keccak256 candidate

theorem assemblePairs_returns {storage : StateSlot → U256} {latch : Bool} (h : f.Sound keccak256 storage latch pairs) :
    Returns (From latch) (f.assemblePairs keccak256 pairs (total storage)) (f.held keccak256 storage pairs) := by
  cases f with
  | uniswapV2 factory => exact collect_returns fun pair hpair => UniswapV2Factory.probe_returns keccak256 (h pair hpair)
  | concentratedLiquidity spec =>
    exact collect_returns fun candidate hmem => ClFactorySpec.probe_returns keccak256 (h candidate hmem)
  | solidly config =>
    exact collect_returns fun candidate hmem => SolidlyFactoryConfig.probe_returns keccak256 (h candidate hmem)

theorem assemblePairs_errs (values : Values) :
    Errs (f.assemblePairs keccak256 pairs values) DiscoveryError.OfLookup := by
  cases f with
  | uniswapV2 factory => exact collect_errs (UniswapV2Factory.probe_errs keccak256 values)
  | concentratedLiquidity spec => exact collect_errs (ClFactorySpec.probe_errs keccak256 values)
  | solidly config => exact collect_errs (SolidlyFactoryConfig.probe_errs keccak256 values)

/-- A factory lists reads for its pairs unless there is nothing that it looks up. -/
theorem candidateReads_eq_nil_iff (hpairs : pairs ≠ []) : f.candidateReads keccak256 pairs = [] ↔ ¬ f.Probes := by
  obtain ⟨pair, pairs, rfl⟩ := List.exists_cons_of_ne_nil hpairs
  cases f with
  | uniswapV2 factory => exact iff_of_false nofun fun h => h trivial
  | solidly config => exact iff_of_false nofun fun h => h trivial
  | concentratedLiquidity spec =>
    unfold candidateReads Probes ClFactorySpec.candidateReads ClFactorySpec.lookupKeys
    cases hkeying : spec.keying with
    | fee tiers baseSlot => cases tiers <;> simp [hkeying]
    | tickSpacing spacings => cases spacings <;> simp [hkeying]

end PoolFactory
end AmmState.Discovery
