import AmmState.Theorems.Persistence

/-! The normal form of a registration: what it depends on, and when registrations that hold the same sets share it. -/

namespace AmmState.Persistence
open SortDedup

/-! ### Equal up to order and repetition -/

/-- The same elements, in any order and any number. -/
def SameElements {α : Type} (l m : List α) : Prop := ∀ a, a ∈ l ↔ a ∈ m

def SameWarmed (left right : V3Metadata) : Prop :=
  SameElements left.warmedSlots right.warmedSlots ∧ right = { left with warmedSlots := right.warmedSlots }

/-- The metadata of one protocol with the same dependency slots. -/
def SameMetadata : ProtocolMetadata → ProtocolMetadata → Prop
  | .uniswapV3 left, .uniswapV3 right => SameWarmed left right
  | .pancakeV3 left, .pancakeV3 right => SameWarmed left right
  | .slipstream left, .slipstream right => SameWarmed left right
  | .balancerV2 left, .balancerV2 right =>
    SameElements left.balanceSlots right.balanceSlots ∧ SameElements left.tokenCash right.tokenCash ∧
      right = { left with balanceSlots := right.balanceSlots, tokenCash := right.tokenCash }
  | .curve left, .curve right =>
    SameElements left.discoveredSlots right.discoveredSlots ∧
      right = { left with discoveredSlots := right.discoveredSlots }
  | left, right => right = left

/-- Two registrations that differ in the order and repetition of their state addresses, event sources and dependency
    slots only. -/
structure Equivalent (left right : PoolRegistration) : Prop where
  key : right.key = left.key
  status : right.status = left.status
  stateAddresses : SameElements left.stateAddresses right.stateAddresses
  eventSources : SameElements left.eventSources right.eventSources
  metadata : SameMetadata left.metadata right.metadata

/-- What a canonical form of a registration is: a fixed point, shared by all equivalent registrations, with every event
    source. -/
structure Canonicalizes (registration : PoolRegistration) : Prop where
  idem : ∀ r, normalizeRegistration registration = .ok r → normalizeRegistration r = .ok r
  shared : ∀ other, Equivalent registration other → normalizeRegistration other = normalizeRegistration registration
  sources : ∀ r, normalizeRegistration registration = .ok r →
    ∀ source ∈ registration.eventSources, normalizeSource source ∈ r.eventSources

/-- No two event sources differ in their indexed topics only. -/
def SourcesApart (registration : PoolRegistration) : Prop :=
  ∀ left ∈ registration.eventSources, ∀ right ∈ registration.eventSources,
    left.emitter = right.emitter → SameElements left.topics right.topics → left.route = right.route →
      left.indexedTopics = right.indexedTopics

/-- The dependency slots of a pool of the V3 family, which normalization leaves as they are. -/
def warmedSlots : ProtocolMetadata → List U256
  | .uniswapV3 metadata | .pancakeV3 metadata | .slipstream metadata => metadata.warmedSlots
  | _ => []

/-- The same metadata with every warmed slot listed twice. -/
def warmedTwice : ProtocolMetadata → ProtocolMetadata
  | .uniswapV3 metadata => .uniswapV3 { metadata with warmedSlots := metadata.warmedSlots ++ metadata.warmedSlots }
  | .pancakeV3 metadata => .pancakeV3 { metadata with warmedSlots := metadata.warmedSlots ++ metadata.warmedSlots }
  | .slipstream metadata => .slipstream { metadata with warmedSlots := metadata.warmedSlots ++ metadata.warmedSlots }
  | metadata => metadata

theorem SameMetadata.refl (metadata : ProtocolMetadata) : SameMetadata metadata metadata := by
  cases metadata <;> simp [SameMetadata, SameWarmed, SameElements]

theorem sameMetadata_warmedTwice (metadata : ProtocolMetadata) : SameMetadata metadata (warmedTwice metadata) := by
  cases metadata <;> simp [SameMetadata, SameWarmed, SameElements, warmedTwice]

theorem warmedSlots_normalizeMetadata (metadata : ProtocolMetadata) :
    warmedSlots (normalizeMetadata metadata) = warmedSlots metadata := by
  cases metadata <;> rfl

theorem warmedSlots_warmedTwice (metadata : ProtocolMetadata) :
    warmedSlots (warmedTwice metadata) = warmedSlots metadata ++ warmedSlots metadata := by
  cases metadata <;> rfl

/-! ### Keys -/

theorem toNat_injOn {w : Nat} (s : Set (BitVec w)) : Set.InjOn BitVec.toNat s := fun _ _ _ _ h => BitVec.toNat_inj.mp h

theorem sortDedup_toNat {w : Nat} {l m : List (BitVec w)} :
    sortDedup BitVec.toNat l = sortDedup BitVec.toNat m ↔ SameElements l m := by
  refine ⟨fun h a => ?_, fun h => sortDedup_congr _ (toNat_injOn _) h⟩
  rw [← mem_sortDedup_iff BitVec.toNat, h, mem_sortDedup_iff]

theorem tokenCashKey_injective : Function.Injective tokenCashKey := by
  rintro ⟨token, slot, high⟩ ⟨token', slot', high'⟩ h
  obtain ⟨htoken, hslot, hhigh⟩ : token = token' ∧ slot = slot' ∧ high = high' := by
    simpa [tokenCashKey, BitVec.toNat_inj] using h
  rw [htoken, hslot, hhigh]

theorem eventRouteKey_injective : Function.Injective eventRouteKey := by
  intro left right h
  cases left <;> cases right <;> simp [eventRouteKey, BitVec.toNat_inj] at h ⊢
  · exact h
  · exact h

/-- What the sort key of a source tells. -/
theorem eventSourceKey_eq {left right : EventSource} :
    eventSourceKey left = eventSourceKey right ↔
      left.emitter = right.emitter ∧ left.topics = right.topics ∧ left.route = right.route := by
  have htopics : left.topics.map BitVec.toNat = right.topics.map BitVec.toNat ↔ left.topics = right.topics :=
    (List.map_injective_iff.mpr fun _ _ => BitVec.toNat_inj.mp).eq_iff
  simp [eventSourceKey, BitVec.toNat_inj, htopics, eventRouteKey_injective.eq_iff]

theorem eventSourceKey_normalizeSource {left right : EventSource} :
    eventSourceKey (normalizeSource left) = eventSourceKey (normalizeSource right) ↔
      left.emitter = right.emitter ∧ SameElements left.topics right.topics ∧ left.route = right.route := by
  rw [eventSourceKey_eq, ← sortDedup_toNat]
  rfl

/-- Apart sources have one normal form where they have one sort key. -/
theorem SourcesApart.injOn {registration : PoolRegistration} (h : SourcesApart registration) :
    Set.InjOn eventSourceKey {source | source ∈ registration.eventSources.map normalizeSource} := by
  intro a ha b hb heq
  obtain ⟨left, hleft, rfl⟩ := List.mem_map.mp ha
  obtain ⟨right, hright, rfl⟩ := List.mem_map.mp hb
  obtain ⟨hemitter, htopics, hroute⟩ := eventSourceKey_normalizeSource.mp heq
  have hindexed := h left hleft right hright hemitter htopics hroute
  show EventSource.mk _ _ _ _ = EventSource.mk _ _ _ _
  rw [hemitter, sortDedup_toNat.mpr htopics, hroute, hindexed]

/-! ### One normal form -/

theorem SameWarmed.eq {left right : V3Metadata} (h : SameWarmed left right) (hcold : left.warmedSlots = []) :
    right = left := by
  obtain ⟨hslots, heq⟩ := h
  have hnil : right.warmedSlots = left.warmedSlots := by
    rw [hcold]
    exact List.eq_nil_iff_forall_not_mem.mpr fun slot hslot => by simpa [hcold] using (hslots slot).mpr hslot
  rw [heq, hnil]

theorem normalizeMetadata_congr {left right : ProtocolMetadata} (h : SameMetadata left right)
    (hcold : warmedSlots left = []) : normalizeMetadata right = normalizeMetadata left := by
  unfold SameMetadata at h
  split at h
  · rw [h.eq hcold]
  · rw [h.eq hcold]
  · rw [h.eq hcold]
  · obtain ⟨hslots, hcash, heq⟩ := h
    rw [heq, normalizeMetadata, normalizeMetadata, ← sortDedup_toNat.mpr hslots,
      ← sortDedup_congr _ tokenCashKey_injective.injOn hcash]
  · obtain ⟨hslots, heq⟩ := h
    rw [heq, normalizeMetadata, normalizeMetadata, ← sortDedup_toNat.mpr hslots]
  · rw [h]

theorem Equivalent.isCustom {left right : PoolRegistration} (h : Equivalent left right) :
    isCustom right = isCustom left := by
  obtain ⟨hkey, -, -, -, hmetadata⟩ := h
  rw [Persistence.isCustom, Persistence.isCustom, hkey]
  unfold SameMetadata at hmetadata
  split at hmetadata
  case h_6 => rw [hmetadata]
  all_goals
    rename_i hleft hright
    rw [hleft, hright]

theorem normalized_congr {left right : PoolRegistration} (hcold : warmedSlots left.metadata = [])
    (hapart : SourcesApart left) (h : Equivalent left right) : normalized right = normalized left := by
  have hsources : SameElements (left.eventSources.map normalizeSource) (right.eventSources.map normalizeSource) := by
    intro a
    simp only [List.mem_map]
    exact exists_congr fun source => and_congr_left' (h.eventSources source)
  show PoolRegistration.mk _ _ _ _ _ = PoolRegistration.mk _ _ _ _ _
  rw [h.key, h.status, normalizeMetadata_congr h.metadata hcold, ← sortDedup_toNat.mpr h.stateAddresses,
    ← sortDedup_congr _ hapart.injOn hsources]

theorem normalizeRegistration_of_custom {registration : PoolRegistration} (h : isCustom registration = true) :
    normalizeRegistration registration = .error (.unsupportedCustom registration.key) := by
  simp [normalizeRegistration, h, Checked.ensure]

theorem normalizeRegistration_of_builtIn {registration : PoolRegistration} (h : isCustom registration = false) :
    normalizeRegistration registration = .ok (normalized registration) :=
  normalizeRegistration_eq_ok.mpr ⟨h, rfl⟩

/-- A second event source of the same sort key may come before or after the first. -/
theorem Equivalent.cons_cons {registration : PoolRegistration} {left right : EventSource}
    (hleft : left ∈ registration.eventSources) (hright : right ∈ registration.eventSources) :
    Equivalent registration { registration with eventSources := left :: right :: registration.eventSources } where
  key := rfl
  status := rfl
  stateAddresses _ := Iff.rfl
  eventSources a := by
    refine ⟨fun h => List.mem_cons_of_mem _ (List.mem_cons_of_mem _ h), fun h => ?_⟩
    rcases List.mem_cons.mp h with rfl | h
    · exact hleft
    · rcases List.mem_cons.mp h with rfl | h
      · exact hright
      · exact h
  metadata := .refl _

/-- A normal form that all equivalent registrations share has no warmed slots to repeat. -/
theorem warmedSlots_of_shared {registration : PoolRegistration} (hbuiltIn : isCustom registration = false)
    (h : Canonicalizes registration) : warmedSlots registration.metadata = [] := by
  have htwice : Equivalent registration { registration with metadata := warmedTwice registration.metadata } :=
    ⟨rfl, rfl, fun _ => Iff.rfl, fun _ => Iff.rfl, sameMetadata_warmedTwice _⟩
  have hshared := h.shared _ htwice
  rw [normalizeRegistration_of_builtIn hbuiltIn,
    normalizeRegistration_of_builtIn (htwice.isCustom.trans hbuiltIn)] at hshared
  have hsame : warmedSlots (normalizeMetadata (warmedTwice registration.metadata)) =
      warmedSlots (normalizeMetadata registration.metadata) := congrArg (warmedSlots ·.metadata) (Except.ok.inj hshared)
  rw [warmedSlots_normalizeMetadata, warmedSlots_normalizeMetadata, warmedSlots_warmedTwice] at hsame
  exact List.append_right_eq_self.mp hsame

/-- Sources that differ in their indexed topics only keep the order that they come in. -/
theorem indexedTopics_of_shared {registration : PoolRegistration} (hbuiltIn : isCustom registration = false)
    (h : Canonicalizes registration) : SourcesApart registration := by
  intro left hleft right hright hemitter htopics hroute
  have hkey := eventSourceKey_normalizeSource.mpr ⟨hemitter, htopics, hroute⟩
  have hfirst : ∀ {s t : EventSource}, s ∈ registration.eventSources → t ∈ registration.eventSources →
      (normalized registration).eventSources.find? (eventSourceKey · = eventSourceKey (normalizeSource s)) =
        some (normalizeSource s) := by
    intro s t hs ht
    have hshared := h.shared _ (.cons_cons hs ht)
    rw [normalizeRegistration_of_builtIn hbuiltIn, normalizeRegistration_of_builtIn
      ((Equivalent.cons_cons hs ht).isCustom.trans hbuiltIn)] at hshared
    rw [← Except.ok.inj hshared]
    exact (find?_sortDedup eventSourceKey (fun _ => decide_eq_true_iff) _).trans
      (List.find?_cons_of_pos (decide_eq_true rfl))
  have heq : some (normalizeSource left) = some (normalizeSource right) := by
    rw [← hfirst hleft hright, hkey, hfirst hright hleft]
  have hnormal : normalizeSource left = normalizeSource right := Option.some.inj heq
  exact (congrArg EventSource.indexedTopics hnormal :)

/-- The normal form is canonical exactly for custom registrations, which have none, and for registrations without warmed
    slots and without event sources that differ in their indexed topics only. -/
theorem canonicalizes_iff (registration : PoolRegistration) :
    Canonicalizes registration ↔
      isCustom registration = true ∨ warmedSlots registration.metadata = [] ∧ SourcesApart registration := by
  rcases hcustom : isCustom registration with _ | _
  · refine ⟨fun h => .inr ⟨warmedSlots_of_shared hcustom h, indexedTopics_of_shared hcustom h⟩, fun h => ?_⟩
    obtain ⟨hcold, hapart⟩ := h.resolve_left nofun
    refine ⟨fun r hr => ?_, fun other hother => ?_, fun r hr source hsource => ?_⟩
    · obtain ⟨-, rfl⟩ := normalizeRegistration_eq_ok.mp hr
      exact normalizeRegistration_eq_ok.mpr ⟨(isCustom_normalized _).trans hcustom, normalized_idem _⟩
    · rw [normalizeRegistration_of_builtIn hcustom, normalizeRegistration_of_builtIn (hother.isCustom.trans hcustom),
        normalized_congr hcold hapart hother]
    · obtain ⟨-, rfl⟩ := normalizeRegistration_eq_ok.mp hr
      exact (mem_sortDedup_iff _).mpr (List.mem_map_of_mem hsource)
  · refine iff_of_true ⟨fun r hr => ?_, fun other hother => ?_, fun r hr => ?_⟩ (.inl rfl)
    · exact absurd (normalizeRegistration_eq_ok.mp hr).1 (by simp [hcustom])
    · rw [normalizeRegistration_of_custom hcustom, normalizeRegistration_of_custom (hother.isCustom.trans hcustom),
        hother.key]
    · exact absurd (normalizeRegistration_eq_ok.mp hr).1 (by simp [hcustom])

/-- Two filters of one emitter on its second topic. -/
def filteredSource (value : B256) : EventSource := ⟨0x11, [], .direct, [value], [], []⟩

def filteredPool : PoolRegistration := ⟨.uniswapV2 0x11, [], [filteredSource 1, filteredSource 2], .unknown, .ready⟩

/-- A pool of the V3 family with two warmed slots. -/
def warmedPool : PoolRegistration :=
  ⟨.uniswapV3 0x11, [], [], .uniswapV3 ⟨none, none, none, none, none, none, none, none, [4, 0]⟩, .ready⟩

theorem filteredPool_not_canonicalizes : ¬ Canonicalizes filteredPool ∧ ¬ Canonicalizes warmedPool := by
  refine ⟨fun h => ?_, fun h => ?_⟩
  · have heq := indexedTopics_of_shared rfl h (filteredSource 1) (by simp [filteredPool]) (filteredSource 2)
      (by simp [filteredPool]) rfl (fun _ => Iff.rfl) rfl
    simp [filteredSource] at heq
  · exact absurd (warmedSlots_of_shared rfl h) (by decide)

end AmmState.Persistence
