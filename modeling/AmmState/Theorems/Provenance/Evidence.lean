import AmmState.Provenance.Handlers

/-! Evidence under the operations of the actor: whom it names, what a watcher leaves behind, and what crosses a reorg. -/

namespace AmmState.Provenance

namespace RegistrationEvidenceSet
variable {set other retained : RegistrationEvidenceSet} {owner : DiscoveryOwnerId} {dropped : List B256}

theorem containsOwner_iff : set.containsOwner owner = true ↔ ∃ item ∈ set.evidence, item.source = some owner :=
  decide_eq_true_iff

theorem containsOwner_merge : (set.merge other).containsOwner owner = true ↔
    set.containsOwner owner = true ∨ other.containsOwner owner = true := by
  simp only [containsOwner_iff, merge, Finset.mem_union]
  constructor
  · rintro ⟨item, hitem | hitem, hsource⟩
    · exact .inl ⟨item, hitem, hsource⟩
    · exact .inr ⟨item, hitem, hsource⟩
  · rintro (⟨item, hitem, hsource⟩ | ⟨item, hitem, hsource⟩)
    · exact ⟨item, .inl hitem, hsource⟩
    · exact ⟨item, .inr hitem, hsource⟩

theorem containsOwner_one {item : RegistrationProvenance} : (one item).containsOwner owner = true ↔
    item.source = some owner := by
  simp [containsOwner_iff, one, new]

theorem evidence_retain {p : RegistrationProvenance → Bool} (h : set.retain p = some retained) :
    retained.evidence = set.evidence.filter (p · = true) := by
  unfold retain at h
  split_ifs at h with hsome
  exact congrArg evidence (Option.some.inj h).symm

theorem retain_eq_none {p : RegistrationProvenance → Bool} :
    set.retain p = none ↔ ∀ item ∈ set.evidence, p item = false := by
  unfold retain
  split_ifs with hsome
  · obtain ⟨item, hitem⟩ := hsome
    obtain ⟨hitem, hp⟩ := Finset.mem_filter.mp hitem
    exact iff_of_false id fun hall => Bool.false_ne_true ((hall item hitem).symm.trans hp)
  · refine iff_of_true rfl fun item hitem => ?_
    by_contra hp
    exact hsome ⟨item, Finset.mem_filter.mpr ⟨hitem, Bool.not_eq_false _ ▸ hp⟩⟩

theorem mem_withoutOwner (h : set.withoutOwner owner = some retained) {item : RegistrationProvenance} :
    item ∈ retained.evidence ↔ item ∈ set.evidence ∧ item.source ≠ some owner := by
  rw [evidence_retain h, Finset.mem_filter, decide_eq_true_iff]

theorem withoutOwner_eq_none : set.withoutOwner owner = none ↔ ∀ item ∈ set.evidence, item.source = some owner := by
  simp only [withoutOwner, retain_eq_none, decide_eq_false_iff_not, not_not]

theorem mem_withoutDroppedHashes (h : set.withoutDroppedHashes dropped = some retained) {item : RegistrationProvenance} :
    item ∈ retained.evidence ↔ item ∈ set.evidence ∧ item.offBlocks dropped = true := by
  rw [evidence_retain h, Finset.mem_filter]

theorem withoutDroppedHashes_eq_none :
    set.withoutDroppedHashes dropped = none ↔ ∀ item ∈ set.evidence, item.offBlocks dropped = false := retain_eq_none

end RegistrationEvidenceSet

/-- An item off the dropped blocks keeps its registration. -/
theorem RegistrationProvenance.keeps_of_offBlocks {dropped : List B256} {item : RegistrationProvenance}
    (h : item.offBlocks dropped = true) : item.keeps dropped = true := by
  cases item with
  | stable source => rfl
  | stateQuery owner chainId blockNumber hash policy => cases policy with
    | finalized => rfl
    | revalidateOnReorg => exact h
  | factoryLog owner factory chainId blockNumber hash transaction index => exact h

variable {dropped : List B256} {set evidence : RegistrationEvidenceSet}

/-- Evidence with an item off the dropped blocks crosses the reorg. -/
theorem crossing_isSome (h : ∃ item ∈ set.evidence, item.offBlocks dropped = true) :
    (crossing dropped set).isSome = true := by
  obtain ⟨item, hitem, hoff⟩ := h
  have hkeep : set.reorgAction dropped = .keep := if_pos ⟨item, hitem, RegistrationProvenance.keeps_of_offBlocks hoff⟩
  rw [crossing, if_neg (not_not.mpr hkeep), Option.isSome_iff_ne_none, Ne,
    RegistrationEvidenceSet.withoutDroppedHashes_eq_none]
  exact fun hall => Bool.false_ne_true ((hall item hitem).symm.trans hoff)

/-- What crosses a reorg is the evidence off the dropped blocks. -/
theorem mem_crossing (h : crossing dropped set = some evidence) {item : RegistrationProvenance} :
    item ∈ evidence.evidence ↔ item ∈ set.evidence ∧ item.offBlocks dropped = true := by
  unfold crossing at h
  split_ifs at h
  exact RegistrationEvidenceSet.mem_withoutDroppedHashes h

theorem exists_offBlocks_of_crossing (h : crossing dropped set = some evidence) :
    ∃ item ∈ set.evidence, item.offBlocks dropped = true := by
  obtain ⟨item, hitem⟩ := evidence.nonempty
  exact ⟨item, (mem_crossing h).mp hitem⟩

theorem crossing_eq_none : crossing dropped set = none ↔ ∀ item ∈ set.evidence, item.offBlocks dropped = false := by
  constructor
  · intro h item hitem
    by_contra hoff
    have hsome : (crossing dropped set).isSome = true := crossing_isSome ⟨item, hitem, Bool.not_eq_false _ ▸ hoff⟩
    rw [h] at hsome
    cases hsome
  · intro h
    cases hcrossing : crossing dropped set with
    | none => rfl
    | some evidence =>
      obtain ⟨item, hitem, hoff⟩ := exists_offBlocks_of_crossing hcrossing
      cases (h item hitem).symm.trans hoff

/-- The evidence of a pending candidate crosses a reorg as that of scheduled work does. -/
theorem reconcileCandidate_eq (dropped : List B256) (candidate : AmmFactoryCandidate) :
    reconcileCandidate dropped candidate = (crossing dropped candidate.evidence).map fun evidence => { candidate with
      evidence
      revalidate := if evidence.containsStateQueryOwner candidate.owner then candidate.revalidate else none } := by
  unfold reconcileCandidate crossing
  split_ifs <;> rfl

end AmmState.Provenance
