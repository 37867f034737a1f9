import Mathlib.Data.Finset.Card
import Mathlib.Data.Finset.Max

/-! Keeping the newest `n` of a growing set: what a bounded store keeps beside the set it would keep without a bound. -/

namespace AmmState
variable {α O : Type} [LinearOrder O]

/-- `kept` holds `n` elements of `live`, or all of them, and leaves out none that is newer than one it holds. -/
structure Newest (age : α → O) (n : Nat) (live kept : Finset α) : Prop where
  subset : kept ⊆ live
  card : kept.card = min n live.card
  newest : ∀ a ∈ kept, ∀ b ∈ live, b ∉ kept → age b ≤ age a

namespace Newest
variable {age : α → O} {n : Nat} {live kept : Finset α}

theorem card_le (h : Newest age n live kept) : kept.card ≤ n := h.card.trans_le (min_le_left _ _)

/-- All of a set that the bound has room for. -/
theorem all (h : live.card ≤ n) : Newest age n live live :=
  ⟨subset_rfl, (min_eq_right h).symm, fun _ _ _ hb hnot => absurd hb hnot⟩

/-- Below the bound nothing is left out. -/
theorem eq_of_lt (h : Newest age n live kept) (hlt : kept.card < n) : kept = live :=
  Finset.eq_of_subset_of_card_le h.subset (by have := h.card; omega)

/-- What is left out leaves the bound reached. -/
theorem card_eq (h : Newest age n live kept) {b : α} (hb : b ∈ live) (hnot : b ∉ kept) : kept.card = n := by
  have hlt : kept.card < live.card := Finset.card_lt_card ⟨h.subset, fun hle => hnot (hle hb)⟩
  have := h.card
  omega

section
variable [DecidableEq α]

theorem insert_mem (h : Newest age n live kept) {a : α} (ha : a ∈ kept) : Newest age n (insert a live) kept := by
  rw [Finset.insert_eq_of_mem (h.subset ha)]
  exact h

theorem insert_room (h : Newest age n live kept) (hlt : kept.card < n) {a : α} (ha : a ∉ kept) :
    Newest age n (insert a live) (insert a kept) := by
  obtain rfl := h.eq_of_lt hlt
  exact all (by rw [Finset.card_insert_of_notMem ha]; exact hlt)

/-- An arrival that is no newer than what a full set keeps is left out. -/
theorem insert_reject (h : Newest age n live kept) (hfull : kept.card = n) {a : α}
    (hold : ∀ b ∈ kept, age a ≤ age b) : Newest age n (insert a live) kept where
  subset := h.subset.trans (Finset.subset_insert a live)
  card := by
    have := Finset.card_le_card (h.subset.trans (Finset.subset_insert a live))
    omega
  newest b hb c hc hnot := by
    rcases Finset.mem_insert.mp hc with rfl | hc
    · exact hold b hb
    · exact h.newest b hb c hc hnot

/-- A newer arrival takes the place of the oldest. -/
theorem insert_evict (h : Newest age n live kept) {a oldest : α} (ha : a ∉ kept) (holdest : oldest ∈ kept)
    (hmin : ∀ b ∈ kept, age oldest ≤ age b) (hnew : age oldest < age a) (hfull : kept.card = n) :
    Newest age n (insert a live) (insert a (kept.erase oldest)) where
  subset := Finset.insert_subset_insert a ((Finset.erase_subset _ _).trans h.subset)
  card := by
    have hcard : (insert a (kept.erase oldest)).card = kept.card := by
      rw [Finset.card_insert_of_notMem fun h => ha (Finset.mem_of_mem_erase h), Finset.card_erase_add_one holdest]
    have := Finset.card_le_card (h.subset.trans (Finset.subset_insert a live))
    omega
  newest b hb c hc hnot := by
    have hge : age oldest ≤ age b := by
      rcases Finset.mem_insert.mp hb with rfl | hb
      · exact hnew.le
      · exact hmin b (Finset.mem_of_mem_erase hb)
    have hc : c ∈ live := (Finset.mem_insert.mp hc).resolve_left fun heq => hnot (heq ▸ Finset.mem_insert_self c _)
    by_cases hkept : c ∈ kept
    · -- Only the oldest went out.
      have heq : c = oldest := by
        by_contra hne
        exact hnot (Finset.mem_insert_of_mem (Finset.mem_erase.mpr ⟨hne, hkept⟩))
      exact heq ▸ hge
    · exact (h.newest oldest holdest c hc hkept).trans hge

end

/-- Dropping the old ones, from both sets. -/
theorem filter_of_upward (h : Newest age n live kept) {p : α → Prop} [DecidablePred p]
    (hp : ∀ a ∈ live, ∀ b ∈ live, age a ≤ age b → p a → p b) : Newest age n (live.filter p) (kept.filter p) := by
  by_cases hout : ∃ b ∈ live, b ∉ kept ∧ p b
  · obtain ⟨b, hb, hnot, hpb⟩ := hout
    have hall : kept.filter p = kept :=
      Finset.filter_true_of_mem fun a ha => hp b hb a (h.subset ha) (h.newest a ha b hb hnot) hpb
    rw [hall]
    refine ⟨fun a ha => Finset.mem_filter.mpr ⟨h.subset ha, ?_⟩, ?_, fun a ha c hc hc' => ?_⟩
    · rw [← hall] at ha
      exact (Finset.mem_filter.mp ha).2
    · have hlt : kept.card < (live.filter p).card := by
        refine Finset.card_lt_card ⟨fun a ha => ?_, fun hle => hnot (hle (Finset.mem_filter.mpr ⟨hb, hpb⟩))⟩
        exact Finset.mem_filter.mpr ⟨h.subset ha, (Finset.mem_filter.mp (hall ▸ ha)).2⟩
      have := h.card_eq hb hnot
      omega
    · exact h.newest a ha c (Finset.mem_filter.mp hc).1 hc'
  · have heq : live.filter p = kept.filter p := by
      refine Finset.Subset.antisymm (fun a ha => ?_) (Finset.filter_subset_filter p h.subset)
      obtain ⟨ha, hpa⟩ := Finset.mem_filter.mp ha
      exact Finset.mem_filter.mpr ⟨by_contra fun hnot => hout ⟨a, ha, hnot, hpa⟩, hpa⟩
    rw [heq]
    exact all ((Finset.card_le_card (Finset.filter_subset p kept)).trans h.card_le)

/-- Dropping elements that are left out anyhow. -/
theorem filter_of_kept (h : Newest age n live kept) {p : α → Prop} [DecidablePred p] (hp : ∀ a ∈ kept, p a) :
    Newest age n (live.filter p) (kept.filter p) := by
  have hall : kept.filter p = kept := Finset.filter_true_of_mem hp
  have hsub : kept ⊆ live.filter p := fun a ha => Finset.mem_filter.mpr ⟨h.subset ha, hp a ha⟩
  have hle := Finset.card_le_card (Finset.filter_subset p live)
  have hge := Finset.card_le_card hsub
  have hcard := h.card
  rw [hall]
  exact ⟨hsub, by omega, fun a ha b hb hnot => h.newest a ha b (Finset.mem_filter.mp hb).1 hnot⟩

/-- Where everything that remains is kept. -/
theorem filter_of_all (h : Newest age n live kept) {p : α → Prop} [DecidablePred p] (hp : ∀ a ∈ live, p a → a ∈ kept) :
    Newest age n (live.filter p) (kept.filter p) := by
  have heq : live.filter p = kept.filter p := by
    refine Finset.Subset.antisymm (fun a ha => ?_) (Finset.filter_subset_filter p h.subset)
    obtain ⟨ha, hpa⟩ := Finset.mem_filter.mp ha
    exact Finset.mem_filter.mpr ⟨hp a ha hpa, hpa⟩
  rw [heq]
  exact all ((Finset.card_le_card (Finset.filter_subset p kept)).trans h.card_le)

end Newest
end AmmState
