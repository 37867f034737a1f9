import Mathlib.Data.List.Nodup
import Mathlib.Tactic.Common

/-! The first element of a list under every key, in the order of the list. -/

namespace AmmState.FirstBy
variable {α β K : Type} [DecidableEq K]

def firstBy (key : α → K) : List α → List α
  | [] => []
  | a :: rest => a :: (firstBy key rest).filter (key · ≠ key a)

variable {key : α → K}

theorem nodup_firstBy : ∀ l : List α, ((firstBy key l).map key).Nodup
  | [] => List.nodup_nil
  | a :: rest => by
    refine List.nodup_cons.mpr ⟨fun hmem => ?_, (nodup_firstBy rest).sublist (List.filter_sublist.map key)⟩
    obtain ⟨b, hb, hkey⟩ := List.mem_map.mp hmem
    exact of_decide_eq_true (List.mem_filter.mp hb).2 hkey

/-- Every key of the list keeps an element. -/
theorem mem_map_firstBy {l : List α} {k : K} : k ∈ (firstBy key l).map key ↔ k ∈ l.map key := by
  induction l with
  | nil => rfl
  | cons a rest ih =>
    rw [firstBy, List.map_cons, List.map_cons, List.mem_cons, List.mem_cons, ← ih]
    by_cases hk : k = key a
    · simp [hk]
    · simp only [hk, false_or, List.mem_map, List.mem_filter, decide_eq_true_eq]
      constructor
      · rintro ⟨b, ⟨hb, -⟩, rfl⟩
        exact ⟨b, hb, rfl⟩
      · rintro ⟨b, hb, rfl⟩
        exact ⟨b, ⟨hb, hk⟩, rfl⟩

/-- After a list, another one adds the keys that were not seen. -/
theorem firstBy_append (l m : List α) :
    firstBy key (l ++ m) = firstBy key l ++ (firstBy key m).filter (key · ∉ l.map key) := by
  induction l with
  | nil => simp [firstBy]
  | cons a rest ih =>
    rw [List.cons_append, firstBy, ih, List.filter_append, List.filter_filter, firstBy, List.cons_append]
    congr 2
    refine List.filter_congr fun b _ => ?_
    simp only [List.map_cons, List.mem_cons, not_or, Bool.decide_and]

theorem firstBy_eq_self {l : List α} (h : (l.map key).Nodup) : firstBy key l = l := by
  induction l with
  | nil => rfl
  | cons a rest ih =>
    obtain ⟨ha, hrest⟩ := List.nodup_cons.mp h
    rw [firstBy, ih hrest, List.filter_eq_self.mpr]
    exact fun b hb => decide_eq_true fun heq => ha (heq ▸ List.mem_map_of_mem hb)

theorem firstBy_idem (l : List α) : firstBy key (firstBy key l) = firstBy key l := firstBy_eq_self (nodup_firstBy l)

/-- Repetitions inside the parts make no difference to the whole. -/
theorem firstBy_flatMap (f : β → List α) (l : List β) :
    firstBy key (l.flatMap fun b => firstBy key (f b)) = firstBy key (l.flatMap f) := by
  induction l with
  | nil => rfl
  | cons b rest ih =>
    rw [List.flatMap_cons, List.flatMap_cons, firstBy_append, firstBy_append, ih, firstBy_idem]
    simp only [mem_map_firstBy]

/-! ### Keeping what was not seen -/

/-- Go through a list with the keys seen so far; keep the elements whose key is new. -/
def keepUnseen (key : α → K) : List K → List α → List K × List α
  | seen, [] => (seen, [])
  | seen, a :: rest =>
    if key a ∈ seen then keepUnseen key seen rest
    else
      let (seen, kept) := keepUnseen key (key a :: seen) rest
      (seen, a :: kept)

theorem keepUnseen_snd (seen : List K) (l : List α) :
    (keepUnseen key seen l).2 = (firstBy key l).filter (key · ∉ seen) := by
  induction l generalizing seen with
  | nil => rfl
  | cons a rest ih =>
    rw [keepUnseen, firstBy]
    split_ifs with ha
    · rw [ih, List.filter_cons_of_neg (by simpa using ha), List.filter_filter]
      refine List.filter_congr fun b _ => ?_
      by_cases hb : key b ∈ seen
      · simp [hb]
      · have hne : key b ≠ key a := fun heq => hb (heq ▸ ha)
        simp [hb, hne]
    · rw [List.filter_cons_of_pos (by simpa using ha), List.filter_filter]
      refine congrArg (a :: ·) ((ih _).trans (List.filter_congr fun b _ => ?_))
      simp only [List.mem_cons, not_or, Bool.decide_and]
      exact Bool.and_comm _ _

theorem mem_keepUnseen_fst {seen : List K} {l : List α} {k : K} :
    k ∈ (keepUnseen key seen l).1 ↔ k ∈ seen ∨ k ∈ l.map key := by
  induction l generalizing seen with
  | nil => simp [keepUnseen]
  | cons a rest ih =>
    rw [keepUnseen, List.map_cons, List.mem_cons]
    split_ifs with ha
    · rw [ih]
      constructor
      · rintro (h | h)
        · exact .inl h
        · exact .inr (.inr h)
      · rintro (h | rfl | h)
        · exact .inl h
        · exact .inl ha
        · exact .inr h
    · refine ih.trans ?_
      rw [List.mem_cons, or_comm (a := k = key a), or_assoc]

end AmmState.FirstBy
