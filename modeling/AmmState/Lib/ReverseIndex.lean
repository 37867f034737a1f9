import AmmState.Lib.Map

/-! Reverse indexes: maps from a key to the set of owners that declare it, kept by inserting and removing
    one owner at a time. An index is read through `Owns`; an entry is dropped with its last owner. -/

namespace AmmState

/-- A map from a key to its owners. -/
abbrev ReverseIndex (K V : Type) : Type := Map K (Finset V)

namespace ReverseIndex
variable {K V : Type}

/-- The index names `v` as an owner of `k`. -/
def Owns (m : ReverseIndex K V) (k : K) (v : V) : Prop := ∃ s, m.get k = some s ∧ v ∈ s

/-- No key keeps an empty set of owners. -/
def NoEmpty (m : ReverseIndex K V) : Prop := ∀ k s, m.get k = some s → s ≠ ∅

theorem not_owns_empty (k : K) (v : V) : ¬Owns (Map.empty : ReverseIndex K V) k v := by
  rintro ⟨s, hs, -⟩
  simp at hs

theorem noEmpty_empty : NoEmpty (Map.empty : ReverseIndex K V) := by
  intro k s hs
  simp at hs

/-- An index without empty entries is determined by what it names. -/
theorem ext_of_owns {m n : ReverseIndex K V} (hm : NoEmpty m) (hn : NoEmpty n) (h : ∀ k v, Owns m k v ↔ Owns n k v) :
    m = n := by
  have hempty : ∀ {m n : ReverseIndex K V}, NoEmpty m → (∀ k v, Owns m k v → Owns n k v) → ∀ k, n.get k = none →
      m.get k = none := by
    intro m n hm h k hn
    rw [Option.eq_none_iff_forall_ne_some]
    intro s hs
    obtain ⟨v, hv⟩ := Finset.nonempty_iff_ne_empty.mpr (hm k s hs)
    obtain ⟨t, ht, -⟩ := h k v ⟨s, hs, hv⟩
    cases hn.symm.trans ht
  ext1 k
  cases hk : n.get k with
  | none => exact hempty hm (fun k v => (h k v).mp) k hk
  | some t =>
    cases hk' : m.get k with
    | none => cases (hempty hn (fun k v => (h k v).mpr) k hk').symm.trans hk
    | some s =>
      refine congrArg some (Finset.ext fun v => ?_)
      have hv := h k v
      simpa only [Owns, hk, hk', Option.some.injEq, exists_eq_left'] using hv

variable [DecidableEq K] [DecidableEq V]

/-- Name `v` as an owner of `k`. -/
def insertOwner (m : ReverseIndex K V) (k : K) (v : V) : ReverseIndex K V :=
  m.insert k (Insert.insert v ((m.get k).getD ∅))

/-- Remove `v` from the owners of `k`, and the entry of `k` with its last owner. -/
def removeOwner (m : ReverseIndex K V) (k : K) (v : V) : ReverseIndex K V :=
  match m.get k with
  | none => m
  | some owners =>
    let owners := owners.erase v
    if owners = ∅ then m.remove k else m.insert k owners

/-- Name `v` as an owner of each key of a list. -/
def insertOwners (m : ReverseIndex K V) (keys : List K) (v : V) : ReverseIndex K V :=
  keys.foldl (fun m k => insertOwner m k v) m

/-- Remove `v` from the owners of each key of a list. -/
def removeOwners (m : ReverseIndex K V) (keys : List K) (v : V) : ReverseIndex K V :=
  keys.foldl (fun m k => removeOwner m k v) m

variable {m : ReverseIndex K V} {k : K} {v : V}

theorem owns_insertOwner {k' : K} {v' : V} :
    Owns (insertOwner m k v) k' v' ↔ Owns m k' v' ∨ (k' = k ∧ v' = v) := by
  by_cases hk : k' = k
  · subst hk
    cases hm : m.get k' with
    | none => simp [Owns, insertOwner, hm]
    | some s => simp [Owns, insertOwner, hm, or_comm]
  · simp [Owns, insertOwner, Map.get_insert_of_ne hk, hk]

theorem noEmpty_insertOwner (h : NoEmpty m) : NoEmpty (insertOwner m k v) := by
  intro k' s hs
  rcases Map.get_insert_eq_some.mp hs with ⟨-, rfl⟩ | ⟨-, hs⟩
  · exact Finset.insert_ne_empty _ _
  · exact h k' s hs

theorem owns_removeOwner {k' : K} {v' : V} :
    Owns (removeOwner m k v) k' v' ↔ Owns m k' v' ∧ ¬(k' = k ∧ v' = v) := by
  unfold removeOwner
  cases hm : m.get k with
  | none =>
    refine ⟨fun h => ⟨h, ?_⟩, fun h => h.1⟩
    rintro ⟨rfl, -⟩
    obtain ⟨s, hs, -⟩ := h
    rw [hm] at hs
    cases hs
  | some owners =>
    by_cases he : owners.erase v = ∅
    · simp only [he, ite_true]
      by_cases hk : k' = k
      · subst hk
        refine ⟨?_, ?_⟩
        · rintro ⟨s, hs, -⟩
          simp at hs
        · rintro ⟨⟨s, hs, hv⟩, hne⟩
          rw [hm] at hs
          cases hs
          have : v' ∈ owners.erase v := Finset.mem_erase.mpr ⟨fun h => hne ⟨rfl, h⟩, hv⟩
          rw [he] at this
          cases this
      · simp [Owns, Map.get_remove_of_ne hk, hk]
    · simp only [he, ite_false]
      by_cases hk : k' = k
      · subst hk
        simp only [Owns, Map.get_insert_self, Option.some.injEq, hm, exists_eq_left', Finset.mem_erase, true_and]
        exact and_comm
      · simp [Owns, Map.get_insert_of_ne hk, hk]

theorem noEmpty_removeOwner (h : NoEmpty m) : NoEmpty (removeOwner m k v) := by
  unfold removeOwner
  cases hm : m.get k with
  | none => exact h
  | some owners =>
    by_cases he : owners.erase v = ∅
    · simp only [he, ite_true]
      intro k' s hs
      exact h k' s (Map.get_remove_eq_some.mp hs).2
    · simp only [he, ite_false]
      intro k' s hs
      rcases Map.get_insert_eq_some.mp hs with ⟨-, rfl⟩ | ⟨-, hs⟩
      · exact he
      · exact h k' s hs

theorem owns_insertOwners {k' : K} {v' : V} {keys : List K} {m : ReverseIndex K V} :
    Owns (insertOwners m keys v) k' v' ↔ Owns m k' v' ∨ (k' ∈ keys ∧ v' = v) := by
  induction keys generalizing m with
  | nil => simp [insertOwners]
  | cons k keys ih =>
    simp only [insertOwners, List.foldl_cons, List.mem_cons] at ih ⊢
    rw [ih, owns_insertOwner]
    tauto

theorem owns_removeOwners {k' : K} {v' : V} {keys : List K} {m : ReverseIndex K V} :
    Owns (removeOwners m keys v) k' v' ↔ Owns m k' v' ∧ ¬(k' ∈ keys ∧ v' = v) := by
  induction keys generalizing m with
  | nil => simp [removeOwners]
  | cons k keys ih =>
    simp only [removeOwners, List.foldl_cons, List.mem_cons] at ih ⊢
    rw [ih, owns_removeOwner]
    tauto

theorem noEmpty_insertOwners {keys : List K} {m : ReverseIndex K V} (h : NoEmpty m) : NoEmpty (insertOwners m keys v) := by
  induction keys generalizing m with
  | nil => exact h
  | cons k keys ih => exact ih (noEmpty_insertOwner h)

theorem noEmpty_removeOwners {keys : List K} {m : ReverseIndex K V} (h : NoEmpty m) : NoEmpty (removeOwners m keys v) := by
  induction keys generalizing m with
  | nil => exact h
  | cons k keys ih => exact ih (noEmpty_removeOwner h)

end ReverseIndex
end AmmState
