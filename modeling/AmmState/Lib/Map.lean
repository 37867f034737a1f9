import Mathlib.Data.Finset.Basic
import Mathlib.Data.Finset.Insert
import Mathlib.Logic.Function.Basic

/-! Finite maps as lookup functions. Two maps with the same lookups are equal, which is all that a program
    that only inserts, removes and looks up can see of one. -/

namespace AmmState

/-- A map from keys to values, read through its lookups. -/
def Map (K V : Type) : Type := K → Option V

namespace Map
variable {K V : Type}

def empty : Map K V := fun _ => none

def get (m : Map K V) (k : K) : Option V := m k

def contains (m : Map K V) (k : K) : Bool := (m.get k).isSome

variable [DecidableEq K]

def insert (m : Map K V) (k : K) (v : V) : Map K V := fun k' => if k' = k then some v else m k'

def remove (m : Map K V) (k : K) : Map K V := fun k' => if k' = k then none else m k'

omit [DecidableEq K] in
@[ext]
theorem ext {m n : Map K V} (h : ∀ k, m.get k = n.get k) : m = n := funext h

omit [DecidableEq K] in
@[simp] theorem get_empty (k : K) : (empty : Map K V).get k = none := rfl

theorem get_insert (m : Map K V) (k k' : K) (v : V) :
    (m.insert k v).get k' = if k' = k then some v else m.get k' := rfl

theorem get_remove (m : Map K V) (k k' : K) : (m.remove k).get k' = if k' = k then none else m.get k' := rfl

@[simp] theorem get_insert_self (m : Map K V) (k : K) (v : V) : (m.insert k v).get k = some v := by
  simp [get_insert]

@[simp] theorem get_remove_self (m : Map K V) (k : K) : (m.remove k).get k = none := by
  simp [get_remove]

theorem get_insert_of_ne {m : Map K V} {k k' : K} {v : V} (h : k' ≠ k) : (m.insert k v).get k' = m.get k' := by
  simp [get_insert, h]

theorem get_remove_of_ne {m : Map K V} {k k' : K} (h : k' ≠ k) : (m.remove k).get k' = m.get k' := by
  simp [get_remove, h]

omit [DecidableEq K] in
theorem contains_iff {m : Map K V} {k : K} : m.contains k = true ↔ ∃ v, m.get k = some v := by
  simp [contains, Option.isSome_iff_exists]

omit [DecidableEq K] in
theorem contains_eq_false {m : Map K V} {k : K} : m.contains k = false ↔ m.get k = none := by
  simp [contains]

/-- Storing under a key the value it already holds changes nothing. -/
theorem insert_get {m : Map K V} {k : K} {v : V} (h : m.get k = some v) : m.insert k v = m := by
  ext1 k'
  by_cases hk : k' = k
  · rw [hk, get_insert_self, h]
  · exact get_insert_of_ne hk

theorem get_remove_eq_some {m : Map K V} {k k' : K} {v : V} :
    (m.remove k).get k' = some v ↔ k' ≠ k ∧ m.get k' = some v := by
  by_cases hk : k' = k <;> simp [get_remove, hk]

theorem get_insert_eq_some {m : Map K V} {k k' : K} {v w : V} :
    (m.insert k v).get k' = some w ↔ (k' = k ∧ v = w) ∨ (k' ≠ k ∧ m.get k' = some w) := by
  by_cases hk : k' = k <;> simp [get_insert, hk]

/-- Storing a list of values under keys of their own, all different, over what stood there. -/
theorem get_foldl_insert (key : V → K) {l : List V} (hl : (l.map key).Nodup) (m : Map K V) {k : K} {v : V} :
    (l.foldl (fun m v => m.insert (key v) v) m).get k = some v ↔
      v ∈ l ∧ key v = k ∨ (∀ w ∈ l, key w ≠ k) ∧ m.get k = some v := by
  induction l generalizing m with
  | nil => simp
  | cons head rest ih =>
    obtain ⟨hhead, hrest⟩ := List.nodup_cons.mp hl
    rw [List.foldl_cons, ih hrest, get_insert_eq_some]
    constructor
    · rintro (⟨hv, hk⟩ | ⟨hnot, ⟨rfl, rfl⟩ | ⟨hne, hv⟩⟩)
      · exact .inl ⟨List.mem_cons_of_mem _ hv, hk⟩
      · exact .inl ⟨List.mem_cons_self, rfl⟩
      · refine .inr ⟨fun w hw => ?_, hv⟩
        rcases List.mem_cons.mp hw with rfl | hw
        · exact Ne.symm hne
        · exact hnot w hw
    · rintro (⟨hv, rfl⟩ | ⟨hnot, hv⟩)
      · rcases List.mem_cons.mp hv with rfl | hv
        · exact .inr ⟨fun w hw heq => hhead (heq ▸ List.mem_map_of_mem hw), .inl ⟨rfl, rfl⟩⟩
        · exact .inl ⟨hv, rfl⟩
      · exact .inr ⟨fun w hw => hnot w (List.mem_cons_of_mem _ hw), .inr ⟨(hnot head List.mem_cons_self).symm, hv⟩⟩

/-- Storing values of their own under keys that are all different. -/
theorem get_foldl_insert_mem {A : Type} {key : A → K} {value : A → V} {l : List A} (hl : (l.map key).Nodup) (m : Map K V)
    {a : A} (ha : a ∈ l) : (l.foldl (fun m a => m.insert (key a) (value a)) m).get (key a) = some (value a) := by
  induction l using List.reverseRecOn with
  | nil => cases ha
  | append_singleton rest last ih =>
    rw [List.map_append, List.nodup_append] at hl
    rw [List.foldl_append]
    rcases List.mem_append.mp ha with ha | ha
    · have hne : key a ≠ key last := hl.2.2 _ (List.mem_map_of_mem ha) _ (List.mem_singleton.mpr rfl)
      exact (get_insert_of_ne hne).trans (ih hl.1 ha)
    · obtain rfl := List.mem_singleton.mp ha
      exact get_insert_self _ _ _

theorem get_foldl_insert_of_notMem {A : Type} {key : A → K} {value : A → V} {l : List A} (m : Map K V) {k : K}
    (hk : k ∉ l.map key) : (l.foldl (fun m a => m.insert (key a) (value a)) m).get k = m.get k := by
  induction l generalizing m with
  | nil => rfl
  | cons head rest ih =>
    rw [List.map_cons, List.mem_cons, not_or] at hk
    exact (ih _ hk.2).trans (get_insert_of_ne hk.1)

end Map
end AmmState
