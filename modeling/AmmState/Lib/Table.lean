import Mathlib.Data.List.AList

/-! Tables: finite maps that a program also walks through. They are association lists with distinct keys, read through
    their lookups; walking one visits every entry once. -/

namespace AmmState

/-- A finite map that can be listed. -/
abbrev Table (K V : Type) : Type := AList fun _ : K => V

namespace Table
variable {K V W : Type}

def empty : Table K V := ∅

variable [DecidableEq K]

def get (t : Table K V) (k : K) : Option V := t.lookup k

def set (t : Table K V) (k : K) (v : V) : Table K V := t.insert k v

def remove (t : Table K V) (k : K) : Table K V := t.erase k

omit [DecidableEq K] in
theorem nodupKeys_filterMap (f : K → V → Option W) (l : List (Sigma fun _ : K => V)) (h : l.NodupKeys) :
    (l.filterMap fun e => (f e.1 e.2).map (Sigma.mk (β := fun _ : K => W) e.1)).NodupKeys := by
  induction l with
  | nil => exact List.nodupKeys_nil
  | cons head rest ih =>
    obtain ⟨hhead, hrest⟩ := List.nodupKeys_cons.mp h
    cases hf : f head.1 head.2 with
    | none =>
      rw [List.filterMap_cons_none (by rw [hf]; rfl)]
      exact ih hrest
    | some w =>
      rw [List.filterMap_cons_some (by rw [hf]; rfl), List.nodupKeys_cons]
      refine ⟨fun hmem => hhead ?_, ih hrest⟩
      obtain ⟨e, he, hkey⟩ := List.mem_map.mp hmem
      obtain ⟨old, hold, hsome⟩ := List.mem_filterMap.mp he
      obtain ⟨_, -, rfl⟩ := Option.map_eq_some_iff.mp hsome
      exact List.mem_map.mpr ⟨old, hold, hkey⟩

/-- Rework every entry, or drop it. -/
def filterMap (t : Table K V) (f : K → V → Option W) : Table K W :=
  ⟨t.entries.filterMap fun e => (f e.1 e.2).map (Sigma.mk e.1), nodupKeys_filterMap f _ t.nodupKeys⟩

def filter (t : Table K V) (p : K → V → Bool) : Table K V := t.filterMap fun k v => if p k v then some v else none

def map (t : Table K V) (f : K → V → V) : Table K V := t.filterMap fun k v => some (f k v)

/-- The entries that satisfy a condition, as a list of their keys. -/
def keysWhere (t : Table K V) (p : K → V → Bool) : List K :=
  (t.entries.filter fun e => p e.1 e.2).map Sigma.fst

variable {t : Table K V} {k k' : K} {v : V}

@[simp] theorem get_empty : (empty : Table K V).get k = none := AList.lookup_empty k

theorem get_set : (t.set k v).get k' = if k' = k then some v else t.get k' := by
  by_cases h : k' = k
  · subst h
    rw [if_pos rfl]
    exact AList.lookup_insert t
  · rw [if_neg h]
    exact AList.lookup_insert_ne h

theorem entries_set_ne_nil : (t.set k v).entries ≠ [] := by
  rw [set, AList.entries_insert]
  exact List.cons_ne_nil _ _

theorem get_remove : (t.remove k).get k' = if k' = k then none else t.get k' := by
  by_cases h : k' = k
  · subst h
    rw [if_pos rfl]
    exact AList.lookup_erase k' t
  · rw [if_neg h]
    exact AList.lookup_erase_ne h

theorem get_eq_some_iff : t.get k = some v ↔ Sigma.mk k v ∈ t.entries :=
  AList.mem_lookup_iff

theorem get_filterMap {f : K → V → Option W} : (t.filterMap f).get k = (t.get k).bind (f k) := by
  refine Option.ext fun w => ?_
  rw [get_eq_some_iff, Option.bind_eq_some_iff]
  constructor
  · intro h
    obtain ⟨⟨key, v⟩, hmem, hsome⟩ := List.mem_filterMap.mp h
    obtain ⟨w', hw, heq⟩ := Option.map_eq_some_iff.mp hsome
    cases heq
    exact ⟨v, get_eq_some_iff.mpr hmem, hw⟩
  · rintro ⟨v, hv, hw⟩
    exact List.mem_filterMap.mpr ⟨⟨k, v⟩, get_eq_some_iff.mp hv, by rw [hw]; rfl⟩

theorem get_filter_eq_some {p : K → V → Bool} : (t.filter p).get k = some v ↔ t.get k = some v ∧ p k v = true := by
  rw [filter, get_filterMap, Option.bind_eq_some_iff]
  constructor
  · rintro ⟨w, hw, hite⟩
    split_ifs at hite with hp
    obtain rfl := Option.some.inj hite
    exact ⟨hw, hp⟩
  · rintro ⟨hv, hp⟩
    exact ⟨v, hv, if_pos hp⟩

theorem get_map {f : K → V → V} : (t.map f).get k = (t.get k).map (f k) := by
  rw [map, get_filterMap, Option.map_eq_bind]
  rfl

theorem mem_keysWhere {p : K → V → Bool} : k ∈ t.keysWhere p ↔ ∃ v, t.get k = some v ∧ p k v = true := by
  rw [keysWhere, List.mem_map]
  constructor
  · rintro ⟨⟨key, v⟩, hmem, rfl⟩
    obtain ⟨hentry, hp⟩ := List.mem_filter.mp hmem
    exact ⟨v, get_eq_some_iff.mpr hentry, hp⟩
  · rintro ⟨v, hv, hp⟩
    exact ⟨⟨k, v⟩, List.mem_filter.mpr ⟨get_eq_some_iff.mp hv, hp⟩, rfl⟩

end Table
end AmmState
