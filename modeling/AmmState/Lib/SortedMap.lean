import Mathlib.Data.List.Sort
import Mathlib.Order.Basic

/-! Ordered maps as lists of entries with strictly increasing keys. Iteration goes in key order, and two maps with the same
    lookups are equal. -/

namespace AmmState

/-- A map from ordered keys to values, as its entries in key order. -/
structure SortedMap (K V : Type) [LinearOrder K] where
  entries : List (K × V)
  sorted : (entries.map Prod.fst).Pairwise (· < ·)

namespace SortedMap
variable {K V : Type} [LinearOrder K]

instance [DecidableEq V] : DecidableEq (SortedMap K V) := fun m n =>
  decidable_of_iff (m.entries = n.entries) ⟨fun h => by cases m; cases n; congr, fun h => h ▸ rfl⟩

def empty : SortedMap K V := ⟨[], .nil⟩

def lookup (entries : List (K × V)) (k : K) : Option V := (entries.find? (·.1 = k)).map Prod.snd

def get (m : SortedMap K V) (k : K) : Option V := lookup m.entries k

def keys (m : SortedMap K V) : List K := m.entries.map Prod.fst

/-- The entries with one stored under its key, over what stood there. -/
def insertEntry (k : K) (v : V) : List (K × V) → List (K × V)
  | [] => [(k, v)]
  | (a, b) :: rest => if k < a then (k, v) :: (a, b) :: rest else if k = a then (k, v) :: rest
    else (a, b) :: insertEntry k v rest

theorem mem_insertEntry {k : K} {v : V} {entries : List (K × V)} {e : K × V} (h : e ∈ insertEntry k v entries) :
    e = (k, v) ∨ e ∈ entries := by
  induction entries with
  | nil => exact .inl (List.mem_singleton.mp h)
  | cons head rest ih =>
    obtain ⟨a, b⟩ := head
    unfold insertEntry at h
    split_ifs at h with hlt heq
    · exact List.mem_cons.mp h
    · exact (List.mem_cons.mp h).imp_right (List.mem_cons_of_mem _)
    · rcases List.mem_cons.mp h with h | h
      · exact .inr (h ▸ List.mem_cons_self)
      · exact (ih h).imp_right (List.mem_cons_of_mem _)

theorem sorted_insertEntry {k : K} {v : V} {entries : List (K × V)} (h : (entries.map Prod.fst).Pairwise (· < ·)) :
    ((insertEntry k v entries).map Prod.fst).Pairwise (· < ·) := by
  induction entries with
  | nil => exact List.pairwise_singleton _ _
  | cons head rest ih =>
    obtain ⟨a, b⟩ := head
    obtain ⟨hhead, hrest⟩ := List.pairwise_cons.mp h
    unfold insertEntry
    split_ifs with hlt heq
    · refine List.pairwise_cons.mpr ⟨fun x hx => ?_, h⟩
      rcases List.mem_cons.mp hx with rfl | hx
      · exact hlt
      · exact hlt.trans (hhead x hx)
    · subst heq
      exact List.pairwise_cons.mpr ⟨hhead, hrest⟩
    · refine List.pairwise_cons.mpr ⟨fun x hx => ?_, ih hrest⟩
      obtain ⟨e, he, rfl⟩ := List.mem_map.mp hx
      rcases mem_insertEntry he with rfl | he
      · exact lt_of_le_of_ne (not_lt.mp hlt) (Ne.symm heq)
      · exact hhead _ (List.mem_map_of_mem he)

def insert (m : SortedMap K V) (k : K) (v : V) : SortedMap K V := ⟨insertEntry k v m.entries, sorted_insertEntry m.sorted⟩

/-- The entries that a predicate keeps. -/
def retain (m : SortedMap K V) (keep : K → V → Bool) : SortedMap K V :=
  ⟨m.entries.filter fun entry => keep entry.1 entry.2, m.sorted.sublist (List.filter_sublist.map _)⟩

def erase (m : SortedMap K V) (k : K) : SortedMap K V := m.retain fun key _ => decide (key ≠ k)

omit [LinearOrder K] in
theorem lookup_cons [DecidableEq K] (a k : K) (b : V) (rest : List (K × V)) :
    (((a, b) :: rest).find? (·.1 = k)).map Prod.snd = if a = k then some b else (rest.find? (·.1 = k)).map Prod.snd := by
  by_cases h : a = k
  · simp [h]
  · simp [h]

theorem lookup_eq_some {entries : List (K × V)} (h : (entries.map Prod.fst).Pairwise (· < ·)) {k : K} {v : V} :
    lookup entries k = some v ↔ (k, v) ∈ entries := by
  induction entries with
  | nil => simp [lookup]
  | cons head rest ih =>
    obtain ⟨a, b⟩ := head
    obtain ⟨hhead, hrest⟩ := List.pairwise_cons.mp h
    rw [lookup, lookup_cons, List.mem_cons]
    by_cases hk : a = k
    · subst hk
      have hnot : (a, v) ∉ rest := fun hv => lt_irrefl a (hhead a (List.mem_map_of_mem (f := Prod.fst) hv))
      simp [hnot, eq_comm]
    · rw [if_neg hk]
      refine (ih hrest).trans ⟨.inr, fun hmem => hmem.resolve_left fun heq => hk (congrArg Prod.fst heq).symm⟩

theorem get_eq_some {m : SortedMap K V} {k : K} {v : V} : m.get k = some v ↔ (k, v) ∈ m.entries := lookup_eq_some m.sorted

@[simp] theorem get_empty (k : K) : (empty : SortedMap K V).get k = none := rfl

theorem get_insert (m : SortedMap K V) (k k' : K) (v : V) :
    (m.insert k v).get k' = if k' = k then some v else m.get k' := by
  have hlookup : ∀ entries : List (K × V), lookup (insertEntry k v entries) k' =
      if k' = k then some v else lookup entries k' := by
    intro entries
    induction entries with
    | nil =>
      rw [insertEntry, lookup, lookup_cons]
      simp [lookup, eq_comm]
    | cons head rest ih =>
      obtain ⟨a, b⟩ := head
      simp only [lookup] at ih ⊢
      rw [insertEntry]
      rcases lt_trichotomy k a with hlt | rfl | hlt
      · rw [if_pos hlt, lookup_cons]
        simp only [eq_comm]
      · rw [if_neg (lt_irrefl k), if_pos rfl, lookup_cons, lookup_cons]
        by_cases hk : k' = k
        · rw [if_pos hk, if_pos hk.symm]
        · rw [if_neg hk, if_neg (Ne.symm hk), if_neg (Ne.symm hk)]
      · rw [if_neg hlt.not_gt, if_neg hlt.ne', lookup_cons, lookup_cons, ih]
        by_cases hk : k' = k
        · rw [if_pos hk, if_pos hk, if_neg (fun h => hlt.ne (h.trans hk))]
        · rw [if_neg hk, if_neg hk]
  exact hlookup m.entries

theorem mem_keys {m : SortedMap K V} {k : K} : k ∈ m.keys ↔ (m.get k).isSome := by
  rw [Option.isSome_iff_exists, keys, List.mem_map]
  exact ⟨fun ⟨entry, hentry, hkey⟩ => ⟨entry.2, get_eq_some.mpr (hkey ▸ hentry)⟩,
    fun ⟨v, hv⟩ => ⟨(k, v), get_eq_some.mp hv, rfl⟩⟩

theorem get_retain_eq_some {m : SortedMap K V} {keep : K → V → Bool} {k : K} {v : V} :
    (m.retain keep).get k = some v ↔ m.get k = some v ∧ keep k v = true := by
  rw [get_eq_some, get_eq_some, retain, List.mem_filter]

/-- Whether an entry is kept may depend on its key only. -/
theorem get_retain (m : SortedMap K V) (keep : K → Bool) (k : K) :
    (m.retain fun key _ => keep key).get k = if keep k then m.get k else none := by
  ext1 v
  rw [get_retain_eq_some]
  cases keep k <;> simp

theorem nodup_keys (m : SortedMap K V) : m.keys.Nodup := m.sorted.imp ne_of_lt

/-- Maps with the same lookups are equal. -/
@[ext]
theorem ext {m n : SortedMap K V} (h : ∀ k, m.get k = n.get k) : m = n := by
  have hmem : ∀ e, e ∈ m.entries ↔ e ∈ n.entries := fun e => by
    rw [← Prod.mk.eta (p := e), ← get_eq_some, ← get_eq_some, h]
  have hnodup : ∀ m : SortedMap K V, m.entries.Nodup := fun m => m.nodup_keys.of_map
  have hperm : m.entries.Perm n.entries := (List.perm_ext_iff_of_nodup (hnodup m) (hnodup n)).mpr hmem
  have hsorted : ∀ m : SortedMap K V, m.entries.Pairwise fun a b => a.1 < b.1 := fun m => List.pairwise_map.mp m.sorted
  have heq : m.entries = n.entries :=
    hperm.eq_of_pairwise (fun a b _ _ hab hba => absurd (hab.trans hba) (lt_irrefl _)) (hsorted m) (hsorted n)
  cases m
  cases n
  congr

end SortedMap
end AmmState
