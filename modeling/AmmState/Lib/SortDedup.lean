import Mathlib.Data.List.Sort
import Mathlib.Data.List.Destutter
import Mathlib.Data.List.Nodup
import Mathlib.Data.Finset.Basic

/-! A stable sort by a key and the removal of adjacent repetitions, which together bring a list into a canonical form. -/

namespace AmmState.SortDedup
variable {α K : Type} [LinearOrder K]

/-- The stable sort by a key. -/
def sortBy (key : α → K) (l : List α) : List α := l.insertionSort (key · ≤ key ·)

/-- Drop every element that repeats the one before it. -/
def dedup [DecidableEq α] (l : List α) : List α := l.destutter (· ≠ ·)

/-- Sort by a key, then drop adjacent repetitions. -/
def sortDedup [DecidableEq α] (key : α → K) (l : List α) : List α := dedup (sortBy key l)

section
variable (key : α → K)

instance total_key : Std.Total (fun a b : α => key a ≤ key b) := ⟨fun a b => le_total (key a) (key b)⟩

instance trans_key : IsTrans α (fun a b : α => key a ≤ key b) := ⟨fun _ _ _ => le_trans⟩

theorem perm_sortBy (l : List α) : (sortBy key l).Perm l := List.perm_insertionSort _ l

theorem pairwise_sortBy (l : List α) : (sortBy key l).Pairwise (key · ≤ key ·) := List.pairwise_insertionSort _ l

theorem sortBy_of_pairwise {l : List α} (h : l.Pairwise (key · ≤ key ·)) : sortBy key l = l := h.insertionSort_eq

/-- A list whose keys are all different has one sorted arrangement. -/
theorem sortBy_of_perm {l m : List α} (hl : l.Perm m) (hm : m.Pairwise (key · ≤ key ·)) (hkeys : (m.map key).Nodup) :
    sortBy key l = m := by
  refine List.Perm.eq_of_pairwise (fun a b ha hb hab hba => ?_) (pairwise_sortBy key l) hm ((perm_sortBy key l).trans hl)
  exact List.inj_on_of_nodup_map hkeys (((perm_sortBy key l).trans hl).mem_iff.mp ha) hb (le_antisymm hab hba)

variable [DecidableEq α]

/-- A list in canonical form stays as it is. -/
theorem sortDedup_idem (l : List α) : sortDedup key (sortDedup key l) = sortDedup key l := by
  have hsorted : (sortDedup key l).Pairwise (key · ≤ key ·) :=
    (pairwise_sortBy key l).sublist (List.destutter_sublist _ _)
  show dedup (sortBy key (sortDedup key l)) = _
  rw [sortBy_of_pairwise key hsorted]
  exact List.destutter_idem _ _

omit [DecidableEq α] in
/-- A sorted list without adjacent repetitions increases. -/
theorem isChain_lt {l : List α} (hkey : Set.InjOn key {a | a ∈ l}) (hsorted : l.Pairwise (key · ≤ key ·))
    (hchain : l.IsChain (· ≠ ·)) : l.IsChain (key · < key ·) := by
  induction l with
  | nil => exact .nil
  | cons a rest ih =>
    cases rest with
    | nil => exact .singleton a
    | cons b rest =>
      obtain ⟨hle, hrest⟩ := List.pairwise_cons.mp hsorted
      obtain ⟨hne, hchain⟩ := List.isChain_cons_cons.mp hchain
      have hb : b ∈ b :: rest := List.mem_cons_self
      exact List.isChain_cons_cons.mpr
        ⟨lt_of_le_of_ne (hle b hb) fun heq => hne (hkey List.mem_cons_self (List.mem_cons_of_mem a hb) heq),
          ih (hkey.mono fun c hc => List.mem_cons_of_mem a hc) hrest hchain⟩

omit [LinearOrder K] in
theorem mem_dedup {l : List α} {a : α} : a ∈ dedup l ↔ a ∈ l := by
  have hfrom : ∀ (l : List α) (b : α), a ∈ l.destutter' (· ≠ ·) b ↔ a = b ∨ a ∈ l := by
    intro l
    induction l with
    | nil => simp
    | cons head rest ih =>
      intro b
      by_cases hb : b = head
      · rw [List.destutter'_cons_neg _ (by simpa using hb), ih, hb, List.mem_cons]
        tauto
      · rw [List.destutter'_cons_pos _ hb, List.mem_cons, ih, List.mem_cons]
  cases l with
  | nil => rfl
  | cons head rest => exact (hfrom rest head).trans List.mem_cons.symm

theorem mem_sortDedup_iff {l : List α} {a : α} : a ∈ sortDedup key l ↔ a ∈ l :=
  mem_dedup.trans (perm_sortBy key l).mem_iff

theorem mem_sortDedup {l : List α} {a : α} (h : a ∈ sortDedup key l) : a ∈ l :=
  (perm_sortBy key l).mem_iff.mp ((List.destutter_sublist _ _).subset h)

/-- Where the key tells the elements apart, the canonical form increases. -/
theorem pairwise_sortDedup {l : List α} (hkey : Set.InjOn key {a | a ∈ l}) :
    (sortDedup key l).Pairwise (key · < key ·) := by
  have hsorted : (sortDedup key l).Pairwise (key · ≤ key ·) :=
    (pairwise_sortBy key l).sublist (List.destutter_sublist _ _)
  have : Trans (fun a b : α => key a < key b) (fun a b => key a < key b) (fun a b => key a < key b) := ⟨lt_trans⟩
  exact (isChain_lt key (hkey.mono fun a ha => mem_sortDedup key ha) hsorted (List.isChain_destutter _ _)).pairwise

/-- The canonical form of a list has no repetitions. -/
theorem nodup_sortDedup (hkey : Function.Injective key) (l : List α) : (sortDedup key l).Nodup :=
  (pairwise_sortDedup key hkey.injOn).imp fun h heq => h.ne (congrArg key heq)

/-- Where the key tells the elements apart, the canonical form depends on which elements there are only. -/
theorem sortDedup_congr {l m : List α} (hkey : Set.InjOn key {a | a ∈ l}) (h : ∀ a, a ∈ l ↔ a ∈ m) :
    sortDedup key l = sortDedup key m := by
  have hl := pairwise_sortDedup key hkey
  have hm := pairwise_sortDedup key (l := m) (hkey.mono fun a ha => (h a).mpr ha)
  have hperm : (sortDedup key l).Perm (sortDedup key m) :=
    (List.perm_ext_iff_of_nodup (hl.imp fun h heq => h.ne (congrArg key heq))
      (hm.imp fun h heq => h.ne (congrArg key heq))).mpr fun a => by
        rw [mem_sortDedup_iff, mem_sortDedup_iff]
        exact h a
  exact hperm.eq_of_pairwise (fun a b _ _ hab hba => absurd hab hba.asymm) hl hm

omit [DecidableEq α] in
/-- The sort keeps the elements of one key in their order. -/
theorem find?_sortBy {k : K} {p : α → Bool} (hp : ∀ a, p a = true ↔ key a = k) (l : List α) :
    (sortBy key l).find? p = l.find? p := by
  have hinsert : ∀ (a : α) (l : List α), (l.orderedInsert (key · ≤ key ·) a).find? p = (a :: l).find? p := by
    intro a l
    induction l with
    | nil => rfl
    | cons b rest ih =>
      rw [List.orderedInsert_cons]
      split
      · rfl
      · rename_i hlt
        simp only [List.find?_cons, ih]
        by_cases ha : p a = true
        · have hb : p b = false :=
            Bool.eq_false_iff.mpr fun hb => hlt (((hp a).mp ha).trans ((hp b).mp hb).symm).le
          simp [ha, hb]
        · simp [ha]
  induction l with
  | nil => rfl
  | cons a rest ih =>
    show (List.orderedInsert _ a (sortBy key rest)).find? p = _
    rw [hinsert, List.find?_cons, List.find?_cons, ih]

omit [LinearOrder K] in
/-- Dropping repetitions keeps the first element of a kind. -/
theorem find?_dedup (p : α → Bool) (l : List α) : (dedup l).find? p = l.find? p := by
  have hfrom : ∀ (l : List α) (b : α), (l.destutter' (· ≠ ·) b).find? p = (b :: l).find? p := by
    intro l
    induction l with
    | nil => exact fun b => rfl
    | cons head rest ih =>
      intro b
      by_cases hb : b = head
      · rw [List.destutter'_cons_neg _ (by simpa using hb), ih, hb]
        by_cases hp : p head = true <;> simp [hp]
      · rw [List.destutter'_cons_pos _ hb, List.find?_cons, ih, List.find?_cons (a := b)]
  cases l with
  | nil => rfl
  | cons head rest => exact hfrom rest head

/-- Of the elements of one key, the canonical form begins with the one the list begins with. -/
theorem find?_sortDedup {k : K} {p : α → Bool} (hp : ∀ a, p a = true ↔ key a = k) (l : List α) :
    (sortDedup key l).find? p = l.find? p :=
  (find?_dedup _ _).trans (find?_sortBy key hp l)

end

/-- The members of a set in the order of an injective key. -/
def sorted {key : α → K} (hkey : Function.Injective key) (s : Finset α) : List α :=
  Quotient.liftOn s.val (sortBy key) fun l m h =>
    ((perm_sortBy key l).trans (h.trans (perm_sortBy key m).symm)).eq_of_pairwise
      (fun _ _ _ _ hab hba => hkey (le_antisymm hab hba)) (pairwise_sortBy key l) (pairwise_sortBy key m)

@[simp] theorem mem_sorted {key : α → K} {hkey : Function.Injective key} {s : Finset α} {a : α} :
    a ∈ sorted hkey s ↔ a ∈ s := by
  obtain ⟨⟨l⟩, hl⟩ := s
  exact (perm_sortBy key l).mem_iff

end AmmState.SortDedup
