import Mathlib.Data.List.Basic
import Mathlib.Logic.Function.Basic

/-! Batches of writes to a function: a batch says what it leaves at each of its keys, and nothing of the others. -/

namespace AmmState.Writes
variable {κ α : Type} [DecidableEq κ]

/-- The function after a batch, in order. -/
def write (F : κ → α) (batch : List (κ × α)) : κ → α := batch.foldl (fun F p => Function.update F p.1 p.2) F

@[simp] theorem write_nil (F : κ → α) : write F [] = F := rfl

@[simp] theorem write_cons (F : κ → α) (p : κ × α) (batch : List (κ × α)) :
    write F (p :: batch) = write (Function.update F p.1 p.2) batch := rfl

/-- A key that the batch does not name keeps its value. -/
theorem write_of_notMem {F : κ → α} {batch : List (κ × α)} {x : κ} (h : x ∉ batch.map Prod.fst) :
    write F batch x = F x := by
  induction batch generalizing F with
  | nil => rfl
  | cons p batch ih =>
    rw [List.map_cons, List.mem_cons, not_or] at h
    rw [write_cons, ih h.2, Function.update_of_ne h.1]

/-- A key that the batch names does not depend on the function before it. -/
theorem write_congr_of_mem {F G : κ → α} {batch : List (κ × α)} {x : κ} (h : x ∈ batch.map Prod.fst) :
    write F batch x = write G batch x := by
  induction batch generalizing F G with
  | nil => cases h
  | cons p batch ih =>
    rw [write_cons, write_cons]
    by_cases hx : x ∈ batch.map Prod.fst
    · exact ih hx
    · have hp : x = p.1 := (List.mem_cons.mp h).resolve_right hx
      rw [write_of_notMem hx, write_of_notMem hx, hp, Function.update_self, Function.update_self]

/-- Where two functions agree, they still do after the same batch. -/
theorem write_congr {F G : κ → α} {batch : List (κ × α)} {x : κ} (h : F x = G x) : write F batch x = write G batch x := by
  by_cases hx : x ∈ batch.map Prod.fst
  · exact write_congr_of_mem hx
  · rw [write_of_notMem hx, write_of_notMem hx, h]

/-- A later batch over the same keys hides an earlier one. -/
theorem write_write {F : κ → α} {batch later : List (κ × α)} (h : batch.map Prod.fst ⊆ later.map Prod.fst) :
    write (write F batch) later = write F later := by
  funext x
  by_cases hx : x ∈ later.map Prod.fst
  · exact write_congr_of_mem hx
  · rw [write_of_notMem hx, write_of_notMem hx, write_of_notMem fun hb => hx (h hb)]

/-- Batches over disjoint keys may come in either order. -/
theorem write_comm {F : κ → α} {batch other : List (κ × α)} (h : List.Disjoint (batch.map Prod.fst) (other.map Prod.fst)) :
    write (write F batch) other = write (write F other) batch := by
  funext x
  by_cases hx : x ∈ other.map Prod.fst
  · rw [write_of_notMem fun hb => h hb hx]
    exact write_congr_of_mem hx
  · rw [write_of_notMem hx]
    exact write_congr (write_of_notMem hx).symm

/-- A write to one key beside the batch may come before or after it. -/
theorem write_update {F : κ → α} {batch : List (κ × α)} {x : κ} (v : α) (h : x ∉ batch.map Prod.fst) :
    write (Function.update F x v) batch = Function.update (write F batch) x v := by
  have hdisjoint : List.Disjoint ([(x, v)].map Prod.fst) (batch.map Prod.fst) := by simpa using h
  exact write_comm hdisjoint

end AmmState.Writes
