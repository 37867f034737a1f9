import Mathlib.Order.Lattice
import Mathlib.Order.BoundedOrder.Basic

/-! Programs that ask an environment for answers: a tree of operations, each with what goes on from its answer. A handler
    answers the operations over a state of its own; two handlers are compared through what the operations of a run note. -/

namespace AmmState

/-- A deterministic program over the operations `Op`. -/
inductive Interaction (Op : Type) (Answer : Op → Type) (R : Type) : Type
  | done (result : R)
  | step (op : Op) (next : Answer op → Interaction Op Answer R)

namespace Interaction
variable {Op : Type} {Answer : Op → Type} {R σ τ : Type}

/-- The answer to an operation, and the state it leaves. -/
abbrev Handler (Answer : Op → Type) (σ : Type) := (op : Op) → σ → Answer op × σ

def run (handle : Handler Answer σ) : Interaction Op Answer R → σ → R × σ
  | .done result, s => (result, s)
  | .step op next, s => run handle (next (handle op s).1) (handle op s).2

variable {L : Type} [SemilatticeSup L] [OrderBot L]

/-- All that the operations of a run note, each by the state that it is asked in. -/
def notes (handle : Handler Answer σ) (note : Op → σ → L) : Interaction Op Answer R → σ → L
  | .done _, _ => ⊥
  | .step op next, s => note op s ⊔ notes handle note (next (handle op s).1) (handle op s).2

/-- A part of the state that collects the notes has them all in the end. -/
theorem run_collects {handle : Handler Answer σ} {note : Op → σ → L} {part : σ → L}
    (h : ∀ op s, part (handle op s).2 = part s ⊔ note op s) (program : Interaction Op Answer R) (s : σ) :
    part (program.run handle s).2 = part s ⊔ program.notes handle note s := by
  induction program generalizing s with
  | done result => exact (sup_of_le_left bot_le).symm
  | step op next ih => rw [run, notes, ih, h, sup_assoc]

/-- Handlers that answer alike, as long as their notes stay within a bound, run alike. -/
theorem run_congr {handle : Handler Answer σ} {handle' : Handler Answer τ} {note : Op → σ → L}
    {bound : L} {rel : σ → τ → Prop} (h : ∀ op s t, rel s t → note op s ≤ bound → (handle op s).1 = (handle' op t).1 ∧
    rel (handle op s).2 (handle' op t).2)
    (program : Interaction Op Answer R) {s : σ} {t : τ} (hrel : rel s t) (hbound : program.notes handle note s ≤ bound) :
    (program.run handle s).1 = (program.run handle' t).1 ∧ rel (program.run handle s).2 (program.run handle' t).2 := by
  induction program generalizing s t with
  | done result => exact ⟨rfl, hrel⟩
  | step op next ih =>
    obtain ⟨hop, hrest⟩ := sup_le_iff.mp hbound
    obtain ⟨hanswer, hnext⟩ := h op s t hrel hop
    rw [run, run, ← hanswer]
    exact ih _ hnext hrest

end Interaction
end AmmState
