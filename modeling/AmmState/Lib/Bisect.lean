import AmmState.Lib.Checked
import Mathlib.Algebra.Order.Ring.Nat
import Mathlib.Tactic.Set

/-! Binary search for the first or the last number of a range at which a checked test holds. Where the test is monotone the
    search finds the boundary. -/

namespace AmmState.Bisect
variable {ε : Type}

/-- The first number of a range at which the test holds, or the end of the range. -/
def first (test : Nat → Except ε Bool) (low high : Nat) : Except ε Nat :=
  if low < high then do
    let middle := low + (high - low) / 2
    if ← test middle then first test low middle else first test (middle + 1) high
  else return low
termination_by high - low

/-- The last number of a range at which the test holds, or the start of the range. -/
def last (test : Nat → Except ε Bool) (low high : Nat) : Except ε Nat :=
  if low < high then do
    let middle := low + (high - low + 1) / 2
    if ← test middle then last test middle high else last test low (middle - 1)
  else return low
termination_by high - low

section Search
variable {test : Nat → Except ε Bool} {holds : Nat → Prop} [DecidablePred holds]

/-- A test that first fails and then holds: what is before the result fails, and the result holds unless it is the end. -/
theorem first_eq_ok {low high : Nat} (hle : low ≤ high)
    (htest : ∀ n, low ≤ n → n < high → test n = .ok (decide (holds n)))
    (hmono : ∀ m n, m ≤ n → n ≤ high → holds m → holds n) :
    ∃ result, first test low high = .ok result ∧ low ≤ result ∧ result ≤ high ∧ (result < high → holds result) ∧
      ∀ n, low ≤ n → n < result → ¬ holds n := by
  induction hwidth : high - low using Nat.strong_induction_on generalizing low high with
  | _ width ih =>
    rw [first]
    by_cases hlt : low < high
    swap
    · rw [if_neg hlt]
      exact ⟨low, rfl, le_rfl, hle, fun h => absurd h hlt, fun n hn hn' => absurd hn' (Nat.not_lt.mpr hn)⟩
    rw [if_pos hlt]
    set middle := low + (high - low) / 2 with hmiddle
    have hhalf : (high - low) / 2 < high - low := Nat.div_lt_self (by omega) (by decide)
    have hbelow : middle < high := by omega
    dsimp only
    rw [htest middle (by omega) hbelow]
    by_cases hholds : holds middle
    · obtain ⟨result, hresult, hlow, hhigh, hholds', hfails⟩ := ih (middle - low) (by omega) (by omega)
        (fun n hn hn' => htest n hn (by omega)) (fun m n hmn hn => hmono m n hmn (by omega)) rfl
      refine ⟨result, ?_, hlow, by omega, fun _ => ?_, hfails⟩
      · rw [Checked.ok_bind, decide_eq_true hholds]
        exact hresult
      · rcases Nat.lt_or_eq_of_le hhigh with h | h
        · exact hholds' h
        · exact h ▸ hholds
    · obtain ⟨result, hresult, hlow, hhigh, hholds', hfails⟩ := ih (high - (middle + 1)) (by omega) hbelow
        (fun n hn hn' => htest n (by omega) hn') (fun m n hmn hn => hmono m n hmn hn) rfl
      refine ⟨result, ?_, by omega, hhigh, hholds', fun n hn hn' => ?_⟩
      · rw [Checked.ok_bind, decide_eq_false hholds]
        exact hresult
      · by_cases hn'' : middle + 1 ≤ n
        · exact hfails n hn'' hn'
        · exact fun h => hholds (hmono n middle (by omega) (by omega) h)

/-- A test that first holds and then fails: what is after the result fails, and the result holds unless it is the start. -/
theorem last_eq_ok {low high : Nat} (hle : low ≤ high)
    (htest : ∀ n, low < n → n ≤ high → test n = .ok (decide (holds n)))
    (hmono : ∀ m n, m ≤ n → n ≤ high → holds n → holds m) :
    ∃ result, last test low high = .ok result ∧ low ≤ result ∧ result ≤ high ∧ (low < result → holds result) ∧
      ∀ n, result < n → n ≤ high → ¬ holds n := by
  induction hwidth : high - low using Nat.strong_induction_on generalizing low high with
  | _ width ih =>
    rw [last]
    by_cases hlt : low < high
    swap
    · rw [if_neg hlt]
      exact ⟨low, rfl, le_rfl, hle, fun h => absurd h (Nat.lt_irrefl _), fun n hn hn' => absurd hn' (by omega)⟩
    rw [if_pos hlt]
    set middle := low + (high - low + 1) / 2 with hmiddle
    have habove : low < middle := by omega
    have hbelow : middle ≤ high := by omega
    dsimp only
    rw [htest middle habove hbelow]
    by_cases hholds : holds middle
    · obtain ⟨result, hresult, hlow, hhigh, hholds', hfails⟩ := ih (high - middle) (by omega) hbelow
        (fun n hn hn' => htest n (by omega) hn') (fun m n hmn hn => hmono m n hmn hn) rfl
      refine ⟨result, ?_, by omega, hhigh, fun _ => ?_, hfails⟩
      · rw [Checked.ok_bind, decide_eq_true hholds]
        exact hresult
      · rcases Nat.lt_or_eq_of_le hlow with h | h
        · exact hholds' h
        · exact h ▸ hholds
    · obtain ⟨result, hresult, hlow, hhigh, hholds', hfails⟩ := ih (middle - 1 - low) (by omega) (by omega)
        (fun n hn hn' => htest n hn (by omega)) (fun m n hmn hn => hmono m n hmn (by omega)) rfl
      refine ⟨result, ?_, hlow, by omega, hholds', fun n hn hn' => ?_⟩
      · rw [Checked.ok_bind, decide_eq_false hholds]
        exact hresult
      · by_cases hn'' : n ≤ middle - 1
        · exact hfails n hn hn''
        · exact fun h => hholds (hmono middle n (by omega) hn' h)

end Search
end AmmState.Bisect
