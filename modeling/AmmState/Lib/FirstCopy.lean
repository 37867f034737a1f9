import AmmState.Lib.Checked
import AmmState.Lib.SortedMap

/-! Merging repeated deliveries under a key: the first copy is kept, a later one must be the same as it, in whatever sense
    of sameness the merge uses. A merge accepts a sequence exactly if all copies under one key are the same. -/

namespace AmmState.FirstCopy
open Checked

variable {K V ε : Type} [LinearOrder K]

/-- The first copy under a key stays; another one is an error. -/
def put (same : V → V → Bool) (conflict : ε) (m : SortedMap K V) (k : K) (v : V) : Except ε (SortedMap K V) :=
  match m.get k with
  | none => .ok (m.insert k v)
  | some first => if same first v then .ok m else .error conflict

/-- Copies under one key are the same. -/
def Agree (key : V → K) (same : V → V → Bool) (l : List V) : Prop :=
  ∀ a ∈ l, ∀ b ∈ l, key a = key b → same a b = true

/-- The map has the first copy under every key. -/
def Holds (key : V → K) (m : SortedMap K V) (l : List V) : Prop :=
  ∀ k, m.get k = l.find? fun v => decide (key v = k)

section
variable {key : V → K} {same : V → V → Bool} {conflict : ε} {m m' : SortedMap K V} {l : List V}

theorem holds_empty : Holds key (.empty : SortedMap K V) [] := fun _ => rfl

theorem Holds.mem (h : Holds key m l) {k : K} {v : V} (hget : m.get k = some v) : v ∈ l ∧ key v = k := by
  rw [h k] at hget
  have hkey := List.find?_some hget
  exact ⟨List.mem_of_find?_eq_some hget, of_decide_eq_true hkey⟩

/-- Every key of the sequence has an entry. -/
theorem Holds.get (h : Holds key m l) {v : V} (hv : v ∈ l) : ∃ first, m.get (key v) = some first := by
  rw [h (key v), ← Option.isSome_iff_exists, List.find?_isSome]
  exact ⟨v, hv, decide_eq_true rfl⟩

theorem put_holds (h : Holds key m l) {v : V} (hput : put same conflict m (key v) v = .ok m') :
    Holds key m' (l ++ [v]) := by
  intro k
  rw [List.find?_append, ← h k]
  unfold put at hput
  cases hget : m.get (key v) with
  | none =>
    rw [hget] at hput
    obtain rfl := Except.ok.inj hput
    rw [SortedMap.get_insert]
    by_cases hk : k = key v
    · subst hk
      simp [hget]
    · simp [hk, Ne.symm hk]
  | some first =>
    rw [hget] at hput
    dsimp only at hput
    split_ifs at hput with hsame
    · obtain rfl := Except.ok.inj hput
      by_cases hk : k = key v
      · subst hk
        simp [hget]
      · simp [Ne.symm hk]

/-- Whether a merge accepts a copy, in terms of the first one under its key. -/
theorem put_isOk_iff {v : V} : (∃ m', put same conflict m (key v) v = .ok m') ↔
    ∀ first, m.get (key v) = some first → same first v = true := by
  unfold put
  cases hget : m.get (key v) with
  | none => exact iff_of_true ⟨_, rfl⟩ nofun
  | some first =>
    dsimp only
    split_ifs with hsame
    · exact iff_of_true ⟨_, rfl⟩ fun _ h => Option.some.inj h ▸ hsame
    · exact iff_of_false nofun fun h => hsame (h first rfl)

variable (same) (conflict) in
/-- The merge of a sequence. -/
def putAll (key : V → K) (m : SortedMap K V) (l : List V) : Except ε (SortedMap K V) :=
  l.foldlM (fun m v => put same conflict m (key v) v) m

/-- Sameness is an equivalence. -/
structure Equiv (same : V → V → Bool) : Prop where
  refl : ∀ a, same a a = true
  symm : ∀ {a b}, same a b = true → same b a = true
  trans : ∀ {a b c}, same a b = true → same b c = true → same a c = true

/-- A copy that is the same as the first one is the same as all. -/
theorem agree_append_iff (hequiv : Equiv same) (h : Holds key m l) (hagree : Agree key same l) (v : V) :
    Agree key same (l ++ [v]) ↔ ∀ first, m.get (key v) = some first → same first v = true := by
  constructor
  · intro hall first hfirst
    obtain ⟨hmem, hkey⟩ := h.mem hfirst
    exact hall first (List.mem_append_left _ hmem) v (by simp) hkey
  · intro hfirst
    have hlast : ∀ a ∈ l, key a = key v → same a v = true := by
      intro a ha hkey
      obtain ⟨first, hget⟩ := h.get ha
      obtain ⟨hmem, hfirstKey⟩ := h.mem hget
      exact hequiv.trans (hagree a ha first hmem hfirstKey.symm) (hfirst first (hkey ▸ hget))
    intro a ha b hb hkey
    rcases List.mem_append.mp ha with ha | ha
    · rcases List.mem_append.mp hb with hb | hb
      · exact hagree a ha b hb hkey
      · rw [List.mem_singleton.mp hb] at hkey ⊢
        exact hlast a ha hkey
    · obtain rfl := List.mem_singleton.mp ha
      rcases List.mem_append.mp hb with hb | hb
      · exact hequiv.symm (hlast b hb hkey.symm)
      · obtain rfl := List.mem_singleton.mp hb
        exact hequiv.refl _

omit [LinearOrder K] in
theorem Agree.of_append {l' : List V} (h : Agree key same (l ++ l')) : Agree key same l :=
  fun a ha b hb => h a (List.mem_append_left _ ha) b (List.mem_append_left _ hb)

variable (conflict) in
/-- A merge that goes on accepts the rest exactly if all copies agree, and keeps the first one under every key. -/
theorem putAll_iff (hequiv : Equiv same) {done : List V} (h : Holds key m done) (hagree : Agree key same done) :
    ((∃ m', putAll same conflict key m l = .ok m') ↔ Agree key same (done ++ l)) ∧
      ∀ m', putAll same conflict key m l = .ok m' → Holds key m' (done ++ l) := by
  induction l generalizing m done with
  | nil =>
    rw [List.append_nil]
    exact ⟨iff_of_true ⟨m, rfl⟩ hagree, fun m' hm' => pure_eq_ok.mp hm' ▸ h⟩
  | cons v l ih =>
    have hsplit : ∀ m', putAll same conflict key m (v :: l) = .ok m' ↔
        ∃ next, put same conflict m (key v) v = .ok next ∧ putAll same conflict key next l = .ok m' := by
      intro m'
      rw [putAll, List.foldlM_cons, bind_eq_ok]
      rfl
    have hnext : ∀ next, put same conflict m (key v) v = .ok next → Agree key same (done ++ [v]) := fun next hput =>
      (agree_append_iff hequiv h hagree v).mpr (put_isOk_iff.mp ⟨next, hput⟩)
    rw [List.append_cons]
    refine ⟨⟨?_, fun hall => ?_⟩, ?_⟩
    · rintro ⟨m', hm'⟩
      obtain ⟨next, hput, hrest⟩ := (hsplit m').mp hm'
      exact (ih (put_holds h hput) (hnext next hput)).1.mp ⟨m', hrest⟩
    · obtain ⟨next, hput⟩ := put_isOk_iff.mpr ((agree_append_iff hequiv h hagree v).mp hall.of_append)
      obtain ⟨m', hrest⟩ := (ih (put_holds h hput) (hnext next hput)).1.mpr hall
      exact ⟨m', (hsplit m').mpr ⟨next, hput, hrest⟩⟩
    · intro m' hm'
      obtain ⟨next, hput, hrest⟩ := (hsplit m').mp hm'
      exact (ih (put_holds h hput) (hnext next hput)).2 m' hrest

end
end AmmState.FirstCopy
