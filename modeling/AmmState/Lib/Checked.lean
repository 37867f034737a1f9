import Mathlib.Data.List.Forall2
import Mathlib.Tactic.SplitIfs

/-! Checked computations: `Except` with guards, and what a successful run says of its parts. -/

namespace AmmState.Checked
variable {ε α β : Type}

/-- Go on only where the condition holds. -/
def ensure (c : Prop) [Decidable c] (e : ε) : Except ε Unit := if c then .ok () else .error e

/-- The value of a cell that must be there. -/
def orError (o : Option α) (e : ε) : Except ε α :=
  match o with
  | some a => .ok a
  | none => .error e

theorem ensure_eq_ok {c : Prop} [Decidable c] {e : ε} {u : Unit} : ensure c e = .ok u ↔ c := by
  unfold ensure
  split_ifs with h
  · simp [h]
  · simp [h]

theorem ensure_of {c : Prop} [Decidable c] {e : ε} (h : c) : ensure c e = .ok () := if_pos h

theorem orError_eq_ok {o : Option α} {e : ε} {a : α} : orError o e = .ok a ↔ o = some a := by
  cases o with
  | none => simp [orError]
  | some b => simp [orError]

theorem bind_eq_ok {x : Except ε α} {f : α → Except ε β} {b : β} :
    (x >>= f) = .ok b ↔ ∃ a, x = .ok a ∧ f a = .ok b := by
  cases x with
  | error e => exact ⟨nofun, nofun⟩
  | ok a => exact ⟨fun h => ⟨a, rfl, h⟩, fun ⟨_, rfl, h⟩ => h⟩

theorem pure_eq_ok {a b : α} : (pure a : Except ε α) = .ok b ↔ a = b := by
  show Except.ok a = Except.ok b ↔ _
  simp

theorem map_eq_ok {x : Except ε α} {f : α → β} {b : β} : f <$> x = .ok b ↔ ∃ a, x = .ok a ∧ f a = b := by
  cases x with
  | error e => exact ⟨nofun, nofun⟩
  | ok a => exact ⟨fun h => ⟨a, rfl, Except.ok.inj h⟩, fun ⟨_, rfl, h⟩ => congrArg _ h⟩

theorem ok_bind {a : α} {f : α → Except ε β} : (Except.ok a >>= f) = f a := rfl

theorem ensure_bind {c : Prop} [Decidable c] {e : ε} {f : Unit → Except ε β} (h : c) : (ensure c e >>= f) = f () := by
  rw [ensure_of h, ok_bind]

theorem isOk_iff {x : Except ε α} : x.isOk = true ↔ ∃ a, x = .ok a := by
  cases x with
  | ok a => exact ⟨fun _ => ⟨a, rfl⟩, fun _ => rfl⟩
  | error e => exact ⟨nofun, nofun⟩

/-! ### Loops -/

theorem forM_eq_ok {f : α → Except ε Unit} {l : List α} {u : Unit} :
    l.forM f = .ok u ↔ ∀ a ∈ l, f a = .ok () := by
  induction l with
  | nil => exact ⟨fun _ _ h => absurd h List.not_mem_nil, fun _ => rfl⟩
  | cons head rest ih =>
    rw [List.forM_eq_forM, List.forM_cons, bind_eq_ok, List.forall_mem_cons]
    exact ⟨fun ⟨_, hhead, hrest⟩ => ⟨hhead, ih.mp hrest⟩, fun ⟨hhead, hrest⟩ => ⟨(), hhead, ih.mpr hrest⟩⟩

theorem mapM_eq_ok {f : α → Except ε β} {l : List α} {m : List β} :
    l.mapM f = .ok m ↔ List.Forall₂ (fun a b => f a = .ok b) l m := by
  induction l generalizing m with
  | nil => rw [List.mapM_nil, pure_eq_ok, List.forall₂_nil_left_iff, eq_comm]
  | cons head rest ih =>
    simp only [List.mapM_cons, bind_eq_ok, pure_eq_ok, ih, List.forall₂_cons_left_iff]
    constructor
    · rintro ⟨b, hb, m, hm, rfl⟩
      exact ⟨b, m, hb, hm, rfl⟩
    · rintro ⟨b, m, hb, hm, rfl⟩
      exact ⟨b, hb, m, hm, rfl⟩

theorem mapM_mem {f : α → Except ε β} {l : List α} {m : List β} (h : l.mapM f = .ok m) {a : α} (ha : a ∈ l) :
    ∃ b ∈ m, f a = .ok b := by
  induction mapM_eq_ok.mp h with
  | nil => cases ha
  | cons hhead hrest ih =>
    rcases List.mem_cons.mp ha with rfl | ha
    · exact ⟨_, List.mem_cons_self, hhead⟩
    · obtain ⟨b, hb, hfa⟩ := ih (mapM_eq_ok.mpr hrest) ha
      exact ⟨b, List.mem_cons_of_mem _ hb, hfa⟩

/-- Every result of a loop is that of one of its elements. -/
theorem mem_mapM {f : α → Except ε β} {l : List α} {m : List β} (h : l.mapM f = .ok m) {b : β} (hb : b ∈ m) :
    ∃ a ∈ l, f a = .ok b := by
  induction mapM_eq_ok.mp h with
  | nil => cases hb
  | cons hhead hrest ih =>
    rcases List.mem_cons.mp hb with rfl | hb
    · exact ⟨_, List.mem_cons_self, hhead⟩
    · obtain ⟨a, ha, hfa⟩ := ih (mapM_eq_ok.mpr hrest) hb
      exact ⟨a, List.mem_cons_of_mem _ ha, hfa⟩

/-- A loop that fails does so at one of its elements. -/
theorem mapM_eq_error {f : α → Except ε β} {l : List α} {e : ε} (h : l.mapM f = .error e) : ∃ a ∈ l, f a = .error e := by
  induction l with
  | nil => cases h
  | cons head rest ih =>
    rw [List.mapM_cons] at h
    cases hhead : f head with
    | error error =>
      rw [hhead] at h
      obtain rfl := Except.error.inj h
      exact ⟨head, List.mem_cons_self, hhead⟩
    | ok b =>
      rw [hhead, ok_bind] at h
      cases hrest : rest.mapM f with
      | ok m =>
        rw [hrest] at h
        cases h
      | error error =>
        rw [hrest] at h
        obtain rfl := Except.error.inj h
        obtain ⟨a, ha, hfa⟩ := ih hrest
        exact ⟨a, List.mem_cons_of_mem _ ha, hfa⟩

/-- What a loop that ends has kept through each of its steps. -/
theorem foldlM_induct {f : β → α → Except ε β} (motive : List α → β → Prop) {l : List α} {b r : β}
    (h : l.foldlM f b = .ok r) (hstart : motive [] b)
    (hstep : ∀ done a b b', a ∈ l → motive done b → f b a = .ok b' → motive (done ++ [a]) b') : motive l r := by
  have hfrom : ∀ (rest done : List α) (b : β), (∀ a ∈ rest, a ∈ l) → motive done b → rest.foldlM f b = .ok r →
      motive (done ++ rest) r := by
    intro rest
    induction rest with
    | nil =>
      rintro done b - hdone hr
      obtain rfl := pure_eq_ok.mp hr
      rwa [List.append_nil]
    | cons head rest ih =>
      intro done b hmem hdone hr
      rw [List.foldlM_cons] at hr
      obtain ⟨b', hhead, hr⟩ := bind_eq_ok.mp hr
      rw [List.append_cons]
      exact ih _ b' (fun a ha => hmem a (List.mem_cons_of_mem _ ha))
        (hstep done head b b' (hmem head List.mem_cons_self) hdone hhead) hr
  exact hfrom l [] b (fun _ ha => ha) hstart h

/-! ### Persistence

A computation that reads a partial state keeps its result in every state that knows more. -/

/-- A success in one state is the same success in every state related to it. -/
def Persistent {σ : Type} (r : σ → σ → Prop) (f : σ → Except ε α) : Prop :=
  ∀ ⦃s t⦄, r s t → ∀ a, f s = .ok a → f t = .ok a

namespace Persistent
variable {σ : Type} {r : σ → σ → Prop}

theorem const (x : Except ε α) : Persistent r fun _ : σ => x := fun _ _ _ _ h => h

theorem bind {f : σ → Except ε α} {g : σ → α → Except ε β} (hf : Persistent r f) (hg : ∀ a, Persistent r (g · a)) :
    Persistent r fun s => f s >>= g s := by
  intro s t hst b h
  obtain ⟨a, ha, hb⟩ := bind_eq_ok.mp h
  exact bind_eq_ok.mpr ⟨a, hf hst a ha, hg a hst b hb⟩

theorem ite {c : Prop} [Decidable c] {f g : σ → Except ε α} (hf : Persistent r f) (hg : Persistent r g) :
    Persistent r fun s => if c then f s else g s := by
  intro s t hst a h
  split_ifs at h ⊢
  · exact hf hst a h
  · exact hg hst a h

end Persistent

end AmmState.Checked
