import Mathlib.Tactic.Common

/-! Handlers over a state that may fail: `ExceptT` over `StateM`, where a failure keeps the state it left. A triple has one
    postcondition for success and one for failure. -/

namespace AmmState

/-- A handler over the state `σ` that fails with `ε`. -/
abbrev Fallible (ε σ α : Type) := ExceptT ε (StateM σ) α

namespace Fallible
variable {ε σ α β : Type} {P P' E E' : σ → Prop} {Q Q' : α → σ → Prop}

/-- Go on unless there is an error. -/
def check (failure : Option ε) : Fallible ε σ Unit :=
  match failure with
  | none => pure ()
  | some error => throw error

/-- Fail unless the condition holds. -/
def ensure (c : Prop) [Decidable c] (error : ε) : Fallible ε σ Unit := if c then pure () else throw error

/-- The state a handler leaves. -/
def exec (m : Fallible ε σ α) (s : σ) : σ := (m.run.run s).2

/-- Run the handler for its effect only. -/
def ignoring (m : Fallible ε σ α) : Fallible ε σ Unit := modify m.exec

theorem run_bind (m : Fallible ε σ α) (f : α → Fallible ε σ β) (s : σ) :
    (m >>= f).run.run s = match m.run.run s with
      | (.ok a, s') => (f a).run.run s'
      | (.error error, s') => (.error error, s') := by
  show (match m.run.run s with | (x, s') => (ExceptT.bindCont f x).run s') = _
  rcases m.run.run s with ⟨error | a, s'⟩
  · rfl
  · rfl

/-- A success goes through a success of the first part. -/
theorem bind_eq_ok {m : Fallible ε σ α} {f : α → Fallible ε σ β} {s t : σ} {b : β} :
    (m >>= f).run.run s = (.ok b, t) ↔ ∃ a s', m.run.run s = (.ok a, s') ∧ (f a).run.run s' = (.ok b, t) := by
  rw [run_bind]
  rcases m.run.run s with ⟨error | a, s'⟩
  · exact ⟨nofun, nofun⟩
  · exact ⟨fun h => ⟨a, s', rfl, h⟩, fun ⟨_, _, rfl, h⟩ => h⟩

theorem run_lift (x : Except ε α) (s : σ) : (liftM x : Fallible ε σ α).run.run s = (x, s) := by
  cases x <;> rfl

theorem lift_eq_ok {x : Except ε α} {s t : σ} {a : α} :
    (liftM x : Fallible ε σ α).run.run s = (.ok a, t) ↔ x = .ok a ∧ s = t := by
  rw [run_lift, Prod.mk.injEq]

theorem get_eq_ok {s t a : σ} : (get : Fallible ε σ σ).run.run s = (.ok a, t) ↔ s = a ∧ s = t := by
  show (Except.ok s, s) = (Except.ok a, t) ↔ _
  rw [Prod.mk.injEq, Except.ok.injEq]

theorem set_eq_ok {s t r : σ} {u : PUnit} : (set r : Fallible ε σ PUnit).run.run s = (.ok u, t) ↔ r = t := by
  show (Except.ok _, r) = (Except.ok u, t) ↔ _
  rw [Prod.mk.injEq]
  exact ⟨And.right, fun h => ⟨rfl, h⟩⟩

theorem pure_eq_ok {s t : σ} {a b : α} : (pure a : Fallible ε σ α).run.run s = (.ok b, t) ↔ a = b ∧ s = t := by
  show (Except.ok a, s) = (Except.ok b, t) ↔ _
  rw [Prod.mk.injEq, Except.ok.injEq]

theorem run_tryCatch (m : Fallible ε σ α) (handler : ε → Fallible ε σ α) (s : σ) :
    (tryCatch m handler).run.run s = match m.run.run s with
      | (.ok a, s') => (.ok a, s')
      | (.error error, s') => (handler error).run.run s' := by
  show (match m.run.run s with
    | (x, s') => (match x with | .ok a => pure (.ok a) | .error e => handler e : StateM σ (Except ε α)).run s') = _
  rcases m.run.run s with ⟨error | a, s'⟩
  · rfl
  · rfl

/-! ### Reads -/

/-- A handler that leaves the state as it is. -/
def Reads (m : Fallible ε σ α) : Prop := ∀ s, (m.run.run s).2 = s

namespace Reads

theorem pure (a : α) : Reads (Pure.pure a : Fallible ε σ α) := fun _ => rfl

theorem throw (error : ε) : Reads (MonadExcept.throw error : Fallible ε σ α) := fun _ => rfl

theorem get : Reads (MonadState.get : Fallible ε σ σ) := fun _ => rfl

theorem bind {m : Fallible ε σ α} {f : α → Fallible ε σ β} (hm : Reads m) (hf : ∀ a, Reads (f a)) :
    Reads (m >>= f) := by
  intro s
  have hs := hm s
  rw [run_bind]
  revert hs
  rcases m.run.run s with ⟨error | a, s'⟩
  · exact id
  · rintro rfl
    exact hf a s'

theorem ite {c : Prop} [Decidable c] {m n : Fallible ε σ α} (hm : Reads m) (hn : Reads n) :
    Reads (if c then m else n) := by
  by_cases hc : c
  · rw [if_pos hc]
    exact hm
  · rw [if_neg hc]
    exact hn

theorem check (failure : Option ε) : Reads (Fallible.check failure : Fallible ε σ Unit) := by
  cases failure with
  | none => exact pure ()
  | some error => exact throw error

theorem ensure (c : Prop) [Decidable c] (error : ε) : Reads (Fallible.ensure c error : Fallible ε σ Unit) :=
  ite (pure ()) (throw error)

end Reads

/-! ### Results -/

/-- Whatever the state, a success has this value. -/
def Yields (m : Fallible ε σ α) (a : α) : Prop := ∀ s b s', m.run.run s = (.ok b, s') → b = a

/-- Where `P` holds, the handler succeeds with this value and `P` holds on. -/
def Returns (P : σ → Prop) (m : Fallible ε σ α) (a : α) : Prop := ∀ s, P s → ∃ s', m.run.run s = (.ok a, s') ∧ P s'

/-- Every failure is one of these. -/
def Errs (m : Fallible ε σ α) (E : ε → Prop) : Prop := ∀ s error s', m.run.run s = (.error error, s') → E error

namespace Yields

theorem pure (a : α) : Yields (Pure.pure a : Fallible ε σ α) a := fun _ _ _ h => (Except.ok.inj (congrArg Prod.fst h)).symm

theorem throw (error : ε) (a : α) : Yields (MonadExcept.throw error : Fallible ε σ α) a := nofun

theorem bind {m : Fallible ε σ α} {f : α → Fallible ε σ β} {a : α} {b : β} (hm : Yields m a) (hf : Yields (f a) b) :
    Yields (m >>= f) b := by
  intro s c t h
  have hs := hm s
  rw [run_bind] at h
  revert hs h
  rcases m.run.run s with ⟨error | a', s'⟩
  · exact nofun
  · intro h hs
    obtain rfl := hs a' s' rfl
    exact hf s' c t h

theorem of_fst {m : Fallible ε σ α} {a b : α} (hm : Yields m a) {s : σ} (h : (m.run.run s).1 = .ok b) : b = a :=
  hm s b (m.run.run s).2 (Prod.ext h rfl)

end Yields

namespace Returns

theorem pure (a : α) : Returns P (Pure.pure a : Fallible ε σ α) a := fun s hs => ⟨s, rfl, hs⟩

theorem bind {m : Fallible ε σ α} {f : α → Fallible ε σ β} {a : α} {b : β} (hm : Returns P m a)
    (hf : Returns P (f a) b) : Returns P (m >>= f) b := by
  intro s hs
  obtain ⟨s', hrun, hs'⟩ := hm s hs
  rw [run_bind, hrun]
  exact hf s' hs'

end Returns

namespace Errs
variable {E : ε → Prop}

theorem pure (a : α) : Errs (Pure.pure a : Fallible ε σ α) E := nofun

theorem get : Errs (MonadState.get : Fallible ε σ σ) E := nofun

theorem set (s : σ) : Errs (MonadStateOf.set s : Fallible ε σ PUnit) E := nofun

theorem throw {error : ε} (h : E error) : Errs (MonadExcept.throw error : Fallible ε σ α) E := by
  intro s other s' hrun
  obtain rfl := Except.error.inj (congrArg Prod.fst hrun)
  exact h

theorem bind {m : Fallible ε σ α} {f : α → Fallible ε σ β} (hm : Errs m E) (hf : ∀ a, Errs (f a) E) :
    Errs (m >>= f) E := by
  intro s error t h
  have hs := hm s
  rw [run_bind] at h
  revert hs h
  rcases m.run.run s with ⟨failure | a, s'⟩
  · intro h hs
    obtain rfl := Except.error.inj (congrArg Prod.fst h)
    exact hs _ _ rfl
  · exact fun h _ => hf a s' error t h

theorem ite {c : Prop} [Decidable c] {m n : Fallible ε σ α} (hm : Errs m E) (hn : Errs n E) :
    Errs (if c then m else n) E := by
  by_cases hc : c
  · rw [if_pos hc]
    exact hm
  · rw [if_neg hc]
    exact hn

end Errs

/-! ### Triples -/

/-- Where `P` holds, a success ends in `Q` and a failure in `E`. -/
def Triple (P : σ → Prop) (m : Fallible ε σ α) (Q : α → σ → Prop) (E : σ → Prop) : Prop :=
  ∀ s, P s → match m.run.run s with
    | (.ok a, s') => Q a s'
    | (.error _, s') => E s'

namespace Triple

theorem conseq {m : Fallible ε σ α} (h : Triple P' m Q' E') (hpre : ∀ s, P s → P' s) (hpost : ∀ a s, Q' a s → Q a s)
    (herror : ∀ s, E' s → E s) : Triple P m Q E := by
  intro s hs
  have hrun := h s (hpre s hs)
  revert hrun
  rcases m.run.run s with ⟨error | a, s'⟩
  · exact herror s'
  · exact hpost a s'

theorem pre {m : Fallible ε σ α} (h : Triple P' m Q E) (hpre : ∀ s, P s → P' s) : Triple P m Q E :=
  h.conseq hpre (fun _ _ hs => hs) fun _ hs => hs

theorem pure {a : α} (h : ∀ s, P s → Q a s) : Triple P (Pure.pure a : Fallible ε σ α) Q E := fun s hs => h s hs

theorem throw {error : ε} (h : ∀ s, P s → E s) : Triple P (MonadExcept.throw error : Fallible ε σ α) Q E :=
  fun s hs => h s hs

theorem bind {m : Fallible ε σ α} {f : α → Fallible ε σ β} {R : β → σ → Prop} (hm : Triple P m Q E)
    (hf : ∀ a, Triple (Q a) (f a) R E) : Triple P (m >>= f) R E := by
  intro s hs
  have hrun := hm s hs
  rw [run_bind]
  revert hrun
  rcases m.run.run s with ⟨error | a, s'⟩
  · exact id
  · exact hf a s'

/-- What a read-only handler finds holds afterwards. -/
theorem reads {m : Fallible ε σ α} (hm : Reads m) (herror : ∀ s, P s → E s) : Triple P m (fun _ => P) E := by
  intro s hs
  have hrun := hm s
  revert hrun
  rcases m.run.run s with ⟨error | a, s'⟩
  · rintro rfl
    exact herror s' hs
  · rintro rfl
    exact hs

/-- From a known state, a read-only handler answers as it does there. -/
theorem reads_at {m : Fallible ε σ α} (hm : Reads m) {s : σ} (herror : ∀ error, m.run.run s = (.error error, s) → E s) :
    Triple (fun t => t = s) m (fun a t => m.run.run s = (.ok a, s) ∧ t = s) E := by
  rintro t rfl
  have hstate := hm t
  revert hstate herror
  rcases m.run.run t with ⟨error | a, s'⟩
  · rintro herror rfl
    exact herror error rfl
  · rintro - rfl
    exact ⟨rfl, rfl⟩

/-- A handler that first reads the state. -/
theorem read {f : σ → Fallible ε σ α} (hf : ∀ s, P s → Triple (fun t => t = s) (f s) Q E) :
    Triple P (MonadState.get >>= f) Q E := by
  intro s hs
  rw [run_bind]
  exact hf s hs s rfl

theorem pointwise {m : Fallible ε σ α} (h : ∀ s, P s → Triple (fun t => t = s) m Q E) : Triple P m Q E :=
  fun s hs => h s hs s rfl

/-- From a known state, a success ends in the state that the handler leaves. -/
theorem at_state {m : Fallible ε σ α} (hm : Triple P m Q E) {s : σ} (hs : P s) :
    Triple (fun t => t = s) m (fun a t => t = m.exec s ∧ Q a t) E := by
  rintro t rfl
  have hrun := hm t hs
  rw [exec]
  revert hrun
  rcases m.run.run t with ⟨error | a, s'⟩
  · exact id
  · exact fun h => ⟨rfl, h⟩

theorem modifies {f : σ → σ} {Q : PUnit → σ → Prop} (h : ∀ s, P s → Q ⟨⟩ (f s)) :
    Triple P (modify f : Fallible ε σ PUnit) Q E := fun s hs => h s hs

theorem sets {t : σ} {Q : PUnit → σ → Prop} (h : ∀ s, P s → Q ⟨⟩ t) : Triple P (set t : Fallible ε σ PUnit) Q E :=
  fun s hs => h s hs

theorem ite {c : Prop} [Decidable c] {m n : Fallible ε σ α} (hm : c → Triple P m Q E) (hn : ¬ c → Triple P n Q E) :
    Triple P (if c then m else n) Q E := by
  by_cases hc : c
  · rw [if_pos hc]
    exact hm hc
  · rw [if_neg hc]
    exact hn hc

theorem check (failure : Option ε) (herror : ∀ s, P s → E s) :
    Triple P (Fallible.check failure) (fun _ s => P s ∧ failure = none) E := by
  cases failure with
  | none => exact pure fun s hs => ⟨hs, rfl⟩
  | some error => exact throw herror

theorem ensure (c : Prop) [Decidable c] (error : ε) (herror : ∀ s, P s → E s) :
    Triple P (Fallible.ensure c error) (fun _ s => P s ∧ c) E :=
  ite (fun hc => pure fun _ hs => ⟨hs, hc⟩) fun _ => throw herror

/-- A condition decides between a failure and the rest of the handler. -/
theorem ensure_bind {c : Prop} [Decidable c] {error : ε} {f : Unit → Fallible ε σ β} {R : β → σ → Prop}
    (herror : ¬ c → ∀ s, P s → E s) (hf : c → Triple P (f ()) R E) : Triple P (Fallible.ensure c error >>= f) R E := by
  intro s hs
  rw [run_bind, Fallible.ensure]
  by_cases hc : c
  · rw [if_pos hc]
    exact hf hc s hs
  · rw [if_neg hc]
    exact herror hc s hs

/-- A result decides between a failure and the rest of the handler. -/
theorem lift_bind {x : Except ε α} {f : α → Fallible ε σ β} {R : β → σ → Prop}
    (herror : ∀ error, x = .error error → ∀ s, P s → E s) (hf : ∀ a, x = .ok a → Triple P (f a) R E) :
    Triple P ((liftM x : Fallible ε σ α) >>= f) R E := by
  intro s hs
  rw [run_bind, run_lift]
  cases x with
  | error error => exact herror error rfl s hs
  | ok a => exact hf a rfl s hs

theorem tryCatch {m : Fallible ε σ α} {handler : ε → Fallible ε σ α} (hm : Triple P m Q E')
    (hhandler : ∀ error, Triple E' (handler error) Q E) : Triple P (MonadExcept.tryCatch m handler) Q E := by
  intro s hs
  have hrun := hm s hs
  rw [run_tryCatch]
  revert hrun
  rcases m.run.run s with ⟨error | a, s'⟩
  · exact hhandler error s'
  · exact id

/-- What a handler establishes whether it succeeds or fails. -/
theorem exec {m : Fallible ε σ α} {R : σ → Prop} (hm : Triple P m (fun _ => R) R) {s : σ} (hs : P s) : R (m.exec s) := by
  have hrun := hm s hs
  rw [Fallible.exec]
  revert hrun
  rcases m.run.run s with ⟨error | a, s'⟩
  · exact id
  · exact id

theorem ignoring {m : Fallible ε σ α} {R : σ → Prop} (hm : Triple P m (fun _ => R) R) :
    Triple P (Fallible.ignoring m) (fun _ => R) E := modifies fun _ hs => hm.exec hs

end Triple
end Fallible
end AmmState
