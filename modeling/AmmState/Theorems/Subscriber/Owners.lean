import AmmState.Subscriber.Owners

/-! Owner transactions are exclusive and reversible. Between transactions every epoch that the subscriber holds is active
    and named; a pending transaction accounts for every other one, so that its abort returns to where it began. -/

namespace AmmState.Subscriber
variable {lib : SubscriberLibrary}

namespace SubscriberLibrary

/-! ### Moving one epoch -/

/-- The entry of an epoch after an operation that moves states by `next`. -/
def moved {I : Type} (next : SubscriberOwnerState → Option (Option SubscriberOwnerState)) :
    Option (SubscriberOwnerState × List I) → Option (SubscriberOwnerState × List I)
  | none => none
  | some (state, interests) =>
    match next state with
    | none => some (state, interests)
    | some state' => state'.map (·, interests)

theorem moved_aborted_idem {I : Type} (entry : Option (SubscriberOwnerState × List I)) :
    moved aborted (moved aborted entry) = moved aborted entry := by
  rcases entry with _ | ⟨_ | _ | _, interests⟩ <;> rfl

section Moves
variable {operation : lib.State → lib.Epoch → lib.State × Bool}
  {next : SubscriberOwnerState → Option (Option SubscriberOwnerState)}

theorem Moves.get (h : lib.Moves operation next) (s : lib.State) (epoch e : lib.Epoch) :
    (lib.entries (operation s epoch).1).get e =
      if e = epoch then moved next ((lib.entries s).get epoch) else (lib.entries s).get e := by
  have hs := h s epoch
  have hself : e = epoch → (lib.entries s).get e = (lib.entries s).get epoch := fun he => by rw [he]
  rcases hentry : (lib.entries s).get epoch with _ | ⟨state, interests⟩
  · simp only [hentry] at hs hself
    rw [hs.2, moved]
    split_ifs with he
    · exact hself he
    · rfl
  · simp only [hentry] at hs hself
    rcases hnext : next state with _ | _ | state'
    · simp only [hnext] at hs
      rw [hs.2]
      simp only [moved, hnext]
      split_ifs with he
      · exact hself he
      · rfl
    · simp only [hnext] at hs
      rw [hs.2, Map.get_remove]
      simp only [moved, hnext, Option.map_none]
    · simp only [hnext] at hs
      rw [hs.2, Map.get_insert]
      simp only [moved, hnext, Option.map_some]

/-- An operation succeeds exactly in the states it requires. -/
theorem Moves.done (h : lib.Moves operation next) {s : lib.State} {epoch : lib.Epoch} :
    (operation s epoch).2 = true ↔ ∃ state, lib.interestOwnerState s epoch = some state ∧ (next state).isSome = true := by
  have hs := h s epoch
  rcases hentry : (lib.entries s).get epoch with _ | ⟨state, interests⟩
  · simp only [hentry] at hs
    simp [interestOwnerState, hentry, hs.1]
  · simp only [hentry] at hs
    rcases hnext : next state with _ | _ | state' <;> simp only [hnext] at hs <;>
      simp [interestOwnerState, hentry, hs.1, hnext]

theorem Moves.kept (h : lib.Moves operation next) {s : lib.State} {epoch : lib.Epoch}
    (hfail : (operation s epoch).2 = false) : lib.entries (operation s epoch).1 = lib.entries s := by
  have hs := h s epoch
  rcases hentry : (lib.entries s).get epoch with _ | ⟨state, interests⟩
  · simp only [hentry] at hs
    exact hs.2
  · simp only [hentry] at hs
    rcases hnext : next state with _ | _ | state' <;> simp only [hnext] at hs
    · exact hs.2
    · simp [hfail] at hs
    · simp [hfail] at hs

end Moves

end SubscriberLibrary

open SubscriberLibrary
namespace OwnerDriver

theorem allStates_iff {s : lib.State} {epochs : List lib.Epoch} {state : SubscriberOwnerState} :
    allStates s epochs state = true ↔ ∀ e ∈ epochs, lib.interestOwnerState s e = some state := by
  simp [allStates]

theorem interestOwnerState_eq {s : lib.State} {e : lib.Epoch} {state : SubscriberOwnerState} :
    lib.interestOwnerState s e = some state ↔ ∃ interests, (lib.entries s).get e = some (state, interests) := by
  constructor
  · intro h
    obtain ⟨⟨_, interests⟩, hentry, rfl⟩ := Option.map_eq_some_iff.mp h
    exact ⟨interests, hentry⟩
  · rintro ⟨interests, h⟩
    simp [interestOwnerState, h]

theorem interestOwnerState_congr {s t : lib.State} {e : lib.Epoch} (h : (lib.entries t).get e = (lib.entries s).get e) :
    lib.interestOwnerState t e = lib.interestOwnerState s e := by
  rw [interestOwnerState, interestOwnerState, h]

section Laws
variable (hlib : lib.Lawful)
include hlib

/-! ### Aborting -/

theorem get_abortStaged (epochs : List lib.Epoch) (s : lib.State) (e : lib.Epoch) :
    (lib.entries (abortStaged s epochs)).get e =
      if e ∈ epochs then moved aborted ((lib.entries s).get e) else (lib.entries s).get e := by
  induction epochs generalizing s with
  | nil => simp [abortStaged]
  | cons epoch rest ih =>
    show (lib.entries (abortStaged (lib.abortInterestOwner s epoch).1 rest)).get e = _
    rw [ih, hlib.abort.get]
    by_cases he : e = epoch
    · subst he
      simp [moved_aborted_idem]
    · simp [he]

/-! ### Staging -/

/-- From `s` to `t` exactly the given epochs were staged, all of them new. -/
structure Staged (s t : lib.State) (epochs : List lib.Epoch) : Prop where
  fresh : ∀ e ∈ epochs, (lib.entries s).get e = none
  staged : ∀ e ∈ epochs, lib.interestOwnerState t e = some .staged
  frame : ∀ e ∉ epochs, (lib.entries t).get e = (lib.entries s).get e
  nodup : epochs.Nodup

omit hlib in
theorem Staged.refl (s : lib.State) : Staged s s [] := ⟨nofun, nofun, fun _ _ => rfl, .nil⟩

omit hlib in
theorem Staged.congr {s t t' : lib.State} {epochs : List lib.Epoch} (h : Staged s t epochs)
    (ht : lib.entries t' = lib.entries t) : Staged s t' epochs where
  fresh := h.fresh
  staged e he := by rw [← h.staged e he]; exact interestOwnerState_congr (by rw [ht])
  frame e he := by rw [ht, h.frame e he]
  nodup := h.nodup

omit hlib in
/-- Staging one more epoch. -/
theorem Staged.stage
    {stage : lib.State → HandlerId → List lib.Interest → BlockRef → lib.State × Except lib.OwnerError lib.Epoch}
    (hstage : lib.Stages stage) {s t t' : lib.State} {epochs : List lib.Epoch} (h : Staged s t epochs)
    {owner : HandlerId} {interests : List lib.Interest} {block : BlockRef} {epoch : lib.Epoch}
    (hok : stage t owner interests block = (t', .ok epoch)) :
    lib.owner epoch = owner ∧ Staged s t' (epochs ++ [epoch]) := by
  have hs := hstage t owner interests block
  simp only [hok] at hs
  obtain ⟨howner, hnone, hentries⟩ := hs
  have hnew : epoch ∉ epochs := by
    intro hmem
    obtain ⟨_, hstaged⟩ := interestOwnerState_eq.mp (h.staged epoch hmem)
    rw [hnone] at hstaged
    cases hstaged
  refine ⟨howner, ⟨?_, ?_, ?_, ?_⟩⟩
  · intro e he
    rcases List.mem_append.mp he with he | he
    · exact h.fresh e he
    · obtain rfl := List.mem_singleton.mp he
      rw [← h.frame e hnew, hnone]
  · intro e he
    by_cases heq : e = epoch
    · subst heq
      exact interestOwnerState_eq.mpr ⟨interests, by rw [hentries, Map.get_insert_self]⟩
    · have hmem : e ∈ epochs := by simpa [heq] using he
      rw [← h.staged e hmem]
      exact interestOwnerState_congr (by rw [hentries, Map.get_insert_of_ne heq])
  · intro e he
    have heq : e ≠ epoch := fun heq => he (by simp [heq])
    have hmem : e ∉ epochs := fun hmem => he (by simp [hmem])
    rw [hentries, Map.get_insert_of_ne heq, h.frame e hmem]
  · exact List.nodup_append.mpr ⟨h.nodup, List.nodup_singleton _, fun e he e' he' heq => hnew
      (List.mem_singleton.mp he' ▸ heq ▸ he)⟩

/-- Aborting what was staged leads back. -/
theorem Staged.abort {s t : lib.State} {epochs : List lib.Epoch} (h : Staged s t epochs) :
    lib.entries (abortStaged t epochs) = lib.entries s := by
  ext1 e
  rw [get_abortStaged hlib]
  split_ifs with he
  · obtain ⟨interests, hentry⟩ := interestOwnerState_eq.mp (h.staged e he)
    rw [hentry, h.fresh e he]
    rfl
  · exact h.frame e he

/-- Epochs of different owners, of which the subscriber holds no other epoch. -/
def Unheld (s : lib.State) (epochs : List lib.Epoch) : Prop :=
  (epochs.map lib.owner).Nodup ∧ ∀ e ∈ epochs, ∀ e', lib.owner e' = lib.owner e → (lib.entries s).get e' = none

/-- Staging succeeds for an owner without epochs only. -/
theorem Staged.unheld {s t t' : lib.State} {epochs : List lib.Epoch} (h : Staged s t epochs) (halone : Unheld s epochs)
    {owner : HandlerId} {interests : List lib.Interest} {block : BlockRef} {epoch : lib.Epoch}
    (hok : lib.stageInterestOwner t owner interests block = (t', .ok epoch)) (howner : lib.owner epoch = owner) :
    Unheld s (epochs ++ [epoch]) := by
  have hfree : ∀ e', lib.owner e' = owner → (lib.entries t).get e' = none := by
    intro e' he'
    by_contra hheld
    obtain ⟨error, herror⟩ := hlib.registered t owner interests block e' he' hheld
    rw [hok] at herror
    cases herror
  have hother : ∀ e ∈ epochs, lib.owner e ≠ lib.owner epoch := by
    intro e he heq
    have hstaged := h.staged e he
    rw [interestOwnerState, hfree e (heq.trans howner)] at hstaged
    cases hstaged
  refine ⟨?_, fun e he e' he' => ?_⟩
  · rw [List.map_append, List.nodup_append]
    refine ⟨halone.1, List.nodup_singleton _, ?_⟩
    rintro o ho _ hlast rfl
    obtain ⟨e, he, rfl⟩ := List.mem_map.mp ho
    exact hother e he (List.mem_singleton.mp hlast)
  · rcases List.mem_append.mp he with he | he
    · exact halone.2 e he e' he'
    · obtain rfl := List.mem_singleton.mp he
      have hnew : e' ∉ epochs := fun hmem => hother e' hmem he'
      rw [← h.frame e' hnew]
      exact hfree e' (he'.trans howner)

theorem stageAll_spec (block : BlockRef) {s : lib.State} (plans : List (AmmSubscriberOwnerPlan lib))
    {epochs : List lib.Epoch} {t : lib.State} (h : Staged s t epochs) (halone : Unheld s epochs) :
    match stageAll block plans epochs t with
    | (t', .ok all) =>
      Staged s t' all ∧ Unheld s all ∧ all.map lib.owner = epochs.map lib.owner ++ plans.map (·.owner)
    | (t', .error _) => lib.entries t' = lib.entries s := by
  induction plans generalizing epochs t with
  | nil => simpa [stageAll] using ⟨h, halone⟩
  | cons plan plans ih =>
    rw [stageAll]
    rcases hstage : lib.stageInterestOwner t plan.owner plan.interests block with ⟨t', error | epoch⟩
    · have hs := hlib.stage t plan.owner plan.interests block
      simp only [hstage] at hs ⊢
      exact (h.congr hs).abort hlib
    · obtain ⟨howner, hnext⟩ := h.stage hlib.stage hstage
      have hrest := ih hnext (h.unheld hlib halone hstage howner)
      simp only
      revert hrest
      rcases stageAll block plans (epochs ++ [epoch]) t' with ⟨t'', error | all⟩
      · exact id
      · rintro ⟨hall, hunheld, howners⟩
        exact ⟨hall, hunheld, by simp [howners, howner]⟩

theorem stageAndReconcile_spec (s : lib.State) (plans : List (AmmSubscriberOwnerPlan lib)) (point : AmmStatePoint) :
    match stageAndReconcile s plans point with
    | (t, .ok epochs) => Staged s t epochs ∧ Unheld s epochs ∧ epochs.map lib.owner = plans.map (·.owner)
    | (t, .error _) => lib.entries t = lib.entries s := by
  have hall := stageAll_spec hlib (statePointBlock point) plans (Staged.refl s) ⟨List.nodup_nil, nofun⟩
  rw [stageAndReconcile]
  rcases hstage : stageAll (statePointBlock point) plans [] s with ⟨t, error | epochs⟩
  · simp only [hstage] at hall ⊢
    exact hall
  · simp only [hstage] at hall ⊢
    have hrec := hlib.reconcile t epochs (statePointBlock point)
    rcases hr : lib.reconcileInterestOwners t epochs (statePointBlock point) with ⟨t', error | _⟩
    · rw [hr] at hrec
      exact (hall.1.congr hrec).abort hlib
    · rw [hr] at hrec
      exact ⟨hall.1.congr hrec, hall.2.1, by simpa using hall.2.2⟩

/-! ### Removing -/

/-- Preparing a list of epochs reaches a prefix of it, the whole list where it succeeds. -/
theorem prepareOwners_spec (epochs : List lib.Epoch) (s : lib.State) :
    ∃ reached, reached <+: epochs ∧
      (∀ e, (lib.entries (prepareOwners epochs s).1).get e =
        if e ∈ reached then moved prepared ((lib.entries s).get e) else (lib.entries s).get e) ∧
      ((prepareOwners epochs s).2 = true → reached = epochs ∧ epochs.Nodup) ∧
      ∀ e ∈ reached, lib.interestOwnerState s e = some .active := by
  induction epochs generalizing s with
  | nil => exact ⟨[], List.prefix_rfl, by simp [prepareOwners], by simp, nofun⟩
  | cons epoch rest ih =>
    rw [prepareOwners]
    have hget := hlib.prepare.get s epoch
    rcases hp : lib.prepareInterestOwnerRemoval s epoch with ⟨t, _ | _⟩
    · have hfail : (lib.prepareInterestOwnerRemoval s epoch).2 = false := by rw [hp]
      have hentries := hlib.prepare.kept hfail
      rw [hp] at hentries
      exact ⟨[], List.nil_prefix, fun e => by simp [hentries], nofun, nofun⟩
    · rw [hp] at hget
      have hactive : lib.interestOwnerState s epoch = some .active := by
        have hok : (lib.prepareInterestOwnerRemoval s epoch).2 = true := by rw [hp]
        obtain ⟨state, hstate, hnext⟩ := hlib.prepare.done.mp hok
        cases state with
        | active => exact hstate
        | staged => cases hnext
        | removing => cases hnext
      obtain ⟨reached, hleading, hrest, hall, hact⟩ := ih t
      have hnot : epoch ∉ reached := by
        intro hmem
        obtain ⟨interests, hentry⟩ := interestOwnerState_eq.mp hactive
        obtain ⟨_, hafter⟩ := interestOwnerState_eq.mp (hact epoch hmem)
        rw [hget, if_pos rfl, hentry] at hafter
        cases hafter
      refine ⟨epoch :: reached, List.cons_prefix_cons.mpr ⟨rfl, hleading⟩, ?_, ?_, ?_⟩
      · intro e
        rw [hrest, hget]
        by_cases he : e = epoch
        · subst he
          simp [hnot]
        · simp [he]
      · intro hok
        obtain ⟨rfl, hnodup⟩ := hall hok
        exact ⟨rfl, List.nodup_cons.mpr ⟨hnot, hnodup⟩⟩
      · intro e he
        by_cases heq : e = epoch
        · rw [heq]
          exact hactive
        · have hmem : e ∈ reached := by simpa [heq] using he
          rw [← hact e hmem]
          exact (interestOwnerState_congr (by rw [hget, if_neg heq])).symm

/-- Whatever a removal prepared, aborting its epochs leads back. -/
theorem prepareOwners_abort {epochs : List lib.Epoch} {s : lib.State}
    (hactive : ∀ e ∈ epochs, lib.interestOwnerState s e = some .active) :
    lib.entries (abortStaged (prepareOwners epochs s).1 epochs) = lib.entries s := by
  obtain ⟨reached, hleading, hget, -, -⟩ := prepareOwners_spec hlib epochs s
  ext1 e
  rw [get_abortStaged hlib, hget]
  by_cases he : e ∈ epochs
  · obtain ⟨interests, hentry⟩ := interestOwnerState_eq.mp (hactive e he)
    by_cases hr : e ∈ reached
    · simp [he, hr, hentry, moved, prepared, aborted]
    · simp [he, hr, hentry, moved, aborted]
  · have hr : e ∉ reached := fun hr => he (hleading.subset hr)
    simp [he, hr]

/-! ### Committing -/

/-- Activating staged epochs succeeds and names each under its owner. -/
theorem activateOwners_spec (pairs : List (HandlerId × lib.Epoch)) {d : OwnerDriver lib}
    (hstaged : ∀ e ∈ pairs.map Prod.snd, lib.interestOwnerState d.subscriber e = some .staged)
    (hnodup : (pairs.map Prod.snd).Nodup) :
    ∃ t, activateOwners pairs d =
        ({ d with subscriber := t, owners := pairs.foldl (fun owners p => owners.insert p.1 p.2) d.owners }, true) ∧
      ∀ e, (lib.entries t).get e = if e ∈ pairs.map Prod.snd
        then moved activated ((lib.entries d.subscriber).get e) else (lib.entries d.subscriber).get e := by
  induction pairs generalizing d with
  | nil => exact ⟨d.subscriber, rfl, by simp⟩
  | cons pair rest ih =>
    obtain ⟨owner, epoch⟩ := pair
    obtain ⟨hnew, hrest⟩ := List.nodup_cons.mp hnodup
    have hget := hlib.activate.get d.subscriber epoch
    have hok := hlib.activate.done.mpr ⟨_, hstaged epoch List.mem_cons_self, rfl⟩
    rw [activateOwners]
    rcases hact : lib.activateInterestOwner d.subscriber epoch with ⟨t, _ | _⟩
    · rw [hact] at hok
      cases hok
    · rw [hact] at hget
      have hne : ∀ e ∈ rest.map Prod.snd, e ≠ epoch := fun e he heq => hnew (heq ▸ he)
      obtain ⟨t', heq, hget'⟩ := ih (d := { d with subscriber := t, owners := d.owners.insert owner epoch })
        (fun e he => by
          rw [← hstaged e (List.mem_cons_of_mem _ he)]
          exact interestOwnerState_congr (by rw [hget, if_neg (hne e he)])) hrest
      refine ⟨t', heq, fun e => ?_⟩
      rw [hget' e]
      simp only [hget, List.map_cons, List.mem_cons]
      by_cases hself : e = epoch
      · subst hself
        rw [if_neg hnew, if_pos rfl, if_pos (Or.inl rfl)]
      · simp only [hself, if_false, false_or]

/-- Finalizing removals succeeds and drops the names of their owners. -/
theorem finalizeOwners_spec (epochs : List lib.Epoch) {d : OwnerDriver lib}
    (hremoving : ∀ e ∈ epochs, lib.interestOwnerState d.subscriber e = some .removing) (hnodup : epochs.Nodup) :
    ∃ t, finalizeOwners epochs d =
        ({ d with subscriber := t, owners := epochs.foldl (fun owners e => owners.erase (lib.owner e)) d.owners }, true) ∧
      ∀ e, (lib.entries t).get e = if e ∈ epochs then none else (lib.entries d.subscriber).get e := by
  induction epochs generalizing d with
  | nil => exact ⟨d.subscriber, rfl, by simp⟩
  | cons epoch rest ih =>
    obtain ⟨hnew, hrest⟩ := List.nodup_cons.mp hnodup
    have hget := hlib.finalize.get d.subscriber epoch
    have hstate := hremoving epoch List.mem_cons_self
    have hok := hlib.finalize.done.mpr ⟨_, hstate, rfl⟩
    rw [finalizeOwners]
    rcases hfin : lib.finalizeInterestOwnerRemoval d.subscriber epoch with ⟨t, _ | _⟩
    · rw [hfin] at hok
      cases hok
    · rw [hfin] at hget
      have hne : ∀ e ∈ rest, e ≠ epoch := fun e he heq => hnew (heq ▸ he)
      obtain ⟨t', heq, hget'⟩ := ih (d := { d with subscriber := t, owners := d.owners.erase (lib.owner epoch) })
        (fun e he => by
          rw [← hremoving e (List.mem_cons_of_mem _ he)]
          exact interestOwnerState_congr (by rw [hget, if_neg (hne e he)])) hrest
      refine ⟨t', heq, fun e => ?_⟩
      rw [hget' e]
      simp only [hget, List.mem_cons]
      by_cases hself : e = epoch
      · subst hself
        obtain ⟨interests, hentry⟩ := interestOwnerState_eq.mp hstate
        simp [hentry, moved, finalized]
      · simp [hself]

omit hlib in
theorem lookup_activated {pairs : List (HandlerId × lib.Epoch)} (hnodup : (pairs.map Prod.fst).Nodup) {owners : Owners lib}
    {o : HandlerId} {e : lib.Epoch} :
    (pairs.foldl (fun owners p => owners.insert p.1 p.2) owners).lookup o = some e ↔
      (o, e) ∈ pairs ∨ o ∉ pairs.map Prod.fst ∧ owners.lookup o = some e := by
  induction pairs generalizing owners with
  | nil => simp
  | cons pair rest ih =>
    obtain ⟨hnew, hrest⟩ := List.nodup_cons.mp hnodup
    rw [List.foldl_cons, ih hrest]
    by_cases ho : o = pair.1
    · subst ho
      rw [Finmap.lookup_insert]
      have hnot : (pair.1, e) ∉ rest := fun hmem => hnew (List.mem_map.mpr ⟨_, hmem, rfl⟩)
      constructor
      · rintro (hmem | ⟨-, he⟩)
        · exact absurd hmem hnot
        · cases he
          exact .inl List.mem_cons_self
      · rintro (hmem | ⟨habsent, -⟩)
        · rcases List.mem_cons.mp hmem with heq | hmem
          · exact .inr ⟨hnew, by rw [← heq]⟩
          · exact absurd hmem hnot
        · exact absurd List.mem_cons_self habsent
    · have hne : (o, e) ≠ pair := fun h => ho (by rw [← h])
      rw [Finmap.lookup_insert_of_ne _ ho]
      simp [ho, hne]

omit hlib in
theorem lookup_finalized {epochs : List lib.Epoch} {owners : Owners lib} {o : HandlerId} {e : lib.Epoch} :
    (epochs.foldl (fun owners e => owners.erase (lib.owner e)) owners).lookup o = some e ↔
      o ∉ epochs.map lib.owner ∧ owners.lookup o = some e := by
  induction epochs generalizing owners with
  | nil => simp
  | cons epoch rest ih =>
    rw [List.foldl_cons, ih]
    by_cases ho : o = lib.owner epoch
    · subst ho
      simp [Finmap.lookup_erase]
    · rw [Finmap.lookup_erase_ne ho]
      simp [ho]

/-! ### The invariant -/

omit hlib in
/-- An epoch that delivers, also while its removal is pending. -/
def Held (s : lib.State) (e : lib.Epoch) : Prop :=
  lib.interestOwnerState s e = some .active ∨ lib.interestOwnerState s e = some .removing

/-- The pending transaction accounts for every epoch that is not simply active. -/
def Accounted (s : lib.State) (owners : Owners lib) : Option (PendingSubscriberTransaction lib) → Prop
  | none => ∀ e, lib.interestOwnerState s e ≠ some .staged ∧ lib.interestOwnerState s e ≠ some .removing
  | some (.add _ epochs) => epochs.Nodup ∧ (epochs.map lib.owner).Nodup ∧
      (∀ e ∈ epochs, owners.lookup (lib.owner e) = none) ∧
      ∀ e, (lib.interestOwnerState s e = some .staged ↔ e ∈ epochs) ∧ lib.interestOwnerState s e ≠ some .removing
  | some (.remove _ epochs) => epochs.Nodup ∧
      ∀ e, lib.interestOwnerState s e ≠ some .staged ∧ (lib.interestOwnerState s e = some .removing ↔ e ∈ epochs)
  | some (.replace _ active replacement) => lib.interestOwnerState s active = some .active ∧
      lib.owner active = lib.owner replacement ∧
      ∀ e, (lib.interestOwnerState s e = some .staged ↔ e = replacement) ∧ lib.interestOwnerState s e ≠ some .removing

/-- The owners map and the epochs of the subscriber agree. -/
structure Based (d : OwnerDriver lib) : Prop where
  named : ∀ o e, d.owners.lookup o = some e ↔ lib.owner e = o ∧ Held d.subscriber e
  accounted : Accounted d.subscriber d.owners d.pending

structure Inv (d : OwnerDriver lib) : Prop extends Based d where
  paused : d.paused = d.pending.isSome

/-- Two drivers that differ at most in the published state and the transaction counter. -/
structure Same (d d' : OwnerDriver lib) : Prop where
  entries : lib.entries d'.subscriber = lib.entries d.subscriber
  paused : d'.paused = d.paused
  interestRevision : d'.interestRevision = d.interestRevision
  owners : d'.owners = d.owners
  pending : d'.pending = d.pending

omit hlib in
theorem Same.refl (d : OwnerDriver lib) : Same d d := ⟨rfl, rfl, rfl, rfl, rfl⟩

omit hlib in
theorem state_of_entries {s t : lib.State} (h : lib.entries t = lib.entries s) (e : lib.Epoch) :
    lib.interestOwnerState t e = lib.interestOwnerState s e := interestOwnerState_congr (by rw [h])

omit hlib in
theorem Held.congr {s t : lib.State} {e : lib.Epoch} (h : lib.interestOwnerState t e = lib.interestOwnerState s e) :
    Held t e ↔ Held s e := by rw [Held, Held, h]

omit hlib in
theorem Accounted.congr {s t : lib.State} {owners : Owners lib} {pending : Option (PendingSubscriberTransaction lib)}
    (hst : ∀ e, lib.interestOwnerState t e = lib.interestOwnerState s e) (h : Accounted s owners pending) :
    Accounted t owners pending := by
  rcases pending with _ | (⟨id, epochs⟩ | ⟨id, epochs⟩ | ⟨id, active, replacement⟩)
  · simpa only [Accounted, hst] using h
  · simpa only [Accounted, hst] using h
  · simpa only [Accounted, hst] using h
  · simpa only [Accounted, hst] using h

omit hlib in
theorem Same.based {d d' : OwnerDriver lib} (h : Same d d') (hd : Based d) : Based d' where
  named o e := by
    rw [h.owners, hd.named, Held.congr (state_of_entries h.entries e)]
  accounted := by
    rw [h.owners, h.pending]
    exact hd.accounted.congr (state_of_entries h.entries)

omit hlib in
theorem Same.inv {d d' : OwnerDriver lib} (h : Same d d') (hd : Inv d) : Inv d' where
  toBased := h.based hd.toBased
  paused := by rw [h.paused, h.pending, hd.paused]

/-! ### Begin -/

/-- The driver that a begin leaves: paused, with the transaction pending. -/
def opened (d : OwnerDriver lib) (subscriber : lib.State) (pending : PendingSubscriberTransaction lib) : OwnerDriver lib :=
  { d.pause with subscriber := subscriber, nextTransaction := pending.id, pending := some pending }

omit hlib in
theorem openTransaction_eq {d : OwnerDriver lib} (hid : d.nextTransaction + 1 < 2 ^ 64) {s : lib.State}
    {pending : Nat → PendingSubscriberTransaction lib} (hp : ∀ id, (pending id).id = id) :
    { d.pause with subscriber := s }.openTransaction pending =
      (d.opened s (pending (d.nextTransaction + 1)), .ok (d.nextTransaction + 1)) := by
  rw [openTransaction, allocateTransaction, if_pos (show d.pause.nextTransaction + 1 < 2 ^ 64 from hid), opened, hp]
  rfl

/-- A begin either fails with nothing changed, or pauses delivery and opens the next transaction. -/
theorem beginAdd_cases {d : OwnerDriver lib} (hd : Inv d) (hpending : d.pending = none)
    (hid : d.nextTransaction + 1 < 2 ^ 64) (plans : List (AmmSubscriberOwnerPlan lib)) (point latest : AmmStatePoint) :
    (∃ error, (d.beginAdd plans point latest).2 = .error error ∧ Same d (d.beginAdd plans point latest).1) ∨
    ∃ t epochs, d.beginAdd plans point latest =
        (d.opened t (.add (d.nextTransaction + 1) epochs), .ok (d.nextTransaction + 1)) ∧
      Staged d.subscriber t epochs ∧ Unheld d.subscriber epochs := by
  have hpaused : d.paused = false := by rw [hd.paused, hpending]; rfl
  have hstage := stageAndReconcile_spec hlib d.subscriber plans point
  rw [beginAdd, hpending]
  simp only [Option.isSome_none, Bool.false_eq_true, if_false]
  rcases hs : stageAndReconcile d.subscriber plans point with ⟨t, error | epochs⟩
  · simp only [hs] at hstage
    exact .inl ⟨error, rfl, hstage, hpaused.symm, rfl, rfl, rfl⟩
  · simp only [hs] at hstage
    exact .inr ⟨t, epochs, openTransaction_eq hid fun _ => rfl, hstage.1, hstage.2.1⟩

theorem beginRemove_cases {d : OwnerDriver lib} (hd : Inv d) (hpending : d.pending = none)
    (hid : d.nextTransaction + 1 < 2 ^ 64) (owners : List HandlerId) (latest : AmmStatePoint) :
    (∃ error, (d.beginRemove owners latest).2 = .error error ∧ Same d (d.beginRemove owners latest).1) ∨
    ∃ epochs, d.beginRemove owners latest = (d.opened (prepareOwners epochs d.subscriber).1
        (.remove (d.nextTransaction + 1) epochs), .ok (d.nextTransaction + 1)) ∧
      (prepareOwners epochs d.subscriber).2 = true ∧
      ∀ e ∈ epochs, lib.interestOwnerState d.subscriber e = some .active := by
  have hpaused : d.paused = false := by rw [hd.paused, hpending]; rfl
  rw [beginRemove, hpending]
  simp only [Option.isSome_none, Bool.false_eq_true, if_false]
  rcases owners.mapM (fun owner => d.owners.lookup owner) with _ | epochs
  · exact .inl ⟨_, rfl, Same.refl d⟩
  · simp only
    by_cases hall : allStates d.subscriber epochs .active = true
    · have hactive := allStates_iff.mp hall
      simp only [hall, Bool.not_true, Bool.false_eq_true, if_false]
      have hback := prepareOwners_abort hlib hactive
      rcases hp : prepareOwners epochs d.subscriber with ⟨t, _ | _⟩
      · rw [hp] at hback
        exact .inl ⟨_, rfl, hback, hpaused.symm, rfl, rfl, rfl⟩
      · exact .inr ⟨epochs, by rw [hp]; exact openTransaction_eq hid fun _ => rfl, by rw [hp], hactive⟩
    · simp only [hall, Bool.not_false, if_true]
      exact .inl ⟨_, rfl, Same.refl d⟩

theorem beginReplace_cases {d : OwnerDriver lib} (hd : Inv d) (hpending : d.pending = none)
    (hid : d.nextTransaction + 1 < 2 ^ 64) (plan : AmmSubscriberOwnerPlan lib) (point latest : AmmStatePoint) :
    (∃ error, (d.beginReplace plan point latest).2 = .error error ∧ Same d (d.beginReplace plan point latest).1) ∨
    ∃ t active replacement, d.beginReplace plan point latest =
        (d.opened t (.replace (d.nextTransaction + 1) active replacement), .ok (d.nextTransaction + 1)) ∧
      d.owners.lookup plan.owner = some active ∧ lib.owner replacement = plan.owner ∧
      Staged d.subscriber t [replacement] := by
  have hpaused : d.paused = false := by rw [hd.paused, hpending]; rfl
  rw [beginReplace, hpending]
  simp only [Option.isSome_none, Bool.false_eq_true, if_false]
  rcases hactive : d.owners.lookup plan.owner with _ | active
  · exact .inl ⟨_, rfl, Same.refl d⟩
  · simp only
    rcases hs : lib.stageInterestOwnerReplacement d.subscriber plan.owner plan.interests (statePointBlock point)
      with ⟨t, error | replacement⟩
    · have hstage := hlib.stageReplacement d.subscriber plan.owner plan.interests (statePointBlock point)
      simp only [hs] at hstage
      exact .inl ⟨_, rfl, hstage, hpaused.symm, rfl, rfl, rfl⟩
    · obtain ⟨howner, hstaged⟩ := (Staged.refl d.subscriber).stage hlib.stageReplacement hs
      have hrec := hlib.reconcile t [replacement] (statePointBlock point)
      simp only
      rcases hr : lib.reconcileInterestOwners t [replacement] (statePointBlock point) with ⟨t', error | _⟩
      · rw [hr] at hrec
        exact .inl ⟨_, rfl, (hstaged.congr hrec).abort hlib, hpaused.symm, rfl, rfl, rfl⟩
      · rw [hr] at hrec
        exact .inr ⟨t', active, replacement, openTransaction_eq hid fun _ => rfl, rfl, howner, hstaged.congr hrec⟩

/-! ### Keeping the invariant -/

omit hlib in
/-- Staging new epochs leaves the ones that deliver as they are. -/
theorem Staged.held {s t : lib.State} {epochs : List lib.Epoch} (h : Staged s t epochs) (e : lib.Epoch) :
    Held t e ↔ Held s e := by
  by_cases he : e ∈ epochs
  · have hs : lib.interestOwnerState s e = none := by rw [interestOwnerState, h.fresh e he]; rfl
    simp [Held, h.staged e he, hs]
  · exact Held.congr (interestOwnerState_congr (h.frame e he))

omit hlib in
theorem Staged.states {s t : lib.State} {epochs : List lib.Epoch} (h : Staged s t epochs) {owners : Owners lib}
    (hidle : Accounted s owners none) (e : lib.Epoch) :
    (lib.interestOwnerState t e = some .staged ↔ e ∈ epochs) ∧ lib.interestOwnerState t e ≠ some .removing := by
  by_cases he : e ∈ epochs
  · simp [h.staged e he, he]
  · rw [interestOwnerState_congr (h.frame e he)]
    exact ⟨⟨fun hs => absurd hs (hidle e).1, fun hmem => absurd hmem he⟩, (hidle e).2⟩

omit hlib in
/-- The owners map names no owner without epochs. -/
theorem Based.lookup_unheld {d : OwnerDriver lib} (hd : Based d) {epochs : List lib.Epoch}
    (h : Unheld d.subscriber epochs) : ∀ e ∈ epochs, d.owners.lookup (lib.owner e) = none := by
  intro e he
  refine Option.eq_none_iff_forall_ne_some.mpr fun e' hlookup => ?_
  obtain ⟨howner, hheld⟩ := (hd.named _ _).mp hlookup
  simp [Held, interestOwnerState, h.2 e he e' howner] at hheld

omit hlib in
theorem inv_openedAdd {d : OwnerDriver lib} (hd : Inv d) (hpending : d.pending = none) {t : lib.State} {id : Nat}
    {epochs : List lib.Epoch} (hstaged : Staged d.subscriber t epochs) (halone : Unheld d.subscriber epochs) :
    Inv (d.opened t (.add id epochs)) where
  paused := rfl
  named o e := (hd.named o e).trans (and_congr_right' (hstaged.held e).symm)
  accounted := by
    have hidle := hd.accounted
    rw [hpending] at hidle
    exact ⟨hstaged.nodup, halone.1, hd.toBased.lookup_unheld halone, hstaged.states hidle⟩

theorem inv_openedRemove {d : OwnerDriver lib} (hd : Inv d) (hpending : d.pending = none) {id : Nat}
    {epochs : List lib.Epoch} (hok : (prepareOwners epochs d.subscriber).2 = true)
    (hactive : ∀ e ∈ epochs, lib.interestOwnerState d.subscriber e = some .active) :
    Inv (d.opened (prepareOwners epochs d.subscriber).1 (.remove id epochs)) := by
  have hidle := hd.accounted
  rw [hpending] at hidle
  obtain ⟨reached, -, hget, hall, -⟩ := prepareOwners_spec hlib epochs d.subscriber
  obtain ⟨rfl, hnodup⟩ := hall hok
  have hremoving : ∀ e ∈ reached, lib.interestOwnerState (prepareOwners reached d.subscriber).1 e = some .removing := by
    intro e he
    obtain ⟨interests, hentry⟩ := interestOwnerState_eq.mp (hactive e he)
    exact interestOwnerState_eq.mpr ⟨interests, by rw [hget, if_pos he, hentry]; rfl⟩
  have hframe : ∀ e ∉ reached, lib.interestOwnerState (prepareOwners reached d.subscriber).1 e =
      lib.interestOwnerState d.subscriber e :=
    fun e he => interestOwnerState_congr (by rw [hget, if_neg he])
  refine ⟨⟨fun o e => (hd.named o e).trans (and_congr_right' ?_), hnodup, fun e => ?_⟩, rfl⟩
  · by_cases he : e ∈ reached
    · exact ⟨fun _ => .inr (hremoving e he), fun _ => .inl (hactive e he)⟩
    · exact (Held.congr (hframe e he)).symm
  · by_cases he : e ∈ reached
    · simp [opened, hremoving e he, he]
    · show lib.interestOwnerState (prepareOwners reached d.subscriber).1 e ≠ some .staged ∧ _
      rw [opened, hframe e he]
      exact ⟨(hidle e).1, ⟨fun hr => absurd hr (hidle e).2, fun hmem => absurd hmem he⟩⟩

omit hlib in
theorem inv_openedReplace {d : OwnerDriver lib} (hd : Inv d) (hpending : d.pending = none) {t : lib.State} {id : Nat}
    {active replacement : lib.Epoch} (hactive : d.owners.lookup (lib.owner replacement) = some active)
    (hstaged : Staged d.subscriber t [replacement]) : Inv (d.opened t (.replace id active replacement)) := by
  have hidle := hd.accounted
  rw [hpending] at hidle
  obtain ⟨howner, hheld⟩ := (hd.named _ _).mp hactive
  have hstate : lib.interestOwnerState d.subscriber active = some .active :=
    hheld.resolve_right (hidle active).2
  have hne : active ∉ [replacement] := by
    intro hmem
    have hnone := hstaged.fresh active hmem
    rw [interestOwnerState, hnone] at hstate
    cases hstate
  refine ⟨⟨fun o e => (hd.named o e).trans (and_congr_right' (hstaged.held e).symm), ?_, howner, fun e => ?_⟩, rfl⟩
  · exact (interestOwnerState_congr (hstaged.frame active hne)).trans hstate
  · have hstates := hstaged.states hidle e
    rwa [List.mem_singleton] at hstates

omit hlib in
/-- Outside the epochs of the pending transaction nothing is staged or being removed. -/
theorem Accounted.outside {s : lib.State} {owners : Owners lib} {pending : PendingSubscriberTransaction lib}
    (h : Accounted s owners (some pending)) {e : lib.Epoch} (he : e ∉ pending.abortEpochs) :
    lib.interestOwnerState s e ≠ some .staged ∧ lib.interestOwnerState s e ≠ some .removing := by
  rcases pending with ⟨id, epochs⟩ | ⟨id, epochs⟩ | ⟨id, active, replacement⟩
  · obtain ⟨-, -, -, hstates⟩ := h
    exact ⟨fun hs => he ((hstates e).1.mp hs), (hstates e).2⟩
  · obtain ⟨-, hstates⟩ := h
    exact ⟨(hstates e).1, fun hr => he ((hstates e).2.mp hr)⟩
  · obtain ⟨-, -, hstates⟩ := h
    exact ⟨fun hs => he (List.mem_singleton.mpr ((hstates e).1.mp hs)), (hstates e).2⟩

theorem abort_inv {d : OwnerDriver lib} (hd : Inv d) {pending : PendingSubscriberTransaction lib}
    (hpending : d.pending = some pending) (latest : AmmStatePoint) :
    Inv (d.abort pending.id latest).1 := by
  have haccounted := hd.accounted
  rw [hpending] at haccounted
  have hget := get_abortStaged hlib pending.abortEpochs d.subscriber
  have hstate : ∀ e, (lib.interestOwnerState (abortStaged d.subscriber pending.abortEpochs) e ≠ some .staged ∧
      lib.interestOwnerState (abortStaged d.subscriber pending.abortEpochs) e ≠ some .removing) ∧
      (Held (abortStaged d.subscriber pending.abortEpochs) e ↔ Held d.subscriber e) := by
    intro e
    by_cases he : e ∈ pending.abortEpochs
    · rcases hentry : (lib.entries d.subscriber).get e with _ | ⟨_ | _ | _, interests⟩ <;>
        simp [Held, interestOwnerState, hget, he, hentry, moved, aborted]
    · have hsame := interestOwnerState_congr (s := d.subscriber) (by rw [hget e, if_neg he])
      rw [hsame]
      exact ⟨haccounted.outside he, Held.congr hsame⟩
  rw [abort, hpending]
  simp only [ne_eq, not_true_eq_false, if_false]
  exact ⟨⟨fun o e => (hd.named o e).trans (and_congr_right' (hstate e).2.symm), fun e => (hstate e).1⟩, rfl⟩

/-- Activating the epochs of new owners names them beside the ones that deliver already. -/
theorem activateOwners_based {d : OwnerDriver lib} {epochs : List lib.Epoch}
    (hnamed : ∀ o e, d.owners.lookup o = some e ↔ lib.owner e = o ∧ Held d.subscriber e) (hnodup : epochs.Nodup)
    (howners : (epochs.map lib.owner).Nodup) (hnone : ∀ e ∈ epochs, d.owners.lookup (lib.owner e) = none)
    (hstates : ∀ e, (lib.interestOwnerState d.subscriber e = some .staged ↔ e ∈ epochs) ∧
      lib.interestOwnerState d.subscriber e ≠ some .removing) :
    ∃ t owners, activateOwners (epochs.map fun e => (lib.owner e, e)) d =
        ({ d with subscriber := t, owners := owners }, true) ∧
      (∀ o e, owners.lookup o = some e ↔ lib.owner e = o ∧ Held t e) ∧ Accounted t owners none := by
  have hsnd : (epochs.map fun e => (lib.owner e, e)).map Prod.snd = epochs := by simp [Function.comp_def]
  have hfst : (epochs.map fun e => (lib.owner e, e)).map Prod.fst = epochs.map lib.owner := by simp [Function.comp_def]
  obtain ⟨t, heq, hget⟩ := activateOwners_spec hlib (epochs.map fun e => (lib.owner e, e)) (d := d)
    (fun e he => (hstates e).1.mpr (hsnd ▸ he)) (hsnd.symm ▸ hnodup)
  rw [hsnd] at hget
  have hactive : ∀ e ∈ epochs, lib.interestOwnerState t e = some .active := by
    intro e he
    obtain ⟨interests, hentry⟩ := interestOwnerState_eq.mp ((hstates e).1.mpr he)
    exact interestOwnerState_eq.mpr ⟨interests, by rw [hget, if_pos he, hentry]; rfl⟩
  have hframe : ∀ e ∉ epochs, lib.interestOwnerState t e = lib.interestOwnerState d.subscriber e :=
    fun e he => interestOwnerState_congr (by rw [hget, if_neg he])
  refine ⟨t, _, heq, fun o e => ?_, fun e => ?_⟩
  · rw [lookup_activated (hfst.symm ▸ howners), hfst, hnamed]
    constructor
    · rintro (hmem | ⟨habsent, rfl, hheld⟩)
      · obtain ⟨e', he', heq'⟩ := List.mem_map.mp hmem
        obtain ⟨rfl, rfl⟩ := Prod.mk.inj heq'
        exact ⟨rfl, .inl (hactive e' he')⟩
      · have he : e ∉ epochs := fun he => habsent (List.mem_map_of_mem he)
        exact ⟨rfl, (Held.congr (hframe e he)).mpr hheld⟩
    · rintro ⟨rfl, hheld⟩
      by_cases he : e ∈ epochs
      · exact .inl (List.mem_map_of_mem (f := fun e => (lib.owner e, e)) he)
      · have hheld' := (Held.congr (hframe e he)).mp hheld
        refine .inr ⟨fun hmem => ?_, rfl, hheld'⟩
        obtain ⟨e', he', howner⟩ := List.mem_map.mp hmem
        have hlookup := (hnamed (lib.owner e') e).mpr ⟨howner.symm, hheld'⟩
        rw [hnone e' he'] at hlookup
        cases hlookup
  · by_cases he : e ∈ epochs
    · simp [hactive e he]
    · rw [hframe e he]
      exact ⟨fun hs => he ((hstates e).1.mp hs), (hstates e).2⟩

theorem finalizeOwners_based {d : OwnerDriver lib} {epochs : List lib.Epoch}
    (hnamed : ∀ o e, d.owners.lookup o = some e ↔ lib.owner e = o ∧ Held d.subscriber e) (hnodup : epochs.Nodup)
    (hstates : ∀ e, lib.interestOwnerState d.subscriber e ≠ some .staged ∧
      (lib.interestOwnerState d.subscriber e = some .removing ↔ e ∈ epochs)) :
    ∃ t owners, finalizeOwners epochs d = ({ d with subscriber := t, owners := owners }, true) ∧
      (∀ o e, owners.lookup o = some e ↔ lib.owner e = o ∧ Held t e) ∧ Accounted t owners none := by
  obtain ⟨t, heq, hget⟩ := finalizeOwners_spec hlib epochs (d := d) (fun e he => (hstates e).2.mpr he) hnodup
  have hgone : ∀ e ∈ epochs, lib.interestOwnerState t e = none := by
    intro e he
    rw [interestOwnerState, hget, if_pos he]
    rfl
  have hframe : ∀ e ∉ epochs, lib.interestOwnerState t e = lib.interestOwnerState d.subscriber e :=
    fun e he => interestOwnerState_congr (by rw [hget, if_neg he])
  refine ⟨t, _, heq, fun o e => ?_, fun e => ?_⟩
  · rw [lookup_finalized, hnamed]
    constructor
    · rintro ⟨habsent, rfl, hheld⟩
      have he : e ∉ epochs := fun he => habsent (List.mem_map_of_mem he)
      exact ⟨rfl, (Held.congr (hframe e he)).mpr hheld⟩
    · rintro ⟨rfl, hheld⟩
      have he : e ∉ epochs := by
        intro he
        simp [Held, hgone e he] at hheld
      have hheld' := (Held.congr (hframe e he)).mp hheld
      refine ⟨fun hmem => ?_, rfl, hheld'⟩
      -- Another epoch of the same owner that is being removed would be named in its place.
      obtain ⟨e', he', howner⟩ := List.mem_map.mp hmem
      have hother := (hnamed (lib.owner e) e').mpr ⟨howner, .inr ((hstates e').2.mpr he')⟩
      rw [(hnamed (lib.owner e) e).mpr ⟨rfl, hheld'⟩] at hother
      cases hother
      exact he he'
  · by_cases he : e ∈ epochs
    · simp [hgone e he]
    · rw [hframe e he]
      exact ⟨(hstates e).1, fun hr => he ((hstates e).2.mp hr)⟩

/-- A committed replacement takes over the name of the epoch it replaces. -/
theorem replacement_based {d : OwnerDriver lib} {active replacement : lib.Epoch}
    (hnamed : ∀ o e, d.owners.lookup o = some e ↔ lib.owner e = o ∧ Held d.subscriber e)
    (hactive : lib.interestOwnerState d.subscriber active = some .active)
    (howner : lib.owner active = lib.owner replacement)
    (hstates : ∀ e, (lib.interestOwnerState d.subscriber e = some .staged ↔ e = replacement) ∧
      lib.interestOwnerState d.subscriber e ≠ some .removing) :
    ∃ t, lib.commitInterestOwnerReplacement d.subscriber active replacement = (t, true) ∧
      (∀ o e, (d.owners.insert (lib.owner replacement) replacement).lookup o = some e ↔ lib.owner e = o ∧ Held t e) ∧
      Accounted t (d.owners.insert (lib.owner replacement) replacement) none := by
  obtain ⟨interests, hentry⟩ := interestOwnerState_eq.mp ((hstates replacement).1.mpr rfl)
  obtain ⟨hok, hentries⟩ := hlib.commitReplacement d.subscriber active replacement interests hactive hentry
  rcases hc : lib.commitInterestOwnerReplacement d.subscriber active replacement with ⟨t, _ | _⟩
  · rw [hc] at hok
    cases hok
  rw [hc] at hentries
  have hnew : lib.interestOwnerState t replacement = some .active :=
    interestOwnerState_eq.mpr ⟨interests, by rw [hentries, Map.get_insert_self]⟩
  have hne : active ≠ replacement := by
    rintro rfl
    rw [(hstates active).1.mpr rfl] at hactive
    cases hactive
  have hgone : lib.interestOwnerState t active = none := by
    rw [interestOwnerState, hentries, Map.get_insert_of_ne hne, Map.get_remove_self]
    rfl
  have hframe : ∀ e, e ≠ replacement → e ≠ active →
      lib.interestOwnerState t e = lib.interestOwnerState d.subscriber e := by
    intro e hr ha
    exact interestOwnerState_congr (by rw [hentries, Map.get_insert_of_ne hr, Map.get_remove_of_ne ha])
  refine ⟨t, rfl, fun o e => ?_, fun e => ?_⟩
  · by_cases ho : o = lib.owner replacement
    · subst ho
      rw [Finmap.lookup_insert]
      constructor
      · intro he
        obtain rfl := Option.some.inj he
        exact ⟨rfl, .inl hnew⟩
      · rintro ⟨hsame, hheld⟩
        by_contra hother
        have hr : e ≠ replacement := fun h => hother (by rw [h])
        have ha : e ≠ active := by
          rintro rfl
          simp [Held, hgone] at hheld
        -- The owner named one epoch only, the one that was replaced.
        have hlookup := (hnamed _ e).mpr ⟨hsame, (Held.congr (hframe e hr ha)).mp hheld⟩
        rw [(hnamed _ active).mpr ⟨howner, .inl hactive⟩] at hlookup
        exact ha (Option.some.inj hlookup).symm
    · rw [Finmap.lookup_insert_of_ne _ ho, hnamed]
      refine and_congr_right fun hsame => ?_
      have hr : e ≠ replacement := fun h => ho (by rw [← hsame, h])
      have ha : e ≠ active := fun h => ho (by rw [← hsame, h, howner])
      exact (Held.congr (hframe e hr ha)).symm
  · by_cases hr : e = replacement
    · simp [hr, hnew]
    · by_cases ha : e = active
      · simp [ha, hgone]
      · rw [hframe e hr ha]
        exact ⟨fun hs => hr ((hstates e).1.mp hs), (hstates e).2⟩

omit hlib in
theorem resume_inv {d : OwnerDriver lib} (hpending : d.pending = none) {point : AmmStatePoint}
    (hnamed : ∀ o e, d.owners.lookup o = some e ↔ lib.owner e = o ∧ Held d.subscriber e)
    (hidle : Accounted d.subscriber d.owners none) : Inv (d.resume point) where
  named := hnamed
  accounted := by
    rw [← hpending] at hidle
    exact hidle
  paused := by
    show false = d.pending.isSome
    rw [hpending]
    rfl

/-- A commit with the pending number succeeds, and one with any other number changes nothing. -/
theorem commit_spec {d : OwnerDriver lib} (hd : Inv d) (transaction revision : Nat) (point : AmmStatePoint) :
    (d.commit transaction revision point = (d, .error .staleTransaction) ∧
      ∀ pending, d.pending = some pending → pending.id ≠ transaction) ∨
    ∃ d', d.commit transaction revision point = (d', .ok ()) ∧ Inv d' := by
  rw [commit]
  rcases hpending : d.pending with _ | pending
  · exact .inl ⟨rfl, nofun⟩
  · simp only
    by_cases hid : pending.id = transaction
    · simp only [hid, ne_eq, not_true_eq_false, if_false]
      have haccounted := hd.accounted
      rw [hpending] at haccounted
      right
      rcases pending with ⟨id, epochs⟩ | ⟨id, epochs⟩ | ⟨id, active, replacement⟩
      · obtain ⟨hnodup, howners, hnone, hstates⟩ := haccounted
        have hall : allStates d.subscriber epochs .staged = true :=
          allStates_iff.mpr fun e he => (hstates e).1.mpr he
        obtain ⟨t, owners, heq, hnamed, hidle⟩ := activateOwners_based hlib (d := { d with pending := none })
          hd.named hnodup howners hnone hstates
        simp only [hall, Bool.not_true, Bool.false_eq_true, if_false, heq]
        exact ⟨_, rfl, resume_inv rfl hnamed hidle⟩
      · obtain ⟨hnodup, hstates⟩ := haccounted
        have hall : allStates d.subscriber epochs .removing = true :=
          allStates_iff.mpr fun e he => (hstates e).2.mpr he
        obtain ⟨t, owners, heq, hnamed, hidle⟩ := finalizeOwners_based hlib (d := { d with pending := none })
          hd.named hnodup hstates
        simp only [hall, Bool.not_true, Bool.false_eq_true, if_false, heq]
        exact ⟨_, rfl, resume_inv rfl hnamed hidle⟩
      · obtain ⟨hactive, howner, hstates⟩ := haccounted
        obtain ⟨t, heq, hnamed, hidle⟩ := replacement_based hlib hd.named hactive howner hstates
        simp only [heq]
        exact ⟨_, rfl, resume_inv rfl hnamed hidle⟩
    · refine .inl ⟨by simp [hid], ?_⟩
      rintro _ ⟨⟩
      exact hid

/-- An adoption fails with nothing changed, or brings every planned owner into service. -/
theorem adoptExisting_spec {d : OwnerDriver lib} (hd : Based d) (plans : List (AmmSubscriberOwnerPlan lib))
    (point : AmmStatePoint) (revision : Nat) :
    (∃ error, (d.adoptExisting plans point revision).2 = .error error ∧ Same d (d.adoptExisting plans point revision).1) ∨
    ∃ d', d.adoptExisting plans point revision = (d', .ok ()) ∧ Inv d' := by
  rw [adoptExisting]
  by_cases hbusy : d.pending.isSome ∨ d.owners ≠ ∅
  · rw [if_pos hbusy]
    exact .inl ⟨_, rfl, Same.refl d⟩
  obtain ⟨hpending, hempty⟩ := not_or.mp hbusy
  rw [Option.not_isSome_iff_eq_none] at hpending
  rw [not_not] at hempty
  rw [if_neg hbusy]
  have hidle := hd.accounted
  rw [hpending] at hidle
  have hstage := stageAndReconcile_spec hlib d.subscriber plans point
  rcases hs : stageAndReconcile d.subscriber plans point with ⟨t, error | epochs⟩
  · simp only [hs] at hstage
    exact .inl ⟨_, rfl, hstage, rfl, rfl, rfl, rfl⟩
  · simp only [hs] at hstage
    obtain ⟨hstaged, halone, hmap⟩ := hstage
    have hpairs : (plans.map (·.owner)).zip epochs = epochs.map fun e => (lib.owner e, e) := by
      rw [← hmap]
      simpa using List.zip_map' (f := lib.owner) (g := id) (l := epochs)
    have hall : allStates t epochs .staged = true := allStates_iff.mpr hstaged.staged
    obtain ⟨t', owners, heq, hnamed, hidle'⟩ := activateOwners_based hlib (d := { d with subscriber := t })
      (fun o e => (hd.named o e).trans (and_congr_right' (hstaged.held e).symm)) hstaged.nodup halone.1
      (hd.lookup_unheld halone) (hstaged.states hidle)
    simp only [hall, Bool.not_true, Bool.false_eq_true, if_false, hpairs, heq]
    exact .inr ⟨_, rfl, resume_inv (d := { d with subscriber := t', owners := owners, interestRevision := revision })
      hpending hnamed hidle'⟩

/-! ### Runs -/

omit hlib in
/-- A transaction number is left where a command begins one. -/
def Allows (d : OwnerDriver lib) : OwnerCommand lib → Prop
  | .beginAdd _ _ | .beginRemove _ | .beginReplace _ _ => d.nextTransaction + 1 < 2 ^ 64
  | .adoptExisting _ _ _ | .commit _ _ _ | .abort _ => True

def Serves (d : OwnerDriver lib) : List (AmmStatePoint × OwnerCommand lib) → Prop
  | [] => True
  | (latest, command) :: rest => d.Allows command ∧ Serves (d.handleControl latest command).1 rest

end Laws
end OwnerDriver

def OwnerCommand.isBegin : OwnerCommand lib → Bool
  | .beginAdd _ _ | .beginRemove _ | .beginReplace _ _ => true
  | .adoptExisting _ _ _ | .commit _ _ _ | .abort _ => false

/-- A command that settles a transaction under the given number. -/
def OwnerCommand.settles : OwnerCommand lib → Option Nat
  | .commit transaction _ _ | .abort transaction => some transaction
  | .adoptExisting _ _ _ | .beginAdd _ _ | .beginRemove _ | .beginReplace _ _ => none

namespace OwnerDriver
section Runs
variable (hlib : lib.Lawful)

/-- While a transaction is pending nothing else begins. -/
theorem handleControl_busy {d : OwnerDriver lib} (hpending : d.pending.isSome = true) {command : OwnerCommand lib}
    (hcommand : command.settles = none) (latest : AmmStatePoint) :
    d.handleControl latest command = (d, .error .transactionInProgress) := by
  cases command with
  | adoptExisting plans point revision =>
    simp [handleControl, adoptExisting, hpending, Except.map]
  | beginAdd plans point => simp [handleControl, beginAdd, hpending, Except.map]
  | beginRemove owners => simp [handleControl, beginRemove, hpending, Except.map]
  | beginReplace plan point => simp [handleControl, beginReplace, hpending, Except.map]
  | commit transaction revision point => cases hcommand
  | abort transaction => cases hcommand

theorem handleControl_stale {d : OwnerDriver lib} {command : OwnerCommand lib} {transaction : Nat}
    (hcommand : command.settles = some transaction)
    (hstale : ∀ pending, d.pending = some pending → pending.id ≠ transaction) (latest : AmmStatePoint) :
    d.handleControl latest command = (d, .error .staleTransaction) := by
  cases command with
  | commit transaction' revision point =>
    obtain rfl := Option.some.inj hcommand
    rcases hpending : d.pending with _ | pending
    · simp [handleControl, commit, hpending, Except.map]
    · simp [handleControl, commit, hpending, hstale pending hpending, Except.map]
  | abort transaction' =>
    obtain rfl := Option.some.inj hcommand
    rcases hpending : d.pending with _ | pending
    · simp [handleControl, abort, hpending, Except.map]
    · simp [handleControl, abort, hpending, hstale pending hpending, Except.map]
  | adoptExisting plans point revision => cases hcommand
  | beginAdd plans point => cases hcommand
  | beginRemove owners => cases hcommand
  | beginReplace plan point => cases hcommand

include hlib

/-- A begin fails with nothing changed, or opens a transaction that its abort takes back. -/
theorem begin_spec {d : OwnerDriver lib} (hd : Inv d) (hpending : d.pending = none)
    (hid : d.nextTransaction + 1 < 2 ^ 64) {command : OwnerCommand lib} (hcommand : command.isBegin = true)
    (latest : AmmStatePoint) :
    (∃ error, (d.handleControl latest command).2 = .error error ∧ Same d (d.handleControl latest command).1) ∨
    ∃ t pending, d.handleControl latest command = (d.opened t pending, .ok (.began pending.id)) ∧
      lib.entries (abortStaged t pending.abortEpochs) = lib.entries d.subscriber ∧ Inv (d.opened t pending) := by
  cases command with
  | beginAdd plans point =>
    rcases beginAdd_cases hlib hd hpending hid plans point latest with ⟨error, herror, hsame⟩ | ⟨t,
      epochs, heq, hst, halone⟩
    · exact .inl ⟨error, by simp [handleControl, herror, Except.map], hsame⟩
    · exact .inr ⟨t, .add _ epochs, by rw [handleControl, heq]; rfl, hst.abort hlib,
        inv_openedAdd hd hpending hst halone⟩
  | beginRemove owners =>
    rcases beginRemove_cases hlib hd hpending hid owners latest with ⟨error, herror, hsame⟩ | ⟨epochs, heq, hok, hactive⟩
    · exact .inl ⟨error, by simp [handleControl, herror, Except.map], hsame⟩
    · exact .inr ⟨_, .remove _ epochs, by rw [handleControl, heq]; rfl, prepareOwners_abort hlib hactive,
        inv_openedRemove hlib hd hpending hok hactive⟩
  | beginReplace plan point =>
    rcases beginReplace_cases hlib hd hpending hid plan point latest with
      ⟨error, herror, hsame⟩ | ⟨t, active, replacement, heq, hactive, howner, hst⟩
    · exact .inl ⟨error, by simp [handleControl, herror, Except.map], hsame⟩
    · exact .inr ⟨t, .replace _ active replacement, by rw [handleControl, heq]; rfl, hst.abort hlib,
        inv_openedReplace hd hpending (howner.symm ▸ hactive) hst⟩
  | adoptExisting plans point revision => cases hcommand
  | commit transaction revision point => cases hcommand
  | abort transaction => cases hcommand

/-- One command keeps the invariant, and changes the interest revision only by a successful commit or adoption. -/
theorem handleControl_inv {d : OwnerDriver lib} (hd : Inv d) {command : OwnerCommand lib} (hallow : d.Allows command)
    (latest : AmmStatePoint) :
    Inv (d.handleControl latest command).1 ∧
      ((d.handleControl latest command).1.interestRevision = d.interestRevision ∨
        (d.handleControl latest command).2 = .ok .done ∧ command.isBegin = false ∧ ∀ t, command ≠ .abort t) := by
  rcases hbegin : command.isBegin with _ | _
  · cases command with
    | beginAdd plans point => cases hbegin
    | beginRemove owners => cases hbegin
    | beginReplace plan point => cases hbegin
    | adoptExisting plans point revision =>
      rcases adoptExisting_spec hlib hd.toBased plans point revision with ⟨error, -, hsame⟩ | ⟨d', heq, hinv⟩
      · exact ⟨hsame.inv hd, .inl hsame.interestRevision⟩
      · rw [handleControl, heq]
        exact ⟨hinv, .inr ⟨rfl, rfl, nofun⟩⟩
    | commit transaction revision point =>
      rcases commit_spec hlib hd transaction revision point with ⟨heq, -⟩ | ⟨d', heq, hinv⟩
      · rw [handleControl, heq]
        exact ⟨hd, .inl rfl⟩
      · rw [handleControl, heq]
        exact ⟨hinv, .inr ⟨rfl, rfl, nofun⟩⟩
    | abort transaction =>
      by_cases hstale : ∀ pending, d.pending = some pending → pending.id ≠ transaction
      · rw [handleControl_stale rfl hstale]
        exact ⟨hd, .inl rfl⟩
      · push Not at hstale
        obtain ⟨pending, hpending, rfl⟩ := hstale
        refine ⟨abort_inv hlib hd hpending latest, .inl ?_⟩
        simp [handleControl, abort, hpending, resume, publishRunning]
  · by_cases hpending : d.pending.isSome = true
    · have hnone : command.settles = none := by
        cases command <;> first | rfl | cases hbegin
      rw [handleControl_busy hpending hnone]
      exact ⟨hd, .inl rfl⟩
    · have hid : d.nextTransaction + 1 < 2 ^ 64 := by
        cases command with
        | beginAdd plans point => exact hallow
        | beginRemove owners => exact hallow
        | beginReplace plan point => exact hallow
        | adoptExisting plans point revision => cases hbegin
        | commit transaction revision point => cases hbegin
        | abort transaction => cases hbegin
      rw [Option.not_isSome_iff_eq_none] at hpending
      rcases begin_spec hlib hd hpending hid hbegin latest with ⟨error, -, hsame⟩ | ⟨t, pending, heq, -, hinv⟩
      · exact ⟨hsame.inv hd, .inl hsame.interestRevision⟩
      · rw [heq]
        exact ⟨hinv, .inl rfl⟩

theorem inv_run {d : OwnerDriver lib} (hd : Inv d) {commands : List (AmmStatePoint × OwnerCommand lib)}
    (hserves : d.Serves commands) : Inv (d.run commands) := by
  induction commands generalizing d with
  | nil => exact hd
  | cons entry rest ih => exact ih (handleControl_inv hlib hd hserves.1 entry.1).1 hserves.2

end Runs

/-- Owner transactions of a driver are exclusive and reversible. -/
structure Transactional (d : OwnerDriver lib) : Prop where
  paused : d.paused = true ↔ d.pending.isSome = true
  owners : ∀ o e, d.owners.lookup o = some e ↔ lib.owner e = o ∧
    (lib.interestOwnerState d.subscriber e = some .active ∨ lib.interestOwnerState d.subscriber e = some .removing)
  removing : ∀ e, lib.interestOwnerState d.subscriber e = some .removing ↔
    ∃ id epochs, d.pending = some (.remove id epochs) ∧ e ∈ epochs
  exclusive : ∀ latest command, command.settles = none → d.pending.isSome = true →
    d.handleControl latest command = (d, .error .transactionInProgress)
  stale : ∀ latest command transaction, command.settles = some transaction →
    (∀ pending, d.pending = some pending → pending.id ≠ transaction) →
    d.handleControl latest command = (d, .error .staleTransaction)
  failed : ∀ latest command error, command.isBegin = true → d.nextTransaction + 1 < 2 ^ 64 →
    (d.handleControl latest command).2 = .error error → Same d (d.handleControl latest command).1
  reversible : ∀ latest latest' command transaction, command.isBegin = true → d.nextTransaction + 1 < 2 ^ 64 →
    (d.handleControl latest command).2 = .ok (.began transaction) →
    ((d.handleControl latest command).1.handleControl latest' (.abort transaction)).2 = .ok .done ∧
      Same d ((d.handleControl latest command).1.handleControl latest' (.abort transaction)).1
  revision : ∀ latest command, d.Allows command →
    (d.handleControl latest command).1.interestRevision ≠ d.interestRevision →
    (d.handleControl latest command).2 = .ok .done ∧ command.isBegin = false ∧ ∀ transaction, command ≠ .abort transaction

section Transactional
variable (hlib : lib.Lawful)
include hlib

theorem begin_abort {d : OwnerDriver lib} (hd : Inv d) (hid : d.nextTransaction + 1 < 2 ^ 64)
    {command : OwnerCommand lib} (hcommand : command.isBegin = true) (latest : AmmStatePoint) :
    (∀ error, (d.handleControl latest command).2 = .error error → Same d (d.handleControl latest command).1) ∧
    ∀ latest' transaction, (d.handleControl latest command).2 = .ok (.began transaction) →
      ((d.handleControl latest command).1.handleControl latest' (.abort transaction)).2 = .ok .done ∧
      Same d ((d.handleControl latest command).1.handleControl latest' (.abort transaction)).1 := by
  by_cases hpending : d.pending.isSome = true
  · have hnone : command.settles = none := by
      cases command <;> first | rfl | cases hcommand
    rw [handleControl_busy hpending hnone]
    exact ⟨fun _ _ => Same.refl d, nofun⟩
  · rw [Option.not_isSome_iff_eq_none] at hpending
    have hpaused : d.paused = false := by rw [hd.paused, hpending]; rfl
    rcases begin_spec hlib hd hpending hid hcommand latest with ⟨error, herror, hsame⟩ | ⟨t, pending, heq, hback, -⟩
    · exact ⟨fun _ _ => hsame, fun latest' transaction hok => by rw [herror] at hok; cases hok⟩
    · rw [heq]
      refine ⟨nofun, fun latest' transaction hok => ?_⟩
      cases hok
      have habort : ((d.opened t pending).handleControl latest' (.abort pending.id)) =
          ({ d.opened t pending with pending := none, subscriber := abortStaged t pending.abortEpochs }.resume latest',
            .ok .done) := by
        simp [handleControl, abort, opened, Except.map]
      rw [habort]
      exact ⟨rfl, hback, hpaused.symm, rfl, rfl, hpending.symm⟩

theorem Inv.transactional {d : OwnerDriver lib} (hd : Inv d) : Transactional d where
  paused := by rw [hd.paused]
  owners := hd.named
  removing e := by
    have haccounted := hd.accounted
    rcases hpending : d.pending with _ | (⟨id, epochs⟩ | ⟨id, epochs⟩ | ⟨id, active, replacement⟩) <;>
      rw [hpending] at haccounted
    · simp [(haccounted e).2]
    · simp [(haccounted.2.2.2 e).2]
    · simp [(haccounted.2 e).2]
    · simp [(haccounted.2.2 e).2]
  exclusive latest command hcommand hpending := handleControl_busy hpending hcommand latest
  stale latest command transaction hcommand hstale := handleControl_stale hcommand hstale latest
  failed latest command error hcommand hid := (begin_abort hlib hd hid hcommand latest).1 error
  reversible latest latest' command transaction hcommand hid :=
    (begin_abort hlib hd hid hcommand latest).2 latest' transaction
  revision latest command hallow hchanged := (handleControl_inv hlib hd hallow latest).2.resolve_left hchanged

end Transactional

/-- After an adoption of a fresh subscriber, every state that commands lead to is transactional. -/
theorem owner_transactions (hlib : lib.Lawful) {s : lib.State} (hs : lib.entries s = Map.empty)
    {plans : List (AmmSubscriberOwnerPlan lib)} {point : AmmStatePoint} {revision : Nat}
    (hadopt : ((spawn s).adoptExisting plans point revision).2 = .ok ())
    {commands : List (AmmStatePoint × OwnerCommand lib)}
    (hserves : ((spawn s).adoptExisting plans point revision).1.Serves commands) :
    Transactional (((spawn s).adoptExisting plans point revision).1.run commands) := by
  have hgone : ∀ e, lib.interestOwnerState s e = none := fun e => by rw [interestOwnerState, hs]; rfl
  have hspawn : Based (spawn s) := ⟨fun o e => by simp [spawn, Held, hgone], fun e => by simp [spawn, hgone]⟩
  rcases adoptExisting_spec hlib hspawn plans point revision with ⟨error, herror, -⟩ | ⟨d, heq, hinv⟩
  · rw [hadopt] at herror
    cases herror
  · rw [heq] at hserves ⊢
    exact (inv_run hlib hinv hserves).transactional hlib

/-! ### A subscriber in memory -/

/-- Two epochs for each owner: it stages in the first, and a replacement takes the one that is free. -/
structure MemoryState where
  epochs : Map (HandlerId × Bool) (SubscriberOwnerState × List Address)

namespace MemoryState

def put (s : MemoryState) (refused : Bool) (epoch : HandlerId × Bool) (interests : List Address) :
    MemoryState × Except Unit (HandlerId × Bool) :=
  if refused || s.epochs.contains epoch then (s, .error ())
  else (⟨s.epochs.insert epoch (.staged, interests)⟩, .ok epoch)

def stage (s : MemoryState) (owner : HandlerId) (interests : List Address) : MemoryState × Except Unit (HandlerId × Bool) :=
  put s (s.epochs.contains (owner, true)) (owner, false) interests

def stageReplacement (s : MemoryState) (owner : HandlerId) (interests : List Address) :
    MemoryState × Except Unit (HandlerId × Bool) :=
  put s (!s.epochs.contains (owner, false) && !s.epochs.contains (owner, true))
    (owner, s.epochs.contains (owner, false)) interests

def move (next : SubscriberOwnerState → Option (Option SubscriberOwnerState)) (s : MemoryState)
    (epoch : HandlerId × Bool) : MemoryState × Bool :=
  match s.epochs.get epoch with
  | none => (s, false)
  | some (state, interests) =>
    match next state with
    | none => (s, false)
    | some none => (⟨s.epochs.remove epoch⟩, true)
    | some (some state') => (⟨s.epochs.insert epoch (state', interests)⟩, true)

def replace (s : MemoryState) (active replacement : HandlerId × Bool) : MemoryState × Bool :=
  match s.epochs.get active, s.epochs.get replacement with
  | some (.active, _), some (.staged, interests) =>
    (⟨(s.epochs.remove active).insert replacement (.active, interests)⟩, true)
  | _, _ => (s, false)

end MemoryState

def memorySubscriber : SubscriberLibrary where
  State := MemoryState
  Interest := Address
  Epoch := HandlerId × Bool
  OwnerError := Unit
  SubscriberError := Unit
  owner := Prod.fst
  entries := MemoryState.epochs
  stageInterestOwner s owner interests _ := MemoryState.stage s owner interests
  stageInterestOwnerReplacement s owner interests _ := MemoryState.stageReplacement s owner interests
  reconcileInterestOwners s _ _ := (s, .ok ())
  activateInterestOwner := MemoryState.move activated
  prepareInterestOwnerRemoval := MemoryState.move prepared
  finalizeInterestOwnerRemoval := MemoryState.move finalized
  commitInterestOwnerReplacement := MemoryState.replace
  abortInterestOwner := MemoryState.move aborted

theorem MemoryState.stages (refused : MemoryState → HandlerId → Bool) (second : MemoryState → HandlerId → Bool) :
    memorySubscriber.Stages fun s owner interests _ =>
      MemoryState.put s (refused s owner) (owner, second s owner) interests := by
  intro s owner interests block
  rcases hput : refused s owner || s.epochs.contains (owner, second s owner) with _ | _
  · simp only [MemoryState.put, memorySubscriber, hput, Bool.false_eq_true, if_false]
    exact ⟨trivial, Map.contains_eq_false.mp (Bool.or_eq_false_iff.mp hput).2, rfl⟩
  · simp [MemoryState.put, memorySubscriber, hput]

theorem MemoryState.moves (next : SubscriberOwnerState → Option (Option SubscriberOwnerState)) :
    memorySubscriber.Moves (MemoryState.move next) next := by
  intro s epoch
  rcases hget : s.epochs.get epoch with _ | ⟨state, interests⟩
  · simp [memorySubscriber, MemoryState.move, hget]
  · rcases hnext : next state with _ | _ | state' <;>
      simp only [memorySubscriber, MemoryState.move, hget, hnext, true_and]
    · rfl
    · rfl

theorem memorySubscriber_lawful : memorySubscriber.Lawful where
  stage := MemoryState.stages _ fun _ _ => false
  registered s owner interests block epoch howner hheld := by
    obtain ⟨owner', second⟩ := epoch
    obtain rfl : owner' = owner := howner
    have htaken : (MemoryState.epochs s).contains (owner', second) = true :=
      Map.contains_iff.mpr (Option.ne_none_iff_exists'.mp hheld)
    refine ⟨(), ?_⟩
    cases second with
    | false => simp [memorySubscriber, MemoryState.stage, MemoryState.put, htaken]
    | true => simp [memorySubscriber, MemoryState.stage, MemoryState.put, htaken]
  stageReplacement := MemoryState.stages _ _
  reconcile _ _ _ := rfl
  activate := MemoryState.moves _
  prepare := MemoryState.moves _
  finalize := MemoryState.moves _
  abort := MemoryState.moves _
  commitReplacement s active replacement interests hactive hstaged := by
    obtain ⟨old, hold⟩ := interestOwnerState_eq.mp hactive
    have hold' : (MemoryState.epochs s).get active = some (.active, old) := hold
    have hstaged' : (MemoryState.epochs s).get replacement = some (.staged, interests) := hstaged
    simp only [memorySubscriber, MemoryState.replace, hold', hstaged', true_and]
    rfl
  refuseReplacement s active replacement hrefuse := by
    rcases ha : (MemoryState.epochs s).get active with _ | ⟨_ | _ | _, old⟩ <;>
      rcases hr : (MemoryState.epochs s).get replacement with _ | ⟨_ | _ | _, new⟩ <;>
      simp_all [memorySubscriber, MemoryState.replace, interestOwnerState]

def memoryFresh : memorySubscriber.State := MemoryState.mk Map.empty

def genesis : AmmStatePoint := ⟨1, 0, 0⟩

def poolPlan (name : String) : AmmSubscriberOwnerPlan memorySubscriber := ⟨⟨name⟩, [(0 : Address)]⟩

/-- Two owners are adopted; one is removed and added again, which is refused while it is registered, and the other is
    replaced. -/
theorem owner_transactions_removal :
    ((spawn memoryFresh).adoptExisting [poolPlan "a", poolPlan "b"] genesis 1).2 = .ok () ∧
    Transactional (((spawn memoryFresh).adoptExisting [poolPlan "a", poolPlan "b"] genesis 1).1.run
      [(genesis, .beginAdd [poolPlan "a"] genesis), (genesis, .beginRemove [⟨"a"⟩]), (genesis, .commit 1 2 genesis),
        (genesis, .beginReplace (poolPlan "b") genesis), (genesis, .commit 2 3 genesis),
        (genesis, .beginAdd [poolPlan "a"] genesis)]) :=
  ⟨rfl, owner_transactions memorySubscriber_lawful rfl rfl ⟨(by decide : 0 + 1 < 2 ^ 64), (by decide : 0 + 1 < 2 ^ 64),
    trivial, (by decide : 1 + 1 < 2 ^ 64), trivial, (by decide : 2 + 1 < 2 ^ 64), trivial⟩⟩

/-- A pending removal keeps its name, and a second adoption changes the interest revision with no commit. -/
theorem names_and_revision_move :
    memorySubscriber.Lawful ∧ memorySubscriber.entries memoryFresh = Map.empty ∧
    (let d := (spawn memoryFresh).run [(genesis, .adoptExisting [poolPlan "a"] genesis 1), (genesis, .beginRemove [⟨"a"⟩])]
     d.owners.lookup ⟨"a"⟩ = some (⟨"a"⟩, false) ∧
      memorySubscriber.interestOwnerState d.subscriber (⟨"a"⟩, false) = some .removing) ∧
    (let d := (spawn memoryFresh).run [(genesis, .adoptExisting [] genesis 1)]
     d.interestRevision = 1 ∧
      (d.handleControl genesis (.adoptExisting [] genesis 2)).1.interestRevision = 2) :=
  ⟨memorySubscriber_lawful, rfl, ⟨rfl, rfl⟩, rfl, rfl⟩

end OwnerDriver
end AmmState.Subscriber
