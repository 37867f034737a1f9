import AmmState.Canonical.WellFormed

/-! Pool storage as a function: how batches of updates and whole-tick writes compose, and which cells a view holds. -/

namespace AmmState.Canonical
open V3

/-- The storage after a batch of updates of the pool. -/
def Storage.applyUpdates (F : Storage) (updates : List StateUpdate) : Storage :=
  updates.foldl (fun F u => Function.update F u.slot u.value) F

/-- The view holds every cell of the pool, with the values of `F`. -/
def Holds (state : StateView) (address : Address) (F : Storage) : Prop :=
  ∀ slot, state.storage address slot = some (F slot)

/-- Every cell that the view holds of the pool is that of `F`. -/
def Agrees (state : StateView) (address : Address) (F : Storage) : Prop :=
  ∀ slot value, state.storage address slot = some value → F slot = value

theorem Holds.required {state : StateView} {address : Address} {F : Storage} (h : Holds state address F) (slot : U256) :
    required state address slot = .ok (F slot) := by
  rw [V3.required, h slot]
  rfl

namespace Storage

@[simp] theorem applyUpdates_nil (F : Storage) : F.applyUpdates [] = F := rfl

@[simp] theorem applyUpdates_cons (F : Storage) (u : StateUpdate) (us : List StateUpdate) :
    F.applyUpdates (u :: us) = Storage.applyUpdates (Function.update F u.slot u.value) us := rfl

theorem applyUpdates_append (F : Storage) (us vs : List StateUpdate) :
    F.applyUpdates (us ++ vs) = (F.applyUpdates us).applyUpdates vs := List.foldl_append

/-- Updates whose value depends on the slot alone may come in any order. -/
theorem applyUpdates_map (F : Storage) (address : Address) (g : U256 → U256) (slots : List U256) (x : U256) :
    F.applyUpdates (slots.map fun slot => ⟨address, slot, g slot⟩) x = if x ∈ slots then g x else F x := by
  induction slots generalizing F with
  | nil => simp
  | cons slot slots ih =>
    rw [List.map_cons, applyUpdates_cons, ih]
    by_cases hx : x ∈ slots
    · simp [hx]
    · by_cases hs : x = slot
      · subst hs
        simp [hx]
      · simp [hx, hs]

/-- A cell that no update of the batch names is unchanged. -/
theorem applyUpdates_of_notMem {F : Storage} {us : List StateUpdate} {x : U256} (h : ∀ u ∈ us, u.slot ≠ x) :
    F.applyUpdates us x = F x := by
  induction us generalizing F with
  | nil => rfl
  | cons u us ih =>
    rw [applyUpdates_cons, ih fun v hv => h v (List.mem_cons_of_mem _ hv)]
    exact Function.update_of_ne (h u List.mem_cons_self).symm _ _

end Storage

/-- A view that holds the pool still does after a batch for it. -/
theorem Holds.applyUpdates {state : StateView} {address : Address} {F : Storage} {us : List StateUpdate}
    (h : Holds state address F) (ha : ∀ u ∈ us, u.address = address) :
    Holds (state.applyUpdates us) address (F.applyUpdates us) := by
  induction us generalizing state F with
  | nil => exact h
  | cons u us ih =>
    refine ih (F := Function.update F u.slot u.value) ?_ fun v hv => ha v (List.mem_cons_of_mem _ hv)
    intro slot
    simp only [StateView.storage, StateUpdate.apply]
    by_cases hs : slot = u.slot
    · subst hs
      rw [if_pos ⟨(ha u List.mem_cons_self).symm, rfl⟩, Function.update_self]
    · rw [if_neg fun hc => hs hc.2, Function.update_of_ne hs]
      exact h slot

section Ticks
variable {keccak : Keccak}

theorem tickSlot_ne {t : Int} {i j : Nat} (h : i ≠ j) (hi : i < 4) (hj : j < 4) :
    tickSlot keccak t i ≠ tickSlot keccak t j := by
  unfold tickSlot v3TickInfoStorageKeyWithBase
  intro heq
  have h₂ := congrArg BitVec.toNat (add_left_cancel heq)
  rw [BitVec.toNat_ofNat, BitVec.toNat_ofNat, Nat.mod_eq_of_lt (by omega), Nat.mod_eq_of_lt (by omega)] at h₂
  exact h h₂

/-- Where a slot is no word of the tick, a write to the tick leaves it. -/
theorem setTickInfo_of_ne {F : Storage} {t : Int} {w : TickWords} {x : U256} (h : ∀ i < 4, x ≠ tickSlot keccak t i) :
    setTickInfo keccak F t w x = F x := by
  unfold setTickInfo
  rw [Function.update_of_ne (h 3 (by omega)), Function.update_of_ne (h 2 (by omega)),
    Function.update_of_ne (h 1 (by omega)), Function.update_of_ne (h 0 (by omega))]

theorem tickInfo_setTickInfo (F : Storage) (t : Int) (w : TickWords) :
    tickInfo keccak (setTickInfo keccak F t w) t = w := by
  have ne : ∀ {i j}, i ≠ j → i < 4 → j < 4 → tickSlot keccak t i ≠ tickSlot keccak t j := tickSlot_ne
  have h01 := @ne 0 1 (by omega) (by omega) (by omega)
  have h02 := @ne 0 2 (by omega) (by omega) (by omega)
  have h03 := @ne 0 3 (by omega) (by omega) (by omega)
  have h12 := @ne 1 2 (by omega) (by omega) (by omega)
  have h13 := @ne 1 3 (by omega) (by omega) (by omega)
  have h23 := @ne 2 3 (by omega) (by omega) (by omega)
  simp [tickInfo, setTickInfo, h01, h02, h03, h12, h13, h23]

/-- What a tick write puts in a word does not depend on the storage before it. -/
theorem setTickInfo_tickSlot {F G : Storage} {t : Int} {w : TickWords} {i : Nat} (hi : i < 4) :
    setTickInfo keccak F t w (tickSlot keccak t i) = setTickInfo keccak G t w (tickSlot keccak t i) := by
  have h : tickInfo keccak (setTickInfo keccak F t w) t = tickInfo keccak (setTickInfo keccak G t w) t := by
    rw [tickInfo_setTickInfo, tickInfo_setTickInfo]
  simp only [tickInfo, TickWords.mk.injEq] at h
  rcases i with _ | _ | _ | _ | i
  · exact h.1
  · exact h.2.1
  · exact h.2.2.1
  · exact h.2.2.2
  · omega

/-- A write to a tick is one batch of updates. -/
theorem applyUpdates_tickWordUpdates (F : Storage) (address : Address) (t : Int) (w : TickWords) :
    F.applyUpdates (tickWordUpdates address (v3TickInfoStorageKeysWithBase keccak t V3_TICKS_BASE_SLOT) w) =
      setTickInfo keccak F t w := rfl

/-- Two storages are equal when they agree on a tick and everywhere else. -/
theorem ext_tick (keccak : Keccak) {F G : Storage} (t : Int) (ht : tickInfo keccak F t = tickInfo keccak G t)
    (h : ∀ x, (∀ i < 4, x ≠ tickSlot keccak t i) → F x = G x) : F = G := by
  simp only [tickInfo, TickWords.mk.injEq] at ht
  funext x
  by_cases hx : ∀ i < 4, x ≠ tickSlot keccak t i
  · exact h x hx
  · push Not at hx
    obtain ⟨i, hi, rfl⟩ := hx
    rcases i with _ | _ | _ | _ | i
    · exact ht.1
    · exact ht.2.1
    · exact ht.2.2.1
    · exact ht.2.2.2
    · omega

theorem setTickInfo_setTickInfo (F : Storage) (t : Int) (w w' : TickWords) :
    setTickInfo keccak (setTickInfo keccak F t w) t w' = setTickInfo keccak F t w' :=
  ext_tick keccak t (by rw [tickInfo_setTickInfo, tickInfo_setTickInfo]) fun x hx => by
    rw [setTickInfo_of_ne hx, setTickInfo_of_ne hx, setTickInfo_of_ne hx]

theorem tickInfo_congr {F G : Storage} {t : Int} (h : ∀ i < 4, F (tickSlot keccak t i) = G (tickSlot keccak t i)) :
    tickInfo keccak F t = tickInfo keccak G t := by
  simp only [tickInfo]
  rw [h 0 (by omega), h 1 (by omega), h 2 (by omega), h 3 (by omega)]

theorem tickInfo_update_of_ne {F : Storage} {t : Int} {x v : U256} (h : ∀ i < 4, x ≠ tickSlot keccak t i) :
    tickInfo keccak (Function.update F x v) t = tickInfo keccak F t :=
  tickInfo_congr fun i hi => Function.update_of_ne (h i hi).symm _ _

theorem setTickInfo_update_comm {F : Storage} {t : Int} {w : TickWords} {x v : U256}
    (h : ∀ i < 4, x ≠ tickSlot keccak t i) :
    setTickInfo keccak (Function.update F x v) t w = Function.update (setTickInfo keccak F t w) x v := by
  refine ext_tick keccak t ?_ fun y hy => ?_
  · rw [tickInfo_setTickInfo, tickInfo_update_of_ne h, tickInfo_setTickInfo]
  · rw [setTickInfo_of_ne hy]
    by_cases hyx : y = x
    · subst hyx
      rw [Function.update_self, Function.update_self]
    · rw [Function.update_of_ne hyx, Function.update_of_ne hyx, setTickInfo_of_ne hy]

variable (hk : DistinctKeys keccak)
include hk

theorem tickInfo_setTickInfo_of_ne {F : Storage} {s t : Int} (hs : InRange s) (ht : InRange t) (h : t ≠ s)
    (w : TickWords) : tickInfo keccak (setTickInfo keccak F s w) t = tickInfo keccak F t :=
  tickInfo_congr fun _ hi => setTickInfo_of_ne fun _ hj heq => h (hk.tick_inj ht hs hi hj heq).1

theorem setTickInfo_comm {F : Storage} {s t : Int} (hs : InRange s) (ht : InRange t) (h : s ≠ t) (w w' : TickWords) :
    setTickInfo keccak (setTickInfo keccak F s w) t w' = setTickInfo keccak (setTickInfo keccak F t w') s w := by
  refine ext_tick keccak t ?_ fun x hx => ?_
  · rw [tickInfo_setTickInfo, tickInfo_setTickInfo_of_ne hk hs ht h.symm, tickInfo_setTickInfo]
  · rw [setTickInfo_of_ne hx]
    by_cases hxs : ∀ i < 4, x ≠ tickSlot keccak s i
    · rw [setTickInfo_of_ne hxs, setTickInfo_of_ne hxs, setTickInfo_of_ne hx]
    · push Not at hxs
      obtain ⟨i, hi, rfl⟩ := hxs
      exact setTickInfo_tickSlot hi

/-- A fixed cell or an observation is no word of a tick. -/
theorem setTickInfo_fixed {F : Storage} {t : Int} (ht : InRange t) {n : Nat} (hn : n < 2 ^ 17) (w : TickWords) :
    setTickInfo keccak F t w (BitVec.ofNat 256 n) = F (BitVec.ofNat 256 n) :=
  setTickInfo_of_ne fun _ hi heq => hk.tick_ne_fixed ht hi hn heq.symm

theorem setTickInfo_bitmap {F : Storage} {t : Int} (ht : InRange t) (w : TickWords) (v : BitVec 16) :
    setTickInfo keccak F t w (bitmapSlot keccak v) = F (bitmapSlot keccak v) :=
  setTickInfo_of_ne fun _ hi heq => hk.tick_ne_bitmap ht hi heq.symm

end Ticks

end AmmState.Canonical
