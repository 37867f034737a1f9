import AmmState.Runtime.Repairs

/-! No required repair is lost as long as repairs are only combined with repairs that keep them, none is dropped, and a
    commit covers the repair that is still pending for its pool. The combination of two repairs keeps both exactly if they
    are of one kind that is merged, or the second covers the first: a cold start followed by a slot check becomes the slot
    check. -/

namespace AmmState.Repairs

/-! ### What repairs ask for -/

/-- What can be asked of a pool's state. -/
inductive Demand
  | slot (slot : StorageSlot)
  | purgedStorage (address : Address)
  | purgedSlot (address : Address) (slot : U256)
  | warm (pool : PoolKey) (level : Nat)
  | tickRange (pool : PoolKey) (tickLower tickUpper : Int)
  | incremental (pool : PoolKey)
  | full (pool : PoolKey)

/-- How much of the read set a policy warms: the hot slots, these with the rest deferred, or all. -/
def ColdStartPolicy.level : ColdStartPolicy → Nat
  | .hotSlotsOnly => 0
  | .lazy => 1
  | .eager => 2
  | .strict => 2

/-- What a repair does. A cold start of the whole read set leaves nothing of its pool's state unread. -/
def Does : RepairAction → Demand → Prop
  | .verifySlots slots, .slot slot => slot ∈ slots
  | .purgeStorage address, .purgedStorage purged => address = purged
  | .purgeStorage address, .purgedSlot purged _ => address = purged
  | .purgeSlots address slots, .purgedSlot purged slot => address = purged ∧ slot ∈ slots
  | .coldStart pool policy, .warm warmed level => pool = warmed ∧ level ≤ policy.level
  | .coldStart _ policy, .slot _ => policy.level = 2
  | .coldStart _ policy, .purgedStorage _ => policy.level = 2
  | .coldStart _ policy, .purgedSlot _ _ => policy.level = 2
  | .coldStart pool policy, .tickRange warmed _ _ => pool = warmed ∧ policy.level = 2
  | .coldStart pool policy, .incremental warmed => pool = warmed ∧ policy.level = 2
  | .coldStart pool policy, .full warmed => pool = warmed ∧ policy.level = 2
  | .v3TickRange pool lower upper, .tickRange warmed tickLower tickUpper =>
    pool = warmed ∧ lower = tickLower ∧ upper = tickUpper
  | .v3Incremental pool, .incremental warmed => pool = warmed
  | .v3Full pool, .tickRange warmed _ _ => pool = warmed
  | .v3Full pool, .incremental warmed => pool = warmed
  | .v3Full pool, .full warmed => pool = warmed
  | _, _ => False

/-- One repair does all that another one does. -/
def Covers (executed required : RepairAction) : Prop := ∀ demand, Does required demand → Does executed demand

theorem Covers.refl (action : RepairAction) : Covers action action := fun _ h => h

theorem Covers.trans {first second third : RepairAction} (h : Covers first second) (h' : Covers second third) :
    Covers first third := fun demand hd => h demand (h' demand hd)

theorem covers_none (action : RepairAction) : Covers action .none := by
  intro demand hd
  cases demand <;> exact hd.elim

theorem covers_verifySlots {left right : List StorageSlot} :
    Covers (.verifySlots left) (.verifySlots right) ↔ ∀ slot ∈ right, slot ∈ left := by
  constructor
  · intro h slot hslot
    exact h (.slot slot) hslot
  · intro h demand hd
    cases demand with
    | slot slot => exact h slot hd
    | _ => exact hd.elim

theorem covers_purgeSlots {address : Address} {left right : List U256} (h : ∀ slot ∈ right, slot ∈ left) :
    Covers (.purgeSlots address left) (.purgeSlots address right) := by
  intro demand hd
  cases demand with
  | purgedSlot purged slot => exact ⟨hd.1, h slot hd.2⟩
  | _ => exact hd.elim

/-! ### Combining -/

theorem mem_union {α : Type} [DecidableEq α] {left right : List α} {slot : α} :
    slot ∈ union left right ↔ slot ∈ left ∨ slot ∈ right := by
  induction right generalizing left with
  | nil => simp [union]
  | cons head rest ih =>
    have hstep : union left (head :: rest) = union (if head ∈ left then left else left ++ [head]) rest := rfl
    rw [hstep, ih]
    by_cases hmem : head ∈ left
    · rw [if_pos hmem, List.mem_cons]
      constructor
      · rintro (h | h)
        · exact .inl h
        · exact .inr (.inr h)
      · rintro (h | rfl | h)
        · exact .inl h
        · exact .inl hmem
        · exact .inr h
    · rw [if_neg hmem, List.mem_append, List.mem_singleton, List.mem_cons, or_assoc]

/-- Two repairs whose combination keeps both. -/
def Compatible (left right : RepairAction) : Prop :=
  right = .none ∨ (∃ leftSlots rightSlots, left = .verifySlots leftSlots ∧ right = .verifySlots rightSlots) ∨
    (∃ address leftSlots rightSlots, left = .purgeSlots address leftSlots ∧ right = .purgeSlots address rightSlots) ∨
    Covers right left

theorem combine_none_right (left : RepairAction) : left.combine .none = left := by
  cases left <;> rfl

theorem combine_none_left (right : RepairAction) : RepairAction.combine .none right = right := by
  cases right <;> rfl

/-- Where nothing is merged, the second repair replaces the first. -/
theorem combine_cases (left right : RepairAction) :
    right = .none ∨ (∃ leftSlots rightSlots, left = .verifySlots leftSlots ∧ right = .verifySlots rightSlots) ∨
      (∃ address leftSlots rightSlots, left = .purgeSlots address leftSlots ∧ right = .purgeSlots address rightSlots) ∨
      left.combine right = right := by
  rcases eq_or_ne right .none with hnone | hright
  · exact .inl hnone
  refine .inr ?_
  cases left with
  | none => exact .inr (.inr (combine_none_left right))
  | verifySlots leftSlots =>
    cases right with
    | verifySlots rightSlots => exact .inl ⟨leftSlots, rightSlots, rfl, rfl⟩
    | none => exact absurd rfl hright
    | _ => exact .inr (.inr rfl)
  | purgeSlots leftAddress leftSlots =>
    cases right with
    | purgeSlots rightAddress rightSlots =>
      by_cases haddress : leftAddress = rightAddress
      · subst haddress
        exact .inr (.inl ⟨leftAddress, leftSlots, rightSlots, rfl, rfl⟩)
      · exact .inr (.inr (if_neg haddress))
    | none => exact absurd rfl hright
    | _ => exact .inr (.inr rfl)
  | _ =>
    cases right with
    | none => exact absurd rfl hright
    | _ => exact .inr (.inr rfl)

/-- Repairs that are merged are kept. -/
theorem merged_covers {left right : RepairAction}
    (h : right = .none ∨ (∃ leftSlots rightSlots, left = .verifySlots leftSlots ∧ right = .verifySlots rightSlots) ∨
      ∃ address leftSlots rightSlots, left = .purgeSlots address leftSlots ∧ right = .purgeSlots address rightSlots) :
    Covers (left.combine right) left ∧ Covers (left.combine right) right := by
  rcases h with rfl | ⟨leftSlots, rightSlots, rfl, rfl⟩ | ⟨address, leftSlots, rightSlots, rfl, rfl⟩
  · rw [combine_none_right]
    exact ⟨.refl left, covers_none left⟩
  · exact ⟨covers_verifySlots.mpr fun slot h => mem_union.mpr (.inl h),
      covers_verifySlots.mpr fun slot h => mem_union.mpr (.inr h)⟩
  · rw [RepairAction.combine, if_pos rfl]
    exact ⟨covers_purgeSlots fun slot h => mem_union.mpr (.inl h), covers_purgeSlots fun slot h => mem_union.mpr (.inr h)⟩

/-- The combination keeps both repairs exactly if they are compatible. -/
theorem combine_covers_iff (left right : RepairAction) :
    Covers (left.combine right) left ∧ Covers (left.combine right) right ↔ Compatible left right := by
  constructor
  · rintro ⟨hleft, -⟩
    rcases combine_cases left right with h | h | h | h
    · exact .inl h
    · exact .inr (.inl h)
    · exact .inr (.inr (.inl h))
    · exact .inr (.inr (.inr (h ▸ hleft)))
  · rintro (h | h | h | hcovers)
    · exact merged_covers (.inl h)
    · exact merged_covers (.inr (.inl h))
    · exact merged_covers (.inr (.inr h))
    · rcases combine_cases left right with h | h | h | heq
      · exact merged_covers (.inl h)
      · exact merged_covers (.inr (.inl h))
      · exact merged_covers (.inr (.inr h))
      · rw [heq]
        exact ⟨hcovers, .refl right⟩

theorem combine_eq_none {left right : RepairAction} (h : left.combine right = .none) : left = .none ∧ right = .none := by
  rcases combine_cases left right with rfl | ⟨leftSlots, rightSlots, rfl, rfl⟩ |
    ⟨address, leftSlots, rightSlots, rfl, rfl⟩ | heq
  · rw [combine_none_right] at h
    exact ⟨h, rfl⟩
  · cases h
  · rw [RepairAction.combine, if_pos rfl] at h
    cases h
  · have hright := heq.symm.trans h
    subst hright
    rw [combine_none_right] at h
    exact ⟨h, rfl⟩

/-- A chain of repairs, each compatible with what the ones before it combine to. -/
def Chain : RepairAction → List RepairAction → Prop
  | _, [] => True
  | combined, repair :: rest => Compatible combined repair ∧ Chain (combined.combine repair) rest

theorem Chain.covers {start : RepairAction} {repairs : List RepairAction} (h : Chain start repairs) :
    Covers (repairs.foldl RepairAction.combine start) start ∧
      ∀ repair ∈ repairs, Covers (repairs.foldl RepairAction.combine start) repair := by
  induction repairs generalizing start with
  | nil => exact ⟨.refl start, by simp⟩
  | cons head rest ih =>
    obtain ⟨hstart, hrest⟩ := ih h.2
    obtain ⟨hleft, hright⟩ := (combine_covers_iff start head).mpr h.1
    refine ⟨hstart.trans hleft, fun repair hmem => ?_⟩
    rcases List.mem_cons.mp hmem with rfl | hmem
    · exact hstart.trans hright
    · exact hrest repair hmem

namespace AmmRuntimeActor

/-! ### Schedulable repairs -/

/-- A repair that can be scheduled: a cold start of the pool, or a set of slots. -/
def Schedulable (pool : PoolInstanceId) (action : RepairAction) : Prop :=
  (∃ policy, action = .coldStart pool.key policy) ∨ ∃ slots, slots ≠ [] ∧ action = .verifySlots slots

theorem mem_sortedSlots {slots : List StorageSlot} {slot : StorageSlot} : slot ∈ sortedSlots slots ↔ slot ∈ slots := by
  rw [sortedSlots, List.mem_dedup, List.mem_insertionSort]

theorem sortedSlots_ne_nil {slots : List StorageSlot} (h : slots ≠ []) : sortedSlots slots ≠ [] := by
  obtain ⟨slot, rest, rfl⟩ := List.exists_cons_of_ne_nil h
  exact List.ne_nil_of_mem (mem_sortedSlots.mpr List.mem_cons_self)

/-- The task of a schedulable repair does what the repair asks for. -/
theorem repairTask_spec {pool : PoolInstanceId} {action : RepairAction} (h : Schedulable pool action) :
    ∃ task, repairTask pool action = .ok task ∧ Schedulable pool (task.action pool) ∧
      Covers (task.action pool) action := by
  rcases h with ⟨policy, rfl⟩ | ⟨slots, hne, rfl⟩
  · exact ⟨.refresh policy [], by simp [repairTask], .inl ⟨policy, rfl⟩, .refl _⟩
  · refine ⟨.slotPatch (sortedSlots slots), by simp [repairTask, sortedSlots_ne_nil hne], .inr ?_, ?_⟩
    · exact ⟨_, sortedSlots_ne_nil hne, rfl⟩
    · exact covers_verifySlots.mpr fun slot h => mem_sortedSlots.mpr h

/-- The task of any repair that is scheduled. -/
theorem repairTask_schedulable {pool : PoolInstanceId} {action : RepairAction} {task : AmmFollowUpTask}
    (h : repairTask pool action = .ok task) : Schedulable pool (task.action pool) := by
  cases action with
  | coldStart requested policy =>
    rw [repairTask] at h
    split_ifs at h with hkey
    cases h
    exact .inl ⟨policy, rfl⟩
  | verifySlots slots =>
    rw [repairTask] at h
    split_ifs at h with hempty
    cases h
    exact .inr ⟨_, hempty, rfl⟩
  | _ => cases h

theorem Schedulable.combine {pool : PoolInstanceId} {left right : RepairAction} (hleft : Schedulable pool left)
    (hright : Schedulable pool right) : Schedulable pool (left.combine right) := by
  rcases combine_cases left right with rfl | ⟨leftSlots, rightSlots, rfl, rfl⟩ | ⟨_, _, _, rfl, -⟩ | heq
  · rw [combine_none_right]
    exact hleft
  · refine .inr ⟨_, ?_, rfl⟩
    rcases hright with ⟨policy, hcold⟩ | ⟨slots, hne, hslots⟩
    · cases hcold
    · cases hslots
      obtain ⟨slot, rest, rfl⟩ := List.exists_cons_of_ne_nil hne
      exact List.ne_nil_of_mem (mem_union.mpr (.inr List.mem_cons_self))
  · rcases hleft with ⟨_, hcold⟩ | ⟨_, -, hslots⟩
    · cases hcold
    · cases hslots
  · rw [heq]
    exact hright

/-! ### The invariant -/

/-- A required repair is covered by the scheduled repair of its pool or by the pending one. -/
def Covered (a : AmmRuntimeActor) (pool : PoolInstanceId) (required : RepairAction) : Prop :=
  (∃ work s, a.scheduledFollowups.get work = some s ∧ s.pool = pool ∧ s.kind = .repair ∧
    Covers (s.task.action pool) required) ∨
  ∃ action, a.pendingFollowupIntents.get pool = some (.repair action) ∧ Covers action required

/-- Every required repair of an active pool is covered or owed, and every return to `Ready` covered what was required. -/
structure Accounts (owed : PoolInstanceId → RepairAction → Prop) (a : AmmRuntimeActor) : Prop where
  numbered : ∀ work s, a.scheduledFollowups.get work = some s → work.work < a.nextWorkId
  owner : ∀ work s, a.scheduledFollowups.get work = some s → a.pendingPoolFollowup.get s.pool = some work
  pendingOwner : ∀ pool work, a.pendingPoolFollowup.get pool = some work → work.owner = .pool pool
  registered : ∀ key pool, a.activePools.get key = some pool → a.pools.contains key = true
  tasks : ∀ work s, a.scheduledFollowups.get work = some s → Schedulable s.pool (s.task.action s.pool)
  intents : ∀ pool action, a.pendingFollowupIntents.get pool = some (.repair action) → Schedulable pool action
  covered : ∀ pool, a.activePools.get pool.key = some pool → ∀ required ∈ a.required pool,
    Covered a pool required ∨ owed pool required
  returns : ∀ x ∈ a.returns, ∀ required ∈ x.required, Covers x.executed required

/-- Nothing is owed. -/
abbrev Inv : AmmRuntimeActor → Prop := Accounts fun _ _ => False

section Accounts
variable {owed owed' : PoolInstanceId → RepairAction → Prop} {a : AmmRuntimeActor}

theorem Accounts.mono (h : Accounts owed a) (howed : ∀ pool required, owed pool required → owed' pool required) :
    Accounts owed' a :=
  ⟨h.numbered, h.owner, h.pendingOwner, h.registered, h.tasks, h.intents, fun pool hactive required hrequired =>
    (h.covered pool hactive required hrequired).imp_right (howed pool required), h.returns⟩

/-- A pool has at most one scheduled follow-up. -/
theorem Accounts.unique (h : Accounts owed a) {work work' : RuntimeWorkId} {s s' : AmmScheduledFollowUpWork}
    (hs : a.scheduledFollowups.get work = some s) (hs' : a.scheduledFollowups.get work' = some s')
    (hpool : s'.pool = s.pool) : work' = work := by
  have howner := h.owner work' s' hs'
  rw [hpool, h.owner work s hs] at howner
  exact (Option.some.inj howner).symm

/-- Work that is taken out is owed if it was a repair. -/
theorem Accounts.takeOut (h : Accounts owed a) {work : RuntimeWorkId} {s : AmmScheduledFollowUpWork}
    (hs : a.scheduledFollowups.get work = some s) (pending : Map PoolInstanceId RuntimeWorkId)
    (hpending : ∀ pool, pool ≠ s.pool → pending.get pool = a.pendingPoolFollowup.get pool)
    (hsub : ∀ pool w, pending.get pool = some w → a.pendingPoolFollowup.get pool = some w) :
    Accounts (fun pool required => owed pool required ∨
      pool = s.pool ∧ s.kind = .repair ∧ Covers (s.task.action s.pool) required)
      { a with scheduledFollowups := a.scheduledFollowups.remove work, pendingPoolFollowup := pending } := by
  have hback : ∀ w t, (a.scheduledFollowups.remove work).get w = some t → a.scheduledFollowups.get w = some t ∧
      t.pool ≠ s.pool := by
    intro w t ht
    obtain ⟨hne, ht⟩ := Map.get_remove_eq_some.mp ht
    exact ⟨ht, fun hpool => hne (h.unique hs ht hpool)⟩
  refine ⟨fun w t ht => h.numbered w t (hback w t ht).1, fun w t ht => ?_,
    fun pool w hw => h.pendingOwner pool w (hsub pool w hw), h.registered, fun w t ht => h.tasks w t (hback w t ht).1,
      h.intents, fun pool hactive required hrequired => ?_, h.returns⟩
  · obtain ⟨ht, hpool⟩ := hback w t ht
    exact (hpending t.pool hpool).trans (h.owner w t ht)
  · rcases h.covered pool hactive required hrequired with (⟨w, t, ht, hpool, hkind, hcovers⟩ | hintent) | howed
    · by_cases hw : w = work
      · subst hw
        rw [hs] at ht
        cases ht
        exact .inr (.inr ⟨hpool.symm, hkind, hpool ▸ hcovers⟩)
      · exact .inl (.inl ⟨w, t, (Map.get_remove_of_ne hw).trans ht, hpool, hkind, hcovers⟩)
    · exact .inl (.inr hintent)
    · exact .inr (.inl howed)

theorem Accounts.finish (h : Accounts owed a) {work : RuntimeWorkId} {s : AmmScheduledFollowUpWork}
    (hs : a.scheduledFollowups.get work = some s) :
    Accounts (fun pool required => owed pool required ∨
      pool = s.pool ∧ s.kind = .repair ∧ Covers (s.task.action s.pool) required)
      (a.finishFollowup work s) :=
  h.takeOut hs _ (fun _ hne => Map.get_remove_of_ne hne) fun _ _ hw => (Map.get_remove_eq_some.mp hw).2

/-- Cancelled work that was no repair is not owed. -/
theorem Accounts.cancel (h : Accounts owed a) {work : RuntimeWorkId} {s : AmmScheduledFollowUpWork}
    (hs : a.scheduledFollowups.get work = some s) (hkind : s.kind ≠ .repair) (numbered : Bool) :
    Accounts owed (a.cancelScheduledWork work numbered).1 := by
  have hmono : ∀ pool required, (owed pool required ∨ pool = s.pool ∧ s.kind = .repair ∧
      Covers (s.task.action s.pool) required) → owed pool required := by
    rintro pool required (howed | ⟨-, hrepair, -⟩)
    · exact howed
    · exact absurd hrepair hkind
  rw [cancelScheduledWork, hs]
  cases numbered with
  | false => exact (h.takeOut hs a.pendingPoolFollowup (fun _ _ => rfl) fun _ _ hw => hw).mono hmono
  | true => exact (h.finish hs).mono hmono

theorem get_retainRepairs (a : AmmRuntimeActor) (repairs : Map PoolInstanceId RepairAction) (pool : PoolInstanceId) :
    (a.retainRepairs repairs).pendingFollowupIntents.get pool = match repairs.get pool with
      | none => a.pendingFollowupIntents.get pool
      | some action => some (retained (a.pendingFollowupIntents.get pool) (.repair action)) := rfl

/-- Repairs that are retained are no longer owed. -/
theorem Accounts.retainRepairs {repairs : Map PoolInstanceId RepairAction}
    (h : Accounts (fun pool required => owed pool required ∨
      ∃ action, repairs.get pool = some action ∧ Covers action required) a)
    (hschedulable : ∀ pool action, repairs.get pool = some action → Schedulable pool action)
    (hcompatible : ∀ pool action existing, repairs.get pool = some action →
      a.pendingFollowupIntents.get pool = some (.repair existing) → Compatible existing action) :
    Accounts owed (a.retainRepairs repairs) := by
  -- The intent of a pool after its repair was retained covers the repair and the intent before.
  have hretained : ∀ pool action, repairs.get pool = some action → ∃ combined,
      (a.retainRepairs repairs).pendingFollowupIntents.get pool = some (.repair combined) ∧ Schedulable pool combined ∧
      Covers combined action ∧
      ∀ existing, a.pendingFollowupIntents.get pool = some (.repair existing) → Covers combined existing := by
    intro pool action haction
    have hget : (a.retainRepairs repairs).pendingFollowupIntents.get pool =
        some (retained (a.pendingFollowupIntents.get pool) (.repair action)) := by
      rw [get_retainRepairs, haction]
    rcases hintent : a.pendingFollowupIntents.get pool with _ | existing | deferred
    · rw [hintent] at hget
      exact ⟨action, hget, hschedulable pool action haction, .refl action, fun _ heq => by cases heq⟩
    · rw [hintent] at hget
      obtain ⟨hleft, hright⟩ := (combine_covers_iff existing action).mpr (hcompatible pool action existing haction hintent)
      refine ⟨_, hget, (h.intents pool existing hintent).combine (hschedulable pool action haction), hright, ?_⟩
      rintro _ ⟨⟩
      exact hleft
    · rw [hintent] at hget
      exact ⟨action, hget, hschedulable pool action haction, .refl action, fun _ heq => by cases heq⟩
  have hkept : ∀ pool, repairs.get pool = none →
      (a.retainRepairs repairs).pendingFollowupIntents.get pool = a.pendingFollowupIntents.get pool := by
    intro pool hnone
    rw [get_retainRepairs, hnone]
  refine ⟨h.numbered, h.owner, h.pendingOwner, h.registered, h.tasks, fun pool action hintent => ?_,
    fun pool hactive required hrequired => ?_, h.returns⟩
  · rcases hrepair : repairs.get pool with _ | repair
    · rw [hkept pool hrepair] at hintent
      exact h.intents pool action hintent
    · obtain ⟨combined, hget, hcombined, -⟩ := hretained pool repair hrepair
      rw [hget] at hintent
      cases hintent
      exact hcombined
  · rcases h.covered pool hactive required hrequired with (hscheduled | ⟨existing, hexisting, hcovers⟩) | howed | howed
    · exact .inl (.inl hscheduled)
    · rcases hrepair : repairs.get pool with _ | repair
      · exact .inl (.inr ⟨existing, (hkept pool hrepair).trans hexisting, hcovers⟩)
      · obtain ⟨combined, hget, -, -, hold⟩ := hretained pool repair hrepair
        exact .inl (.inr ⟨combined, hget, (hold existing hexisting).trans hcovers⟩)
    · exact .inr howed
    · obtain ⟨repair, hrepair, hcovers⟩ := howed
      obtain ⟨combined, hget, -, hnew, -⟩ := hretained pool repair hrepair
      exact .inl (.inr ⟨combined, hget, hnew.trans hcovers⟩)

theorem retainFollowupIntent_repair (a : AmmRuntimeActor) (pool : PoolInstanceId) (action : RepairAction) :
    a.retainFollowupIntent pool (.repair action) = a.retainRepairs (Map.empty.insert pool action) := by
  have hintents : a.pendingFollowupIntents.insert pool (retained (a.pendingFollowupIntents.get pool) (.repair action)) =
      (a.retainRepairs (Map.empty.insert pool action)).pendingFollowupIntents := by
    ext1 p
    rw [get_retainRepairs]
    by_cases hp : p = pool
    · subst hp
      rw [Map.get_insert_self, Map.get_insert_self]
    · rw [Map.get_insert_of_ne hp, Map.get_insert_of_ne hp]
      rfl
  rw [retainFollowupIntent, hintents]
  rfl

/-- One repair that is retained is no longer owed. -/
theorem Accounts.retain {pool : PoolInstanceId} {action : RepairAction}
    (h : Accounts (fun p required => owed p required ∨ p = pool ∧ Covers action required) a)
    (hschedulable : Schedulable pool action)
    (hcompatible : ∀ existing, a.pendingFollowupIntents.get pool = some (.repair existing) → Compatible existing action) :
    Accounts owed (a.retainFollowupIntent pool (.repair action)) := by
  have hone : ∀ p repair, (Map.empty.insert pool action).get p = some repair → p = pool ∧ repair = action := by
    intro p repair hget
    rcases Map.get_insert_eq_some.mp hget with ⟨rfl, rfl⟩ | ⟨-, hnone⟩
    · exact ⟨rfl, rfl⟩
    · cases hnone
  rw [retainFollowupIntent_repair]
  refine Accounts.retainRepairs (h.mono fun p required howed => ?_) ?_ ?_
  · rcases howed with howed | ⟨rfl, hcovers⟩
    · exact .inl howed
    · exact .inr ⟨action, Map.get_insert_self _ _ _, hcovers⟩
  · intro p repair hget
    obtain ⟨rfl, rfl⟩ := hone p repair hget
    exact hschedulable
  · intro p repair existing hget
    obtain ⟨rfl, rfl⟩ := hone p repair hget
    exact hcompatible existing

/-- Deferred intents never replace a repair. -/
theorem Accounts.retainDeferred (h : Accounts owed a) (pool : PoolInstanceId) (deferred : List DeferredWork) :
    Accounts owed (a.retainFollowupIntent pool (.deferred deferred)) := by
  have hrepair : ∀ p action, (a.retainFollowupIntent pool (.deferred deferred)).pendingFollowupIntents.get p =
      some (.repair action) ↔ a.pendingFollowupIntents.get p = some (.repair action) := by
    intro p action
    show (a.pendingFollowupIntents.insert pool _).get p = _ ↔ _
    by_cases hp : p = pool
    · subst hp
      rw [Map.get_insert_self]
      rcases a.pendingFollowupIntents.get p with _ | existing | other
      · exact ⟨nofun, nofun⟩
      · exact Iff.rfl
      · exact ⟨nofun, nofun⟩
    · rw [Map.get_insert_of_ne hp]
  refine ⟨h.numbered, h.owner, h.pendingOwner, h.registered, h.tasks,
    fun p action hintent => h.intents p action ((hrepair p action).mp hintent),
    fun p hactive required hrequired => ?_, h.returns⟩
  rcases h.covered p hactive required hrequired with (hscheduled | ⟨action, hintent, hcovers⟩) | howed
  · exact .inl (.inl hscheduled)
  · exact .inl (.inr ⟨action, (hrepair p action).mpr hintent, hcovers⟩)
  · exact .inr howed

/-! ### Scheduling -/

/-- The pool has this repair scheduled. -/
def Repairing (a : AmmRuntimeActor) (pool : PoolInstanceId) (task : AmmFollowUpTask) : Prop :=
  ∃ work s, a.scheduledFollowups.get work = some s ∧ s.pool = pool ∧ s.kind = .repair ∧ s.task = task

/-- What queueing leaves: the intents and the active pools as they were, and the repair scheduled if it succeeds. It fails
    with a stale or an unsupported pool only where the pool is not active. -/
structure Queued (owed : PoolInstanceId → RepairAction → Prop) (a : AmmRuntimeActor) (pool : PoolInstanceId)
    (kind : AmmWorkKind) (task : AmmFollowUpTask)
    (result : AmmRuntimeActor × Except AmmRuntimeCommandError Unit) : Prop where
  accounts : Accounts owed result.1
  intents : result.1.pendingFollowupIntents = a.pendingFollowupIntents
  active : result.1.activePools = a.activePools
  repairing : result.2 = .ok () → kind = .repair → Repairing result.1 pool task
  stale : ∀ requested, result.2 = .error (.stalePoolInstance requested) → a.activePools.get pool.key ≠ some pool
  unsupported : ∀ message, result.2 ≠ .error (.unsupportedFollowUp message)

/-- Any other failure leaves everything as it was. -/
theorem Accounts.failed (h : Accounts owed a) {pool : PoolInstanceId} {kind : AmmWorkKind} {task : AmmFollowUpTask}
    (error : AmmRuntimeCommandError) (hstale : ∀ requested, error ≠ .stalePoolInstance requested)
    (hunsupported : ∀ message, error ≠ .unsupportedFollowUp message) :
    Queued owed a pool kind task (a, .error error) := by
  refine ⟨h, rfl, rfl, nofun, fun requested heq => ?_, fun message heq => ?_⟩
  · exact absurd (Except.error.inj heq) (hstale requested)
  · exact absurd (Except.error.inj heq) (hunsupported message)

theorem Accounts.submitFollowup (h : Accounts owed a) {pool : PoolInstanceId} {task : AmmFollowUpTask}
    (hactive : a.activePools.get pool.key = some pool)
    (hfree : ∀ work s, a.scheduledFollowups.get work = some s → s.pool ≠ pool) (htask : Schedulable pool (task.action pool))
    (kind : AmmWorkKind) (numbered submits : Bool) :
    Queued owed a pool kind task (a.submitFollowup pool kind task numbered submits) := by
  rw [AmmRuntimeActor.submitFollowup, if_neg (by simp [h.registered pool.key pool hactive])]
  cases numbered with
  | false => exact h.failed _ nofun nofun
  | true =>
    rw [if_neg (by simp)]
    by_cases hid : 2 ^ 64 ≤ a.nextWorkId + 1
    · rw [if_pos hid]
      exact h.failed _ nofun nofun
    rw [if_neg hid]
    cases submits with
    | false => exact h.failed _ nofun nofun
    | true =>
      rw [if_neg (by simp)]
      have hnew : ∀ work s, a.scheduledFollowups.get work = some s → work ≠ ⟨.pool pool, a.nextWorkId⟩ := by
        rintro work s hs rfl
        exact absurd (h.numbered _ s hs) (Nat.lt_irrefl _)
      have hback : ∀ work s, (a.scheduledFollowups.insert ⟨.pool pool, a.nextWorkId⟩ ⟨pool, kind, task, a.point⟩).get work =
          some s → (work = ⟨.pool pool, a.nextWorkId⟩ ∧ s = ⟨pool, kind, task, a.point⟩) ∨
            a.scheduledFollowups.get work = some s := by
        intro work s hs
        rcases Map.get_insert_eq_some.mp hs with ⟨rfl, rfl⟩ | ⟨-, hs⟩
        · exact .inl ⟨rfl, rfl⟩
        · exact .inr hs
      refine ⟨⟨?_, ?_, ?_, h.registered, ?_, h.intents, ?_, h.returns⟩, rfl, rfl, ?_, nofun, nofun⟩
      · intro work s hs
        rcases hback work s hs with ⟨rfl, rfl⟩ | hs
        · exact Nat.lt_succ_self _
        · exact Nat.lt_succ_of_lt (h.numbered work s hs)
      · intro work s hs
        rcases hback work s hs with ⟨rfl, rfl⟩ | hs
        · exact Map.get_insert_self _ _ _
        · exact (Map.get_insert_of_ne (hfree work s hs)).trans (h.owner work s hs)
      · intro p work hwork
        rcases Map.get_insert_eq_some.mp hwork with ⟨rfl, rfl⟩ | ⟨-, hwork⟩
        · rfl
        · exact h.pendingOwner p work hwork
      · intro work s hs
        rcases hback work s hs with ⟨rfl, rfl⟩ | hs
        · exact htask
        · exact h.tasks work s hs
      · intro p hp required hrequired
        rcases h.covered p hp required hrequired with (⟨work, s, hs, hpool, hkind, hcovers⟩ | hintent) | howed
        · exact .inl (.inl ⟨work, s, (Map.get_insert_of_ne (hnew work s hs)).trans hs, hpool, hkind, hcovers⟩)
        · exact .inl (.inr hintent)
        · exact .inr howed
      · intro _ hkind
        exact ⟨_, _, Map.get_insert_self _ _ _, rfl, hkind, rfl⟩

theorem Accounts.queueFollowup (h : Accounts owed a) {pool : PoolInstanceId} {task : AmmFollowUpTask}
    (htask : Schedulable pool (task.action pool)) (kind : AmmWorkKind) (numbered submits : Bool) :
    Queued owed a pool kind task (a.queueFollowup pool kind task numbered submits) := by
  rw [AmmRuntimeActor.queueFollowup]
  by_cases htrusted : a.trusted = true
  swap
  · rw [if_pos (by simp [htrusted])]
    exact h.failed _ nofun nofun
  rw [if_neg (by simp [htrusted])]
  by_cases hactive : a.activePools.get pool.key = some pool
  swap
  · rw [if_pos hactive]
    exact ⟨h, rfl, rfl, nofun, fun _ _ => hactive, nofun⟩
  rw [if_neg (not_not.mpr hactive)]
  by_cases hworker : a.coldStartWorker = true
  swap
  · rw [if_pos (by simp [hworker])]
    exact h.failed _ nofun nofun
  rw [if_neg (by simp [hworker])]
  rcases hpending : a.pendingPoolFollowup.get pool with _ | existing
  · refine h.submitFollowup hactive (fun work s hs hpool => ?_) htask kind numbered submits
    have howner := h.owner work s hs
    rw [hpool, hpending] at howner
    cases howner
  dsimp only
  rcases hs : a.scheduledFollowups.get existing with _ | s
  · exact h.failed _ nofun nofun
  dsimp only
  have hpool : s.pool = pool := by
    have howner := h.pendingOwner s.pool existing (h.owner existing s hs)
    rw [h.pendingOwner pool existing hpending] at howner
    exact (RuntimeOwnerId.pool.inj howner).symm
  by_cases hsame : s.task = task ∧ s.kind = kind
  · rw [if_pos hsame]
    exact ⟨h, rfl, rfl, fun _ hkind => ⟨existing, s, hs, hpool, hsame.2.trans hkind, hsame.1⟩, nofun, nofun⟩
  rw [if_neg hsame]
  by_cases hbusy : kind ≠ .repair ∨ s.kind = .repair
  · rw [if_pos hbusy]
    exact h.failed _ nofun nofun
  rw [if_neg hbusy]
  have hcancel := h.cancel hs (not_or.mp hbusy).2 numbered
  rw [cancelScheduledWork, hs] at hcancel ⊢
  cases numbered with
  | false => exact ⟨hcancel, rfl, rfl, nofun, nofun, nofun⟩
  | true =>
    have hqueued := hcancel.submitFollowup hactive (fun work t ht htpool => ?_) htask kind true submits
    · exact ⟨hqueued.accounts, hqueued.intents, hqueued.active, hqueued.repairing, hqueued.stale, hqueued.unsupported⟩
    · obtain ⟨hne, ht⟩ := Map.get_remove_eq_some.mp ht
      exact hne (h.unique hs ht (htpool.trans hpool.symm))

theorem Accounts.queueRepair (h : Accounts owed a) (pool : PoolInstanceId) (action : RepairAction)
    (numbered submits : Bool) : Accounts owed (a.queueRepair pool action numbered submits).1 := by
  rw [AmmRuntimeActor.queueRepair]
  rcases htask : repairTask pool action with error | task
  · exact h
  · exact (h.queueFollowup (repairTask_schedulable htask) .repair numbered submits).accounts

theorem Accounts.queueDeferred (h : Accounts owed a) (pool : PoolInstanceId) (deferred : List DeferredWork)
    (numbered submits : Bool) :
    Accounts owed (a.queueDeferred pool deferred numbered submits).1 ∧
      (a.queueDeferred pool deferred numbered submits).1.pendingFollowupIntents = a.pendingFollowupIntents := by
  rw [AmmRuntimeActor.queueDeferred]
  rcases collectDeferred pool deferred [] none with error | ⟨slots, _ | policy⟩
  · exact ⟨h, rfl⟩
  · dsimp only
    by_cases hempty : sortedSlots slots = []
    · rw [if_pos hempty]
      exact ⟨h, rfl⟩
    · rw [if_neg hempty]
      have htask : Schedulable pool ((AmmFollowUpTask.slotPatch (sortedSlots slots)).action pool) := .inr ⟨_, hempty, rfl⟩
      have hqueued := h.queueFollowup htask .deferredWarmup numbered submits
      exact ⟨hqueued.accounts, hqueued.intents⟩
  · have htask : Schedulable pool ((AmmFollowUpTask.refresh policy (sortedSlots slots)).action pool) := .inl ⟨policy, rfl⟩
    have hqueued := h.queueFollowup htask .deferredWarmup numbered submits
    exact ⟨hqueued.accounts, hqueued.intents⟩

/-- An intent may go if its pool is not active, it is no repair, or its repair is scheduled. -/
theorem Accounts.dropIntent (h : Accounts owed a) (pool : PoolInstanceId)
    (hdrop : a.activePools.get pool.key = some pool → ∀ action,
      a.pendingFollowupIntents.get pool = some (.repair action) → ∃ task, Repairing a pool task ∧
        Covers (task.action pool) action) :
    Accounts owed (a.dropIntent pool) := by
  refine ⟨h.numbered, h.owner, h.pendingOwner, h.registered, h.tasks, fun p action hintent => ?_,
    fun p hactive required hrequired => ?_, h.returns⟩
  · exact h.intents p action (Map.get_remove_eq_some.mp hintent).2
  · rcases h.covered p hactive required hrequired with (hscheduled | ⟨action, hintent, hcovers⟩) | howed
    · exact .inl (.inl hscheduled)
    · by_cases hp : p = pool
      · subst hp
        obtain ⟨task, ⟨work, s, hs, hpool, hkind, rfl⟩, htask⟩ := hdrop hactive action hintent
        exact .inl (.inl ⟨work, s, hs, hpool, hkind, htask.trans hcovers⟩)
      · exact .inl (.inr ⟨action, (Map.get_remove_of_ne hp).trans hintent, hcovers⟩)
    · exact .inr howed

theorem Accounts.drainOne (h : Accounts owed a) (numbered submits : Bool) (pool : PoolInstanceId) :
    Accounts owed (AmmRuntimeActor.drainOne numbered submits a pool) := by
  have hreleased : Accounts owed { a with repairWaitingForCanonical := a.repairWaitingForCanonical.remove pool } :=
    ⟨h.numbered, h.owner, h.pendingOwner, h.registered, h.tasks, h.intents, h.covered, h.returns⟩
  rw [AmmRuntimeActor.drainOne]
  rcases hintent : a.pendingFollowupIntents.get pool with _ | intent
  · exact h
  dsimp only
  by_cases hactive : a.activePools.get pool.key = some pool
  swap
  · rw [if_pos hactive]
    exact hreleased.dropIntent pool fun hpool => absurd hpool hactive
  rw [if_neg (not_not.mpr hactive)]
  by_cases hwaiting : a.repairWaitingForCanonical.get pool = some a.point
  · rw [if_pos hwaiting]
    exact h
  rw [if_neg hwaiting]
  cases intent with
  | deferred work =>
    have hnoRepair : ∀ b : AmmRuntimeActor, b.pendingFollowupIntents = a.pendingFollowupIntents → Accounts owed b →
        Accounts owed (b.dropIntent pool) := by
      intro b hb haccounts
      refine haccounts.dropIntent pool fun _ action hrepair => ?_
      rw [hb, hintent] at hrepair
      cases hrepair
    obtain ⟨haccounts, hintents⟩ := hreleased.queueDeferred pool work numbered submits
    dsimp only
    rcases hresult : AmmRuntimeActor.queueDeferred _ pool work numbered submits with ⟨b, error | _⟩
    · rw [hresult] at haccounts hintents
      cases error with
      | stalePoolInstance requested => exact hnoRepair b hintents haccounts
      | unsupportedFollowUp message => exact hnoRepair b hintents haccounts
      | _ => exact haccounts
    · rw [hresult] at haccounts hintents
      exact hnoRepair b hintents haccounts
  | repair action =>
    obtain ⟨task, htask, hschedulable, hcovers⟩ := repairTask_spec (h.intents pool action hintent)
    have hqueued := hreleased.queueFollowup hschedulable .repair numbered submits
    dsimp only
    rw [AmmRuntimeActor.queueRepair, htask]
    dsimp only
    rcases hresult : AmmRuntimeActor.queueFollowup _ pool .repair task numbered submits with ⟨b, error | _⟩
    · rw [hresult] at hqueued
      cases error with
      | stalePoolInstance requested => exact absurd hactive (hqueued.stale requested rfl)
      | unsupportedFollowUp message => exact absurd rfl (hqueued.unsupported message)
      | _ => exact hqueued.accounts
    · rw [hresult] at hqueued
      refine hqueued.accounts.dropIntent pool fun _ pending hpending => ?_
      rw [hqueued.intents] at hpending
      obtain rfl : action = pending := by
        have heq := hintent.symm.trans hpending
        exact AmmPendingFollowUpIntent.repair.inj (Option.some.inj heq)
      exact ⟨task, hqueued.repairing rfl rfl, hcovers⟩

theorem Accounts.drain (h : Accounts owed a) (pending : List PoolInstanceId) (numbered submits : Bool) :
    Accounts owed (a.drainFollowupIntents pending numbered submits) := by
  rw [drainFollowupIntents]
  by_cases hworker : a.coldStartWorker = true
  swap
  · rw [if_pos (by simp [hworker])]
    exact h
  rw [if_neg (by simp [hworker])]
  clear hworker
  induction pending generalizing a with
  | nil => exact h
  | cons pool rest ih => exact ih (h.drainOne numbered submits pool)

/-- What is owed but not required any more. -/
theorem Accounts.settled (h : Accounts owed a) (hnone : ∀ pool, ∀ required ∈ a.required pool, ¬ owed pool required) :
    Inv a :=
  ⟨h.numbered, h.owner, h.pendingOwner, h.registered, h.tasks, h.intents, fun pool hactive required hrequired =>
    .inl ((h.covered pool hactive required hrequired).resolve_right (hnone pool required hrequired)), h.returns⟩

end Accounts

/-! ### Batches -/

/-- The repairs that the logs of a pool signal. -/
def signals (logs : List LogRepair) (pool : PoolInstanceId) : List RepairAction :=
  ((logs.filter (·.pool = pool)).map LogRepair.action).filter (· ≠ .none)

theorem signals_cons (log : LogRepair) (logs : List LogRepair) (pool : PoolInstanceId) :
    signals (log :: logs) pool =
      if log.pool = pool ∧ log.action ≠ .none then log.action :: signals logs pool else signals logs pool := by
  rw [signals, signals]
  by_cases hpool : log.pool = pool
  · by_cases hnone : log.action = .none
    · simp [hpool, hnone]
    · simp [hpool, hnone]
  · simp [hpool]

theorem get_foldl_collectLog (logs : List LogRepair) (repairs : Map PoolInstanceId RepairAction) (pool : PoolInstanceId) :
    (logs.foldl collectLog repairs).get pool =
      match repairs.get pool with
      | some existing => some ((signals logs pool).foldl RepairAction.combine existing)
      | none => if signals logs pool = [] then none
          else some ((signals logs pool).foldl RepairAction.combine .none) := by
  induction logs generalizing repairs with
  | nil =>
    show repairs.get pool = _
    rcases repairs.get pool with _ | existing
    · rfl
    · rfl
  | cons log logs ih =>
    rw [List.foldl_cons, ih, collectLog]
    by_cases hnone : log.action = .none
    · have hsignals : signals (log :: logs) pool = signals logs pool := by
        rw [signals_cons]
        exact if_neg fun h => h.2 hnone
      rw [if_pos hnone, hsignals]
    rw [if_neg hnone]
    by_cases hpool : log.pool = pool
    · have hsignals : signals (log :: logs) pool = log.action :: signals logs pool := by
        rw [signals_cons]
        exact if_pos ⟨hpool, hnone⟩
      rw [hsignals, hpool]
      rcases repairs.get pool with _ | existing
      · simp [combine_none_left]
      · simp
    · have hsignals : signals (log :: logs) pool = signals logs pool := by
        rw [signals_cons]
        exact if_neg fun h => hpool h.1
      rw [hsignals]
      rcases repairs.get log.pool with _ | existing
      · dsimp only
        rw [Map.get_insert_of_ne (Ne.symm hpool)]
      · dsimp only
        rw [Map.get_insert_of_ne (Ne.symm hpool)]

theorem get_collectPendingRepairs (logs : List LogRepair) (pool : PoolInstanceId) :
    (collectPendingRepairs logs).get pool =
      if signals logs pool = [] then none else some ((signals logs pool).foldl RepairAction.combine .none) :=
  get_foldl_collectLog logs Map.empty pool

/-- The repairs of a log are compatible. -/
def LogRepair.Compatible (log : LogRepair) : Prop :=
  Repairs.Compatible log.event log.afterApply ∧
    Repairs.Compatible (log.event.combine log.afterApply) log.predictedVerify

theorem LogRepair.Compatible.covers {log : LogRepair} (h : log.Compatible) :
    ∀ part ∈ log.parts, Covers log.action part ∧ log.action ≠ .none := by
  obtain ⟨hevent, hafter⟩ := (combine_covers_iff _ _).mpr h.1
  obtain ⟨hboth, hverify⟩ := (combine_covers_iff _ _).mpr h.2
  intro part hpart
  obtain ⟨hmem, hne⟩ := List.mem_filter.mp hpart
  have hne : part ≠ .none := of_decide_eq_true hne
  have hlist : part = log.event ∨ part = log.afterApply ∨ part = log.predictedVerify := by simpa using hmem
  rcases hlist with rfl | rfl | rfl
  · exact ⟨hboth.trans hevent, fun hnone => hne (combine_eq_none (combine_eq_none hnone).1).1⟩
  · exact ⟨hboth.trans hafter, fun hnone => hne (combine_eq_none (combine_eq_none hnone).1).2⟩
  · exact ⟨hverify, fun hnone => hne (combine_eq_none hnone).2⟩

/-- A batch keeps its repairs: the ones that the logs of a pool require can be combined with each other, or a full refresh
    covers them. -/
def KeepsBatch (logs : List LogRepair) (fullRefresh : Bool) : Prop :=
  if fullRefresh then ∀ log ∈ logs, ∀ part ∈ log.parts, Covers (.coldStart log.pool.key .eager) part
  else (∀ log ∈ logs, log.Compatible) ∧ ∀ pool, Chain .none (signals logs pool)

/-- A batch that requires repairs is published, and keeps them. -/
def MeetsBatch (a : AmmRuntimeActor) (logs : List LogRepair) (fullRefresh publishes : Bool) : Prop :=
  if publishes then KeepsBatch logs fullRefresh else ∀ pool, a.batchRequires logs fullRefresh pool = []

/-- A batch that has repairs of active pools retains them, and what it retains can be scheduled and combined with the repair
    that is pending. -/
structure MeetsRetention (a : AmmRuntimeActor) (repairs : Map PoolInstanceId RepairAction) (retains : Bool) : Prop where
  retained : ∀ pool, a.activePools.get pool.key = some pool → (repairs.get pool).isSome → retains = true
  schedulable : retains = true → ∀ pool action, repairs.get pool = some action → Schedulable pool action
  compatible : retains = true → ∀ pool action existing, repairs.get pool = some action →
    a.pendingFollowupIntents.get pool = some (.repair existing) → Compatible existing action

/-- Where a batch keeps its repairs, what it requires is covered by what it retains. -/
theorem batchRequires_covered {a : AmmRuntimeActor} {logs : List LogRepair} {fullRefresh : Bool}
    (h : KeepsBatch logs fullRefresh) {pool : PoolInstanceId} (hactive : a.activePools.get pool.key = some pool)
    {required : RepairAction} (hrequired : required ∈ a.batchRequires logs fullRefresh pool) :
    ∃ action, (a.batchRepairs logs fullRefresh).get pool = some action ∧ Covers action required := by
  rw [batchRequires, List.mem_append] at hrequired
  cases fullRefresh with
  | true =>
    have hget : a.fullRefreshRepairs.get pool = some (.coldStart pool.key .eager) := if_pos hactive
    refine ⟨_, hget, ?_⟩
    rcases hrequired with hlog | hall
    · obtain ⟨log, hlog, hpart⟩ := List.mem_flatMap.mp hlog
      obtain ⟨hmem, hpool⟩ := List.mem_filter.mp hlog
      obtain rfl : log.pool = pool := of_decide_eq_true hpool
      exact h log hmem required hpart
    · rw [if_pos rfl, hget] at hall
      obtain rfl : required = .coldStart pool.key .eager := by simpa using hall
      exact .refl _
  | false =>
    rcases hrequired with hlog | hall
    · obtain ⟨log, hlog, hpart⟩ := List.mem_flatMap.mp hlog
      obtain ⟨hmem, hpool⟩ := List.mem_filter.mp hlog
      have hpool : log.pool = pool := of_decide_eq_true hpool
      obtain ⟨hcompatible, hchain⟩ : (∀ log ∈ logs, log.Compatible) ∧ ∀ pool, Chain .none (signals logs pool) := h
      obtain ⟨hcovers, hne⟩ := (hcompatible log hmem).covers required hpart
      have hsignal : log.action ∈ signals logs pool := by
        refine List.mem_filter.mpr ⟨List.mem_map.mpr ⟨log, hlog, rfl⟩, ?_⟩
        exact decide_eq_true hne
      refine ⟨_, (get_collectPendingRepairs logs pool).trans (if_neg (List.ne_nil_of_mem hsignal)), ?_⟩
      exact ((hchain pool).covers.2 log.action hsignal).trans hcovers
    · cases hall

/-- What a batch requires is owed until it is retained. -/
theorem Accounts.require {a : AmmRuntimeActor} {owed : PoolInstanceId → RepairAction → Prop} (h : Accounts owed a)
    {new : PoolInstanceId → List RepairAction}
    (howed : ∀ pool, a.activePools.get pool.key = some pool → ∀ required ∈ new pool, owed pool required) :
    Accounts owed { a with required := fun pool => a.required pool ++ new pool } := by
  refine ⟨h.numbered, h.owner, h.pendingOwner, h.registered, h.tasks, h.intents,
    fun pool hactive required hrequired => ?_, h.returns⟩
  rcases List.mem_append.mp hrequired with hold | hnew
  · exact h.covered pool hactive required hold
  · exact .inr (howed pool hactive required hnew)

/-- Degrading pools keeps them registered. -/
theorem Accounts.degrade {owed : PoolInstanceId → RepairAction → Prop} {a : AmmRuntimeActor} (h : Accounts owed a)
    {b : AmmRuntimeActor} (hpools : b.pools = a.pools) (trusted : Bool) (point : AmmStatePoint) (logs : List LogRepair)
    (degrades : PoolKey → Bool) (fullRefresh : Bool) :
    Accounts owed { a with trusted, point, pools := b.degradedPools logs degrades fullRefresh } := by
  refine ⟨h.numbered, h.owner, h.pendingOwner, fun key pool hactive => ?_, h.tasks, h.intents, h.covered, h.returns⟩
  obtain ⟨status, hstatus⟩ := Map.contains_iff.mp (h.registered key pool hactive)
  show ((b.pools.get key).map _).isSome = true
  rw [hpools, hstatus]
  rfl

/-! ### Commits -/

section Commits
variable {a : AmmRuntimeActor} {work : RuntimeWorkId} {s : AmmScheduledFollowUpWork}

/-- A pool is ready again if the commit covers the repair that is still pending. Nothing is owed to it any more. -/
theorem Accounts.markReady (h : Inv a) (hs : a.scheduledFollowups.get work = some s)
    (hactive : a.activePools.get s.pool.key = some s.pool)
    (hpending : ∀ action, a.pendingFollowupIntents.get s.pool = some (.repair action) →
      Covers (s.task.action s.pool) action) :
    Inv (a.markReady s) := by
  have hall : ∀ required ∈ a.required s.pool, Covers (s.task.action s.pool) required := by
    intro required hrequired
    rcases (h.covered s.pool hactive required hrequired).resolve_right id with
      ⟨w, t, ht, hpool, -, hcovers⟩ | ⟨action, hintent, hcovers⟩
    · obtain rfl := h.unique hs ht hpool
      rw [hs] at ht
      cases ht
      exact hcovers
    · exact (hpending action hintent).trans hcovers
  refine ⟨h.numbered, h.owner, h.pendingOwner, fun key pool hpool => ?_, h.tasks, h.intents,
    fun pool hpool required hrequired => ?_, fun x hx => ?_⟩
  · show ((a.pools.insert s.pool.key .ready).get key).isSome = true
    by_cases hkey : key = s.pool.key
    · rw [hkey, Map.get_insert_self]
      rfl
    · rw [Map.get_insert_of_ne hkey]
      exact h.registered key pool hpool
  · have hrequired : required ∈ if pool = s.pool then [] else a.required pool := hrequired
    split_ifs at hrequired with hp
    · cases hrequired
    · exact h.covered pool hpool required hrequired
  · rcases List.mem_cons.mp hx with rfl | hx
    · exact hall
    · exact h.returns x hx

/-- Work that is finished owes nothing where nothing is required of its pool, or where it was no repair. -/
theorem Accounts.finishSettled (h : Inv a) (hs : a.scheduledFollowups.get work = some s)
    (hdone : s.kind = .repair → a.required s.pool = []) : Inv (a.finishFollowup work s) := by
  refine (h.finish hs).settled fun pool required hrequired howed => ?_
  rcases howed with hfalse | ⟨rfl, hkind, -⟩
  · exact hfalse
  · have hrequired : required ∈ a.required s.pool := hrequired
    rw [hdone hkind] at hrequired
    cases hrequired

/-- Work that is finished and retained as an intent again. -/
theorem Accounts.finishRetained (h : Inv a) (hs : a.scheduledFollowups.get work = some s)
    (hcompatible : ∀ action, a.pendingFollowupIntents.get s.pool = some (.repair action) →
      Compatible action (s.task.action s.pool)) :
    Inv ((a.finishFollowup work s).retainFollowupIntent s.pool (.repair (s.task.action s.pool))) := by
  refine Accounts.retain ((h.finish hs).mono fun pool required howed => ?_) (h.tasks work s hs) hcompatible
  exact howed.imp_right fun ⟨hpool, _, hcovers⟩ => ⟨hpool, hcovers⟩

theorem Accounts.resolveRepairCommit (h : Inv a) (error : AmmRuntimeCommandError) (numbered : Bool)
    (hcompatible : (supersededPoints a.point.chainId error).isSome → ∀ s, a.scheduledFollowups.get work = some s →
      s.kind = .repair → ∀ action, a.pendingFollowupIntents.get s.pool = some (.repair action) →
      Compatible action (s.task.action s.pool)) :
    Inv (a.resolveRepairCommit work error numbered) := by
  rw [AmmRuntimeActor.resolveRepairCommit]
  rcases hpoints : supersededPoints a.point.chainId error with _ | ⟨target, observed⟩
  · exact h
  rcases hs : a.scheduledFollowups.get work with _ | s
  · exact h
  dsimp only
  split_ifs with hskip hwaiting
  · exact h
  · have hkind : s.kind = .repair := not_not.mp (not_or.mp hskip).1
    have hretained := h.finishRetained hs (hcompatible (by simp [hpoints]) s hs hkind)
    exact ⟨hretained.numbered, hretained.owner, hretained.pendingOwner, hretained.registered, hretained.tasks,
      hretained.intents, hretained.covered, hretained.returns⟩
  · have hkind : s.kind = .repair := not_not.mp (not_or.mp hskip).1
    exact h.finishRetained hs (hcompatible (by simp [hpoints]) s hs hkind)

/-- A commit keeps the repairs: one that applies covers the repair that is pending, and one that a newer point supersedes
    is compatible with it. -/
structure MeetsCommit (a : AmmRuntimeActor) (work : RuntimeWorkId) (outcome : CommitOutcome) : Prop where
  covers : ∀ s action, a.scheduledFollowups.get work = some s → s.baseline = a.point → makesReady s = true →
    (∀ error, outcome ≠ .refused error) → a.pendingFollowupIntents.get s.pool = some (.repair action) →
    Covers (s.task.action s.pool) action
  superseded : ∀ s action, a.scheduledFollowups.get work = some s → s.kind = .repair →
    (s.baseline ≠ a.point ∨
      ∃ error, outcome = .refused error ∧ (supersededPoints a.point.chainId error).isSome = true) →
    a.pendingFollowupIntents.get s.pool = some (.repair action) → Compatible action (s.task.action s.pool)

theorem resolveRepairCommit_of_ready {error : AmmRuntimeCommandError} {numbered : Bool}
    (hs : a.scheduledFollowups.get work = some s) (hready : s.kind = .repair → a.pools.get s.pool.key = some .ready) :
    a.resolveRepairCommit work error numbered = a := by
  rw [resolveRepairCommit, hs]
  rcases supersededPoints a.point.chainId error with _ | points
  · rfl
  · refine if_pos ?_
    by_cases hkind : s.kind = .repair
    · refine .inr (.inr (.inl ?_))
      rw [hready hkind]
      decide
    · exact .inl hkind

theorem Accounts.published (h : Inv a) (hs : a.scheduledFollowups.get work = some s)
    (hdone : s.kind = .repair → a.required s.pool = []) :
    Inv (match s.task with
      | .refresh _ (slot :: slots) =>
        (a.finishFollowup work s).retainFollowupIntent s.pool (.deferred [.verifySlots (slot :: slots)])
      | _ => a.finishFollowup work s) := by
  have hfinished := h.finishSettled hs hdone
  rcases s.task with ⟨policy, _ | ⟨slot, slots⟩⟩ | slots
  · exact hfinished
  · exact hfinished.retainDeferred s.pool _
  · exact hfinished

theorem commitFollowup_published (hs : a.scheduledFollowups.get work = some s) (hbaseline : s.baseline = a.point)
    (howner : ¬ (a.pendingPoolFollowup.get s.pool ≠ some work ∨ a.activePools.get s.pool.key ≠ some s.pool)) :
    a.commitFollowup work .published =
      (match s.task with
        | .refresh _ (slot :: slots) =>
          ((if makesReady s then a.markReady s else a).finishFollowup work s).retainFollowupIntent s.pool
            (.deferred [.verifySlots (slot :: slots)])
        | _ => (if makesReady s then a.markReady s else a).finishFollowup work s, .ok ()) := by
  rw [commitFollowup, hs]
  dsimp only
  rw [if_neg (not_not.mpr hbaseline), if_neg howner]
  rcases s.task with ⟨policy, _ | ⟨slot, slots⟩⟩ | slots
  · rfl
  · rfl
  · rfl

theorem Accounts.commitScheduled (h : Inv a) {outcome : CommitOutcome} (hmeets : MeetsCommit a work outcome)
    (numbered : Bool) : Inv (a.commitScheduled work outcome numbered) := by
  rcases hs : a.scheduledFollowups.get work with _ | s
  · rw [AmmRuntimeActor.commitScheduled, commitFollowup, hs]
    exact h.resolveRepairCommit _ numbered nofun
  by_cases hbaseline : s.baseline = a.point
  swap
  · rw [AmmRuntimeActor.commitScheduled, commitFollowup, hs]
    dsimp only
    rw [if_pos hbaseline]
    refine h.resolveRepairCommit _ numbered fun _ t ht hkind action => ?_
    rw [hs] at ht
    cases ht
    exact hmeets.superseded s action hs hkind (.inl hbaseline)
  by_cases howner : a.pendingPoolFollowup.get s.pool ≠ some work ∨ a.activePools.get s.pool.key ≠ some s.pool
  · rw [AmmRuntimeActor.commitScheduled, commitFollowup, hs]
    dsimp only
    rw [if_neg (not_not.mpr hbaseline), if_pos howner]
    exact h.resolveRepairCommit _ numbered nofun
  have hactive : a.activePools.get s.pool.key = some s.pool := not_not.mp (not_or.mp howner).2
  -- What the engine holds once the commit has been applied to it.
  have happlied : (∀ error, outcome ≠ .refused error) → Inv (if makesReady s then a.markReady s else a) ∧
      (s.kind = .repair → (if makesReady s then a.markReady s else a).required s.pool = [] ∧
        (if makesReady s then a.markReady s else a).pools.get s.pool.key = some .ready) := by
    intro happlies
    by_cases hready : makesReady s = true
    · rw [if_pos hready]
      refine ⟨h.markReady hs hactive fun action => hmeets.covers s action hs hbaseline hready happlies, fun _ => ?_⟩
      exact ⟨if_pos rfl, Map.get_insert_self _ _ _⟩
    · rw [if_neg hready]
      refine ⟨h, fun hkind => absurd ?_ hready⟩
      rw [makesReady]
      rcases s.task with _ | _
      · rfl
      · exact decide_eq_true hkind
  have hkeeps : (if makesReady s then a.markReady s else a).scheduledFollowups.get work = some s := by
    split_ifs
    · exact hs
    · exact hs
  cases outcome with
  | refused error =>
    rw [AmmRuntimeActor.commitScheduled, commitFollowup, hs]
    dsimp only
    rw [if_neg (not_not.mpr hbaseline), if_neg howner]
    refine h.resolveRepairCommit _ numbered fun hpoints t ht hkind action => ?_
    rw [hs] at ht
    cases ht
    exact hmeets.superseded s action hs hkind (.inr ⟨error, rfl, hpoints⟩)
  | applied error =>
    obtain ⟨hinv, hready⟩ := happlied nofun
    rw [AmmRuntimeActor.commitScheduled, commitFollowup, hs]
    dsimp only
    rw [if_neg (not_not.mpr hbaseline), if_neg howner]
    dsimp only
    rw [resolveRepairCommit_of_ready hkeeps fun hkind => (hready hkind).2]
    exact hinv
  | published =>
    obtain ⟨hinv, hready⟩ := happlied nofun
    rw [AmmRuntimeActor.commitScheduled, commitFollowup_published hs hbaseline howner]
    exact hinv.published hkeeps fun hkind => (hready hkind).1

/-- Work that fails is tried again and is compatible with the repair that is pending, unless it was no repair. -/
def MeetsFailure (a : AmmRuntimeActor) (work : RuntimeWorkId) (staleBaseline numbered : Bool) : Prop :=
  ∀ s, a.scheduledFollowups.get work = some s → s.kind = .repair → staleBaseline = true ∧ numbered = true ∧
    ∀ action, a.pendingFollowupIntents.get s.pool = some (.repair action) → Compatible action (s.task.action s.pool)

theorem Accounts.failScheduledWork (h : Inv a) {staleBaseline numbered : Bool}
    (hmeets : MeetsFailure a work staleBaseline numbered) :
    Inv (a.failScheduledWork work staleBaseline numbered) := by
  rw [AmmRuntimeActor.failScheduledWork]
  rcases hs : a.scheduledFollowups.get work with _ | s
  · exact h
  dsimp only
  by_cases hkind : s.kind = .repair
  · obtain ⟨rfl, rfl, hcompatible⟩ := hmeets s hs hkind
    have hretry : retryIntent s = .repair (s.task.action s.pool) := by
      rw [retryIntent, hkind]
    rw [if_neg (by simp), if_pos rfl, hretry]
    exact h.finishRetained hs hcompatible
  · have hfinished := h.finishSettled hs fun hrepair => absurd hrepair hkind
    have hcancelled := h.cancel hs hkind false
    rw [cancelScheduledWork, hs] at hcancelled
    cases numbered with
    | false => exact hcancelled
    | true =>
      cases staleBaseline with
      | false => exact hfinished
      | true =>
        obtain ⟨deferred, hretry⟩ : ∃ deferred, retryIntent s = .deferred deferred := by
          rw [retryIntent]
          rcases s with ⟨pool, _ | _, _ | _, baseline⟩
          · exact absurd rfl hkind
          · exact absurd rfl hkind
          · exact ⟨_, rfl⟩
          · exact ⟨_, rfl⟩
        rw [if_neg (by simp), if_pos rfl, hretry]
        exact hfinished.retainDeferred s.pool deferred

end Commits

/-! ### Pools -/

theorem Accounts.registerPool {a : AmmRuntimeActor} (h : Inv a) (pool : PoolInstanceId) (status : PoolStatus) :
    Inv (a.registerPool pool status) := by
  refine ⟨h.numbered, h.owner, h.pendingOwner, fun key p hp => ?_, h.tasks, h.intents,
    fun p hp required hrequired => ?_, h.returns⟩
  · show ((a.pools.insert pool.key status).get key).isSome = true
    by_cases hkey : key = pool.key
    · rw [hkey, Map.get_insert_self]
      rfl
    · rw [Map.get_insert_of_ne hkey]
      rcases Map.get_insert_eq_some.mp hp with ⟨hkey', -⟩ | ⟨-, hp⟩
      · exact absurd hkey' hkey
      · exact h.registered key p hp
  · have hrequired : required ∈ if p = pool then [] else a.required p := hrequired
    split_ifs at hrequired with hpool
    · cases hrequired
    · rcases Map.get_insert_eq_some.mp hp with ⟨-, heq⟩ | ⟨-, hp⟩
      · exact absurd heq.symm hpool
      · exact h.covered p hp required hrequired

section Removal
variable {owed : PoolInstanceId → RepairAction → Prop} {a b : AmmRuntimeActor} {removed pool : PoolInstanceId}

theorem registered_remove (h : Accounts owed a) {key : PoolKey}
    (hpool : (a.activePools.remove removed.key).get key = some pool) :
    (a.pools.remove removed.key).contains key = true := by
  obtain ⟨hkey, hpool⟩ := Map.get_remove_eq_some.mp hpool
  show ((a.pools.remove removed.key).get key).isSome = true
  rw [Map.get_remove_of_ne hkey]
  exact h.registered key pool hpool

/-- The repairs of the other pools stay covered when one pool goes. -/
theorem covered_remove (h : Accounts owed a) (hpool : (a.activePools.remove removed.key).get pool.key = some pool)
    {required : RepairAction} (hrequired : required ∈ a.required pool)
    (hintents : b.pendingFollowupIntents = a.pendingFollowupIntents.remove removed)
    (hscheduled : ∀ work s, a.scheduledFollowups.get work = some s → s.pool ≠ removed →
      b.scheduledFollowups.get work = some s) : Covered b pool required ∨ owed pool required := by
  obtain ⟨hkey, hpool⟩ := Map.get_remove_eq_some.mp hpool
  have hne : pool ≠ removed := fun heq => hkey (heq ▸ rfl)
  refine (h.covered pool hpool required hrequired).imp_left ?_
  rintro (⟨work, s, hs, rfl, hkind, hcovers⟩ | ⟨action, hintent, hcovers⟩)
  · exact .inl ⟨work, s, hscheduled work s hs hne, rfl, hkind, hcovers⟩
  · refine .inr ⟨action, ?_, hcovers⟩
    rw [hintents, Map.get_remove_of_ne hne]
    exact hintent

theorem Accounts.removePool (h : Accounts owed a) (pool : PoolInstanceId) : Accounts owed (a.removePool pool) := by
  rw [AmmRuntimeActor.removePool]
  split_ifs with hinactive hworker
  · exact h
  · refine ⟨h.numbered, h.owner, h.pendingOwner, fun key p hp => ?_, h.tasks, fun p action hintent => ?_,
      fun p hp required hrequired => ?_, h.returns⟩
    · exact registered_remove h hp
    · exact h.intents p action (Map.get_remove_eq_some.mp hintent).2
    · exact covered_remove h hp hrequired rfl fun work s hs _ => hs
  · have hback : ∀ work s, ((a.scheduledFollowups.get work).filter fun s => s.pool ≠ pool) = some s →
        a.scheduledFollowups.get work = some s ∧ s.pool ≠ pool := by
      intro work s hs
      obtain ⟨hs, hpool⟩ := Option.filter_eq_some_iff.mp hs
      exact ⟨hs, of_decide_eq_true hpool⟩
    refine ⟨fun work s hs => h.numbered work s (hback work s hs).1, fun work s hs => ?_, fun p work hwork => ?_,
      fun key p hp => ?_, fun work s hs => h.tasks work s (hback work s hs).1, fun p action hintent => ?_,
      fun p hp required hrequired => ?_, h.returns⟩
    · obtain ⟨hs, hpool⟩ := hback work s hs
      exact (if_neg hpool).trans (h.owner work s hs)
    · have hwork : (if p = pool then (a.pendingPoolFollowup.get p).filter fun work => (a.scheduledFollowups.get work).isNone
          else a.pendingPoolFollowup.get p) = some work := hwork
      split_ifs at hwork
      · exact h.pendingOwner p work (Option.filter_eq_some_iff.mp hwork).1
      · exact h.pendingOwner p work hwork
    · exact registered_remove h hp
    · exact h.intents p action (Map.get_remove_eq_some.mp hintent).2
    · refine covered_remove h hp hrequired rfl fun work s hs hpool => ?_
      exact Option.filter_eq_some_iff.mpr ⟨hs, decide_eq_true hpool⟩

end Removal

end AmmRuntimeActor

/-! ### Runs -/

namespace Machine
open AmmRuntimeActor

/-- A step that keeps the required repairs. -/
def Meets (m : Machine) : Event → Prop
  | .ingest _ logs _ fullRefresh publishes => MeetsBatch m.actor logs fullRefresh publishes
  | .finishIngest retains => ∀ repairs ∈ m.waiting.head?, MeetsRetention m.actor repairs retains
  | .handle (.commit work outcome _) => m.waiting = [] → MeetsCommit m.actor work outcome
  | .handle (.fail work staleBaseline numbered) => m.waiting = [] → MeetsFailure m.actor work staleBaseline numbered
  | .handle (.cancel work _) => m.waiting = [] → ∀ s, m.actor.scheduledFollowups.get work = some s → s.kind ≠ .repair
  | _ => True

/-- The repairs of the batches that wait cover this one. -/
def Waits (waiting : List (Map PoolInstanceId RepairAction)) (pool : PoolInstanceId) (required : RepairAction) : Prop :=
  ∃ repairs ∈ waiting, ∃ action, repairs.get pool = some action ∧ Covers action required

/-- Only what waits is owed. -/
abbrev Inv (m : Machine) : Prop := Accounts (Waits m.waiting) m.actor

theorem Inv.ingest {m : Machine} (h : m.Inv) (point : AmmStatePoint) {logs : List LogRepair}
    (degrades : PoolKey → Bool) {fullRefresh publishes : Bool}
    (hmeets : MeetsBatch m.actor logs fullRefresh publishes) :
    (m.step (.ingest point logs degrades fullRefresh publishes)).Inv := by
  rw [Inv, Machine.step, AmmRuntimeActor.ingest]
  by_cases htrusted : m.actor.trusted = true
  swap
  · rw [if_pos (by simp [htrusted]), if_neg (by simp [htrusted])]
    exact h
  rw [if_neg (by simp [htrusted])]
  cases publishes with
  | false =>
    -- A batch that is not published requires no repair.
    have hnone : ∀ pool, m.actor.batchRequires logs fullRefresh pool = [] := hmeets
    rw [Bool.and_false]
    refine Accounts.degrade (h.require fun pool _ required hrequired => ?_) rfl false m.actor.point [] degrades false
    rw [hnone pool] at hrequired
    cases hrequired
  | true =>
    rw [if_pos rfl, if_pos (by simp [htrusted])]
    have hkeeps : KeepsBatch logs fullRefresh := hmeets
    have howed : Accounts (Waits (m.actor.batchRepairs logs fullRefresh :: m.waiting)) m.actor := by
      refine h.mono ?_
      rintro pool required ⟨repairs, hrepairs, hcovers⟩
      exact ⟨repairs, List.mem_cons_of_mem _ hrepairs, hcovers⟩
    refine (howed.require fun pool hactive required hrequired => ?_).degrade rfl m.actor.trusted point logs degrades
      fullRefresh
    exact ⟨_, List.mem_cons_self, batchRequires_covered hkeeps hactive hrequired⟩

theorem Inv.finishIngest {m : Machine} (h : m.Inv) {retains : Bool}
    (hmeets : ∀ repairs ∈ m.waiting.head?, MeetsRetention m.actor repairs retains) :
    (m.step (.finishIngest retains)).Inv := by
  obtain ⟨a, waiting⟩ := m
  cases waiting with
  | nil => exact h
  | cons repairs waiting =>
    have hretention : MeetsRetention a repairs retains := hmeets repairs rfl
    have howed : Accounts (fun pool required => Waits waiting pool required ∨
        ∃ action, repairs.get pool = some action ∧ Covers action required) a := by
      refine h.mono fun pool required hwaits => ?_
      obtain ⟨others, hmem, hcovers⟩ := hwaits
      rcases List.mem_cons.mp hmem with rfl | hmem
      · exact .inr hcovers
      · exact .inl ⟨others, hmem, hcovers⟩
    cases retains with
    | true => exact howed.retainRepairs (hretention.schedulable rfl) (hretention.compatible rfl)
    | false =>
      refine ⟨h.numbered, h.owner, h.pendingOwner, h.registered, h.tasks, h.intents,
        fun pool hactive required hrequired => ?_, h.returns⟩
      refine (howed.covered pool hactive required hrequired).imp_right fun hcovered => hcovered.resolve_right ?_
      rintro ⟨action, haction, -⟩
      exact absurd (hretention.retained pool hactive (Option.isSome_of_eq_some haction)) nofun

theorem Inv.command {m : Machine} (h : m.Inv) {event : AmmRuntimeActor.Event} (hcommand : event.isCommand = true)
    (hmeets : m.Meets (.handle event)) (hidle : m.waiting = []) : AmmRuntimeActor.Inv (m.actor.step event) := by
  have h : AmmRuntimeActor.Inv m.actor := h.mono fun pool required hwaits => by simp [Waits, hidle] at hwaits
  cases event with
  | queueRepair pool action numbered submits => exact h.queueRepair pool action numbered submits
  | queueDeferred pool deferred numbered submits => exact (h.queueDeferred pool deferred numbered submits).1
  | commit work outcome numbered => exact h.commitScheduled (hmeets hidle) numbered
  | fail work staleBaseline numbered => exact h.failScheduledWork (hmeets hidle)
  | cancel work numbered =>
    rcases hs : m.actor.scheduledFollowups.get work with _ | s
    · rw [AmmRuntimeActor.step, cancelScheduledWork, hs]
      exact h
    · exact h.cancel hs (hmeets hidle s hs) numbered
  | registerPool pool status => exact h.registerPool pool status
  | attachWorker =>
    exact ⟨h.numbered, h.owner, h.pendingOwner, h.registered, h.tasks, h.intents, h.covered, h.returns⟩
  | _ => cases hcommand

theorem Inv.other {m : Machine} (h : m.Inv) {event : AmmRuntimeActor.Event} (hcommand : event.isCommand = false) :
    Accounts (Waits m.waiting) (m.actor.step event) := by
  cases event with
  | drain pending numbered submits => exact h.drain pending numbered submits
  | retainDeferred pool deferred => exact h.retainDeferred pool deferred
  | removePool pool => exact h.removePool pool
  | loseTrust =>
    exact ⟨h.numbered, h.owner, h.pendingOwner, h.registered, h.tasks, h.intents, h.covered, h.returns⟩
  | useWorkIds count =>
    exact ⟨fun work s hs => Nat.lt_add_right count (h.numbered work s hs), h.owner, h.pendingOwner, h.registered, h.tasks,
      h.intents, h.covered, h.returns⟩
  | _ => cases hcommand

theorem Inv.step {m : Machine} (h : m.Inv) {event : Event} (hmeets : m.Meets event) : (m.step event).Inv := by
  cases event with
  | ingest point logs degrades fullRefresh publishes => exact h.ingest point degrades hmeets
  | finishIngest retains => exact h.finishIngest hmeets
  | handle event =>
    rw [Machine.step]
    split_ifs with hblocked
    · exact h
    · rcases hcommand : event.isCommand with _ | _
      · exact h.other hcommand
      · have hidle : m.waiting = [] := not_not.mp fun hne => hblocked ⟨hcommand, hne⟩
        exact (h.command hcommand hmeets hidle).mono fun _ _ => False.elim

/-- Every step of a run keeps the required repairs. -/
def RunMeets : Machine → List Event → Prop
  | _, [] => True
  | m, event :: events => m.Meets event ∧ RunMeets (m.step event) events

theorem Inv.runMeets {m : Machine} (h : m.Inv) {events : List Event} (hmeets : RunMeets m events) : (m.run events).Inv := by
  induction events generalizing m with
  | nil => exact h
  | cons event events ih => exact ih (h.step hmeets.1) hmeets.2

end Machine

namespace AmmRuntimeActor
open Machine (RunMeets)

/-- An actor in the state before its first batch. -/
def machine (a : AmmRuntimeActor) : Machine := ⟨a, []⟩

/-- An actor before its first batch: every active pool is registered, and no repair was asked for. -/
structure Idle (a : AmmRuntimeActor) : Prop where
  scheduled : ∀ work, a.scheduledFollowups.get work = none
  pending : ∀ pool, a.pendingPoolFollowup.get pool = none
  intents : ∀ pool, a.pendingFollowupIntents.get pool = none
  registered : ∀ key pool, a.activePools.get key = some pool → a.pools.contains key = true
  required : ∀ pool, a.required pool = []
  returns : a.returns = []

theorem Idle.inv {a : AmmRuntimeActor} (h : Idle a) : a.machine.Inv := by
  refine ⟨fun work s hs => ?_, fun work s hs => ?_, fun pool work hwork => ?_, h.registered, fun work s hs => ?_,
    fun pool action hintent => ?_, fun pool _ required hrequired => ?_, fun x hx => ?_⟩
  · exact absurd hs (by simp [machine, h.scheduled work])
  · exact absurd hs (by simp [machine, h.scheduled work])
  · exact absurd hwork (by simp [machine, h.pending pool])
  · exact absurd hs (by simp [machine, h.scheduled work])
  · exact absurd hintent (by simp [machine, h.intents pool])
  · exact absurd hrequired (by simp [machine, h.required pool])
  · exact absurd hx (by simp [machine, h.returns])

/-- Every return to `Ready` covers what was required since the one before, in every run whose steps keep the repairs; and
    combining two repairs keeps both exactly if they are compatible. -/
theorem returns_cover_required (a : AmmRuntimeActor) (hidle : Idle a) :
    (∀ events, RunMeets a.machine events →
      ∀ x ∈ (a.machine.run events).actor.returns, ∀ required ∈ x.required, Covers x.executed required) ∧
    ∀ left right : RepairAction,
      (Covers (left.combine right) left ∧ Covers (left.combine right) right) ↔ Compatible left right :=
  ⟨fun _ hmeets => (hidle.inv.runMeets hmeets).returns, combine_covers_iff⟩

/-! ### Runs that keep and lose a repair -/

/-- The pool of the runs below. -/
def patched : PoolInstanceId := ⟨.uniswapV2 1, 1⟩

def pointAt (number : Nat) : AmmStatePoint := ⟨1, number, BitVec.ofNat 256 number⟩

/-- One ready pool. -/
def oneReady : AmmRuntimeActor where
  trusted := true
  coldStartWorker := true
  point := pointAt 0
  activePools := Map.empty.insert patched.key patched
  pools := Map.empty.insert patched.key .ready
  scheduledFollowups := Map.empty
  pendingPoolFollowup := Map.empty
  pendingFollowupIntents := Map.empty
  repairWaitingForCanonical := Map.empty
  nextWorkId := 0
  required := fun _ => []
  returns := []

/-- A log whose event asks for a slot check. -/
def slotLog : LogRepair := ⟨patched, .verifySlots [(1, 8)], .none, .none⟩

/-- A log asks for a slot check, which is scheduled and committed. -/
def keptRun : List Machine.Event :=
  [.ingest (pointAt 1) [slotLog] (fun _ => false) false true, .finishIngest true, .handle (.drain [patched] true true),
    .handle (.commit ⟨.pool patched, 0⟩ .published true)]

/-- While the slot check is in flight a gap asks for an eager cold start. The commit of the slot check is superseded, and
    its intent replaces the cold start. -/
def lostRun : List Machine.Event :=
  [.ingest (pointAt 1) [slotLog] (fun _ => false) false true, .finishIngest true, .handle (.drain [patched] true true),
    .ingest (pointAt 2) [] (fun _ => false) true true, .finishIngest true, .handle (.drain [patched] true true),
    .handle (.commit ⟨.pool patched, 0⟩ .published true), .handle (.drain [patched] true true),
    .handle (.commit ⟨.pool patched, 1⟩ .published true)]

theorem oneReady_idle : Idle oneReady := by
  refine ⟨fun _ => rfl, fun _ => rfl, fun _ => rfl, fun key pool hpool => ?_, fun _ => rfl, rfl⟩
  rcases Map.get_insert_eq_some.mp hpool with ⟨rfl, -⟩ | ⟨-, hnone⟩
  · rfl
  · cases hnone

theorem signals_slotLog (pool : PoolInstanceId) :
    signals [slotLog] pool = if patched = pool then [.verifySlots [(1, 8)]] else [] := by
  rw [signals_cons]
  by_cases hpool : patched = pool
  · rw [if_pos hpool, if_pos ⟨hpool, by decide⟩]
    rfl
  · rw [if_neg hpool, if_neg fun h => hpool h.1]
    rfl

/-- The actor once the slot check is scheduled. -/
def drained : AmmRuntimeActor := (oneReady.machine.run (keptRun.take 3)).actor

theorem keptRun_meets : RunMeets oneReady.machine keptRun := by
  -- After the drain the pool has no intent.
  have hidle : ∀ s action, drained.scheduledFollowups.get ⟨.pool patched, 0⟩ = some s →
      drained.pendingFollowupIntents.get s.pool ≠ some (.repair action) := by
    intro s action hs
    have hscheduled : drained.scheduledFollowups.get ⟨.pool patched, 0⟩ =
        some ⟨patched, .repair, .slotPatch [(1, 8)], pointAt 1⟩ := by decide +kernel
    have hintent : drained.pendingFollowupIntents.get patched = none := by decide +kernel
    rw [hscheduled] at hs
    cases hs
    rw [hintent]
    nofun
  refine ⟨⟨fun log hlog => ?_, fun pool => ?_⟩, fun repairs hrepairs => ?_, trivial, fun _ => ⟨?_, ?_⟩, trivial⟩
  · obtain rfl := List.mem_singleton.mp hlog
    exact ⟨.inl rfl, .inl rfl⟩
  · rw [signals_slotLog]
    split_ifs
    · exact ⟨.inr (.inr (.inr (covers_none _))), trivial⟩
    · trivial
  · obtain rfl : collectPendingRepairs [slotLog] = repairs := Option.some.inj hrepairs
    refine ⟨fun _ _ _ => rfl, fun _ pool action haction => ?_, fun _ _ _ _ _ => nofun⟩
    rw [get_collectPendingRepairs, signals_slotLog] at haction
    split_ifs at haction with hpatched hnone hnone
    · cases haction
      exact .inr ⟨[(1, 8)], by decide, rfl⟩
    · exact absurd rfl hnone
  · intro s action hs _ _ _ hintent
    exact absurd hintent (hidle s action hs)
  · intro s action hs _ _ hintent
    exact absurd hintent (hidle s action hs)

theorem returns_cover_required_keptRun :
    Idle oneReady ∧ RunMeets oneReady.machine keptRun ∧
      (∀ x ∈ (oneReady.machine.run keptRun).actor.returns, ∀ required ∈ x.required, Covers x.executed required) ∧
      (oneReady.machine.run keptRun).actor.returns = [⟨patched, .verifySlots [(1, 8)], [.verifySlots [(1, 8)]]⟩] :=
  ⟨oneReady_idle, keptRun_meets, (returns_cover_required oneReady oneReady_idle).1 keptRun keptRun_meets, by decide +kernel⟩

theorem refresh_lost :
    Idle oneReady ∧
      (∃ x ∈ (oneReady.machine.run lostRun).actor.returns, ∃ required ∈ x.required, ¬ Covers x.executed required) ∧
      ¬ Covers ((RepairAction.coldStart patched.key .eager).combine (.verifySlots [(1, 8)]))
        (.coldStart patched.key .eager) := by
  have hreturns : (oneReady.machine.run lostRun).actor.returns =
      [⟨patched, .verifySlots [(1, 8)], [.verifySlots [(1, 8)], .coldStart patched.key .eager]⟩] := by
    decide +kernel
  have hlost : ¬ Covers (.verifySlots [(1, 8)]) (.coldStart patched.key .eager) :=
    fun h => h (.warm patched.key 2) ⟨rfl, Nat.le_refl 2⟩
  refine ⟨oneReady_idle, ⟨_, hreturns ▸ List.mem_cons_self, .coldStart patched.key .eager, ?_, hlost⟩, hlost⟩
  exact List.mem_cons_of_mem _ List.mem_cons_self

end AmmRuntimeActor
end AmmState.Repairs
