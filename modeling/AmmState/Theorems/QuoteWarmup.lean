import AmmState.QuoteWarmup

/-! Whether the manifest that is learned for a quote is enough to replay it. The recording wrapper collects what calls
    access and nothing else; a replay is determined by what it consults of its snapshot. So a manifest is enough exactly
    where every direct read, and everything that the replay consults, is accessed by a recorded call too. -/

namespace AmmState.Quotes
open Fallible Interaction

variable {evm : EvmForkCache}

/-! ### What a simulation reads -/

/-- The slots that an operation reads by itself. -/
def CacheOp.directReads : CacheOp evm → StorageAccessList
  | .storage slot | .cachedStorage slot | .readStorageSlot slot => .ofSlots [slot]
  | .readStorageSlots slots | .verifySlots slots => .ofSlots slots
  | _ => ⊥

/-- What the call of an operation accesses in the live cache. -/
def CacheOp.callReads (op : CacheOp evm) (recording : RecordingCache evm) : StorageAccessList :=
  match op with
  | .callRaw call _ | .callRawWithAccessList call | .callRawWithCodeOverrides call _ _
  | .callRawWithCodeOverridesAndAccessList call _ =>
    match (evm.callRawWithAccessList recording.cache call).1 with
    | .ok (_, accesses) => accesses
    | .error _ => ⊥
  | _ => ⊥

/-- What an operation consults of a snapshot. -/
def CacheOp.consults (op : CacheOp evm) (offline : OfflineSnapshotCache evm) : StorageAccessList :=
  match op with
  | .storage slot | .cachedStorage slot => .ofSlots [slot]
  | .readStorageSlot slot => (evm.overlayStorage offline.snapshot slot).2
  | .readStorageSlots slots => (OfflineSnapshotCache.readAll offline.snapshot slots).2
  | .callRaw call _ | .callRawWithAccessList call => (evm.overlayCall offline.snapshot call []).2
  | .callRawWithCodeOverrides call codeOverrides _ | .callRawWithCodeOverridesAndAccessList call codeOverrides =>
    (evm.overlayCall offline.snapshot call codeOverrides).2
  | _ => ⊥

/-- What the recorded run reads directly. -/
def directReads (simulation : Simulation evm) (cache : evm.Cache) : StorageAccessList :=
  simulation.notes RecordingCache.handle (fun op _ => op.directReads) (.new cache)

/-- What the calls of the recorded run access. -/
def callReads (simulation : Simulation evm) (cache : evm.Cache) : StorageAccessList :=
  simulation.notes RecordingCache.handle CacheOp.callReads (.new cache)

/-- What a replay consults. -/
def replayReads (simulation : Simulation evm) (snapshot : EvmSnapshot evm.AccountInfo) : StorageAccessList :=
  simulation.notes OfflineSnapshotCache.handle CacheOp.consults (.new snapshot)

/-! ### Recording -/

/-- The recording collects what the calls access. -/
theorem recording_accesses (simulation : Simulation evm) (cache : evm.Cache) :
    (simulation.run RecordingCache.handle (.new cache)).2.accesses = callReads simulation cache := by
  have hcollects : ∀ (op : CacheOp evm) recording, (RecordingCache.handle op recording).2.accesses =
      recording.accesses ⊔ op.callReads recording := by
    intro op recording
    have hcall : ∀ call, (recording.callRaw call).2.accesses = recording.accesses ⊔
        (match (evm.callRawWithAccessList recording.cache call).1 with
          | .ok (_, accesses) => accesses
          | .error _ => ⊥) := by
      intro call
      unfold RecordingCache.callRaw
      rcases evm.callRawWithAccessList recording.cache call with ⟨error | ⟨outcome, accesses⟩, cache⟩
      · exact (sup_of_le_left bot_le).symm
      · rfl
    cases op with
    | callRaw call commit => exact hcall call
    | callRawWithAccessList call => exact hcall call
    | callRawWithCodeOverrides call codeOverrides commit => exact hcall call
    | callRawWithCodeOverridesAndAccessList call codeOverrides => exact hcall call
    | storage slot => exact (sup_of_le_left bot_le).symm
    | cachedStorage slot => exact (sup_of_le_left bot_le).symm
    | applyUpdates updates => exact (sup_of_le_left bot_le).symm
    | verifySlots slots => exact (sup_of_le_left bot_le).symm
    | purgeStorage address => exact (sup_of_le_left bot_le).symm
    | purgeSlots address slots => exact (sup_of_le_left bot_le).symm
    | readStorageSlot slot => exact (sup_of_le_left bot_le).symm
    | readStorageSlots slots => exact (sup_of_le_left bot_le).symm
  exact (@run_collects _ _ _ _ _ _ _ RecordingCache.handle CacheOp.callReads RecordingCache.accesses hcollects
    simulation (.new cache)).trans (sup_of_le_right bot_le)

/-! ### Replaying -/

/-- Two snapshots of one environment have the same of these dependencies. -/
structure EvmSnapshot.AgreesOn {AccountInfo : Type} (access : StorageAccessList)
    (s t : EvmSnapshot AccountInfo) : Prop where
  environment : s.environment = t.environment
  accounts : ∀ account ∈ access.accounts, s.accounts.get account = t.accounts.get account
  codeHashes : ∀ codeHash ∈ access.codeHashes, s.code.get codeHash = t.code.get codeHash
  slots : ∀ slot ∈ access.slots, s.storage.get slot = t.storage.get slot
  blockNumbers : ∀ number ∈ access.blockNumbers, s.blockHashes.get number = t.blockHashes.get number

/-- An execution over a snapshot is determined by the environment and by what it consults. -/
structure Deterministic (evm : EvmForkCache) : Prop where
  storage : ∀ s t slot, EvmSnapshot.AgreesOn (evm.overlayStorage s slot).2 s t →
    evm.overlayStorage t slot = evm.overlayStorage s slot
  call : ∀ s t call codeOverrides, EvmSnapshot.AgreesOn (evm.overlayCall s call codeOverrides).2 s t →
    evm.overlayCall t call codeOverrides = evm.overlayCall s call codeOverrides

namespace EvmSnapshot.AgreesOn
variable {AccountInfo : Type} {access access' : StorageAccessList} {s t : EvmSnapshot AccountInfo}

theorem mono (h : AgreesOn access s t) (hle : access' ≤ access) : AgreesOn access' s t :=
  ⟨h.environment, fun account ha => h.accounts account (hle.1 ha), fun codeHash hc => h.codeHashes codeHash (hle.2.1 hc),
    fun slot hs => h.slots slot (hle.2.2.1 hs), fun number hn => h.blockNumbers number (hle.2.2.2 hn)⟩

theorem missingReadSet (h : AgreesOn access s t) : t.missingReadSet access = s.missingReadSet access := by
  refine StorageAccessList.ext ?_ ?_ ?_ ?_
  · exact Finset.filter_congr fun account ha => by rw [Map.contains, Map.contains, h.accounts account ha]
  · exact Finset.filter_congr fun codeHash hc => by rw [Map.contains, Map.contains, h.codeHashes codeHash hc]
  · exact Finset.filter_congr fun slot hs => by rw [Map.contains, Map.contains, h.slots slot hs]
  · exact Finset.filter_congr fun number hn => by rw [Map.contains, Map.contains, h.blockNumbers number hn]

end EvmSnapshot.AgreesOn

theorem readAll_congr (hdet : Deterministic evm) {s t : EvmSnapshot evm.AccountInfo} {slots : List StateSlot}
    (h : EvmSnapshot.AgreesOn (OfflineSnapshotCache.readAll s slots).2 s t) :
    OfflineSnapshotCache.readAll t slots = OfflineSnapshotCache.readAll s slots := by
  induction slots with
  | nil => rfl
  | cons slot rest ih =>
    rw [OfflineSnapshotCache.readAll] at h ⊢
    rw [OfflineSnapshotCache.readAll]
    have hslot := hdet.storage s t slot
    rcases hread : evm.overlayStorage s slot with ⟨error | value, accesses⟩
    · rw [hread] at h hslot
      rw [hslot h]
    · rw [hread] at h hslot
      rw [hslot (h.mono le_sup_left)]
      dsimp only
      rw [ih (h.mono le_sup_right)]

section
variable {s t : EvmSnapshot evm.AccountInfo} {missing : StorageAccessList}

theorem resolve_congr {α : Type} {result : Except CacheError α × StorageAccessList}
    (h : EvmSnapshot.AgreesOn result.2 s t) : OfflineSnapshotCache.resolve ⟨t, missing⟩ result =
      ((OfflineSnapshotCache.resolve ⟨s, missing⟩ result).1,
        ⟨t, (OfflineSnapshotCache.resolve ⟨s, missing⟩ result).2.missingState⟩) := by
  simp only [OfflineSnapshotCache.resolve, h.missingReadSet]

/-- An operation is answered alike over snapshots that agree on what it consults. -/
theorem handle_congr (hdet : Deterministic evm) (op : CacheOp evm)
    (h : EvmSnapshot.AgreesOn (op.consults ⟨s, missing⟩) s t) :
    OfflineSnapshotCache.handle op ⟨t, missing⟩ = ((OfflineSnapshotCache.handle op ⟨s, missing⟩).1,
      ⟨t, (OfflineSnapshotCache.handle op ⟨s, missing⟩).2.missingState⟩) := by
  have hcall : ∀ call codeOverrides, EvmSnapshot.AgreesOn (evm.overlayCall s call codeOverrides).2 s t →
      OfflineSnapshotCache.callRaw ⟨t, missing⟩ call codeOverrides =
        ((OfflineSnapshotCache.callRaw ⟨s, missing⟩ call codeOverrides).1,
          ⟨t, (OfflineSnapshotCache.callRaw ⟨s, missing⟩ call codeOverrides).2.missingState⟩) := by
    intro call codeOverrides hagrees
    rw [OfflineSnapshotCache.callRaw, hdet.call s t call codeOverrides hagrees]
    exact resolve_congr hagrees
  have hslot : ∀ slot, EvmSnapshot.AgreesOn (.ofSlots [slot]) s t → t.storage.get slot = s.storage.get slot :=
    fun slot hagrees => (hagrees.slots slot (by simp [StorageAccessList.ofSlots])).symm
  cases op with
  | storage slot => exact Prod.ext (hslot slot h) rfl
  | cachedStorage slot => exact Prod.ext (hslot slot h) rfl
  | applyUpdates updates => rfl
  | verifySlots slots => rfl
  | purgeStorage address => rfl
  | purgeSlots address slots => rfl
  | readStorageSlot slot =>
    rw [OfflineSnapshotCache.handle, hdet.storage s t slot h]
    exact resolve_congr h
  | readStorageSlots slots =>
    rw [OfflineSnapshotCache.handle, readAll_congr hdet h]
    exact resolve_congr h
  | callRaw call commit => exact hcall call [] h
  | callRawWithCodeOverrides call codeOverrides commit => exact hcall call codeOverrides h
  | callRawWithAccessList call => rw [OfflineSnapshotCache.handle, hcall call [] h]; rfl
  | callRawWithCodeOverridesAndAccessList call codeOverrides =>
    rw [OfflineSnapshotCache.handle, hcall call codeOverrides h]
    rfl

theorem handle_snapshot (op : CacheOp evm) (offline : OfflineSnapshotCache evm) :
    (OfflineSnapshotCache.handle op offline).2.snapshot = offline.snapshot := by
  cases op <;> rfl

/-- A replay gives the same over snapshots that agree on what it consults. -/
theorem replay_congr (hdet : Deterministic evm) (simulation : Simulation evm)
    (h : EvmSnapshot.AgreesOn (replayReads simulation s) s t) :
    (simulation.run OfflineSnapshotCache.handle (.new t)).1 = (simulation.run OfflineSnapshotCache.handle (.new s)).1 ∧
      (simulation.run OfflineSnapshotCache.handle (.new t)).2.missingState =
        (simulation.run OfflineSnapshotCache.handle (.new s)).2.missingState := by
  let rel (a b : OfflineSnapshotCache evm) : Prop := a.snapshot = s ∧ b.snapshot = t ∧ a.missingState = b.missingState
  have hstep : ∀ op a b, rel a b → op.consults a ≤ replayReads simulation s →
      (OfflineSnapshotCache.handle op a).1 = (OfflineSnapshotCache.handle op b).1 ∧
        rel (OfflineSnapshotCache.handle op a).2 (OfflineSnapshotCache.handle op b).2 := by
    rintro op ⟨_, missing⟩ ⟨_, _⟩ ⟨rfl, rfl, rfl⟩ hnote
    rw [handle_congr hdet op (h.mono hnote)]
    exact ⟨rfl, handle_snapshot op _, rfl, rfl⟩
  have hstart : rel (.new s) (.new t) := ⟨rfl, rfl, rfl⟩
  obtain ⟨hresult, -, -, hmissing⟩ := run_congr hstep simulation hstart le_rfl
  exact ⟨hresult.symm, hmissing.symm⟩

/-- A replay that was complete is the same over every snapshot that agrees on what it consulted. -/
theorem validateOne_congr (hdet : Deterministic evm) {simulation : Simulation evm} {request : QuoteWarmup}
    (h : EvmSnapshot.AgreesOn (replayReads simulation s) s t) :
    validateOne simulation t request = validateOne simulation s request := by
  obtain ⟨hresult, hmissing⟩ := replay_congr hdet simulation h
  simp only [validateOne, hresult, hmissing]

end

/-! ### Learning -/

/-- What a request that was learned went through. -/
theorem learn_ok {registry : QuoteRegistry evm} {request : QuoteWarmup} {before after : evm.Cache}
    {entry : QuoteWarmupEntry} (h : (learn registry request).run.run before = (.ok entry, after)) :
    ∃ simulation, registry.resolve request = .ok simulation ∧ entry.request = request ∧
      entry.accesses = callReads simulation before ∧ registry.quoteReadSetLimits.accepts entry.accesses = true ∧
      validateOne simulation (evm.snapshot after) request = .ok entry.quote := by
  obtain ⟨simulation, _, hlift, h⟩ := bind_eq_ok.mp h
  obtain ⟨hresolve, rfl⟩ := lift_eq_ok.mp hlift
  obtain ⟨_, _, hget, h⟩ := bind_eq_ok.mp h
  obtain ⟨rfl, rfl⟩ := get_eq_ok.mp hget
  obtain ⟨_, _, hset, h⟩ := bind_eq_ok.mp h
  obtain rfl := set_eq_ok.mp hset
  obtain ⟨quote, _, hlift, h⟩ := bind_eq_ok.mp h
  obtain ⟨-, rfl⟩ := lift_eq_ok.mp hlift
  obtain ⟨_, _, hlift, h⟩ := bind_eq_ok.mp h
  obtain ⟨hlimits, rfl⟩ := lift_eq_ok.mp hlift
  obtain ⟨offline, _, hlift, h⟩ := bind_eq_ok.mp h
  obtain ⟨hoffline, rfl⟩ := lift_eq_ok.mp hlift
  have hsame : offline = quote := by
    by_contra hne
    rw [if_pos hne] at h
    cases h
  rw [if_neg (not_not.mpr hsame)] at h
  obtain ⟨rfl, rfl⟩ := pure_eq_ok.mp h
  have haccepts : registry.quoteReadSetLimits.accepts
      (simulation.run RecordingCache.handle (.new before)).2.accesses = true := by
    by_contra hlimit
    rw [ensureWithinLimits, if_neg hlimit] at hlimits
    cases hlimits
  exact ⟨simulation, hresolve, rfl, recording_accesses simulation before, haccepts, hsame ▸ hoffline⟩

/-- A request that was learned: the cache before, what was recorded, and the cache that it was replayed over. -/
structure Learning (evm : EvmForkCache) where
  before : evm.Cache
  entry : QuoteWarmupEntry
  after : evm.Cache

/-- What a batch learns, up to the first failure. -/
def learnings (registry : QuoteRegistry evm) : List QuoteWarmup → evm.Cache → List (Learning evm)
  | [], _ => []
  | request :: rest, before =>
    match (learn registry request).run.run before with
    | (.ok entry, after) => ⟨before, entry, after⟩ :: learnings registry rest after
    | (.error _, _) => []

theorem learnAll_ok {registry : QuoteRegistry evm} {requests : List QuoteWarmup} {before after : evm.Cache}
    {entries : List QuoteWarmupEntry} (h : (learnAll registry requests).run.run before = (.ok entries, after)) :
    (learnings registry requests before).map (·.entry) = entries := by
  induction requests generalizing before entries with
  | nil => exact (pure_eq_ok.mp h).1
  | cons request rest ih =>
    obtain ⟨entry, middle, hlearn, h⟩ := bind_eq_ok.mp h
    obtain ⟨more, last, hrest, h⟩ := bind_eq_ok.mp h
    obtain ⟨rfl, rfl⟩ := pure_eq_ok.mp h
    rw [learnings, hlearn, List.map_cons, ih hrest]

theorem mem_learnings {registry : QuoteRegistry evm} {requests : List QuoteWarmup} {cache : evm.Cache}
    {learning : Learning evm} (h : learning ∈ learnings registry requests cache) :
    (learn registry learning.entry.request).run.run learning.before = (.ok learning.entry, learning.after) := by
  induction requests generalizing cache with
  | nil => cases h
  | cons request rest ih =>
    rw [learnings] at h
    rcases hlearn : (learn registry request).run.run cache with ⟨error | entry, after⟩
    · rw [hlearn] at h
      cases h
    · rw [hlearn] at h
      rcases List.mem_cons.mp h with rfl | h
      · obtain ⟨_, -, hrequest, -⟩ := learn_ok hlearn
        rw [hrequest]
        exact hlearn
      · exact ih h

/-! ### Manifests -/

namespace QuoteRegistry
variable {registry : QuoteRegistry evm}

theorem quoteReadSet_insert {request other : QuoteWarmup} {accesses : StorageAccessList} :
    (registry.insertReadSet request accesses).quoteReadSet other =
      if other = request then some accesses else registry.quoteReadSet other := by
  unfold quoteReadSet insertReadSet
  by_cases h : other = request
  · subst h
    simp
  · rw [if_neg h, List.find?_cons_of_neg (by simpa using Ne.symm h), List.find?_filter]
    congr 2
    funext entry
    by_cases hentry : entry.1 = other
    · simp [hentry, h]
    · simp [hentry]

/-- Every manifest is within the limits, but for older ones that were stored under other limits. -/
def WithinLimits (older : List (QuoteWarmup × StorageAccessList)) (registry : QuoteRegistry evm) : Prop :=
  ∀ entry ∈ registry.quoteReadSets, registry.quoteReadSetLimits.accepts entry.2 = true ∨ entry ∈ older

variable {older : List (QuoteWarmup × StorageAccessList)}

theorem WithinLimits.insert (h : registry.WithinLimits older) {request : QuoteWarmup} {accesses : StorageAccessList}
    (haccepts : registry.quoteReadSetLimits.accepts accesses = true) :
    (registry.insertReadSet request accesses).WithinLimits older := by
  intro entry hentry
  rcases List.mem_cons.mp hentry with rfl | hentry
  · exact .inl haccepts
  · exact h entry (List.mem_of_mem_filter hentry)

theorem WithinLimits.retain (h : registry.WithinLimits older) (keep : QuoteWarmup × StorageAccessList → Bool) :
    (registry.retainReadSets keep).WithinLimits older := fun entry hentry => h entry (List.mem_of_mem_filter hentry)

end QuoteRegistry

section
variable {registry : QuoteRegistry evm} {entries : List QuoteWarmupEntry}

/-- Of several entries for a request the last one is kept. -/
theorem quoteReadSet_install (request : QuoteWarmup) : (install registry entries).quoteReadSet request =
    ((entries.reverse.find? (·.request = request)).map (·.accesses)).or (registry.quoteReadSet request) := by
  have hfold : (entries.foldl (fun registry entry => registry.insertReadSet entry.request entry.accesses)
      registry).quoteReadSet
      request = ((entries.reverse.find? (·.request = request)).map (·.accesses)).or (registry.quoteReadSet request) := by
    induction entries using List.reverseRecOn with
    | nil => rfl
    | append_singleton rest entry ih =>
      rw [List.foldl_append, List.foldl_cons, List.foldl_nil, QuoteRegistry.quoteReadSet_insert, ih, List.reverse_append,
        List.reverse_singleton, List.singleton_append, List.find?_cons]
      by_cases h : entry.request = request
      · simp [h]
      · simp [h, Ne.symm h]
  rw [← hfold]
  unfold install
  dsimp only
  split_ifs
  · rfl
  · rfl

theorem limits_install : (install registry entries).quoteReadSetLimits = registry.quoteReadSetLimits := by
  have hfold : (entries.foldl (fun registry entry => registry.insertReadSet entry.request entry.accesses)
      registry).quoteReadSetLimits =
      registry.quoteReadSetLimits := by
    induction entries generalizing registry with
    | nil => rfl
    | cons entry rest ih => exact ih
  rw [← hfold]
  unfold install
  dsimp only
  split_ifs
  · rfl
  · rfl

theorem QuoteRegistry.WithinLimits.install {older : List (QuoteWarmup × StorageAccessList)}
    (h : registry.WithinLimits older) (haccepts : ∀ entry ∈ entries,
    registry.quoteReadSetLimits.accepts entry.accesses = true) :
    (install registry entries).WithinLimits older := by
  have hfold : (entries.foldl (fun registry entry => registry.insertReadSet entry.request entry.accesses)
      registry).WithinLimits older := by
    induction entries generalizing registry with
    | nil => exact h
    | cons entry rest ih =>
      exact ih (h.insert (haccepts entry List.mem_cons_self)) fun other hother =>
        haccepts other (List.mem_cons_of_mem _ hother)
  unfold Quotes.install
  dsimp only
  split_ifs
  · exact hfold
  · exact hfold

end

/-! ### Later runs -/

/-- A later step: a validation against a snapshot, or a hydration over a cache. -/
inductive LaterStep (evm : EvmForkCache)
  | validate (snapshot : EvmSnapshot evm.AccountInfo) (pools : List PoolKey)
  | hydrate (cache : evm.Cache)

def LaterStep.exec (registry : QuoteRegistry evm) : LaterStep evm → QuoteRegistry evm
  | .validate snapshot pools => (validateQuoteReadSets snapshot pools).exec registry
  | .hydrate cache => (hydrateQuoteReadSets registry cache).2.1

/-- The limits are these, and every manifest but the older ones is within them. -/
def Bounded (limits : QuoteReadSetLimits) (older : List (QuoteWarmup × StorageAccessList)) (registry : QuoteRegistry evm) :
    Prop := registry.quoteReadSetLimits = limits ∧ registry.WithinLimits older

section
variable {limits : QuoteReadSetLimits} {older : List (QuoteWarmup × StorageAccessList)}

theorem validateRequest_bounded (snapshot : EvmSnapshot evm.AccountInfo) (request : QuoteWarmup) :
    Triple (Bounded limits older) (validateRequest snapshot request) (fun _ => Bounded limits older)
      (Bounded limits older) := by
  have hlift : ∀ {α : Type} (x : Except QuoteWarmupError α) (registry : QuoteRegistry evm), Bounded limits older registry →
      Triple (fun r => r = registry) (liftM x : Fallible QuoteWarmupError (QuoteRegistry evm) α)
        (fun a r => r = registry ∧ x = .ok a) (Bounded limits older) := by
    intro α x registry hbounded r hr
    obtain rfl := hr
    rw [run_lift]
    cases x with
    | error error => exact hbounded
    | ok a => exact ⟨rfl, rfl⟩
  refine .read fun registry hbounded => (hlift _ registry hbounded).bind fun simulation => ?_
  refine .pre ?_ fun _ h => h.1
  cases validateOne simulation snapshot request with
  | ok quote => exact .pure fun r hr => hr ▸ hbounded
  | error error =>
    cases error with
    | incompleteSnapshot failed missing =>
      refine (hlift _ registry hbounded).bind fun _ => .bind (.sets ?_) fun _ => .throw fun _ h => h
      rintro r ⟨rfl, hlimits⟩
      have haccepts : r.quoteReadSetLimits.accepts ((r.quoteReadSet request).getD ⊥ ⊔ missing) = true := by
        by_contra hlimit
        rw [ensureWithinLimits, if_neg hlimit] at hlimits
        cases hlimits
      exact ⟨hbounded.1, hbounded.2.insert haccepts⟩
    | unknownPool pool => exact .throw fun r hr => hr ▸ hbounded
    | missingAdapter protocol => exact .throw fun r hr => hr ▸ hbounded
    | missingReadSet pool => exact .throw fun r hr => hr ▸ hbounded
    | simulation failed error => exact .throw fun r hr => hr ▸ hbounded
    | replayMismatch failed canonical offline => exact .throw fun r hr => hr ▸ hbounded
    | readSetLimit failed accounts codeHashes slots blockHashes => exact .throw fun r hr => hr ▸ hbounded

theorem validateAll_bounded (snapshot : EvmSnapshot evm.AccountInfo) (requests : List QuoteWarmup) :
    Triple (Bounded limits older) (validateAll snapshot requests) (fun _ => Bounded limits older)
      (Bounded limits older) := by
  induction requests with
  | nil => exact .pure fun _ h => h
  | cons request rest ih => exact (validateRequest_bounded snapshot request).bind fun _ => ih

theorem LaterStep.bounded {registry : QuoteRegistry evm} (h : Bounded limits older registry) (step : LaterStep evm) :
    Bounded limits older (step.exec registry) := by
  cases step with
  | validate snapshot pools =>
    refine Triple.exec (P := Bounded limits older) (.read fun registry hbounded => ?_) h
    cases if registry.quoteReadinessRequired then pools.find? (!registry.hasQuoteReadSet ·) else none with
    | some pool => exact .throw fun r hr => hr ▸ hbounded
    | none =>
      exact (Triple.pre (validateAll_bounded snapshot _) fun r hr => hr ▸ hbounded).bind fun _ => .pure fun _ h => h
  | hydrate cache => exact ⟨h.1, h.2.retain _⟩

/-- Over a run of validations and hydrations the manifests stay within the limits. -/
theorem bounded_run {registry : QuoteRegistry evm} (h : Bounded limits older registry) (steps : List (LaterStep evm)) :
    Bounded limits older (steps.foldl LaterStep.exec registry) := by
  induction steps generalizing registry with
  | nil => exact h
  | cons step rest ih => exact ih (step.bounded h)

end

/-! ### Warming -/

/-- The last time that a batch learned a request. -/
def lastLearning (registry : QuoteRegistry evm) (requests : List QuoteWarmup) (cache : evm.Cache) (request : QuoteWarmup) :
    Option (Learning evm) := (learnings registry requests cache).reverse.find? (·.entry.request = request)

/-- A manifest has what the two simulations read, and replays its quote over every state that agrees on it. -/
structure Replayable (simulation : Simulation evm) (learning : Learning evm) : Prop where
  recorded : directReads simulation learning.before ⊔ callReads simulation learning.before ≤ learning.entry.accesses
  replayed : replayReads simulation (evm.snapshot learning.after) ≤ learning.entry.accesses
  sufficient : ∀ snapshot, EvmSnapshot.AgreesOn learning.entry.accesses (evm.snapshot learning.after) snapshot →
    validateOne simulation snapshot learning.entry.request = .ok learning.entry.quote

/-- The direct reads of the recorded run, and all reads of the replay, are accessed by the calls of the recorded run. -/
def Covered (simulation : Simulation evm) (learning : Learning evm) : Prop :=
  directReads simulation learning.before ≤ callReads simulation learning.before ∧
    replayReads simulation (evm.snapshot learning.after) ≤ callReads simulation learning.before

/-- What warming promises. -/
structure WarmSound (registry : QuoteRegistry evm) (requests : List QuoteWarmup) (cache : evm.Cache) : Prop where
  manifests : ∀ entries registry' cache', warmQuoteReadSets registry requests cache = (.ok entries, registry', cache') →
    ∀ request learning simulation, lastLearning registry requests cache request = some learning →
      registry.resolve request = .ok simulation →
        registry'.quoteReadSet request = some learning.entry.accesses ∧ Replayable simulation learning
  limits : ∀ result registry' cache', warmQuoteReadSets registry requests cache = (result, registry', cache') →
    ∀ steps : List (LaterStep evm), ∀ entry ∈ (steps.foldl LaterStep.exec registry').quoteReadSets,
      registry.quoteReadSetLimits.accepts entry.2 = true ∨ entry ∈ registry.quoteReadSets
  atomic : ∀ error registry' cache', warmQuoteReadSets registry requests cache = (.error error, registry', cache') →
    registry'.quoteReadSets = registry.quoteReadSets ∧
      registry'.quoteReadinessRequired = registry.quoteReadinessRequired

section
variable {registry : QuoteRegistry evm} {requests : List QuoteWarmup} {cache : evm.Cache}

theorem lastLearning_spec {request : QuoteWarmup} {learning : Learning evm}
    (h : lastLearning registry requests cache request = some learning) :
    learning ∈ learnings registry requests cache ∧ learning.entry.request = request :=
  ⟨List.mem_reverse.mp (List.mem_of_find?_eq_some h), by simpa using List.find?_some h⟩

/-- An accepted batch was learned to its end. -/
theorem warm_ok {entries : List QuoteWarmupEntry} {registry' : QuoteRegistry evm} {cache' : evm.Cache}
    (h : warmQuoteReadSets registry requests cache = (.ok entries, registry', cache')) :
    (learnings registry requests cache).map (·.entry) = entries ∧ registry' = install registry entries := by
  unfold warmQuoteReadSets at h
  rcases hlearn : (learnAll registry requests).run.run cache with ⟨error | learned, after⟩
  · rw [hlearn] at h
    cases h
  · rw [hlearn] at h
    obtain ⟨hentries, hrest⟩ := Prod.mk.inj h
    obtain rfl := Except.ok.inj hentries
    exact ⟨learnAll_ok hlearn, (Prod.mk.inj hrest).1.symm⟩

theorem warm_error {error : QuoteWarmupError} {registry' : QuoteRegistry evm} {cache' : evm.Cache}
    (h : warmQuoteReadSets registry requests cache = (.error error, registry', cache')) : registry' = registry := by
  unfold warmQuoteReadSets at h
  rcases hlearn : (learnAll registry requests).run.run cache with ⟨failure | learned, after⟩
  · rw [hlearn] at h
    exact (Prod.mk.inj (Prod.mk.inj h).2).1.symm
  · rw [hlearn] at h
    cases h

/-- What was learned last is stored. -/
theorem stored_lastLearning {entries : List QuoteWarmupEntry} {registry' : QuoteRegistry evm} {cache' : evm.Cache}
    (h : warmQuoteReadSets registry requests cache = (.ok entries, registry', cache')) {request : QuoteWarmup}
    {learning : Learning evm} (hlast : lastLearning registry requests cache request = some learning) :
    registry'.quoteReadSet request = some learning.entry.accesses := by
  obtain ⟨rfl, rfl⟩ := warm_ok h
  rw [quoteReadSet_install, ← List.map_reverse, List.find?_map]
  have hfind : (learnings registry requests cache).reverse.find?
      ((fun entry => decide (entry.request = request)) ∘ fun learning : Learning evm => learning.entry) =
        some learning := hlast
  rw [hfind]
  rfl

theorem replayable_iff (hdet : Deterministic evm) {request : QuoteWarmup} {learning : Learning evm}
    {simulation : Simulation evm} (hlast : lastLearning registry requests cache request = some learning)
    (hresolve : registry.resolve request = .ok simulation) : Replayable simulation learning ↔
      Covered simulation learning := by
  obtain ⟨hmem, hrequest⟩ := lastLearning_spec hlast
  obtain ⟨learned, hlearned, -, haccesses, -, hoffline⟩ := learn_ok (mem_learnings hmem)
  rw [hrequest, hresolve] at hlearned
  obtain rfl := Except.ok.inj hlearned
  constructor
  · intro h
    have hrecorded := h.recorded
    have hreplayed := h.replayed
    rw [haccesses] at hrecorded hreplayed
    exact ⟨le_sup_left.trans hrecorded, hreplayed⟩
  · rintro ⟨hdirect, hreplay⟩
    refine ⟨?_, ?_, fun snapshot hagrees => ?_⟩
    · rw [haccesses]
      exact sup_le hdirect le_rfl
    · rw [haccesses]
      exact hreplay
    · rw [haccesses] at hagrees
      rw [validateOne_congr hdet (hagrees.mono hreplay)]
      exact hoffline

/-- What is stored stays within the limits, and a batch that fails leaves the registry as it was. An accepted batch has
    manifests that are enough exactly where the recorded calls cover the direct reads and the replay. -/
theorem warm_sound_iff (hdet : Deterministic evm) :
    WarmSound registry requests cache ↔
      ∀ entries registry' cache', warmQuoteReadSets registry requests cache = (.ok entries, registry', cache') →
        ∀ request learning simulation, lastLearning registry requests cache request = some learning →
          registry.resolve request = .ok simulation → Covered simulation learning := by
  constructor
  · intro h entries registry' cache' hwarm request learning simulation hlast hresolve
    exact (replayable_iff hdet hlast hresolve).mp (h.manifests _ _ _ hwarm _ _ _ hlast hresolve).2
  · intro hcovered
    refine ⟨fun entries registry' cache' hwarm request learning simulation hlast hresolve => ?_,
      fun result registry' cache' hwarm steps => ?_, fun error registry' cache' hwarm => ?_⟩
    · exact ⟨stored_lastLearning hwarm hlast,
        (replayable_iff hdet hlast hresolve).mpr (hcovered _ _ _ hwarm _ _ _ hlast hresolve)⟩
    · have hbefore : registry.WithinLimits registry.quoteReadSets := fun entry hentry => .inr hentry
      have hbounded : Bounded registry.quoteReadSetLimits registry.quoteReadSets registry' := by
        cases result with
        | error error =>
          rw [warm_error hwarm]
          exact ⟨rfl, hbefore⟩
        | ok entries =>
          obtain ⟨rfl, rfl⟩ := warm_ok hwarm
          refine ⟨limits_install, hbefore.install fun entry hentry => ?_⟩
          obtain ⟨learning, hmem, rfl⟩ := List.mem_map.mp hentry
          obtain ⟨_, -, -, -, haccepts, -⟩ := learn_ok (mem_learnings hmem)
          exact haccepts
      obtain ⟨hsame, hwithin⟩ := bounded_run hbounded steps
      exact fun entry hentry => hsame ▸ hwithin entry hentry
    · rw [warm_error hwarm]
      exact ⟨rfl, rfl⟩

end

/-! ### A cache to learn from -/

/-- A cache of slots over a provider that has 7 in every one. A call reads slot 0 of its target. -/
def forkCache : EvmForkCache where
  AccountInfo := Unit
  StateUpdate := Unit
  StateDiff := Unit
  noDiff := ()
  SlotChange := Unit
  Failure := Unit
  Cache := Map StateSlot U256
  snapshot cache := ⟨⟨1, 100, 1200, 7, 0, 0, 30000000⟩, .empty, .empty, cache, .empty⟩
  storage cache slot := cache.get slot
  cachedStorageValue cache slot := cache.get slot
  applyUpdates cache _ := ((), cache)
  verifySlots cache _ := (.ok [], cache)
  purgeStorage cache _ := ((), cache)
  purgeSlots cache _ _ := ((), cache)
  readStorageSlot cache slot := (.ok 7, cache.insert slot 7)
  readStorageSlots cache slots := (.ok (slots.map fun _ => 7), slots.foldl (·.insert · 7) cache)
  callRawWithAccessList cache call := (.ok (.success [] 0, .ofSlots [⟨call.target, 0⟩]), cache.insert ⟨call.target, 0⟩ 7)
  hydrateReadSet cache _ := (⟨0, 0, [], [], ⊥⟩, cache)
  overlayStorage snapshot slot :=
    ((snapshot.storage.get slot).elim (.error (.backend "missing storage")) .ok, .ofSlots [slot])
  overlayCall snapshot call _ :=
    ((snapshot.storage.get ⟨call.target, 0⟩).elim (.error (.backend "missing storage")) fun _ => .ok (.success [] 0),
      .ofSlots [⟨call.target, 0⟩])

/-- A registry of one pool, whose adapter simulates so. -/
def warmRegistry (simulation : Simulation forkCache) : QuoteRegistry forkCache where
  adapters := [(.uniswapV2, ⟨0, .uniswapV2, [.uniswapV2], by decide, fun _ => .default, fun _ => []⟩)]
  pools := [⟨.uniswapV2 1, [], [], .unknown, .ready⟩]
  protocols_nodup := by decide
  keys_nodup := by decide
  serves := by simp
  family := by simp
  simulateSwap _ _ _ _ _ := simulation
  quoteReadSets := []
  quoteReadSetLimits := .default
  quoteReadinessRequired := false
  requests_nodup := .nil

/-- Quote what slot 0 of the pool holds. -/
def slotQuote : Simulation forkCache :=
  .step (.readStorageSlot ⟨1, 0⟩) fun answer => .done ((answer.map SwapQuote.mk).mapError SimError.execution)

/-- Quote 9 after a call to the pool. -/
def callQuote : Simulation forkCache :=
  .step (.callRaw ⟨0, 1, []⟩ false) fun answer => .done ((answer.map fun _ => SwapQuote.mk 9).mapError SimError.execution)

def warmRequest : QuoteWarmup := ⟨.uniswapV2 1, 2, 3, 100⟩

theorem forkCache_deterministic : Deterministic forkCache where
  storage s t slot h := by
    have hslot : t.storage.get slot = s.storage.get slot :=
      (h.slots slot (by simp [forkCache, StorageAccessList.ofSlots])).symm
    simp only [forkCache, hslot]
  call s t call codeOverrides h := by
    have hslot : t.storage.get ⟨call.target, 0⟩ = s.storage.get ⟨call.target, 0⟩ :=
      (h.slots _ (by simp [forkCache, StorageAccessList.ofSlots])).symm
    simp only [forkCache, hslot]

/-- What the adapter reads from the slot is not part of its manifest, and without it there is no quote. -/
theorem direct_read_not_recorded : ¬WarmSound (warmRegistry slotQuote) [warmRequest] Map.empty := by
  intro h
  obtain ⟨-, hreplayable⟩ := h.manifests _ _ _ rfl warmRequest _ slotQuote rfl rfl
  have hreplay := hreplayable.sufficient (forkCache.snapshot Map.empty) ⟨rfl, nofun, nofun, nofun, nofun⟩
  cases hreplay

/-- The call that the adapter makes is recorded, with the slot that it reads. -/
theorem warm_sound_call : WarmSound (warmRegistry callQuote) [warmRequest] Map.empty := by
  refine (warm_sound_iff forkCache_deterministic).mpr fun _ _ _ _ request learning simulation hlast hresolve => ?_
  obtain ⟨hmem, rfl⟩ := lastLearning_spec hlast
  obtain rfl := List.mem_singleton.mp hmem
  obtain rfl : callQuote = simulation := Except.ok.inj hresolve
  exact ⟨sup_le bot_le bot_le, le_rfl⟩

end AmmState.Quotes
