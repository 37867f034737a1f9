import AmmState.Theorems.SyncEngine

/-! An ingest of a coherent engine. It tracks the resyncs that the handlers ask for, degrades and recovers pools, and
    untracks the resyncs again; where a handler asks for a resync that belongs to another pool, it changes nothing. -/

namespace AmmState.SyncManager
open Checked

variable {handlerId : PoolInstanceId → HandlerId} {engine : AmmSyncEngine}

/-! ### Resyncs -/

namespace Ownership
variable {x y z : AmmOwnershipIndex}

/-- The same pools, adapters and discovery owners; their work and their resyncs may differ. -/
structure SameMembers (x y : AmmOwnershipIndex) : Prop where
  pools : y.pools = x.pools
  adapters : y.adapters = x.adapters
  discovery : y.discovery = x.discovery

theorem SameMembers.refl (x : AmmOwnershipIndex) : SameMembers x x := ⟨rfl, rfl, rfl⟩

theorem SameMembers.trans (hxy : SameMembers x y) (hyz : SameMembers y z) : SameMembers x z :=
  ⟨hyz.pools.trans hxy.pools, hyz.adapters.trans hxy.adapters, hyz.discovery.trans hxy.discovery⟩

/-- Resyncs of owned pools that no pool asks for yet, each once. -/
structure Trackable (x : AmmOwnershipIndex) (pending : List (PoolInstanceId × ResyncId)) : Prop where
  owned : ∀ entry ∈ pending, ∃ o, x.pools.get entry.1 = some o
  free : ∀ entry ∈ pending, x.resyncOwners.get entry.2 = none
  nodup : (pending.map Prod.snd).Nodup

theorem trackPending_of {pending : List (PoolInstanceId × ResyncId)} (hx : x.Inv) (h : Trackable x pending) :
    ∃ y, trackPending pending x = (.ok (), y) ∧ y.Inv ∧ SameMembers x y := by
  induction pending generalizing x with
  | nil => exact ⟨x, rfl, hx, .refl x⟩
  | cons entry rest ih =>
    obtain ⟨pool, resync⟩ := entry
    obtain ⟨hnew, hnodup⟩ := List.nodup_cons.mp h.nodup
    have hfirst := hx.trackResync pool resync
    rcases x.trackResync_inv pool resync with ⟨error, herror⟩ | ⟨-, -, hok⟩
    · have hpool := Map.contains_iff.mpr (h.owned _ List.mem_cons_self)
      have hfree := Map.contains_eq_false.mpr (h.free _ List.mem_cons_self)
      rw [AmmOwnershipIndex.trackResync] at herror
      simp only [hpool, hfree, Bool.not_true, Bool.false_eq_true, if_false] at herror
      cases congrArg Prod.fst herror
    · rw [hok] at hfirst
      have hfree : ∀ entry ∈ rest, (x.resyncOwners.insert resync pool).get entry.2 = none := by
        intro entry hentry
        have hne : entry.2 ≠ resync := fun heq => hnew (List.mem_map.mpr ⟨entry, hentry, heq⟩)
        exact (Map.get_insert_of_ne hne).trans (h.free entry (List.mem_cons_of_mem _ hentry))
      obtain ⟨y, htrack, hy, hsame⟩ :=
        ih hfirst ⟨fun entry hentry => h.owned entry (List.mem_cons_of_mem _ hentry), hfree, hnodup⟩
      exact ⟨y, by rw [trackPending, hok]; exact htrack, hy, hsame.pools, hsame.adapters, hsame.discovery⟩

theorem foldl_untrackResync (tracked : List ResyncId) (hx : x.Inv) :
    (tracked.foldl (fun ownership resync => (ownership.untrackResync resync).2) x).Inv ∧
      SameMembers x (tracked.foldl (fun ownership resync => (ownership.untrackResync resync).2) x) := by
  induction tracked generalizing x with
  | nil => exact ⟨hx, .refl x⟩
  | cons resync rest ih =>
    have hsame : SameMembers x (x.untrackResync resync).2 := by
      unfold AmmOwnershipIndex.untrackResync
      split
      · exact .refl x
      · split <;> exact ⟨rfl, rfl, rfl⟩
    obtain ⟨hinv, hrest⟩ := ih (hx.untrackResync resync)
    exact ⟨hinv, hsame.trans hrest⟩

end Ownership

namespace Tracking
open Ownership
variable {ownership : AmmOwnershipIndex} {tracking tracking' : Tracking}

theorem push_pending (tracking : Tracking) (id : ResyncId) : (tracking.push id).pending = tracking.pending := by
  unfold push
  split_ifs <;> rfl

/-- A request keeps what is pending trackable. -/
theorem request_trackable {pool : PoolInstanceId} {id : ResyncId} (hpool : ∃ o, ownership.pools.get pool = some o)
    (hok : request ownership pool tracking id = .ok tracking') (h : Trackable ownership tracking.pending) :
    Trackable ownership tracking'.pending := by
  unfold request at hok
  cases howner : ownership.resyncOwners.get id with
  | some owner =>
    rw [howner] at hok
    dsimp only at hok
    split_ifs at hok
    rwa [← Except.ok.inj hok, push_pending]
  | none =>
    rw [howner] at hok
    dsimp only at hok
    split at hok
    · split_ifs at hok
      rwa [← Except.ok.inj hok, push_pending]
    · next hfresh =>
      rw [← Except.ok.inj hok, push_pending]
      have hnew : id ∉ tracking.pending.map Prod.snd := by
        intro hmem
        obtain ⟨entry, hentry, heq⟩ := List.mem_map.mp hmem
        exact List.find?_eq_none.mp hfresh entry hentry (decide_eq_true heq)
      refine ⟨fun entry hentry => ?_, fun entry hentry => ?_, ?_⟩
      · rcases List.mem_append.mp hentry with hold | hlast
        · exact h.owned entry hold
        · rw [List.mem_singleton.mp hlast]
          exact hpool
      · rcases List.mem_append.mp hentry with hold | hlast
        · exact h.free entry hold
        · rw [List.mem_singleton.mp hlast]
          exact howner
      · rw [List.map_append, List.nodup_append]
        refine ⟨h.nodup, List.nodup_singleton _, fun a ha b hb heq => hnew ?_⟩
        rwa [heq, List.mem_singleton.mp hb] at ha

theorem applied_trackable (hx : ownership.Inv) {effects : HandlerId × List ResyncId}
    (hok : applied ownership tracking effects = .ok tracking') (h : Trackable ownership tracking.pending) :
    Trackable ownership tracking'.pending := by
  unfold applied at hok
  cases hpool : ownership.handlerPools.get effects.1 with
  | none =>
    rw [hpool] at hok
    rwa [← Except.ok.inj hok]
  | some pool =>
    rw [hpool] at hok
    obtain ⟨o, ho, -⟩ := (hx.handlerPools _ _).mp hpool
    exact foldlM_induct (fun _ tracking => Trackable ownership tracking.pending) hok h
      fun _ _ _ _ _ h hok => request_trackable ⟨o, ho⟩ hok h

end Tracking

/-- Tracking the resyncs of a report fails before it changes the index, or tracks them all. -/
theorem Inv.trackReportResyncs_cases (h : Inv handlerId engine) (report : IngestReport) :
    (∃ error, engine.trackReportResyncs report = (.error error, engine)) ∨
    ∃ tracked ownership, ownership.Inv ∧ Ownership.SameMembers engine.ownership ownership ∧
      engine.trackReportResyncs report = (.ok tracked, { engine with ownership }) := by
  unfold AmmSyncEngine.trackReportResyncs
  cases htracking : report.applied.foldlM (Tracking.applied engine.ownership) ⟨[], []⟩ with
  | error error => exact .inl ⟨error, rfl⟩
  | ok tracking =>
    have hstart : Ownership.Trackable engine.ownership [] :=
      ⟨fun _ hentry => absurd hentry List.not_mem_nil, fun _ hentry => absurd hentry List.not_mem_nil, .nil⟩
    have htrackable : Ownership.Trackable engine.ownership tracking.pending :=
      foldlM_induct (fun _ tracking => Ownership.Trackable engine.ownership tracking.pending) htracking hstart
        fun _ _ _ _ _ h' hok => Tracking.applied_trackable h.ownership hok h'
    obtain ⟨ownership, htrack, hinv, hsame⟩ := Ownership.trackPending_of h.ownership htrackable
    exact .inr ⟨tracking.tracked, ownership, hinv, hsame, by simp only [htrack]⟩

/-! ### The ingest -/

/-- The engine reads the members of the index, not their work or their resyncs. -/
theorem Inv.sameMembers (h : Inv handlerId engine) {ownership : AmmOwnershipIndex} (hinv : ownership.Inv)
    (hsame : Ownership.SameMembers engine.ownership ownership) :
    Inv handlerId { engine with ownership } ∧ SameDomain engine { engine with ownership } ∧
      Settled engine { engine with ownership } := by
  have howned : ∀ p, Owned { engine with ownership } p ↔ Owned engine p := fun p => by rw [Owned, hsame.pools, Owned]
  have hnames : ∀ p o, ownership.pools.get p = some o → o.handler = handlerId p := hsame.pools ▸ h.handlerNames
  refine ⟨⟨{ h.toCoherent with
    ownership := hinv
    registered := fun key => (h.registered key).trans (exists_congr fun p => and_congr_left fun _ => (howned p).symm)
    handlers := handlers_coherent hinv hnames fun name p => h.handlers_iff.trans (and_congr_left fun _ => (howned p).symm)
    adapters := ?_
    lifecyclePools := fun p => (h.lifecyclePools p).trans (howned p).symm
    lifecycleAdapters := ?_ }, hnames, h.reservationKeys, h.reserved, h.poolLedger, h.adapterLedger, ?_⟩,
    ⟨fun _ => .rfl, fun _ => .rfl⟩, fun _ state hstate hne => ⟨state, hstate, hne, id⟩⟩
  · rw [hsame.adapters]
    exact h.adapters
  · rw [hsame.adapters]
    exact h.lifecycleAdapters
  · rw [hsame.pools]
    exact h.serves

theorem ownership_setPoolStatus (status : PoolStatus) (engine : AmmSyncEngine) (key : PoolKey) :
    (engine.setPoolStatus status key).ownership = engine.ownership := by
  unfold AmmSyncEngine.setPoolStatus
  split <;> rfl

theorem Inv.setPoolStatuses (h : Inv handlerId engine) (status : PoolStatus) (keys : List PoolKey) :
    Inv handlerId (keys.foldl (AmmSyncEngine.setPoolStatus status) engine) ∧
      SameDomain engine (keys.foldl (AmmSyncEngine.setPoolStatus status) engine) ∧
      Settled engine (keys.foldl (AmmSyncEngine.setPoolStatus status) engine) ∧
      (keys.foldl (AmmSyncEngine.setPoolStatus status) engine).ownership = engine.ownership := by
  induction keys generalizing engine with
  | nil => exact ⟨h, .refl _, .refl _, rfl⟩
  | cons key rest ih =>
    obtain ⟨hinv, hdomain, hsettled⟩ := h.setPoolStatus status key
    obtain ⟨hinv', hdomain', hsettled', hsame⟩ := ih hinv
    exact ⟨hinv', hdomain.trans hdomain', hsettled.trans hsettled', hsame.trans (ownership_setPoolStatus status engine key)⟩

/-- An ingest keeps the engine coherent and its members as they were; it fails before it changes anything. -/
theorem Inv.ingestBatch (h : Inv handlerId engine) (report : Option IngestReport) (deferRepairs : Bool) :
    Sound handlerId engine (engine.ingestBatch report deferRepairs) ∧
      Ownership.SameMembers engine.ownership (engine.ingestBatch report deferRepairs).2.ownership := by
  cases report with
  | none => exact ⟨.unchanged h rfl, .refl _⟩
  | some report =>
    unfold AmmSyncEngine.ingestBatch AmmSyncEngine.finishIngest
    dsimp only
    by_cases hpre : report.preconfirmation = true
    · rw [if_pos hpre]
      exact ⟨.unchanged h rfl, .refl _⟩
    · rw [if_neg hpre]
      rcases h.trackReportResyncs_cases report with ⟨error, herror⟩ | ⟨tracked, ownership, hindex, hmembers, hok⟩
      · rw [herror]
        exact ⟨.unchanged h rfl, .refl _⟩
      · rw [hok]
        dsimp only
        obtain ⟨htracked, hdomain, hsettled⟩ := h.sameMembers hindex hmembers
        set keys := AmmSyncEngine.degradedBy report deferRepairs { engine with ownership }
        obtain ⟨hdegraded, hdomain', hsettled', hsame⟩ := htracked.setPoolStatuses .degraded keys
        set degraded := keys.foldl (AmmSyncEngine.setPoolStatus .degraded) { engine with ownership }
        obtain ⟨hrecovered, hdomain'', hsettled'', hsame'⟩ :=
          hdegraded.setPoolStatuses .ready (AmmSyncEngine.recoveredBy report keys degraded)
        obtain ⟨huntracked, hmembers'⟩ := Ownership.foldl_untrackResync tracked hrecovered.ownership
        obtain ⟨hinv, hdomain''', hsettled'''⟩ := hrecovered.sameMembers huntracked hmembers'
        refine ⟨⟨hinv, fun _ herror => (by cases herror), ?_, ?_⟩, ?_⟩
        · exact (((hdomain.trans hdomain').trans hdomain'').trans hdomain''').grows
        · exact ((hsettled.trans hsettled').trans hsettled'').trans hsettled'''
        · have hbase := hsame'.trans hsame
          exact hmembers.trans ⟨hmembers'.pools.trans (congrArg _ hbase), hmembers'.adapters.trans (congrArg _ hbase),
            hmembers'.discovery.trans (congrArg _ hbase)⟩

end AmmState.SyncManager
