import AmmState.SyncSession
import AmmState.Theorems.SyncIngest
import AmmState.Theorems.SyncRegistry

/-! Runs of the engine. Every operation keeps it coherent but one: a refresh whose pool was degraded, or was recovered,
    after the token was prepared moves the counter of degraded pools by the status that the token remembers. A run is
    coherent throughout exactly when it commits no such token. -/

namespace AmmState.SyncManager
open Checked

variable {handlerId : PoolInstanceId → HandlerId} {engine : AmmSyncEngine} {token : AmmPreparedPoolRefresh}

/-! ### Discovery owners -/

theorem discovery_enterPool {batch : List PreparedPoolAddition} (hb : Batch handlerId engine batch)
    (h : Inv handlerId engine) (hnone : NoDiscovery engine) : NoDiscovery (batch.foldl enterPool engine) := by
  intro owner
  rw [(hb.extends h).discovery]
  exact hnone owner

theorem noDiscovery_addPools (h : Inv handlerId engine) (hnone : NoDiscovery engine)
    (registrations : List PoolRegistration) : NoDiscovery (engine.addPools handlerId registrations).2 := by
  rcases addPools_cases h registrations with ⟨error, herror⟩ | ⟨batch, hb, -, hok⟩
  · rw [herror]
    exact hnone
  · rw [hok]
    exact discovery_enterPool hb h hnone

theorem noDiscovery_commitPoolReservation (h : Inv handlerId engine) (hnone : NoDiscovery engine)
    (reserved : PoolInstanceId) (registration : PoolRegistration) :
    NoDiscovery (engine.commitPoolReservation handlerId reserved registration).2 := by
  rcases commitPoolReservation_cases h reserved registration with ⟨error, herror⟩ | ⟨pool, hb, -, -, hok⟩
  · rw [herror]
    exact hnone
  · rw [hok]
    exact discovery_enterPool hb h hnone

theorem noDiscovery_removePools (h : Inv handlerId engine) (hnone : NoDiscovery engine) (keys : List PoolKey) :
    NoDiscovery (engine.removePools keys).2 := by
  rcases removePools_cases h keys with ⟨error, herror⟩ | ⟨pools, howned, hnodup, hok⟩
  · rw [herror]
    exact hnone
  · rw [hok]
    intro owner
    rw [(reduced_dropPools h (fun pool hp => ((howned pool).mp hp).1) hnodup).discovery]
    exact hnone owner

theorem noDiscovery_addAdapter (h : Inv handlerId engine) (hnone : NoDiscovery engine) (adapter : AmmAdapter) :
    NoDiscovery (engine.addAdapter adapter).2 := by
  rcases addAdapter_cases h adapter with ⟨error, herror⟩ | ⟨generation, registry, -, -, -, -, hok⟩
  · rw [herror]
    exact hnone
  · rw [hok]
    intro owner
    show (engine.ownership.insertAdapter ⟨adapter.key, generation⟩).2.discovery.get owner = none
    rcases engine.ownership.insertAdapter_inv ⟨adapter.key, generation⟩ with ⟨error, herror⟩ | ⟨-, hinsert⟩
    · rw [herror]
      exact hnone owner
    · rw [hinsert]
      exact hnone owner

theorem noDiscovery_replaceRegistry (hnone : NoDiscovery engine) (registry : AdapterRegistry) :
    NoDiscovery (engine.replaceRegistry handlerId registry).2 := by
  unfold AmmSyncEngine.replaceRegistry
  cases hreplaced : engine.replaced handlerId registry with
  | error error => exact hnone
  | ok after => exact (replaced_of hreplaced).built.discovery

theorem noDiscovery_refreshed (hnone : NoDiscovery engine) (token : AmmPreparedPoolRefresh) :
    NoDiscovery (refreshed engine token) := by
  intro owner
  show (engine.ownership.replacePool token.replacementOwnership).2.discovery.get owner = none
  rcases engine.ownership.replacePool_inv token.replacementOwnership with ⟨error, herror⟩ | ⟨previous, -, -, -, hok⟩
  · rw [herror]
    exact hnone owner
  · rw [hok]
    exact hnone owner

/-! ### Refreshes and the counter -/

def Degraded (engine : AmmSyncEngine) (key : PoolKey) : Prop :=
  ∃ registration, engine.registry.pool key = some registration ∧ registration.status = .degraded

/-- The token remembers whether its pool is degraded. One that remembers a degraded pool is current too where no pool is
    degraded, since the counter does not go below zero. -/
def Current (engine : AmmSyncEngine) (token : AmmPreparedPoolRefresh) : Prop :=
  if token.previousRegistration.status = .degraded then
    Degraded engine token.instance.key ∨ degradedPools engine.registry = 0
  else ¬ Degraded engine token.instance.key

/-- The token as it would be had it been prepared now. -/
def renewed (token : AmmPreparedPoolRefresh) (registration : PoolRegistration)
    (hkey : registration.key = token.instance.key) : AmmPreparedPoolRefresh :=
  { token with previousRegistration := registration, previous_key := hkey }

/-- A token that an engine has prepared. -/
structure Prepared (handlerId : PoolInstanceId → HandlerId) (token : AmmPreparedPoolRefresh) : Prop extends
    TokenOk handlerId token where
  ready : token.replacementRegistration.status = .ready

theorem prepared_of {pool : PoolInstanceId} {replacement : PoolRegistration}
    (hok : engine.preparePoolRefresh handlerId pool replacement = .ok token) : Prepared handlerId token := by
  obtain ⟨htoken, -, -, -, hreplacement⟩ := preparePoolRefresh_inv hok
  refine ⟨htoken, ?_⟩
  obtain ⟨_, hcheck, -⟩ := bind_eq_ok.mp hok
  obtain ⟨_, -, hcheck⟩ := bind_eq_ok.mp hcheck
  obtain ⟨_, -, hready⟩ := bind_eq_ok.mp hcheck
  rw [hreplacement]
  exact ensure_eq_ok.mp hready

/-- A degraded registration is counted. -/
theorem degradedPools_pos {key : PoolKey} (h : Degraded engine key) : 0 < degradedPools engine.registry := by
  obtain ⟨registration, hregistration, hdegraded⟩ := h
  exact List.countP_pos_iff.mpr ⟨registration, AdapterRegistry.mem_of_pool hregistration, decide_eq_true hdegraded⟩

/-- The counter moves as it would for a token prepared now exactly when the token is current. -/
theorem recount_eq_iff (h : Inv handlerId engine) (ht : Prepared handlerId token) {registration : PoolRegistration}
    (hregistration : engine.registry.pool token.instance.key = some registration) :
    recount engine.degradedPoolCount token.previousRegistration.status token.replacementRegistration.status =
      recount engine.degradedPoolCount registration.status token.replacementRegistration.status ↔ Current engine token := by
  have hnow : Degraded engine token.instance.key ↔ registration.status = .degraded := by
    constructor
    · rintro ⟨other, hother, hdegraded⟩
      rwa [Option.some.inj (hregistration.symm.trans hother)]
    · exact fun hdegraded => ⟨registration, hregistration, hdegraded⟩
  have hpos : registration.status = .degraded → 0 < degradedPools engine.registry :=
    fun hdegraded => degradedPools_pos (hnow.mpr hdegraded)
  rw [Current, hnow, h.degraded, recount, recount, ht.ready]
  by_cases hbefore : token.previousRegistration.status = .degraded <;>
    by_cases hdegraded : registration.status = .degraded <;> simp [hbefore, hdegraded]
  · omega
  · have := hpos hdegraded
    omega

theorem refreshed_renewed {registration : PoolRegistration} (hkey : registration.key = token.instance.key)
    (hcount : recount engine.degradedPoolCount token.previousRegistration.status token.replacementRegistration.status =
      recount engine.degradedPoolCount registration.status token.replacementRegistration.status) :
    refreshed engine token = refreshed engine (renewed token registration hkey) := by
  exact congrArg (fun count => ({ refreshed engine token with degradedPoolCount := count } : AmmSyncEngine)) hcount

/-- The refresh of an accepted token keeps the invariant when the token is current. -/
theorem Inv.refreshed_current (h : Inv handlerId engine) (ht : Prepared handlerId token) (haccepted : Accepted engine token)
    (hcurrent : Current engine token) :
    Inv handlerId (SyncManager.refreshed engine token) ∧ SameDomain engine (SyncManager.refreshed engine token) ∧
      Settled engine (SyncManager.refreshed engine token) := by
  obtain ⟨registration, hregistration⟩ := h.registered_of_owned ⟨_, haccepted⟩
  have hkey := AdapterRegistry.key_of_pool hregistration
  rw [refreshed_renewed hkey ((recount_eq_iff h ht hregistration).mpr hcurrent)]
  exact @Inv.refreshed handlerId engine h (renewed token registration hkey)
    ⟨ht.owner, ht.ownerName, ht.adapter, ht.handlerName, ht.handlerPool⟩ haccepted hregistration

/-- The refresh of an accepted token leaves the counter wrong when the token is not current. -/
theorem current_of_coherent (h : Inv handlerId engine) (ht : Prepared handlerId token) (haccepted : Accepted engine token)
    (hcoherent : Coherent (SyncManager.refreshed engine token)) : Current engine token := by
  obtain ⟨registration, hregistration⟩ := h.registered_of_owned ⟨_, haccepted⟩
  have hkey := AdapterRegistry.key_of_pool hregistration
  obtain ⟨hrenewed, -⟩ := @Inv.refreshed handlerId engine h (renewed token registration hkey)
    ⟨ht.owner, ht.ownerName, ht.adapter, ht.handlerName, ht.handlerPool⟩ haccepted hregistration
  exact (recount_eq_iff h ht hregistration).mp (hcoherent.degraded.trans hrenewed.degraded.symm)

/-! ### One operation -/

namespace Session
variable {session after : Session} {operation : Operation}

/-- What a run carries along. -/
structure Sound (handlerId : PoolInstanceId → HandlerId) (session : Session) : Prop where
  inv : Inv handlerId session.engine
  discovery : NoDiscovery session.engine
  tokens : ∀ token ∈ session.tokens, Prepared handlerId token

/-- A token that is committed and accepted is current. -/
def Meets (session : Session) (operation : Operation) : Prop :=
  ∀ place token, operation = .commitPoolRefresh place → session.tokens[place]? = some token →
    Accepted session.engine token → Current session.engine token

/-- What one operation does. -/
structure Stepped (handlerId : PoolInstanceId → HandlerId) (session : Session)
    (outcome : Except AmmSyncError Unit × Session) : Prop where
  sound : outcome.2.Sound handlerId
  failed : ∀ error, outcome.1 = .error error → outcome.2.engine = session.engine
  grows : Grows session.engine outcome.2.engine
  settled : Settled session.engine outcome.2.engine

theorem Sound.adopt {α : Type} {outcome : Outcome α} (hs : session.Sound handlerId) {tokens : List AmmPreparedPoolRefresh}
    (htokens : ∀ token ∈ tokens, token ∈ session.tokens) (h : SyncManager.Sound handlerId session.engine outcome)
    (hnone : NoDiscovery outcome.2) : Stepped handlerId session (({ session with tokens } : Session).adopt outcome) where
  sound := ⟨h.inv, hnone, fun token htoken => hs.tokens token (htokens token htoken)⟩
  failed error herror := by
    obtain ⟨result, engine⟩ := outcome
    cases result with
    | error error => exact h.failed error rfl
    | ok value => cases herror
  grows := h.grows
  settled := h.settled

theorem Stepped.unchanged {outcome : Except AmmSyncError Unit × Session} (hsound : outcome.2.Sound handlerId)
    (hsame : outcome.2.engine = session.engine) : Stepped handlerId session outcome :=
  ⟨hsound, fun _ _ => hsame, hsame ▸ .refl _, hsame ▸ .refl _⟩

theorem Sound.commit_accepted (hs : session.Sound handlerId) {place : Nat} {token : AmmPreparedPoolRefresh}
    (htoken : session.tokens[place]? = some token) (haccepted : Accepted session.engine token) :
    session.step handlerId (.commitPoolRefresh place) =
      (.ok (), ⟨refreshed session.engine token, session.tokens.eraseIdx place⟩) := by
  have hprepared := hs.tokens token (List.mem_of_getElem? htoken)
  rw [step, htoken]
  simp only [commitPoolRefresh_of_accepted hs.inv hprepared.toTokenOk haccepted]
  rfl

theorem Sound.commit_refused (hs : session.Sound handlerId) {place : Nat} {token : AmmPreparedPoolRefresh}
    (htoken : session.tokens[place]? = some token) (hstale : ¬ Accepted session.engine token) :
    ∃ error, session.step handlerId (.commitPoolRefresh place) =
      (.error error, { session with tokens := session.tokens.eraseIdx place }) := by
  have hprepared := hs.tokens token (List.mem_of_getElem? htoken)
  obtain ⟨error, herror⟩ := (commitPoolRefresh_cases hs.inv hprepared.toTokenOk).resolve_right fun h => hstale h.1
  refine ⟨error, ?_⟩
  rw [step, htoken]
  simp only [herror]
  rfl

theorem Sound.erase (hs : session.Sound handlerId) (place : Nat) :
    ({ session with tokens := session.tokens.eraseIdx place } : Session).Sound handlerId :=
  ⟨hs.inv, hs.discovery, fun token htoken => hs.tokens token (List.mem_of_mem_eraseIdx htoken)⟩

theorem Sound.step (hs : session.Sound handlerId) (hmeets : session.Meets operation) :
    Stepped handlerId session (session.step handlerId operation) := by
  have hkept : ∀ token ∈ session.tokens, token ∈ session.tokens := fun _ htoken => htoken
  cases operation with
  | addPools registrations =>
    exact hs.adopt hkept (hs.inv.addPools registrations).1 (noDiscovery_addPools hs.inv hs.discovery registrations)
  | reservePoolGeneration key =>
    refine hs.adopt hkept (hs.inv.reservePoolGeneration key).1 ?_
    unfold AmmSyncEngine.reservePoolGeneration
    split <;> exact hs.discovery
  | commitPoolReservation reserved registration =>
    exact hs.adopt hkept (hs.inv.commitPoolReservation reserved registration).1
      (noDiscovery_commitPoolReservation hs.inv hs.discovery reserved registration)
  | cancelPoolReservation reserved =>
    refine hs.adopt hkept (hs.inv.cancelPoolReservation reserved).1 ?_
    unfold AmmSyncEngine.cancelPoolReservation
    split_ifs <;> exact hs.discovery
  | preparePoolRefresh pool replacement =>
    rw [Session.step]
    cases hprepared : session.engine.preparePoolRefresh handlerId pool replacement with
    | error error => exact .unchanged hs rfl
    | ok token =>
      refine .unchanged ⟨hs.inv, hs.discovery, fun other hother => ?_⟩ rfl
      rcases List.mem_append.mp hother with hold | hnew
      · exact hs.tokens other hold
      · rw [List.mem_singleton.mp hnew]
        exact prepared_of hprepared
  | commitPoolRefresh place =>
    cases htoken : session.tokens[place]? with
    | none =>
      rw [Session.step, htoken]
      exact .unchanged hs rfl
    | some token =>
      have hprepared := hs.tokens token (List.mem_of_getElem? htoken)
      by_cases haccepted : Accepted session.engine token
      · rw [hs.commit_accepted htoken haccepted]
        obtain ⟨hinv, hdomain, hsettled⟩ :=
          hs.inv.refreshed_current hprepared haccepted (hmeets place token rfl htoken haccepted)
        exact ⟨⟨hinv, noDiscovery_refreshed hs.discovery token, (hs.erase place).tokens⟩, fun _ herror => (by cases herror),
          hdomain.grows, hsettled⟩
      · obtain ⟨error, herror⟩ := hs.commit_refused htoken haccepted
        rw [herror]
        exact .unchanged (hs.erase place) rfl
  | acknowledgeLiveDelivery pools =>
    refine hs.adopt hkept (hs.inv.acknowledgeLiveDelivery pools).1 ?_
    unfold AmmSyncEngine.acknowledgeLiveDelivery
    split <;> exact hs.discovery
  | removePools keys => exact hs.adopt hkept (hs.inv.removePools keys).1 (noDiscovery_removePools hs.inv hs.discovery keys)
  | addAdapter adapter =>
    exact hs.adopt hkept (hs.inv.addAdapter adapter).1 (noDiscovery_addAdapter hs.inv hs.discovery adapter)
  | removeAdapter protocol =>
    obtain ⟨hsound, -, hsame⟩ := hs.inv.removeAdapter protocol
    exact hs.adopt hkept hsound fun owner => (congrArg (Map.get · owner) hsame).trans (hs.discovery owner)
  | removeAdapterCascade protocol =>
    obtain ⟨hsound, -, hsame⟩ := hs.inv.removeAdapterCascade hs.discovery protocol
    exact hs.adopt hkept hsound fun owner => (congrArg (Map.get · owner) hsame).trans (hs.discovery owner)
  | replaceRegistry registry =>
    exact hs.adopt hkept (hs.inv.replaceRegistry registry).1 (noDiscovery_replaceRegistry hs.discovery registry)
  | ingestBatch report deferRepairs =>
    obtain ⟨hsound, hsame⟩ := hs.inv.ingestBatch report deferRepairs
    exact hs.adopt hkept hsound fun owner => (congrArg (Map.get · owner) hsame.discovery).trans (hs.discovery owner)

/-- An operation that fails leaves the engine as it was. -/
theorem Sound.failed (hs : session.Sound handlerId) {error : AmmSyncError}
    (herror : (session.step handlerId operation).1 = .error error) :
    (session.step handlerId operation).2.engine = session.engine := by
  refine (hs.step ?_).failed error herror
  rintro place token rfl htoken haccepted
  rw [hs.commit_accepted htoken haccepted] at herror
  cases herror

/-- An operation that does not meet the condition leaves an engine that is not coherent. -/
theorem Sound.meets_of_coherent (hs : session.Sound handlerId)
    (hcoherent : Coherent (session.step handlerId operation).2.engine) : session.Meets operation := by
  rintro place token rfl htoken haccepted
  rw [hs.commit_accepted htoken haccepted] at hcoherent
  exact current_of_coherent hs.inv (hs.tokens token (List.mem_of_getElem? htoken)) haccepted hcoherent

/-! ### Runs -/

theorem run_append (session : Session) (done rest : List Operation) :
    session.run handlerId (done ++ rest) = (session.run handlerId done).run handlerId rest := List.foldl_append ..

/-- Every operation of a run meets the condition where it is performed. -/
def AllMeet (handlerId : PoolInstanceId → HandlerId) (session : Session) (operations : List Operation) : Prop :=
  ∀ done operation rest, operations = done ++ operation :: rest → (session.run handlerId done).Meets operation

theorem allMeet_of_no_commit {operations : List Operation} (h : ∀ place, .commitPoolRefresh place ∉ operations) :
    AllMeet handlerId session operations := by
  rintro done operation rest rfl place token rfl
  exact absurd (List.mem_append_right done List.mem_cons_self) (h place)

theorem AllMeet.tail {rest : List Operation} (h : AllMeet handlerId session (operation :: rest)) :
    AllMeet handlerId (session.step handlerId operation).2 rest := by
  rintro done next last rfl
  exact h (operation :: done) next last rfl

theorem AllMeet.append {done rest : List Operation} (h : AllMeet handlerId session (done ++ rest)) :
    AllMeet handlerId session done ∧ AllMeet handlerId (session.run handlerId done) rest := by
  refine ⟨?_, ?_⟩
  · rintro first next last rfl
    exact h first next (last ++ rest) (by rw [List.append_assoc, List.cons_append])
  · rintro first next last rfl
    rw [← run_append]
    exact h (done ++ first) next last (List.append_assoc ..).symm

theorem Sound.run {operations : List Operation} (hs : session.Sound handlerId)
    (hmeets : AllMeet handlerId session operations) : (session.run handlerId operations).Sound handlerId := by
  induction operations generalizing session with
  | nil => exact hs
  | cons operation rest ih => exact ih (hs.step (hmeets [] operation rest rfl)).sound hmeets.tail

/-- A sound session stays coherent through a run exactly when every operation of the run meets the condition. -/
theorem Sound.coherent_iff {operations : List Operation} (hs : session.Sound handlerId) :
    (∀ done rest, operations = done ++ rest → Coherent (session.run handlerId done).engine) ↔
      AllMeet handlerId session operations := by
  constructor
  · intro hcoherent
    induction operations generalizing session with
    | nil =>
      intro done operation rest heq
      exact absurd heq.symm (List.append_ne_nil_of_right_ne_nil done (List.cons_ne_nil operation rest))
    | cons operation rest ih =>
      have hmeets := hs.meets_of_coherent (hcoherent [operation] rest rfl)
      have hrest := ih (hs.step hmeets).sound fun done last heq => hcoherent (operation :: done) last (congrArg _ heq)
      intro done next last heq
      cases done with
      | nil =>
        obtain ⟨rfl, rfl⟩ := List.cons.inj heq
        exact hmeets
      | cons first done =>
        obtain ⟨rfl, rfl⟩ := List.cons.inj heq
        exact hrest done next last rfl
  · rintro hmeets done rest rfl
    exact (hs.run hmeets.append.1).inv.toCoherent

/-! ### Generations over a run -/

/-- What a later engine of a run knows of an earlier one: every generation that was accepted, and none below those of its
    key among the new ones; what was removed stays removed. -/
structure Later (before after : AmmSyncEngine) : Prop where
  pools : ∀ pool state, before.lifecycles.pools.get pool = some state →
    ∃ state', after.lifecycles.pools.get pool = some state'
  newPools : ∀ pool state, before.lifecycles.pools.get pool = none → after.lifecycles.pools.get pool = some state →
    ∀ other state', before.lifecycles.pools.get other = some state' → other.key = pool.key →
      other.generation < pool.generation
  adapters : ∀ adapter state, before.lifecycles.adapters.get adapter = some state →
    ∃ state', after.lifecycles.adapters.get adapter = some state'
  newAdapters : ∀ adapter state, before.lifecycles.adapters.get adapter = none →
    after.lifecycles.adapters.get adapter = some state →
      ∀ other state', before.lifecycles.adapters.get other = some state' →
      other.key = adapter.key → other.generation < adapter.generation
  settled : Settled before after

theorem Later.refl (engine : AmmSyncEngine) : Later engine engine where
  pools _ state h := ⟨state, h⟩
  newPools _ _ hnone hsome := by cases hnone.symm.trans hsome
  adapters _ state h := ⟨state, h⟩
  newAdapters _ _ hnone hsome := by cases hnone.symm.trans hsome
  settled := .refl engine

theorem Later.trans {a b c : AmmSyncEngine} (hab : Later a b) (hbc : Later b c) : Later a c where
  pools pool state hstate := by
    obtain ⟨state', hstate'⟩ := hab.pools pool state hstate
    exact hbc.pools pool state' hstate'
  newPools pool state hnone hsome other state' hother hkey := by
    cases hmiddle : b.lifecycles.pools.get pool with
    | none =>
      obtain ⟨state'', hkept⟩ := hab.pools other state' hother
      exact hbc.newPools pool state hmiddle hsome other state'' hkept hkey
    | some middle => exact hab.newPools pool middle hnone hmiddle other state' hother hkey
  adapters adapter state hstate := by
    obtain ⟨state', hstate'⟩ := hab.adapters adapter state hstate
    exact hbc.adapters adapter state' hstate'
  newAdapters adapter state hnone hsome other state' hother hkey := by
    cases hmiddle : b.lifecycles.adapters.get adapter with
    | none =>
      obtain ⟨state'', hkept⟩ := hab.adapters other state' hother
      exact hbc.newAdapters adapter state hmiddle hsome other state'' hkept hkey
    | some middle => exact hab.newAdapters adapter middle hnone hmiddle other state' hother hkey
  settled := hab.settled.trans hbc.settled

theorem Stepped.later {outcome : Except AmmSyncError Unit × Session} (h : Stepped handlerId session outcome) :
    Later session.engine outcome.2.engine where
  pools := h.grows.poolsKept
  newPools pool state hnone hsome other state' hother hkey := by
    obtain ⟨state'', hkept⟩ := h.grows.poolsKept other state' hother
    refine h.grows.newPool pool state hnone hsome other state'' hkept hkey ?_
    rintro rfl
    cases hnone.symm.trans hother
  adapters := h.grows.adaptersKept
  newAdapters adapter state hnone hsome other state' hother hkey := by
    obtain ⟨state'', hkept⟩ := h.grows.adaptersKept other state' hother
    refine h.grows.newAdapter adapter state hnone hsome other state'' hkept hkey ?_
    rintro rfl
    cases hnone.symm.trans hother
  settled := h.settled

theorem Sound.later {operations : List Operation} (hs : session.Sound handlerId)
    (hmeets : AllMeet handlerId session operations) : Later session.engine (session.run handlerId operations).engine := by
  induction operations generalizing session with
  | nil => exact .refl _
  | cons operation rest ih =>
    have hstep := hs.step (hmeets [] operation rest rfl)
    exact hstep.later.trans (ih hstep.sound hmeets.tail)

/-- The token of a generation that was removed is refused. -/
theorem Sound.refused_of_removed (hs : session.Sound handlerId) {place : Nat} {token : AmmPreparedPoolRefresh}
    (htoken : session.tokens[place]? = some token)
    (hremoved : session.engine.lifecycles.pools.get token.instance = some .removed) :
    ∃ error, session.step handlerId (.commitPoolRefresh place) =
      (.error error, { session with tokens := session.tokens.eraseIdx place }) := by
  refine hs.commit_refused htoken fun haccepted => ?_
  obtain ⟨state, hstate, hne, -⟩ := hs.inv.state_of_owned ⟨_, haccepted⟩
  exact hne (Option.some.inj (hstate.symm.trans hremoved))

end Session

variable {registry : AdapterRegistry}

theorem sound_withConfig (hok : AmmSyncEngine.withConfig handlerId registry = .ok engine) :
    (⟨engine, []⟩ : Session).Sound handlerId := by
  obtain ⟨hinv, hnone⟩ := inv_withConfig hok
  exact ⟨hinv, hnone, fun _ htoken => absurd htoken List.not_mem_nil⟩

/-- The engine that is built from a registry stays coherent through a run exactly when every refresh that the run commits
    for the present ownership record has a token that is current. -/
theorem run_coherent_iff (hok : AmmSyncEngine.withConfig handlerId registry = .ok engine) (operations : List Operation) :
    (∀ done rest, operations = done ++ rest → Coherent ((⟨engine, []⟩ : Session).run handlerId done).engine) ↔
      (⟨engine, []⟩ : Session).AllMeet handlerId operations :=
  (sound_withConfig hok).coherent_iff

/-- Over a run that meets the condition: a later engine knows every generation that an earlier one has accepted, gives
    every key only generations above those, and never brings back one that was removed; the tokens of such a one are
    refused; and an operation that fails changes no field of this engine: registry, routing, ownership, handlers,
    generations, reservations, lifecycles and count. A failed ingest may still change the reactive runtime, the eviction
    fences and the recovery targets, which the engine here leaves out. -/
theorem run_generations (hok : AmmSyncEngine.withConfig handlerId registry = .ok engine) {done rest : List Operation}
    (hmeets : (⟨engine, []⟩ : Session).AllMeet handlerId (done ++ rest)) :
    Session.Later ((⟨engine, []⟩ : Session).run handlerId done).engine
        ((⟨engine, []⟩ : Session).run handlerId (done ++ rest)).engine ∧
      (∀ pool, ((⟨engine, []⟩ : Session).run handlerId done).engine.lifecycles.pools.get pool = some .removed →
        ¬ Owned ((⟨engine, []⟩ : Session).run handlerId (done ++ rest)).engine pool ∧
        ∀ place token, ((⟨engine, []⟩ : Session).run handlerId (done ++ rest)).tokens[place]? = some token →
          token.instance = pool → ∃ error, (((⟨engine, []⟩ : Session).run handlerId (done ++ rest)).step handlerId
            (.commitPoolRefresh place)).1 = .error error) ∧
      ∀ operation error, (((⟨engine, []⟩ : Session).run handlerId done).step handlerId operation).1 = .error error →
        (((⟨engine, []⟩ : Session).run handlerId done).step handlerId operation).2.engine =
          ((⟨engine, []⟩ : Session).run handlerId done).engine := by
  have hstart := sound_withConfig hok
  obtain ⟨hbefore, hafter⟩ := hmeets.append
  have hdone := hstart.run hbefore
  have hall := hstart.run hmeets
  have hlater := hdone.later hafter
  rw [← Session.run_append] at hlater
  refine ⟨hlater, fun pool hremoved => ?_, fun operation error herror => hdone.failed herror⟩
  obtain ⟨state, hstate, -, hkept⟩ := hlater.settled pool .removed hremoved fun hqueued => by cases hqueued
  obtain rfl := hkept rfl
  refine ⟨fun howned => ?_, fun place token htoken hpool => ?_⟩
  · obtain ⟨state, hother, hne, -⟩ := hall.inv.state_of_owned howned
    exact hne (Option.some.inj (hother.symm.trans hstate))
  · obtain ⟨error, herror⟩ := hall.refused_of_removed htoken (hpool ▸ hstate)
    exact ⟨error, congrArg Prod.fst herror⟩

/-! ### A pool whose refresh is pending -/

namespace Pending

def adapter : AmmAdapter := ⟨0, .uniswapV2, [.uniswapV2], List.mem_singleton_self _, fun _ => .default, fun _ => []⟩

def pool : PoolInstanceId := ⟨.uniswapV2 1, 0⟩

def registration : PoolRegistration := ⟨pool.key, [], [], .unknown, .ready⟩

def name (_ : PoolInstanceId) : HandlerId := ⟨"pool"⟩

def start : List Operation := [.addAdapter adapter, .addPools [registration], .preparePoolRefresh pool registration]

theorem withConfig_empty : AmmSyncEngine.withConfig name .empty = .ok .empty := rfl

/-- A batch that leaves a log of the pool undecoded. -/
def undecoded : IngestReport := ⟨false, [], [], [pool.key], [], [], [], [], false, []⟩

/-- The pool is degraded between the preparation and the commit. -/
def degraded : List Operation := start ++ [.ingestBatch (some undecoded) false, .commitPoolRefresh 0]

/-- The pool is removed, and added again under its next generation. -/
def removed : List Operation := start ++ [.removePools [pool.key]]

def readded : List Operation := [.addPools [registration]]

end Pending

/-- The refresh sets a pool that was degraded ready, and the counter still counts it. -/
theorem run_coherent_iff_degraded : ¬ (⟨.empty, []⟩ : Session).AllMeet Pending.name Pending.degraded := by
  intro hmeets
  have hcoherent := (run_coherent_iff Pending.withConfig_empty Pending.degraded).mpr hmeets Pending.degraded []
    (List.append_nil _).symm
  have hdrift : ((⟨.empty, []⟩ : Session).run Pending.name Pending.degraded).engine.degradedPoolCount ≠
      degradedPools ((⟨.empty, []⟩ : Session).run Pending.name Pending.degraded).engine.registry := by
    decide +kernel
  exact hdrift hcoherent.degraded

/-- The token of the removed generation is outstanding, and refused. -/
theorem run_generations_removed : ∃ error, (((⟨.empty, []⟩ : Session).run Pending.name
    (Pending.removed ++ Pending.readded)).step Pending.name (.commitPoolRefresh 0)).1 = .error error := by
  have hmeets : (⟨.empty, []⟩ : Session).AllMeet Pending.name (Pending.removed ++ Pending.readded) :=
    Session.allMeet_of_no_commit (by simp [Pending.removed, Pending.start, Pending.readded])
  obtain ⟨-, hremoved, -⟩ := run_generations Pending.withConfig_empty hmeets
  have htoken : (((⟨.empty, []⟩ : Session).run Pending.name (Pending.removed ++ Pending.readded)).tokens[0]?).any
      (·.instance = Pending.pool) = true := by decide +kernel
  obtain ⟨token, hget, hpool⟩ := (Option.any_eq_true _ _).mp htoken
  exact (hremoved Pending.pool (by decide +kernel)).2 0 token hget (of_decide_eq_true hpool)

end AmmState.SyncManager
