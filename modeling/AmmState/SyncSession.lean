import AmmState.SyncEngine

/-! A session of the engine (`sync_manager.rs`): any sequence of its operations. A refresh is prepared and committed apart,
    with other operations in between; its token is used up by the commit. -/

namespace AmmState.SyncManager

inductive Operation
  | addPools (registrations : List PoolRegistration)
  | reservePoolGeneration (key : PoolKey)
  | commitPoolReservation (reserved : PoolInstanceId) (registration : PoolRegistration)
  | cancelPoolReservation (reserved : PoolInstanceId)
  | preparePoolRefresh (pool : PoolInstanceId) (replacement : PoolRegistration)
  /-- Commit the outstanding token at a place. -/
  | commitPoolRefresh (place : Nat)
  | acknowledgeLiveDelivery (pools : List PoolInstanceId)
  | removePools (keys : List PoolKey)
  | addAdapter (adapter : AmmAdapter)
  | removeAdapter (protocol : ProtocolId)
  | removeAdapterCascade (protocol : ProtocolId)
  | replaceRegistry (registry : AdapterRegistry)
  | ingestBatch (report : Option IngestReport) (deferRepairs : Bool)

/-- The engine with the refresh tokens that are outstanding, in the order in which they were prepared. -/
structure Session where
  engine : AmmSyncEngine
  tokens : List AmmPreparedPoolRefresh

namespace Session
variable (handlerId : PoolInstanceId → HandlerId)

/-- Take over the engine that an operation leaves. -/
def adopt {α : Type} (session : Session) (outcome : Outcome α) : Except AmmSyncError Unit × Session :=
  (outcome.1.map fun _ => (), { session with engine := outcome.2 })

/-- One operation. -/
def step (session : Session) : Operation → Except AmmSyncError Unit × Session
  | .addPools registrations => session.adopt (session.engine.addPools handlerId registrations)
  | .reservePoolGeneration key => session.adopt (session.engine.reservePoolGeneration key)
  | .commitPoolReservation reserved registration =>
    session.adopt (session.engine.commitPoolReservation handlerId reserved registration)
  | .cancelPoolReservation reserved => session.adopt (session.engine.cancelPoolReservation reserved)
  | .preparePoolRefresh pool replacement =>
    match session.engine.preparePoolRefresh handlerId pool replacement with
    | .error error => (.error error, session)
    | .ok token => (.ok (), { session with tokens := session.tokens ++ [token] })
  | .commitPoolRefresh place =>
    match session.tokens[place]? with
    | none => (.ok (), session)
    | some token =>
      ({ session with tokens := session.tokens.eraseIdx place } : Session).adopt
        (AmmSyncEngine.commitPoolRefresh token session.engine)
  | .acknowledgeLiveDelivery pools => session.adopt (session.engine.acknowledgeLiveDelivery pools)
  | .removePools keys => session.adopt (session.engine.removePools keys)
  | .addAdapter adapter => session.adopt (session.engine.addAdapter adapter)
  | .removeAdapter protocol => session.adopt (session.engine.removeAdapter protocol)
  | .removeAdapterCascade protocol => session.adopt (session.engine.removeAdapterCascade protocol)
  | .replaceRegistry registry => session.adopt (session.engine.replaceRegistry handlerId registry)
  | .ingestBatch report deferRepairs => session.adopt (session.engine.ingestBatch report deferRepairs)

/-- A run of operations; a failed one is passed over. -/
def run (session : Session) (operations : List Operation) : Session :=
  operations.foldl (fun session operation => (session.step handlerId operation).2) session

end Session
end AmmState.SyncManager
