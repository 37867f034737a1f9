import AmmState.Provenance.Machine
import Mathlib.Logic.Function.Basic

/-! What the runs of a machine do for the discovery requests of its clients. A ledger beside the actor names, for each
    discovery work, the request that it serves, and collects the pools that completed work admits for it. The actor does not
    read it. -/

namespace AmmState.Provenance

/-- A request is named by the work that it was queued as; work that retries it serves the same request. -/
structure Ledger where
  serves : RuntimeWorkId → Option RuntimeWorkId
  maxCandidates : RuntimeWorkId → Option Nat
  admitted : RuntimeWorkId → List PoolKey

namespace Ledger

def empty : Ledger := ⟨fun _ => none, fun _ => none, fun _ => []⟩

/-- A client's request is queued. -/
def queue (l : Ledger) (options : AmmDiscoveryOptions) : Except QueueError RuntimeWorkId → Ledger
  | .ok work => ⟨Function.update l.serves work (some work), Function.update l.maxCandidates work options.maxCandidates,
      Function.update l.admitted work []⟩
  | .error _ => l

/-- Work goes on as other work. -/
def retry (l : Ledger) (work : RuntimeWorkId) : Except QueueError RuntimeWorkId → Ledger
  | .ok next => { l with serves := Function.update l.serves next (l.serves work) }
  | .error _ => l

/-- Work admits pools for the request that it serves. -/
def credit (l : Ledger) (work : RuntimeWorkId) (keys : List PoolKey) : Ledger :=
  match l.serves work with
  | some request => { l with admitted := Function.update l.admitted request (l.admitted request ++ keys) }
  | none => l

end Ledger

namespace AmmRuntimeActor

/-- The discovery work that a failure retries: a request of a client whose baseline went stale while its watcher is live. -/
def retried (a : AmmRuntimeActor) (work : RuntimeWorkId) (stale numbered : Bool) : Option AmmScheduledDiscoveryWork :=
  (a.scheduledDiscovery.get work).filter fun scheduled =>
    stale && numbered && scheduled.revalidatePool.isNone && a.isActiveDiscovery scheduled.owner

/-- The registrations that a completion admits. -/
def admits (a : AmmRuntimeActor) (work : RuntimeWorkId) (owner : DiscoveryOwnerId) (report : TokenEdgeDiscoveryReport) :
    List PoolRegistration :=
  match a.scheduledDiscovery.get work, a.watcherProtocols owner with
  | some scheduled, some protocols =>
    if a.acceptsReport scheduled owner report && scheduled.revalidatePool.isNone
    then report.admitted protocols scheduled.maxCandidates else []
  | _, _ => []

end AmmRuntimeActor

/-- What an event does for the requests of clients. -/
def Ledger.record (l : Ledger) (m : Machine) : Event → Ledger
  | .command command =>
    if !m.suspended.isEmpty then l
    else match command with
      | .queueDiscovery owner request options answer =>
        l.queue options (m.actor.queueDiscovery owner request options answer).1
      | .failScheduledWork work stale numbered answer _ =>
        match m.actor.retried work stale numbered with
        | some scheduled =>
          l.retry work ((m.actor.removeDiscoveryWork work).queueDiscovery scheduled.owner scheduled.request
          (AmmDiscoveryOptions.default.withClass scheduled.cls) answer).1
        | none => l
      | .commitScheduledDiscovery work owner report _ _ => l.credit work ((m.actor.admits work owner report).map (·.key))
      | _ => l
  | _ => l

/-- A run of the machine with its ledger. -/
def runLedger (m : Machine) (l : Ledger) : List Event → Machine × Ledger
  | [] => (m, l)
  | event :: events => runLedger (m.step event) (l.record m event) events

end AmmState.Provenance
