import GaiaServer.Framework.Slice
import GaiaServer.Impl.Planetary.StateHub

/-!
# The planetary state service and the memory replay

`planetary_state_push`, `planetary_state_snapshot` and `memory_replay` of
`gaia_server/ipc/grpc_server.py`. The server is the hub that it is wired to, if it
is, and what the substrate's memory replays is given; its other services dispatch
into gaia_core and are left out.
-/

namespace Gaia.Planetary

variable {ν Φ : Type}

/-- The acknowledgement of a push. -/
structure PushAck (ν : Type) where
  accepted : Bool
  nodeId : String
  timestamp : Option ν := none
  reason : Option String := none

/-- The reply to a request for a snapshot. -/
inductive SnapshotReply (ν Φ : Type)
  | error (error : String) (nodeId : Option String)
  | fleet (summary : FleetSummary ν Φ)
  | node (snapshot : PlanetarySnapshot ν Φ) (observationCount : Nat)

structure GaiaGrpcServer (ν Φ : Type) where
  planetaryHub : Option (PlanetaryStateHub ν Φ)

namespace GaiaGrpcServer

variable (server : GaiaGrpcServer ν Φ) (P : Python ν Φ)

def planetaryStatePush (nodeId : String) (payload : Dict String ν) (now : ν) :
    Except Exc (PushAck ν) × GaiaGrpcServer ν Φ :=
  match server.planetaryHub with
  | none => (.ok { accepted := false, nodeId := nodeId, reason := some "hub_not_wired" }, server)
  | some hub =>
    match hub.pushDict P nodeId payload now with
    | (.error exc, hub) => (.error exc, ⟨some hub⟩)
    | (.ok snapshot, hub) =>
      (.ok { accepted := true, nodeId := nodeId, timestamp := some snapshot.timestamp }, ⟨some hub⟩)

def planetaryStateSnapshot (nodeId : Option String) : Except Exc (SnapshotReply ν Φ) :=
  match server.planetaryHub with
  | none => .ok (.error "hub_not_wired" none)
  | some hub =>
    match nodeId with
    | none => (hub.fleetSummary P).map .fleet
    | some nodeId =>
      match hub.snapshot nodeId with
      | none => .ok (.error "not_found" (some nodeId))
      | some snap => (P.len snap.observations).map (.node snap)

/-- `memory_replay`, of the events that the substrate's memory replays. -/
def memoryReplay {ε : Type} (replay : List ε) (limit : Int) : List ε := sliceFrom replay (-limit)

end GaiaGrpcServer

end Gaia.Planetary
