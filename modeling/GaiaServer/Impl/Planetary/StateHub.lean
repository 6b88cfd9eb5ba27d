import GaiaServer.Framework.Dict
import GaiaServer.Impl.Exceptions

/-!
# The planetary state hub

`gaia_server/planetary/state_hub.py`. What a payload holds are Python values of any
kind `ν`, and a score is a float of `Φ`. The code puts four operations to them,
which are parameters (`Python`), those that can raise as `Except`. The time that a
call reads is an argument of it, and log lines are left out, apart from the `len`
that one of them evaluates.
-/

namespace Gaia.Planetary

/-- Python values `ν`, and floats `Φ`. -/
structure Python (ν Φ : Type) where
  /-- `a > b`, as a truth value. -/
  gt : (a b : ν) → Except Exc Bool
  len : ν → Except Exc Nat
  float : ν → Except Exc Φ
  /-- `round(sum(xs) / len(xs), 4)`. -/
  average : List Φ → Φ
  /-- `0.0`, as a float and as a value. -/
  zero : Φ
  zeroValue : ν
  /-- `{}`. -/
  emptyDict : ν

variable {ν Φ : Type}

structure PlanetarySnapshot (ν Φ : Type) where
  nodeId : String
  timestamp : ν
  observations : ν
  energy : ν
  climate : ν
  biosphere : ν
  network : ν
  integrity : ν
  loveScore : Φ
  metadata : ν

/-- What `fleet_summary` says of a node. -/
structure NodeSummary (ν Φ : Type) where
  timestamp : ν
  loveScore : Φ
  observationCount : Nat

/-- The summary; one of no node has no latest timestamp. -/
structure FleetSummary (ν Φ : Type) where
  nodeCount : Nat
  nodes : List String
  fleetLoveScore : Φ
  latestSnapshotTs : Option ν
  snapshots : List (String × NodeSummary ν Φ)

structure PlanetaryStateHub (ν Φ : Type) where
  snapshots : Dict String (PlanetarySnapshot ν Φ) := .empty

/-- `max(xs)`, from the first of them on: each of the others against the greatest
so far. -/
def pyMax (gt : ν → ν → Except Exc Bool) : ν → List ν → Except Exc ν
  | greatest, [] => .ok greatest
  | greatest, x :: xs => do
    let greater ← gt x greatest
    pyMax gt (if greater then x else greatest) xs

namespace PlanetaryStateHub

variable (hub : PlanetaryStateHub ν Φ) (P : Python ν Φ)

/-- `_snapshots[snapshot.node_id] = snapshot`. -/
def store (snapshot : PlanetarySnapshot ν Φ) : PlanetaryStateHub ν Φ :=
  ⟨hub.snapshots.set snapshot.nodeId snapshot⟩

/-- The log line takes the length of the observations after the snapshot is stored. -/
def push (snapshot : PlanetarySnapshot ν Φ) : Except Exc Unit × PlanetaryStateHub ν Φ :=
  ((P.len snapshot.observations).map fun _ => (), hub.store snapshot)

/-- The snapshot that `push_dict` makes of a payload. -/
def ofPayload (nodeId : String) (payload : Dict String ν) (now : ν) :
    Except Exc (PlanetarySnapshot ν Φ) := do
  let loveScore ← P.float (payload.get "love_score" P.zeroValue)
  return {
    nodeId := nodeId
    timestamp := payload.get "timestamp" now
    observations := payload.get "observations" P.emptyDict
    energy := payload.get "energy" P.emptyDict
    climate := payload.get "climate" P.emptyDict
    biosphere := payload.get "biosphere" P.emptyDict
    network := payload.get "network" P.emptyDict
    integrity := payload.get "integrity" P.emptyDict
    loveScore := loveScore
    metadata := payload.get "metadata" P.emptyDict }

def pushDict (nodeId : String) (payload : Dict String ν) (now : ν) :
    Except Exc (PlanetarySnapshot ν Φ) × PlanetaryStateHub ν Φ :=
  match ofPayload P nodeId payload now with
  | .error exc => (.error exc, hub)
  | .ok snapshot =>
    match hub.push P snapshot with
    | (.error exc, hub) => (.error exc, hub)
    | (.ok _, hub) => (.ok snapshot, hub)

/-- `snapshot`. -/
def snapshot (nodeId : String) : Option (PlanetarySnapshot ν Φ) := hub.snapshots.get? nodeId

/-- `node_count`. -/
def nodeCount : Nat := hub.snapshots.items.length

/-- `_snapshots.values()`. -/
def values : List (PlanetarySnapshot ν Φ) := hub.snapshots.items.map Prod.snd

/-- The entry of a node in the summary. -/
def entry (item : String × PlanetarySnapshot ν Φ) : Except Exc (String × NodeSummary ν Φ) := do
  let observationCount ← P.len item.2.observations
  return (item.1, ⟨item.2.timestamp, item.2.loveScore, observationCount⟩)

def fleetSummary : Except Exc (FleetSummary ν Φ) :=
  match hub.values with
  | [] => .ok ⟨0, [], P.zero, none, []⟩
  | first :: rest => do
    let nodes := hub.snapshots.keys
    let fleetLoveScore := P.average (hub.values.map PlanetarySnapshot.loveScore)
    let latestTs ← pyMax P.gt first.timestamp (rest.map PlanetarySnapshot.timestamp)
    let snapshots ← hub.snapshots.items.mapM (entry P)
    return ⟨nodes.length, nodes, fleetLoveScore, some latestTs, snapshots⟩

end PlanetaryStateHub

end Gaia.Planetary
