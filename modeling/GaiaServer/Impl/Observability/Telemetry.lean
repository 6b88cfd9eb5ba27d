import GaiaServer.Framework.Machine
import GaiaServer.Framework.Slice
import GaiaServer.Impl.Exceptions

/-!
# Telemetry

`gaia_server/observability/telemetry.py`. What the substrate returns or raises when it
is asked for its snapshot is given, and so are the clock and whether the log lines of
a snapshot raise. The thread and its sleep are left out: `collectLoop` is any number of
turns of the loop.
-/

namespace Gaia.Observability

structure TelemetrySnapshot where
  /-- The time, as it prints. -/
  timestamp : String
  nodeId : String
  compositeCgi : PyVal
  memoryEventCount : PyVal
  coreStatuses : List (PyKey × PyVal)
  /-- Stubs, all `0.0`. -/
  grpcLatencyMs : List String
  causalHoldbackDepth : Int
  checkpointEpoch : PyVal
  activeTenants : Int
  warnings : List String := []

/-! ## Collecting -/

/-- `v[key]`. -/
def subscript (v : PyVal) (key : String) : Except Exc PyVal :=
  match v with
  | .dict items =>
    match items.find? fun item => item.1 = .str key with
    | some item => .ok item.2
    | none => .error ⟨.other "KeyError", "'" ++ key ++ "'"⟩
  | _ => .error ⟨.typeError, "object is not subscriptable by a string"⟩

/-- `v.get(key, default)`. -/
def getDefault (v : PyVal) (key : String) (default : PyVal) : Except Exc PyVal :=
  match v with
  | .dict items => .ok (((items.find? fun item => item.1 = .str key).map Prod.snd).getD default)
  | _ => .error ⟨.other "AttributeError", "object has no attribute 'get'"⟩

/-- `v.items()`. -/
def itemsOf : PyVal → Except Exc (List (PyKey × PyVal))
  | .dict items => .ok items
  | _ => .error ⟨.other "AttributeError", "object has no attribute 'items'"⟩

def grpcMethods : List String :=
  ["NexusSyncService/Synchronize", "GuardianPolicyService/Evaluate",
    "AtlasObservationService/Ingest", "MemoryRetrievalService/Replay",
    "ConsciousnessMetricsService/Snapshot", "CoreHealthService/Health"]

/-- `_collect`. -/
def collect (nodeId : String) (consciousness : Except Exc PyVal) (now : String) :
    Except Exc TelemetrySnapshot := do
  let snapshot ← consciousness
  let cores ← itemsOf (← subscript snapshot "core_states")
  let coreStatuses ← cores.mapM fun core => do
    return (core.1, ← getDefault core.2 "last_summary" (.str "unknown"))
  let workspace ← getDefault snapshot "workspace" (.dict [])
  let evidence ← subscript snapshot "evidence"
  return {
    timestamp := now
    nodeId := nodeId
    compositeCgi := ← subscript evidence "composite_cgi"
    memoryEventCount := ← subscript snapshot "memory_event_count"
    coreStatuses := coreStatuses
    grpcLatencyMs := grpcMethods
    causalHoldbackDepth := 0
    checkpointEpoch := ← getDefault workspace "epoch" (.int 0)
    activeTenants := 0 }

/-! ## The collector -/

structure TelemetryCollector where
  nodeId : String
  /-- `_history`. -/
  kept : List TelemetrySnapshot := []

/-- What one turn of the loop meets: the substrate's snapshot, the clock, and the log
lines of the snapshot that is collected. -/
structure Turn where
  consciousness : Except Exc PyVal
  now : String
  logged : Except Exc Unit := .ok ()

namespace TelemetryCollector

variable (c : TelemetryCollector)

def maxHistory : Nat := 1000

/-- The locked part of the loop's body. -/
def append (snap : TelemetrySnapshot) : TelemetryCollector :=
  let history := c.kept ++ [snap]
  { c with
    kept := if history.length > maxHistory then sliceFrom history (-maxHistory) else history }

/-- The body of the loop: the exception that its `except` clause logs, if there is one,
and the collector. -/
def turn (t : Turn) : Except Exc Unit × TelemetryCollector :=
  match collect c.nodeId t.consciousness t.now with
  | .error exc => (.error exc, c)
  | .ok snap => (t.logged, c.append snap)

/-- `_collect_loop`. -/
def collectLoop (turns : List Turn) : TelemetryCollector :=
  Machine.run (fun c t => (turn c t).2) c turns

def latest : Option TelemetrySnapshot := c.kept.getLast?

def history (limit : Int) : List TelemetrySnapshot := sliceFrom c.kept (-limit)

end TelemetryCollector

end Gaia.Observability
