import GaiaServer.Framework.Service
import GaiaServer.Impl.Observability.Telemetry

/-!
# The collector and its threads

The methods of `TelemetryCollector` in `gaia_server/observability/telemetry.py` as threads run
them. `start` and `stop` are those of a `Service`, whose loop is `_collect_loop`: any number of
its threads take their turns (`LoopStep`), and any callers read (`ReadStep`), all of them with
`self._lock` held where the code holds it.

What the substrate and the clock give is given with each step. The snapshots that have been
collected, and the appends and reads in the order in which they have taken effect, are recorded.
-/

namespace Gaia.Observability

variable {ι : Type}

/-- A call that reads. -/
inductive Query
  | latest
  | history (limit : Int)

inductive Reply
  | latest (snap : Option TelemetrySnapshot)
  | history (snaps : List TelemetrySnapshot)

def TelemetryCollector.answer (c : TelemetryCollector) : Query → Reply
  | .latest => .latest c.latest
  | .history limit => .history (c.history limit)

/-- Where a thread is in the body of `_collect_loop`: before `_collect`, before the lock, three
places with the lock held, before `_log_snapshot`, and before the sleep. -/
inductive CollectPlace
  | collect
  | waiting (snap : TelemetrySnapshot)
  | holding (snap : TelemetrySnapshot)
  | appended (snap : TelemetrySnapshot)
  | trimmed (snap : TelemetrySnapshot)
  | logging (snap : TelemetrySnapshot)
  | sleeping

/-- Where a reader is; it holds the lock in the last two places. -/
inductive ReadPlace
  | outside
  | waiting (q : Query)
  | holding (q : Query)
  | done (r : Reply)

inductive Effect (ι : Type)
  | appended (snap : TelemetrySnapshot)
  | read (caller : ι) (q : Query) (r : Reply)

/-- What the threads share. The lock is held by a thread of the loop or by a reader. -/
structure Collection (ι : Type) where
  collector : TelemetryCollector
  owner : Option (Nat ⊕ ι) := none
  readers : ι → ReadPlace := fun _ => .outside
  collected : List TelemetrySnapshot := []
  effects : List (Effect ι) := []

namespace Collection

/-- The history, with one more snapshot and not cut yet. -/
def push (τ : Collection ι) (snap : TelemetrySnapshot) : Collection ι :=
  { τ with
    collector := { τ.collector with kept := τ.collector.kept ++ [snap] }
    effects := τ.effects ++ [.appended snap] }

/-- The history, cut if it is too long. -/
def trim (τ : Collection ι) : Collection ι :=
  { τ with
    collector := { τ.collector with
      kept := if τ.collector.kept.length > TelemetryCollector.maxHistory then
        sliceFrom τ.collector.kept (-TelemetryCollector.maxHistory) else τ.collector.kept } }

end Collection

/-- The body of `_collect_loop`, in thread `n`. -/
inductive LoopStep (n : Nat) :
    Collection ι → CollectPlace → Collection ι → Option CollectPlace → Prop
  | collect {τ : Collection ι} {consciousness now snap}
      (h : collect τ.collector.nodeId consciousness now = .ok snap) :
      LoopStep n τ .collect { τ with collected := τ.collected ++ [snap] } (some (.waiting snap))
  /-- The exception is logged. -/
  | fail {τ : Collection ι} {consciousness now exc}
      (h : collect τ.collector.nodeId consciousness now = .error exc) :
      LoopStep n τ .collect τ (some .sleeping)
  | acquire {τ : Collection ι} {snap} (h : τ.owner = none) :
      LoopStep n τ (.waiting snap) { τ with owner := some (.inl n) } (some (.holding snap))
  | push {τ : Collection ι} {snap} :
      LoopStep n τ (.holding snap) (τ.push snap) (some (.appended snap))
  | trim {τ : Collection ι} {snap} :
      LoopStep n τ (.appended snap) τ.trim (some (.trimmed snap))
  | release {τ : Collection ι} {snap} :
      LoopStep n τ (.trimmed snap) { τ with owner := none } (some (.logging snap))
  /-- Whether or not a log line raises. -/
  | log {τ : Collection ι} {snap} : LoopStep n τ (.logging snap) τ (some .sleeping)
  | sleep {τ : Collection ι} : LoopStep n τ .sleeping τ none

variable [DecidableEq ι]

/-- `latest` and `history`, in any caller. -/
inductive ReadStep : Collection ι → Collection ι → Prop
  | call {τ : Collection ι} {c} (q : Query) (h : τ.readers c = .outside) :
      ReadStep τ { τ with readers := Function.update τ.readers c (.waiting q) }
  | acquire {τ : Collection ι} {c q} (h : τ.readers c = .waiting q) (hfree : τ.owner = none) :
      ReadStep τ { τ with
        owner := some (.inr c)
        readers := Function.update τ.readers c (.holding q) }
  | read {τ : Collection ι} {c q} (h : τ.readers c = .holding q) :
      ReadStep τ { τ with
        readers := Function.update τ.readers c (.done (τ.collector.answer q))
        effects := τ.effects ++ [.read c q (τ.collector.answer q)] }
  | release {τ : Collection ι} {c r} (h : τ.readers c = .done r) :
      ReadStep τ { τ with
        owner := none
        readers := Function.update τ.readers c .outside }

/-- `TelemetryCollector`, with `start`, `stop` and the threads of the loop. -/
def telemetry : Service (Collection ι) CollectPlace where
  entry := .collect
  turn := LoopStep
  others := ReadStep

/-- The states that a collector can come to. -/
abbrev TelemetryState (ι : Type) := Service.State (Collection ι) CollectPlace ι

/-- A new collector. -/
def newCollector (nodeId : String) : TelemetryState ι :=
  Service.init ⟨⟨nodeId, []⟩, none, fun _ => .outside, [], []⟩

end Gaia.Observability
