import GaiaServer.Framework.Dict
import GaiaServer.Impl.Exceptions

/-!
# Health reports

`gaia_server/health.py`. A health mapping is its `status`, if it has one, and its
other items. A check is given by what it returns or raises when it is awaited;
the time of the report is left out.
-/

namespace Gaia

/-- What a health method returns. -/
structure Health where
  status : Option String
  rest : List (PyKey × PyVal)

/-- The mapping, as an item of another. -/
def Health.wire (h : Health) : PyVal :=
  .dict ((h.status.toList.map fun status => (.str "status", .str status)) ++ h.rest)

structure HealthReport where
  status : String
  subsystems : List (String × Health)

def HealthReport.isOk (r : HealthReport) : Bool := r.status = "ok"

structure HealthAggregator where
  checks : Dict String (Except Exc Health) := .empty

namespace HealthAggregator

def register (agg : HealthAggregator) (name : String) (checkFn : Except Exc Health) :
    HealthAggregator :=
  { agg with checks := agg.checks.set name checkFn }

/-- The entry of a subsystem. -/
def entry : Except Exc Health → Health
  | .ok result => result
  | .error exc => ⟨some "down", [(.str "detail", .str exc.msg)]⟩

def check (agg : HealthAggregator) : HealthReport :=
  if agg.checks.items.isEmpty then ⟨"ok", []⟩
  else
    let subsystems := agg.checks.items.map fun (name, result) => (name, entry result)
    let statuses := subsystems.map fun v => v.2.status.getD "unknown"
    let overall :=
      -- The set of the statuses is `{"ok"}`.
      if statuses.contains "ok" && statuses.all (· = "ok") then "ok"
      else if statuses.contains "down" then "down"
      else "degraded"
    ⟨overall, subsystems⟩

end HealthAggregator

end Gaia
