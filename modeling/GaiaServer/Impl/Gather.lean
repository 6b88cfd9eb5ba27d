import GaiaServer.Impl.Health

/-!
# The health check, on all that `gather` returns

`HealthAggregator.check` of `gaia_server/health.py` on every kind of item that
`asyncio.gather(…, return_exceptions=True)` puts into its list of results: what a check
returned, an `Exception`, or an exception that is none, such as `CancelledError`. Here a
mapping may have any value as its status; in `Impl.Health` all of them are texts, and no
check is cancelled.
-/

namespace Gaia

/-- What a health method returns, with all its items. -/
abbrev Mapping := Dict PyKey PyVal

/-- An item of the results. -/
inductive GatherResult
  | returned (mapping : Mapping)
  | exception (exc : Exc)
  | exit (exc : ExitExc)

/-- A value of `subsystems`. -/
inductive Subsystem
  | mapping (mapping : Mapping)
  | exit (exc : ExitExc)

structure GatherReport where
  status : String
  subsystems : Dict String Subsystem

mutual

/-- Whether a value has a hash; for an object that is up to its class. -/
def hashable (objects : (typeName : String) → Bool) : PyVal → Bool
  | .list _ => false
  | .dict _ => false
  | .tuple xs => allHashable objects xs
  | .obj typeName _ => objects typeName
  | _ => true

def allHashable (objects : (typeName : String) → Bool) : List PyVal → Bool
  | [] => true
  | x :: xs => hashable objects x && allHashable objects xs

end

namespace Gather

/-- `v == s`. -/
def isText (s : String) : PyVal → Bool
  | .str s' => s' = s
  | _ => false

/-- The value that a result gets in `subsystems`. -/
def subsystem : GatherResult → Subsystem
  | .exception exc => .mapping ((Dict.single (.str "status") (.str "down")).set (.str "detail")
      (.str exc.msg))
  | .returned mapping => .mapping mapping
  | .exit exc => .exit exc

/-- `v.get("status", "unknown")`, which an exception does not have. -/
def statusOf : Subsystem → Except Exc PyVal
  | .mapping mapping => .ok (mapping.get (.str "status") (.str "unknown"))
  | .exit _ => .error ⟨.other "AttributeError", "object has no attribute 'get'"⟩

/-- An element of the set `statuses`. -/
def statusElement (objects : (typeName : String) → Bool) (v : Subsystem) : Except Exc PyVal := do
  let status ← statusOf v
  if hashable objects status then return status
  else .error ⟨.typeError, "unhashable type"⟩

def overall (statuses : List PyVal) : String :=
  -- The set of the statuses is `{"ok"}`.
  if statuses.any (isText "ok") && statuses.all (isText "ok") then "ok"
  else if statuses.any (isText "down") then "down"
  else "degraded"

/-- `check`, of the results of the registered checks. -/
def check (objects : (typeName : String) → Bool) (results : Dict String GatherResult) :
    Except Exc GatherReport :=
  if results.items.isEmpty then .ok ⟨"ok", .empty⟩
  else do
    let subsystems := results.map subsystem
    let statuses ← subsystems.items.mapM fun v => statusElement objects v.2
    return ⟨overall statuses, subsystems⟩

end Gather

end Gaia
