import GaiaServer.Framework.Dict
import GaiaServer.Framework.Json
import GaiaServer.Framework.Prog

/-!
# The guest sandbox

`gaia_server/sandbox/guest_sandbox.py`. A method is a program over the sandbox
itself and over what it imports from gaia_hypervisor and gaia_core, whose behaviour
during a call is given (`Outside`). Log lines are left out.
-/

namespace Gaia.Sandbox

open Prog (lift)

/-- What an `except` clause tells apart: a `SandboxAdmissionError`, an `ImportError`
or a subclass of it, any other `Exception`, and what is no `Exception`. -/
inductive ExcKind
  | admission
  | importError
  | exception
  | exit
  deriving DecidableEq

/-- An exception, with its `str(exc)`. -/
structure Raised where
  kind : ExcKind
  text : String
  deriving DecidableEq

/-- `isinstance(exc, Exception)`. -/
def Raised.isException (exc : Raised) : Bool := exc.kind ≠ .exit

/-- A resource profile. -/
abbrev Profile := List (PyKey × PyVal)

/-- The runtime that is injected or imported, or `_StubCodex`. -/
inductive Codex
  | runtime
  | stub
  deriving DecidableEq

/-- What `launch_app` returns: a dict, or another object with what a call of its `get`
ends with, an `AttributeError` if it has none. -/
inductive LaunchResult
  | dict (items : List (PyKey × PyVal))
  | object (get : (key : String) → (default : PyVal) → Except Raised PyVal)

/-- What `_active_guests` holds of a guest. -/
structure Guest where
  packageUrl : String
  intent : String
  result : LaunchResult
  resourceProfile : Profile

structure GuestSandbox where
  tenantId : String
  nodeId : String := "gaia-server-node-0"
  codex : Option Codex := none
  activeGuests : Dict String Guest := .empty

/-- The reply of `admit_guest`. -/
structure Admission where
  guestId : String
  status : PyVal
  tenantId : String
  nodeId : String
  codexAligned : PyVal
  resourceProfile : Profile

/-- The reply of `terminate_guest`. -/
structure Termination where
  guestId : String
  status : String
  codexAligned : Bool
  deriving DecidableEq

/-- An entry of `list_guests`. -/
structure GuestSummary where
  guestId : String
  packageUrl : String
  intent : String
  resourceProfile : Profile

/-! ## What a method does -/

/-- Reading and writing the sandbox, imports, and calls of what was imported. -/
inductive SandboxOp
  | self
  | setCodex (codex : Codex)
  | setGuest (guestId : String) (guest : Guest)
  | delGuest (guestId : String)
  | importCodex
  | newCodex
  | invokeStage (stage : String)
  | importGate
  | enforceCodexOnInstall (url tenant : String)
  | importUniverse
  | newUniverse
  | launchApp (packageUrl intent : String)
  | importMonitor
  | report (source : String) (resourceProfile : Profile) (tenant node : String)

abbrev SandboxRes : SandboxOp → Type
  | .self => GuestSandbox
  | .launchApp .. => LaunchResult
  | _ => Unit

/-- A method of the sandbox. -/
abbrev Method (α : Type) := Prog SandboxOp SandboxRes Raised α

/-- An operation, whose exception passes. -/
abbrev call (o : SandboxOp) : Method (SandboxRes o) := Prog.perform o

/-- What gaia_hypervisor and gaia_core do during a call: their imports, and the calls
of what they hold. -/
structure Outside where
  importCodex : Except Raised Unit
  newCodex : Except Raised Unit
  invokeStage : (stage : String) → Except Raised Unit
  importGate : Except Raised Unit
  enforceCodexOnInstall : (url tenant : String) → Except Raised Unit
  importUniverse : Except Raised Unit
  newUniverse : Except Raised Unit
  launchApp : (packageUrl intent : String) → Except Raised LaunchResult
  importMonitor : Except Raised Unit
  report : (source : String) → Profile → (tenant node : String) → Except Raised Unit

/-- What the operations do. -/
def handle (out : Outside) : Prog.Handler SandboxOp SandboxRes Raised GuestSandbox
  | .self, s => (.ok s, s)
  | .setCodex codex, s => (.ok (), { s with codex := some codex })
  | .setGuest guestId guest, s =>
    (.ok (), { s with activeGuests := s.activeGuests.set guestId guest })
  | .delGuest guestId, s => (.ok (), { s with activeGuests := s.activeGuests.erase guestId })
  | .importCodex, s => (out.importCodex, s)
  | .newCodex, s => (out.newCodex, s)
  | .invokeStage stage, s => (out.invokeStage stage, s)
  | .importGate, s => (out.importGate, s)
  | .enforceCodexOnInstall url tenant, s => (out.enforceCodexOnInstall url tenant, s)
  | .importUniverse, s => (out.importUniverse, s)
  | .newUniverse, s => (out.newUniverse, s)
  | .launchApp packageUrl intent, s => (out.launchApp packageUrl intent, s)
  | .importMonitor, s => (out.importMonitor, s)
  | .report source profile tenant node, s => (out.report source profile tenant node, s)

/-! ## The methods -/

/-- `except ImportError: … except Exception as exc: raise SandboxAdmissionError(…)`. -/
def orAdmissionError {α : Type} (stub : α) (text : String) (exc : Raised) : Method α :=
  if exc.kind = .importError then return stub
  else if exc.isException then .raise ⟨.admission, text ++ exc.text⟩
  else .raise exc

/-- `except ImportError: …`. -/
def orStub {α : Type} (stub : α) (exc : Raised) : Method α :=
  if exc.kind = .importError then return stub else .raise exc

/-- `result.get(key, default)`. -/
def LaunchResult.getItem : LaunchResult → String → PyVal → Except Raised PyVal
  | .dict items, key, default =>
    .ok (((items.find? fun item => item.1 = .str key).map Prod.snd).getD default)
  | .object get, key, default => get key default

/-- `_viriditas_defaults`. -/
def viriditasDefaults : Profile :=
  [(.str "cpu_cores", .int 2), (.str "memory_mib", .int 2048), (.str "gpu", .none),
    (.str "energy_budget", .str "viriditas-balanced"), (.str "priority", .str "normal")]

/-- `resource_profile or self._viriditas_defaults()`. -/
def profileOf : Option Profile → Profile
  | none | some [] => viriditasDefaults
  | some profile => profile

/-- The result of a launch without UNIVERSE. -/
def stubResult (packageUrl : String) : LaunchResult :=
  .dict [(.str "status", .str "stub-running"), (.str "guest_type", .str "unknown"),
    (.str "package_url", .str packageUrl), (.str "codex_aligned", .bool false)]

/-- The property `codex`. -/
def getCodex : Method Codex := do
  let self ← call .self
  match self.codex with
  | some codex => return codex
  | none => do
    let codex ← Prog.tryCatch (do
      call .importCodex
      call .newCodex
      return .runtime) (orStub .stub)
    call (.setCodex codex)
    return codex

/-- Step 1 of `admit_guest`. -/
def installGate (packageUrl tenantId : String) : Method Unit :=
  Prog.tryCatch (do
    call .importGate
    call (.enforceCodexOnInstall packageUrl tenantId))
    (orAdmissionError () "Guest rejected at Codex install gate: ")

/-- Step 2 of `admit_guest`. -/
def launch (packageUrl intent : String) : Method LaunchResult :=
  Prog.tryCatch (do
    call .importUniverse
    call .newUniverse
    call (.launchApp packageUrl intent))
    (orAdmissionError (stubResult packageUrl) "UNIVERSE.launch_app failed: ")

/-- `_report_energy_draw`. -/
def reportEnergyDraw (guestId : String) (resourceProfile : Profile) : Method Unit := do
  let self ← call .self
  Prog.tryCatch (do
    call .importMonitor
    call (.report guestId resourceProfile self.tenantId self.nodeId)) (orStub ())

def admitGuest (packageUrl intent : String) (resourceProfile : Option Profile) :
    Method Admission := do
  let self ← call .self
  installGate packageUrl self.tenantId
  let result ← launch packageUrl intent
  let guestId := self.tenantId ++ ":" ++ packageUrl
  let profile := profileOf resourceProfile
  call (.setGuest guestId ⟨packageUrl, intent, result, profile⟩)
  reportEnergyDraw guestId profile
  let status ← lift (result.getItem "status" (.str "unknown"))
  let codexAligned ← lift (result.getItem "codex_aligned" (.bool false))
  return ⟨guestId, status, self.tenantId, self.nodeId, codexAligned, profile⟩

def terminateGuest (guestId : String) : Method Termination := do
  let self ← call .self
  if self.activeGuests.contains guestId then do
    call (.delGuest guestId)
    let codex ← getCodex
    match codex with
    | .stub => return ⟨guestId, "terminated", true⟩
    | .runtime => do
      call (.invokeStage "Joyful Rejoicing of Celebration")
      return ⟨guestId, "terminated", true⟩
  else return ⟨guestId, "not_found", true⟩

/-- `list_guests`. -/
def GuestSandbox.listGuests (s : GuestSandbox) : List GuestSummary :=
  s.activeGuests.items.map fun item =>
    ⟨item.1, item.2.packageUrl, item.2.intent, item.2.resourceProfile⟩

end Gaia.Sandbox
