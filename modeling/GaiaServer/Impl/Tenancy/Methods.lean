import GaiaServer.Framework.Monitor
import GaiaServer.Impl.Tenancy.TenantRegistry

/-!
# The registry's methods, access by access

The methods of `gaia_server/tenancy/tenant_registry.py` as threads run them: each holds
`self._lock`, and inside takes its accesses to the dictionary and to the records in it one
by one. A record is named by its key.

An iterator over a dictionary keeps the number of items it has found, and raises if there
are more or fewer at its next item.
-/

namespace Gaia.Tenancy

/-- The accesses. -/
inductive RegistryOp
  | config
  /-- The number of items that a new iterator finds. -/
  | iter
  /-- The key of the next item of an iterator that has found `size`, and has given `place`. -/
  | next (size place : Nat)
  /-- The attributes of a record. -/
  | read (tenantId : String)
  | contains (tenantId : String)
  | getItem (tenantId : String)
  | setItem (tenantId : String) (record : TenantRecord)
  /-- `record.active = False`. -/
  | setInactive (tenantId : String)

abbrev RegistryRes : RegistryOp → Type
  | .config => ServerConfig
  | .iter => Nat
  | .next .. => Option String
  | .read _ => TenantRecord
  | .contains _ => Bool
  | .getItem _ => TenantRecord
  | .setItem .. => Unit
  | .setInactive _ => Unit

abbrev RegistryProg (α : Type) := Prog RegistryOp RegistryRes RegistryError α

/-- An access, whose exception passes. -/
abbrev access (o : RegistryOp) : RegistryProg (RegistryRes o) := Prog.perform o

/-- What the accesses do. -/
def RegistryOp.handle : Prog.Handler RegistryOp RegistryRes RegistryError TenantRegistry
  | .config, r => (.ok r.config, r)
  | .iter, r => (.ok r.tenants.items.length, r)
  | .next size place, r =>
    if r.tenants.items.length ≠ size then
      (.error (.runtimeError "dictionary changed size during iteration"), r)
    else (.ok (r.tenants.items[place]?.map Prod.fst), r)
  | .read tenantId, r => (r.get tenantId, r)
  | .contains tenantId, r => (.ok (r.tenants.contains tenantId), r)
  | .getItem tenantId, r =>
    match r.tenants.get? tenantId with
    | none => (.error (.keyError tenantId), r)
    | some record => (.ok record, r)
  | .setItem tenantId record, r => (.ok (), { r with tenants := r.tenants.set tenantId record })
  | .setInactive tenantId, r =>
    match r.tenants.get? tenantId with
    | none => (.ok (), r)
    | some record =>
      (.ok (), { r with tenants := r.tenants.set tenantId { record with active := false } })

/-- The rounds of an iteration, whose last finds no further item. -/
def iterate {β : Type} (f : β → String × TenantRecord → β) (size : Nat) :
    (rounds place : Nat) → β → RegistryProg β
  | 0, _, acc => return acc
  | rounds + 1, place, acc => do
    let tenantId ← access (.next size place)
    match tenantId with
    | none => return acc
    | some tenantId => do
      let record ← access (.read tenantId)
      iterate f size rounds (place + 1) (f acc (tenantId, record))

/-- A comprehension over `self._tenants.items()`, or its values. -/
def overItems {β : Type} (f : β → String × TenantRecord → β) (acc : β) : RegistryProg β := do
  let size ← access .iter
  iterate f size (size + 1) 0 acc

/-! ## The methods -/

/-- A call of a method. -/
inductive Method
  | register (tenantId : String) (metadata : Option (Dict String String))
  | deregister (tenantId : String)
  | get (tenantId : String)
  | listTenants
  | snapshot

abbrev MethodRes : Method → Type
  | .register .. => TenantRecord
  | .deregister _ => Unit
  | .get _ => TenantRecord
  | .listTenants => List String
  | .snapshot => List SnapshotEntry

namespace Method

def registerBody (tenantId : String) (metadata : Option (Dict String String)) :
    RegistryProg TenantRecord := do
  let activeCount ← overItems (fun n item => if item.2.active then n + 1 else n) 0
  let config ← access .config
  if config.maxTenants ≤ (activeCount : Nat) then
    .raise (.runtimeError ("Max tenants (" ++ toString config.maxTenants ++
      ") reached. Cannot register '" ++ tenantId ++ "'."))
  else do
    let known ← access (.contains tenantId)
    if known then access (.getItem tenantId)
    else do
      let record : TenantRecord :=
        { tenantId := tenantId
          ns := "gaia-" ++ tenantId
          isolationMode := config.tenantIsolation
          metadata := metadata.getD .empty }
      access (.setItem tenantId record)
      return record

def deregisterBody (tenantId : String) : RegistryProg Unit := do
  let known ← access (.contains tenantId)
  if known then do
    let _ ← access (.getItem tenantId)
    access (.setInactive tenantId)
  else .raise (.keyError ("Unknown tenant: " ++ tenantId))

def getBody (tenantId : String) : RegistryProg TenantRecord := do
  let known ← access (.contains tenantId)
  if known then access (.getItem tenantId)
  else .raise (.keyError ("Unknown tenant: " ++ tenantId))

def listTenantsBody : RegistryProg (List String) :=
  overItems (fun tenants item => if item.2.active then tenants ++ [item.1] else tenants) []

def snapshotBody : RegistryProg (List SnapshotEntry) :=
  overItems (fun entries item => entries ++
    [⟨item.2.tenantId, item.2.ns, item.2.isolationMode, item.2.active⟩]) []

/-- The body of a method. -/
def body : (m : Method) → RegistryProg (MethodRes m)
  | .register tenantId metadata => registerBody tenantId metadata
  | .deregister tenantId => deregisterBody tenantId
  | .get tenantId => getBody tenantId
  | .listTenants => listTenantsBody
  | .snapshot => snapshotBody

end Method

/-- The registry, as its threads use it. -/
def registryMonitor :
    Monitor Method MethodRes RegistryOp RegistryRes RegistryError TenantRegistry where
  handler := RegistryOp.handle
  body := Method.body
  locked _ := true

/-- The methods, each at once. -/
def methods : Prog.Handler Method MethodRes RegistryError TenantRegistry
  | .register tenantId metadata, r => r.register tenantId metadata
  | .deregister tenantId, r => r.deregister tenantId
  | .get tenantId, r => (r.get tenantId, r)
  | .listTenants, r => (.ok r.listTenants, r)
  | .snapshot, r => (.ok r.snapshot, r)

end Gaia.Tenancy
