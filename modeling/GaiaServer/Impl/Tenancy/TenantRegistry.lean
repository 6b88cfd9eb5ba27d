import GaiaServer.Framework.Dict

/-!
# The tenant registry

`gaia_server/tenancy/tenant_registry.py`. A call gives its outcome and the
registry afterwards. Log lines are left out, and the lock, under which each call
runs as a whole.

Python hands out the records themselves; here a record is a value, so nobody
outside can change one.
-/

namespace Gaia.Tenancy

structure TenantRecord where
  tenantId : String
  /-- `namespace`. -/
  ns : String
  /-- `namespace | cgroup | vm`, but any string is taken. -/
  isolationMode : String
  active : Bool := true
  metadata : Dict String String := .empty
  deriving DecidableEq

/-- The settings the registry reads. -/
structure ServerConfig where
  maxTenants : Int := 64
  tenantIsolation : String := "namespace"

/-- The exceptions of the registry, with their argument. -/
inductive RegistryError
  | runtimeError (arg : String)
  | keyError (arg : String)
  deriving DecidableEq

structure TenantRegistry where
  config : ServerConfig
  tenants : Dict String TenantRecord

/-- An entry of `snapshot()`. -/
structure SnapshotEntry where
  tenantId : String
  ns : String
  isolationMode : String
  active : Bool
  deriving DecidableEq

namespace TenantRegistry

/-- `TenantRegistry(config)`. -/
def new (config : ServerConfig) : TenantRegistry := ⟨config, .empty⟩

variable (r : TenantRegistry)

/-- `sum(1 for t in self._tenants.values() if t.active)`. -/
def activeCount : Nat := r.tenants.items.countP fun (_, t) => t.active

/-- The record that `register` makes. -/
def newRecord (tenantId : String) (metadata : Option (Dict String String)) : TenantRecord where
  tenantId := tenantId
  ns := "gaia-" ++ tenantId
  isolationMode := r.config.tenantIsolation
  metadata := metadata.getD .empty

def register (tenantId : String) (metadata : Option (Dict String String) := none) :
    Except RegistryError TenantRecord × TenantRegistry :=
  if r.config.maxTenants ≤ r.activeCount then
    (.error (.runtimeError ("Max tenants (" ++ toString r.config.maxTenants ++
      ") reached. Cannot register '" ++ tenantId ++ "'.")), r)
  else
    match r.tenants.get? tenantId with
    | some record => (.ok record, r)
    | none =>
      let record := r.newRecord tenantId metadata
      (.ok record, { r with tenants := r.tenants.set tenantId record })

def deregister (tenantId : String) : Except RegistryError Unit × TenantRegistry :=
  match r.tenants.get? tenantId with
  | none => (.error (.keyError ("Unknown tenant: " ++ tenantId)), r)
  | some record =>
    (.ok (), { r with tenants := r.tenants.set tenantId { record with active := false } })

def get (tenantId : String) : Except RegistryError TenantRecord :=
  match r.tenants.get? tenantId with
  | none => .error (.keyError ("Unknown tenant: " ++ tenantId))
  | some record => .ok record

def listTenants : List String :=
  (r.tenants.items.filter fun (_, t) => t.active).map Prod.fst

def snapshot : List SnapshotEntry :=
  r.tenants.items.map fun (_, t) => ⟨t.tenantId, t.ns, t.isolationMode, t.active⟩

end TenantRegistry

/-- The calls that change a registry. -/
inductive RegistryCall
  | register (tenantId : String) (metadata : Option (Dict String String))
  | deregister (tenantId : String)

/-- A call: its exception, if it raises, and the registry afterwards. -/
def TenantRegistry.call (r : TenantRegistry) :
    RegistryCall → Except RegistryError Unit × TenantRegistry
  | .register tenantId metadata =>
    let (outcome, r') := r.register tenantId metadata
    (outcome.map fun _ => (), r')
  | .deregister tenantId => r.deregister tenantId

end Gaia.Tenancy
