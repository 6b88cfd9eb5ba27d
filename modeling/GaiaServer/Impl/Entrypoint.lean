import GaiaServer.Impl.Inference.Router

/-!
# The startup gate

The `health` methods of the storage adapters and of the registry
(`gaia_server/storage`), and the part of `main` in `gaia_server/entrypoint.py` that
checks the health of the subsystems and goes on or aborts. What a method's client
call returns or raises is given (`StorageProbes`). The rest of `main` and its log
lines are left out.
-/

namespace Gaia

open Inference (InferenceRouter InferenceBackend)

namespace Storage

/-- What the client calls of the three health methods return or raise: the flush of
the NATS connection, with its `is_connected`; `bucket_exists`; and etcd's status,
its leader and its version. -/
structure StorageProbes where
  flush : Except Exc Unit
  isConnected : Bool
  bucket : String
  bucketExists : Except Exc Bool
  status : Except Exc (Int × String)

/-- A mapping of the name of a backend, its status and other items. -/
def backendHealth (backend status : String) (rest : List (PyKey × PyVal)) : Health :=
  ⟨some status, (.str "backend", .str backend) :: rest⟩

namespace StorageProbes

variable (p : StorageProbes)

/-- `JetStreamEventStore.health`. -/
def events : Health :=
  match p.flush with
  | .ok _ => backendHealth "jetstream" "ok" [(.str "connected", .bool p.isConnected)]
  | .error exc => backendHealth "jetstream" "error" [(.str "detail", .str exc.msg)]

/-- `MinIOCheckpointStore.health`. -/
def checkpoints : Health :=
  match p.bucketExists with
  | .ok _ => backendHealth "minio" "ok" [(.str "bucket", .str p.bucket)]
  | .error exc => backendHealth "minio" "error" [(.str "detail", .str exc.msg)]

/-- `EtcdMetadataStore.health`. -/
def metadata : Health :=
  match p.status with
  | .ok (leader, version) =>
    backendHealth "etcd" "ok" [(.str "leader", .int leader), (.str "version", .str version)]
  | .error exc => backendHealth "etcd" "error" [(.str "detail", .str exc.msg)]

/-- `StorageRegistry.health`. -/
def health : Health :=
  let results := [p.events, p.checkpoints, p.metadata]
  let overall := if results.all fun r => r.status = some "ok" then "ok" else "degraded"
  ⟨some overall, [(.str "backends", .list (results.map Health.wire))]⟩

end StorageProbes

end Storage

namespace Entrypoint

open Storage (StorageProbes)

/-- How the health check of `main` ends. -/
inductive Startup
  /-- `sys.exit(1)`. -/
  | aborted
  | ready
  deriving DecidableEq

variable {β : Type} [InferenceBackend β] (storage : StorageProbes) (router : InferenceRouter β)

/-- The report that `main` checks. -/
def report : HealthReport :=
  let agg : HealthAggregator := {}
  let agg := agg.register "storage" (.ok storage.health)
  let agg := agg.register "inference" (.ok router.health)
  agg.check

def main : Startup :=
  let report := report storage router
  if report.isOk then .ready
  else if report.status = "down" then .aborted
  else .ready

end Entrypoint

end Gaia
