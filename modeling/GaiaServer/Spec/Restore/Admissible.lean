import GaiaServer.Impl.Restore.Orchestrator
import GaiaServer.Spec.Storage.EventLog

/-!
# Admissible restores

What a restore is for, apart from how it goes about it: it grants a node a
trust class, if the stores support the manifest (`Checked`) and the node's trust
state is the one the manifest names (`Admissible`), and it writes nothing but
that state (`promoted`).
-/

namespace Gaia.Restore

open Storage RestoreOrchestrator

/-- The paths on which a checkpoint comes from another host. -/
def crossHost : List RestorePath :=
  [.crossHost, .k8sStatefulRestore, .quarantinedForeignHost, .criuMigration]

variable (o : RestoreOrchestrator) (w : World)

/-- What is stored under a key of the metadata store. -/
def stored? (key : String) : Option Bytes := w.etcd.get? (o.registry.metadata.key key)

/-- What is stored in an object of the checkpoint store. -/
def object? (name : String) : Option Bytes := w.objects.get? (o.registry.checkpoints.bucket, name)

/-- The stores support the manifest under an id: with payload `payload`, and
`n` events after its cursor. -/
structure Checked (id : String) (M : RestoreManifest) (payload : Bytes) (n : Nat) : Prop where
  stored : ∃ raw, stored? o w ("manifests/" ++ id) = some raw ∧ o.core.readManifest raw = .ok M
  signed : M.manifestHash ≠ ""
  hashed : ∃ canonical,
    jsonDumps { sortKeys := true, itemSep := ",", keySep := ":" }
      (.dict ((o.core.manifestWire M).filter fun item => item.1 ≠ .str "manifest_hash")) =
        .ok canonical ∧
    endsWith M.manifestHash (hexdigest (o.sha256 (encode canonical))) = true
  attested : M.restorePath ∈ crossHost → given M.attestationRef ≠ none
  attestation : ∀ ref, given M.attestationRef = some ref →
    (stored? o w ("attestations/" ++ ref)).isSome
  readable : ∃ data ref,
    object? o w (MinIOCheckpointStore.manifestKey M.checkpointId) = some data ∧
    o.core.readCheckpointRef data = .ok ref
  fetched : object? o w (MinIOCheckpointStore.payloadKey M.checkpointId) = some payload
  payloadHash : ∀ h, given M.payloadHash = some h → "sha256:" ++ hexdigest (o.sha256 payload) = h
  noCursor : given M.causalCursor = none → n = 0
  replayed : ∀ cursor, given M.causalCursor = some cursor →
    ∃ seq events, pyInt (replace cursor "seq:" "") = some seq ∧
      w.eventsAfter o.core "gaia-checkpoints" (some seq) 1000 = .ok events ∧
      events ≠ [] ∧ n = events.length
  gated : M.restorePath = .criuMigration → given M.admissibilityPolicyRef ≠ none

/-- The node's trust state is the one the manifest names, if it names one. -/
def TokenHeld (M : RestoreManifest) : Prop :=
  ∀ token, givenStr M.splitBrainToken = some token →
    ∃ expected, token.encode = .ok expected ∧ stored? o w (trustKey M.nodeId) = some expected

/-- The stores support the manifest, and the node's trust state is the one it names. -/
structure Admissible (id : String) (M : RestoreManifest) (payload : Bytes) (n : Nat) : Prop extends
    Checked o w id M payload n where
  token : TokenHeld o w M

/-- What is granted, as stored. -/
def grantedValue (M : RestoreManifest) : Bytes := encode (o.core.trustValue (grantedClass M))

/-- The stores after the promotion. -/
def promoted (M : RestoreManifest) : World :=
  { w with etcd := w.etcd.set (o.registry.metadata.key (trustKey M.nodeId)) (grantedValue o M) }

/-- What the restore returns. -/
def result (id : String) (M : RestoreManifest) (payload : Bytes) (n : Nat) : RestoreResult where
  manifestId := id
  nodeId := M.nodeId
  restorePath := M.restorePath
  eventsReplayed := n
  grantedTrustClass := grantedClass M
  payload := payload

end Gaia.Restore
