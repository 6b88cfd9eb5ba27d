import GaiaServer.Impl.Storage.Stores

/-!
# The restore orchestrator

`gaia_server/restore/orchestrator.py`, step by step, with the exceptions of
`gaia_server/restore/errors.py` and their texts. Log lines are left out.
-/

namespace Gaia

namespace Restore

open Storage
open Prog (lift)

structure RestoreResult where
  manifestId : String
  nodeId : String
  restorePath : RestorePath
  eventsReplayed : Nat
  grantedTrustClass : TrustClass
  payload : Bytes

/-- The orchestrator, with what its module imports: gaia_core's codec, SHA-256
and `repr` of a string. -/
structure RestoreOrchestrator where
  core : Codec
  sha256 : Bytes → Bytes
  repr : String → String
  registry : StorageRegistry := {}

namespace RestoreOrchestrator

variable (o : RestoreOrchestrator)

/-- `_sha256_dict`. -/
def sha256Dict (d : List (PyKey × PyVal)) : Except Exc String := do
  let canonical ← jsonDumps { sortKeys := true, itemSep := ",", keySep := ":" } (.dict d)
  return hexdigest (o.sha256 (encode canonical))

def loadManifest (manifestId : String) : Store RestoreManifest := do
  let raw ← o.registry.metadata.get ("manifests/" ++ manifestId)
  match raw with
  | none => .raise ⟨.manifestError, "Manifest not found in etcd: " ++ manifestId⟩
  | some raw =>
    match o.core.readManifest raw with
    | .error exc => .raise ⟨.manifestError, "Manifest deserialization failed: " ++ exc.msg⟩
    | .ok manifest =>
      if manifest.manifestHash = "" then
        .raise ⟨.manifestError, "Manifest " ++ manifestId ++
          " has no manifest_hash — unsigned manifests are not admissible"⟩
      else return manifest

def verifyHashes (manifest : RestoreManifest) : Store Unit := do
  let wire := o.core.manifestWire manifest
  let wireForHash := wire.filter fun item => item.1 ≠ .str "manifest_hash"
  let computed ← lift (o.sha256Dict wireForHash)
  if endsWith manifest.manifestHash computed then return ()
  else
    .raise ⟨.manifestError, "Manifest hash mismatch for " ++ manifest.manifestId ++ ": computed=" ++
      computed ++ " stored=" ++ manifest.manifestHash⟩

def verifyAttestation (manifest : RestoreManifest) : Store Unit := do
  let crossHostPaths : List RestorePath :=
    [.crossHost, .k8sStatefulRestore, .quarantinedForeignHost, .criuMigration]
  let isCrossHost := manifest.restorePath ∈ crossHostPaths
  if isCrossHost ∧ given manifest.attestationRef = none then
    .raise ⟨.attestationError, "Cross-host restore " ++ manifest.manifestId ++
      " requires attestation_ref — none present"⟩
  else
    match given manifest.attestationRef with
    | none => return ()
    | some ref => do
      let raw ← o.registry.metadata.get ("attestations/" ++ ref)
      match raw with
      | none => .raise ⟨.attestationError, "Attestation ref " ++ ref ++ " not found in etcd"⟩
      | some _ => return ()

/-- `_fetch_payload`. -/
def fetchPayload (manifest : RestoreManifest) : Store Bytes := do
  let (_, payload) ← o.registry.checkpoints.getCheckpoint o.core manifest.checkpointId
  match given manifest.payloadHash with
  | none => return payload
  | some payloadHash =>
    let computed := "sha256:" ++ hexdigest (o.sha256 payload)
    if computed = payloadHash then return payload
    else
      .raise ⟨.manifestError, "Payload hash mismatch for checkpoint " ++ manifest.checkpointId ++
        ": computed=" ++ computed ++ " stored=" ++ payloadHash⟩

def replayEvents (manifest : RestoreManifest) (stream : String := "gaia-checkpoints") :
    Store Nat := do
  match given manifest.causalCursor with
  | none => return 0
  | some cursor =>
    match pyInt (replace cursor "seq:" "") with
    | none =>
      .raise ⟨.causalReplayError, "causal_cursor format unrecognized: " ++ o.repr cursor ++
        " — expected 'seq:<int>'"⟩
    | some afterSeq => do
      let events ← JetStreamEventStore.readEvents o.core stream (some afterSeq) 1000
      if events.isEmpty then
        .raise ⟨.causalReplayError, "Causal replay found zero events after cursor " ++ cursor ++
          " — cannot verify continuity for manifest " ++ manifest.manifestId⟩
      else return events.length

/-- `_check_criu_invariant`. -/
def checkCriuInvariant (manifest : RestoreManifest) : Store Unit :=
  if manifest.restorePath = .criuMigration ∧ given manifest.admissibilityPolicyRef = none then
    .raise ⟨.manifestError, "CRIU_MIGRATION restore path requires admissibility_policy_ref — " ++
      "CRIU must always be policy-gated and cannot be the sole recovery path"⟩
  else return ()

/-- The key of a node's trust state, before the namespace. -/
def trustKey (nodeId : String) : String := "nodes/" ++ nodeId ++ "/trust"

/-- The class that `promote_trust` grants. -/
def grantedClass (manifest : RestoreManifest) : TrustClass :=
  let crossHostPaths : List RestorePath := [.crossHost, .k8sStatefulRestore, .criuMigration]
  if manifest.restorePath ∈ crossHostPaths then .degraded
  else if manifest.restorePath = .quarantinedForeignHost then .quarantined
  else manifest.requestedTrustClass

def promoteTrust (manifest : RestoreManifest) : Store TrustClass := do
  let granted := grantedClass manifest
  let newValue := encode (o.core.trustValue granted)
  match givenStr manifest.splitBrainToken with
  | some token => do
    let expected ← lift token.encode
    let swapped ← o.registry.metadata.compareAndSwap (trustKey manifest.nodeId) expected newValue
    if swapped then return granted
    else
      .raise ⟨.trustPromotionError, "Split-brain CAS failed for node " ++ manifest.nodeId ++
        " — another restore may have already claimed this node"⟩
  | none => do
    o.registry.metadata.put (trustKey manifest.nodeId) newValue
    return granted

def restore (manifestId : String) : Store RestoreResult := do
  let manifest ← o.loadManifest manifestId
  o.verifyHashes manifest
  o.verifyAttestation manifest
  let payload ← o.fetchPayload manifest
  let eventsReplayed ← o.replayEvents manifest
  checkCriuInvariant manifest
  let granted ← o.promoteTrust manifest
  return {
    manifestId := manifestId
    nodeId := manifest.nodeId
    restorePath := manifest.restorePath
    eventsReplayed := eventsReplayed
    grantedTrustClass := granted
    payload := payload }

end RestoreOrchestrator

end Restore

end Gaia
