import GaiaServer.Proof.Restore.Steps

/-!
# Restores are atomic

The checks only read, and read neither node's trust state (`checks_only`). So
whatever operation raises, a restore that raises has changed nothing, and one
that returns has written the trust state of its node (`restore_exec`). Under no
namespace is that key a manifest's, an attestation's or another node's
(`manifestKey_ne_trustKey`, `attestationKey_ne_trustKey`, `trustKey_inj`).
Together: `restore_atomic`.
-/

namespace Gaia.Restore

open Storage World RestoreOrchestrator
open Prog (Exec Only only_perform bind_eq)

variable {o : RestoreOrchestrator} {w w' : World} {M : RestoreManifest} {id : String}

/-! ## Keys -/

theorem manifestKey_ne_trustKey (s : EtcdMetadataStore) (id n : String) :
    s.key ("manifests/" ++ id) ≠ s.key (trustKey n) := by
  rw [Ne, s.key_inj (by simp) (by simp [trustKey]), ← String.toList_inj]
  simp [trustKey]

theorem attestationKey_ne_trustKey (s : EtcdMetadataStore) (ref n : String) :
    s.key ("attestations/" ++ ref) ≠ s.key (trustKey n) := by
  rw [Ne, s.key_inj (by simp) (by simp [trustKey]), ← String.toList_inj]
  simp [trustKey]

theorem trustKey_inj (s : EtcdMetadataStore) {n n' : String} :
    s.key (trustKey n) = s.key (trustKey n') ↔ n = n' := by
  rw [s.key_inj (by simp [trustKey]) (by simp [trustKey]), ← String.toList_inj]
  simp [trustKey, String.toList_inj]

/-! ## The checks only read -/

/-- Reads of anything but the node's trust state. -/
def Reads (o : RestoreOrchestrator) (n : String) (op : StoreOp) : Prop :=
  op.ReadsOutside (o.registry.metadata.key (trustKey n))

namespace RestoreOrchestrator

theorem loadManifest_only (n : String) : (o.loadManifest id).Only (Reads o n) := by
  refine Only.bind (only_perform.mpr (manifestKey_ne_trustKey _ _ _)) fun raw => ?_
  cases raw with
  | none => trivial
  | some raw =>
    dsimp only
    cases o.core.readManifest raw with
    | error exc => trivial
    | ok M => dsimp only; split <;> trivial

theorem verifyHashes_only (n : String) : (o.verifyHashes M).Only (Reads o n) := by
  refine Only.bind (Prog.only_lift _) fun computed => ?_
  split <;> trivial

theorem verifyAttestation_only (n : String) : (o.verifyAttestation M).Only (Reads o n) := by
  rw [verifyAttestation]
  split
  · trivial
  · split
    · trivial
    · refine Only.bind (only_perform.mpr (attestationKey_ne_trustKey _ _ _)) fun raw => ?_
      cases raw <;> trivial

theorem fetchPayload_only (n : String) : (o.fetchPayload M).Only (Reads o n) := by
  refine Only.bind ?_ fun c => ?_
  · refine Only.bind (only_perform.mpr trivial) fun data => ?_
    refine Only.bind (Prog.only_lift _) fun ref => ?_
    exact Only.bind (only_perform.mpr trivial) fun payload => trivial
  · dsimp only
    split
    · trivial
    · split <;> trivial

theorem readLoop_only (n : String) (sub : Subscription) (rounds : Nat)
    (results : List EventEnvelope) :
    (JetStreamEventStore.readLoop o.core sub rounds results).Only (Reads o n) := by
  induction rounds generalizing results with
  | zero => trivial
  | succ rounds ih =>
    refine Only.bind (Only.tryCatch ?_ fun exc => ?_) fun next => ?_
    · refine Only.bind (Only.bind (only_perform.mpr trivial) fun data => ?_) fun _ => trivial
      exact Prog.only_lift _
    · split <;> trivial
    · cases next with
      | none => trivial
      | some envelope => exact ih _

theorem replayEvents_only (n : String) : (o.replayEvents M).Only (Reads o n) := by
  rw [replayEvents]
  split
  · trivial
  · split
    · trivial
    · refine Only.bind (Only.bind (only_perform.mpr trivial) fun sub => ?_) fun events => ?_
      · exact (readLoop_only n sub _ _).tryFinally (only_perform.mpr trivial)
      · split <;> trivial

theorem checks_only (o : RestoreOrchestrator) (id n : String) : (o.checks id).Only (Reads o n) := by
  refine Only.bind (loadManifest_only n) fun M => ?_
  refine Only.bind (verifyHashes_only n) fun _ => ?_
  refine Only.bind (verifyAttestation_only n) fun _ => ?_
  refine Only.bind (fetchPayload_only n) fun payload => ?_
  refine Only.bind (replayEvents_only n) fun k => ?_
  refine Only.bind ?_ fun _ => trivial
  rw [checkCriuInvariant]
  split <;> trivial

theorem promoteTrust_exec {r : Except Exc TrustClass} (hx : Exec handle (o.promoteTrust M) w r w') :
    (∃ e, r = .error e ∧ w' = w) ∨ (r = .ok (grantedClass M) ∧ w' = promoted o w M) := by
  cases ht : givenStr M.splitBrainToken with
  | none =>
    rw [promoteTrust, ht] at hx
    cases hx with
    | effect hx => cases hx; exact .inr ⟨rfl, rfl⟩
    | fault e hx => cases hx; exact .inl ⟨_, rfl, rfl⟩
  | some token =>
    cases he : token.encode with
    | error exc =>
      rw [promoteTrust_unencodable ht he] at hx
      cases hx; exact .inl ⟨_, rfl, rfl⟩
    | ok expected =>
      rw [promoteTrust_eq ht he] at hx
      cases hx with
      | effect hx =>
        simp only [handle] at hx
        split at hx
        · cases hx; exact .inr ⟨rfl, rfl⟩
        · cases hx; exact .inl ⟨_, rfl, rfl⟩
      | fault e hx => cases hx; exact .inl ⟨_, rfl, rfl⟩

/-- A restore, whichever operations raise. -/
theorem restore_exec {r : Except Exc RestoreResult} (hx : Exec handle (o.restore id) w r w') :
    (∃ e, r = .error e ∧ w' = w) ∨
      ∃ M payload n, r = .ok (result id M payload n) ∧ w' = promoted o w M := by
  rw [restore_eq] at hx
  rcases hx.bind_inv with ⟨e, hc, rfl⟩ | ⟨⟨M, payload, n⟩, w₁, hc, hf⟩
  · exact .inl ⟨e, rfl, hc.only_reads (fun op s h => handle_reads h s) (checks_only o id "")⟩
  · obtain rfl := hc.only_reads (fun op s h => handle_reads h s) (checks_only o id "")
    rcases hf.bind_inv with ⟨e, hp, rfl⟩ | ⟨granted, w₂, hp, hr⟩
    · exact (promoteTrust_exec hp).imp (fun ⟨_, _, h⟩ => ⟨e, rfl, h⟩) fun h => nomatch h.1
    · cases hr
      rcases promoteTrust_exec hp with ⟨_, h, -⟩ | ⟨h, rfl⟩
      · cases h
      · cases h; exact .inr ⟨M, payload, n, rfl, rfl⟩

end RestoreOrchestrator

/-- Whichever operations raise, a restore that raises leaves the stores as they
were, and one that returns has changed its node's trust state only; and that
state shares its key with no manifest, attestation or other node. -/
theorem restore_atomic {r : Except Exc RestoreResult} (hx : Exec handle (o.restore id) w r w') :
    (∀ e, r = .error e → w' = w) ∧
    (∀ res, r = .ok res → ∃ v, w' = { w with
      etcd := w.etcd.set (o.registry.metadata.key (trustKey res.nodeId)) v }) ∧
    ∀ (s : EtcdMetadataStore) (n : String),
      (∀ id, s.key ("manifests/" ++ id) ≠ s.key (trustKey n)) ∧
      (∀ ref, s.key ("attestations/" ++ ref) ≠ s.key (trustKey n)) ∧
      ∀ n', n' ≠ n → s.key (trustKey n') ≠ s.key (trustKey n) := by
  refine ⟨fun e he => ?_, fun res hr => ?_, fun s n => ⟨fun id => ?_, fun ref => ?_, ?_⟩⟩
  · rcases restore_exec hx with ⟨_, _, h⟩ | ⟨M, payload, n, h, _⟩
    · exact h
    · rw [he] at h; cases h
  · rcases restore_exec hx with ⟨_, h, _⟩ | ⟨M, payload, n, h, rfl⟩
    · rw [hr] at h; cases h
    · obtain rfl := Except.ok.inj (hr.symm.trans h)
      exact ⟨_, rfl⟩
  · exact manifestKey_ne_trustKey s id n
  · exact attestationKey_ne_trustKey s ref n
  · intro n' hn h
    exact hn ((trustKey_inj s).mp h)

/-! ## A put that is lost -/

/-- A wire form as stored. -/
def stored (wire : List (PyKey × PyVal)) : Bytes :=
  encode ((Json.dumps {} (.dict wire)).toOption.getD "")

/-- A checkpoint reference as stored. -/
def storedRef : Bytes := encode "\x7b\"checkpoint_id\": \"c1\"\x7d"

/-- An orchestrator whose codec knows one manifest, by its wire form, and whose
hash knows the text of that form without the hash. -/
def sample (M : RestoreManifest) (wire : List (PyKey × PyVal)) (canonical : String)
    (digest : Bytes) : RestoreOrchestrator where
  core := {
    readManifest := fun raw =>
      if raw = stored wire then .ok M
      else .error ⟨.valueError, "unknown"⟩
    manifestWire := fun _ => wire
    readCheckpointRef := fun raw =>
      if raw = storedRef then .ok ⟨"c1", []⟩
      else .error ⟨.valueError, "unknown"⟩
    checkpointRefWire := fun ref => (.str "checkpoint_id", .str ref.checkpointId) :: ref.rest
    readEnvelope := fun _ => .error ⟨.valueError, "unknown"⟩
    envelopeWire := fun e =>
      (.str "stream", .str e.stream) :: (.str "topic", .str e.topic) :: e.rest
    trustValue := fun
      | .trusted => "trusted"
      | .degraded => "degraded"
      | .quarantined => "quarantined"
      | .unverified => "unverified"
      | .other name => name }
  sha256 := fun b => if b = encode canonical then digest else []
  repr := fun s => "'" ++ s ++ "'"

section

variable (M : RestoreManifest) (wire : List (PyKey × PyVal)) (canonical : String) (digest : Bytes)

theorem sample_readManifest :
    (sample M wire canonical digest).core.readManifest (stored wire) = .ok M :=
  if_pos rfl

theorem sample_readCheckpointRef : (sample M wire canonical digest).core.readCheckpointRef
    storedRef = .ok ⟨"c1", []⟩ := by
  simp only [sample, if_true]

theorem sample_sha256 : (sample M wire canonical digest).sha256 (encode canonical) = digest :=
  if_pos rfl

end

/-- Stores with that manifest under `m1`, an attestation, a checkpoint and the
trust state of node `alpha`. -/
def sampleWorld (wire : List (PyKey × PyVal)) (trust : String) : World where
  etcd := ((Dict.empty.set "/gaia/manifests/m1" (stored wire)).set "/gaia/attestations/att1"
    (encode "present")).set "/gaia/nodes/alpha/trust" (encode trust)
  objects := (Dict.empty.set ("gaia-checkpoints", "checkpoints/c1/manifest.json")
    storedRef).set
      ("gaia-checkpoints", "checkpoints/c1/payload.bin") (encode "payload-bytes")
  streams := .empty

section

variable (M : RestoreManifest) (wire : List (PyKey × PyVal)) (canonical : String) (digest : Bytes)
  (trust : String)

theorem sample_manifest :
    stored? (sample M wire canonical digest) (sampleWorld wire trust) ("manifests/" ++ "m1") =
      some (stored wire) := by
  rfl

theorem sample_reference :
    object? (sample M wire canonical digest) (sampleWorld wire trust)
      (MinIOCheckpointStore.manifestKey "c1") = some storedRef := by
  rfl

theorem sample_payload :
    object? (sample M wire canonical digest) (sampleWorld wire trust)
      (MinIOCheckpointStore.payloadKey "c1") = some (encode "payload-bytes") := by
  rfl

end

/-- A soft restart, with no optional field. -/
def softManifest : RestoreManifest where
  manifestId := "m1"
  checkpointId := "c1"
  nodeId := "alpha"
  restorePath := .softRestart
  requestedTrustClass := .trusted
  manifestHash := "sha256:b714758bc620b8e0adc1100d7fe5ebfe878186a6b26f12f2174d1cc2642e812f"
  payloadHash := none
  causalCursor := none
  attestationRef := none
  admissibilityPolicyRef := none
  splitBrainToken := none
  rest := []

def softWire : List (PyKey × PyVal) :=
  [(.str "manifest_id", .str "m1"), (.str "checkpoint_id", .str "c1"),
    (.str "node_id", .str "alpha"),
    (.str "restore_path", .str "soft_restart"), (.str "requested_trust_class", .str "trusted"),
    (.str "manifest_hash", .str softManifest.manifestHash), (.str "payload_hash", .none),
    (.str "causal_cursor", .none), (.str "attestation_ref", .none),
    (.str "admissibility_policy_ref", .none), (.str "split_brain_token", .none)]

def softCanonical : String :=
  "\x7b\"admissibility_policy_ref\":null,\"attestation_ref\":null,\"causal_cursor\":null," ++
    "\"checkpoint_id\":\"c1\",\"manifest_id\":\"m1\",\"node_id\":\"alpha\"," ++
    "\"payload_hash\":null,\"requested_trust_class\":\"trusted\"," ++
    "\"restore_path\":\"soft_restart\",\"split_brain_token\":null\x7d"

def softDigest : Bytes :=
  [183, 20, 117, 139, 198, 32, 184, 224, 173, 193, 16, 13, 127, 229, 235, 254, 135, 129, 134, 166,
    178, 111, 18, 242, 23, 77, 28, 194, 100, 46, 129, 47]

def softRestart : RestoreOrchestrator := sample softManifest softWire softCanonical softDigest

theorem soft_canonical :
    jsonDumps { sortKeys := true, itemSep := ",", keySep := ":" }
      (.dict (softWire.filter fun item => item.1 ≠ .str "manifest_hash")) = .ok softCanonical := by
  decide +kernel

theorem soft_checked :
    Checked softRestart (sampleWorld softWire "unverified") "m1" softManifest
      (encode "payload-bytes") 0 where
  stored := ⟨_, sample_manifest .., sample_readManifest ..⟩
  signed := by decide
  hashed := ⟨softCanonical, soft_canonical, by
    rw [softRestart, sample_sha256]
    decide +kernel⟩
  attested := by decide
  attestation := nofun
  readable := ⟨_, _, sample_reference .., sample_readCheckpointRef ..⟩
  fetched := sample_payload ..
  payloadHash := nofun
  noCursor := fun _ => rfl
  replayed := nofun
  gated := nofun

/-- A soft restart whose put is lost, and its exception. -/
theorem lost_put : ∃ w', Exec handle (softRestart.restore "m1") (sampleWorld softWire "unverified")
    (.error ⟨.other "ConnectionFailedError", "etcd connection failed"⟩) w' ∧
      w' = sampleWorld softWire "unverified" := by
  have hx : Exec handle (softRestart.restore "m1") (sampleWorld softWire "unverified")
      (.error ⟨.other "ConnectionFailedError", "etcd connection failed"⟩)
      (sampleWorld softWire "unverified") := by
    have hc := Exec.of_run (h := handle) (softRestart.checks "m1")
      (sampleWorld softWire "unverified")
    rw [checks_run.mpr ⟨soft_checked, rfl⟩] at hc
    rw [restore_eq]
    exact hc.bind (.fault _ .raise)
  exact ⟨_, hx, (restore_atomic hx).1 _ rfl⟩

end Gaia.Restore
