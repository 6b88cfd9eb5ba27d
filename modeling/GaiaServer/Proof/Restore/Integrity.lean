import GaiaServer.Proof.Restore.Atomic

/-!
# From the manifest to the payload

A restore that returns has read the manifest stored under its id, has found that
`manifest_hash` ends with the digest of the manifest's canonical form, and returns the
payload stored under `checkpoint_id`. If the manifest carries a payload hash, it is the
payload's; if it carries none, or an empty one, nothing is compared
(`payload_authenticated`).
-/

namespace Gaia.Restore

open Storage World RestoreOrchestrator

variable {o : RestoreOrchestrator} {w w' : World} {M : RestoreManifest} {id : String}

theorem Checked.sha256Dict {payload : Bytes} {n : Nat} (h : Checked o w id M payload n) :
    ∃ digest, o.sha256Dict ((o.core.manifestWire M).filter fun item =>
      item.1 ≠ .str "manifest_hash") = .ok digest ∧ endsWith M.manifestHash digest = true := by
  obtain ⟨canonical, hdumps, hends⟩ := h.hashed
  refine ⟨_, ?_, hends⟩
  rw [RestoreOrchestrator.sha256Dict, hdumps]
  rfl

/-- The payload has the manifest's payload hash exactly if there is one. -/
theorem Checked.payloadHash_iff {payload : Bytes} {n : Nat} (h : Checked o w id M payload n) :
    M.payloadHash = some ("sha256:" ++ hexdigest (o.sha256 payload)) ↔
      given M.payloadHash ≠ none := by
  constructor
  · intro he
    have hne : "sha256:" ++ hexdigest (o.sha256 payload) ≠ "" := by
      rw [Ne, ← String.toList_inj]
      simp
    rw [given_eq_some.mpr ⟨he, hne⟩]
    exact Option.some_ne_none _
  · intro hg
    obtain ⟨hash, hhash⟩ := Option.ne_none_iff_exists'.mp hg
    rw [h.payloadHash hash hhash]
    exact (given_eq_some.mp hhash).1

/-- Whenever a restore returns: the manifest stored under its id matches its own
`manifest_hash`, the payload returned is the one stored, beside a reference that
decodes, under the manifest's `checkpoint_id`, and it has the manifest's
`payload_hash` exactly if this is given and not empty. -/
theorem payload_authenticated {r : RestoreResult}
    (h : (o.restore id).run handle w = (.ok r, w')) :
    ∃ M, (∃ raw, stored? o w ("manifests/" ++ id) = some raw ∧ o.core.readManifest raw = .ok M) ∧
      (∃ digest, o.sha256Dict ((o.core.manifestWire M).filter fun item =>
        item.1 ≠ .str "manifest_hash") = .ok digest ∧ endsWith M.manifestHash digest = true) ∧
      (∃ data ref, object? o w (MinIOCheckpointStore.manifestKey M.checkpointId) = some data ∧
        o.core.readCheckpointRef data = .ok ref) ∧
      object? o w (MinIOCheckpointStore.payloadKey M.checkpointId) = some r.payload ∧
      (M.payloadHash = some ("sha256:" ++ hexdigest (o.sha256 r.payload)) ↔
        given M.payloadHash ≠ none) := by
  obtain ⟨M, payload, n, hM, rfl, -⟩ := restore_run.mp h
  exact ⟨M, hM.stored, hM.sha256Dict, hM.readable, hM.fetched, hM.payloadHash_iff⟩

/-! ## With a payload hash, and without -/

def payloadDigest : Bytes :=
  [128, 139, 89, 102, 75, 106, 219, 146, 116, 227, 187, 208, 118, 110, 122, 236, 150, 89, 120, 108,
    34, 253, 184, 37, 196, 156, 167, 253, 161, 198, 35, 110]

/-- The soft restart, with the hash of its payload. -/
def hashedManifest : RestoreManifest :=
  { softManifest with
    manifestHash := "sha256:e775047b9bd73f4992fe5a5c37b64c4e92fbf1f5857633ea41bdb2f50451ea21"
    payloadHash :=
      some "sha256:808b59664b6adb9274e3bbd0766e7aec9659786c22fdb825c49ca7fda1c6236e" }

def hashedWire : List (PyKey × PyVal) :=
  [(.str "manifest_id", .str "m1"), (.str "checkpoint_id", .str "c1"),
    (.str "node_id", .str "alpha"),
    (.str "restore_path", .str "soft_restart"), (.str "requested_trust_class", .str "trusted"),
    (.str "manifest_hash", .str hashedManifest.manifestHash),
    (.str "payload_hash",
      .str "sha256:808b59664b6adb9274e3bbd0766e7aec9659786c22fdb825c49ca7fda1c6236e"),
    (.str "causal_cursor", .none), (.str "attestation_ref", .none),
    (.str "admissibility_policy_ref", .none), (.str "split_brain_token", .none)]

def hashedCanonical : String :=
  "\x7b\"admissibility_policy_ref\":null,\"attestation_ref\":null,\"causal_cursor\":null," ++
    "\"checkpoint_id\":\"c1\",\"manifest_id\":\"m1\",\"node_id\":\"alpha\",\"payload_hash\":" ++
    "\"sha256:808b59664b6adb9274e3bbd0766e7aec9659786c22fdb825c49ca7fda1c6236e\"," ++
    "\"requested_trust_class\":\"trusted\"," ++
    "\"restore_path\":\"soft_restart\",\"split_brain_token\":null\x7d"

def hashedDigest : Bytes :=
  [231, 117, 4, 123, 155, 215, 63, 73, 146, 254, 90, 92, 55, 182, 76, 78, 146, 251, 241, 245, 133,
    118, 51, 234, 65, 189, 178, 245, 4, 81, 234, 33]

/-- An orchestrator whose hash knows the payload too. -/
def hashedRestart : RestoreOrchestrator :=
  { sample hashedManifest hashedWire hashedCanonical hashedDigest with
    sha256 := fun b =>
      if b = encode "payload-bytes" then payloadDigest
      else if b = encode hashedCanonical then hashedDigest
      else [] }

theorem hashed_sha256_payload : hashedRestart.sha256 (encode "payload-bytes") = payloadDigest := by
  simp only [hashedRestart, if_true]

theorem hashed_sha256_canonical : hashedRestart.sha256 (encode hashedCanonical) = hashedDigest := by
  have hne : hashedCanonical ≠ "payload-bytes" := by decide +kernel
  simp only [hashedRestart, encode_inj, hne, if_false, if_true]

theorem hashed_checked :
    Checked hashedRestart (sampleWorld hashedWire "unverified") "m1" hashedManifest
      (encode "payload-bytes") 0 where
  stored := ⟨_, sample_manifest hashedManifest hashedWire hashedCanonical hashedDigest _,
    sample_readManifest hashedManifest hashedWire hashedCanonical hashedDigest⟩
  signed := by decide
  hashed := ⟨hashedCanonical, by decide +kernel, by
    rw [hashed_sha256_canonical]
    decide +kernel⟩
  attested := by decide
  attestation := nofun
  readable := ⟨_, _, sample_reference hashedManifest hashedWire hashedCanonical hashedDigest _,
    sample_readCheckpointRef hashedManifest hashedWire hashedCanonical hashedDigest⟩
  fetched := sample_payload hashedManifest hashedWire hashedCanonical hashedDigest _
  payloadHash := fun hash hh => by
    rw [hashed_sha256_payload, ← Option.some.inj hh]
    decide +kernel
  noCursor := fun _ => rfl
  replayed := nofun
  gated := nofun

/-- The payload restored has the hash that its manifest carries. -/
theorem hashed_payload : ∃ r w',
    (hashedRestart.restore "m1").run handle (sampleWorld hashedWire "unverified") = (.ok r, w') ∧
      hashedManifest.payloadHash =
        some ("sha256:" ++ hexdigest (hashedRestart.sha256 r.payload)) := by
  have hrun := restore_run.mpr ⟨hashedManifest, encode "payload-bytes", 0,
    ⟨hashed_checked, nofun⟩, rfl, rfl⟩
  obtain ⟨M, ⟨raw, hs, hr⟩, -, -, -, hiff⟩ := payload_authenticated hrun
  obtain ⟨raw', hs', hr'⟩ := hashed_checked.stored
  obtain rfl := Option.some.inj (hs.symm.trans hs')
  obtain rfl := Except.ok.inj (hr.symm.trans hr')
  exact ⟨_, _, hrun, hiff.mpr (by decide)⟩

/-- A manifest without a payload hash restores whatever payload is stored. -/
theorem unhashed_payload :
    (∃ raw, stored? softRestart (sampleWorld softWire "unverified") ("manifests/" ++ "m1") =
        some raw ∧ softRestart.core.readManifest raw = .ok softManifest) ∧
      ∃ r w', (softRestart.restore "m1").run handle (sampleWorld softWire "unverified") =
        (.ok r, w') ∧ r.payload = encode "payload-bytes" ∧
        softManifest.payloadHash ≠
          some ("sha256:" ++ hexdigest (softRestart.sha256 r.payload)) := by
  have hrun := restore_run.mpr ⟨softManifest, encode "payload-bytes", 0,
    ⟨soft_checked, nofun⟩, rfl, rfl⟩
  exact ⟨soft_checked.stored, _, _, hrun, rfl, fun h => nomatch h⟩

/-- The reference of another checkpoint, of another node. -/
def foreignRef : CheckpointRef :=
  ⟨"c2", [(.str "node_id", .str "beta"), (.str "state_hash", .str "sha256:00")]⟩

def foreignText : String :=
  "\x7b\"checkpoint_id\": \"c2\", \"node_id\": \"beta\", \"state_hash\": \"sha256:00\"\x7d"

/-- The orchestrator, with a codec that knows that reference. -/
def foreignRestart : RestoreOrchestrator :=
  { hashedRestart with
    core := { hashedRestart.core with
      readCheckpointRef := fun raw =>
        if raw = encode foreignText then .ok foreignRef else .error ⟨.valueError, "unknown"⟩ } }

/-- The stores, with that reference beside the payload. -/
def foreignWorld : World :=
  { sampleWorld hashedWire "unverified" with
    objects := (sampleWorld hashedWire "unverified").objects.set
      ("gaia-checkpoints", "checkpoints/c1/manifest.json") (encode foreignText) }

theorem foreign_readable :
    object? foreignRestart foreignWorld (MinIOCheckpointStore.manifestKey "c1") =
      some (encode foreignText) ∧
    foreignRestart.core.readCheckpointRef (encode foreignText) = .ok foreignRef :=
  ⟨Dict.get?_set_self .., by simp only [foreignRestart, if_true]⟩

theorem foreign_checked : Checked foreignRestart foreignWorld "m1" hashedManifest
    (encode "payload-bytes") 0 where
  stored := hashed_checked.stored
  signed := hashed_checked.signed
  hashed := hashed_checked.hashed
  attested := hashed_checked.attested
  attestation := nofun
  readable := ⟨_, _, foreign_readable⟩
  fetched := (Dict.get?_set_of_ne (by decide) ..).trans hashed_checked.fetched
  payloadHash := hashed_checked.payloadHash
  noCursor := fun _ => rfl
  replayed := nofun
  gated := nofun

/-- The reference is read, but not compared: the payload is returned beside that of another
checkpoint. -/
theorem foreign_reference : ∃ r w',
    (foreignRestart.restore "m1").run handle foreignWorld = (.ok r, w') ∧
    object? foreignRestart foreignWorld
      (MinIOCheckpointStore.manifestKey hashedManifest.checkpointId) =
        some (encode foreignText) ∧
    foreignRestart.core.readCheckpointRef (encode foreignText) = .ok foreignRef ∧
    foreignRef.checkpointId ≠ hashedManifest.checkpointId :=
  ⟨_, _, restore_run.mpr ⟨hashedManifest, encode "payload-bytes", 0,
    ⟨foreign_checked, nofun⟩, rfl, rfl⟩, foreign_readable.1, foreign_readable.2, by decide⟩

end Gaia.Restore
