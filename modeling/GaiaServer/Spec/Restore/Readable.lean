import GaiaServer.Spec.Restore.Admissible

/-!
# Readable manifests

What a restore reads after the manifest itself: the checkpoint and the events
after the cursor. `Readable` says that the stores hold it in a form that the
steps which read it take, and that its token encodes, as far as the steps before them
let the restore get.
-/

namespace Gaia.Restore

open Storage RestoreOrchestrator

variable (o : RestoreOrchestrator) (w : World) (M : RestoreManifest)

/-- The manifest that is stored, decodes and is signed under an id. -/
def Loaded (id : String) : Prop :=
  (∃ raw, stored? o w ("manifests/" ++ id) = some raw ∧ o.core.readManifest raw = .ok M) ∧
    M.manifestHash ≠ ""

/-- The text whose hash the manifest carries. -/
def hashText : Except Exc String :=
  jsonDumps { sortKeys := true, itemSep := ",", keySep := ":" }
    (.dict ((o.core.manifestWire M).filter fun item => item.1 ≠ .str "manifest_hash"))

/-- The manifest has the attestation that it needs and names. -/
def Attested : Prop :=
  (M.restorePath ∈ crossHost → given M.attestationRef ≠ none) ∧
    ∀ ref, given M.attestationRef = some ref → (stored? o w ("attestations/" ++ ref)).isSome

/-- The checkpoint reference is stored and decodes, or is refused with a
`RestoreError`; and the payload of one that decodes is stored. -/
def CheckpointReadable : Prop :=
  ∃ data, object? o w (MinIOCheckpointStore.manifestKey M.checkpointId) = some data ∧
    (∀ e, o.core.readCheckpointRef data = .error e → e.cls.isRestoreError) ∧
    ∀ ref, o.core.readCheckpointRef data = .ok ref →
      (object? o w (MinIOCheckpointStore.payloadKey M.checkpointId)).isSome

/-- The payload under the manifest's checkpoint has the hash that the manifest
carries, if it carries one. -/
def PayloadMatches : Prop :=
  ∃ payload, object? o w (MinIOCheckpointStore.payloadKey M.checkpointId) = some payload ∧
    ∀ h, given M.payloadHash = some h → "sha256:" ++ hexdigest (o.sha256 payload) = h

/-- A cursor that is a number is one that a sequence number comes after, and names events
of a stream that exists, of whose first 1000 each decodes, up to one that ends the
replay or is refused with a `RestoreError`. -/
def EventsReadable (stream : String) : Prop :=
  ∀ cursor, given M.causalCursor = some cursor → ∀ n, pyInt (replace cursor "seq:" "") = some n →
    (w.streamFor (stream ++ ".>")).isSome ∧ (0 ≤ n ∧ n < maxSeq) ∧
      ∀ read m unread, (w.tail stream n).take 1000 = read ++ m :: unread →
        (∀ x ∈ read, ∃ envelope, o.core.readEnvelope x.data = .ok envelope) →
        ∀ e, o.core.readEnvelope m.data = .error e →
          e.cls = .natsTimeoutError ∨ e.cls.isRestoreError

/-- The replay gets through. -/
def Replays : Prop :=
  ∀ cursor, given M.causalCursor = some cursor → ∃ n events,
    pyInt (replace cursor "seq:" "") = some n ∧
    w.eventsAfter o.core "gaia-checkpoints" (some n) 1000 = .ok events ∧ events ≠ []

/-- The token can be encoded. -/
def TokenEncodes : Prop :=
  ∀ token, givenStr M.splitBrainToken = some token → ∃ expected, token.encode = .ok expected

/-- The manifest's wire form is text; if its hash and attestation hold, the
checkpoint is readable; if the payload's hash holds too, so are the events; and if the
replay and the policy let the restore get to it, the token encodes. -/
def Readable : Prop :=
  ∃ canonical, hashText o M = .ok canonical ∧
    (endsWith M.manifestHash (hexdigest (o.sha256 (encode canonical))) = true → Attested o w M →
      CheckpointReadable o w M ∧
        ((∃ data ref, object? o w (MinIOCheckpointStore.manifestKey M.checkpointId) = some data ∧
            o.core.readCheckpointRef data = .ok ref) →
          PayloadMatches o w M → EventsReadable o w M "gaia-checkpoints" ∧
            (Replays o w M →
              (M.restorePath = .criuMigration → given M.admissibilityPolicyRef ≠ none) →
                TokenEncodes M)))

end Gaia.Restore
