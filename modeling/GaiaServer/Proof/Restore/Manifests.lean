import GaiaServer.Proof.Restore.Integrity

/-!
# Which manifest, and which hash

`load_manifest` and then `verify_hashes` (`loadVerified`) return the manifest stored
under the id, if its hash is its own (`loadVerified_run`). That the id it carries is
the one asked for is checked nowhere: it is, exactly if what is stored under the id
is no signed manifest of another id (`loaded_id_iff`).

A hash is its own if the digest ends it (`admits_iff`), whatever stands before the
digest. So the hashes that one content admits differ in their tags
(`admitted_hash_iff`), and any content that has a digest admits more than one.
-/

namespace Gaia.Restore

open Storage World RestoreOrchestrator
open Prog (run_bind_ok run_bind_eq_ok)

variable {o : RestoreOrchestrator} {w w' : World} {M : RestoreManifest} {id h h' : String}

/-- What the hash of a manifest is taken of. -/
def content (o : RestoreOrchestrator) (M : RestoreManifest) : List (PyKey × PyVal) :=
  (o.core.manifestWire M).filter fun item => item.1 ≠ .str "manifest_hash"

/-- The manifest has a hash, and its own. -/
def Signed (o : RestoreOrchestrator) (M : RestoreManifest) : Prop :=
  M.manifestHash ≠ "" ∧ ∃ digest, o.sha256Dict (content o M) = .ok digest ∧
    endsWith M.manifestHash digest = true

/-- `load_manifest`, then `verify_hashes`. -/
def loadVerified (o : RestoreOrchestrator) (id : String) : Store RestoreManifest := do
  let manifest ← o.loadManifest id
  o.verifyHashes manifest
  return manifest

/-- Under the id's key, a signed manifest of another id is stored. -/
def Misfiled (o : RestoreOrchestrator) (w : World) (id : String) : Prop :=
  ∃ raw M, stored? o w ("manifests/" ++ id) = some raw ∧ o.core.readManifest raw = .ok M ∧
    Signed o M ∧ M.manifestId ≠ id

/-! ## The id -/

theorem sha256Dict_eq_ok {d : List (PyKey × PyVal)} {digest : String} :
    o.sha256Dict d = .ok digest ↔
      ∃ canonical, jsonDumps { sortKeys := true, itemSep := ",", keySep := ":" } (.dict d) =
        .ok canonical ∧ digest = hexdigest (o.sha256 (encode canonical)) := by
  rw [sha256Dict]
  cases jsonDumps { sortKeys := true, itemSep := ",", keySep := ":" } (.dict d) with
  | error exc => simp [bind, Except.bind]
  | ok canonical => simp [bind, Except.bind, pure, Except.pure, eq_comm]

theorem verifyHashes_ok_iff :
    (o.verifyHashes M).run handle w = (.ok (), w') ↔
      (∃ digest, o.sha256Dict (content o M) = .ok digest ∧
        endsWith M.manifestHash digest = true) ∧ w = w' := by
  rw [verifyHashes_run, content]
  refine and_congr_left fun _ => ?_
  constructor
  · rintro ⟨canonical, hdumps, hends⟩
    exact ⟨_, sha256Dict_eq_ok.mpr ⟨canonical, hdumps, rfl⟩, hends⟩
  · rintro ⟨digest, hdigest, hends⟩
    obtain ⟨canonical, hdumps, rfl⟩ := sha256Dict_eq_ok.mp hdigest
    exact ⟨canonical, hdumps, hends⟩

theorem loadVerified_run :
    (loadVerified o id).run handle w = (.ok M, w') ↔
      (∃ raw, stored? o w ("manifests/" ++ id) = some raw ∧ o.core.readManifest raw = .ok M) ∧
        Signed o M ∧ w = w' := by
  constructor
  · intro hrun
    obtain ⟨M', _, h1, hrun⟩ := (run_bind_eq_ok handle).mp hrun
    obtain ⟨⟨hs, hn⟩, rfl⟩ := loadManifest_run.mp h1
    obtain ⟨_, _, h2, hrun⟩ := (run_bind_eq_ok handle).mp hrun
    obtain ⟨hd, rfl⟩ := verifyHashes_ok_iff.mp h2
    cases hrun
    exact ⟨hs, ⟨hn, hd⟩, rfl⟩
  · rintro ⟨hs, ⟨hn, hd⟩, rfl⟩
    refine (run_bind_ok handle (loadManifest_run.mpr ⟨⟨hs, hn⟩, rfl⟩)).trans ?_
    exact run_bind_ok handle (verifyHashes_ok_iff.mpr ⟨hd, rfl⟩)

/-- The manifest that is loaded and verified carries the id it was asked for by,
exactly if no signed manifest of another id is stored under that id; and then a
restore that returns has used a manifest of that id. -/
theorem loaded_id_iff (o : RestoreOrchestrator) (w : World) (id : String) :
    ((∀ M w', (loadVerified o id).run handle w = (.ok M, w') → M.manifestId = id) ↔
      ¬ Misfiled o w id) ∧
    (¬ Misfiled o w id → ∀ r w', (o.restore id).run handle w = (.ok r, w') →
      ∃ M payload n, (loadVerified o id).run handle w = (.ok M, w) ∧ M.manifestId = id ∧
        r = result id M payload n) := by
  have hiff : (∀ M w', (loadVerified o id).run handle w = (.ok M, w') → M.manifestId = id) ↔
      ¬ Misfiled o w id := by
    constructor
    · rintro hall ⟨raw, M, hraw, hread, hsigned, hid⟩
      exact hid (hall M w (loadVerified_run.mpr ⟨⟨raw, hraw, hread⟩, hsigned, rfl⟩))
    · intro hno M w' hrun
      obtain ⟨⟨raw, hraw, hread⟩, hsigned, -⟩ := loadVerified_run.mp hrun
      by_contra hid
      exact hno ⟨raw, M, hraw, hread, hsigned, hid⟩
  refine ⟨hiff, fun hno r w' hrun => ?_⟩
  obtain ⟨M, payload, n, hM, rfl, -⟩ := restore_run.mp hrun
  have hload : (loadVerified o id).run handle w = (.ok M, w) :=
    loadVerified_run.mpr ⟨hM.stored, ⟨hM.signed, hM.sha256Dict⟩, rfl⟩
  exact ⟨M, payload, n, hload, hiff.mpr hno M w hload, rfl⟩

/-- The soft restart's stores, with its manifest under the id `m2` too. -/
def misfiledWorld : World :=
  { sampleWorld softWire "unverified" with
    etcd := (sampleWorld softWire "unverified").etcd.set "/gaia/manifests/m2" (stored softWire) }

theorem misfiled_stored :
    stored? softRestart misfiledWorld ("manifests/" ++ "m2") = some (stored softWire) := by
  have hkey : softRestart.registry.metadata.key ("manifests/" ++ "m2") = "/gaia/manifests/m2" := by
    decide
  rw [stored?, hkey]
  exact Dict.get?_set_self ..

theorem misfiled_checked :
    Checked softRestart misfiledWorld "m2" softManifest (encode "payload-bytes") 0 :=
  { soft_checked with
    stored := ⟨stored softWire, misfiled_stored, sample_readManifest ..⟩
    attestation := nofun
    replayed := nofun }

/-- A restore of `m2` uses the manifest of `m1`, and answers for `m2`. -/
theorem misfiled_restored :
    (∃ w', (loadVerified softRestart "m2").run handle misfiledWorld = (.ok softManifest, w')) ∧
    (∃ w', (softRestart.restore "m2").run handle misfiledWorld =
      (.ok (result "m2" softManifest (encode "payload-bytes") 0), w')) ∧
    softManifest.manifestId ≠ "m2" := by
  refine ⟨⟨_, loadVerified_run.mpr ⟨misfiled_checked.stored, ⟨misfiled_checked.signed,
    misfiled_checked.sha256Dict⟩, rfl⟩⟩, ⟨_, restore_run.mpr ⟨softManifest, _, 0,
      ⟨misfiled_checked, nofun⟩, rfl, rfl⟩⟩, by decide⟩

/-! ## The hash -/

/-- In the place of the manifest's own hash, `h` passes: it is not empty, and
`verify_hashes` returns. -/
def Admits (o : RestoreOrchestrator) (M : RestoreManifest) (h : String) : Prop :=
  h ≠ "" ∧ ∀ w, (o.verifyHashes { M with manifestHash := h }).run handle w = (.ok (), w)

/-- What stands before the last 64 characters. -/
def tag (h : String) : String := String.ofList (h.toList.take (h.toList.length - 64))

theorem tag_append (p : String) {digest : String} (hlen : digest.toList.length = 64) :
    tag (p ++ digest) = p := by
  rw [tag, String.toList_append, List.length_append, hlen, Nat.add_sub_cancel, List.take_left,
    String.ofList_toList]

section

variable (hsha : ∀ b, (o.sha256 b).length = 32)
  (hwire : ∀ M h, content o { M with manifestHash := h } = content o M)

include hwire in
theorem admits_iff :
    Admits o M h ↔
      h ≠ "" ∧ ∃ digest p, o.sha256Dict (content o M) = .ok digest ∧ h = p ++ digest := by
  refine and_congr_right fun _ => ?_
  simp only [verifyHashes_ok_iff, hwire, and_true, endsWith_iff, exists_and_left]
  exact ⟨fun hall => hall ⟨.empty, .empty, .empty⟩, fun hd _ => hd⟩

include hsha in
theorem length_digest {d : List (PyKey × PyVal)} {digest : String}
    (hd : o.sha256Dict d = .ok digest) : digest.toList.length = 64 := by
  obtain ⟨canonical, -, rfl⟩ := sha256Dict_eq_ok.mp hd
  rw [length_hexdigest, hsha]

include hsha hwire in
theorem admits_of_digest {digest : String} (hd : o.sha256Dict (content o M) = .ok digest)
    (p : String) : Admits o M (p ++ digest) := by
  refine (admits_iff hwire).mpr ⟨fun he => ?_, digest, p, hd, rfl⟩
  have hlen := congrArg (fun s : String => s.toList.length) he
  simp only [String.toList_append, List.length_append, length_digest hsha hd,
    String.toList_empty, List.length_nil] at hlen
  omega

include hsha hwire in
/-- Two hashes that one content admits are equal exactly if their tags are, and one
is the tagged digest exactly if `sha256:` is its tag. A content admits at most one
hash exactly if it has no digest. -/
theorem admitted_hash_iff (M : RestoreManifest) :
    (∀ h h', Admits o M h → Admits o M h' → (h = h' ↔ tag h = tag h')) ∧
    (∀ h digest, Admits o M h → o.sha256Dict (content o M) = .ok digest →
      (h = "sha256:" ++ digest ↔ tag h = "sha256:")) ∧
    ((∀ h h', Admits o M h → Admits o M h' → h = h') ↔
      ∀ digest, o.sha256Dict (content o M) ≠ .ok digest) := by
  have htag : ∀ h digest, Admits o M h → o.sha256Dict (content o M) = .ok digest →
      h = tag h ++ digest := by
    intro h digest ha hd
    obtain ⟨-, digest', p, hd', rfl⟩ := (admits_iff hwire).mp ha
    obtain rfl := Except.ok.inj (hd.symm.trans hd')
    rw [tag_append p (length_digest hsha hd)]
  refine ⟨fun h h' ha ha' => ⟨fun he => he ▸ rfl, fun he => ?_⟩,
    fun h digest ha hd => ⟨fun he => ?_, fun he => ?_⟩, ⟨fun huniq digest hd => ?_, ?_⟩⟩
  · obtain ⟨-, digest, p, hd, -⟩ := (admits_iff hwire).mp ha
    rw [htag h digest ha hd, htag h' digest ha' hd, he]
  · rw [he, tag_append _ (length_digest hsha hd)]
  · rw [← he]
    exact htag h digest ha hd
  · have hboth := huniq _ _ (admits_of_digest hsha hwire hd "") (admits_of_digest hsha hwire hd "x")
    have htags := congrArg tag hboth
    rw [tag_append _ (length_digest hsha hd), tag_append _ (length_digest hsha hd)] at htags
    exact absurd htags (by decide)
  · intro hno h h' ha
    obtain ⟨-, digest, p, hd, -⟩ := (admits_iff hwire).mp ha
    exact absurd hd (hno digest)

end

/-! ## Two hashes of one manifest -/

/-- The wire form of a manifest, field by field. -/
def fieldWire (M : RestoreManifest) : List (PyKey × PyVal) :=
  let optional : Option String → PyVal
    | none => .none
    | some s => .str s
  [(.str "manifest_id", .str M.manifestId), (.str "checkpoint_id", .str M.checkpointId),
    (.str "node_id", .str M.nodeId),
    (.str "restore_path", .str (match M.restorePath with
      | .softRestart => "soft_restart"
      | .crossHost => "cross_host"
      | .k8sStatefulRestore => "k8s_stateful_restore"
      | .quarantinedForeignHost => "quarantined_foreign_host"
      | .criuMigration => "criu_migration"
      | .other name => name)),
    (.str "requested_trust_class", .str (softRestart.core.trustValue M.requestedTrustClass)),
    (.str "manifest_hash", .str M.manifestHash), (.str "payload_hash", optional M.payloadHash),
    (.str "causal_cursor", optional M.causalCursor),
    (.str "attestation_ref", optional M.attestationRef),
    (.str "admissibility_policy_ref", optional M.admissibilityPolicyRef),
    (.str "split_brain_token", match M.splitBrainToken with
      | some (.text token) => .str token
      | _ => .none)] ++ M.rest

/-- An orchestrator whose codec writes every manifest. -/
def fieldRestart : RestoreOrchestrator :=
  { softRestart with
    core := { softRestart.core with manifestWire := fieldWire }
    sha256 := fun b => if b = encode softCanonical then softDigest else List.replicate 32 0 }

theorem field_sha256 (b : Bytes) : (fieldRestart.sha256 b).length = 32 := by
  simp only [fieldRestart]
  split <;> rfl

theorem field_wire (M : RestoreManifest) (h : String) :
    content fieldRestart { M with manifestHash := h } = content fieldRestart M := by
  simp [content, fieldRestart, fieldWire]

theorem field_digest : fieldRestart.sha256Dict (content fieldRestart softManifest) =
    .ok (hexdigest softDigest) := by
  refine sha256Dict_eq_ok.mpr ⟨softCanonical, soft_canonical, ?_⟩
  simp only [fieldRestart, if_true]

/-- The tagged digest and the bare one are two hashes, because their tags differ. -/
theorem tags_differ :
    ("sha256:" ++ hexdigest softDigest = "" ++ hexdigest softDigest) ↔
      tag ("sha256:" ++ hexdigest softDigest) = tag ("" ++ hexdigest softDigest) :=
  (admitted_hash_iff field_sha256 field_wire softManifest).1 _ _
    (admits_of_digest field_sha256 field_wire field_digest "sha256:")
    (admits_of_digest field_sha256 field_wire field_digest "")

/-- One manifest passes with its tagged hash, with the bare digest, and with the
digest after any other text. -/
theorem untagged_hash_admitted :
    Admits fieldRestart softManifest ("sha256:" ++ hexdigest softDigest) ∧
    Admits fieldRestart softManifest (hexdigest softDigest) ∧
    Admits fieldRestart softManifest ("not-a-hash" ++ hexdigest softDigest) ∧
    "sha256:" ++ hexdigest softDigest ≠ hexdigest softDigest := by
  refine ⟨admits_of_digest field_sha256 field_wire field_digest _, ?_,
    admits_of_digest field_sha256 field_wire field_digest _, by decide +kernel⟩
  rw [← String.empty_append (s := hexdigest softDigest)]
  exact admits_of_digest field_sha256 field_wire field_digest ""

end Gaia.Restore
