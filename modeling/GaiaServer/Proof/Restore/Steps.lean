import GaiaServer.Proof.Storage.Events
import GaiaServer.Spec.Restore.Admissible

/-!
# The restore sequence, step by step

One lemma a step: alone, it returns exactly if its check passes, and leaves the
stores as they are (`loadManifest_run` to `checkCriuInvariant_run`). The steps
before the promotion (`checks`) return exactly for a manifest that the stores
support (`checks_run`), and the sequence for an admissible one
(`restore_run`).
-/

namespace Gaia.Restore

open Storage World
open Prog (run_bind run_bind_ok run_bind_eq_ok run_lift run_perform bind_eq)

variable {o : RestoreOrchestrator} {w w' : World} {M : RestoreManifest} {id : String}

namespace RestoreOrchestrator

theorem get_run (s : EtcdMetadataStore) (k : String) :
    (s.get k).run handle w = (.ok (w.etcd.get? (s.key k)), w) := run_perform ..

theorem loadManifest_run :
    (o.loadManifest id).run handle w = (.ok M, w') ↔
      ((∃ raw, stored? o w ("manifests/" ++ id) = some raw ∧ o.core.readManifest raw = .ok M) ∧
        M.manifestHash ≠ "") ∧ w = w' := by
  rw [loadManifest, bind_eq, run_bind_ok handle (get_run _ _), stored?]
  cases w.etcd.get? (o.registry.metadata.key ("manifests/" ++ id)) with
  | none => simp
  | some raw =>
    simp only [Option.some.injEq, exists_eq_left']
    cases hr : o.core.readManifest raw with
    | error exc => simp
    | ok manifest =>
      rw [Except.ok.injEq]
      by_cases hh : manifest.manifestHash = ""
      · simp only [hh, if_true, Prog.run_raise, Prod.mk.injEq, reduceCtorEq, false_and, false_iff]
        exact fun ⟨⟨e, hn⟩, _⟩ => hn (e ▸ hh)
      · simp only [hh, if_false, Prog.pure_eq, Prog.run_ret, Prod.mk.injEq, Except.ok.injEq]
        exact and_congr_left fun _ => ⟨fun e => ⟨e, e ▸ hh⟩, And.left⟩

theorem verifyHashes_run :
    (o.verifyHashes M).run handle w = (.ok (), w') ↔
      (∃ canonical, jsonDumps { sortKeys := true, itemSep := ",", keySep := ":" }
          (.dict ((o.core.manifestWire M).filter fun item => item.1 ≠ .str "manifest_hash")) =
            .ok canonical ∧
        endsWith M.manifestHash (hexdigest (o.sha256 (encode canonical))) = true) ∧ w = w' := by
  rw [verifyHashes, bind_eq, run_bind, run_lift, sha256Dict]
  cases jsonDumps { sortKeys := true, itemSep := ",", keySep := ":" }
      (.dict ((o.core.manifestWire M).filter fun item => item.1 ≠ .str "manifest_hash")) with
  | error exc => simp [bind, Except.bind]
  | ok canonical =>
    simp only [bind, Except.bind, pure, Except.pure, Except.ok.injEq, exists_eq_left']
    cases endsWith M.manifestHash (hexdigest (o.sha256 (encode canonical))) <;> simp

theorem verifyAttestation_run :
    (o.verifyAttestation M).run handle w = (.ok (), w') ↔
      ((M.restorePath ∈ crossHost → given M.attestationRef ≠ none) ∧
        ∀ ref, given M.attestationRef = some ref →
          (stored? o w ("attestations/" ++ ref)).isSome) ∧ w = w' := by
  rw [verifyAttestation, show ([.crossHost, .k8sStatefulRestore, .quarantinedForeignHost,
    .criuMigration] : List RestorePath) = crossHost from rfl]
  cases given M.attestationRef with
  | none => by_cases hc : M.restorePath ∈ crossHost <;> simp [hc]
  | some ref =>
    simp only [reduceCtorEq, and_false, if_false, bind_eq, run_bind_ok handle (get_run _ _),
      stored?, Option.some.injEq, forall_eq', ne_eq, not_false_eq_true, implies_true, true_and]
    cases w.etcd.get? (o.registry.metadata.key ("attestations/" ++ ref)) <;> simp

theorem getObject_run {name : String} {data : Bytes} :
    (client (.getObject o.registry.checkpoints.bucket name)).run handle w = (.ok data, w') ↔
      object? o w name = some data ∧ w = w' := by
  rw [run_perform, handle, object?]
  cases w.objects.get? (o.registry.checkpoints.bucket, name) <;> simp

theorem getCheckpoint_run {c : String} {ref : CheckpointRef} {payload : Bytes} :
    (o.registry.checkpoints.getCheckpoint o.core c).run handle w = (.ok (ref, payload), w') ↔
      ((∃ data, object? o w (MinIOCheckpointStore.manifestKey c) = some data ∧
          o.core.readCheckpointRef data = .ok ref) ∧
        object? o w (MinIOCheckpointStore.payloadKey c) = some payload) ∧ w = w' := by
  rw [MinIOCheckpointStore.getCheckpoint, bind_eq]
  constructor
  · intro h
    obtain ⟨data, _, h1, h⟩ := (run_bind_eq_ok handle).mp h
    obtain ⟨hd, rfl⟩ := getObject_run.mp h1
    obtain ⟨r, _, h2, h⟩ := (run_bind_eq_ok handle).mp h
    obtain ⟨hr, rfl⟩ := Prod.mk.inj ((run_lift ..).symm.trans h2)
    obtain ⟨p, _, h3, h⟩ := (run_bind_eq_ok handle).mp h
    obtain ⟨hp, rfl⟩ := getObject_run.mp h3
    cases h
    exact ⟨⟨⟨data, hd, hr⟩, hp⟩, rfl⟩
  · rintro ⟨⟨⟨data, hd, hr⟩, hp⟩, rfl⟩
    rw [run_bind_ok handle (getObject_run.mpr ⟨hd, rfl⟩), bind_eq, run_bind, run_lift, hr]
    exact run_bind_ok handle (getObject_run.mpr ⟨hp, rfl⟩)

theorem fetchPayload_run {payload : Bytes} :
    (o.fetchPayload M).run handle w = (.ok payload, w') ↔
      ((∃ data ref, object? o w (MinIOCheckpointStore.manifestKey M.checkpointId) = some data ∧
          o.core.readCheckpointRef data = .ok ref) ∧
        object? o w (MinIOCheckpointStore.payloadKey M.checkpointId) = some payload ∧
        ∀ h, given M.payloadHash = some h → "sha256:" ++ hexdigest (o.sha256 payload) = h) ∧
      w = w' := by
  rw [fetchPayload, bind_eq]
  constructor
  · intro h
    obtain ⟨⟨ref, p⟩, _, h1, h⟩ := (run_bind_eq_ok handle).mp h
    obtain ⟨⟨⟨data, hd, hr⟩, hp⟩, rfl⟩ := getCheckpoint_run.mp h1
    dsimp only at h
    cases hh : given M.payloadHash with
    | none =>
      rw [hh] at h
      cases h
      exact ⟨⟨⟨data, ref, hd, hr⟩, hp, nofun⟩, rfl⟩
    | some stored =>
      rw [hh] at h
      by_cases he : "sha256:" ++ hexdigest (o.sha256 p) = stored
      · simp only [he, if_true] at h
        cases h
        exact ⟨⟨⟨data, ref, hd, hr⟩, hp, fun _ hs => he.trans (Option.some.inj hs)⟩, rfl⟩
      · simp only [he, if_false] at h
        cases h
  · rintro ⟨⟨⟨data, ref, hd, hr⟩, hp, hs⟩, rfl⟩
    rw [run_bind_ok handle (getCheckpoint_run.mpr ⟨⟨⟨data, hd, hr⟩, hp⟩, rfl⟩)]
    dsimp only
    cases hh : given M.payloadHash with
    | none => rfl
    | some stored =>
      dsimp only
      rw [if_pos (hs stored hh)]
      rfl

theorem replayEvents_run {stream : String} {n : Nat} :
    (o.replayEvents M stream).run handle w = (.ok n, w') ↔
      ((given M.causalCursor = none → n = 0) ∧
        ∀ cursor, given M.causalCursor = some cursor →
          ∃ seq events, pyInt (replace cursor "seq:" "") = some seq ∧
            w.eventsAfter o.core stream (some seq) 1000 = .ok events ∧
            events ≠ [] ∧ n = events.length) ∧ w = w' := by
  rw [replayEvents]
  cases given M.causalCursor with
  | none => simp [eq_comm]
  | some cursor =>
    simp only [Option.some.injEq, forall_eq', reduceCtorEq, false_implies, true_and]
    cases pyInt (replace cursor "seq:" "") with
    | none => simp
    | some seq =>
      simp only [bind_eq, run_bind, JetStreamEventStore.readEvents_run, Option.some.injEq,
        exists_and_left, exists_eq_left', show (1000 : Int).toNat = 1000 from rfl]
      cases w.eventsAfter o.core stream (some seq) 1000 with
      | error exc => simp
      | ok events => cases events <;> simp [@eq_comm _ n]

theorem checkCriuInvariant_run :
    (checkCriuInvariant M).run handle w = (.ok (), w') ↔
      (M.restorePath = .criuMigration → given M.admissibilityPolicyRef ≠ none) ∧ w = w' := by
  rw [checkCriuInvariant]
  by_cases h : M.restorePath = .criuMigration ∧ given M.admissibilityPolicyRef = none
  · simp [h]
  · simp only [h, if_false, Prog.pure_eq, Prog.run_ret, Prod.mk.injEq, true_and, iff_and_self]
    exact fun _ hp hn => h ⟨hp, hn⟩

/-- With a token, the promotion is one swap. -/
theorem promoteTrust_eq {token : PyStr} {expected : Bytes}
    (ht : givenStr M.splitBrainToken = some token) (he : token.encode = .ok expected) :
    o.promoteTrust M =
      .call (.etcdTxn (o.registry.metadata.key (trustKey M.nodeId)) expected (grantedValue o M))
        fun r => (Prog.lift r).bind fun swapped =>
          if swapped then .ret (grantedClass M)
          else .raise ⟨.trustPromotionError, "Split-brain CAS failed for node " ++ M.nodeId ++
            " — another restore may have already claimed this node"⟩ := by
  rw [promoteTrust, ht]
  dsimp only
  rw [he]
  rfl

theorem promoteTrust_unencodable {token : PyStr} {exc : Exc}
    (ht : givenStr M.splitBrainToken = some token) (he : token.encode = .error exc) :
    o.promoteTrust M = .raise exc := by
  rw [promoteTrust, ht]
  dsimp only
  rw [he]
  rfl

theorem promoteTrust_run {granted : TrustClass} :
    (o.promoteTrust M).run handle w = (.ok granted, w') ↔
      TokenHeld o w M ∧ granted = grantedClass M ∧ w' = promoted o w M := by
  rw [TokenHeld]
  cases ht : givenStr M.splitBrainToken with
  | none =>
    rw [promoteTrust, ht]
    simp only [reduceCtorEq, false_implies, implies_true, true_and]
    show (Except.ok (grantedClass M), promoted o w M) = _ ↔ _
    simp only [Prod.mk.injEq, Except.ok.injEq, eq_comm]
  | some token =>
    simp only [Option.some.injEq, forall_eq']
    cases he : token.encode with
    | error exc =>
      rw [promoteTrust_unencodable ht he]
      simp
    | ok expected =>
      rw [promoteTrust_eq ht he]
      simp only [Except.ok.injEq, exists_eq_left', stored?, Prog.run_call, handle]
      by_cases hs : w.etcd.get? (o.registry.metadata.key (trustKey M.nodeId)) = some expected
      · simp only [hs, if_true, true_and]
        show (Except.ok (grantedClass M), promoted o w M) = _ ↔ _
        simp only [Prod.mk.injEq, Except.ok.injEq, eq_comm]
      · simp [hs]

/-! ## The sequence -/

/-- The steps before the promotion. -/
def checks (o : RestoreOrchestrator) (id : String) : Store (RestoreManifest × Bytes × Nat) := do
  let manifest ← o.loadManifest id
  o.verifyHashes manifest
  o.verifyAttestation manifest
  let payload ← o.fetchPayload manifest
  let eventsReplayed ← o.replayEvents manifest
  checkCriuInvariant manifest
  return (manifest, payload, eventsReplayed)

/-- A restore is the checks, then the promotion. -/
theorem restore_eq : o.restore id = (o.checks id).bind fun c =>
    (o.promoteTrust c.1).bind fun granted => .ret { result id c.1 c.2.1 c.2.2 with
      grantedTrustClass := granted } := by
  simp only [restore, checks, result, bind_eq, Prog.bind_assoc, Prog.pure_eq, Prog.ret_bind]

theorem checks_run {payload : Bytes} {n : Nat} :
    (o.checks id).run handle w = (.ok (M, payload, n), w') ↔
      Checked o w id M payload n ∧ w = w' := by
  constructor
  · intro h
    obtain ⟨M', _, h1, h⟩ := (run_bind_eq_ok handle).mp h
    obtain ⟨⟨hs, hn⟩, rfl⟩ := loadManifest_run.mp h1
    obtain ⟨_, _, h2, h⟩ := (run_bind_eq_ok handle).mp h
    obtain ⟨hh, rfl⟩ := verifyHashes_run.mp h2
    obtain ⟨_, _, h3, h⟩ := (run_bind_eq_ok handle).mp h
    obtain ⟨⟨ha, ha'⟩, rfl⟩ := verifyAttestation_run.mp h3
    obtain ⟨p, _, h4, h⟩ := (run_bind_eq_ok handle).mp h
    obtain ⟨⟨hr, hp, hp'⟩, rfl⟩ := fetchPayload_run.mp h4
    obtain ⟨k, _, h5, h⟩ := (run_bind_eq_ok handle).mp h
    obtain ⟨⟨hk, hk'⟩, rfl⟩ := replayEvents_run.mp h5
    obtain ⟨_, _, h6, h⟩ := (run_bind_eq_ok handle).mp h
    obtain ⟨hc, rfl⟩ := checkCriuInvariant_run.mp h6
    cases h
    exact ⟨⟨hs, hn, hh, ha, ha', hr, hp, hp', hk, hk', hc⟩, rfl⟩
  · rintro ⟨h, rfl⟩
    refine (run_bind_ok handle (loadManifest_run.mpr ⟨⟨h.stored, h.signed⟩, rfl⟩)).trans ?_
    refine (run_bind_ok handle (verifyHashes_run.mpr ⟨h.hashed, rfl⟩)).trans ?_
    refine (run_bind_ok handle
      (verifyAttestation_run.mpr ⟨⟨h.attested, h.attestation⟩, rfl⟩)).trans ?_
    refine (run_bind_ok handle
      (fetchPayload_run.mpr ⟨⟨h.readable, h.fetched, h.payloadHash⟩, rfl⟩)).trans ?_
    refine (run_bind_ok handle (replayEvents_run.mpr ⟨⟨h.noCursor, h.replayed⟩, rfl⟩)).trans ?_
    exact run_bind_ok handle (checkCriuInvariant_run.mpr ⟨h.gated, rfl⟩)

/-- A restore alone returns exactly for an admissible manifest. -/
theorem restore_run {r : RestoreResult} :
    (o.restore id).run handle w = (.ok r, w') ↔
      ∃ M payload n, Admissible o w id M payload n ∧ r = result id M payload n ∧
        w' = promoted o w M := by
  rw [restore_eq, run_bind_eq_ok]
  constructor
  · rintro ⟨⟨M, payload, n⟩, _, h1, h⟩
    obtain ⟨hc, rfl⟩ := checks_run.mp h1
    obtain ⟨granted, _, h2, h⟩ := (run_bind_eq_ok handle).mp h
    obtain ⟨ht, rfl, rfl⟩ := promoteTrust_run.mp h2
    cases h
    exact ⟨M, payload, n, ⟨hc, ht⟩, rfl, rfl⟩
  · rintro ⟨M, payload, n, h, rfl, rfl⟩
    refine ⟨(M, payload, n), w, checks_run.mpr ⟨h.toChecked, rfl⟩, ?_⟩
    exact run_bind_ok handle (promoteTrust_run.mpr ⟨h.token, rfl, rfl⟩)

end RestoreOrchestrator

/-- Restore accepts exactly the admissible restores. It then grants what the
path allows, and changes the node's trust state only. -/
theorem restore_returns_iff (o : RestoreOrchestrator) (w : World) (id : String) :
    ((∃ r w', (o.restore id).run handle w = (.ok r, w')) ↔
      ∃ M payload n, Admissible o w id M payload n) ∧
    ∀ M payload n, Admissible o w id M payload n →
      (o.restore id).run handle w = (.ok (result id M payload n), promoted o w M) := by
  refine ⟨⟨fun ⟨r, w', h⟩ => ?_, fun ⟨M, payload, n, h⟩ => ?_⟩, fun M payload n h => ?_⟩
  · obtain ⟨M, payload, n, h, -⟩ := RestoreOrchestrator.restore_run.mp h
    exact ⟨M, payload, n, h⟩
  · exact ⟨_, _, RestoreOrchestrator.restore_run.mpr ⟨M, payload, n, h, rfl, rfl⟩⟩
  · exact RestoreOrchestrator.restore_run.mpr ⟨M, payload, n, h, rfl, rfl⟩

end Gaia.Restore
