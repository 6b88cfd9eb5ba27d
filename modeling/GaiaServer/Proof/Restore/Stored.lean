import GaiaServer.Proof.Restore.Traffic
import GaiaServer.Proof.Storage.CheckpointMap

/-!
# What is stored is restored

A client stores a checkpoint, then a manifest that names it, and then restores it
(`storeThenRestore`). Its three puts leave behind what the restore reads, if the codec reads
back what it writes (`Restorable.admissible`), and other clients that leave it alone do so
before, between and after the puts too (`Spares.putEtcd`, `Spares.putObject`). So the restore
returns the payload that was put (`stored_then_restored`).
-/

namespace Gaia.Restore

open Storage World RestoreOrchestrator
open Prog (Ensures bind_eq lift_ok ret_bind)

variable {o : RestoreOrchestrator} {id : String} {M : RestoreManifest} {w w' : World}
  {payload : Bytes} {n : Nat}

/-- `put_checkpoint`, the put of the manifest, and `restore`. -/
def storeThenRestore (o : RestoreOrchestrator) (id : String) (ref : CheckpointRef)
    (payload raw : Bytes) : Store RestoreResult := do
  let _ ← o.registry.checkpoints.putCheckpoint o.core ref payload
  o.registry.metadata.put ("manifests/" ++ id) raw
  o.restore id

/-- The stores with both. -/
def storedWorld (o : RestoreOrchestrator) (w : World) (id checkpointId : String)
    (data payload raw : Bytes) : World :=
  { afterPut o.registry.checkpoints w checkpointId data payload with
    etcd := w.etcd.set (o.registry.metadata.key ("manifests/" ++ id)) raw }

/-- What the checks ask besides the manifest and the checkpoint. -/
structure Restorable (o : RestoreOrchestrator) (w : World) (M : RestoreManifest) (payload : Bytes)
    (n : Nat) : Prop where
  signed : M.manifestHash ≠ ""
  hashed : ∃ canonical,
    jsonDumps { sortKeys := true, itemSep := ",", keySep := ":" }
      (.dict ((o.core.manifestWire M).filter fun item => item.1 ≠ .str "manifest_hash")) =
        .ok canonical ∧
    endsWith M.manifestHash (hexdigest (o.sha256 (encode canonical))) = true
  payloadHash : ∀ h, given M.payloadHash = some h → "sha256:" ++ hexdigest (o.sha256 payload) = h
  attested : M.restorePath ∈ crossHost → given M.attestationRef ≠ none
  attestation : ∀ ref, given M.attestationRef = some ref →
    (stored? o w ("attestations/" ++ ref)).isSome
  noCursor : given M.causalCursor = none → n = 0
  replayed : ∀ cursor, given M.causalCursor = some cursor →
    ∃ seq events, pyInt (replace cursor "seq:" "") = some seq ∧
      w.eventsAfter o.core "gaia-checkpoints" (some seq) 1000 = .ok events ∧
      events ≠ [] ∧ n = events.length
  gated : M.restorePath = .criuMigration → given M.admissibilityPolicyRef ≠ none
  token : TokenHeld o w M

theorem Restorable.admissible (h : Restorable o w M payload n) (id : String) {data raw : Bytes}
    {ref : CheckpointRef} (hraw : o.core.readManifest raw = .ok M)
    (hdata : o.core.readCheckpointRef data = .ok ref) :
    Admissible o (storedWorld o w id M.checkpointId data payload raw) id M payload n where
  stored := ⟨raw, Dict.get?_set_self .., hraw⟩
  signed := h.signed
  hashed := h.hashed
  attested := h.attested
  attestation ref' href := by
    have hsome := h.attestation ref' href
    rw [stored?] at hsome ⊢
    rw [storedWorld, Dict.get?_set]
    split
    · rfl
    · exact hsome
  readable := by
    refine ⟨data, ref, ?_, hdata⟩
    exact (storedPart_afterPut _ w M.checkpointId data payload .manifest).trans (if_pos rfl)
  fetched := (storedPart_afterPut _ w M.checkpointId data payload .payload).trans (if_pos rfl)
  payloadHash := h.payloadHash
  noCursor := h.noCursor
  replayed cursor hc := by
    obtain ⟨seq, events, hseq, hevents, hne, hn⟩ := h.replayed cursor hc
    have hstreams : (storedWorld o w id M.checkpointId data payload raw).streams = w.streams := rfl
    exact ⟨seq, events, hseq, (eventsAfter_congr hstreams ..).trans hevents, hne, hn⟩
  gated := h.gated
  token t ht := by
    obtain ⟨expected, he, hs⟩ := h.token t ht
    refine ⟨expected, he, (Dict.get?_set_of_ne ?_ ..).trans hs⟩
    exact (manifestKey_ne_trustKey _ _ _).symm

/-! ## A put on both sides -/

theorem Spares.putEtcd (h : Spares o id M w w') (key : String) (value : Bytes) :
    Spares o id M { w with etcd := w.etcd.set key value }
      { w' with etcd := w'.etcd.set key value } where
  keys k hk := by
    rw [Dict.get?_set, Dict.get?_set, h.keys k hk]
  objects := h.objects
  streams := h.streams.congr rfl rfl

theorem Spares.putObject (h : Spares o id M w w') (object : String × String) (data : Bytes) :
    Spares o id M { w with objects := w.objects.set object data }
      { w' with objects := w'.objects.set object data } where
  keys := h.keys
  objects bucket name hb := by
    rw [Dict.get?_set, Dict.get?_set, h.objects bucket name hb]
  streams := h.streams.congr rfl rfl

theorem storeThenRestore_ensures (h : Restorable o w M payload n) {ref : CheckpointRef}
    {text : String} {raw : Bytes}
    (htext : jsonDumps {} (.dict (o.core.checkpointRefWire ref)) = .ok text)
    (href : ReadsBack o.core ref) (hid : ref.checkpointId = M.checkpointId)
    (hraw : o.core.readManifest raw = .ok M) :
    (storeThenRestore o id ref payload raw).Ensures handle (Spares o id M) (fun r w' =>
      (∃ n', r = .ok (result id M payload n') ∧ Replayed M n n') ∧
        stored? o w' (trustKey M.nodeId) = some (grantedValue o M)) w := by
  have hR := spares_interference o id M
  have hM := h.admissible id hraw (href text htext)
  rw [storeThenRestore, MinIOCheckpointStore.putCheckpoint, htext]
  simp only [bind_eq, lift_ok, ret_bind, Prog.bind_assoc]
  refine Prog.ensures_perform_bind fun w₁ h₁ => ⟨(), rfl, ?_⟩
  refine Prog.ensures_perform_bind fun w₂ h₂ => ⟨(), rfl, ?_⟩
  refine Prog.ensures_perform_bind fun w₃ h₃ => ⟨(), rfl, ?_⟩
  refine (restore_ensures hM).disturb hR ?_
  have hput := hR.trans (h₁.putObject _ _) h₂
  have hboth := hR.trans (hput.putObject _ _) h₃
  rw [← hid]
  exact hboth.putEtcd _ _

/-! ## Among others -/

variable {ι : Type} [DecidableEq ι] {P₀ P : Pool StoreOp StoreRes Exc RestoreResult ι} {i : ι}
  {t : List (ι × StoreOp)}

/-- However the operations of others fall among those of a client that stores a checkpoint and
a manifest and restores it: if it has ended, it has the payload that it put, byte for byte. -/
theorem stored_then_restored (h : Restorable o w M payload n) {ref : CheckpointRef}
    {text : String} {raw : Bytes}
    (htext : jsonDumps {} (.dict (o.core.checkpointRefWire ref)) = .ok text)
    (href : ReadsBack o.core ref) (hid : ref.checkpointId = M.checkpointId)
    (hraw : o.core.readManifest raw = .ok M) (hi : P₀ i = storeThenRestore o id ref payload raw)
    (ht : Pool.Traced handle noFault P₀ w t P w')
    (hothers : ∀ x ∈ t, x.1 ≠ i → Harmless o id M x.2) {r : Except Exc RestoreResult}
    (hend : P i = Prog.lift r) :
    ∃ n', r = .ok (result id M payload n') ∧ Replayed M n n' := by
  have hp := Ensures.traced (spares_interference o id M) (fun _ h => h)
    (fun op w ho => Harmless.spares ho w)
    (hi ▸ storeThenRestore_ensures h htext href hid hraw) ht hothers
  rw [hend] at hp
  exact (hp.of_lift (spares_interference o id M)).1

/-- The soft restart's manifest, in empty stores. -/
theorem soft_restorable :
    Restorable softRestart ⟨.empty, .empty, .empty⟩ softManifest (encode "new payload") 0 where
  signed := soft_checked.signed
  hashed := soft_checked.hashed
  payloadHash := nofun
  attested := soft_checked.attested
  attestation := nofun
  noCursor := fun _ => rfl
  replayed := nofun
  gated := nofun
  token := nofun

theorem soft_stored_then_restored : ∃ t P w' r, (1, putBeta) ∈ t ∧
    Pool.Traced handle noFault (besidePut (storeThenRestore softRestart "m1" ⟨"c1", []⟩
      (encode "new payload") (stored softWire))) ⟨.empty, .empty, .empty⟩ t P w' ∧
    P 0 = Prog.lift r ∧
    ∃ n', r = .ok (result "m1" softManifest (encode "new payload") n') ∧
      Replayed softManifest 0 n' := by
  have htext : jsonDumps {} (.dict (softRestart.core.checkpointRefWire ⟨"c1", []⟩)) =
      .ok "\x7b\"checkpoint_id\": \"c1\"\x7d" := by decide
  have href : ReadsBack softRestart.core ⟨"c1", []⟩ := by
    intro text h
    obtain rfl := Except.ok.inj (htext.symm.trans h)
    exact sample_readCheckpointRef ..
  have hcall : ∃ op k, storeThenRestore softRestart "m1" ⟨"c1", []⟩ (encode "new payload")
      (stored softWire) = .call op k := by
    rw [storeThenRestore, MinIOCheckpointStore.putCheckpoint, htext]
    exact ⟨_, _, rfl⟩
  obtain ⟨op, k, hp⟩ := hcall
  obtain ⟨t, P, w', r, hpre, ht, hend, hothers⟩ := besidePut_traced hp ⟨.empty, .empty, .empty⟩
  have hput := hpre.subset (List.mem_cons_of_mem _ (List.mem_singleton_self _))
  exact ⟨t, P, w', r, hput, ht, hend, stored_then_restored soft_restorable htext href rfl
    (sample_readManifest ..) (besidePut_zero _) ht hothers hend⟩

end Gaia.Restore
