import GaiaServer.Proof.Restore.SplitBrain
import GaiaServer.Proof.Storage.Growth

/-!
# Restoring while the stores are in use

A restore among other clients of the stores, which leave alone what it reads and the trust
state of its node (`Spares`), and publish only what decodes. They may write anything else
(`Harmless`): other manifests, checkpoints and trust states, and events.

An admissible restore then returns as it does alone (`restore_ensures`), whatever falls
between its operations, except that it may count events that have come meanwhile
(`restore_under_traffic`).
-/

namespace Gaia.Restore

open Storage World RestoreOrchestrator
open Prog (Interference Ensures Only)

variable {o : RestoreOrchestrator} {id : String} {M : RestoreManifest} {w w' : World}
  {payload : Bytes}

/-! ## What a restore relies on -/

/-- The keys that a restore of the manifest reads or writes. -/
def NeedsKey (o : RestoreOrchestrator) (id : String) (M : RestoreManifest) (key : String) : Prop :=
  key = o.registry.metadata.key ("manifests/" ++ id) ∨
  key = o.registry.metadata.key (trustKey M.nodeId) ∨
  ∃ ref, given M.attestationRef = some ref ∧ key = o.registry.metadata.key ("attestations/" ++ ref)

/-- The objects that it reads. -/
def NeedsObject (o : RestoreOrchestrator) (M : RestoreManifest) (bucket name : String) : Prop :=
  bucket = o.registry.checkpoints.bucket ∧
    (name = MinIOCheckpointStore.manifestKey M.checkpointId ∨
      name = MinIOCheckpointStore.payloadKey M.checkpointId)

/-- What it relies on has not changed, and the streams have grown. -/
structure Spares (o : RestoreOrchestrator) (id : String) (M : RestoreManifest) (w w' : World) :
    Prop where
  keys : ∀ key, NeedsKey o id M key → w'.etcd.get? key = w.etcd.get? key
  objects : ∀ bucket name, NeedsObject o M bucket name →
    w'.objects.get? (bucket, name) = w.objects.get? (bucket, name)
  streams : Grows (Decodes o.core) w w'

theorem spares_interference (o : RestoreOrchestrator) (id : String) (M : RestoreManifest) :
    Interference (Spares o id M) where
  refl w := ⟨fun _ _ => rfl, fun _ _ _ => rfl, .refl _ w⟩
  trans h h' := ⟨fun key hk => (h'.keys key hk).trans (h.keys key hk),
    fun bucket name hb => (h'.objects bucket name hb).trans (h.objects bucket name hb),
    h.streams.trans h'.streams⟩

/-- Calls that change nothing of it. -/
def Harmless (o : RestoreOrchestrator) (id : String) (M : RestoreManifest) : StoreOp → Prop
  | .etcdPut key _ => ¬ NeedsKey o id M key
  | .etcdDelete key => ¬ NeedsKey o id M key
  | .etcdTxn key _ _ => ¬ NeedsKey o id M key
  | .putObject bucket name _ => ¬ NeedsObject o M bucket name
  | .publish _ data => Decodes o.core data
  | _ => True

theorem Spares.of_etcd {key : String} (hn : ¬ NeedsKey o id M key) {etcd : Dict String Bytes}
    (h : ∀ k, k ≠ key → etcd.get? k = w.etcd.get? k) : Spares o id M w { w with etcd := etcd } where
  keys k hk := h k fun e => hn (e ▸ hk)
  objects _ _ _ := rfl
  streams := .of_streams rfl

theorem Spares.of_grows (hg : Grows (Decodes o.core) w w') (he : w'.etcd = w.etcd)
    (hobjects : w'.objects = w.objects) : Spares o id M w w' :=
  ⟨fun _ _ => by rw [he], fun _ _ _ => by rw [hobjects], hg⟩

theorem Harmless.spares {op : StoreOp} (ho : Harmless o id M op) (w : World) :
    Spares o id M w (handle op w).2 := by
  have hR := spares_interference o id M
  have hreads : op.ReadsOutside "" → Spares o id M w (handle op w).2 := fun hr => by
    rw [handle_reads hr]
    exact hR.refl w
  cases op with
  | etcdGet key => exact hR.refl w
  | etcdPut key value => exact .of_etcd ho fun k hk => Dict.get?_set_of_ne hk ..
  | etcdDelete key => exact .of_etcd ho fun k hk => by rw [Dict.get?_erase, if_neg hk]
  | etcdTxn key expected value =>
    simp only [handle]
    split
    · exact .of_etcd ho fun k hk => Dict.get?_set_of_ne hk ..
    · exact hR.refl w
  | etcdGetPrefix start => exact hR.refl w
  | getObject bucket name => exact hreads trivial
  | putObject bucket name data =>
    refine ⟨fun _ _ => rfl, fun b n hb => Dict.get?_set_of_ne ?_ .., .of_streams rfl⟩
    rintro he
    obtain ⟨rfl, rfl⟩ := Prod.mk.inj he
    exact ho hb
  | findStream name => exact hreads trivial
  | addStream name subjects =>
    refine .of_grows (.addStream w name subjects) ?_ ?_
    · simp only [handle]
      split_ifs <;> rfl
    · simp only [handle]
      split_ifs <;> rfl
  | publish subject data =>
    refine .of_grows (.publish w subject ho) ?_ ?_ <;>
      rcases publish_cases w subject data with ⟨exc, he⟩ | ⟨name, s, room, -, -, he⟩ <;> rw [he]
  | subscribe filter startSeq => exact hreads trivial
  | nextMsg sub received => exact hreads trivial
  | unsubscribe sub => exact hR.refl w

/-! ## The steps -/

/-- The reads of the checks before the replay. -/
def NeededRead (o : RestoreOrchestrator) (id : String) (M : RestoreManifest) : StoreOp → Prop
  | .etcdGet key => NeedsKey o id M key
  | .getObject bucket name => NeedsObject o M bucket name
  | _ => False

theorem NeededRead.same {op : StoreOp} (ho : NeededRead o id M op) (h : Spares o id M w w') :
    handle op w' = ((handle op w).1, w') := by
  cases op with
  | etcdGet key => simp only [handle, h.keys key ho]
  | getObject bucket name =>
    simp only [handle, h.objects bucket name ho]
    split <;> rfl
  | _ => exact ho.elim

/-- A step of which the result alone is known. -/
theorem step_ensures {α : Type} {p : Store α} {a : α} (hp : p.Only (NeededRead o id M))
    (hrun : p.run handle w = (.ok a, w)) :
    p.Ensures handle (Spares o id M) (fun r w' => r = .ok a ∧ Spares o id M w w') w := by
  have h := hp.ensures_run (spares_interference o id M) (fun op w' ho hs => NeededRead.same ho hs)
    ((spares_interference o id M).refl w)
  rwa [hrun] at h

theorem loadManifest_reads (o : RestoreOrchestrator) (id : String) (M : RestoreManifest) :
    (o.loadManifest id).Only (NeededRead o id M) := by
  refine Only.bind (Prog.only_perform.mpr (.inl rfl)) fun raw => ?_
  cases raw with
  | none => trivial
  | some raw =>
    dsimp only
    split
    · trivial
    · split <;> trivial

theorem verifyHashes_reads (o : RestoreOrchestrator) (id : String) (M : RestoreManifest) :
    (o.verifyHashes M).Only (NeededRead o id M) := by
  refine Only.bind (Prog.only_lift _) fun computed => ?_
  split <;> trivial

theorem verifyAttestation_reads (o : RestoreOrchestrator) (id : String) (M : RestoreManifest) :
    (o.verifyAttestation M).Only (NeededRead o id M) := by
  rw [verifyAttestation]
  split
  · trivial
  · cases hr : given M.attestationRef with
    | none => trivial
    | some ref =>
      refine Only.bind (Prog.only_perform.mpr (.inr (.inr ⟨ref, hr, rfl⟩))) fun raw => ?_
      cases raw <;> trivial

theorem fetchPayload_reads (o : RestoreOrchestrator) (id : String) (M : RestoreManifest) :
    (o.fetchPayload M).Only (NeededRead o id M) := by
  refine Only.bind (Only.bind (Prog.only_perform.mpr ⟨rfl, .inl rfl⟩) fun data => ?_) fun c => ?_
  · refine Only.bind (Prog.only_lift _) fun ref => ?_
    exact Only.bind (Prog.only_perform.mpr ⟨rfl, .inr rfl⟩) fun payload => trivial
  · dsimp only
    split
    · trivial
    · split <;> trivial

theorem checkCriuInvariant_reads (o : RestoreOrchestrator) (id : String) (M : RestoreManifest) :
    (checkCriuInvariant M).Only (NeededRead o id M) := by
  rw [checkCriuInvariant]
  split <;> trivial

/-- The replay counts at least what it would count now. -/
def Replayed (M : RestoreManifest) (n n' : Nat) : Prop :=
  n ≤ n' ∧ (given M.causalCursor = none → n' = n) ∧ (given M.causalCursor ≠ none → n' ≤ 1000)

theorem replayEvents_ensures {n : Nat} (hM : Checked o w id M payload n) :
    (o.replayEvents M).Ensures handle (Spares o id M)
      (fun r w' => ∃ n', r = .ok n' ∧ Replayed M n n' ∧ Spares o id M w w') w := by
  have hR := spares_interference o id M
  cases hc : given M.causalCursor with
  | none =>
    obtain rfl := hM.noCursor hc
    rw [replayEvents, hc]
    exact fun w' hw => ⟨0, rfl, ⟨le_rfl, fun _ => rfl, fun h => absurd hc h⟩, hw⟩
  | some cursor =>
    obtain ⟨seq, events, hseq, hevents, hne, hn⟩ := hM.replayed cursor hc
    rw [replayEvents, hc, hn]
    dsimp only
    rw [hseq]
    dsimp only
    refine (JetStreamEventStore.readEvents_ensures hR Spares.streams hevents).bind hR
      (fun more w₁ h => ?_) fun e w₁ h => ?_
    · obtain ⟨⟨more', hmore, hpre, hlen⟩, hw₁⟩ := h
      cases hmore
      have hlen' := hpre.length_le
      have hpos := List.length_pos_iff.mpr hne
      have hnot : ¬ more.isEmpty = true := fun he => by
        rw [List.isEmpty_iff.mp he, List.length_nil] at hlen'
        omega
      rw [if_neg hnot]
      have hsome : ¬ given M.causalCursor = none := fun h => by
        rw [hc] at h
        cases h
      exact fun w₂ hw₂ => ⟨_, rfl, ⟨hlen', fun h => absurd h hsome, fun _ => hlen⟩,
        hR.trans hw₁ hw₂⟩
    · obtain ⟨⟨more', hmore, -⟩, -⟩ := h
      cases hmore

/-- The promotion, when the trust state is the one that the manifest names. -/
theorem promoteTrust_ensures
    (ht : TokenHeld o w M) :
    (o.promoteTrust M).Ensures handle (Spares o id M) (fun r w' => r = .ok (grantedClass M) ∧
      stored? o w' (trustKey M.nodeId) = some (grantedValue o M)) w := by
  have hkey : NeedsKey o id M (o.registry.metadata.key (trustKey M.nodeId)) := .inr (.inl rfl)
  have hend : ∀ {w₁ w₂}, Spares o id M (promoted o w₁ M) w₂ →
      stored? o w₂ (trustKey M.nodeId) = some (grantedValue o M) := fun h =>
    (h.keys _ hkey).trans (Dict.get?_set_self ..)
  cases hb : givenStr M.splitBrainToken with
  | none =>
    rw [promoteTrust, hb]
    exact Prog.ensures_perform_bind fun w₁ _ => ⟨(), rfl, fun w₂ hw₂ => ⟨rfl, hend hw₂⟩⟩
  | some t =>
    obtain ⟨expected, he, hs⟩ := ht t hb
    rw [promoteTrust_eq hb he]
    refine Prog.ensures_perform_bind fun w₁ hw₁ => ?_
    have hnow : stored? o w₁ (trustKey M.nodeId) = some expected :=
      (hw₁.keys _ hkey).trans hs
    rw [swap_of_claimable hnow]
    exact ⟨true, rfl, fun w₂ hw₂ => ⟨rfl, hend hw₂⟩⟩

/-- A restore that is admissible now. -/
theorem restore_ensures {n : Nat} (hM : Admissible o w id M payload n) :
    (o.restore id).Ensures handle (Spares o id M) (fun r w' =>
      (∃ n', r = .ok (result id M payload n') ∧ Replayed M n n') ∧
        stored? o w' (trustKey M.nodeId) = some (grantedValue o M)) w := by
  have hR := spares_interference o id M
  have hload := (loadManifest_run (w := w)).mpr ⟨⟨hM.stored, hM.signed⟩, rfl⟩
  refine (step_ensures (loadManifest_reads o id M) hload).bind_ok hR fun w₁ hw₁ => ?_
  have hverify := (verifyHashes_run (w := w)).mpr ⟨hM.hashed, rfl⟩
  refine ((step_ensures (verifyHashes_reads o id M) hverify).disturb hR hw₁).bind_ok hR
    fun w₂ hw₂ => ?_
  have hattest := (verifyAttestation_run (w := w)).mpr ⟨⟨hM.attested, hM.attestation⟩, rfl⟩
  refine ((step_ensures (verifyAttestation_reads o id M) hattest).disturb hR hw₂).bind_ok hR
    fun w₃ hw₃ => ?_
  have hfetch := (fetchPayload_run (w := w)).mpr ⟨⟨hM.readable, hM.fetched, hM.payloadHash⟩, rfl⟩
  refine ((step_ensures (fetchPayload_reads o id M) hfetch).disturb hR hw₃).bind_ok hR
    fun w₄ hw₄ => ?_
  refine ((replayEvents_ensures hM.toChecked).disturb hR hw₄).bind hR (fun n' w₅ h => ?_)
    fun e w₅ h => ?_
  · obtain ⟨k, hk, hn, hw₅⟩ := h
    cases hk
    have hcheck := (checkCriuInvariant_run (w := w)).mpr ⟨hM.gated, rfl⟩
    refine ((step_ensures (checkCriuInvariant_reads o id M) hcheck).disturb hR hw₅).bind_ok hR
      fun w₆ hw₆ => ?_
    refine ((promoteTrust_ensures hM.token).disturb hR hw₆).bind hR (fun granted w₇ h => ?_)
      fun e w₇ h => ?_
    · obtain ⟨hg, ht⟩ := h
      cases hg
      have hkey : NeedsKey o id M (o.registry.metadata.key (trustKey M.nodeId)) := .inr (.inl rfl)
      exact fun w₈ hw₈ => ⟨⟨n', rfl, hn⟩, (hw₈.keys _ hkey).trans ht⟩
    · cases h.1
  · obtain ⟨k, hk, -⟩ := h
    cases hk

/-! ## Among others -/

variable {ι : Type} [DecidableEq ι] {P₀ P : Pool StoreOp StoreRes Exc RestoreResult ι} {i : ι}
  {t : List (ι × StoreOp)}

/-- A restore that is admissible when it begins, among clients that leave alone what it relies
on: however their operations fall between its own, if it has ended it has returned what it
returns alone, except that it may have counted more events, and the node's trust state is what
it granted. -/
theorem restore_under_traffic {n : Nat} (hM : Admissible o w id M payload n)
    (hi : P₀ i = o.restore id) (ht : Pool.Traced handle noFault P₀ w t P w')
    (hothers : ∀ x ∈ t, x.1 ≠ i → Harmless o id M x.2) {r : Except Exc RestoreResult}
    (hend : P i = Prog.lift r) :
    (∃ n', r = .ok (result id M payload n') ∧ Replayed M n n') ∧
      stored? o w' (trustKey M.nodeId) = some (grantedValue o M) := by
  have h := Ensures.traced (spares_interference o id M) (fun _ h => h)
    (fun op w ho => Harmless.spares ho w) (hi ▸ restore_ensures hM) ht hothers
  rw [hend] at h
  exact h.of_lift (spares_interference o id M)

/-- The put of node `beta`'s trust state. -/
def putBeta : StoreOp :=
  .etcdPut (softRestart.registry.metadata.key (trustKey "beta")) (encode "trusted")

/-- A client, and one that puts that trust state. -/
def besidePut (p : Store RestoreResult) : Pool StoreOp StoreRes Exc RestoreResult (Fin 2)
  | 0 => p
  | 1 => .call putBeta fun _ => .ret (result "m2" softManifest [] 0)

theorem besidePut_zero (p : Store RestoreResult) : besidePut p 0 = p := rfl

theorem putBeta_harmless : Harmless softRestart "m1" softManifest putBeta := by
  rintro (h | h | ⟨ref, h, -⟩)
  · exact manifestKey_ne_trustKey _ _ _ h.symm
  · exact absurd ((trustKey_inj _).mp h) (show "beta" ≠ "alpha" by decide)
  · cases h

/-- The put may fall after the client's first operation. -/
theorem besidePut_traced {p : Store RestoreResult} {op : StoreOp}
    {k : Except Exc (StoreRes op) → Store RestoreResult} (hp : p = .call op k) (w : World) :
    ∃ t P w' r, [(0, op), (1, putBeta)] <+: t ∧ Pool.Traced handle noFault (besidePut p) w t P w' ∧
      P 0 = Prog.lift r ∧ ∀ x ∈ t, x.1 ≠ 0 → Harmless softRestart "m1" softManifest x.2 := by
  have h0 : Pool.Traced handle noFault (besidePut p) w [] (besidePut p) w := .start
  have h1 := (h0.effect ((besidePut_zero p).trans hp)).effect (i := 1) rfl
  refine ⟨_, _, _, _, List.prefix_append .., h1.run_thread 0, Function.update_self .., ?_⟩
  intro x hx hne
  rcases List.mem_append.mp hx with hx | hx
  · rcases List.mem_cons.mp hx with rfl | hx
    · exact absurd rfl hne
    · obtain rfl := List.mem_singleton.mp hx
      exact putBeta_harmless
  · obtain ⟨op, -, rfl⟩ := List.mem_map.mp hx
    exact absurd rfl hne

theorem soft_under_traffic : ∃ t P w' r, (1, putBeta) ∈ t ∧
    Pool.Traced handle noFault (besidePut (softRestart.restore "m1"))
      (sampleWorld softWire "unverified") t P w' ∧
    P 0 = Prog.lift r ∧
    (∃ n', r = .ok (result "m1" softManifest (encode "payload-bytes") n') ∧
      Replayed softManifest 0 n') ∧
    stored? softRestart w' (trustKey "alpha") = some (grantedValue softRestart softManifest) := by
  have hM : Admissible softRestart (sampleWorld softWire "unverified") "m1" softManifest
      (encode "payload-bytes") 0 := { soft_checked with token := nofun }
  obtain ⟨t, P, w', r, hpre, ht, hend, hothers⟩ := besidePut_traced (p := softRestart.restore "m1")
    rfl (sampleWorld softWire "unverified")
  have hput := hpre.subset (List.mem_cons_of_mem _ (List.mem_singleton_self _))
  exact ⟨t, P, w', r, hput, ht, hend,
    restore_under_traffic hM (besidePut_zero _) ht hothers hend⟩

end Gaia.Restore
