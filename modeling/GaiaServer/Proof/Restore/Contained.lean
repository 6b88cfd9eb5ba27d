import GaiaServer.Proof.Restore.Atomic
import GaiaServer.Proof.Restore.Replay
import GaiaServer.Spec.Restore.Readable

/-!
# The exceptions of a restore

Three of the steps raise a `RestoreError` or nothing (`loadManifest_contained`,
`verifyAttestation_contained`, `checkCriuInvariant_contained`). The other four let the
exceptions of `json.dumps`, of the storage clients, of the decoders and of `str.encode`
pass, and each raises a `RestoreError` or nothing exactly if what it takes is readable
(`verifyHashes_contained`, `fetchPayload_contained`, `replayEvents_contained`,
`promoteTrust_contained`). So does the whole sequence for readable manifests only
(`restore_contained_iff`).
-/

namespace Gaia.Restore

open Storage World RestoreOrchestrator
open Prog (RaisesOnly raisesOnly_bind raisesOnly_bind_iff raisesOnly_lift raisesOnly_of_run
  raisesOnly_perform raisesOnly_raise raisesOnly_ret bind_eq run_bind_ok run_lift)

variable {o : RestoreOrchestrator} {w : World} {M : RestoreManifest} {id : String}

/-- Run alone, a method raises a `RestoreError` or nothing. -/
def Contained {α : Type} (p : Store α) (w : World) : Prop :=
  RaisesOnly handle (fun e => e.cls.isRestoreError = true) p w

namespace RestoreOrchestrator

theorem get_contained (s : EtcdMetadataStore) (k : String) : Contained (s.get k) w := by
  refine (raisesOnly_of_run (get_run s k)).mpr fun e he => ?_
  cases he

theorem loadManifest_contained : Contained (o.loadManifest id) w := by
  refine raisesOnly_bind.mpr ⟨get_contained _ _, fun raw w' _ => ?_⟩
  cases raw with
  | none => exact raisesOnly_raise.mpr rfl
  | some raw =>
    dsimp only
    cases o.core.readManifest raw with
    | error exc => exact raisesOnly_raise.mpr rfl
    | ok manifest =>
      dsimp only
      split
      · exact raisesOnly_raise.mpr rfl
      · exact raisesOnly_ret _

/-- The exceptions of `json.dumps` are no `RestoreError`. -/
theorem not_isRestoreError_of_jsonDumps {args : DumpsArgs} {v : PyVal} {e : Exc}
    (h : jsonDumps args v = .error e) : ¬ e.cls.isRestoreError := by
  rw [jsonDumps] at h
  cases hd : Json.dumps args v with
  | ok text =>
    rw [hd] at h
    cases h
  | error exc =>
    rw [hd] at h
    cases h
    cases exc <;> decide

theorem sha256Dict_hashText :
    o.sha256Dict ((o.core.manifestWire M).filter fun item => item.1 ≠ .str "manifest_hash") =
      (hashText o M).map fun canonical => hexdigest (o.sha256 (encode canonical)) := by
  rw [sha256Dict, hashText]
  rfl

theorem verifyHashes_contained :
    Contained (o.verifyHashes M) w ↔ ∃ canonical, hashText o M = .ok canonical := by
  rw [Contained, verifyHashes, bind_eq, raisesOnly_bind, raisesOnly_lift, sha256Dict_hashText]
  cases ht : hashText o M with
  | error exc =>
    have hexc : ¬ exc.cls.isRestoreError := not_isRestoreError_of_jsonDumps ht
    simp [Except.map, hexc]
  | ok canonical =>
    simp only [Except.map, reduceCtorEq, false_implies, implies_true, true_and, Except.ok.injEq,
      exists_eq', iff_true]
    intro computed w' _
    split
    · exact raisesOnly_ret _
    · exact raisesOnly_raise.mpr rfl

theorem verifyAttestation_contained : Contained (o.verifyAttestation M) w := by
  rw [Contained, verifyAttestation]
  split
  · exact raisesOnly_raise.mpr rfl
  · split
    · exact raisesOnly_ret _
    · refine raisesOnly_bind.mpr ⟨get_contained _ _, fun raw w' _ => ?_⟩
      cases raw with
      | none => exact raisesOnly_raise.mpr rfl
      | some raw => exact raisesOnly_ret _

/-- `get_object` lets the client's exception pass. -/
theorem getObject_contained {name : String} :
    Contained (client (.getObject o.registry.checkpoints.bucket name)) w ↔
      (object? o w name).isSome := by
  rw [Contained, object?, raisesOnly_perform, handle]
  cases w.objects.get? (o.registry.checkpoints.bucket, name) with
  | none => simp [ExcClass.isRestoreError]
  | some data => simp

theorem getCheckpoint_contained :
    Contained (o.registry.checkpoints.getCheckpoint o.core M.checkpointId) w ↔
      CheckpointReadable o w M := by
  rw [Contained, MinIOCheckpointStore.getCheckpoint, bind_eq, raisesOnly_bind, CheckpointReadable]
  constructor
  · rintro ⟨hdata, hrest⟩
    obtain ⟨data, hd⟩ := Option.isSome_iff_exists.mp (getObject_contained.mp hdata)
    have hnext := hrest data w (getObject_run.mpr ⟨hd, rfl⟩)
    rw [bind_eq, raisesOnly_bind, raisesOnly_lift] at hnext
    refine ⟨data, hd, hnext.1, fun ref hr => ?_⟩
    have hpay := hnext.2 ref w (by rw [run_lift, hr])
    rw [bind_eq, raisesOnly_bind] at hpay
    exact getObject_contained.mp hpay.1
  · rintro ⟨data, hd, hdec, hpay⟩
    refine ⟨getObject_contained.mpr (by rw [hd]; rfl), fun data' w' hrun => ?_⟩
    obtain ⟨hd', rfl⟩ := getObject_run.mp hrun
    obtain rfl := Option.some.inj (hd.symm.trans hd')
    rw [bind_eq, raisesOnly_bind]
    refine ⟨raisesOnly_lift.mpr hdec, fun ref w'' hrun' => ?_⟩
    obtain ⟨hr, rfl⟩ := Prod.mk.inj ((run_lift ..).symm.trans hrun')
    rw [bind_eq, raisesOnly_bind]
    exact ⟨getObject_contained.mpr (hpay ref hr), fun payload w' _ => raisesOnly_ret _⟩

theorem fetchPayload_contained :
    Contained (o.fetchPayload M) w ↔ CheckpointReadable o w M := by
  rw [Contained, fetchPayload, bind_eq, raisesOnly_bind]
  refine (and_iff_left ?_).trans getCheckpoint_contained
  rintro ⟨ref, payload⟩ w' _
  dsimp only
  split
  · exact raisesOnly_ret _
  · split
    · exact raisesOnly_ret _
    · exact raisesOnly_raise.mpr rfl

end RestoreOrchestrator

theorem decodeEvents_cons_of_ok {core : Codec} {m : StreamMsg} {msgs : List StreamMsg}
    {envelope : EventEnvelope} {e : Exc} (hm : core.readEnvelope m.data = .ok envelope) :
    decodeEvents core (m :: msgs) = .error e ↔ decodeEvents core msgs = .error e := by
  rw [decodeEvents, hm]
  cases decodeEvents core msgs <;> simp [Except.map]

theorem decodeEvents_cons_of_error {core : Codec} {m : StreamMsg} {msgs : List StreamMsg}
    {exc e : Exc} (hm : core.readEnvelope m.data = .error exc) :
    decodeEvents core (m :: msgs) = .error e ↔ exc = e ∧ e.cls ≠ .natsTimeoutError := by
  rw [decodeEvents, hm]
  by_cases ht : exc.cls = .natsTimeoutError
  · simp only [ht, if_true, reduceCtorEq, false_iff]
    rintro ⟨rfl, hne⟩
    exact hne ht
  · simp only [ht, if_false, Except.error.injEq]
    exact ⟨fun he => ⟨he, he ▸ ht⟩, And.left⟩

/-- Decoding raises what the first message that does not decode raises, if this
is no timeout. -/
theorem decodeEvents_eq_error {core : Codec} {msgs : List StreamMsg} {e : Exc} :
    decodeEvents core msgs = .error e ↔
      ∃ read m unread, msgs = read ++ m :: unread ∧
        (∀ x ∈ read, ∃ envelope, core.readEnvelope x.data = .ok envelope) ∧
        core.readEnvelope m.data = .error e ∧ e.cls ≠ .natsTimeoutError := by
  induction msgs with
  | nil => simp [decodeEvents]
  | cons m msgs ih =>
    cases hm : core.readEnvelope m.data with
    | ok envelope =>
      rw [decodeEvents_cons_of_ok hm, ih]
      constructor
      · rintro ⟨read, m', unread, rfl, hread, hm', ht⟩
        have hall := List.forall_mem_cons.mpr ⟨⟨envelope, hm⟩, hread⟩
        exact ⟨m :: read, m', unread, rfl, hall, hm', ht⟩
      · rintro ⟨read, m', unread, hsplit, hread, hm', ht⟩
        cases read with
        | nil =>
          obtain ⟨rfl, -⟩ := List.cons.inj hsplit
          rw [hm] at hm'
          cases hm'
        | cons x read =>
          obtain ⟨rfl, hmsgs⟩ := List.cons.inj hsplit
          exact ⟨read, m', unread, hmsgs, (List.forall_mem_cons.mp hread).2, hm', ht⟩
    | error exc =>
      rw [decodeEvents_cons_of_error hm]
      constructor
      · rintro ⟨rfl, ht⟩
        exact ⟨[], m, msgs, rfl, fun x hx => absurd hx List.not_mem_nil, hm, ht⟩
      · rintro ⟨read, m', unread, hsplit, hread, hm', ht⟩
        cases read with
        | nil =>
          obtain ⟨rfl, -⟩ := List.cons.inj hsplit
          exact ⟨Except.error.inj (hm.symm.trans hm'), ht⟩
        | cons x read =>
          obtain ⟨rfl, -⟩ := List.cons.inj hsplit
          obtain ⟨envelope, hx⟩ := hread m List.mem_cons_self
          rw [hm] at hx
          cases hx

/-- A subscription after a number opens if a stream is found and a sequence number comes
after it. -/
theorem subscription_ok_iff {stream : String} {n : Int} :
    (∃ sub, w.subscription stream (some n) = .ok sub) ↔
      (w.streamFor (stream ++ ".>")).isSome ∧ 0 ≤ n ∧ n < maxSeq := by
  simp only [subscription_eq_ok]
  constructor
  · intro ⟨_, name, hs, hn, _⟩
    obtain ⟨found, hf, -⟩ := Option.map_eq_some_iff.mp hs
    exact ⟨by rw [hf]; rfl, hn n rfl⟩
  · intro ⟨hs, hn⟩
    obtain ⟨found, hf⟩ := Option.isSome_iff_exists.mp hs
    refine ⟨_, found.1, by rw [World.source, hf]; rfl, fun k hk => ?_, rfl⟩
    obtain rfl := Option.some.inj hk
    exact hn

theorem not_isRestoreError_of_start (n : Int) :
    ¬ (startRefused (n + 1)).cls.isRestoreError := by
  unfold startRefused
  split
  · rename_i exc _
    cases exc <;> decide
  · exact Bool.false_ne_true

/-- The client's own exceptions are no `RestoreError`. -/
theorem not_isRestoreError_of_subscription {stream : String} {n : Int} {e : Exc}
    (h : w.subscription stream (some n) = .error e) : ¬ e.cls.isRestoreError := by
  simp only [World.subscription, handle, Option.map_some] at h
  split at h
  · cases h
    decide
  · split at h
    · cases h
    · cases h
      exact not_isRestoreError_of_start n

namespace RestoreOrchestrator

/-- Reading the events after a number opens a subscription and decodes the tail. -/
theorem readEvents_contained {stream : String} {n : Int} :
    Contained (JetStreamEventStore.readEvents o.core stream (some n) 1000) w ↔
      ((w.streamFor (stream ++ ".>")).isSome ∧ 0 ≤ n ∧ n < maxSeq) ∧
        ∀ e, decodeEvents o.core ((w.tail stream n).take 1000) = .error e →
          e.cls.isRestoreError := by
  rw [Contained, raisesOnly_of_run (JetStreamEventStore.readEvents_run ..), World.eventsAfter,
    ← subscription_ok_iff]
  cases hs : w.subscription stream (some n) with
  | ok sub =>
    simp only [Except.bind, pending_eq_tail hs, Except.ok.injEq, exists_eq', true_and]
    rfl
  | error exc =>
    have hexc : ¬ exc.cls.isRestoreError := not_isRestoreError_of_subscription hs
    simp [Except.bind, hexc]

theorem replayEvents_contained {stream : String} :
    Contained (o.replayEvents M stream) w ↔ EventsReadable o w M stream := by
  rw [Contained, replayEvents, EventsReadable]
  cases given M.causalCursor with
  | none => simp
  | some cursor =>
    simp only [Option.some.injEq, forall_eq']
    cases pyInt (replace cursor "seq:" "") with
    | none => simp [ExcClass.isRestoreError]
    | some n =>
      simp only [Option.some.injEq, forall_eq', bind_eq, raisesOnly_bind]
      refine (and_iff_left ?_).trans (readEvents_contained.trans ?_)
      · intro events w' _
        split
        · exact raisesOnly_raise.mpr rfl
        · exact raisesOnly_ret _
      · rw [and_assoc]
        refine and_congr_right fun _ => and_congr_right fun _ => ?_
        constructor
        · intro h read m unread hsplit hread e he
          refine or_iff_not_imp_left.mpr fun ht => h e ?_
          exact decodeEvents_eq_error.mpr ⟨read, m, unread, hsplit, hread, he, ht⟩
        · intro h e he
          obtain ⟨read, m, unread, hsplit, hread, hm, ht⟩ := decodeEvents_eq_error.mp he
          exact (h read m unread hsplit hread e hm).resolve_left ht

theorem checkCriuInvariant_contained : Contained (checkCriuInvariant M) w := by
  rw [Contained, checkCriuInvariant]
  split
  · exact raisesOnly_raise.mpr rfl
  · exact raisesOnly_ret _

theorem promoteTrust_contained : Contained (o.promoteTrust M) w ↔ TokenEncodes M := by
  rw [Contained, promoteTrust, TokenEncodes]
  cases givenStr M.splitBrainToken with
  | none =>
    simp only [reduceCtorEq, false_implies, implies_true, iff_true]
    refine raisesOnly_bind.mpr ⟨raisesOnly_perform.mpr fun e he => ?_, fun _ w' _ =>
      raisesOnly_ret _⟩
    cases he
  | some token =>
    simp only [Option.some.injEq, forall_eq', bind_eq, raisesOnly_bind, raisesOnly_lift]
    constructor
    · rintro ⟨hencode, -⟩
      cases token with
      | text t => exact ⟨_, rfl⟩
      | lone points surrogate => exact absurd (hencode _ rfl) Bool.false_ne_true
    · rintro ⟨expected, he⟩
      refine ⟨fun e h => ?_, fun _ _ _ => ⟨raisesOnly_perform.mpr fun e h => ?_, ?_⟩⟩
      · rw [he] at h
        cases h
      · rw [handle] at h
        split at h <;> cases h
      intro swapped w' _
      split
      · exact raisesOnly_ret _
      · exact raisesOnly_raise.mpr rfl

/-- The attestation's step, and the steps `f` that follow it. -/
theorem attestation_contained {f : Unit → Store RestoreResult} :
    Contained ((o.verifyAttestation M).bind f) w ↔ (Attested o w M → Contained (f ()) w) := by
  rw [Contained, raisesOnly_bind_iff fun _ w' => verifyAttestation_run]
  refine (and_iff_right verifyAttestation_contained).trans ?_
  exact ⟨fun h => h (), fun h _ => h⟩

theorem replays_iff : (∃ n, (o.replayEvents M).run handle w = (.ok n, w)) ↔ Replays o w M := by
  simp only [replayEvents_run, Replays, and_true]
  cases given M.causalCursor with
  | none => simp
  | some cursor =>
    simp only [reduceCtorEq, false_implies, true_and, Option.some.injEq, forall_eq']
    constructor
    · rintro ⟨_, n, events, hn, hevents, hne, -⟩
      exact ⟨n, events, hn, hevents, hne⟩
    · rintro ⟨n, events, hn, hevents, hne⟩
      exact ⟨_, n, events, hn, hevents, hne, rfl⟩

/-- The steps that read the checkpoint and the events, and those that follow. -/
theorem reads_contained {f : Bytes → Nat → Store RestoreResult} {P : Prop}
    (hf : ∀ payload n, Contained (f payload n) w ↔ P) :
    Contained ((o.fetchPayload M).bind fun payload => (o.replayEvents M).bind (f payload)) w ↔
      CheckpointReadable o w M ∧
        ((∃ data ref, object? o w (MinIOCheckpointStore.manifestKey M.checkpointId) = some data ∧
            o.core.readCheckpointRef data = .ok ref) →
          PayloadMatches o w M →
            EventsReadable o w M "gaia-checkpoints" ∧ (Replays o w M → P)) := by
  have hreplay : ∀ payload, Contained ((o.replayEvents M).bind (f payload)) w ↔
      EventsReadable o w M "gaia-checkpoints" ∧ (Replays o w M → P) := by
    intro payload
    rw [Contained, raisesOnly_bind_iff fun n w' => replayEvents_run, ← replays_iff]
    refine and_congr replayEvents_contained ?_
    simp only [replayEvents_run, and_true]
    constructor
    · rintro h ⟨n, hn⟩
      exact (hf payload n).mp (h n hn)
    · exact fun h n hn => (hf payload n).mpr (h ⟨n, hn⟩)
  rw [Contained, raisesOnly_bind_iff fun payload w' => fetchPayload_run]
  refine and_congr fetchPayload_contained ?_
  constructor
  · intro h href ⟨payload, hp, hh⟩
    exact (hreplay payload).mp (h payload ⟨href, hp, hh⟩)
  · intro h payload ⟨href, hp, hh⟩
    exact (hreplay payload).mpr (h href ⟨payload, hp, hh⟩)

/-- What follows the replay. -/
theorem promotion_contained {f : TrustClass → RestoreResult} :
    Contained ((checkCriuInvariant M).bind fun _ => (o.promoteTrust M).bind fun granted =>
      .ret (f granted)) w ↔
      ((M.restorePath = .criuMigration → given M.admissibilityPolicyRef ≠ none) →
        TokenEncodes M) := by
  rw [Contained, raisesOnly_bind_iff fun _ w' => checkCriuInvariant_run]
  refine (and_iff_right checkCriuInvariant_contained).trans ?_
  have hpromote : Contained ((o.promoteTrust M).bind fun granted => .ret (f granted)) w ↔
      TokenEncodes M := by
    rw [Contained, raisesOnly_bind]
    exact (and_iff_left fun _ _ _ => raisesOnly_ret _).trans promoteTrust_contained
  exact ⟨fun h hg => hpromote.mp (h () hg), fun h _ hg => hpromote.mpr (h hg)⟩

end RestoreOrchestrator

/-- Run alone, a restore raises a `RestoreError` or nothing exactly if the
manifest under its id, if there is a signed one, is readable. -/
theorem restore_contained_iff (o : RestoreOrchestrator) (w : World) (id : String) :
    (∀ e w', (o.restore id).run handle w = (.error e, w') → e.cls.isRestoreError) ↔
      ∀ M, Loaded o w M id → Readable o w M := by
  show Contained (o.restore id) w ↔ _
  rw [Contained, restore, bind_eq, raisesOnly_bind_iff fun M w' => loadManifest_run]
  refine (and_iff_right loadManifest_contained).trans (forall_congr' fun M => ?_)
  refine imp_congr_right fun _ => ?_
  rw [bind_eq, raisesOnly_bind_iff fun _ w' => verifyHashes_run]
  have hnext : ∀ f : Bytes → Nat → TrustClass → RestoreResult,
      Contained ((o.verifyAttestation M).bind fun _ =>
      (o.fetchPayload M).bind fun payload => (o.replayEvents M).bind fun n =>
        (checkCriuInvariant M).bind fun _ => (o.promoteTrust M).bind fun granted =>
          .ret (f payload n granted)) w ↔ _ := fun f =>
    attestation_contained.trans (imp_congr_right fun _ =>
      reads_contained fun payload n => promotion_contained (f := f payload n))
  constructor
  · rintro ⟨hhash, h⟩
    obtain ⟨canonical, ht⟩ := verifyHashes_contained.mp hhash
    exact ⟨canonical, ht, fun hm => (hnext _).mp (h () ⟨canonical, ht, hm⟩)⟩
  · rintro ⟨canonical, ht, h⟩
    refine ⟨verifyHashes_contained.mpr ⟨canonical, ht⟩, ?_⟩
    rintro _ ⟨canonical', ht', hm⟩
    obtain rfl := Except.ok.inj (ht.symm.trans ht')
    exact (hnext _).mpr (h hm)

/-! ## A checkpoint that is not there -/

/-- The stores of a soft restart, without its checkpoint. -/
def lostCheckpoint : World := { sampleWorld softWire "unverified" with objects := .empty }

theorem lostCheckpoint_stored (key : String) :
    stored? softRestart lostCheckpoint key =
      stored? softRestart (sampleWorld softWire "unverified") key := rfl

theorem lostCheckpoint_loaded : Loaded softRestart lostCheckpoint softManifest "m1" := by
  obtain ⟨raw, hs, hr⟩ := soft_checked.stored
  exact ⟨⟨raw, (lostCheckpoint_stored _).trans hs, hr⟩, soft_checked.signed⟩

theorem lost_checkpoint_restore : (softRestart.restore "m1").run handle lostCheckpoint =
    (.error ⟨.s3Error, "NoSuchKey"⟩, lostCheckpoint) := by
  have hload := loadManifest_run.mpr ⟨lostCheckpoint_loaded, rfl⟩
  have hattested : (softRestart.verifyAttestation softManifest).run handle lostCheckpoint =
      (.ok (), lostCheckpoint) :=
    verifyAttestation_run.mpr ⟨⟨soft_checked.attested, nofun⟩, rfl⟩
  unfold restore
  refine (run_bind_ok handle hload).trans ?_
  refine (run_bind_ok handle (verifyHashes_run.mpr ⟨soft_checked.hashed, rfl⟩)).trans ?_
  refine (run_bind_ok handle hattested).trans ?_
  rfl

/-- The exception of the MinIO client escapes. -/
theorem missing_checkpoint_escapes :
    Loaded softRestart lostCheckpoint softManifest "m1" ∧
    (softRestart.restore "m1").run handle lostCheckpoint =
      (.error ⟨.s3Error, "NoSuchKey"⟩, lostCheckpoint) ∧
    ¬ ExcClass.isRestoreError .s3Error :=
  ⟨lostCheckpoint_loaded, lost_checkpoint_restore, by decide⟩

end Gaia.Restore
