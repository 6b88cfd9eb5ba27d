import GaiaServer.Framework.Trace
import GaiaServer.Spec.Storage.Checkpoints
import Mathlib.Data.List.Induction

/-!
# Interleaved puts and gets of a checkpoint

`put_checkpoint` writes the reference, then the payload; `get_checkpoint` reads the
one, then the other; and nothing keeps other calls out between. What an object holds
is what its last writer stored there (`stored_by`), so a pair that is read has its
halves from the calls that had written them last when each was read. These are the
same call if the checkpoint was whole when the reference was read, and not written
before the payload was (`checkpoint_halves`).
-/

namespace Gaia.Storage

open World
open Function (update update_self update_of_ne)
open Pool (Traced after)
open Prog (Only only_perform)

variable {ι : Type} {core : Codec} {s : MinIOCheckpointStore} {id : String}

/-! ## Keys -/

theorem manifestKey_ne_payloadKey (id id' : String) :
    Part.key id .manifest ≠ Part.key id' .payload := by
  intro h
  have hl := congrArg (fun k : String => k.toList.reverse) h
  simp [Part.key, MinIOCheckpointStore.manifestKey, MinIOCheckpointStore.payloadKey] at hl

theorem Part.key_inj {id id' : String} {p p' : Part} :
    Part.key id p = Part.key id' p' ↔ id = id' ∧ p = p' := by
  cases p <;> cases p'
  · simp only [key, MinIOCheckpointStore.manifestKey, ← String.toList_inj, and_true]
    simp
  · simp [manifestKey_ne_payloadKey]
  · simp [(manifestKey_ne_payloadKey id' id).symm]
  · simp only [key, MinIOCheckpointStore.payloadKey, ← String.toList_inj, and_true]
    simp

/-! ## Writes -/

theorem written_put {name : String} {data : Bytes} {p : Part} :
    written s id (.putObject s.bucket name data) = some p ↔ name = Part.key id p := by
  simp only [written, ne_eq, not_true_eq_false, if_false]
  by_cases hm : name = Part.key id .manifest
  · simp [hm, Part.key_inj]
  · by_cases hp : name = Part.key id .payload
    · simp [hp, Part.key_inj]
    · simp only [hm, hp, if_false, reduceCtorEq, false_iff]
      cases p
      · exact hm
      · exact hp

theorem lastWriter_concat (part : Part) (t : List (ι × StoreOp)) (i : ι) (op : StoreOp) :
    lastWriter s id part (t ++ [(i, op)]) =
      if written s id op = some part then some i else lastWriter s id part t := by
  rw [lastWriter, writes, List.filterMap_append, List.reverse_append]
  cases hw : written s id op with
  | none => simp [hw, lastWriter, writes]
  | some p =>
    by_cases hp : p = part
    · simp [hw, hp]
    · simp [hw, hp, lastWriter, writes]

/-- Reading changes no last writer, nor do operations elsewhere. -/
theorem lastWriter_append_read {t t' : List (ι × StoreOp)} (h : writes s id t' = []) (part : Part)
    (i : ι) (bucket name : String) :
    lastWriter s id part (t ++ (i, .getObject bucket name) :: t') = lastWriter s id part t := by
  have hw : writes s id (t ++ (i, .getObject bucket name) :: t') =
      writes s id t ++ writes s id t' := by simp [writes, written]
  rw [lastWriter, hw, h, List.append_nil, lastWriter]

/-- One call wrote both parts of a whole checkpoint last. -/
theorem Whole.lastWriter_eq {t : List (ι × StoreOp)} (h : Whole s id t) :
    lastWriter s id .manifest t = lastWriter s id .payload t := by
  obtain ⟨earlier, j, hw⟩ := h
  simp [lastWriter, hw]

/-! ## What the calls issue -/

/-- A call reads, or stores its data in a part of its checkpoint. -/
def Issues (core : Codec) (s : MinIOCheckpointStore) (c : CheckpointCall) : StoreOp → Prop
  | .getObject .. => True
  | .putObject bucket name data => bucket = s.bucket ∧ ∃ ref payload part,
      c = .put ref payload ∧ name = Part.key ref.checkpointId part ∧ c.data core part = some data
  | _ => False

theorem program_only (c : CheckpointCall) : (c.program core s).Only (Issues core s c) := by
  cases c with
  | put ref payload =>
    refine Only.bind ?_ fun _ => trivial
    rw [MinIOCheckpointStore.putCheckpoint]
    cases hd : jsonDumps {} (.dict (core.checkpointRefWire ref)) with
    | error exc => trivial
    | ok text =>
      have hm : (CheckpointCall.put ref payload).data core .manifest = some (encode text) := by
        simp [CheckpointCall.data, hd, Except.toOption]
      rw [Prog.bind_eq, Prog.lift_ok, Prog.ret_bind]
      refine Only.bind (only_perform.mpr ?_) fun _ =>
        Only.bind (only_perform.mpr ?_) fun _ => trivial
      · exact ⟨rfl, ref, payload, .manifest, rfl, rfl, hm⟩
      · exact ⟨rfl, ref, payload, .payload, rfl, rfl, rfl⟩
  | get id =>
    refine Only.bind (Only.bind (only_perform.mpr trivial) fun data => ?_) fun _ => trivial
    refine Only.bind (Prog.only_lift _) fun ref => ?_
    exact Only.bind (only_perform.mpr trivial) fun payload => trivial

/-- A reference that the codec reads back is read as the one that was put. -/
theorem eq_of_manifest_data {ref ref' : CheckpointRef} {payload data : Bytes}
    (hcodec : ∀ text, jsonDumps {} (.dict (core.checkpointRefWire ref)) = .ok text →
      core.readCheckpointRef (encode text) = .ok ref)
    (hdata : (CheckpointCall.put ref payload).data core .manifest = some data)
    (hread : core.readCheckpointRef data = .ok ref') : ref' = ref := by
  rw [CheckpointCall.data] at hdata
  cases hd : jsonDumps {} (.dict (core.checkpointRefWire ref)) with
  | error exc =>
    rw [hd] at hdata
    cases hdata
  | ok text =>
    rw [hd] at hdata
    have hround := hcodec text hd
    rw [Option.some.inj hdata, hread] at hround
    exact Except.ok.inj hround

/-- What a part holds was stored by its last writer, a put of that checkpoint. -/
theorem stored_by {c : ι → CheckpointCall} {w₀ : World} {part : Part} {data : Bytes}
    (h₀ : w₀.objects.get? (s.bucket, Part.key id part) = none) {t : List (ι × StoreOp)}
    (ht : ∀ x ∈ t, Issues core s (c x.1) x.2)
    (hd : (after handle w₀ t).objects.get? (s.bucket, Part.key id part) = some data) :
    ∃ j ref payload, lastWriter s id part t = some j ∧ c j = .put ref payload ∧
      ref.checkpointId = id ∧ (c j).data core part = some data := by
  induction t using List.reverseRecOn with
  | nil =>
    rw [after, List.foldl_nil, h₀] at hd
    cases hd
  | append_singleton t x ih =>
    obtain ⟨i, op⟩ := x
    rw [List.forall_mem_append, List.forall_mem_singleton] at ht
    rw [Pool.after_concat] at hd
    rw [lastWriter_concat]
    cases op with
    | getObject bucket name =>
      refine ih ht.1 ?_
      simp only [handle] at hd
      split at hd <;> exact hd
    | putObject bucket name data' =>
      obtain ⟨rfl, ref, payload, p, hc, hname, hdata⟩ := ht.2
      simp only [handle, Dict.get?_set, Prod.mk.injEq, true_and] at hd
      by_cases hkey : Part.key id part = name
      · rw [if_pos hkey] at hd
        rw [if_pos (written_put.mpr hkey.symm)]
        obtain ⟨hid, hp⟩ := Part.key_inj.mp (hkey.trans hname)
        refine ⟨i, ref, payload, rfl, hc, hid.symm, ?_⟩
        rw [hp, hdata, Option.some.inj hd]
      · rw [if_neg hkey] at hd
        rw [if_neg fun hw => hkey (written_put.mp hw).symm]
        exact ih ht.1 hd
    | _ => exact ht.2.elim

theorem getObject_ok {bucket name : String} {w : World} {data : Bytes}
    (h : (handle (.getObject bucket name) w).1 = .ok data) :
    w.objects.get? (bucket, name) = some data := by
  simp only [handle] at h
  cases hg : w.objects.get? (bucket, name) with
  | none =>
    rw [hg] at h
    cases h
  | some d =>
    rw [hg] at h
    exact congrArg some (Except.ok.inj h)

variable [DecidableEq ι]

/-- The reads of a `get_checkpoint` that has returned. -/
theorem get_reads {P₀ P : Pool StoreOp StoreRes Exc (Option (CheckpointRef × Bytes)) ι}
    {F : Exc → Prop} {w₀ w : World} {t : List (ι × StoreOp)} (ht : Traced handle F P₀ w₀ t P w)
    {g : ι} (hg : P₀ g = (CheckpointCall.get id).program core s) {ref : CheckpointRef}
    {payload : Bytes} (hret : P g = .ret (some (ref, payload))) :
    ∃ t₁ t₂ t₃ data,
      t = t₁ ++ (g, .getObject s.bucket (Part.key id .manifest)) :: t₂ ++
        (g, .getObject s.bucket (Part.key id .payload)) :: t₃ ∧
      (after handle w₀ t₁).objects.get? (s.bucket, Part.key id .manifest) = some data ∧
      core.readCheckpointRef data = .ok ref ∧
      (after handle w₀ (t₁ ++ (g, .getObject s.bucket (Part.key id .manifest)) :: t₂)).objects.get?
        (s.bucket, Part.key id .payload) = some payload := by
  have hrun := ht.along hret
  rw [hg] at hrun
  obtain ⟨pair, _, hget, hend⟩ := hrun.bind_inv
  obtain ⟨hpair, v₄, rfl⟩ := hend.ret_inv
  obtain rfl := Option.some.inj hpair
  obtain ⟨data, _, hmanifest, hrest⟩ := hget.bind_inv
  obtain ⟨u₁, v₁, rfl, hdata⟩ := hmanifest.perform_inv
  obtain ⟨ref', _, hdecode, hrest⟩ := hrest.bind_inv
  obtain ⟨hread, v₂, rfl⟩ := hdecode.lift_inv
  obtain ⟨payload', _, hpayload, hend⟩ := hrest.bind_inv
  obtain ⟨u₂, v₃, rfl, hdata'⟩ := hpayload.perform_inv
  obtain ⟨hpair, v₅, rfl⟩ := hend.ret_inv
  obtain ⟨rfl, rfl⟩ := Prod.mk.inj hpair
  refine ⟨u₁, v₁ ++ v₂ ++ u₂, v₃ ++ v₅ ++ v₄, data, by simp [Part.key], getObject_ok hdata,
    hread, ?_⟩
  have hp := getObject_ok hdata'
  simpa [Part.key] using hp

/-- Whatever calls interleave, and whichever raise: the pair that a `get_checkpoint`
returns has its reference from the put that had written the reference last when it
was read, and its payload from the put that had written the payload last. They are
one put's if the checkpoint was whole when the reference was read, and was not written
before the payload was. -/
theorem checkpoint_halves {c : ι → CheckpointCall} {F : Exc → Prop} {w₀ w : World}
    {t : List (ι × StoreOp)} {P : Pool StoreOp StoreRes Exc (Option (CheckpointRef × Bytes)) ι}
    (ht : Traced handle F (fun i => (c i).program core s) w₀ t P w)
    (h₀ : ∀ part, w₀.objects.get? (s.bucket, Part.key id part) = none)
    (hcodec : ∀ i ref payload text, c i = .put ref payload →
      jsonDumps {} (.dict (core.checkpointRefWire ref)) = .ok text →
      core.readCheckpointRef (encode text) = .ok ref)
    {g : ι} (hg : c g = .get id) {ref : CheckpointRef} {payload : Bytes}
    (hret : P g = .ret (some (ref, payload))) :
    ∃ t₁ t₂ t₃ j k,
      t = t₁ ++ (g, .getObject s.bucket (Part.key id .manifest)) :: t₂ ++
        (g, .getObject s.bucket (Part.key id .payload)) :: t₃ ∧
      lastWriter s id .manifest t₁ = some j ∧
      (∃ p, c j = .put ref p) ∧ ref.checkpointId = id ∧
      lastWriter s id .payload
        (t₁ ++ (g, .getObject s.bucket (Part.key id .manifest)) :: t₂) = some k ∧
      (∃ r, c k = .put r payload ∧ r.checkpointId = id) ∧
      (Whole s id t₁ → writes s id t₂ = [] → c j = .put ref payload) := by
  obtain ⟨t₁, t₂, t₃, data, rfl, hm, hread, hp⟩ := get_reads ht (by rw [hg]) hret
  have hissued := (ht.only fun i => program_only (c i)).2
  rw [List.forall_mem_append] at hissued
  have hissued₁ := (List.forall_mem_append.mp hissued.1).1
  obtain ⟨j, ref', p, hj, hcj, hid, hdata⟩ := stored_by (h₀ .manifest) hissued₁ hm
  obtain ⟨k, r, payload', hk, hck, hid', hdata'⟩ := stored_by (h₀ .payload) hissued.1 hp
  rw [hcj] at hdata
  obtain rfl := eq_of_manifest_data (hcodec j ref' p · hcj) hdata hread
  rw [hck] at hdata'
  obtain rfl : payload' = payload := Option.some.inj hdata'
  refine ⟨t₁, t₂, t₃, j, k, rfl, hj, ⟨p, hcj⟩, hid, hk, ⟨r, hck, hid'⟩, fun hwhole hnone => ?_⟩
  have hjk : j = k := by
    rw [lastWriter_append_read hnone, ← hwhole.lastWriter_eq, hj] at hk
    exact Option.some.inj hk
  subst hjk
  have hboth : CheckpointCall.put r payload' = .put ref p := hck.symm.trans hcj
  obtain ⟨rfl, rfl⟩ := CheckpointCall.put.inj hboth
  exact hcj

/-! ## Two puts and a get -/

theorem put_program {ref : CheckpointRef} {payload : Bytes} {text : String}
    (h : jsonDumps {} (.dict (core.checkpointRefWire ref)) = .ok text) :
    ∃ k, (CheckpointCall.put ref payload).program core s =
      .call (.putObject s.bucket (Part.key ref.checkpointId .manifest) (encode text)) k := by
  simp only [CheckpointCall.program, MinIOCheckpointStore.putCheckpoint, h, Prog.bind_eq,
    Prog.lift_ok, Prog.perform, Prog.bind]
  exact ⟨_, rfl⟩

theorem put_run {w : World} {ref : CheckpointRef} {payload : Bytes} {text : String}
    (h : jsonDumps {} (.dict (core.checkpointRefWire ref)) = .ok text) :
    ((CheckpointCall.put ref payload).program core s).run handle w =
      (.ok none, { w with
        objects := (w.objects.set (s.bucket, Part.key ref.checkpointId .manifest)
          (encode text)).set (s.bucket, Part.key ref.checkpointId .payload) payload }) := by
  simp [CheckpointCall.program, MinIOCheckpointStore.putCheckpoint, h, Prog.run_bind,
    Prog.run_perform, handle, Part.key]

theorem get_run {w : World} {data payload : Bytes} {ref : CheckpointRef}
    (hm : w.objects.get? (s.bucket, Part.key id .manifest) = some data)
    (hr : core.readCheckpointRef data = .ok ref)
    (hp : w.objects.get? (s.bucket, Part.key id .payload) = some payload) :
    ((CheckpointCall.get id).program core s).run handle w = (.ok (some (ref, payload)), w) := by
  have hm' : w.objects.get? (s.bucket, MinIOCheckpointStore.manifestKey id) = some data := hm
  have hp' : w.objects.get? (s.bucket, MinIOCheckpointStore.payloadKey id) = some payload := hp
  simp [CheckpointCall.program, MinIOCheckpointStore.getCheckpoint, Prog.run_bind,
    Prog.run_perform, handle, hm', hr, hp']

/-- Two versions of one checkpoint. -/
def versionRef (state : String) : CheckpointRef := ⟨"c1", [(.str "state_hash", .str state)]⟩

def versionText (state : String) : String :=
  "\x7b\"checkpoint_id\": \"c1\", \"state_hash\": \"" ++ state ++ "\"\x7d"

/-- A codec that knows the two. -/
def versionCodec : Codec where
  readManifest := fun _ => .error ⟨.valueError, "unknown"⟩
  manifestWire := fun M => M.rest
  readCheckpointRef := fun raw =>
    if raw = encode (versionText "sha256:a") then .ok (versionRef "sha256:a")
    else if raw = encode (versionText "sha256:b") then .ok (versionRef "sha256:b")
    else .error ⟨.valueError, "unknown"⟩
  checkpointRefWire := fun ref => (.str "checkpoint_id", .str ref.checkpointId) :: ref.rest
  readEnvelope := fun _ => .error ⟨.valueError, "unknown"⟩
  envelopeWire := fun e => e.rest
  trustValue := fun _ => "unverified"

theorem version_dumps :
    jsonDumps {} (.dict (versionCodec.checkpointRefWire (versionRef "sha256:a"))) =
        .ok (versionText "sha256:a") ∧
      jsonDumps {} (.dict (versionCodec.checkpointRefWire (versionRef "sha256:b"))) =
        .ok (versionText "sha256:b") := by
  decide +kernel

theorem version_reads :
    versionCodec.readCheckpointRef (encode (versionText "sha256:a")) =
        .ok (versionRef "sha256:a") ∧
      versionCodec.readCheckpointRef (encode (versionText "sha256:b")) =
        .ok (versionRef "sha256:b") := by
  have hne : versionText "sha256:b" ≠ versionText "sha256:a" := by decide
  simp [versionCodec, encode_inj, hne]

inductive Caller
  | first
  | second
  | reader
  deriving DecidableEq

/-- A put of each version, and a get. -/
def versionCalls : Caller → CheckpointCall
  | .first => .put (versionRef "sha256:a") [1]
  | .second => .put (versionRef "sha256:b") [2]
  | .reader => .get "c1"

def versionPool : Pool StoreOp StoreRes Exc (Option (CheckpointRef × Bytes)) Caller :=
  fun i => (versionCalls i).program versionCodec {}

def emptyStore : World := ⟨.empty, .empty, .empty⟩

theorem version_codec_reads (i : Caller) (ref : CheckpointRef) (payload : Bytes) (text : String)
    (hi : versionCalls i = .put ref payload)
    (hd : jsonDumps {} (.dict (versionCodec.checkpointRefWire ref)) = .ok text) :
    versionCodec.readCheckpointRef (encode text) = .ok ref := by
  cases i with
  | first =>
    obtain ⟨rfl, -⟩ := CheckpointCall.put.inj hi
    rw [version_dumps.1] at hd
    rw [← Except.ok.inj hd]
    exact version_reads.1
  | second =>
    obtain ⟨rfl, -⟩ := CheckpointCall.put.inj hi
    rw [version_dumps.2] at hd
    rw [← Except.ok.inj hd]
    exact version_reads.2
  | reader => cases hi

/-- The store once the first version is put. -/
def firstStored : World where
  etcd := .empty
  objects := (Dict.empty.set ("gaia-checkpoints", Part.key "c1" .manifest)
    (encode (versionText "sha256:a"))).set ("gaia-checkpoints", Part.key "c1" .payload) [1]
  streams := .empty

/-- Then the reference of the second. -/
def secondReferred : World :=
  (handle (.putObject "gaia-checkpoints" (Part.key "c1" .manifest)
    (encode (versionText "sha256:b"))) firstStored).2

theorem first_put : ∃ t, Traced handle (fun _ => True) versionPool emptyStore t
    (update versionPool .first (.ret none)) firstStored := by
  have hstart : Traced handle (fun _ => True) versionPool emptyStore [] versionPool emptyStore :=
    .start
  have hrun := hstart.run_thread .first
  have hput : (versionPool .first).run handle emptyStore = (.ok none, firstStored) :=
    put_run version_dumps.1
  rw [hput] at hrun
  exact ⟨_, hrun⟩

/-- The reference of the second put, which goes on or aborts, with the payload of the
first. -/
theorem torn_checkpoint : ∃ t P w, Traced handle (fun _ => True) versionPool emptyStore t P w ∧
    P .reader = .ret (some (versionRef "sha256:b", [1])) ∧
    ∀ i, versionCalls i ≠ .put (versionRef "sha256:b") [1] := by
  obtain ⟨t, hfirst⟩ := first_put
  obtain ⟨k, hk⟩ : ∃ k, versionPool .second = .call (.putObject "gaia-checkpoints"
      (Part.key "c1" .manifest) (encode (versionText "sha256:b"))) k := put_program version_dumps.2
  have hsecond := hfirst.effect (i := .second) (by rw [update_of_ne (by decide), hk])
  have hget : ((versionPool .reader).run handle _).1 = .ok (some (versionRef "sha256:b", [1])) :=
    congrArg Prod.fst (get_run (w := secondReferred) (by decide +kernel) version_reads.2
      (by decide +kernel))
  refine ⟨_, _, _, hsecond.run_thread .reader, ?_, ?_⟩
  · rw [update_self, update_of_ne (by decide), update_of_ne (by decide)]
    exact congrArg Prog.lift hget
  · rintro (_ | _ | _) <;> simp [versionCalls, versionRef]

/-- A get once the first put has returned. -/
theorem first_version_read : ∃ t P w,
    Traced handle (fun _ => True) versionPool emptyStore t P w ∧
      P .reader = .ret (some (versionRef "sha256:a", [1])) ∧
      ∃ t₁ j p, lastWriter {} "c1" .manifest t₁ = some j ∧
        versionCalls j = .put (versionRef "sha256:a") p := by
  obtain ⟨t, hfirst⟩ := first_put
  have hget : (versionPool .reader).run handle firstStored =
      (.ok (some (versionRef "sha256:a", [1])), firstStored) :=
    get_run (by decide +kernel) version_reads.1 (by decide +kernel)
  have hrun := hfirst.run_thread .reader
  have hret : update (update versionPool .first (.ret none)) .reader
      (.lift ((update versionPool .first (.ret none) .reader).run handle firstStored).1) .reader =
        .ret (some (versionRef "sha256:a", [1])) := by
    rw [update_self, update_of_ne (by decide)]
    exact congrArg (fun r => Prog.lift r.1) hget
  refine ⟨_, _, _, hrun, hret, ?_⟩
  obtain ⟨t₁, -, -, j, -, -, hj, ⟨p, hp⟩, -⟩ :=
    checkpoint_halves hrun (fun part => Dict.get?_empty _) version_codec_reads rfl hret
  exact ⟨t₁, j, p, hj, hp⟩

end Gaia.Storage
