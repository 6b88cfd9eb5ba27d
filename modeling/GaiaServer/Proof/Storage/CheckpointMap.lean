import GaiaServer.Proof.Storage.Checkpoints

/-!
# The checkpoint store as a map

The two objects of an id are the objects of no other id, whatever the ids
(`Part.key_inj`). So a put that completes leaves the objects of the other ids as they
are (`Holds.put`), and after any puts that complete, `get_checkpoint` gives what was
put under the id last, and raises if nothing was (`checkpoint_map`).
-/

namespace Gaia.Storage

open World
open Function (update update_self update_of_ne)
open Prog (run_bind run_bind_ok run_bind_eq_ok run_lift run_perform bind_eq)

variable {core : Codec} {s : MinIOCheckpointStore} {w w' : World} {id : String}

/-- What is stored in the object of a part. -/
def storedPart (s : MinIOCheckpointStore) (w : World) (id : String) (part : Part) : Option Bytes :=
  w.objects.get? (s.bucket, Part.key id part)

/-- The objects of every id hold what the map has under it. -/
def Holds (core : Codec) (s : MinIOCheckpointStore) (w : World)
    (m : String → Option (CheckpointRef × Bytes)) : Prop :=
  ∀ id, match m id with
    | none => storedPart s w id .manifest = none
    | some (ref, payload) => ∃ data, core.readCheckpointRef data = .ok ref ∧
        storedPart s w id .manifest = some data ∧ storedPart s w id .payload = some payload

/-- The stores after a put, its reference as `data`. -/
def afterPut (s : MinIOCheckpointStore) (w : World) (id : String) (data payload : Bytes) : World :=
  let written := w.objects.set (s.bucket, Part.key id .manifest) data
  { w with objects := written.set (s.bucket, Part.key id .payload) payload }

/-- A put that returns has set the two objects of its id. -/
theorem putCheckpoint_run {ref ref' : CheckpointRef} {payload : Bytes} :
    (s.putCheckpoint core ref payload).run handle w = (.ok ref', w') ↔
      ∃ text, jsonDumps {} (.dict (core.checkpointRefWire ref)) = .ok text ∧ ref = ref' ∧
        afterPut s w ref.checkpointId (encode text) payload = w' := by
  rw [MinIOCheckpointStore.putCheckpoint, bind_eq, run_bind, run_lift]
  cases jsonDumps {} (.dict (core.checkpointRefWire ref)) with
  | error exc => simp
  | ok text =>
    simp only [Except.ok.injEq, exists_eq_left']
    show (Except.ok ref, afterPut s w ref.checkpointId (encode text) payload) = _ ↔ _
    rw [Prod.mk.injEq, Except.ok.injEq]

theorem storedPart_afterPut (s : MinIOCheckpointStore) (w : World) (id' : String)
    (data payload : Bytes) (part : Part) :
    storedPart s (afterPut s w id' data payload) id part =
      if id = id' then some (match part with | .manifest => data | .payload => payload)
      else storedPart s w id part := by
  simp only [storedPart, afterPut, Dict.get?_set, Prod.mk.injEq, true_and, Part.key_inj]
  cases part <;> by_cases hid : id = id' <;> simp [hid]

/-- What the codec writes of a reference it reads back. -/
def ReadsBack (core : Codec) (ref : CheckpointRef) : Prop :=
  ∀ text, jsonDumps {} (.dict (core.checkpointRefWire ref)) = .ok text →
    core.readCheckpointRef (encode text) = .ok ref

/-- A put that returns does to the stores what it does to the map. -/
theorem Holds.put {m : String → Option (CheckpointRef × Bytes)} (hm : Holds core s w m)
    {ref ref' : CheckpointRef} {payload : Bytes} (hcodec : ReadsBack core ref)
    (hrun : (s.putCheckpoint core ref payload).run handle w = (.ok ref', w')) :
    Holds core s w' (update m ref.checkpointId (some (ref, payload))) := by
  obtain ⟨text, htext, -, rfl⟩ := putCheckpoint_run.mp hrun
  intro id
  by_cases hid : id = ref.checkpointId
  · subst hid
    rw [update_self]
    refine ⟨encode text, hcodec text htext, ?_, ?_⟩
    · rw [storedPart_afterPut, if_pos rfl]
    · rw [storedPart_afterPut, if_pos rfl]
  · rw [update_of_ne hid]
    simp only [storedPart_afterPut, if_neg hid]
    exact hm id

theorem Holds.puts {m : String → Option (CheckpointRef × Bytes)} (hm : Holds core s w m)
    {puts : List (CheckpointRef × Bytes)} (hcodec : ∀ put ∈ puts, ReadsBack core put.1)
    (hrun : (putCheckpoints s core puts).run handle w = (.ok (), w')) :
    Holds core s w' (Machine.run
      (fun m put => update m put.1.checkpointId (some put)) m puts) := by
  induction puts generalizing w m with
  | nil =>
    obtain rfl := congrArg Prod.snd hrun
    exact hm
  | cons put puts ih =>
    rw [List.forall_mem_cons] at hcodec
    obtain ⟨_, w₁, h1, hrest⟩ := (run_bind_eq_ok handle).mp hrun
    obtain ⟨ref', _, hput, h1⟩ := (run_bind_eq_ok handle).mp h1
    cases h1
    exact ih (hm.put hcodec.1 hput) hcodec.2 hrest

/-- What a get makes of what the objects hold. -/
theorem Holds.get {m : String → Option (CheckpointRef × Bytes)} (hm : Holds core s w m)
    (id : String) :
    (s.getCheckpoint core id).run handle w =
      ((m id).elim (.error ⟨.s3Error, "NoSuchKey"⟩) .ok, w) := by
  have hid := hm id
  have hobject : ∀ part, (client (.getObject s.bucket (Part.key id part))).run handle w =
      ((storedPart s w id part).elim (.error ⟨.s3Error, "NoSuchKey"⟩) .ok, w) := by
    intro part
    rw [run_perform, handle, storedPart]
    cases w.objects.get? (s.bucket, Part.key id part) <;> rfl
  rw [MinIOCheckpointStore.getCheckpoint, bind_eq]
  cases hput : m id with
  | none =>
    rw [hput] at hid
    have h1 : (client (.getObject s.bucket (MinIOCheckpointStore.manifestKey id))).run handle w =
        (.error ⟨.s3Error, "NoSuchKey"⟩, w) := by
      rw [← show Part.key id .manifest = MinIOCheckpointStore.manifestKey id from rfl, hobject, hid]
      rfl
    rw [run_bind, h1]
    rfl
  | some put =>
    obtain ⟨ref, payload⟩ := put
    rw [hput] at hid
    obtain ⟨data, hread, hmanifest, hpayload⟩ := hid
    have h1 := hobject .manifest
    rw [hmanifest] at h1
    have h2 := hobject .payload
    rw [hpayload] at h2
    refine (run_bind_ok handle h1).trans ?_
    rw [bind_eq, run_bind, run_lift, hread]
    exact run_bind_ok handle h2

/-- After puts that complete, into a bucket that held no checkpoint, a get gives the
reference and the payload that were put under the id last, and raises if none were. -/
theorem checkpoint_map (h₀ : ∀ id part, storedPart s w id part = none)
    {puts : List (CheckpointRef × Bytes)} (hcodec : ∀ put ∈ puts, ReadsBack core put.1)
    (hrun : (putCheckpoints s core puts).run handle w = (.ok (), w')) (id : String) :
    (s.getCheckpoint core id).run handle w' =
      ((lastPuts puts id).elim (.error ⟨.s3Error, "NoSuchKey"⟩) .ok, w') := by
  have hempty : Holds core s w fun _ => none := fun id => h₀ id .manifest
  exact (hempty.puts hcodec hrun).get id

/-! ## An id that looks like an object -/

/-- A codec of references without other fields, that reads two of them. -/
def twoIds : Codec where
  readManifest := fun _ => .error ⟨.valueError, "unknown"⟩
  manifestWire := fun M => M.rest
  readCheckpointRef := fun raw =>
    if raw = encode "\x7b\"checkpoint_id\": \"x\"\x7d" then .ok ⟨"x", []⟩
    else if raw = encode "\x7b\"checkpoint_id\": \"x/manifest.json\"\x7d" then
      .ok ⟨"x/manifest.json", []⟩
    else .error ⟨.valueError, "unknown"⟩
  checkpointRefWire := fun ref => (.str "checkpoint_id", .str ref.checkpointId) :: ref.rest
  readEnvelope := fun _ => .error ⟨.valueError, "unknown"⟩
  envelopeWire := fun e => e.rest
  trustValue := fun _ => "unverified"

/-- A checkpoint, then one whose id ends like an object's name. -/
def twoPuts : List (CheckpointRef × Bytes) := [(⟨"x", []⟩, [1]), (⟨"x/manifest.json", []⟩, [2])]

/-- The first is read back as it was put. -/
theorem lookalike_kept : ∃ w',
    (putCheckpoints {} twoIds twoPuts).run handle ⟨.empty, .empty, .empty⟩ = (.ok (), w') ∧
    (MinIOCheckpointStore.getCheckpoint twoIds {} "x").run handle w' =
      (.ok (⟨"x", []⟩, [1]), w') := by
  have hx : jsonDumps {} (.dict (twoIds.checkpointRefWire ⟨"x", []⟩)) =
      .ok "\x7b\"checkpoint_id\": \"x\"\x7d" := by decide
  have hy : jsonDumps {} (.dict (twoIds.checkpointRefWire ⟨"x/manifest.json", []⟩)) =
      .ok "\x7b\"checkpoint_id\": \"x/manifest.json\"\x7d" := by decide
  have hcodec : ∀ put ∈ twoPuts, ReadsBack twoIds put.1 := by
    intro put hput text htext
    rcases List.mem_pair.mp hput with rfl | rfl
    · obtain rfl := Except.ok.inj (hx.symm.trans htext)
      simp only [twoIds, if_true]
    · obtain rfl := Except.ok.inj (hy.symm.trans htext)
      simp [twoIds, encode_inj]
  have hrun : (putCheckpoints {} twoIds twoPuts).run handle ⟨.empty, .empty, .empty⟩ =
      (.ok (), ((putCheckpoints {} twoIds twoPuts).run handle ⟨.empty, .empty, .empty⟩).2) := by
    rfl
  exact ⟨_, hrun, checkpoint_map (fun _ _ => rfl) hcodec hrun "x"⟩

end Gaia.Storage
