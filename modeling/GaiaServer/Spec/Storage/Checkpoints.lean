import GaiaServer.Framework.Machine
import GaiaServer.Impl.Storage.Stores
import Mathlib.Logic.Function.Basic

/-!
# Checkpoints in two objects

A checkpoint is stored in two objects (`Part`). In a trace of calls, these are the
writes of a checkpoint's parts (`writes`) and the call that wrote a part last
(`lastWriter`). The checkpoint is whole if the call that wrote it last wrote both parts,
with no write of another call between (`Whole`).

For puts one after another, the store is to be a map from ids to what was put under
each last (`lastPuts`).
-/

namespace Gaia.Storage

variable {ι : Type}

inductive Part
  | manifest
  | payload
  deriving DecidableEq

/-- The object of a part. -/
def Part.key (checkpointId : String) : Part → String
  | .manifest => MinIOCheckpointStore.manifestKey checkpointId
  | .payload => MinIOCheckpointStore.payloadKey checkpointId

/-- What a call stores in a part. -/
def CheckpointCall.data (core : Codec) : CheckpointCall → Part → Option Bytes
  | .put ref _, .manifest => (jsonDumps {} (.dict (core.checkpointRefWire ref))).toOption.map encode
  | .put _ payload, .payload => some payload
  | .get _, _ => none

variable (s : MinIOCheckpointStore) (checkpointId : String)

/-- The part that an operation writes. -/
def written : StoreOp → Option Part
  | .putObject bucket name _ =>
    if bucket ≠ s.bucket then none
    else if name = Part.key checkpointId .manifest then some .manifest
    else if name = Part.key checkpointId .payload then some .payload
    else none
  | _ => none

/-- The writes of the checkpoint's parts. -/
def writes (t : List (ι × StoreOp)) : List (ι × Part) :=
  t.filterMap fun x => (written s checkpointId x.2).map (x.1, ·)

/-- The call that wrote a part last. -/
def lastWriter (part : Part) (t : List (ι × StoreOp)) : Option ι :=
  ((writes s checkpointId t).reverse.find? fun x => x.2 = part).map Prod.fst

/-- The last two writes are one call's. -/
def Whole (t : List (ι × StoreOp)) : Prop :=
  ∃ (earlier : List (ι × Part)) (j : ι),
    writes s checkpointId t = earlier ++ [(j, .manifest), (j, .payload)]

/-- What was put last under each id. -/
def lastPuts (puts : List (CheckpointRef × Bytes)) : String → Option (CheckpointRef × Bytes) :=
  Machine.run (fun m put => Function.update m put.1.checkpointId (some put)) (fun _ => none) puts

/-- `put_checkpoint`, for one pair after another. -/
def putCheckpoints (core : Codec) (puts : List (CheckpointRef × Bytes)) : Store Unit :=
  puts.forM fun put => do
    let _ ← s.putCheckpoint core put.1 put.2

end Gaia.Storage
