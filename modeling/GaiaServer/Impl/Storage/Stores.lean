import GaiaServer.Impl.Storage.World

/-!
# The storage adapters

`gaia_server/storage`: `EtcdMetadataStore`, `MinIOCheckpointStore`,
`JetStreamEventStore`, the `StorageRegistry` that holds one of each, and the
bootstrap that creates the canonical streams.

The types of gaia_core and its wire codec are outside the repository. A
`Codec` stands for what the code takes from there: the decoders, each `json.loads`
and `from_wire_dict` in one, and `to_wire_dict`. Of a record only the fields the
server reads are named; `rest` holds the others.
-/

namespace Gaia

inductive RestorePath
  | softRestart
  | crossHost
  | k8sStatefulRestore
  | quarantinedForeignHost
  | criuMigration
  | other (name : String)
  deriving DecidableEq

inductive TrustClass
  | trusted
  | degraded
  | quarantined
  | unverified
  | other (name : String)
  deriving DecidableEq

/-- `s.encode()`. -/
def PyStr.encode : PyStr → Except Exc Bytes
  | .text s => .ok (Gaia.encode s)
  | .lone .. => .error ⟨.other "UnicodeEncodeError", "surrogates not allowed"⟩

/-- A manifest. What its `split_brain_token` is encoded to is used; its other strings are
texts. -/
structure RestoreManifest where
  manifestId : String
  checkpointId : String
  nodeId : String
  restorePath : RestorePath
  requestedTrustClass : TrustClass
  manifestHash : String
  payloadHash : Option String
  causalCursor : Option String
  attestationRef : Option String
  admissibilityPolicyRef : Option String
  splitBrainToken : Option PyStr
  rest : List (PyKey × PyVal)

structure CheckpointRef where
  checkpointId : String
  rest : List (PyKey × PyVal)

structure EventEnvelope where
  stream : String
  topic : String
  rest : List (PyKey × PyVal)

/-- What the server takes from gaia_core. -/
structure Codec where
  readManifest : Bytes → Except Exc RestoreManifest
  manifestWire : RestoreManifest → List (PyKey × PyVal)
  readCheckpointRef : Bytes → Except Exc CheckpointRef
  checkpointRefWire : CheckpointRef → List (PyKey × PyVal)
  readEnvelope : Bytes → Except Exc EventEnvelope
  envelopeWire : EventEnvelope → List (PyKey × PyVal)
  /-- The string that a trust class is. -/
  trustValue : TrustClass → String

namespace Storage

open Prog (lift)

/-! ## etcd -/

structure EtcdMetadataStore where
  ns : String := "gaia"

namespace EtcdMetadataStore

/-- `_key`. -/
def key (s : EtcdMetadataStore) (k : String) : String := "/" ++ s.ns ++ "/" ++ lstrip '/' k

def get (s : EtcdMetadataStore) (k : String) : Store (Option Bytes) := client (.etcdGet (s.key k))

/-- `put`, without a time to live. -/
def put (s : EtcdMetadataStore) (k : String) (value : Bytes) : Store Unit :=
  client (.etcdPut (s.key k) value)

def delete (s : EtcdMetadataStore) (k : String) : Store Unit := do
  let _ ← client (.etcdDelete (s.key k))

def compareAndSwap (s : EtcdMetadataStore) (k : String) (expected value : Bytes) : Store Bool :=
  client (.etcdTxn (s.key k) expected value)

def getPrefix (s : EtcdMetadataStore) (start : String) : Store (List (Bytes × String)) :=
  client (.etcdGetPrefix (s.key start))

end EtcdMetadataStore

/-! ## MinIO -/

structure MinIOCheckpointStore where
  bucket : String := "gaia-checkpoints"

namespace MinIOCheckpointStore

/-- `_manifest_key`. -/
def manifestKey (checkpointId : String) : String :=
  "checkpoints/" ++ checkpointId ++ "/manifest.json"

/-- `_payload_key`. -/
def payloadKey (checkpointId : String) : String := "checkpoints/" ++ checkpointId ++ "/payload.bin"

variable (core : Codec) (s : MinIOCheckpointStore)

def putCheckpoint (ref : CheckpointRef) (payload : Bytes) : Store CheckpointRef := do
  let manifestBytes ← lift (jsonDumps {} (.dict (core.checkpointRefWire ref)))
  client (.putObject s.bucket (manifestKey ref.checkpointId) (encode manifestBytes))
  client (.putObject s.bucket (payloadKey ref.checkpointId) payload)
  return ref

def getCheckpoint (checkpointId : String) : Store (CheckpointRef × Bytes) := do
  let manifestData ← client (.getObject s.bucket (manifestKey checkpointId))
  let ref ← lift (core.readCheckpointRef manifestData)
  let payload ← client (.getObject s.bucket (payloadKey checkpointId))
  return (ref, payload)

end MinIOCheckpointStore

/-- A call of `put_checkpoint` or `get_checkpoint`. -/
inductive CheckpointCall
  | put (ref : CheckpointRef) (payload : Bytes)
  | get (checkpointId : String)

/-- The call, which returns a pair if it is a `get_checkpoint`. -/
def CheckpointCall.program (core : Codec) (s : MinIOCheckpointStore) :
    CheckpointCall → Store (Option (CheckpointRef × Bytes))
  | .put ref payload => do
    let _ ← s.putCheckpoint core ref payload
    return none
  | .get checkpointId => do
    let pair ← s.getCheckpoint core checkpointId
    return some pair

/-! ## JetStream -/

namespace JetStreamEventStore

variable (core : Codec)

def writeEvent (envelope : EventEnvelope) : Store String := do
  let subject := envelope.stream ++ "." ++ envelope.topic
  let payload ← lift (jsonDumps {} (.dict (core.envelopeWire envelope)))
  let seq ← client (.publish subject (encode payload))
  return toString seq

/-- The body of the loop's `try`: the next envelope. -/
def nextEvent (sub : Subscription) (received : Nat) : Store EventEnvelope := do
  let data ← client (.nextMsg sub received)
  lift (core.readEnvelope data)

/-- The `for` loop, with the envelopes it has collected; a timeout breaks it. -/
def readLoop (sub : Subscription) : (rounds : Nat) → (results : List EventEnvelope) →
    Store (List EventEnvelope)
  | 0, results => return results
  | rounds + 1, results => do
    let next ← Prog.tryCatch (some <$> nextEvent core sub results.length) fun exc =>
      if exc.cls = .natsTimeoutError then return none else .raise exc
    match next with
    | some envelope => readLoop sub rounds (results ++ [envelope])
    | none => return results

def readEvents (stream : String) (afterSequence : Option Int := none) (limit : Int := 100) :
    Store (List EventEnvelope) := do
  let startSeq := afterSequence.map (· + 1)
  let sub ← client (.subscribe (stream ++ ".>") startSeq)
  Prog.tryFinally (readLoop core sub limit.toNat []) (client (.unsubscribe sub))

end JetStreamEventStore

/-- The event store has no settings, and its methods are those of
`JetStreamEventStore`. -/
structure StorageRegistry where
  checkpoints : MinIOCheckpointStore := {}
  metadata : EtcdMetadataStore := {}

/-! ## Bootstrap -/

/-- `_STREAMS`. -/
def streams : List (String × List String) :=
  [("gaia-events", ["gaia.events.>"]), ("gaia-checkpoints", ["gaia.checkpoints.>"]),
    ("gaia-federation", ["gaia.federation.>"]), ("gaia-governance", ["gaia.governance.>"]),
    ("gaia-validation", ["gaia.validation.>"])]

/-- Which of the names that `_ensure_stream` uses its NATS client has: the method
`find_stream` and the class `nats.errors.NotFoundError`. nats-py has neither. -/
structure NatsPy where
  findStream : Bool
  notFoundError : Bool

def noFindStream : Exc :=
  ⟨.other "AttributeError", "'JetStreamContext' object has no attribute 'find_stream'"⟩

def noNotFoundError : Exc :=
  ⟨.other "AttributeError", "module 'nats.errors' has no attribute 'NotFoundError'"⟩

/-- `_ensure_stream`. -/
def ensureStream (nats : NatsPy) (name : String) (subjects : List String) : Store Unit :=
  Prog.tryCatch (if nats.findStream then client (.findStream name) else .raise noFindStream)
    fun exc =>
      if nats.notFoundError = false then .raise noNotFoundError
      else if exc.cls = .natsNotFoundError then client (.addStream name subjects)
      else .raise exc

def ensureStreams (nats : NatsPy) : Store Unit := streams.forM fun s => ensureStream nats s.1 s.2

end Storage

end Gaia
