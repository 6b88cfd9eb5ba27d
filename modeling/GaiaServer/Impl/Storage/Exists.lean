import GaiaServer.Impl.Storage.Stores

/-!
# Does it exist?

The methods `exists` of `MinIOCheckpointStore` and `JetStreamEventStore`. Each is one client call
that changes nothing, so it is a function of the services as the call finds them.

`exists` of the checkpoint store reads its argument as a bucket and the name of an object, or as
the name of an object in the store's own bucket if there is no slash in it; and it handles the
exceptions of MinIO only. The client refuses some names itself, with other exceptions (`refuses`).
`exists` of the event store looks for the stream that the first token names, and handles every
exception.
-/

namespace Gaia.Storage

namespace World

variable (w : World)

/-- `client.stat_object(bucket, name)`. -/
def statObject (refuses : String → String → Option Exc) (bucket name : String) : Except Exc Unit :=
  match refuses bucket name with
  | some exc => .error exc
  | none => if w.objects.contains (bucket, name) then .ok () else .error ⟨.s3Error, "NoSuchKey"⟩

/-- `js.stream_info(name)`, of which the code reads `state.messages`. -/
def streamInfo (name : String) : Except Exc Nat :=
  match w.streams.get? name with
  | some s => .ok s.messages.length
  | none => .error ⟨.natsNotFoundError, "stream not found"⟩

end World

namespace MinIOCheckpointStore

variable (s : MinIOCheckpointStore)

/-- The bucket and the name that `exists` reads its argument as. -/
def location (uri : String) : String × String :=
  match splitOnce '/' (lstrip '/' uri) with
  | (bucket, some key) => (bucket, key)
  | (key, none) => (s.bucket, key)

/-- `exists`. -/
def objectExists (refuses : String → String → Option Exc) (uri : String) (w : World) :
    Except Exc Bool :=
  match w.statObject refuses (s.location uri).1 (s.location uri).2 with
  | .ok () => .ok true
  | .error exc => if exc.cls = .s3Error then .ok false else .error exc

end MinIOCheckpointStore

/-- `exists`, of the event store. -/
def JetStreamEventStore.subjectExists (uri : String) (w : World) : Bool :=
  match w.streamInfo (String.ofList ((Subject.tokens uri).headD [])) with
  | .ok messages => 0 < messages
  | .error _ => false

end Gaia.Storage
