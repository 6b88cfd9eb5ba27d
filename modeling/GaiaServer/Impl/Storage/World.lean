import GaiaServer.Framework.Dict
import GaiaServer.Framework.Prog
import GaiaServer.Framework.Subject
import GaiaServer.Impl.Exceptions
import Mathlib.Data.List.Sort

/-!
# The storage backends

The three services behind the stores, as one state (`World`): etcd's keys,
MinIO's objects and JetStream's streams. `StoreOp` lists the client calls that
`gaia_server/storage` makes and `World.handle` what they do. A store's method
is a program of such calls (`Store`).

A subscription is named by what it was opened with. Its client asks for the
messages in order, so the call for the next one carries the number of messages
already received, and the service keeps no state for it. Key and message expiry
is left out.
-/

namespace Gaia

namespace Storage

structure StreamMsg where
  seq : Nat
  subject : String
  data : Bytes
  deriving DecidableEq

/-- The largest sequence number that the server reads: it counts in a uint64. -/
def maxSeq : Nat := 18446744073709551615

theorem maxSeq_pos : 0 < maxSeq := by decide

/-- A stream: the messages it holds, in the order of their sequence numbers, and
the last number given. A number after it can be asked for. -/
structure Stream where
  subjects : List String
  messages : List StreamMsg
  lastSeq : Nat
  increasing : (messages.map StreamMsg.seq ++ [lastSeq + 1]).Pairwise (· < ·)
  bounded : lastSeq < maxSeq

namespace Stream

/-- A stream as created. -/
def create (subjects : List String) : Stream where
  subjects := subjects
  messages := []
  lastSeq := 0
  increasing := List.pairwise_singleton ..
  bounded := maxSeq_pos

theorem create_room (subjects : List String) : (create subjects).lastSeq + 1 < maxSeq := by
  show 0 + 1 < maxSeq
  decide

/-- Some filter of the stream matches the subject. -/
def accepts (s : Stream) (subject : String) : Bool :=
  s.subjects.any fun f => Subject.covers (Subject.tokens f) (Subject.tokens subject)

/-- Some filter of the stream overlaps the given filter. -/
def overlaps (s : Stream) (filter : String) : Bool :=
  s.subjects.any fun f => Subject.overlaps (Subject.tokens f) (Subject.tokens filter)

/-- The stream with one more message. -/
def store (s : Stream) (subject : String) (data : Bytes) (room : s.lastSeq + 1 < maxSeq) :
    Stream where
  subjects := s.subjects
  messages := s.messages ++ [⟨s.lastSeq + 1, subject, data⟩]
  lastSeq := s.lastSeq + 1
  increasing := by
    rw [List.map_append, List.map_singleton]
    refine List.pairwise_append.mpr ⟨s.increasing, List.pairwise_singleton .., fun a ha b hb => ?_⟩
    obtain rfl := List.mem_singleton.mp hb
    rcases List.mem_append.mp ha with ha | ha
    · have := (List.pairwise_append.mp s.increasing).2.2 a ha _ (List.mem_singleton_self _)
      omega
    · obtain rfl := List.mem_singleton.mp ha
      exact Nat.lt_succ_self _
  bounded := room

end Stream

/-- A push subscription: its stream, its filter and the first sequence number
it wants. -/
structure Subscription where
  stream : String
  filter : String
  start : Nat

structure World where
  etcd : Dict String Bytes
  /-- By bucket and object name. -/
  objects : Dict (String × String) Bytes
  streams : Dict String Stream

/-- The calls of the clients. -/
inductive StoreOp
  /-- `client.get(key)`. -/
  | etcdGet (key : String)
  | etcdPut (key : String) (value : Bytes)
  | etcdDelete (key : String)
  /-- A transaction that puts the key if its value is as expected. -/
  | etcdTxn (key : String) (expected value : Bytes)
  /-- `client.get_prefix(start)`. -/
  | etcdGetPrefix (start : String)
  | getObject (bucket name : String)
  | putObject (bucket name : String) (data : Bytes)
  /-- `js.find_stream(name)`. -/
  | findStream (name : String)
  | addStream (name : String) (subjects : List String)
  | publish (subject : String) (data : Bytes)
  /-- `js.subscribe(filter, …)`, delivering from a sequence number on, or all. -/
  | subscribe (filter : String) (startSeq : Option Int)
  /-- `sub.next_msg(…)`, after `received` messages. -/
  | nextMsg (sub : Subscription) (received : Nat)
  | unsubscribe (sub : Subscription)

abbrev StoreRes : StoreOp → Type
  | .etcdGet _ => Option Bytes
  | .etcdPut .. => Unit
  | .etcdDelete _ => Bool
  | .etcdTxn .. => Bool
  | .etcdGetPrefix _ => List (Bytes × String)
  | .getObject .. => Bytes
  | .putObject .. => Unit
  | .findStream _ => Unit
  | .addStream .. => Unit
  | .publish .. => Nat
  | .subscribe .. => Subscription
  | .nextMsg .. => Bytes
  | .unsubscribe _ => Unit

/-- A method of a store. -/
abbrev Store (α : Type) := Prog StoreOp StoreRes Exc α

/-- A call, whose exception passes. -/
abbrev client (o : StoreOp) : Store (StoreRes o) := Prog.perform o

namespace World

/-- The stream that stores what is published under a subject. -/
def streamOf (w : World) (subject : String) : Option (String × Stream) :=
  w.streams.items.find? fun s => s.2.accepts subject

/-- The stream that a subscription to a filter reads. -/
def streamFor (w : World) (filter : String) : Option (String × Stream) :=
  w.streams.items.find? fun s => s.2.overlaps filter

/-- The messages of a subscription, in the order it delivers them. -/
def pending (w : World) (sub : Subscription) : List StreamMsg :=
  match w.streams.get? sub.stream with
  | none => []
  | some s => s.messages.filter fun m => sub.start ≤ m.seq &&
      Subject.covers (Subject.tokens sub.filter) (Subject.tokens m.subject)

/-- The values and keys of a scan, in the order of the keys. -/
def scan (w : World) (start : String) : List (Bytes × String) :=
  ((w.etcd.items.filter fun i => startsWith i.1 start).insertionSort fun i j =>
    i.1.toList ≤ j.1.toList).map fun i => (i.2, i.1)

/-- The exception of a start that is no sequence number: of the `json.dumps` of the request,
or of the server. -/
def startRefused (n : Int) : Exc :=
  match Json.intText n with
  | .error exc => .ofEncode exc
  | .ok _ =>
    ⟨.natsBadRequestError, if n = 0 then "optional start sequence is not set" else "invalid JSON"⟩

/-- What the client calls do. -/
def handle : Prog.Handler StoreOp StoreRes Exc World
  | .etcdGet key, w => (.ok (w.etcd.get? key), w)
  | .etcdPut key value, w => (.ok (), { w with etcd := w.etcd.set key value })
  | .etcdDelete key, w => (.ok (w.etcd.contains key), { w with etcd := w.etcd.erase key })
  | .etcdTxn key expected value, w =>
    if w.etcd.get? key = some expected then (.ok true, { w with etcd := w.etcd.set key value })
    else (.ok false, w)
  | .etcdGetPrefix start, w => (.ok (w.scan start), w)
  | .getObject bucket name, w =>
    match w.objects.get? (bucket, name) with
    | some data => (.ok data, w)
    | none => (.error ⟨.s3Error, "NoSuchKey"⟩, w)
  | .putObject bucket name data, w =>
    (.ok (), { w with objects := w.objects.set (bucket, name) data })
  | .findStream name, w =>
    if w.streams.contains name then (.ok (), w)
    else (.error ⟨.natsNotFoundError, "stream not found"⟩, w)
  | .addStream name subjects, w =>
    if w.streams.items.any fun s => s.1 ≠ name && subjects.any s.2.overlaps then
      (.error ⟨.natsBadRequestError, "subjects overlap with an existing stream"⟩, w)
    else if w.streams.contains name then
      (.error ⟨.natsBadRequestError, "stream name already in use"⟩, w)
    else (.ok (), { w with streams := w.streams.set name (.create subjects) })
  | .publish subject data, w =>
    match w.streamOf subject with
    | some (name, s) =>
      if room : s.lastSeq + 1 < maxSeq then
        (.ok (s.lastSeq + 1), { w with streams := w.streams.set name (s.store subject data room) })
      else (.error ⟨.other "ServiceUnavailableError", "maximum messages exceeded"⟩, w)
    | none => (.error ⟨.natsNoStreamResponseError, "no response from stream"⟩, w)
  | .subscribe filter startSeq, w =>
    match w.streamFor filter with
    | none => (.error ⟨.natsNotFoundError, "no stream matches subject"⟩, w)
    | some (name, _) =>
      match startSeq with
      | none => (.ok ⟨name, filter, 1⟩, w)
      | some n =>
        if 1 ≤ n ∧ n ≤ maxSeq then (.ok ⟨name, filter, n.toNat⟩, w)
        else (.error (startRefused n), w)
  | .nextMsg sub received, w =>
    match (w.pending sub)[received]? with
    | some m => (.ok m.data, w)
    | none => (.error ⟨.natsTimeoutError, "nats: timeout"⟩, w)
  | .unsubscribe _, w => (.ok (), w)

end World

end Storage

end Gaia
