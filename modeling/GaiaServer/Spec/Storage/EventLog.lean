import GaiaServer.Impl.Storage.Stores

/-!
# The event log

What the event store is for: a stream, read from a sequence number on, is the
list of the events stored after it (`World.eventsAfter`, `World.tail`), and what is
written under its name is stored in it and read back (`World.Agrees`). Which
JetStream stream an event goes to and a reader looks at is fixed by the filters
alone (`World.home`, `World.source`). A client that pages through a stream goes on
after the sequence number of the last event it got (`readPages`).
-/

namespace Gaia.Storage

open World

variable (core : Codec) (w : World)

/-- The envelopes of a sequence of messages; decoding stops the loop with its
exception, or, if that is a timeout, without. -/
def decodeEvents : List StreamMsg → Except Exc (List EventEnvelope)
  | [] => .ok []
  | m :: msgs =>
    match core.readEnvelope m.data with
    | .ok envelope => (decodeEvents msgs).map (envelope :: ·)
    | .error exc => if exc.cls = .natsTimeoutError then .ok [] else .error exc

/-- The subscription that `read_events` opens. -/
def World.subscription (stream : String) (afterSequence : Option Int) : Except Exc Subscription :=
  (handle (.subscribe (stream ++ ".>") (afterSequence.map (· + 1))) w).1

/-- The events of a stream after a sequence number. -/
def World.eventsAfter (stream : String) (afterSequence : Option Int) (limit : Nat) :
    Except Exc (List EventEnvelope) :=
  (w.subscription stream afterSequence).bind fun sub =>
    decodeEvents core ((w.pending sub).take limit)

/-- The messages under a stream's name that are stored after a sequence number. -/
def World.tail (stream : String) (n : Int) : List StreamMsg :=
  match w.streamFor (stream ++ ".>") with
  | none => []
  | some (_, s) => s.messages.filter fun m => n < m.seq &&
      Subject.covers (Subject.tokens (stream ++ ".>")) (Subject.tokens m.subject)

/-- One `write_event` after another. -/
def writeAll : List EventEnvelope → Store (List String)
  | [] => return []
  | envelope :: envelopes => do
    let seq ← JetStreamEventStore.writeEvent core envelope
    let seqs ← writeAll envelopes
    return seq :: seqs

/-- The writes are accepted and stored in the stream, one message each that
decodes to its envelope, and what is read after number `n`, or from the start,
are the first `limit` envelopes of the stream above it. -/
def World.Agrees (stream : String) (envelopes : List EventEnvelope) (n : Option Int) (limit : Nat) :
    Prop :=
  ∃ seqs w' s s' new,
    (writeAll core envelopes).run handle w = (.ok seqs, w') ∧
    w.streams.get? stream = some s ∧ w'.streams.get? stream = some s' ∧
    s'.messages = s.messages ++ new ∧
    new.map (fun m => core.readEnvelope m.data) = envelopes.map .ok ∧
    (JetStreamEventStore.readEvents core stream n limit).run handle w' =
      (decodeEvents core ((s'.messages.filter fun m => n.all (· < m.seq)).take limit), w')

/-! ## Where events go -/

/-- The subject of an envelope. -/
def subjectOf (envelope : EventEnvelope) : String := envelope.stream ++ "." ++ envelope.topic

/-- The name of the stream that stores what is published under a subject. -/
def World.home (subject : String) : Option String := (w.streamOf subject).map Prod.fst

/-- The name of the stream that a subscription to a filter reads. -/
def World.source (filter : String) : Option String := (w.streamFor filter).map Prod.fst

/-- No stream holds a message. -/
def World.NoMessages : Prop := ∀ name s, w.streams.get? name = some s → s.messages = []

/-- What is serialised of each envelope decodes to it. -/
def RoundTrips (envelopes : List EventEnvelope) : Prop :=
  ∀ e ∈ envelopes, ∀ text, jsonDumps {} (.dict (core.envelopeWire e)) = .ok text →
    core.readEnvelope (encode text) = .ok e

/-! ## Paging -/

/-- The field `sequence` of an envelope, 0 by default. -/
def sequenceOf (envelope : EventEnvelope) : Int :=
  match envelope.rest.find? fun item => item.1 = .str "sequence" with
  | some (_, .int n) => n
  | _ => 0

/-- Reading page after page, each after the sequence number of the last event
before it, until one is empty; nothing, if none of the first `fuel` pages is. -/
def readPages (stream : String) (limit : Int) :
    (fuel : Nat) → Option Int → Store (Option (List EventEnvelope))
  | 0, _ => return none
  | fuel + 1, afterSequence => do
    let page ← JetStreamEventStore.readEvents core stream afterSequence limit
    match page.getLast? with
    | none => return some []
    | some last => do
      let rest ← readPages stream limit fuel (some (sequenceOf last))
      return rest.map (page ++ ·)

end Gaia.Storage
