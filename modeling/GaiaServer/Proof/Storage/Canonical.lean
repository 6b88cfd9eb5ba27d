import GaiaServer.Proof.Storage.Frame
import GaiaServer.Spec.Storage.EventLog

/-!
# The canonical streams

The bootstrap gives the stream `gaia-events` the filter `gaia.events.>`, and so
for the others, while `write_event` publishes under `gaia-events.<topic>`: the
first tokens differ, so a canonical stream never stores what is written under
its name (`not_accepts`). Neither the bootstrap (`ensureStreams_canonical`) nor
writing (`writeAll_unstored`) changes that, so reading never agrees with writing
(`not_agrees`).
-/

namespace Gaia.Storage

open World
open Prog (Only only_perform)

variable {core : Codec} {nats : NatsPy} {w : World}

/-- The canonical streams that exist have the filters of the bootstrap. -/
def Canonical (w : World) : Prop :=
  ∀ a ∈ streams, ∀ s, w.streams.get? a.1 = some s → s.subjects = a.2

/-- A canonical name is one token, and not the filters' first. -/
theorem streams_names : ∀ a ∈ streams, '.' ∉ a.1.toList ∧ a.1.toList ≠ "gaia".toList := by decide

theorem streams_filters :
    ∀ a ∈ streams, ∀ f ∈ a.2, (Subject.tokens f).head? = some "gaia".toList := by decide

theorem streams_unique : ∀ a ∈ streams, ∀ b ∈ streams, a.1 = b.1 → a = b := by decide

/-- No canonical stream stores what is published under its name. -/
theorem not_accepts {s : Stream} {a : String × List String} (ha : a ∈ streams)
    (hs : s.subjects = a.2) (topic : String) : s.accepts (a.1 ++ "." ++ topic) = false := by
  obtain ⟨hdot, hne⟩ := streams_names a ha
  rw [Stream.accepts, hs, List.any_eq_false]
  intro f hf hc
  have hhead := streams_filters a ha f hf
  cases ht : Subject.tokens f with
  | nil => rw [ht] at hhead; cases hhead
  | cons t ts =>
    rw [ht, List.head?_cons, Option.some.injEq] at hhead
    rw [ht, hhead, Subject.tokens_append_dot, Subject.tokens_of_dot_notMem hdot] at hc
    exact hne (Subject.head_eq_of_covers hc (by decide) (by decide)).symm

/-! ## Writing -/

/-- Publishing under a name. -/
def PublishesUnder (name : String) : StoreOp → Prop
  | .publish subject _ => ∃ topic, subject = name ++ "." ++ topic
  | _ => False

theorem writeAll_only {name : String} {envelopes : List EventEnvelope}
    (h : ∀ e ∈ envelopes, e.stream = name) :
    (writeAll core envelopes).Only (PublishesUnder name) := by
  induction envelopes with
  | nil => trivial
  | cons e es ih =>
    rw [List.forall_mem_cons] at h
    refine Only.bind ?_ fun _ => Only.bind (ih h.2) fun _ => trivial
    refine Only.bind (Prog.only_lift _) fun payload => ?_
    exact Only.bind (only_perform.mpr ⟨e.topic, by rw [h.1]⟩) fun _ => trivial

/-- A publication under a canonical name goes elsewhere. -/
theorem publish_unstored {a : String × List String} (ha : a ∈ streams) (hw : Canonical w)
    {op : StoreOp} (hop : PublishesUnder a.1 op) :
    Canonical (handle op w).2 ∧ (handle op w).2.streams.get? a.1 = w.streams.get? a.1 := by
  cases op with
  | publish subject data =>
    obtain ⟨topic, rfl⟩ := hop
    rcases publish_cases w (a.1 ++ "." ++ topic) data with
      ⟨exc, he⟩ | ⟨name, s, room, hs, hget, he⟩
    · rw [he]
      exact ⟨hw, rfl⟩
    · have hacc := List.find?_some hs
      rw [he]
      refine ⟨fun b hb s' hs' => ?_, Dict.get?_set_of_ne (fun e => ?_) ..⟩
      · simp only [Dict.get?_set] at hs'
        split at hs'
        · rename_i e
          obtain rfl := Option.some.inj hs'
          exact hw b hb s (e ▸ hget)
        · exact hw b hb s' hs'
      · subst e
        rw [not_accepts ha (hw a ha s hget)] at hacc
        cases hacc
  | _ => exact hop.elim

theorem writeAll_unstored {a : String × List String} (ha : a ∈ streams) (hw : Canonical w)
    {envelopes : List EventEnvelope} (h : ∀ e ∈ envelopes, e.stream = a.1) :
    ((writeAll core envelopes).run handle w).2.streams.get? a.1 = w.streams.get? a.1 := by
  refine (Only.run_inv (I := fun w' => Canonical w' ∧ w'.streams.get? a.1 = w.streams.get? a.1)
    (writeAll_only h) (fun op w' hop hw' => ?_) ⟨hw, rfl⟩).2
  obtain ⟨h1, h2⟩ := publish_unstored ha hw'.1 hop
  exact ⟨h1, h2.trans hw'.2⟩

/-! ## The bootstrap -/

/-- Looking for a canonical stream, or creating it. -/
def Ensures : StoreOp → Prop
  | .findStream _ => True
  | .addStream name subjects => (name, subjects) ∈ streams
  | _ => False

theorem ensureStream_only {a : String × List String} (ha : a ∈ streams) :
    (ensureStream nats a.1 a.2).Only Ensures := by
  refine Only.tryCatch ?_ fun exc => ?_
  · split
    · exact only_perform.mpr trivial
    · trivial
  · split
    · trivial
    · split
      · exact only_perform.mpr ha
      · trivial

theorem ensureStreams_only : (ensureStreams nats).Only Ensures := by
  have hl : ∀ l : List (String × List String), (∀ a ∈ l, a ∈ streams) →
      (l.forM fun s => ensureStream nats s.1 s.2 : Store Unit).Only Ensures := by
    intro l
    induction l with
    | nil => exact fun _ => trivial
    | cons a l ih =>
      intro h
      rw [List.forall_mem_cons] at h
      exact Only.bind (ensureStream_only h.1) fun _ => ih h.2
  exact hl streams fun _ => id

theorem ensureStreams_canonical (hw : Canonical w) :
    Canonical ((ensureStreams nats).run handle w).2 := by
  refine ensureStreams_only.run_inv (fun op w hop hw => ?_) hw
  cases op with
  | findStream name => simp only [handle]; split <;> exact hw
  | addStream name subjects =>
    simp only [handle]
    split
    · exact hw
    · split
      · exact hw
      · intro b hb s hs
        simp only [Dict.get?_set] at hs
        split at hs
        · rename_i e
          obtain rfl := Option.some.inj hs
          exact congrArg Prod.snd (streams_unique _ hop _ hb e.symm)
        · exact hw b hb s hs
  | _ => exact hop.elim

/-- After the bootstrap, nothing written under a canonical name is stored in its
stream, so what is read does not agree with what is written. -/
theorem not_agrees (core : Codec) (nats : NatsPy) (hw : Canonical w)
    {a : String × List String} (ha : a ∈ streams)
    {envelopes : List EventEnvelope} (hne : envelopes ≠ []) (h : ∀ e ∈ envelopes, e.stream = a.1)
    (n : Option Int) (limit : Nat) :
    ¬ ((ensureStreams nats).run handle w).2.Agrees core a.1 envelopes n limit := by
  rintro ⟨seqs, w', s, s', new, hrun, hs, hs', hm, hd, -⟩
  have hu : ((writeAll core envelopes).run handle
      ((ensureStreams nats).run handle w).2).2.streams.get? a.1 = _ :=
    writeAll_unstored ha (ensureStreams_canonical hw) h
  rw [hrun, hs'] at hu
  obtain rfl := Option.some.inj (hu.trans hs)
  obtain rfl := List.self_eq_append_right.mp hm
  exact hne (List.map_eq_nil_iff.mp hd.symm)

/-! ## A fresh server -/

def freshServer : World := ⟨.empty, .empty, .empty⟩

/-- A NATS client that has the names that the bootstrap uses. -/
def complete : NatsPy := ⟨true, true⟩

/-- An event of the orchestrator's default stream. -/
def checkpointCreated : EventEnvelope := ⟨"gaia-checkpoints", "checkpoint.created", []⟩

/-- A codec that knows the event. -/
def eventCodec : Codec where
  readManifest := fun _ => .error ⟨.valueError, "unknown"⟩
  manifestWire := fun M => M.rest
  readCheckpointRef := fun _ => .error ⟨.valueError, "unknown"⟩
  checkpointRefWire := fun ref => ref.rest
  readEnvelope := fun raw =>
    if raw = encode ("\x7b\"stream\": \"gaia-checkpoints\", " ++
        "\"topic\": \"checkpoint.created\"\x7d") then
      .ok checkpointCreated
    else .error ⟨.valueError, "unknown"⟩
  envelopeWire := fun e => (.str "stream", .str e.stream) :: (.str "topic", .str e.topic) :: e.rest
  trustValue := fun _ => "unverified"

theorem fresh_not_agrees :
    ¬ ((ensureStreams complete).run handle freshServer).2.Agrees eventCodec
      "gaia-checkpoints" [checkpointCreated] none 100 := by
  have hw : Canonical freshServer := fun a _ s hs => by
    rw [freshServer, Dict.get?_empty] at hs
    cases hs
  have ha : ("gaia-checkpoints", ["gaia.checkpoints.>"]) ∈ streams := by decide
  have hs : ∀ e ∈ [checkpointCreated], e.stream = "gaia-checkpoints" := by
    simp [checkpointCreated]
  exact not_agrees eventCodec complete hw ha (List.cons_ne_nil _ _) hs none 100

/-- The bootstrap succeeds with such a client, the write finds no stream, and so does the read;
with nats-py, the bootstrap raises and creates none. -/
theorem checkpoint_event_refused :
    ((ensureStreams complete).run handle freshServer).1 = .ok () ∧
    ((writeAll eventCodec [checkpointCreated]).run handle
      ((ensureStreams complete).run handle freshServer).2).1 =
        .error ⟨.natsNoStreamResponseError, "no response from stream"⟩ ∧
    ((JetStreamEventStore.readEvents eventCodec "gaia-checkpoints").run handle
      ((ensureStreams complete).run handle freshServer).2).1 =
        .error ⟨.natsNotFoundError, "no stream matches subject"⟩ ∧
    ¬ ((ensureStreams complete).run handle freshServer).2.Agrees eventCodec "gaia-checkpoints"
      [checkpointCreated] none 100 ∧
    (ensureStreams ⟨false, false⟩).run handle freshServer =
      (.error noNotFoundError, freshServer) := by
  have hw : ((writeAll eventCodec [checkpointCreated]).run handle
      ((ensureStreams complete).run handle freshServer).2).1 =
        .error ⟨.natsNoStreamResponseError, "no response from stream"⟩ := by decide +kernel
  refine ⟨by decide +kernel, hw, rfl, ?_, rfl⟩
  rintro ⟨seqs, w', s, s', new, hrun, -⟩
  rw [hrun] at hw
  cases hw

end Gaia.Storage
