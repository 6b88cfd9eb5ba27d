import GaiaServer.Proof.Storage.Canonical
import GaiaServer.Proof.Storage.Writes

/-!
# The names of streams

A stream and a topic are written as one subject, and a stream is read by a
filter on subjects. What a reader of `s` gets are the envelopes of the JetStream
stream found for `s.>` whose subjects this filter covers, whichever stream they
name (`of_mem_read`, `mem_read`). So the reader gets envelopes of `s` alone exactly if no
other envelope is stored there under such a subject (`isolated_iff`). This is so
where all names are single tokens (`isolated_of_tokens`), but
`gaia.core.inference.request` goes on after the tokens of `gaia.core` and after
that of `gaia`.
-/

namespace Gaia.Storage

open World

variable {core : Codec} {w w' : World} {envelopes : List EventEnvelope} {seqs : List String}
  {stream : String}

section

variable (hw : w.NoMessages) (hc : RoundTrips core envelopes)
  (hrun : (writeAll core envelopes).run handle w = (.ok seqs, w'))

include hw hc hrun

/-- What a reader of `stream` gets was written to the stream that its filter finds,
under a subject that its filter covers. -/
theorem of_mem_read {n : Option Int} {limit : Int} {events : List EventEnvelope}
    (hread : ((JetStreamEventStore.readEvents core stream n limit).run handle w').1 = .ok events)
    {e : EventEnvelope} (he : e ∈ events) :
    ∃ name, w.source (stream ++ ".>") = some name ∧ e ∈ envelopes ∧
      w.home (subjectOf e) = some name ∧
      Subject.covers (Subject.tokens (stream ++ ".>")) (Subject.tokens (subjectOf e)) := by
  have hst := writeAll_stored hc hrun
  rw [JetStreamEventStore.readEvents_run] at hread
  obtain ⟨name, hsource, hn⟩ : ∃ name, w.source (stream ++ ".>") = some name ∧
      ∀ k, n = some k → 0 ≤ k ∧ k < maxSeq := by
    cases hsub : w'.subscription stream n with
    | error exc =>
      rw [World.eventsAfter, hsub] at hread
      cases hread
    | ok sub =>
      obtain ⟨name, hsource, hn, -⟩ := subscription_eq_ok.mp hsub
      rw [source_congr hst.filters] at hsource
      exact ⟨name, hsource, hn⟩
  obtain ⟨s, hs⟩ := exists_of_source hsource
  obtain ⟨s', hs', -, hmap⟩ := hst.messages_eq hs (hw name s hs)
  obtain ⟨events', hev, hevents⟩ := hst.eventsAfter hsource hs' hmap hn limit.toNat
  obtain rfl := Except.ok.inj (hev.symm.trans hread)
  have hmem := List.mem_map_of_mem (f := Except.ok (ε := Exc)) he
  rw [hevents] at hmem
  obtain ⟨m, hm, hme⟩ := List.mem_map.mp hmem
  have hm := List.mem_of_mem_take hm
  simp only [List.mem_filter, Bool.and_eq_true] at hm
  obtain ⟨e', he', hsubject, hread'⟩ := readOf_mem hmap hm.1
  obtain rfl := Except.ok.inj (hread'.symm.trans hme)
  obtain ⟨hes, hhome⟩ := mem_sentTo.mp he'
  exact ⟨name, hsource, hes, hhome, hsubject ▸ hm.2.2⟩

/-- A reader of `stream` gets, in a page that is long enough, all that was written
there. -/
theorem mem_read {e : EventEnvelope} {name : String}
    (hsource : w.source (stream ++ ".>") = some name) (he : e ∈ envelopes)
    (hhome : w.home (subjectOf e) = some name)
    (hcovers : Subject.covers (Subject.tokens (stream ++ ".>")) (Subject.tokens (subjectOf e))) :
    ∃ limit events, ((JetStreamEventStore.readEvents core stream none limit).run handle w').1 =
      .ok events ∧ e ∈ events := by
  have hst := writeAll_stored hc hrun
  obtain ⟨s, hs⟩ := exists_of_source hsource
  obtain ⟨s', hs', hseq, hmap⟩ := hst.messages_eq hs (hw name s hs)
  obtain ⟨m, hm, hmk⟩ : ∃ m ∈ s'.messages, readOf core m = (subjectOf e, .ok e) := by
    have hmem := List.mem_map_of_mem (f := fun e : EventEnvelope =>
      ((subjectOf e, .ok e) : String × Except Exc EventEnvelope)) (mem_sentTo.mpr ⟨he, hhome⟩)
    rw [← hmap] at hmem
    exact List.mem_map.mp hmem
  obtain ⟨hsubject, hme⟩ := Prod.mk.inj hmk
  obtain ⟨events, hev, hevents⟩ :=
    hst.eventsAfter hsource hs' hmap (n := none) nofun s'.messages.length
  refine ⟨s'.messages.length, events, ?_, ?_⟩
  · rw [JetStreamEventStore.readEvents_run, Int.toNat_natCast, hev]
  · rw [List.take_of_length_le (List.length_filter_le ..)] at hevents
    have hin : m ∈ s'.messages.filter fun m => ((none : Option Int).getD 0 + 1).toNat ≤ m.seq &&
        Subject.covers (Subject.tokens (stream ++ ".>")) (Subject.tokens m.subject) := by
      simp only [List.mem_filter, Bool.and_eq_true, decide_eq_true_eq, hsubject]
      exact ⟨hm, one_le_seq hseq hm, hcovers⟩
    have hmem := List.mem_map_of_mem (f := fun m => core.readEnvelope m.data) hin
    rw [← hevents, hme] at hmem
    obtain ⟨e', he', heq⟩ := List.mem_map.mp hmem
    rwa [← Except.ok.inj heq]

end

/-- A reader of `stream` gets envelopes that name it alone, exactly if every envelope
stored in the stream found for its filter under a subject that the filter covers
names it. -/
theorem isolated_iff (hw : w.NoMessages) (hc : RoundTrips core envelopes)
    (hrun : (writeAll core envelopes).run handle w = (.ok seqs, w')) (stream : String) :
    (∀ n limit events, ((JetStreamEventStore.readEvents core stream n limit).run handle w').1 =
        .ok events → ∀ e ∈ events, e.stream = stream) ↔
      ∀ name, w.source (stream ++ ".>") = some name → ∀ e ∈ envelopes,
        w.home (subjectOf e) = some name →
        Subject.covers (Subject.tokens (stream ++ ".>")) (Subject.tokens (subjectOf e)) →
        e.stream = stream := by
  constructor
  · intro h name hsource e he hhome hcovers
    obtain ⟨limit, events, hread, hin⟩ := mem_read hw hc hrun hsource he hhome hcovers
    exact h none limit events hread e hin
  · intro h n limit events hread e he
    obtain ⟨name, hsource, hes, hhome, hcovers⟩ := of_mem_read hw hc hrun hread he
    exact h name hsource e hes hhome hcovers

/-- Streams named by single tokens are isolated. -/
theorem isolated_of_tokens (hw : w.NoMessages) (hc : RoundTrips core envelopes)
    (hrun : (writeAll core envelopes).run handle w = (.ok seqs, w'))
    (hnames : ∀ e ∈ envelopes, '.' ∉ e.stream.toList) (hdot : '.' ∉ stream.toList)
    (hone : stream.toList ≠ Subject.anyOne) (htail : stream.toList ≠ Subject.anyTail)
    {n : Option Int} {limit : Int} {events : List EventEnvelope}
    (hread : ((JetStreamEventStore.readEvents core stream n limit).run handle w').1 = .ok events)
    {e : EventEnvelope} (he : e ∈ events) : e.stream = stream := by
  obtain ⟨name, -, hes, -, hcovers⟩ := of_mem_read hw hc hrun hread he
  rw [show stream ++ ".>" = stream ++ "." ++ ">" by rw [String.append_assoc]; rfl, subjectOf,
    Subject.tokens_append_dot, Subject.tokens_append_dot, Subject.tokens_of_dot_notMem hdot,
    Subject.tokens_of_dot_notMem (hnames e hes)] at hcovers
  exact String.toList_inj.mp (Subject.head_eq_of_covers hcovers hone htail).symm

/-! ## A request that two streams show -/

/-- A server with one stream, for everything under `gaia`. -/
def eventServer : World := ⟨.empty, .empty, .single "events" (.create ["gaia.>"])⟩

theorem eventServer_room : (Stream.create ["gaia.>"]).lastSeq + 1 < maxSeq := Stream.create_room _

/-- A codec that knows some events, each by its text. -/
def knows (known : List (EventEnvelope × String)) : Codec := { eventCodec with
  readEnvelope := fun raw =>
    match known.find? fun p => raw = encode p.2 with
    | some p => .ok p.1
    | none => .error ⟨.valueError, "unknown"⟩ }

/-- The server, once it has stored one event. -/
def holding (e : EventEnvelope) (text : String) : World := { eventServer with
  streams := eventServer.streams.set "events"
    ((Stream.create ["gaia.>"]).store (subjectOf e) (encode text) eventServer_room) }

theorem eventServer_noMessages : eventServer.NoMessages := by
  intro name s hs
  simp only [eventServer, Dict.get?_single] at hs
  split at hs <;> cases hs
  rfl

section

variable {known : List (EventEnvelope × String)}
  (hdumps : ∀ p ∈ known, jsonDumps {} (.dict (eventCodec.envelopeWire p.1)) = .ok p.2)

include hdumps

theorem knows_roundTrips (htexts : (known.map Prod.snd).Nodup) :
    RoundTrips (knows known) (known.map Prod.fst) := by
  intro x hx text ht
  obtain ⟨p, hp, rfl⟩ := List.mem_map.mp hx
  obtain rfl := Except.ok.inj ((hdumps p hp).symm.trans ht)
  obtain ⟨q, hq⟩ : ∃ q, (known.find? fun q => encode p.2 = encode q.2) = some q :=
    Option.isSome_iff_exists.mp (List.find?_isSome.mpr ⟨p, hp, decide_eq_true rfl⟩)
  have hmatch := List.find?_some hq
  have htext : p.2 = q.2 := encode_inj.mp (of_decide_eq_true hmatch)
  obtain rfl : p = q := List.inj_on_of_nodup_map htexts hp (List.mem_of_find?_eq_some hq) htext
  simp only [knows, hq]

/-- The server takes all the events that lead to its stream. -/
theorem known_written (hhome : ∀ p ∈ known, eventServer.home (subjectOf p.1) = some "events")
    (hroom : known.length < maxSeq) : ∃ seqs w',
    (writeAll (knows known) (known.map Prod.fst)).run handle eventServer = (.ok seqs, w') := by
  have hs : eventServer.streams.get? "events" = some (.create ["gaia.>"]) := rfl
  refine writeAll_returns hs ?_ ?_ ?_
  · rwa [List.length_map, Stream.create, Nat.zero_add]
  · exact List.forall_mem_map.mpr hhome
  · exact List.forall_mem_map.mpr fun p hp => ⟨p.2, hdumps p hp⟩

end

theorem knows_text (e : EventEnvelope) (text : String) :
    (knows [(e, text)]).readEnvelope (encode text) = .ok e := by
  simp [knows]

theorem holding_written {e : EventEnvelope} {text : String}
    (hdumps : jsonDumps {} (.dict (eventCodec.envelopeWire e)) = .ok text)
    (hhome : eventServer.home (subjectOf e) = some "events") :
    (writeAll (knows [(e, text)]) [e]).run handle eventServer = (.ok ["1"], holding e text) := by
  have hwrite : (JetStreamEventStore.writeEvent (knows [(e, text)]) e).run handle eventServer =
      (.ok "1", holding e text) :=
    writeEvent_run.mpr ⟨text, "events", _, eventServer_room, hdumps, hhome, rfl, rfl, rfl⟩
  exact Prog.run_bind_ok handle hwrite

/-- The events of a server whose stream holds one event, as often as it does. -/
theorem copies_read {w : World} {s : Stream} {e : EventEnvelope} {text stream : String}
    {n : Option Int} {limit : Nat} (hw : filters w = filters eventServer)
    (hs : w.streams.get? "events" = some s)
    (hsource : eventServer.source (stream ++ ".>") = some "events")
    (hcovers : Subject.covers (Subject.tokens (stream ++ ".>"))
      (Subject.tokens (subjectOf e)) = true)
    (hmsgs : ∀ m ∈ s.messages, 1 ≤ m.seq ∧ m.subject = subjectOf e ∧ m.data = encode text)
    (hlimit : s.messages.length ≤ limit) (hn : n = none ∨ n = some 0) :
    w.eventsAfter (knows [(e, text)]) stream n limit =
      .ok (List.replicate s.messages.length e) := by
  have hsub : w.subscription stream n = .ok ⟨"events", stream ++ ".>", 1⟩ := by
    refine subscription_eq_ok.mpr ⟨"events", by rw [source_congr hw, hsource], ?_, ?_⟩
    · rcases hn with rfl | rfl
      · intro k hk
        cases hk
      · rintro _ ⟨⟩
        exact ⟨le_rfl, by decide⟩
    · rcases hn with rfl | rfl <;> rfl
  have hpending : w.pending ⟨"events", stream ++ ".>", 1⟩ = s.messages := by
    rw [World.pending, hs]
    refine List.filter_eq_self.mpr fun m hm => ?_
    obtain ⟨hseq, hsubject, -⟩ := hmsgs m hm
    rw [hsubject, hcovers, Bool.and_true]
    exact decide_eq_true hseq
  have hdata : ∀ m ∈ s.messages, m.data = encode text := fun m hm => (hmsgs m hm).2.2
  rw [World.eventsAfter, hsub]
  simp only [Except.bind, hpending, List.take_of_length_le hlimit]
  clear hs hlimit hmsgs hpending
  generalize s.messages = msgs at hdata ⊢
  induction msgs with
  | nil => rfl
  | cons m msgs ih =>
    obtain ⟨hm, hrest⟩ := List.forall_mem_cons.mp hdata
    rw [decodeEvents, ih hrest, hm, knows_text]
    rfl

theorem filters_holding (e : EventEnvelope) (text : String) :
    filters (holding e text) = filters eventServer := by
  have hs : eventServer.streams.get? "events" = some (.create ["gaia.>"]) := rfl
  exact filters_store hs (subjectOf e) (encode text) eventServer_room

/-- The first page of one event, also after a number that is not yet given. -/
theorem holding_page {e : EventEnvelope} {text stream : String} {n : Option Int}
    (hsource : eventServer.source (stream ++ ".>") = some "events")
    (hcovers : Subject.covers (Subject.tokens (stream ++ ".>"))
      (Subject.tokens (subjectOf e)) = true) (hn : n = none ∨ n = some 0) :
    (holding e text).eventsAfter (knows [(e, text)]) stream n 1 = .ok [e] :=
  copies_read (filters_holding e text) (Dict.get?_set_self ..) hsource hcovers
    (by simp [Stream.store, Stream.create]) le_rfl hn

/-- An event of the stream `gaia.core`. -/
def inferenceRequest : EventEnvelope := ⟨"gaia.core", "inference.request", []⟩

def inferenceText : String :=
  "\x7b\"stream\": \"gaia.core\", \"topic\": \"inference.request\"\x7d"

/-- An event of the stream `gaia.planetary`. -/
def snapshotPushed : EventEnvelope := ⟨"gaia.planetary", "snapshot.pushed", []⟩

def snapshotText : String :=
  "\x7b\"stream\": \"gaia.planetary\", \"topic\": \"snapshot.pushed\"\x7d"

/-- The two events. -/
def twoStreams : List (EventEnvelope × String) :=
  [(inferenceRequest, inferenceText), (snapshotPushed, snapshotText)]

theorem twoStreams_dumps : ∀ p ∈ twoStreams,
    jsonDumps {} (.dict (eventCodec.envelopeWire p.1)) = .ok p.2 := by decide +kernel

theorem inference_dumps : jsonDumps {} (.dict (eventCodec.envelopeWire inferenceRequest)) =
    .ok inferenceText :=
  twoStreams_dumps (inferenceRequest, inferenceText) List.mem_cons_self

theorem inference_known :
    RoundTrips (knows [(inferenceRequest, inferenceText)]) [inferenceRequest] :=
  knows_roundTrips (List.forall_mem_singleton.mpr inference_dumps) (List.nodup_singleton _)

theorem inference_home : eventServer.home (subjectOf inferenceRequest) = some "events" := by
  have hcovers : Subject.covers (Subject.tokens "gaia.>")
      (Subject.tokens (subjectOf inferenceRequest)) = true :=
    Subject.covers_of_name "gaia" "core.inference.request"
  simp [World.home, World.streamOf, eventServer, Dict.single, Stream.accepts, Stream.create,
    hcovers]

theorem gaia_source : eventServer.source ("gaia" ++ ".>") = some "events" := by decide +kernel

theorem core_source : eventServer.source ("gaia.core" ++ ".>") = some "events" := by
  decide +kernel

theorem core_covers : Subject.covers (Subject.tokens ("gaia.core" ++ ".>"))
    (Subject.tokens (subjectOf inferenceRequest)) = true :=
  Subject.covers_of_name "gaia.core" "inference.request"

/-- The reader of `gaia` is shown the event of `gaia.core`. -/
theorem prefix_shown :
    eventServer.NoMessages ∧
    RoundTrips (knows [(inferenceRequest, inferenceText)]) [inferenceRequest] ∧
    (writeAll (knows [(inferenceRequest, inferenceText)]) [inferenceRequest]).run handle
      eventServer = (.ok ["1"], holding inferenceRequest inferenceText) ∧
    ((JetStreamEventStore.readEvents (knows [(inferenceRequest, inferenceText)]) "gaia" none
      1).run handle (holding inferenceRequest inferenceText)).1 = .ok [inferenceRequest] ∧
    inferenceRequest.stream ≠ "gaia" := by
  refine ⟨eventServer_noMessages, inference_known,
    holding_written inference_dumps inference_home, ?_, by decide⟩
  rw [JetStreamEventStore.readEvents_run]
  exact holding_page gaia_source (by decide +kernel) (.inl rfl)

/-- Of two streams, the reader of `gaia.core` is shown the events of its own, and those alone. -/
theorem own_events_shown : ∃ seqs w',
    (writeAll (knows twoStreams) [inferenceRequest, snapshotPushed]).run handle eventServer =
      (.ok seqs, w') ∧
    (∃ limit events, ((JetStreamEventStore.readEvents (knows twoStreams) "gaia.core" none
      limit).run handle w').1 = .ok events ∧ inferenceRequest ∈ events) ∧
    ∀ n limit events, ((JetStreamEventStore.readEvents (knows twoStreams) "gaia.core" n
      limit).run handle w').1 = .ok events → ∀ e ∈ events, e.stream = "gaia.core" := by
  have hc := knows_roundTrips twoStreams_dumps (by decide)
  have hhome : ∀ p ∈ twoStreams, eventServer.home (subjectOf p.1) = some "events" := by
    decide +kernel
  obtain ⟨seqs, w', hrun⟩ := known_written twoStreams_dumps hhome (by decide)
  refine ⟨seqs, w', hrun, ?_, ?_⟩
  · exact mem_read eventServer_noMessages hc hrun core_source List.mem_cons_self inference_home
      core_covers
  · refine (isolated_iff eventServer_noMessages hc hrun "gaia.core").mpr ?_
    intro _ _ e he _ hcovers
    rcases List.mem_pair.mp he with rfl | rfl
    · rfl
    · exact absurd hcovers (by decide +kernel)

end Gaia.Storage
