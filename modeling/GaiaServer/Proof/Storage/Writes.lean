import GaiaServer.Proof.Storage.Events

/-!
# What a sequence of writes stores

A `write_event` stores one message, in the stream that its subject leads to
(`writeEvent_run`), and changes no filter, so that the next one's subject leads
where it did (`home_congr`, `source_congr`). A sequence of them adds to each stream
the envelopes that lead there, in their order, under the numbers that the writes
returned (`writeAll_stored`, by induction on the writes).
-/

namespace Gaia.Storage

open World
open Prog (run_bind_eq_ok run_lift run_perform)

variable {core : Codec} {w w' : World} {envelopes : List EventEnvelope} {seqs : List String}

/-! ## Filters -/

/-- The streams, with their filters. -/
def filters (w : World) : List (String × List String) :=
  w.streams.items.map fun p => (p.1, p.2.subjects)

theorem home_eq (w : World) (subject : String) : w.home subject =
    ((filters w).find? fun p => p.2.any fun f =>
      Subject.covers (Subject.tokens f) (Subject.tokens subject)).map Prod.fst := by
  unfold World.home World.streamOf filters
  rw [List.find?_map, Option.map_map]
  rfl

theorem source_eq (w : World) (filter : String) : w.source filter =
    ((filters w).find? fun p => p.2.any fun f =>
      Subject.overlaps (Subject.tokens f) (Subject.tokens filter)).map Prod.fst := by
  unfold World.source World.streamFor filters
  rw [List.find?_map, Option.map_map]
  rfl

theorem home_congr (h : filters w' = filters w) : w'.home = w.home := by
  funext subject
  rw [home_eq, home_eq, h]

theorem source_congr (h : filters w' = filters w) : w'.source = w.source := by
  funext filter
  rw [source_eq, source_eq, h]

/-- Where a subject leads there is a stream. -/
theorem streamOf_of_home {subject name : String} (h : w.home subject = some name) :
    ∃ s, w.streamOf subject = some (name, s) ∧ w.streams.get? name = some s := by
  obtain ⟨⟨name', s⟩, hs, rfl⟩ := Option.map_eq_some_iff.mp h
  exact ⟨s, hs, Dict.mem_items_iff.mp (List.mem_of_find?_eq_some hs)⟩

/-! ## One write -/

theorem writeEvent_eq (e : EventEnvelope) : JetStreamEventStore.writeEvent core e =
    (Prog.lift (jsonDumps {} (.dict (core.envelopeWire e)))).bind fun text =>
      (client (.publish (subjectOf e) (encode text))).bind fun seq => .ret (toString seq) := rfl

/-- A write that returns has serialised the envelope, and published it. -/
theorem writeEvent_run {e : EventEnvelope} {seq : String} :
    (JetStreamEventStore.writeEvent core e).run handle w = (.ok seq, w') ↔
      ∃ text name s, ∃ room : s.lastSeq + 1 < maxSeq,
        jsonDumps {} (.dict (core.envelopeWire e)) = .ok text ∧
        w.home (subjectOf e) = some name ∧ w.streams.get? name = some s ∧
        seq = toString (s.lastSeq + 1) ∧ w' = { w with
          streams := w.streams.set name (s.store (subjectOf e) (encode text) room) } := by
  simp only [writeEvent_eq, run_bind_eq_ok, run_lift, Prod.mk.injEq, run_perform, Prog.run_ret,
    Except.ok.injEq]
  constructor
  · rintro ⟨text, _, ⟨ht, hw⟩, k, w₁, hk, hseq, hw'⟩
    subst hw hseq hw'
    rcases publish_cases w (subjectOf e) (encode text) with
      ⟨exc, he⟩ | ⟨name, s, room, hs, hget, he⟩
    · rw [he] at hk
      cases hk
    · rw [he] at hk
      cases hk
      exact ⟨text, name, s, room, ht, by rw [World.home, hs]; rfl, hget, rfl, rfl⟩
  · rintro ⟨text, name, s, room, ht, hhome, hget, hseq, hw⟩
    obtain ⟨s', hs, hget'⟩ := streamOf_of_home hhome
    obtain rfl := Option.some.inj (hget.symm.trans hget')
    refine ⟨text, w, ⟨ht, rfl⟩, s.lastSeq + 1, w', ?_, hseq.symm, rfl⟩
    simp only [handle, hs, dif_pos room, hw]

theorem filters_store {name : String} {s : Stream} (h : w.streams.get? name = some s)
    (subject : String) (data : Bytes) (room : s.lastSeq + 1 < maxSeq) :
    filters { w with streams := w.streams.set name (s.store subject data room) } = filters w := by
  have hkeep : (s.store subject data room).subjects = s.subjects := rfl
  exact congrArg Dict.items (Dict.map_set_of_get? (g := Stream.subjects) h hkeep)

/-! ## A sequence of writes -/

/-- What the reader gets of a message. -/
def readOf (core : Codec) (m : StreamMsg) : String × Except Exc EventEnvelope :=
  (m.subject, core.readEnvelope m.data)

/-- The envelopes that lead to a stream. -/
def sentTo (w : World) (name : String) (envelopes : List EventEnvelope) : List EventEnvelope :=
  envelopes.filter fun e => w.home (subjectOf e) = some name

theorem mem_sentTo {name : String} {e : EventEnvelope} :
    e ∈ sentTo w name envelopes ↔ e ∈ envelopes ∧ w.home (subjectOf e) = some name := by
  simp [sentTo]

/-- The writes changed no filter, and added to each stream the envelopes that
lead there, with the numbers after its last. -/
structure Stored (core : Codec) (w w' : World) (envelopes : List EventEnvelope) : Prop where
  filters : filters w' = filters w
  messages : ∀ name s, w.streams.get? name = some s → ∃ s' new,
    w'.streams.get? name = some s' ∧ s'.messages = s.messages ++ new ∧
      new.map StreamMsg.seq = List.range' (s.lastSeq + 1) new.length ∧
      new.map (readOf core) = (sentTo w name envelopes).map fun e => (subjectOf e, .ok e)

theorem writeAll_stored (hc : RoundTrips core envelopes)
    (h : (writeAll core envelopes).run handle w = (.ok seqs, w')) :
    Stored core w w' envelopes := by
  induction envelopes generalizing w seqs with
  | nil =>
    cases h
    exact ⟨rfl, fun name s hs => ⟨s, [], hs, by simp, rfl, rfl⟩⟩
  | cons e es ih =>
    obtain ⟨seq, w₁, hwrite, h⟩ := (run_bind_eq_ok handle).mp h
    obtain ⟨rest, w₂, hrest, h⟩ := (run_bind_eq_ok handle).mp h
    cases h
    obtain ⟨text, home, s₀, room, ht, hhome, hget, rfl, rfl⟩ := writeEvent_run.mp hwrite
    have hes : RoundTrips core es := fun x hx => hc x (List.mem_cons_of_mem _ hx)
    obtain ⟨hfilters, hmessages⟩ := ih hes hrest
    have hkeep := filters_store hget (subjectOf e) (encode text) room
    refine ⟨hfilters.trans hkeep, fun name s hs => ?_⟩
    simp only [sentTo, home_congr hkeep] at hmessages
    unfold sentTo
    rw [List.filter_cons]
    by_cases hn : home = name
    · subst hn
      obtain rfl := Option.some.inj (hget.symm.trans hs)
      obtain ⟨s', new, hs', hm, hseq, hnew⟩ := hmessages home _ (Dict.get?_set_self ..)
      have hread := hc e (List.mem_cons_self ..) text ht
      refine ⟨s', ⟨s₀.lastSeq + 1, subjectOf e, encode text⟩ :: new, hs', ?_, ?_, ?_⟩
      · rw [hm, Stream.store, List.append_assoc, List.singleton_append]
      · rw [List.map_cons, hseq, List.length_cons, List.range'_succ]
        rfl
      · simp only [hhome, decide_true, if_true, List.map_cons, hnew, readOf, hread]
    · obtain ⟨s', new, hs', hm, hseq, hnew⟩ :=
        hmessages name s ((Dict.get?_set_of_ne (Ne.symm hn) ..).trans hs)
      refine ⟨s', new, hs', hm, hseq, ?_⟩
      simpa [hhome, hn] using hnew

/-- Writes to one stream that has room for them all return. -/
theorem writeAll_returns {name : String} {s : Stream} (hs : w.streams.get? name = some s)
    (hroom : s.lastSeq + envelopes.length < maxSeq)
    (hhome : ∀ e ∈ envelopes, w.home (subjectOf e) = some name)
    (hdumps : ∀ e ∈ envelopes, ∃ text, jsonDumps {} (.dict (core.envelopeWire e)) = .ok text) :
    ∃ seqs w', (writeAll core envelopes).run handle w = (.ok seqs, w') := by
  induction envelopes generalizing w s with
  | nil => exact ⟨[], w, rfl⟩
  | cons e envelopes ih =>
    obtain ⟨text, ht⟩ := hdumps e List.mem_cons_self
    rw [List.length_cons] at hroom
    have room : s.lastSeq + 1 < maxSeq := by omega
    have hwrite : (JetStreamEventStore.writeEvent core e).run handle w = (.ok _, _) :=
      writeEvent_run.mpr ⟨text, name, s, room, ht, hhome e List.mem_cons_self, hs, rfl, rfl⟩
    have hhome' := home_congr (filters_store hs (subjectOf e) (encode text) room)
    obtain ⟨seqs, w', hrest⟩ := ih (Dict.get?_set_self ..)
      (show s.lastSeq + 1 + envelopes.length < maxSeq by omega)
      (fun x hx => by rw [hhome', hhome x (List.mem_cons_of_mem _ hx)])
      (fun x hx => hdumps x (List.mem_cons_of_mem _ hx))
    refine ⟨toString (s.lastSeq + 1) :: seqs, w', ?_⟩
    unfold writeAll
    exact (Prog.run_bind_ok handle hwrite).trans (Prog.run_bind_ok handle hrest)

/-! ## Reading what was written -/

/-- The messages of a stream that held none before the writes. -/
theorem Stored.messages_eq (h : Stored core w w' envelopes) {name : String} {s : Stream}
    (hs : w.streams.get? name = some s) (hw : s.messages = []) :
    ∃ s', w'.streams.get? name = some s' ∧
      s'.messages.map StreamMsg.seq = List.range' (s.lastSeq + 1) s'.messages.length ∧
      s'.messages.map (readOf core) =
        (sentTo w name envelopes).map fun e => (subjectOf e, .ok e) := by
  obtain ⟨s', new, hs', hm, hseq, hnew⟩ := h.messages name s hs
  rw [hw, List.nil_append] at hm
  subst hm
  exact ⟨s', hs', hseq, hnew⟩

/-- The last number is the greatest. -/
theorem Stream.seq_le (s : Stream) {m : StreamMsg} (hm : m ∈ s.messages) : m.seq ≤ s.lastSeq := by
  have hlt := (List.pairwise_append.mp s.increasing).2.2 _ (List.mem_map_of_mem hm) _
    (List.mem_singleton_self _)
  omega

/-- Numbers start at 1. -/
theorem one_le_seq {msgs : List StreamMsg} {k : Nat}
    (h : msgs.map StreamMsg.seq = List.range' (k + 1) msgs.length) {m : StreamMsg} (hm : m ∈ msgs) :
    1 ≤ m.seq := by
  have hmem := List.mem_map_of_mem (f := StreamMsg.seq) hm
  rw [h, List.mem_range'_1] at hmem
  omega

/-- A message of the log is that of an envelope that leads to its stream. -/
theorem readOf_mem {name : String} {msgs : List StreamMsg}
    (h : msgs.map (readOf core) = (sentTo w name envelopes).map fun e => (subjectOf e, .ok e))
    {m : StreamMsg} (hm : m ∈ msgs) : ∃ e ∈ sentTo w name envelopes,
      m.subject = subjectOf e ∧ core.readEnvelope m.data = .ok e := by
  have hmem := List.mem_map_of_mem (f := readOf core) hm
  rw [h] at hmem
  obtain ⟨e, he, heq⟩ := List.mem_map.mp hmem
  obtain ⟨h1, h2⟩ := Prod.mk.inj heq
  exact ⟨e, he, h1.symm, h2.symm⟩

/-- What is read of the stream that a filter finds, once messages were written to
it: those that the filter covers, from the start on, decoded. -/
theorem Stored.eventsAfter (h : Stored core w w' envelopes) {stream name : String} {s' : Stream}
    (hsource : w.source (stream ++ ".>") = some name) (hs' : w'.streams.get? name = some s')
    (hmap : s'.messages.map (readOf core) =
      (sentTo w name envelopes).map fun e => (subjectOf e, .ok e))
    {n : Option Int} (hn : ∀ k, n = some k → 0 ≤ k ∧ k < maxSeq) (limit : Nat) :
    ∃ events, w'.eventsAfter core stream n limit = .ok events ∧
      events.map Except.ok = ((s'.messages.filter fun m => (n.getD 0 + 1).toNat ≤ m.seq &&
        Subject.covers (Subject.tokens (stream ++ ".>")) (Subject.tokens m.subject)).take limit).map
          fun m => core.readEnvelope m.data := by
  rw [← source_congr h.filters] at hsource
  have hsub := subscription_eq_ok.mpr ⟨name, hsource, hn, rfl⟩
  have hdec : ∀ m ∈ (w'.pending ⟨name, stream ++ ".>", (n.getD 0 + 1).toNat⟩).take limit,
      ∃ e, core.readEnvelope m.data = .ok e := by
    intro m hm
    have hm := List.mem_of_mem_take hm
    simp only [World.pending, hs'] at hm
    obtain ⟨e, -, -, he⟩ := readOf_mem hmap (List.mem_of_mem_filter hm)
    exact ⟨e, he⟩
  obtain ⟨events, hev, hevents⟩ := decodeEvents_ok hdec
  refine ⟨events, ?_, ?_⟩
  · rw [World.eventsAfter, hsub]
    exact hev
  · simpa only [World.pending, hs'] using hevents

end Gaia.Storage
