import GaiaServer.Framework.Paging
import GaiaServer.Proof.Storage.Isolation

/-!
# Paging through a stream

The events of a stream whose envelopes carry their own sequence numbers are, after
any number, the envelopes that carry a greater one (`eventsAfter_eq`). So a client
that goes on after the number in the last envelope it got pages through them as
through any list numbered in order (`readPages_run`), to the end
(`paging_complete`). An envelope that does not carry its number, as any that was
built before it was written, is read over and over (`unnumbered_repeats`).
-/

namespace Gaia.Storage

open World
open Prog (bind_eq run_bind run_bind_ok)

variable {core : Codec} {w w' : World} {envelopes : List EventEnvelope} {seqs : List String}
  {stream name : String} {s : Stream} {limit : Int}

/-- The envelopes carry the numbers that the stream gives them. -/
def CarryNumbers (s : Stream) (envelopes : List EventEnvelope) : Prop :=
  envelopes.map sequenceOf =
    (List.range' (s.lastSeq + 1) envelopes.length).map fun n : Nat => (n : Int)

theorem CarryNumbers.increasing (h : CarryNumbers s envelopes) :
    (envelopes.map sequenceOf).Pairwise (· < ·) := by
  rw [CarryNumbers] at h
  rw [h, List.pairwise_map]
  refine List.Pairwise.imp ?_ List.pairwise_lt_range'
  intro a b hlt
  omega

section

variable (hc : RoundTrips core envelopes)
  (hrun : (writeAll core envelopes).run handle w = (.ok seqs, w'))
  (hone : ∀ e ∈ envelopes, e.stream = stream ∧ w.home (subjectOf e) = some name)
  (hsource : w.source (stream ++ ".>") = some name) (hs : w.streams.get? name = some s)
  (hw : s.messages = []) (hn : CarryNumbers s envelopes)

include hc hrun hone hs hw hn

/-- The messages, each with its number, are the envelopes, each with the number
that it carries. -/
theorem messages_numbered : ∃ s', w'.streams.get? name = some s' ∧
    s'.messages.map StreamMsg.seq = List.range' (s.lastSeq + 1) s'.messages.length ∧
    s'.messages.map (readOf core) =
      (sentTo w name envelopes).map (fun e => (subjectOf e, .ok e)) ∧
    s'.messages.map (fun m => ((m.seq : Int), core.readEnvelope m.data)) =
      envelopes.map fun e => (sequenceOf e, .ok e) := by
  obtain ⟨s', hs', hseq, hmap⟩ := (writeAll_stored hc hrun).messages_eq hs hw
  refine ⟨s', hs', hseq, hmap, ?_⟩
  rw [show sentTo w name envelopes = envelopes from
    List.filter_eq_self.mpr fun e he => by simp [(hone e he).2]] at hmap
  have hlen : s'.messages.length = envelopes.length := by
    simpa using congrArg List.length hmap
  have hread : s'.messages.map (fun m => core.readEnvelope m.data) = envelopes.map .ok := by
    simpa [readOf, Function.comp_def] using congrArg (List.map Prod.snd) hmap
  have hnum : s'.messages.map (fun m => (m.seq : Int)) = envelopes.map sequenceOf := by
    rw [hn, ← hlen, ← hseq, List.map_map]
    rfl
  rw [← List.zip_map', hnum, hread, List.zip_map']

/-- The numbers are such that a page after one can be asked for. -/
theorem sequenceOf_bounds {e : EventEnvelope} (he : e ∈ envelopes) :
    0 ≤ sequenceOf e ∧ sequenceOf e < maxSeq := by
  obtain ⟨s', -, -, -, hpairs⟩ := messages_numbered hc hrun hone hs hw hn
  have hmem := List.mem_map_of_mem
    (f := fun e => (sequenceOf e, (.ok e : Except Exc EventEnvelope))) he
  rw [← hpairs] at hmem
  obtain ⟨m, hm, hpair⟩ := List.mem_map.mp hmem
  have hseq : (m.seq : Int) = sequenceOf e := congrArg Prod.fst hpair
  have hle := s'.seq_le hm
  have hlt := s'.bounded
  omega

include hsource

/-- A page after a number. -/
theorem eventsAfter_eq {n : Option Int} (h0 : ∀ k, n = some k → 0 ≤ k ∧ k < maxSeq)
    (limit : Nat) :
    w'.eventsAfter core stream n limit =
      .ok ((Paging.after sequenceOf envelopes n).take limit) := by
  obtain ⟨s', hs', hseq, hmap, hpairs⟩ := messages_numbered hc hrun hone hs hw hn
  obtain ⟨events, hev, hevents⟩ :=
    (writeAll_stored hc hrun).eventsAfter hsource hs' hmap h0 limit
  have hcovers : ∀ m ∈ s'.messages, Subject.covers (Subject.tokens (stream ++ ".>"))
      (Subject.tokens m.subject) = true := by
    intro m hm
    obtain ⟨e, he, hsub, -⟩ := readOf_mem hmap hm
    rw [hsub, subjectOf, (hone e (mem_sentTo.mp he).1).1]
    exact Subject.covers_of_name ..
  have hpage : (s'.messages.filter fun m => (n.getD 0 + 1).toNat ≤ m.seq &&
      Subject.covers (Subject.tokens (stream ++ ".>")) (Subject.tokens m.subject)).map
        (fun m => core.readEnvelope m.data) = (Paging.after sequenceOf envelopes n).map .ok := by
    calc
      _ = ((s'.messages.map fun m => ((m.seq : Int), core.readEnvelope m.data)).filter
            fun p => n.all (· < p.1)).map Prod.snd := by
          rw [List.filter_map, List.map_map]
          refine congrArg _ (List.filter_congr fun m hm => ?_)
          rw [hcovers m hm, Bool.and_true, Function.comp_apply]
          cases n with
          | none => simpa using one_le_seq hseq hm
          | some k =>
            have hk := (h0 k rfl).1
            have hiff : (k + 1).toNat ≤ m.seq ↔ k < m.seq := by omega
            simp [hiff]
      _ = _ := by
          rw [hpairs, List.filter_map, List.map_map]
          rfl
  have hinj : Function.Injective (List.map (Except.ok (ε := Exc) (α := EventEnvelope))) :=
    List.map_injective_iff.mpr fun _ _ => Except.ok.inj
  rw [hev, Except.ok.injEq]
  apply hinj
  rw [hevents, List.map_take, hpage, List.map_take]

/-- The client pages through the stream as through the list of the envelopes. -/
theorem readPages_run (fuel : Nat) {n : Option Int}
    (h0 : ∀ k, n = some k → 0 ≤ k ∧ k < maxSeq) :
    (readPages core stream limit fuel n).run handle w' =
      (.ok (Paging.collect sequenceOf envelopes limit.toNat fuel n), w') := by
  induction fuel generalizing n with
  | zero => rfl
  | succ fuel ih =>
    have hpage : (JetStreamEventStore.readEvents core stream n limit).run handle w' = _ :=
      JetStreamEventStore.readEvents_run ..
    rw [eventsAfter_eq hc hrun hone hsource hs hw hn h0] at hpage
    unfold readPages Paging.collect
    rw [bind_eq, run_bind_ok handle hpage]
    cases hlast : ((Paging.after sequenceOf envelopes n).take limit.toNat).getLast? with
    | none => rfl
    | some last =>
      have hmem : last ∈ envelopes :=
        List.mem_of_mem_filter (List.mem_of_mem_take (List.mem_of_getLast? hlast))
      have hnext := ih (n := some (sequenceOf last)) fun k hk => by
        obtain rfl := Option.some.inj hk
        exact sequenceOf_bounds hc hrun hone hs hw hn hmem
      exact run_bind_ok handle hnext

end

/-- Paging through a stream whose envelopes carry their numbers ends, and yields
each envelope once, in the order of the writes. -/
theorem paging_complete (hc : RoundTrips core envelopes)
    (hrun : (writeAll core envelopes).run handle w = (.ok seqs, w'))
    (hone : ∀ e ∈ envelopes, e.stream = stream ∧ w.home (subjectOf e) = some name)
    (hsource : w.source (stream ++ ".>") = some name) (hs : w.streams.get? name = some s)
    (hw : s.messages = []) (hn : CarryNumbers s envelopes) (hlimit : 1 ≤ limit) :
    ∃ fuel, (readPages core stream limit fuel none).run handle w' = (.ok (some envelopes), w') := by
  refine ⟨envelopes.length + 1, ?_⟩
  rw [readPages_run (n := none) hc hrun hone hsource hs hw hn _ nofun,
    Paging.collect_eq (by omega) hn.increasing]

/-! ## Envelopes with their numbers, and one without -/

/-- The event, with a number. -/
def numbered (n : Int) : EventEnvelope :=
  { inferenceRequest with rest := [(.str "sequence", .int n)] }

def numberedText (n : String) : String :=
  "\x7b\"stream\": \"gaia.core\", \"topic\": \"inference.request\", \"sequence\": " ++ n ++ "\x7d"

/-- Three events, with the numbers that the server gives them. -/
def threeNumbered : List (EventEnvelope × String) :=
  [(numbered 1, numberedText "1"), (numbered 2, numberedText "2"), (numbered 3, numberedText "3")]

theorem numbered_dumps : ∀ p ∈ threeNumbered,
    jsonDumps {} (.dict (eventCodec.envelopeWire p.1)) = .ok p.2 := by decide +kernel

/-- In pages of two events. -/
theorem numbered_pages : ∃ seqs w',
    (writeAll (knows threeNumbered) (threeNumbered.map Prod.fst)).run handle eventServer =
      (.ok seqs, w') ∧
    ∃ fuel, (readPages (knows threeNumbered) "gaia.core" 2 fuel none).run handle w' =
      (.ok (some [numbered 1, numbered 2, numbered 3]), w') := by
  have hhome : ∀ p ∈ threeNumbered, eventServer.home (subjectOf p.1) = some "events" := by
    decide +kernel
  obtain ⟨seqs, w', hrun⟩ := known_written numbered_dumps hhome (by decide)
  have hc : RoundTrips (knows threeNumbered) (threeNumbered.map Prod.fst) :=
    knows_roundTrips numbered_dumps (by decide)
  have hstream : ∀ p ∈ threeNumbered, p.1.stream = "gaia.core" := by decide
  have hone : ∀ e ∈ threeNumbered.map Prod.fst,
      e.stream = "gaia.core" ∧ eventServer.home (subjectOf e) = some "events" :=
    List.forall_mem_map.mpr fun p hp => ⟨hstream p hp, hhome p hp⟩
  exact ⟨seqs, w', hrun, paging_complete (s := .create ["gaia.>"]) hc hrun hone core_source rfl rfl
    rfl (by decide)⟩

/-- Paging through an event without a number goes round. -/
theorem inference_pages (fuel : Nat) {n : Option Int} (hn : n = none ∨ n = some 0) :
    (readPages (knows [(inferenceRequest, inferenceText)]) "gaia.core" 1 fuel n).run handle
      (holding inferenceRequest inferenceText) =
        (.ok none, holding inferenceRequest inferenceText) := by
  induction fuel generalizing n with
  | zero => rfl
  | succ fuel ih =>
    have hpage : (JetStreamEventStore.readEvents (knows [(inferenceRequest, inferenceText)])
        "gaia.core" n 1).run handle (holding inferenceRequest inferenceText) = _ :=
      JetStreamEventStore.readEvents_run ..
    rw [show Int.toNat 1 = 1 from rfl, holding_page core_source core_covers hn] at hpage
    unfold readPages
    rw [bind_eq, run_bind_ok handle hpage]
    have hseq : sequenceOf inferenceRequest = 0 := rfl
    exact run_bind_ok handle (hseq ▸ ih (.inr rfl))

/-- The envelope was built with the default sequence number. Paging never ends. -/
theorem unnumbered_repeats :
    RoundTrips (knows [(inferenceRequest, inferenceText)]) [inferenceRequest] ∧
    (writeAll (knows [(inferenceRequest, inferenceText)]) [inferenceRequest]).run handle
      eventServer = (.ok ["1"], holding inferenceRequest inferenceText) ∧
    inferenceRequest.stream = "gaia.core" ∧
    eventServer.home (subjectOf inferenceRequest) = some "events" ∧
    eventServer.source ("gaia.core" ++ ".>") = some "events" ∧
    eventServer.streams.get? "events" = some (.create ["gaia.>"]) ∧
    ∀ fuel, (readPages (knows [(inferenceRequest, inferenceText)]) "gaia.core" 1 fuel none).run
      handle (holding inferenceRequest inferenceText) =
        (.ok none, holding inferenceRequest inferenceText) :=
  ⟨inference_known, holding_written inference_dumps inference_home, rfl, inference_home,
    core_source, rfl, fun fuel => inference_pages fuel (.inl rfl)⟩

end Gaia.Storage
