import GaiaServer.Proof.Storage.Frame
import GaiaServer.Spec.Storage.EventLog

/-!
# What `read_events` returns

Alone, `read_events` changes nothing, and returns the messages of its
subscription (`World.eventsAfter`): those of the stream found for its filter,
from the start sequence on, at most `limit` of them, decoded
(`readLoop_run`, by induction on the rounds of the loop; `readEvents_run`).
-/

namespace Gaia.Storage

open World

section

variable {core : Codec} {w : World} {stream : String}

/-- A subscription opens if a stream is found and there is a number after the one given,
if one is. -/
theorem subscription_eq_ok {n : Option Int} {sub : Subscription} :
    w.subscription stream n = .ok sub ↔
      ∃ name, w.source (stream ++ ".>") = some name ∧ (∀ k, n = some k → 0 ≤ k ∧ k < maxSeq) ∧
        sub = ⟨name, stream ++ ".>", (n.getD 0 + 1).toNat⟩ := by
  simp only [World.subscription, World.source, handle]
  cases w.streamFor (stream ++ ".>") with
  | none => simp
  | some found =>
    simp only [Option.map_some, Option.some.injEq, exists_eq_left']
    cases n with
    | none => simp [eq_comm]
    | some k =>
      have hk : 1 ≤ k + 1 ∧ k + 1 ≤ maxSeq ↔ 0 ≤ k ∧ k < maxSeq := by omega
      simp only [Option.map_some, hk, Option.some.injEq, forall_eq']
      by_cases h0 : 0 ≤ k ∧ k < maxSeq
      · simp [h0, eq_comm]
      · simp only [h0, if_false, false_and, iff_false]
        intro he
        cases he

/-- A stream that a subscription finds exists. -/
theorem exists_of_source {filter name : String} (h : w.source filter = some name) :
    ∃ s, w.streams.get? name = some s := by
  obtain ⟨⟨name', s⟩, hs, rfl⟩ := Option.map_eq_some_iff.mp h
  exact ⟨s, Dict.mem_items_iff.mp (List.mem_of_find?_eq_some hs)⟩

/-- Messages that all decode are read to the end. -/
theorem decodeEvents_ok {msgs : List StreamMsg}
    (h : ∀ m ∈ msgs, ∃ e, core.readEnvelope m.data = .ok e) :
    ∃ events, decodeEvents core msgs = .ok events ∧
      events.map Except.ok = msgs.map fun m => core.readEnvelope m.data := by
  induction msgs with
  | nil => exact ⟨[], rfl, rfl⟩
  | cons m msgs ih =>
    obtain ⟨⟨e, he⟩, h⟩ := List.forall_mem_cons.mp h
    obtain ⟨events, hev, hmap⟩ := ih h
    refine ⟨e :: events, ?_, ?_⟩
    · simp [decodeEvents, he, hev, Except.map]
    · rw [List.map_cons, List.map_cons, he, hmap]

end

variable (core : Codec) (w : World)

namespace JetStreamEventStore

theorem nextEvent_run (sub : Subscription) (received : Nat) :
    (nextEvent core sub received).run handle w =
      (match (w.pending sub)[received]? with
        | some m => core.readEnvelope m.data
        | none => .error ⟨.natsTimeoutError, "nats: timeout"⟩, w) := by
  rw [nextEvent, Prog.bind_eq, Prog.run_bind, Prog.run_perform, handle]
  cases (w.pending sub)[received]? with
  | none => rfl
  | some m => exact Prog.run_lift ..

theorem readLoop_run (sub : Subscription) (rounds : Nat) (results : List EventEnvelope) :
    (readLoop core sub rounds results).run handle w =
      ((decodeEvents core (((w.pending sub).drop results.length).take rounds)).map (results ++ ·),
        w) := by
  induction rounds generalizing results with
  | zero => simp [readLoop, decodeEvents, Except.map]
  | succ rounds ih =>
    rw [readLoop, Prog.bind_eq, Prog.run_bind, Prog.run_tryCatch, Prog.map_eq, Prog.run_bind,
      nextEvent_run]
    cases hm : (w.pending sub)[results.length]? with
    | none =>
      rw [List.getElem?_eq_none_iff] at hm
      rw [List.drop_eq_nil_of_le hm]
      simp [decodeEvents, Except.map]
    | some m =>
      obtain ⟨hl, rfl⟩ := List.getElem?_eq_some_iff.mp hm
      rw [List.drop_eq_getElem_cons hl, List.take_succ_cons, decodeEvents]
      dsimp only
      cases core.readEnvelope (w.pending sub)[results.length].data with
      | ok envelope =>
        simp only [Prog.run_ret, ih, List.length_append, List.length_singleton]
        cases decodeEvents core (((w.pending sub).drop (results.length + 1)).take rounds) <;>
          simp [Except.map]
      | error exc =>
        by_cases he : exc.cls = .natsTimeoutError
        · simp [he, Except.map]
        · simp [he, Except.map]

theorem readEvents_run (stream : String) (afterSequence : Option Int) (limit : Int) :
    (readEvents core stream afterSequence limit).run handle w =
      (w.eventsAfter core stream afterSequence limit.toNat, w) := by
  have hsub : (handle (.subscribe (stream ++ ".>") (afterSequence.map (· + 1))) w).2 = w := by
    have hread : (StoreOp.subscribe (stream ++ ".>") (afterSequence.map (· + 1))).ReadsOutside "" :=
      trivial
    exact handle_reads hread w
  rw [readEvents, Prog.bind_eq, Prog.run_bind, Prog.run_perform, World.eventsAfter,
    World.subscription]
  obtain ⟨r, hr⟩ : ∃ r,
      handle (.subscribe (stream ++ ".>") (afterSequence.map (· + 1))) w = (r, w) :=
    ⟨_, Prod.ext rfl hsub⟩
  rw [hr]
  cases r with
  | error exc => rfl
  | ok sub =>
    show Prog.run handle (Prog.tryFinally _ _) w = _
    rw [Prog.run_tryFinally handle fun _ => rfl, readLoop_run]
    simp only [List.length_nil, List.drop_zero, List.nil_append, Except.bind]
    cases decodeEvents core ((w.pending sub).take limit.toNat) <;> rfl

end JetStreamEventStore

end Gaia.Storage
