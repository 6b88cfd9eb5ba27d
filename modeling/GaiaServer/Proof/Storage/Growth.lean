import GaiaServer.Framework.Interference
import GaiaServer.Proof.Storage.Writes

/-!
# Reading a stream that grows

`read_events` while others publish. Streams are only added, and messages only appended
(`Grows`), so what a subscription delivers is extended at its end (`Grows.pending`). If
whatever is appended decodes (`Decodes`), the reader returns what was there when it began, and
perhaps some of what came later (`readEvents_ensures`).
-/

namespace Gaia.Storage

open World
open Prog (Interference Ensures)

variable {core : Codec} {A : Bytes → Prop} {w w' : World}

/-- Streams have been added, and messages with data in `A` to streams. -/
structure Grows (A : Bytes → Prop) (w w' : World) : Prop where
  source : ∀ filter name, w.source filter = some name → w'.source filter = some name
  messages : ∀ name s, w.streams.get? name = some s → ∃ s' new, w'.streams.get? name = some s' ∧
    s'.messages = s.messages ++ new ∧ ∀ m ∈ new, A m.data

/-- The data is an envelope. -/
def Decodes (core : Codec) (data : Bytes) : Prop := ∃ e, core.readEnvelope data = .ok e

theorem Grows.of_streams (h : w'.streams = w.streams) : Grows A w w' where
  source filter name hs := by
    have hfor : w'.source filter = w.source filter := by
      rw [World.source, World.source, streamFor, streamFor, h]
    rwa [hfor]
  messages name s hs := ⟨s, [], by rw [h, hs], (List.append_nil _).symm, by simp⟩

theorem Grows.refl (A : Bytes → Prop) (w : World) : Grows A w w := .of_streams rfl

theorem Grows.trans {w'' : World} (h : Grows A w w') (h' : Grows A w' w'') : Grows A w w'' where
  source filter name hs := h'.source filter name (h.source filter name hs)
  messages name s hs := by
    obtain ⟨s₁, new₁, hs₁, hm₁, hnew₁⟩ := h.messages name s hs
    obtain ⟨s₂, new₂, hs₂, hm₂, hnew₂⟩ := h'.messages name s₁ hs₁
    refine ⟨s₂, new₁ ++ new₂, hs₂, by rw [hm₂, hm₁, List.append_assoc], fun m hm => ?_⟩
    exact (List.mem_append.mp hm).elim (hnew₁ m) (hnew₂ m)

theorem Grows.congr (h : Grows A w w') {v v' : World} (hv : v.streams = w.streams)
    (hv' : v'.streams = w'.streams) : Grows A v v' :=
  ((Grows.of_streams hv.symm).trans h).trans (.of_streams hv')

theorem Grows.publish (w : World) (subject : String) {data : Bytes} (hd : A data) :
    Grows A w (handle (.publish subject data) w).2 := by
  rcases publish_cases w subject data with ⟨exc, he⟩ | ⟨name, s, room, -, hget, he⟩
  · rw [he]
    exact .refl A w
  · rw [he]
    refine ⟨fun filter name' hf => ?_, fun name' s' hs' => ?_⟩
    · rwa [source_congr (filters_store hget subject data room)]
    · by_cases hn : name' = name
      · subst hn
        obtain rfl := Option.some.inj (hget.symm.trans hs')
        refine ⟨_, _, Dict.get?_set_self .., rfl, fun m hm => ?_⟩
        rwa [List.mem_singleton.mp hm]
      · exact ⟨s', [], (Dict.get?_set_of_ne hn ..).trans hs', (List.append_nil _).symm, by simp⟩

theorem Grows.addStream (w : World) (name : String) (subjects : List String) :
    Grows A w (handle (.addStream name subjects) w).2 := by
  simp only [handle]
  split
  · exact .refl A w
  · split
    · exact .refl A w
    · rename_i hc
      have hnone : w.streams.get? name = none := by
        simpa [Dict.contains] using hc
      refine ⟨fun filter name' hf => ?_, fun name' s hs => ?_⟩
      · obtain ⟨found, hfound, rfl⟩ := Option.map_eq_some_iff.mp hf
        rw [streamFor] at hfound
        rw [World.source, streamFor, Dict.items_set_of_none hnone, List.find?_append, hfound]
        rfl
      · have hn : name' ≠ name := by
          rintro rfl
          rw [hnone] at hs
          cases hs
        exact ⟨s, [], (Dict.get?_set_of_ne hn ..).trans hs, (List.append_nil _).symm, by simp⟩

/-- What a subscription delivers is extended. -/
theorem Grows.pending (h : Grows A w w') {sub : Subscription} {s : Stream}
    (hs : w.streams.get? sub.stream = some s) : ∃ new, w'.pending sub = w.pending sub ++ new ∧
      ∀ m ∈ new, A m.data := by
  obtain ⟨s', new, hs', hm, hnew⟩ := h.messages _ s hs
  rw [World.pending, hs', World.pending, hs]
  dsimp only
  rw [hm, List.filter_append]
  exact ⟨_, rfl, fun m hm => hnew m (List.mem_of_mem_filter hm)⟩

theorem eventsAfter_congr (h : w'.streams = w.streams) (stream : String) (n : Option Int)
    (limit : Nat) : w'.eventsAfter core stream n limit = w.eventsAfter core stream n limit := by
  have hsub : w'.subscription stream n = w.subscription stream n := by
    simp only [World.subscription, handle, World.streamFor, h]
    split
    · rfl
    · split
      · rfl
      · split <;> rfl
  rw [World.eventsAfter, World.eventsAfter, hsub]
  simp only [World.pending, h]

/-- What is appended is decoded after what was there. -/
theorem decodeEvents_prefix {msgs new : List StreamMsg} {events events' : List EventEnvelope}
    (h : decodeEvents core msgs = .ok events) (h' : decodeEvents core (msgs ++ new) = .ok events') :
    events <+: events' := by
  induction msgs generalizing events events' with
  | nil =>
    cases h
    exact List.nil_prefix
  | cons m msgs ih =>
    rw [List.cons_append] at h'
    rw [decodeEvents] at h h'
    cases hm : core.readEnvelope m.data with
    | error exc =>
      rw [hm] at h h'
      obtain rfl := Except.ok.inj (h.symm.trans h')
      exact List.prefix_rfl
    | ok e =>
      rw [hm] at h h'
      cases hd : decodeEvents core msgs with
      | error exc =>
        rw [hd] at h
        cases h
      | ok rest =>
        cases hd' : decodeEvents core (msgs ++ new) with
        | error exc =>
          rw [hd'] at h'
          cases h'
        | ok rest' =>
          rw [hd] at h
          rw [hd'] at h'
          cases h
          cases h'
          exact (List.prefix_cons_inj e).mpr (ih hd hd')

theorem decodeEvents_append {msgs new : List StreamMsg} {events : List EventEnvelope}
    (h : decodeEvents core msgs = .ok events) (hnew : ∀ m ∈ new, Decodes core m.data) :
    ∃ events', decodeEvents core (msgs ++ new) = .ok events' := by
  induction msgs generalizing events with
  | nil =>
    obtain ⟨events', he, -⟩ := decodeEvents_ok hnew
    exact ⟨events', he⟩
  | cons m msgs ih =>
    rw [decodeEvents] at h
    rw [List.cons_append, decodeEvents]
    cases hm : core.readEnvelope m.data with
    | error exc =>
      rw [hm] at h
      exact ⟨events, h⟩
    | ok e =>
      rw [hm] at h
      cases hd : decodeEvents core msgs with
      | error exc =>
        rw [hd] at h
        cases h
      | ok rest =>
        obtain ⟨events', he⟩ := ih hd
        exact ⟨e :: events', by simp only [he]; rfl⟩

/-- The rounds of a reader that are to come, when the stream has grown. -/
theorem Grows.decode (h : Grows (Decodes core) w w') (sub : Subscription) {s : Stream}
    (hs : w.streams.get? sub.stream = some s) (read rounds : Nat) {events : List EventEnvelope}
    (he : decodeEvents core (((w.pending sub).drop read).take rounds) = .ok events) :
    ∃ events', decodeEvents core (((w'.pending sub).drop read).take rounds) = .ok events' ∧
      events <+: events' := by
  obtain ⟨new, hp, hnew⟩ := h.pending hs
  rw [hp, List.drop_append, List.take_append]
  obtain ⟨events', he'⟩ := decodeEvents_append he fun m hm =>
    hnew m (List.mem_of_mem_drop (List.mem_of_mem_take hm))
  exact ⟨events', he', decodeEvents_prefix he he'⟩

namespace JetStreamEventStore

/-- One round of the loop. -/
theorem readLoop_succ (core : Codec) (sub : Subscription) (rounds : Nat)
    (results : List EventEnvelope) : readLoop core sub (rounds + 1) results =
      .call (.nextMsg sub results.length) fun r =>
        match r.bind core.readEnvelope with
        | .ok e => readLoop core sub rounds (results ++ [e])
        | .error exc => if exc.cls = .natsTimeoutError then .ret results else .raise exc := by
  rw [readLoop]
  refine congrArg (Prog.call _) (funext fun r => ?_)
  cases r with
  | error exc =>
    show Prog.bind (ite _ _ _) _ = ite _ _ _
    split <;> rfl
  | ok data =>
    show Prog.bind (Prog.tryCatch (Prog.bind (Prog.lift (core.readEnvelope data)) _) _) _ = _
    simp only [Except.bind]
    cases core.readEnvelope data with
    | ok e => rfl
    | error exc =>
      show Prog.bind (ite _ _ _) _ = ite _ _ _
      split <;> rfl

variable {R : World → World → Prop} (hR : Interference R)
  (hg : ∀ {w w'}, R w w' → Grows (Decodes core) w w')
include hR hg

theorem readLoop_ensures {sub : Subscription} {s : Stream} (hs : w.streams.get? sub.stream = some s)
    (rounds : Nat) (results : List EventEnvelope) {events : List EventEnvelope}
    (he : decodeEvents core (((w.pending sub).drop results.length).take rounds) = .ok events) :
    (readLoop core sub rounds results).Ensures handle R (fun r w' =>
      (∃ more, r = .ok (results ++ more) ∧ events <+: more ∧ more.length ≤ rounds) ∧ R w w') w := by
  induction rounds generalizing results events w s with
  | zero =>
    cases he
    exact fun w' hw => ⟨⟨[], by rw [List.append_nil], List.prefix_rfl, le_rfl⟩, hw⟩
  | succ rounds ih =>
    rw [readLoop_succ]
    intro w₁ hw
    obtain ⟨s', -, hs', -⟩ := (hg hw).messages _ s hs
    obtain ⟨events', he', hpre⟩ := (hg hw).decode sub hs _ _ he
    have hend : ∀ {r}, events' = [] → r = .ok results →
        (Prog.lift r : Store _).Ensures handle R (fun r w' =>
          (∃ more, r = .ok (results ++ more) ∧ events <+: more ∧ more.length ≤ rounds + 1) ∧
            R w w') w₁ := by
      rintro r rfl rfl
      obtain rfl := List.prefix_nil.mp hpre
      exact fun w₂ hw₂ => ⟨⟨[], by rw [List.append_nil], List.prefix_rfl, Nat.zero_le _⟩,
        hR.trans hw hw₂⟩
    simp only [handle]
    cases hm : (w₁.pending sub)[results.length]? with
    | none =>
      rw [List.drop_eq_nil_of_le (List.getElem?_eq_none_iff.mp hm), List.take_nil] at he'
      cases he'
      exact hend rfl rfl
    | some m =>
      obtain ⟨hl, rfl⟩ := List.getElem?_eq_some_iff.mp hm
      rw [List.drop_eq_getElem_cons hl, List.take_succ_cons, decodeEvents] at he'
      dsimp only [Except.bind]
      cases hd : core.readEnvelope (w₁.pending sub)[results.length].data with
      | error exc =>
        rw [hd] at he'
        dsimp only at he' ⊢
        by_cases ht : exc.cls = .natsTimeoutError
        · rw [if_pos ht] at he' ⊢
          cases he'
          exact hend rfl rfl
        · rw [if_neg ht] at he'
          cases he'
      | ok e =>
        rw [hd] at he'
        dsimp only at he' ⊢
        cases hrest : decodeEvents core
            (((w₁.pending sub).drop (results.length + 1)).take rounds) with
        | error exc =>
          rw [hrest] at he'
          cases he'
        | ok rest =>
          rw [hrest] at he'
          cases he'
          have hlen : results.length + 1 = (results ++ [e]).length := by simp
          rw [hlen] at hrest
          refine (ih hs' (results ++ [e]) hrest).mono fun r w₂ h => ?_
          obtain ⟨⟨more, hr, hmore, hcount⟩, hw₂⟩ := h
          refine ⟨⟨e :: more, ?_, hpre.trans ((List.prefix_cons_inj e).mpr hmore), ?_⟩,
            hR.trans hw hw₂⟩
          · rw [hr, List.append_assoc]
            rfl
          · rw [List.length_cons]
            omega

/-- The events that are there at the start, and others that have come since. -/
theorem readEvents_ensures {stream : String} {n : Option Int} {limit : Int}
    {events : List EventEnvelope} (he : w.eventsAfter core stream n limit.toNat = .ok events) :
    (readEvents core stream n limit).Ensures handle R (fun r w' =>
      (∃ more, r = .ok more ∧ events <+: more ∧ more.length ≤ limit.toNat) ∧ R w w') w := by
  rw [World.eventsAfter] at he
  cases hsub : w.subscription stream n with
  | error exc =>
    rw [hsub] at he
    cases he
  | ok sub =>
    rw [hsub] at he
    obtain ⟨name, hsource, hn, rfl⟩ := subscription_eq_ok.mp hsub
    refine Prog.ensures_perform_bind fun w₁ hw => ?_
    have hsub₁ : w₁.subscription stream n = .ok ⟨name, stream ++ ".>", (n.getD 0 + 1).toNat⟩ :=
      subscription_eq_ok.mpr ⟨name, (hg hw).source _ _ hsource, hn, rfl⟩
    have hsame : (handle (.subscribe (stream ++ ".>") (n.map (· + 1))) w₁).2 = w₁ := by
      have hread : (StoreOp.subscribe (stream ++ ".>") (n.map (· + 1))).ReadsOutside "" := trivial
      exact handle_reads hread w₁
    refine ⟨_, hsub₁, ?_⟩
    rw [hsame]
    obtain ⟨s, hs⟩ := exists_of_source hsource
    obtain ⟨events₁, he₁, hpre⟩ := (hg hw).decode ⟨name, stream ++ ".>", _⟩ hs 0 _ he
    obtain ⟨s₁, hs₁⟩ := exists_of_source ((hg hw).source _ _ hsource)
    refine Ensures.tryFinally hR (readLoop_ensures hR hg hs₁ limit.toNat [] he₁)
      (fun r w₂ h w₃ hw₃ w₄ hw₄ => ⟨rfl, ?_⟩) fun h hw' => ⟨h.1, hR.trans h.2 hw'⟩
    obtain ⟨⟨more, rfl, hmore, hcount⟩, hw₂⟩ := h
    exact ⟨⟨more, rfl, hpre.trans hmore, hcount⟩,
      hR.trans hw (hR.trans hw₂ (hR.trans hw₃ hw₄))⟩

end JetStreamEventStore

end Gaia.Storage
