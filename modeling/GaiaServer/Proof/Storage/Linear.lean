import GaiaServer.Framework.Linearize
import GaiaServer.Impl.Storage.Processes
import GaiaServer.Proof.Storage.Growth
import GaiaServer.Proof.Storage.Isolation

/-!
# The stores are linearizable

Processes that share the stores, client call by client call. A message that has been read is
read again, and a stream that has been found is found again (`Grows`), so `read_events` takes
effect when it comes to the end of the stream, or to its limit (`readEvents_linear`); every
other method is one client call. So each call behaves as if alone, at a point between its start
and its end (`stores_linearizable`). Readers of a stream then see the same events in the same
order, and a later one all that an earlier one has seen (`readers_agree`).
-/

namespace Gaia.Storage

open World
open Monitor (Reach Step Linearizable Linearized noFault)
open Prog (Interference Linear Settled lift)
open Relation (ReflTransGen)

variable {core : Codec} {metadata : EtcdMetadataStore} {w w' : World}

/-- Messages have been added. -/
abbrev Added : World → World → Prop := Grows fun _ => True

theorem added_interference : Interference Added := ⟨.refl _, .trans⟩

/-! ## The methods -/

/-- What has been received is received again. -/
theorem Grows.nextMsg {A : Bytes → Prop} (h : Grows A w w') {sub : Subscription} {received : Nat}
    {m : StreamMsg} (hm : (w.pending sub)[received]? = some m) :
    handle (.nextMsg sub received) w' = (.ok m.data, w') := by
  cases hs : w.streams.get? sub.stream with
  | none =>
    rw [World.pending, hs] at hm
    cases hm
  | some s =>
    obtain ⟨new, hp, -⟩ := h.pending hs
    have hm' : (w'.pending sub)[received]? = some m := by
      rw [hp, List.getElem?_append_left (List.getElem?_eq_some_iff.mp hm).1, hm]
    simp only [handle, hm']

namespace JetStreamEventStore

/-- What is left of a read that has ended. -/
theorem unsubscribe_linear (sub : Subscription) (r : Except Exc (List EventEnvelope)) (w : World) :
    ((lift r : Store _).tryFinally (client (.unsubscribe sub))).Linear handle Added w := by
  cases r with
  | ok results => exact Prog.linear_perform_bind (fun _ => ⟨.ok results, rfl⟩) w
  | error exc => exact Prog.linear_perform_bind (fun _ => ⟨.error exc, rfl⟩) w

theorem readLoop_linear (sub : Subscription) (rounds : Nat) (results : List EventEnvelope)
    (w : World) : ((readLoop core sub rounds results).tryFinally
      (client (.unsubscribe sub))).Linear handle Added w := by
  induction rounds generalizing results w with
  | zero => exact unsubscribe_linear sub (.ok results) w
  | succ rounds ih =>
    rw [readLoop_succ]
    refine Prog.linear_call added_interference fun w' _ => ?_
    cases hm : (w'.pending sub)[results.length]? with
    | none =>
      -- the end of the stream, at which the outcome is settled
      have hend : handle (.nextMsg sub results.length) w' =
          (.error ⟨.natsTimeoutError, "nats: timeout"⟩, w') := by
        simp only [handle, hm]
      rw [hend]
      exact .inr ⟨rfl, .ok results, fun _ _ => ⟨rfl, rfl⟩⟩
    | some m =>
      have hnext : ∀ t, Added w' t → handle (.nextMsg sub results.length) t = (.ok m.data, t) :=
        fun _ ht => ht.nextMsg hm
      rw [hnext w' (added_interference.refl w')]
      refine .inl ⟨hnext, ?_⟩
      simp only [Except.bind]
      cases core.readEnvelope m.data with
      | ok e => exact ih _ w'
      | error exc =>
        dsimp only
        split
        · exact unsubscribe_linear sub (.ok results) w'
        · exact unsubscribe_linear sub (.error exc) w'

theorem readEvents_linear (stream : String) (n : Option Int) (limit : Int) (w : World) :
    (readEvents core stream n limit).Linear handle Added w := by
  refine Prog.linear_call added_interference fun w' _ => ?_
  have hread : (StoreOp.subscribe (stream ++ ".>") (n.map (· + 1))).ReadsOutside "" := trivial
  have hsame := fun t => handle_reads hread t
  cases hsub : w'.subscription stream n with
  | error exc =>
    have hfound : handle (.subscribe (stream ++ ".>") (n.map (· + 1))) w' = (.error exc, w') :=
      Prod.ext hsub (hsame w')
    rw [hfound]
    exact .inr ⟨rfl, .error exc, rfl⟩
  | ok sub =>
    obtain ⟨name, hsource, hn, rfl⟩ := subscription_eq_ok.mp hsub
    have hfound : ∀ t, Added w' t → handle (.subscribe (stream ++ ".>") (n.map (· + 1))) t =
        (.ok ⟨name, stream ++ ".>", (n.getD 0 + 1).toNat⟩, t) := fun t ht =>
      Prod.ext (subscription_eq_ok.mpr ⟨name, ht.source _ _ hsource, hn, rfl⟩) (hsame t)
    rw [hfound w' (added_interference.refl w')]
    exact .inl ⟨hfound, readLoop_linear _ _ _ w'⟩

/-- A write is one call, or none. -/
theorem writeEvent_linear (envelope : EventEnvelope) (w : World) :
    (writeEvent core envelope).Linear handle Added w := by
  rw [writeEvent]
  cases jsonDumps {} (.dict (core.envelopeWire envelope)) with
  | error exc => exact trivial
  | ok payload => exact Prog.linear_perform_bind (fun seq => ⟨.ok (toString seq), rfl⟩) w

end JetStreamEventStore

/-- A call publishes, or leaves the streams as they are. -/
theorem atomic_streams (core : Codec) (metadata : EtcdMetadataStore) (c : StoreCall) (w : World) :
    ((processes core metadata).atomic c w).2.streams = w.streams ∨ ∃ subject data,
      ((processes core metadata).atomic c w).2 = (handle (.publish subject data) w).2 := by
  show ((c.program core metadata).run handle w).2.streams = _ ∨
    ∃ subject data, ((c.program core metadata).run handle w).2 = _
  cases c with
  | writeEvent envelope =>
    rw [StoreCall.program, writeEvent_eq]
    cases jsonDumps {} (.dict (core.envelopeWire envelope)) with
    | error exc => exact .inl rfl
    | ok payload =>
      refine .inr ⟨subjectOf envelope, encode payload, ?_⟩
      rw [Prog.lift_ok, Prog.ret_bind, Prog.run_bind, Prog.run_perform]
      rcases handle (.publish (subjectOf envelope) (encode payload)) w with ⟨_ | seq, w'⟩ <;> rfl
  | readEvents stream n limit =>
    rw [StoreCall.program, JetStreamEventStore.readEvents_run]
    exact .inl rfl
  | get k => exact .inl rfl
  | put k value => exact .inl rfl
  | delete k => exact .inl rfl
  | compareAndSwap k expected value =>
    refine .inl ?_
    rw [StoreCall.program, EtcdMetadataStore.compareAndSwap, client, Prog.run_perform]
    simp only [handle]
    split <;> rfl
  | getPrefix start => exact .inl rfl

theorem processes_linearizable (core : Codec) (metadata : EtcdMetadataStore) :
    Linearizable (processes core metadata) Added where
  others := added_interference
  linear c w := by
    cases c with
    | writeEvent envelope => exact JetStreamEventStore.writeEvent_linear envelope w
    | readEvents stream n limit => exact JetStreamEventStore.readEvents_linear stream n limit w
    | get k => exact Prog.linear_perform _ w
    | put k value => exact Prog.linear_perform _ w
    | delete k => exact Prog.linear_perform_bind (fun _ => ⟨.ok (), rfl⟩) w
    | compareAndSwap k expected value => exact Prog.linear_perform _ w
    | getPrefix start => exact Prog.linear_perform _ w
  step c w := by
    rcases atomic_streams core metadata c w with h | ⟨subject, data, h⟩
    · exact .of_streams h
    · rw [h]
      exact .publish w subject trivial

/-! ## The processes -/

variable {α ι : Type} [DecidableEq ι]

/-- The stores are what calls at once have made them, with what the processes have got; and as
the processes go on, so does the order of the calls. -/
theorem stores_linearizable {P₀ : Pool StoreCall StoreCall.Result Exc α ι} {w₀ : World}
    {C : Monitor.Config StoreCall StoreCall.Result StoreOp StoreRes Exc α World ι}
    (hr : Reach (processes core metadata) P₀ w₀ C) :
    ∃ t P, Pool.Traced (processes core metadata).atomic noFault P₀ w₀ t P C.state ∧
      (∀ i p, C.workers i = .outside p → P i = p) ∧
      ∀ C', ReflTransGen (Step (processes core metadata)) C C' →
        ∃ u P', Pool.Traced (processes core metadata).atomic noFault P C.state u P' C'.state ∧
          ∀ i p, C'.workers i = .outside p → P' i = p := by
  have hM := processes_linearizable core metadata
  obtain ⟨t, P, ht, hl⟩ := hr.linearizable hM
  refine ⟨t, P, ht, hl.outside, fun C' hs => ?_⟩
  obtain ⟨u, P', hu, hl'⟩ := hl.steps hM hs
  exact ⟨u, P', hu, hl'.outside⟩

/-! ## Two readers -/

/-- Reads of a stream that has grown. -/
theorem Grows.eventsAfter {A : Bytes → Prop} (h : Grows A w w') {stream : String} {n : Option Int}
    {l l' : Nat} {xs ys : List EventEnvelope} (hx : w.eventsAfter core stream n l = .ok xs)
    (hy : w'.eventsAfter core stream n l' = .ok ys) :
    (xs <+: ys ∨ ys <+: xs) ∧ (l ≤ l' → xs <+: ys) := by
  rw [World.eventsAfter] at hx hy
  cases hsub : w.subscription stream n with
  | error exc =>
    rw [hsub] at hx
    cases hx
  | ok sub =>
    obtain ⟨name, hsource, hn, he⟩ := subscription_eq_ok.mp hsub
    obtain ⟨s, hs⟩ : ∃ s, w.streams.get? sub.stream = some s := by
      rw [he]
      exact exists_of_source hsource
    obtain ⟨new, hp, -⟩ := h.pending hs
    have hsub' : w'.subscription stream n = .ok sub :=
      subscription_eq_ok.mpr ⟨name, h.source _ _ hsource, hn, he⟩
    rw [hsub] at hx
    rw [hsub'] at hy
    dsimp only [Except.bind] at hx hy
    rw [hp] at hy
    have hdecode : ∀ {msgs msgs' : List StreamMsg} {es es' : List EventEnvelope}, msgs <+: msgs' →
        decodeEvents core msgs = .ok es → decodeEvents core msgs' = .ok es' → es <+: es' := by
      rintro msgs _ es es' ⟨more, rfl⟩ he he'
      exact decodeEvents_prefix he he'
    have hpre := (List.take_prefix l _).trans (List.prefix_append (w.pending sub) new)
    refine ⟨?_, fun hl => hdecode (List.prefix_take_iff.mpr ⟨hpre, ?_⟩) hx hy⟩
    · exact (List.prefix_or_prefix_of_prefix hpre (List.take_prefix l' _)).imp
        (fun hp => hdecode hp hx hy) fun hp => hdecode hp hy hx
    · exact (List.length_take_le ..).trans hl

theorem atomic_readEvents (core : Codec) (metadata : EtcdMetadataStore) (stream : String)
    (n : Option Int) (limit : Int) (w : World) :
    (processes core metadata).atomic (.readEvents stream n limit) w =
      (w.eventsAfter core stream n limit.toNat, w) :=
  JetStreamEventStore.readEvents_run core w stream n limit

omit [DecidableEq ι] in
/-- A read that has returned took effect at a point of the order. -/
theorem read_along {i : ι} {stream : String} {n : Option Int} {limit : Int} {w₀ : World}
    {t : List (ι × StoreCall)} {xs : List EventEnvelope}
    (h : Prog.Along (processes core metadata).atomic noFault w₀ i
      (.perform (.readEvents stream n limit)) [] xs t) :
    ∃ u, u <+: t ∧ (Pool.after (processes core metadata).atomic w₀ u).eventsAfter core stream n
      limit.toNat = .ok xs := by
  obtain ⟨u, v, ht, hx⟩ := h.perform_inv
  rw [List.nil_append] at ht hx
  rw [atomic_readEvents] at hx
  exact ⟨u, ht ▸ List.prefix_append .., hx⟩

omit [DecidableEq ι] in
theorem added_after (core : Codec) (metadata : EtcdMetadataStore) (w₀ : World)
    {t u : List (ι × StoreCall)} (h : t <+: u) :
    Added (Pool.after (processes core metadata).atomic w₀ t)
      (Pool.after (processes core metadata).atomic w₀ u) := by
  obtain ⟨v, rfl⟩ := h
  rw [Pool.after, Pool.after, List.foldl_append]
  exact (processes_linearizable core metadata).after _ v

/-- Two readers of a stream, from the same number on, get the same events in the same order, as
far as both go; and one that starts after the other has returned, with a limit that is not
smaller, gets all that the other has got. Whatever other processes do meanwhile. -/
theorem readers_agree {P₀ : Pool StoreCall StoreCall.Result Exc (List EventEnvelope) ι} {w₀ : World}
    {C C' : Monitor.Config StoreCall StoreCall.Result StoreOp StoreRes Exc (List EventEnvelope)
      World ι} {i j : ι} {stream : String} {n : Option Int} {limit limit' : Int}
    {xs ys : List EventEnvelope} (hi₀ : P₀ i = .perform (StoreCall.readEvents stream n limit))
    (hj₀ : P₀ j = .perform (StoreCall.readEvents stream n limit'))
    (hr : Reach (processes core metadata) P₀ w₀ C) (hi : C.workers i = .outside (.ret xs))
    (hs : ReflTransGen (Step (processes core metadata)) C C')
    (hj : C'.workers j = .outside (.ret ys)) :
    (xs <+: ys ∨ ys <+: xs) ∧
      (C.workers j = .outside (P₀ j) → limit ≤ limit' → xs <+: ys) := by
  have hM := processes_linearizable core metadata
  obtain ⟨t, P, ht, hl⟩ := hr.linearizable hM
  obtain ⟨u, P', hu, hl'⟩ := hl.steps hM hs
  have hx := ht.along (hl.outside i _ hi)
  rw [hi₀] at hx
  obtain ⟨t₁, ht₁, hx⟩ := read_along hx
  have hyj := hl'.outside j _ hj
  constructor
  · have hy := (ht.trans hu).along hyj
    rw [hj₀] at hy
    obtain ⟨t₂, ht₂, hy⟩ := read_along hy
    have ht₁' := ht₁.trans (List.prefix_append t u)
    rcases List.prefix_or_prefix_of_prefix ht₁' ht₂ with hp | hp
    · exact ((added_after core metadata w₀ hp).eventsAfter hx hy).1
    · exact ((added_after core metadata w₀ hp).eventsAfter hy hx).1.symm
  · intro hlate hlimit
    have hy := hu.along hyj
    rw [hl.outside j _ hlate, hj₀] at hy
    obtain ⟨u₂, -, hy⟩ := read_along hy
    have hadded : Added _ C.state := ht.state_eq ▸ added_after core metadata w₀ ht₁
    exact ((hadded.trans (hM.after C.state u₂)).eventsAfter hx hy).2 (Int.toNat_le_toNat hlimit)

/-! ## Two readers of a request that comes twice -/

/-- The stream, once the request has been written. -/
def requestedOnce : Stream := (Stream.create ["gaia.>"]).store (subjectOf inferenceRequest)
  (encode inferenceText) eventServer_room

theorem requestedOnce_room : requestedOnce.lastSeq + 1 < maxSeq := by
  show 1 + 1 < maxSeq
  decide

/-- The server, once the request has been written twice. -/
def requestedTwice : World := { eventServer with
  streams := (holding inferenceRequest inferenceText).streams.set "events"
    (requestedOnce.store (subjectOf inferenceRequest) (encode inferenceText)
      requestedOnce_room) }

/-- Readers, and a writer. -/
def tailing {ι : Type} [DecidableEq ι] (writer : ι) :
    Pool StoreCall StoreCall.Result Exc (List EventEnvelope) ι := fun i =>
  if i = writer then (Prog.perform (.writeEvent inferenceRequest)).bind fun _ => .ret []
  else .perform (StoreCall.readEvents "gaia.core" none 100)

/-- The stores, with the codec that knows the request. -/
abbrev requestStores : Monitor StoreCall StoreCall.Result StoreOp StoreRes Exc World :=
  processes (knows [(inferenceRequest, inferenceText)]) {}

theorem filters_requestedTwice : filters requestedTwice = filters eventServer := by
  have hrequested : (holding inferenceRequest inferenceText).streams.get? "events" =
      some requestedOnce := Dict.get?_set_self ..
  have htwice := filters_store hrequested (subjectOf inferenceRequest) (encode inferenceText)
    requestedOnce_room
  exact htwice.trans (filters_holding inferenceRequest inferenceText)

theorem request_written : requestStores.atomic (.writeEvent inferenceRequest)
    (holding inferenceRequest inferenceText) = (.ok "2", requestedTwice) := by
  refine writeEvent_run.mpr ⟨inferenceText, "events", _, requestedOnce_room, inference_dumps, ?_,
    Dict.get?_set_self .., rfl, rfl⟩
  rw [home_congr (filters_holding inferenceRequest inferenceText), inference_home]

/-- A read of the request, as often as it has been written. -/
theorem request_read {w : World} {s : Stream} (hw : filters w = filters eventServer)
    (hs : w.streams.get? "events" = some s) (hlimit : s.messages.length ≤ 100)
    (hmsgs : ∀ m ∈ s.messages,
      1 ≤ m.seq ∧ m.subject = subjectOf inferenceRequest ∧ m.data = encode inferenceText) :
    requestStores.atomic (.readEvents "gaia.core" none 100) w =
      (.ok (List.replicate s.messages.length inferenceRequest), w) := by
  rw [atomic_readEvents, show Int.toNat 100 = 100 from rfl,
    copies_read hw hs core_source core_covers hmsgs hlimit (.inl rfl)]

/-- The writer writes while a reader reads. -/
theorem reader_overtaken : ∃ C, C.workers 2 = .outside (.ret []) ∧ ∃ t P,
    Pool.Traced requestStores.atomic noFault (tailing (2 : Fin 3))
      (holding inferenceRequest inferenceText) t P C.state ∧
    (∀ i p, C.workers i = .outside p → P i = p) ∧
    ∀ C', ReflTransGen (Step requestStores) C C' → ∃ u P',
      Pool.Traced requestStores.atomic noFault P C.state u P' C'.state ∧
      ∀ i p, C'.workers i = .outside p → P' i = p := by
  have h₀ : Reach requestStores (tailing (2 : Fin 3))
      (holding inferenceRequest inferenceText) _ := .start
  have h₁ := h₀.step (.enter (i := 0) (c := .readEvents "gaia.core" none 100) rfl nofun)
  have h₂ := h₁.steps (Monitor.steps_returns (i := 2) rfl rfl request_written)
  exact ⟨_, rfl, stores_linearizable h₂⟩

/-- One reader has read. -/
def readOnce {ι : Type} [DecidableEq ι] (writer reader : ι) : Monitor.Config StoreCall
    StoreCall.Result StoreOp StoreRes Exc (List EventEnvelope) World ι where
  workers := Function.update (fun i => .outside (tailing writer i)) reader
    (.outside (.ret [inferenceRequest]))
  owner := none
  state := holding inferenceRequest inferenceText

/-- A reader, then the writer, then the other reader. -/
theorem request_seen_twice : ∃ C, ReflTransGen (Step requestStores) (readOnce (2 : Fin 3) 0) C ∧
    C.workers 1 = .outside (.ret [inferenceRequest, inferenceRequest]) ∧
    [inferenceRequest] <+: [inferenceRequest, inferenceRequest] := by
  have h₀ : Reach requestStores (tailing (2 : Fin 3))
      (holding inferenceRequest inferenceText) _ := .start
  have hread := request_read (filters_holding inferenceRequest inferenceText)
    (Dict.get?_set_self ..) (by decide) (by simp [Stream.store, Stream.create])
  have hread' := request_read filters_requestedTwice (Dict.get?_set_self ..) (by decide)
    (by simp [requestedOnce, Stream.store, Stream.create])
  have h₁ : Reach requestStores (tailing (2 : Fin 3)) (holding inferenceRequest inferenceText)
      (readOnce 2 0) := by
    have h₁ := h₀.steps (Monitor.steps_returns (i := 0) rfl rfl hread)
    exact h₁
  have hs := Monitor.steps_returns (C := readOnce (2 : Fin 3) 0) (i := 2) rfl rfl request_written
  have hs' := hs.trans (Monitor.steps_returns (i := 1) rfl rfl hread')
  exact ⟨_, hs', rfl, (readers_agree (i := 0) (j := 1) rfl rfl h₁ rfl hs' rfl).2 rfl le_rfl⟩

end Gaia.Storage
