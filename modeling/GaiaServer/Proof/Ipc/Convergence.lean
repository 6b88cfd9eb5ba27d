import GaiaServer.Proof.Ipc.Calls
import GaiaServer.Proof.Ipc.Mixed

/-!
# No lost update, and convergence

Nothing received is lost (`Live.received`), and after every call no message in
the hold queue is deliverable (`Live.drained`), not even after the actor's own
sends. An actor that has received all the others' messages has therefore
delivered them: taken in the order they were sent, each is deliverable once the
ones before it are delivered (`Live.handled`). Its clock then counts what every
actor has sent, so two such actors have the same clock (`no_lost_update`).
-/

namespace Gaia.Ipc

open Function (update)

variable {ι π : Type} [DecidableEq ι] {G : Group ι} {N : Net ι π}

namespace Net

/-- `p`'s `receive` has been called with every message sent by the others. -/
def ReceivedAll (N : Net ι π) (p : ι) : Prop :=
  ∀ q, q ≠ p → ∀ m, .sent q m ∈ N.log → .received p m ∈ N.log

/-- What holds of the hold queues, and of the vector clocks when they were made:
they count no message that had not been sent then. -/
structure Live (G : Group ι) (N : Net ι π) : Prop where
  received : ∀ {p m}, .received p m ∈ N.log → m ∈ (N.node p).handled ∨ m ∈ (N.node p).holdQueue
  drained : ∀ {p m}, m ∈ (N.node p).holdQueue → (N.node p).isDeliverable m = false
  counter : ∀ {q} {m : BroadcastMessage π} {past : Log ι (BroadcastMessage π)},
    (.sent q m :: past) <:+ N.log → m.counter = (past.sentBy q).length + 1
  past : ∀ {q} {m : BroadcastMessage π} {past : Log ι (BroadcastMessage π)},
    (.sent q m :: past) <:+ N.log → ∀ {r}, r ≠ q → m.stamp (G.name r) ≤ (past.sentBy r).length
  stranger : ∀ {q m a}, m ∈ N.sent q → (∀ r, a ≠ G.name r) → m.stamp a ≤ 0

theorem Live.initial (G : Group ι) : Live G (initial G : Net ι π) where
  received h := nomatch h
  drained h := nomatch h
  counter h := absurd (List.suffix_nil.mp h) nofun
  past h := absurd (List.suffix_nil.mp h) nofun
  stranger h := nomatch h

/-- What is held back stays undeliverable when the actor itself sends: the vector
clocks of the others' messages do not run ahead of its own counter. -/
theorem Live.drained_send (l : Live G N) (h : Mixed G N) {i : ι} {m : BroadcastMessage π}
    (hm : m ∈ (N.node i).holdQueue) : (N.node i).ticked.isDeliverable m = false := by
  rw [← Bool.not_eq_true]
  intro hd
  have hi := h.node i
  have ht := hi.time_ticked
  have hnn : ∀ a, 0 ≤ (N.node i).ticked.time a := fun a =>
    (hi.nonneg a).trans (hi.le_time_ticked a)
  obtain ⟨q, hq⟩ := hi.queue_sent hm
  rw [CausalBroadcast.isDeliverable_iff_stamp hnn, h.sent.source hq] at hd
  have hqi : q ≠ i := fun e => by
    subst e
    have h1 := hd.1
    have h2 := h.sent.le hq
    rw [ht, if_pos rfl, hi.own] at h1
    omega
  refine Bool.eq_false_iff.mp (l.drained hm) ?_
  rw [CausalBroadcast.isDeliverable_iff_stamp hi.nonneg, h.sent.source hq]
  refine ⟨by rw [hd.1, hi.time_ticked_of_ne hqi], fun a ha => ?_⟩
  by_cases hai : a = G.name i
  · rw [hai, hi.own]
    exact ((h.node q).sent_le hq _).trans ((h.node q).time_le i)
  · have := hd.2 a ha
    rwa [ht, if_neg hai] at this

theorem Live.send (l : Live G N) (h : Mixed G N) (i : ι) (kind : String) (payload : π)
    (traceId uuidHex : String) : Live G (N.send i kind payload traceId uuidHex) := by
  have hi := h.node i
  have hst : ∀ a, ((N.node i).outbound kind payload traceId uuidHex).stamp a =
      if a = G.name i then (N.node i).time a + 1 else (N.node i).time a := hi.time_ticked
  refine ⟨fun {p m} hr => ?_, fun {p m} hm => ?_, fun hs => ?_, fun hs r hr => ?_,
    fun {q m a} hm ha => ?_⟩
  · rw [handled_send, holdQueue_send]
    exact l.received ((List.mem_cons.mp hr).resolve_left nofun)
  · rw [holdQueue_send] at hm
    by_cases hp : p = i
    · subst hp
      simp only [Net.send, Function.update_self]
      exact l.drained_send h hm
    · simp only [Net.send, Function.update_of_ne hp]
      exact l.drained hm
  · rcases List.suffix_cons_iff.mp hs with e | hs
    · obtain ⟨e', rfl⟩ := List.cons.inj e
      obtain ⟨rfl, rfl⟩ := Event.sent.inj e'
      exact hi.counter_outbound kind payload traceId uuidHex
    · exact l.counter hs
  · rcases List.suffix_cons_iff.mp hs with e | hs
    · obtain ⟨e', rfl⟩ := List.cons.inj e
      obtain ⟨rfl, rfl⟩ := Event.sent.inj e'
      exact (hi.time_ticked_of_ne hr).trans_le (hi.time_le r)
    · exact l.past hs hr
  · rw [sent_send] at hm
    rcases mem_update_cons.mp hm with ⟨rfl, rfl⟩ | hm
    · rw [hst, if_neg (ha q), hi.stranger ha]
    · exact l.stranger hm ha

/-- A call of `receive` that leaves the queue drained. -/
theorem Live.receive (l : Live G N) (i : ι) {msg : BroadcastMessage π}
    (hd : ((N.node i).receive msg).Drained) : Live G (N.receive i msg) := by
  refine ⟨fun {p m} hr => ?_, fun {p m} hm => ?_, fun hs => l.counter ?_, fun hs => l.past ?_,
    fun hm => ?_⟩
  · rw [log_receive] at hr
    by_cases hp : p = i
    · subst hp
      rw [node_receive_self]
      refine mem_receive ?_
      rcases List.mem_append.mp hr with hr | hr
      · obtain ⟨-, rfl⟩ := received_mem_receiveEvents.mp hr
        exact .inr (List.mem_append_right _ (List.mem_singleton_self _))
      · exact (l.received hr).imp_right (List.mem_append_left _)
    · rw [node_receive_of_ne hp]
      refine l.received ((List.mem_append.mp hr).resolve_left fun hr => hp ?_)
      exact (received_mem_receiveEvents.mp hr).1
  · by_cases hp : p = i
    · subst hp
      rw [node_receive_self] at hm ⊢
      exact hd m hm
    · rw [node_receive_of_ne hp] at hm ⊢
      exact l.drained hm
  · rw [log_receive] at hs
    exact suffix_of_receiveEvents hs
  · rw [log_receive] at hs
    exact suffix_of_receiveEvents hs
  · rw [sent_receive] at hm
    exact l.stranger hm

theorem Reachable.live (h : Reachable G NonHealth N) : Live G N := by
  induction h with
  | initial => exact .initial G
  | send h i _ payload traceId uuidHex ih => exact ih.send h.mixed i _ payload traceId uuidHex
  | @receive N h i msg j hm ih =>
    have hk : msg.isHealth = false := h.inv.sent.causal (mem_sent.mpr hm)
    refine ih.receive i
      ((CausalBroadcast.drained_call_iff (fun _ => ih.drained) (.receive msg)).mpr ?_)
    exact fun e => absurd e (by simp [hk])

/-! ## All received, all delivered -/

/-- The newest of `r`'s messages in a part of the log counts them. -/
theorem Live.last (l : Live G N) {r : ι} {past : Log ι (BroadcastMessage π)} (hs : past <:+ N.log)
    (h0 : 0 < (past.sentBy r).length) :
    ∃ m : BroadcastMessage π, .sent r m ∈ past ∧ m.counter = (past.sentBy r).length := by
  induction past with
  | nil => exact absurd h0 (Nat.lt_irrefl 0)
  | cons e past ih =>
    by_cases he : ∃ m, e = .sent r m
    · obtain ⟨m, rfl⟩ := he
      exact ⟨m, List.mem_cons_self, by rw [l.counter hs]; simp⟩
    · have hne : ∀ e' ∈ [e], ∀ j m, e' = .sent j m → j ≠ r := fun e' he' j m h' hj =>
        he ⟨m, by rw [← List.mem_singleton.mp he', h', hj]⟩
      have hlen : Log.sentBy r (e :: past) = Log.sentBy r past := by
        cases e with
        | sent j m => exact Log.sentBy_cons_of_ne (hne _ List.mem_cons_self j m rfl)
        | received | delivered => rfl
      rw [hlen] at h0 ⊢
      obtain ⟨m, hm, hc⟩ := ih ((List.suffix_cons e past).trans hs) h0
      exact ⟨m, List.mem_cons_of_mem _ hm, hc⟩

/-- If `p` has delivered the others' messages of a part of the log, its clock
counts them. -/
theorem Live.le_time (l : Live G N) (h : Mixed G N) {p r : ι}
    {past : Log ι (BroadcastMessage π)} (hs : past <:+ N.log)
    (hd : ∀ m, .sent r m ∈ past → m ∈ (N.node p).handled) :
    (past.sentBy r).length ≤ (N.node p).time (G.name r) := by
  rcases Nat.eq_zero_or_pos (past.sentBy r).length with h0 | h0
  · rw [h0]; exact (h.node p).nonneg _
  · obtain ⟨m, hm, hc⟩ := l.last hs h0
    have hle := (h.node p).counter_le (hd m hm)
    rwa [h.sent.source (mem_sent.mpr (hs.subset hm)), hc] at hle

/-- Every message of another actor that `p` holds, and has not delivered, is ahead
of its clock. -/
def Waiting (G : Group ι) (N : Net ι π) (p : ι) : Prop :=
  ∀ {q} {m : BroadcastMessage π}, q ≠ p → m ∈ N.sent q → m ∈ (N.node p).holdQueue →
    m ∉ (N.node p).handled → (N.node p).time (G.name q) < m.counter

theorem Inv.waiting (h : Inv G N) (p : ι) : Waiting G N p := fun hq hm _ hn =>
  not_le.mp (mt ((h.node p).handled_iff hq hm).mpr hn)

/-- Having received all the others' messages, `p` has delivered them: by
induction on the log, in the order they were sent. -/
theorem Live.handled (l : Live G N) (h : Mixed G N) {p : ι} (hw : Waiting G N p)
    (hall : N.ReceivedAll p) {past : Log ι (BroadcastMessage π)} (hs : past <:+ N.log) {q : ι}
    (hq : q ≠ p) {m : BroadcastMessage π} (hm : .sent q m ∈ past) : m ∈ (N.node p).handled := by
  induction past generalizing q m with
  | nil => exact nomatch hm
  | cons e past ih =>
    have hs' := (List.suffix_cons e past).trans hs
    rcases List.mem_cons.mp hm with rfl | hm
    · have hlog : .sent q m ∈ N.log := hs.subset List.mem_cons_self
      have hmq : m ∈ N.sent q := mem_sent.mpr hlog
      by_contra hn
      have hold := (l.received (hall q hq m hlog)).resolve_left hn
      have htime : ∀ {r}, r ≠ p → (Log.sentBy r past).length ≤ (N.node p).time (G.name r) :=
        fun hr => l.le_time h hs' fun _ hm' => ih hs' hr hm'
      -- Held back, but all that it waits for is delivered.
      refine Bool.eq_false_iff.mp (l.drained hold) ?_
      rw [CausalBroadcast.isDeliverable_iff_stamp (h.node p).nonneg, h.sent.source hmq]
      constructor
      · have hlt := hw hq hmq hold hn
        have hle := htime hq
        have hc := l.counter hs
        omega
      · intro a ha
        by_cases hr : ∃ r, a = G.name r
        · obtain ⟨r, rfl⟩ := hr
          by_cases hrp : r = p
          · subst hrp
            rw [(h.node r).own]
            exact ((h.node q).sent_le hmq _).trans ((h.node q).time_le r)
          · exact (l.past hs fun e => ha (e ▸ rfl)).trans (htime hrp)
        · rw [(h.node p).stranger fun r e => hr ⟨r, e⟩]
          exact l.stranger hmq fun r e => hr ⟨r, e⟩
    · exact ih hs' hq hm

/-- Having received all the others' messages, `p` has a clock that counts every
message sent. -/
theorem Live.time_eq (l : Live G N) (h : Mixed G N) {p : ι} (hw : Waiting G N p)
    (hall : N.ReceivedAll p) (q : ι) : (N.node p).time (G.name q) = (N.sent q).length := by
  by_cases hq : q = p
  · subst hq; exact (h.node q).own
  · refine le_antisymm ((h.node p).time_le q) (l.le_time h (List.suffix_refl _) fun m hm => ?_)
    exact l.handled h hw hall (List.suffix_refl _) hq hm

end Net

/-- In every reachable state: an actor that has received all the others'
messages has delivered each of them exactly once and counts, in its clock, the
messages every actor has sent; any two such actors have the same clock. -/
theorem no_lost_update (hr : Net.Reachable G NonHealth N) :
    (∀ p, N.ReceivedAll p →
      (∀ q, q ≠ p → ∀ m, .sent q m ∈ N.log → ∃! i : Nat, (N.node p).handled[i]? = some m) ∧
        ∀ q, (N.node p).clock.get (G.name q) 0 = (N.sent q).length) ∧
    ∀ p p', N.ReceivedAll p → N.ReceivedAll p' →
      ∀ a, (N.node p).clock.get a 0 = (N.node p').clock.get a 0 := by
  have h := hr.inv
  have l := hr.live
  have htime : ∀ {p}, N.ReceivedAll p → ∀ q, (N.node p).time (G.name q) = (N.sent q).length :=
    fun hall q => l.time_eq hr.mixed (h.waiting _) hall q
  refine ⟨fun p hall => ⟨fun q hq m hm => ?_, htime hall⟩, fun p p' hall hall' a => ?_⟩
  · have hhandled := l.handled hr.mixed (h.waiting p) hall (List.suffix_refl _) hq hm
    obtain ⟨i, hi⟩ := List.mem_iff_getElem?.mp hhandled
    refine ⟨i, hi, fun j hj => ?_⟩
    obtain ⟨hlt, e⟩ := List.getElem?_eq_some_iff.mp hi
    obtain ⟨hlt', e'⟩ := List.getElem?_eq_some_iff.mp hj
    exact (h.node p).nodup.getElem_inj_iff.mp (e'.trans e.symm)
  · by_cases ha : ∃ r, a = G.name r
    · obtain ⟨r, rfl⟩ := ha
      exact (htime hall r).trans (htime hall' r).symm
    · have hs : ∀ r, a ≠ G.name r := fun r e => ha ⟨r, e⟩
      exact ((h.node p).stranger hs).trans ((h.node p').stranger hs).symm

/-- In the relayed answer, `c` has received both messages, and `b` the one it did
not send. -/
theorem relay_converges :
    (relayRun.node 2).clock.get "a" 0 = (relayRun.sent 0).length ∧
      (relayRun.node 2).clock.get "b" 0 = (relayRun.node 1).clock.get "b" 0 := by
  have hs : ∀ q, relayRun.sent q =
      if q = 0 then [relayFirst] else if q = 1 then [relaySecond] else [] := by decide
  have hlog : ∀ q m, .sent q m ∈ relayRun.log →
      (q = 0 ∧ m = relayFirst) ∨ (q = 1 ∧ m = relaySecond) := fun q m h => by
    rw [← Net.mem_sent, hs] at h
    split at h
    · exact .inl ⟨by assumption, List.mem_singleton.mp h⟩
    · split at h
      · exact .inr ⟨by assumption, List.mem_singleton.mp h⟩
      · exact nomatch h
  have hc : relayRun.ReceivedAll 2 := fun q _ m hm => by
    rcases hlog q m hm with ⟨rfl, rfl⟩ | ⟨rfl, rfl⟩ <;> decide
  have hb : relayRun.ReceivedAll 1 := fun q hq m hm => by
    rcases hlog q m hm with ⟨rfl, rfl⟩ | ⟨rfl, rfl⟩
    · decide
    · exact absurd rfl hq
  obtain ⟨hsent, hsame⟩ := no_lost_update relay_reachable
  exact ⟨(hsent 2 hc).2 0, hsame 2 1 hc hb "b"⟩

end Gaia.Ipc
