import GaiaServer.Proof.Ipc.Invariant
import Mathlib.Data.Fin.VecNotation
import Mathlib.Data.Fintype.Basic

/-!
# Causal delivery order

In a group that sends no health messages, along every run
(`Net.Reachable.inv`), the vector clocks grow along happens-before
(`Net.Inv.direct`), and every actor delivers a message only after those its
vector clock covers (`NodeInv.ordered`). So each actor's delivered sequence is
ordered by happens-before, but for its own messages (`causal_delivery_order`).
-/

namespace Gaia.Ipc

open Function (update)

variable {ι π : Type} {G : Group ι}

namespace Net

/-! ## The events of a step -/

/-- The events of a call of `receive` that delivers `msgs`, newest first. -/
def receiveEvents (i : ι) (msg : BroadcastMessage π) (msgs : List (BroadcastMessage π)) :
    Log ι (BroadcastMessage π) :=
  (msgs.map (.delivered i)).reverse ++ [.received i msg]

theorem receiveEvents_ne_sent (i : ι) (msg : BroadcastMessage π) (msgs) :
    ∀ e ∈ receiveEvents i msg msgs, ∀ j m, e ≠ .sent j m := by
  intro e he j m
  simp only [receiveEvents, List.mem_append, List.mem_reverse, List.mem_map,
    List.mem_singleton] at he
  rcases he with ⟨_, -, rfl⟩ | rfl <;> exact nofun

theorem delivered_mem_receiveEvents {i p : ι} {msg m : BroadcastMessage π} {msgs} :
    .delivered p m ∈ receiveEvents i msg msgs ↔ p = i ∧ m ∈ msgs := by
  simp only [receiveEvents, List.mem_append, List.mem_reverse, List.mem_map, List.mem_singleton,
    Event.delivered.injEq, reduceCtorEq, or_false]
  constructor
  · rintro ⟨_, hm, rfl, rfl⟩; exact ⟨rfl, hm⟩
  · rintro ⟨rfl, hm⟩; exact ⟨m, hm, rfl, rfl⟩

theorem received_mem_receiveEvents {i p : ι} {msg m : BroadcastMessage π} {msgs} :
    .received p m ∈ receiveEvents i msg msgs ↔ p = i ∧ m = msg := by
  simp [receiveEvents]

/-- A send in the log is below the events of a later call of `receive`. -/
theorem suffix_of_receiveEvents {i q : ι} {msg m : BroadcastMessage π} {msgs}
    {past log : Log ι (BroadcastMessage π)}
    (h : (.sent q m :: past) <:+ receiveEvents i msg msgs ++ log) :
    (.sent q m :: past) <:+ log := by
  have hn := receiveEvents_ne_sent i msg msgs
  generalize receiveEvents i msg msgs = evs at h hn
  induction evs with
  | nil => exact h
  | cons e evs ih =>
    rcases List.suffix_cons_iff.mp h with h | h
    · exact absurd (List.cons.inj h).1.symm (hn e List.mem_cons_self q m)
    · exact ih h fun e' he' => hn e' (List.mem_cons_of_mem _ he')

variable [DecidableEq ι] {N : Net ι π}

/-- The messages each actor has sent. -/
def sent (N : Net ι π) (q : ι) : List (BroadcastMessage π) := N.log.sentBy q

theorem mem_sent {q : ι} {m : BroadcastMessage π} : m ∈ N.sent q ↔ .sent q m ∈ N.log :=
  Log.mem_sentBy

theorem sent_send (i : ι) (kind : String) (payload : π) (traceId uuidHex : String) :
    (N.send i kind payload traceId uuidHex).sent =
      update N.sent i ((N.node i).outbound kind payload traceId uuidHex :: N.sent i) := by
  funext q
  by_cases hq : q = i
  · subst hq; rw [Function.update_self]; exact Log.sentBy_cons_self
  · rw [Function.update_of_ne hq]; exact Log.sentBy_cons_of_ne (Ne.symm hq)

theorem handled_send (i : ι) (kind : String) (payload : π) (traceId uuidHex : String) (p : ι) :
    ((N.send i kind payload traceId uuidHex).node p).handled = (N.node p).handled := by
  by_cases hp : p = i
  · subst hp
    simp only [send, Function.update_self]
    rfl
  · simp only [send, Function.update_of_ne hp]

theorem holdQueue_send (i : ι) (kind : String) (payload : π) (traceId uuidHex : String) (p : ι) :
    ((N.send i kind payload traceId uuidHex).node p).holdQueue = (N.node p).holdQueue := by
  by_cases hp : p = i
  · subst hp
    simp only [send, Function.update_self]
    rfl
  · simp only [send, Function.update_of_ne hp]

/-- A call of `receive`, by what it delivers and what it leaves in the queue. -/
theorem receive_eq {msg : BroadcastMessage π} (h : msg.isHealth = false) (i : ι) :
    ∃ msgs rest t, (N.node i).Drains msgs t ∧
      N.receive i msg = ⟨update N.node i (t.withQueue rest), receiveEvents i msg msgs ++ N.log⟩ ∧
      ((N.node i).holdQueue ++ [msg]).Perm (msgs ++ rest) ∧
      ∀ m ∈ rest, t.isDeliverable m = false := by
  obtain ⟨msgs, rest, t, hd, he, hp, hn⟩ := CausalBroadcast.receive_spec h (N.node i)
  refine ⟨msgs, rest, t, hd, ?_, hp, hn⟩
  have hm : deliveries (N.node i) msg = msgs := by
    rw [deliveries, he, CausalBroadcast.withQueue_handled, hd.handled_eq, List.drop_left]
  simp [receive, hm, he, receiveEvents]

theorem sent_receiveEvents (node : ι → CausalBroadcast π) (i : ι) (msg : BroadcastMessage π)
    (msgs) :
    (⟨node, receiveEvents i msg msgs ++ N.log⟩ : Net ι π).sent = N.sent :=
  funext fun _ => Log.sentBy_append (receiveEvents_ne_sent i msg msgs)

/-- What holds in every state of a run without health messages. -/
structure Inv (G : Group ι) (N : Net ι π) : Prop where
  sent : SentInv G N.sent
  node : ∀ p, NodeInv G N.sent p (N.node p)
  delivered : ∀ {p m}, .delivered p m ∈ N.log → m ∈ (N.node p).handled
  direct : ∀ {m₁ m₂}, N.log.Direct m₁ m₂ →
    (∀ a, m₁.stamp a ≤ m₂.stamp a) ∧ m₁.stamp m₂.sourceCore < m₂.stamp m₂.sourceCore

theorem Inv.initial (G : Group ι) : Inv G (initial G : Net ι π) where
  sent := .nil G
  node := NodeInv.new G
  delivered := fun h => nomatch h
  direct := fun h => nomatch h

theorem Inv.send (h : Inv G N) (i : ι) {kind : String} (hk : NonHealth kind) (payload : π)
    (traceId uuidHex : String) : Inv G (N.send i kind payload traceId uuidHex) := by
  set m := (N.node i).outbound kind payload traceId uuidHex with hm
  have hi := h.node i
  have hsrc : m.sourceCore = G.name i := hi.name
  have hst : ∀ a, m.stamp a = (N.node i).ticked.time a := fun _ => rfl
  have hc : m.counter = (N.sent i).length + 1 :=
    hi.clock.counter_outbound kind payload traceId uuidHex
  have hk' : m.isHealth = false := decide_eq_false hk
  have hnode : ∀ p, NodeInv G (update N.sent i (m :: N.sent i)) p
      ((N.send i kind payload traceId uuidHex).node p) := fun p => by
    by_cases hp : p = i
    · subst hp
      simp only [Net.send, Function.update_self]
      exact hi.send_self rfl hc
    · simp only [Net.send, Function.update_of_ne hp]
      exact (h.node p).send_other h.sent hp hsrc hc
  refine ⟨?_, fun p => ?_, fun {p m'} hd => ?_, fun {m₁ m₂} hd => ?_⟩
  · rw [sent_send]; exact h.sent.send hsrc hk' hc
  · rw [sent_send]; exact hnode p
  · rw [handled_send]
    exact h.delivered ((List.mem_cons.mp hd).resolve_left nofun)
  · rcases Log.direct_cons.mp hd with ⟨j, he, hp⟩ | hd
    · -- The sender's clock covers all it sent or delivered, and is then ticked.
      obtain ⟨rfl, rfl⟩ := Event.sent.inj he
      have hle : ∀ a, m₁.stamp a ≤ (N.node i).time a := by
        intro a
        rcases hp with hs | hd
        · exact hi.sent_le (mem_sent.mpr hs) a
        · exact hi.handled_le (h.delivered hd) a
      refine ⟨fun a => (hle a).trans ?_, ?_⟩
      · rw [hst]; exact hi.clock.le_time_ticked a
      · have := hle (G.name i)
        rw [hsrc, hst, hi.clock.time_ticked, if_pos rfl]; omega
    · exact h.direct hd

theorem Inv.receive (h : Inv G N) (i : ι) {j : ι} {msg : BroadcastMessage π}
    (hm : .sent j msg ∈ N.log) : Inv G (N.receive i msg) := by
  obtain ⟨msgs, rest, t, hd, he, hp, -⟩ := N.receive_eq (h.sent.causal (mem_sent.mpr hm)) i
  have hsent : ∀ m ∈ msgs ++ rest, ∃ q, m ∈ N.sent q := fun m hm' => by
    rcases List.mem_append.mp (hp.symm.subset hm') with hm' | hm'
    · exact (h.node i).queue_sent hm'
    · rw [List.mem_singleton.mp hm']; exact ⟨j, mem_sent.mpr hm⟩
  have ht : NodeInv G N.sent i (t.withQueue rest) :=
    ((h.node i).drains hd h.sent fun m hm' => hsent m (List.mem_append_left _ hm')).withQueue
      fun m hm' => hsent m (List.mem_append_right _ hm')
  rw [he]
  refine ⟨?_, fun p => ?_, fun {p m} hd' => ?_, fun hd' => ?_⟩
  · rw [sent_receiveEvents]; exact h.sent
  · rw [sent_receiveEvents]
    by_cases hpi : p = i
    · subst hpi; simpa only [Function.update_self] using ht
    · simpa only [Function.update_of_ne hpi] using h.node p
  · rcases List.mem_append.mp hd' with hd' | hd'
    · obtain ⟨rfl, hm'⟩ := delivered_mem_receiveEvents.mp hd'
      simp [hd.handled_eq, hm']
    · have := h.delivered hd'
      by_cases hpi : p = i
      · subst hpi; simp [hd.handled_eq, this]
      · simpa only [Function.update_of_ne hpi] using this
  · exact h.direct ((Log.direct_append (receiveEvents_ne_sent i msg msgs)).mp hd')

theorem Reachable.inv (h : Reachable G NonHealth N) : Inv G N := by
  induction h with
  | initial => exact .initial G
  | send _ i hk payload traceId uuidHex ih => exact ih.send i hk payload traceId uuidHex
  | receive _ i hm ih => exact ih.receive i hm

/-- A message that happens before another is covered by it. -/
theorem Inv.covers (h : Inv G N) {p : ι} {m₁ m₂ : BroadcastMessage π}
    (hb : N.log.HappensBefore m₁ m₂) (hp : .sent p m₁ ∉ N.log) : Covers G N.sent p m₁ m₂ := by
  obtain ⟨hle, hlt⟩ := hb.stamp_lt fun _ _ => h.direct
  obtain ⟨q, hq⟩ : ∃ q, m₁ ∈ N.sent q := by
    obtain ⟨q, hs | hd⟩ := hb.left_mem
    · exact ⟨q, mem_sent.mpr hs⟩
    · exact ((h.node q).handled_sent (h.delivered hd)).imp fun _ => And.right
  refine ⟨q, fun e => hp (e ▸ mem_sent.mp hq), hq, ?_, fun e => ?_⟩
  · rw [h.sent.numbered.counter_eq hq]; exact hle _
  · rw [e] at hlt; exact hlt.false

end Net

/-- In every state of every run, every message that happens before a message
`p` delivered, and is not its own, stands earlier in `p`'s delivered sequence. -/
theorem causal_delivery_order [DecidableEq ι] {N : Net ι π} (h : Net.Reachable G NonHealth N)
    (p : ι) {i : Nat} {m₁ m₂ : BroadcastMessage π} (hi : (N.node p).handled[i]? = some m₂)
    (hb : N.log.HappensBefore m₁ m₂) (hp : .sent p m₁ ∉ N.log) :
    ∃ j < i, (N.node p).handled[j]? = some m₁ ∧
      (N.node p).delivered[j]? = some m₁.messageId := by
  obtain ⟨j, hj, hm₁⟩ := (h.inv.node p).ordered i m₂ hi m₁ (h.inv.covers hb hp)
  exact ⟨j, hj, hm₁, by rw [(h.inv.node p).delivered, List.getElem?_map, hm₁]; rfl⟩

/-! ## A relayed answer -/

/-- Actors `a`, `b` and `c`. -/
def trio : Group (Fin 3) := ⟨!["a", "b", "c"], by decide⟩

/-- `a`'s question. -/
def relayFirst : BroadcastMessage Unit :=
  ((Net.initial trio).node 0).outbound "control" () "" "0"

/-- `a` has sent its question, and `b` has received it. -/
def relayAsked : Net (Fin 3) Unit :=
  ((Net.initial trio).send 0 "control" () "" "0").receive 1 relayFirst

/-- `b`'s answer. -/
def relaySecond : BroadcastMessage Unit := (relayAsked.node 1).outbound "policy" () "" "1"

/-- `c` receives the answer before the question. -/
def relayRun : Net (Fin 3) Unit :=
  ((relayAsked.send 1 "policy" () "" "1").receive 2 relaySecond).receive 2 relayFirst

/-- The network hands `b` the question a second time. -/
def askedTwice : Net (Fin 3) Unit := relayAsked.receive 1 relayFirst

/-- Instead of the answer, `b` sends a beacon. -/
def relayBeacon : BroadcastMessage Unit := (relayAsked.node 1).outbound "health" () "" "1"

/-- `c` has received the beacon, but not the question. -/
def beaconRelayed : Net (Fin 3) Unit :=
  (relayAsked.send 1 "health" () "" "1").receive 2 relayBeacon

/-- Then `c` sends. -/
def relayThird : BroadcastMessage Unit := (beaconRelayed.node 2).outbound "control" () "" "2"

def beaconRun : Net (Fin 3) Unit := beaconRelayed.send 2 "control" () "" "2"

theorem relay_asked {K : String → Prop} (hk : K "control") : Net.Reachable trio K relayAsked :=
  (Net.Reachable.initial.send 0 hk () "" "0").receive (j := 0) 1 (by decide)

theorem relay_reachable : Net.Reachable trio NonHealth relayRun := by
  have hanswered : Net.Reachable trio NonHealth (relayAsked.send 1 "policy" () "" "1") :=
    (relay_asked (by decide)).send 1 (by decide) () "" "1"
  have hovertaken : Net.Reachable trio NonHealth
      ((relayAsked.send 1 "policy" () "" "1").receive 2 relaySecond) :=
    hanswered.receive (j := 1) 2 (by decide)
  exact hovertaken.receive (j := 0) 2 (by decide)

/-- `c` delivers the question before the answer. -/
theorem relay_order : ∃ j < 1, (relayRun.node 2).handled[j]? = some relayFirst ∧
    (relayRun.node 2).delivered[j]? = some relayFirst.messageId := by
  have hi : (relayRun.node 2).handled[1]? = some relaySecond := by decide
  refine causal_delivery_order relay_reachable 2 hi (.single ?_) (by decide)
  show Log.Direct [_, _, _, _, _, _, _, _] relayFirst relaySecond
  exact .later (.later (.later (.later (.here (.inr (.head _))))))

end Gaia.Ipc
