import GaiaServer.Proof.Ipc.Delivery
import GaiaServer.Proof.Ipc.Health

/-!
# Runs with messages of all kinds

What holds of a group along any run, health messages included (`Reachable.mixed`).
Health messages are delivered out of order, so an actor may not have delivered all
messages up to its clock; but it has delivered the one that its clock entry was
raised to (`MixedInv.top`).
-/

namespace Gaia.Ipc

open Function (update)

variable {ι π : Type} {G : Group ι} {S : ι → List (BroadcastMessage π)}

/-- What is known of actor `p`, in state `b`, of a run with all kinds. -/
structure MixedInv (G : Group ι) (S : ι → List (BroadcastMessage π)) (p : ι)
    (b : CausalBroadcast π) : Prop extends ClockInv G S p b where
  held : ∀ m ∈ b.holdQueue, m.isHealth = false
  handled_sent : ∀ {m}, m ∈ b.handled → ∃ q, m ∈ S q
  counter_le : ∀ {m}, m ∈ b.handled → m.counter ≤ b.time m.sourceCore
  causal_le : ∀ {m}, m ∈ b.handled → m.isHealth = false → ∀ a, m.stamp a ≤ b.time a
  top : ∀ {q}, q ≠ p → 0 < b.time (G.name q) →
    ∃ m ∈ S q, m ∈ b.handled ∧ m.counter = b.time (G.name q)

namespace MixedInv

variable {p i : ι} {b t : CausalBroadcast π} {m msg : BroadcastMessage π}

theorem new (G : Group ι) (p : ι) :
    MixedInv G (fun _ => []) p (.new (G.name p) : CausalBroadcast π) :=
  { ClockInv.new G p with
    held := fun _ h => absurd h List.not_mem_nil
    handled_sent := fun h => absurd h List.not_mem_nil
    counter_le := fun h => absurd h List.not_mem_nil
    causal_le := fun h => absurd h List.not_mem_nil
    top := fun _ h => absurd h (by rw [CausalBroadcast.time_new]; exact lt_irrefl 0) }

/-- Delivering a sent message, a health message or a deliverable one, keeps the
invariant. -/
theorem deliver (h : MixedInv G S p b) (hS : Numbered G S) {q : ι} (hm : m ∈ S q)
    (hd : m.isHealth = true ∨ b.isDeliverable m = true) : MixedInv G S p (b.deliver m) := by
  have hle : ∀ a, b.time a ≤ (b.deliver m).time a := CausalBroadcast.le_time_deliver
  have hself : m.counter ≤ (b.deliver m).time m.sourceCore := by
    rw [CausalBroadcast.time_deliver_self]
    exact le_max_right ..
  have hnew : ∀ {m'}, m' ∈ (b.deliver m).handled → m' ∈ b.handled ∨ m' = m := fun h => by
    simpa using h
  refine { h.toClockInv.deliver hS hm with
    held := h.held
    handled_sent := fun hm' => ?_
    counter_le := fun hm' => ?_
    causal_le := fun {m'} hm' hk a => ?_
    top := fun {r} hr h0 => ?_ }
  · rcases hnew hm' with hm' | rfl
    · exact h.handled_sent hm'
    · exact ⟨q, hm⟩
  · rcases hnew hm' with hm' | rfl
    · exact (h.counter_le hm').trans (hle _)
    · exact hself
  · rcases hnew hm' with hm' | rfl
    · exact (h.causal_le hm' hk a).trans (hle a)
    · have hd := hd.resolve_left (by simp [hk])
      by_cases ha : a = m'.sourceCore
      · rw [ha]
        exact hself
      · exact (((CausalBroadcast.isDeliverable_iff_stamp h.nonneg).mp hd).2 a ha).trans (hle a)
  · by_cases hraise : m.sourceCore = G.name r ∧ b.time m.sourceCore < m.counter
    · obtain ⟨hs, hlt⟩ := hraise
      obtain rfl : q = r := hS.eq_of_source hm hs
      refine ⟨m, hm, by simp, ?_⟩
      rw [← hs, CausalBroadcast.time_deliver_self, max_eq_right hlt.le]
    · -- The clock entry of `r` stays as it is.
      have hsame : (b.deliver m).time (G.name r) = b.time (G.name r) := by
        rw [CausalBroadcast.time_deliver]
        split
        · rename_i e
          have hlt : ¬ b.time m.sourceCore < m.counter := fun hlt => hraise ⟨e.symm, hlt⟩
          rw [e]
          exact max_eq_left (not_lt.mp hlt)
        · rfl
      rw [hsame] at h0 ⊢
      obtain ⟨m', hm', hh, hc⟩ := h.top hr h0
      exact ⟨m', hm', by simp [hh], hc⟩

theorem drains {msgs : List (BroadcastMessage π)} (hd : b.Drains msgs t) (h : MixedInv G S p b)
    (hS : Numbered G S) (hs : ∀ m ∈ msgs, ∃ q, m ∈ S q) : MixedInv G S p t := by
  induction hd with
  | nil => exact h
  | @cons b t m msgs hd _ ih =>
    obtain ⟨q, hm⟩ := hs m List.mem_cons_self
    exact ih (h.deliver hS hm (.inr hd)) fun m' hm' => hs m' (List.mem_cons_of_mem _ hm')

theorem receive (h : MixedInv G S p b) (hS : Numbered G S) {q : ι} (hm : msg ∈ S q) :
    MixedInv G S p (b.receive msg) := by
  cases hk : msg.isHealth with
  | true =>
    rw [CausalBroadcast.receive_health hk]
    exact h.deliver hS hm (.inl hk)
  | false =>
    obtain ⟨msgs, rest, t, ht, he, hp, -⟩ := CausalBroadcast.receive_spec hk b
    have hsent : ∀ m ∈ msgs ++ rest, ∃ q, m ∈ S q := fun m hm' => by
      rcases List.mem_append.mp (hp.symm.subset hm') with hm' | hm'
      · exact h.queue_sent hm'
      · rw [List.mem_singleton.mp hm']; exact ⟨q, hm⟩
    have hi := h.drains ht hS fun m hm' => hsent m (List.mem_append_left _ hm')
    rw [he]
    exact { hi with
      held := (CausalBroadcast.causal_of_perm h.held hk hp).2
      queue_sent := fun hm' => hsent _ (List.mem_append_right _ hm') }

variable [DecidableEq ι]

/-- The invariant of an actor other than the sender. -/
theorem send_other (h : MixedInv G S p b) (hp : p ≠ i) (m : BroadcastMessage π) :
    MixedInv G (update S i (m :: S i)) p b :=
  { h.toClockInv.send_other hp m, h with
    handled_sent := fun hm => (h.handled_sent hm).imp fun q h => mem_update_cons.mpr (.inr h)
    top := fun hq h0 => by
      obtain ⟨m', hm', hh⟩ := h.top hq h0
      exact ⟨m', mem_update_cons.mpr (.inr hm'), hh⟩ }

/-- The invariant of the sender, whose clock is ticked. -/
theorem send_self (h : MixedInv G S i b) (hv : m.vectorClock = b.tick) :
    MixedInv G (update S i (m :: S i)) i b.ticked := by
  have hle := h.le_time_ticked
  exact { h.toClockInv.send_self hv with
    held := h.held
    handled_sent := fun hm => (h.handled_sent hm).imp fun q h => mem_update_cons.mpr (.inr h)
    counter_le := fun hm => (h.counter_le hm).trans (hle _)
    causal_le := fun hm hk a => (h.causal_le hm hk a).trans (hle a)
    top := fun hq h0 => by
      rw [h.time_ticked_of_ne hq] at h0 ⊢
      obtain ⟨m', hm', hh⟩ := h.top hq h0
      exact ⟨m', mem_update_cons.mpr (.inr hm'), hh⟩ }

end MixedInv

namespace Net

/-- A call of `receive` adds what it delivers. -/
theorem handled_receive (b : CausalBroadcast π) (msg : BroadcastMessage π) :
    (b.receive msg).handled = b.handled ++ deliveries b msg := by
  cases hk : msg.isHealth with
  | true => rw [deliveries, CausalBroadcast.receive_health hk]; simp
  | false =>
    obtain ⟨msgs, rest, t, ht, he, -, -⟩ := CausalBroadcast.receive_spec hk b
    rw [deliveries, he, CausalBroadcast.withQueue_handled, ht.handled_eq, List.drop_left]

/-- What was delivered or held, and the message received, is delivered or held. -/
theorem mem_receive {b : CausalBroadcast π} {msg m : BroadcastMessage π}
    (hm : m ∈ b.handled ∨ m ∈ b.holdQueue ++ [msg]) :
    m ∈ (b.receive msg).handled ∨ m ∈ (b.receive msg).holdQueue := by
  cases hk : msg.isHealth with
  | true =>
    rw [CausalBroadcast.receive_health hk, CausalBroadcast.deliver_handled]
    simp only [List.mem_append] at hm ⊢
    tauto
  | false =>
    obtain ⟨msgs, rest, t, ht, he, hp, -⟩ := CausalBroadcast.receive_spec hk b
    simp only [he, CausalBroadcast.withQueue_handled, ht.handled_eq,
      CausalBroadcast.withQueue_holdQueue, hp.mem_iff, List.mem_append] at hm ⊢
    tauto

variable [DecidableEq ι] {N : Net ι π}

theorem receive_eq_events (N : Net ι π) (i : ι) (msg : BroadcastMessage π) :
    N.receive i msg = ⟨update N.node i ((N.node i).receive msg),
      receiveEvents i msg (deliveries (N.node i) msg) ++ N.log⟩ := by
  simp [receive, receiveEvents]

theorem log_send (N : Net ι π) (i : ι) (kind : String) (payload : π) (traceId uuidHex : String) :
    (N.send i kind payload traceId uuidHex).log =
      .sent i ((N.node i).outbound kind payload traceId uuidHex) :: N.log := rfl

theorem log_receive (N : Net ι π) (i : ι) (msg : BroadcastMessage π) :
    (N.receive i msg).log = receiveEvents i msg (deliveries (N.node i) msg) ++ N.log := by
  rw [receive_eq_events]

theorem sent_receive (N : Net ι π) (i : ι) (msg : BroadcastMessage π) :
    (N.receive i msg).sent = N.sent := by
  rw [receive_eq_events]
  exact sent_receiveEvents ..

theorem node_receive_self (N : Net ι π) (i : ι) (msg : BroadcastMessage π) :
    (N.receive i msg).node i = (N.node i).receive msg := Function.update_self ..

theorem node_receive_of_ne {p i : ι} (h : p ≠ i) (N : Net ι π) (msg : BroadcastMessage π) :
    (N.receive i msg).node p = N.node p := Function.update_of_ne h ..

theorem node_send_self (N : Net ι π) (i : ι) (kind : String) (payload : π)
    (traceId uuidHex : String) :
    (N.send i kind payload traceId uuidHex).node i = (N.node i).ticked := Function.update_self ..

theorem node_send_of_ne {p i : ι} (h : p ≠ i) (N : Net ι π) (kind : String) (payload : π)
    (traceId uuidHex : String) :
    (N.send i kind payload traceId uuidHex).node p = N.node p := Function.update_of_ne h ..

/-- What holds in every state of a run with all kinds. -/
structure Mixed (G : Group ι) (N : Net ι π) : Prop where
  sent : Numbered G N.sent
  node : ∀ p, MixedInv G N.sent p (N.node p)
  logged : ∀ {p m}, .delivered p m ∈ N.log ↔ m ∈ (N.node p).handled

theorem Mixed.initial (G : Group ι) : Mixed G (initial G : Net ι π) where
  sent := .nil G
  node := MixedInv.new G
  logged := by simp [Net.initial, CausalBroadcast.new]

theorem Mixed.send (h : Mixed G N) (i : ι) (kind : String) (payload : π)
    (traceId uuidHex : String) : Mixed G (N.send i kind payload traceId uuidHex) := by
  have hi := h.node i
  refine ⟨?_, fun p => ?_, fun {p m} => ?_⟩
  · rw [sent_send]
    exact h.sent.send hi.name (hi.counter_outbound kind payload traceId uuidHex)
  · rw [sent_send]
    by_cases hp : p = i
    · subst hp
      rw [node_send_self]
      exact hi.send_self rfl
    · rw [node_send_of_ne hp]
      exact (h.node p).send_other hp _
  · rw [handled_send, ← h.logged]
    simp [Net.send]

theorem Mixed.receive (h : Mixed G N) (i : ι) {j : ι} {msg : BroadcastMessage π}
    (hm : .sent j msg ∈ N.log) : Mixed G (N.receive i msg) := by
  refine ⟨?_, fun p => ?_, fun {p m} => ?_⟩
  · rw [sent_receive]
    exact h.sent
  · rw [sent_receive]
    by_cases hp : p = i
    · subst hp
      rw [node_receive_self]
      exact (h.node p).receive h.sent (mem_sent.mpr hm)
    · rw [node_receive_of_ne hp]
      exact h.node p
  · rw [log_receive, List.mem_append, delivered_mem_receiveEvents, h.logged]
    by_cases hp : p = i
    · subst hp
      rw [node_receive_self, handled_receive, List.mem_append, and_iff_right rfl, or_comm]
    · rw [node_receive_of_ne hp]
      simp [hp]

theorem Reachable.mixed {K : String → Prop} (h : Reachable G K N) : Mixed G N := by
  induction h with
  | initial => exact .initial G
  | send _ i _ payload traceId uuidHex ih => exact ih.send i _ payload traceId uuidHex
  | receive _ i hm ih => exact ih.receive i hm

end Net

end Gaia.Ipc
