import GaiaServer.Impl.Ipc.Group
import GaiaServer.Proof.Ipc.Drain

/-!
# Counters and clocks in a broadcast group

For runs with messages of all kinds. Every send takes the sender's next counter, so
the messages an actor sent carry the counters 1, 2, … (`Numbered`). An actor's clock
counts its own messages, and of every other actor's at most those sent (`ClockInv`).
Delivering any sent message keeps this, in order or not (`ClockInv.deliver`), and so
does a `send` (`ClockInv.send_self`, `ClockInv.send_other`).
-/

namespace Gaia.Ipc

open Function (update)

variable {ι π : Type} {G : Group ι} {S : ι → List (BroadcastMessage π)}

/-- The messages sent so far, `S q` by actor `q`, are numbered from 1 on. -/
structure Numbered (G : Group ι) (S : ι → List (BroadcastMessage π)) : Prop where
  source : ∀ {q m}, m ∈ S q → m.sourceCore = G.name q
  pos : ∀ {q m}, m ∈ S q → 0 < m.counter
  le : ∀ {q m}, m ∈ S q → m.counter ≤ (S q).length
  inj : ∀ {q m m'}, m ∈ S q → m' ∈ S q → m.counter = m'.counter → m = m'
  surj : ∀ {q} {k : Int}, 0 < k → k ≤ (S q).length → ∃ m ∈ S q, m.counter = k

namespace Numbered

theorem nil (G : Group ι) : Numbered G (fun _ => ([] : List (BroadcastMessage π))) where
  source h := nomatch h
  pos h := nomatch h
  le h := nomatch h
  inj h := nomatch h
  surj h0 hk := absurd hk (by simp only [List.length_nil]; omega)

/-- The source names the sender. -/
theorem eq_of_source (h : Numbered G S) {q r : ι} {m : BroadcastMessage π} (hm : m ∈ S q)
    (hs : m.sourceCore = G.name r) : q = r :=
  G.distinct ((h.source hm).symm.trans hs)

theorem sender_eq (h : Numbered G S) {q q' : ι} {m : BroadcastMessage π} (hm : m ∈ S q)
    (hm' : m ∈ S q') : q = q' := h.eq_of_source hm (h.source hm')

/-- Source and counter identify a message. -/
theorem eq_of_slot (h : Numbered G S) {q q' : ι} {m m' : BroadcastMessage π} (hm : m ∈ S q)
    (hm' : m' ∈ S q') (hs : m.sourceCore = m'.sourceCore) (hc : m.counter = m'.counter) :
    m = m' := by
  obtain rfl := h.eq_of_source hm (hs.trans (h.source hm'))
  exact h.inj hm hm' hc

theorem counter_eq (h : Numbered G S) {q : ι} {m : BroadcastMessage π} (hm : m ∈ S q) :
    m.counter = m.stamp (G.name q) := by
  rw [BroadcastMessage.counter, h.source hm]

end Numbered

/-- What is known of the clock and the queue of actor `p`, in state `b`. -/
structure ClockInv (G : Group ι) (S : ι → List (BroadcastMessage π)) (p : ι)
    (b : CausalBroadcast π) : Prop where
  name : b.localActor = G.name p
  nonneg : ∀ a, 0 ≤ b.time a
  own : b.time (G.name p) = (S p).length
  time_le : ∀ q, b.time (G.name q) ≤ (S q).length
  stranger : ∀ {a}, (∀ q, a ≠ G.name q) → b.time a = 0
  sent_le : ∀ {m}, m ∈ S p → ∀ a, m.stamp a ≤ b.time a
  queue_sent : ∀ {m}, m ∈ b.holdQueue → ∃ q, m ∈ S q

namespace ClockInv

variable {p : ι} {b : CausalBroadcast π}

theorem new (G : Group ι) (p : ι) :
    ClockInv G (fun _ => []) p (.new (G.name p) : CausalBroadcast π) := by
  have ht : ∀ a, (CausalBroadcast.new (G.name p) : CausalBroadcast π).time a = 0 :=
    CausalBroadcast.time_new _
  exact
    { name := rfl
      nonneg := fun a => by rw [ht]
      own := by rw [ht]; rfl
      time_le := fun q => by rw [ht]; exact Int.natCast_nonneg _
      stranger := fun _ => ht _
      sent_le := fun h => absurd h List.not_mem_nil
      queue_sent := fun h => absurd h List.not_mem_nil }

/-- A deliverable message is not the actor's own. -/
theorem ne_of_deliverable (h : ClockInv G S p b) (hS : Numbered G S) {q : ι}
    {m : BroadcastMessage π} (hm : m ∈ S q) (hd : b.isDeliverable m = true) : q ≠ p := by
  rintro rfl
  have hc := (CausalBroadcast.isDeliverable_iff.mp hd).1
  have := hS.le hm
  rw [hS.source hm, h.own] at hc
  omega

/-- Delivering any message that was sent keeps the invariant. -/
theorem deliver (h : ClockInv G S p b) (hS : Numbered G S) {q : ι} {m : BroadcastMessage π}
    (hm : m ∈ S q) : ClockInv G S p (b.deliver m) := by
  have hsrc := hS.source hm
  have hc := hS.le hm
  have hle : ∀ a, b.time a ≤ (b.deliver m).time a := CausalBroadcast.le_time_deliver
  have htime : ∀ r, (b.deliver m).time (G.name r) ≤ (S r).length := fun r => by
    have hr := h.time_le r
    rw [CausalBroadcast.time_deliver, hsrc]
    split
    · rename_i e
      obtain rfl : r = q := G.distinct e
      exact max_le hr hc
    · exact hr
  exact
    { name := h.name
      nonneg := fun a => (h.nonneg a).trans (hle a)
      own := le_antisymm (htime p) (h.own ▸ hle (G.name p))
      time_le := htime
      stranger := fun ha => by
        rw [CausalBroadcast.time_deliver_of_ne (hsrc ▸ ha q)]
        exact h.stranger ha
      sent_le := fun hs a => (h.sent_le hs a).trans (hle a)
      queue_sent := h.queue_sent }

end ClockInv

/-! ## Sending -/

section Send

variable {p i : ι} {b : CausalBroadcast π} {m : BroadcastMessage π}

/-- The object after a `send`. -/
def CausalBroadcast.ticked (b : CausalBroadcast π) : CausalBroadcast π := { b with clock := b.tick }

theorem ClockInv.time_ticked (h : ClockInv G S i b) (a : String) :
    b.ticked.time a = if a = G.name i then b.time a + 1 else b.time a := by
  rw [CausalBroadcast.time, CausalBroadcast.ticked, CausalBroadcast.tick, Dict.get_set, h.name]
  split
  · rename_i ha; rw [ha]; rfl
  · rfl

theorem ClockInv.time_ticked_of_ne (h : ClockInv G S i b) {q : ι} (hq : q ≠ i) :
    b.ticked.time (G.name q) = b.time (G.name q) := by
  rw [h.time_ticked, if_neg fun e => hq (G.distinct e)]

theorem ClockInv.le_time_ticked (h : ClockInv G S i b) (a : String) :
    b.time a ≤ b.ticked.time a := by
  rw [h.time_ticked]; split <;> omega

theorem ClockInv.counter_outbound (h : ClockInv G S i b) (kind : String) (payload : π)
    (traceId uuidHex : String) :
    (b.outbound kind payload traceId uuidHex).counter = (S i).length + 1 := by
  rw [BroadcastMessage.counter, show (b.outbound kind payload traceId uuidHex).sourceCore =
    G.name i from h.name, ← h.own]
  exact (h.time_ticked _).trans (if_pos rfl)

variable [DecidableEq ι]

theorem mem_update_cons {q : ι} {m' : BroadcastMessage π} :
    m' ∈ update S i (m :: S i) q ↔ (q = i ∧ m' = m) ∨ m' ∈ S q := by
  by_cases hq : q = i
  · subst hq
    rw [Function.update_self, List.mem_cons, and_iff_right rfl]
  · rw [Function.update_of_ne hq]
    simp [hq]

theorem length_update_cons (S : ι → List (BroadcastMessage π)) (i : ι) (m : BroadcastMessage π)
    (q : ι) : (update S i (m :: S i) q).length = (S q).length + if q = i then 1 else 0 := by
  by_cases hq : q = i
  · subst hq; simp
  · simp [hq]

/-- The next message of actor `i`. -/
theorem Numbered.send (hS : Numbered G S) (hsrc : m.sourceCore = G.name i)
    (hc : m.counter = (S i).length + 1) : Numbered G (update S i (m :: S i)) := by
  refine ⟨fun h => ?_, fun h => ?_, fun {q m'} h => ?_, fun h h' he => ?_, fun {q k} h0 hk => ?_⟩
  · rcases mem_update_cons.mp h with ⟨rfl, rfl⟩ | h
    · exact hsrc
    · exact hS.source h
  · rcases mem_update_cons.mp h with ⟨rfl, rfl⟩ | h
    · omega
    · exact hS.pos h
  · rw [length_update_cons]
    rcases mem_update_cons.mp h with ⟨rfl, rfl⟩ | h
    · simp [hc]
    · have := hS.le h
      omega
  · -- The new message's counter is above every other's.
    rcases mem_update_cons.mp h with ⟨rfl, rfl⟩ | hs <;>
      rcases mem_update_cons.mp h' with ⟨hq, rfl⟩ | hs'
    · rfl
    · have := hS.le hs'
      omega
    · have := hS.le hs
      rw [hq] at this
      omega
    · exact hS.inj hs hs' he
  · rw [length_update_cons] at hk
    by_cases hnew : q = i ∧ k = m.counter
    · exact ⟨m, mem_update_cons.mpr (.inl ⟨hnew.1, rfl⟩), hnew.2.symm⟩
    · have hle : k ≤ (S q).length := by
        by_cases hq : q = i
        · subst hq
          have : k ≠ m.counter := fun e => hnew ⟨rfl, e⟩
          rw [if_pos rfl] at hk
          omega
        · simpa [hq] using hk
      obtain ⟨m', hm', e⟩ := hS.surj h0 hle
      exact ⟨m', mem_update_cons.mpr (.inr hm'), e⟩

/-- The invariant of an actor other than the sender. -/
theorem ClockInv.send_other (h : ClockInv G S p b) (hp : p ≠ i) (m : BroadcastMessage π) :
    ClockInv G (update S i (m :: S i)) p b :=
  { h with
    own := by rw [Function.update_of_ne hp]; exact h.own
    time_le := fun q => by
      have := h.time_le q
      rw [length_update_cons]
      omega
    sent_le := fun hm => by rw [Function.update_of_ne hp] at hm; exact h.sent_le hm
    queue_sent := fun hm => (h.queue_sent hm).imp fun q h => mem_update_cons.mpr (.inr h) }

/-- The invariant of the sender, whose clock is ticked. -/
theorem ClockInv.send_self (h : ClockInv G S i b) (hv : m.vectorClock = b.tick) :
    ClockInv G (update S i (m :: S i)) i b.ticked := by
  have hle := h.le_time_ticked
  have hown : b.ticked.time (G.name i) = (S i).length + 1 := by
    rw [h.time_ticked, if_pos rfl, h.own]
  exact
    { name := h.name
      nonneg := fun a => (h.nonneg a).trans (hle a)
      own := by rw [hown, length_update_cons, if_pos rfl]; rfl
      time_le := fun q => by
        rw [length_update_cons]
        by_cases hq : q = i
        · subst hq
          rw [hown, if_pos rfl]
          rfl
        · rw [h.time_ticked_of_ne hq, if_neg hq]
          exact h.time_le q
      stranger := fun ha => by rw [h.time_ticked, if_neg (ha i)]; exact h.stranger ha
      sent_le := fun {m'} hm' a => by
        rcases mem_update_cons.mp hm' with ⟨-, rfl⟩ | hm'
        · rw [BroadcastMessage.stamp, hv]; rfl
        · exact (h.sent_le hm' a).trans (hle a)
      queue_sent := fun hm' => (h.queue_sent hm').imp fun q h' => mem_update_cons.mpr (.inr h') }

end Send

end Gaia.Ipc
