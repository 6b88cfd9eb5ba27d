import GaiaServer.Proof.Ipc.Clocks

/-!
# The invariant of a broadcast group

For runs that send no health messages. Beyond what holds of counters and clocks in
any run (`SentInv.numbered`, `NodeInv.clock`), every actor has delivered, of each other
actor's messages, exactly those up to its clock, each after the messages that
its own vector clock covers (`NodeInv`). One delivery of a deliverable message
keeps this (`NodeInv.deliver`), so a call of `receive` does (`Inv.receive`); a
`send` does (`Inv.send`), and `Reachable.inv` is the whole run.
-/

namespace Gaia.Ipc

open Function (update)

variable {ι π : Type} {G : Group ι} {S : ι → List (BroadcastMessage π)}

/-- What is known of the messages sent so far, `S q` by actor `q`. -/
structure SentInv (G : Group ι) (S : ι → List (BroadcastMessage π)) : Prop where
  source : ∀ {q m}, m ∈ S q → m.sourceCore = G.name q
  causal : ∀ {q m}, m ∈ S q → m.isHealth = false
  pos : ∀ {q m}, m ∈ S q → 0 < m.counter
  le : ∀ {q m}, m ∈ S q → m.counter ≤ (S q).length
  inj : ∀ {q m m'}, m ∈ S q → m' ∈ S q → m.counter = m'.counter → m = m'
  surj : ∀ {q} {k : Int}, 0 < k → k ≤ (S q).length → ∃ m ∈ S q, m.counter = k

theorem SentInv.nil (G : Group ι) : SentInv G (fun _ => ([] : List (BroadcastMessage π))) :=
  { Numbered.nil G with causal := fun h => absurd h List.not_mem_nil }

theorem SentInv.numbered (h : SentInv G S) : Numbered G S := { h with }

/-- `m₁` is a message of another actor than `p` that the vector clock of `m₂`
covers. -/
def Covers (G : Group ι) (S : ι → List (BroadcastMessage π)) (p : ι)
    (m₁ m₂ : BroadcastMessage π) : Prop :=
  ∃ q, q ≠ p ∧ m₁ ∈ S q ∧ m₁.counter ≤ m₂.stamp (G.name q) ∧ m₁ ≠ m₂

/-- What is known of actor `p`, in state `b`. -/
structure NodeInv (G : Group ι) (S : ι → List (BroadcastMessage π)) (p : ι)
    (b : CausalBroadcast π) : Prop where
  name : b.localActor = G.name p
  nonneg : ∀ a, 0 ≤ b.time a
  own : b.time (G.name p) = (S p).length
  time_le : ∀ q, b.time (G.name q) ≤ (S q).length
  stranger : ∀ {a}, (∀ q, a ≠ G.name q) → b.time a = 0
  sent_le : ∀ {m}, m ∈ S p → ∀ a, m.stamp a ≤ b.time a
  handled_iff : ∀ {q m}, q ≠ p → m ∈ S q → (m ∈ b.handled ↔ m.counter ≤ b.time (G.name q))
  handled_sent : ∀ {m}, m ∈ b.handled → ∃ q, q ≠ p ∧ m ∈ S q
  handled_le : ∀ {m}, m ∈ b.handled → ∀ a, m.stamp a ≤ b.time a
  nodup : b.handled.Nodup
  delivered : b.delivered = b.handled.map (·.messageId)
  queue_sent : ∀ {m}, m ∈ b.holdQueue → ∃ q, m ∈ S q
  ordered : OrderedBy (Covers G S p) b.handled

namespace NodeInv

variable {p : ι} {b : CausalBroadcast π}

theorem new (G : Group ι) (p : ι) :
    NodeInv G (fun _ => []) p (.new (G.name p) : CausalBroadcast π) :=
  { ClockInv.new G p with
    handled_iff := fun _ h => absurd h List.not_mem_nil
    handled_sent := fun h => absurd h List.not_mem_nil
    handled_le := fun h => absurd h List.not_mem_nil
    nodup := List.nodup_nil
    delivered := rfl
    ordered := .nil }

theorem clock (h : NodeInv G S p b) : ClockInv G S p b := { h with }

/-- The hold queue may change to any other of sent messages. -/
theorem withQueue (h : NodeInv G S p b) {rest : List (BroadcastMessage π)}
    (hr : ∀ m ∈ rest, ∃ q, m ∈ S q) : NodeInv G S p (b.withQueue rest) :=
  { h with queue_sent := fun hm => hr _ hm }

/-- A deliverable message covers only messages that have been delivered. -/
theorem handled_of_covers (h : NodeInv G S p b) (hS : SentInv G S) {q : ι}
    {m : BroadcastMessage π} (hm : m ∈ S q) (hd : b.isDeliverable m = true) :
    ∀ m₁, Covers G S p m₁ m → m₁ ∈ b.handled := by
  rintro m₁ ⟨r, hr, hm₁, hle, hne⟩
  obtain ⟨hc, ho⟩ := (CausalBroadcast.isDeliverable_iff_stamp h.nonneg).mp hd
  rw [hS.source hm] at hc
  rw [h.handled_iff hr hm₁]
  by_cases hrq : r = q
  · subst hrq
    -- A message of the same sender: by its counter, an earlier one.
    have hcm := hS.numbered.counter_eq hm
    have hn : m₁.counter ≠ m.counter := fun e => hne (hS.inj hm₁ hm e)
    omega
  · exact hle.trans (ho _ (by rw [hS.source hm]; exact fun e => hrq (G.distinct e)))

/-- Delivering a deliverable message that was sent keeps the invariant. -/
theorem deliver (h : NodeInv G S p b) (hS : SentInv G S) {q : ι} {m : BroadcastMessage π}
    (hm : m ∈ S q) (hd : b.isDeliverable m = true) : NodeInv G S p (b.deliver m) := by
  have hq := h.clock.ne_of_deliverable hS.numbered hm hd
  have hcov := h.handled_of_covers hS hm hd
  obtain ⟨hc, ho⟩ := (CausalBroadcast.isDeliverable_iff_stamp h.nonneg).mp hd
  have ht := CausalBroadcast.time_deliver_deliverable hd
  have hmn : m ∉ b.handled := by rw [h.handled_iff hq hm, ← hS.source hm]; omega
  rw [hS.source hm] at hc ho ht
  have htq : (b.deliver m).time (G.name q) = m.counter := by rw [ht, if_pos rfl, hc]
  have hto : ∀ {a}, a ≠ G.name q → (b.deliver m).time a = b.time a := fun ha => by
    rw [ht, if_neg ha]
  have hle : ∀ a, b.time a ≤ (b.deliver m).time a := CausalBroadcast.le_time_deliver
  exact
    { h.clock.deliver hS.numbered hm with
      handled_iff := fun {r m'} hr hm' => by
        simp only [CausalBroadcast.deliver_handled, List.mem_append, List.mem_singleton,
          h.handled_iff hr hm']
        by_cases hrq : r = q
        · subst hrq
          have hi : m' = m ↔ m'.counter = m.counter := ⟨fun e => e ▸ rfl, hS.inj hm' hm⟩
          rw [htq, hi]; omega
        · have hne : m' ≠ m := fun e => hrq (hS.numbered.sender_eq hm' (e ▸ hm))
          rw [hto fun e => hrq (G.distinct e)]
          simp [hne]
      handled_sent := fun hm' => by
        rcases List.mem_append.mp hm' with hm' | hm'
        · exact h.handled_sent hm'
        · rw [List.mem_singleton.mp hm']; exact ⟨q, hq, hm⟩
      handled_le := fun hm' a => by
        rcases List.mem_append.mp hm' with hm' | hm'
        · exact (h.handled_le hm' a).trans (hle a)
        · rw [List.mem_singleton.mp hm']
          by_cases ha : a = G.name q
          · rw [ha, htq, hS.numbered.counter_eq hm]
          · exact (ho a ha).trans (hle a)
      nodup := by
        rw [CausalBroadcast.deliver_handled, List.nodup_append]
        refine ⟨h.nodup, List.nodup_singleton _, fun a ha c hc' => ?_⟩
        rw [List.mem_singleton.mp hc']; exact fun e => hmn (e ▸ ha)
      delivered := by simp [h.delivered]
      ordered := h.ordered.snoc hcov }

theorem drains {msgs : List (BroadcastMessage π)} {t : CausalBroadcast π} (hd : b.Drains msgs t)
    (h : NodeInv G S p b) (hS : SentInv G S) (hs : ∀ m ∈ msgs, ∃ q, m ∈ S q) :
    NodeInv G S p t := by
  induction hd with
  | nil => exact h
  | @cons b t m msgs hd _ ih =>
    obtain ⟨q, hm⟩ := hs m List.mem_cons_self
    exact ih (h.deliver hS hm hd) fun m' hm' => hs m' (List.mem_cons_of_mem _ hm')

end NodeInv

/-! ## Sending -/

section Send

variable {p i : ι} {b : CausalBroadcast π} {m : BroadcastMessage π}

variable [DecidableEq ι]

/-- The next message of actor `i`. -/
theorem SentInv.send (hS : SentInv G S) (hsrc : m.sourceCore = G.name i)
    (hk : m.isHealth = false) (hc : m.counter = (S i).length + 1) :
    SentInv G (update S i (m :: S i)) :=
  { hS.numbered.send hsrc hc with
    causal := fun h => by
      rcases mem_update_cons.mp h with ⟨rfl, rfl⟩ | h
      · exact hk
      · exact hS.causal h }

/-- The new message is covered by no delivered one. -/
theorem NodeInv.covers_send (h : NodeInv G S p b) (hc : m.counter = (S i).length + 1)
    {m₁ m₂ : BroadcastMessage π} (hm₂ : m₂ ∈ b.handled)
    (hcov : Covers G (update S i (m :: S i)) p m₁ m₂) : Covers G S p m₁ m₂ := by
  obtain ⟨q, hq, hm₁, hle, hne⟩ := hcov
  rcases mem_update_cons.mp hm₁ with ⟨rfl, rfl⟩ | hm₁
  · have h1 := h.handled_le hm₂ (G.name q)
    have h2 := h.time_le q
    omega
  · exact ⟨q, hq, hm₁, hle, hne⟩

/-- The invariant of an actor other than the sender. -/
theorem NodeInv.send_other (h : NodeInv G S p b) (hS : SentInv G S) (hp : p ≠ i)
    (hsrc : m.sourceCore = G.name i) (hc : m.counter = (S i).length + 1) :
    NodeInv G (update S i (m :: S i)) p b := by
  have hmn : m ∉ b.handled := fun hm => by
    obtain ⟨q, -, hmq⟩ := h.handled_sent hm
    obtain rfl : q = i := hS.numbered.eq_of_source hmq hsrc
    have := hS.le hmq
    omega
  exact
    { h.clock.send_other hp m, h with
      handled_iff := fun {q m'} hq hm' => by
        rcases mem_update_cons.mp hm' with ⟨rfl, rfl⟩ | hm'
        · have := h.time_le q
          exact ⟨fun h' => absurd h' hmn, fun h' => by omega⟩
        · exact h.handled_iff hq hm'
      handled_sent := fun hm =>
        (h.handled_sent hm).imp fun q h => ⟨h.1, mem_update_cons.mpr (.inr h.2)⟩
      ordered := h.ordered.mono fun _ _ hm₂ hr => h.covers_send hc hm₂ hr }

/-- The invariant of the sender, whose clock is ticked. -/
theorem NodeInv.send_self (h : NodeInv G S i b) (hv : m.vectorClock = b.tick)
    (hc : m.counter = (S i).length + 1) : NodeInv G (update S i (m :: S i)) i b.ticked := by
  have hle := h.clock.le_time_ticked
  exact
    { h.clock.send_self hv with
      handled_iff := fun hq hm' => by
        rw [Function.update_of_ne hq] at hm'
        rw [h.clock.time_ticked_of_ne hq]
        exact h.handled_iff hq hm'
      handled_sent := fun hm' =>
        (h.handled_sent hm').imp fun q h' => ⟨h'.1, mem_update_cons.mpr (.inr h'.2)⟩
      handled_le := fun hm' a => (h.handled_le hm' a).trans (hle a)
      nodup := h.nodup
      delivered := h.delivered
      ordered := h.ordered.mono fun _ _ hm₂ hr => h.covers_send hc hm₂ hr }

end Send

end Gaia.Ipc
