import GaiaServer.Impl.Ipc.CausalBroadcast
import Mathlib.Algebra.Order.Ring.Int

/-!
# What a call of `receive` delivers

A call delivers a sequence of messages, each of them deliverable at its turn
(`Drains`). For a message that is not a health message (`receive_spec`), the
sequence and the queue that is left are together the old queue and the message,
and nothing left is deliverable: the drain loop stops only there. The bound on
its passes is one it never reaches (`tryDeliverBuffered_unroll`: the loop, one
pass unrolled).
-/

namespace Gaia.Ipc

variable {π : Type}

/-- The counter of `a` in a message's vector clock. -/
def BroadcastMessage.stamp (msg : BroadcastMessage π) (a : String) : Int := msg.vectorClock.get a 0

/-- A message's counter for its own source. -/
def BroadcastMessage.counter (msg : BroadcastMessage π) : Int := msg.stamp msg.sourceCore

namespace CausalBroadcast

/-- The counter of `a` in an object's clock. -/
def time (b : CausalBroadcast π) (a : String) : Int := b.clock.get a 0

variable {b t : CausalBroadcast π} {msg : BroadcastMessage π}

@[simp] theorem time_new (localActor a : String) :
    (new localActor : CausalBroadcast π).time a = 0 := by
  simp [time, new, Dict.get_single]

theorem isDeliverable_iff :
    b.isDeliverable msg = true ↔ msg.counter = b.time msg.sourceCore + 1 ∧
      ∀ a, a ≠ msg.sourceCore → ∀ n, msg.vectorClock.get? a = some n → n ≤ b.time a := by
  simp only [isDeliverable]
  split
  · rename_i h
    simp only [reduceCtorEq, false_iff, not_and]
    exact fun h' => absurd h' h
  · rename_i h
    simp only [ne_eq, Decidable.not_not] at h
    simp only [List.all_eq_true, Bool.or_eq_true, decide_eq_true_eq]
    rw [Dict.all_items_iff (p := fun a n => a = msg.sourceCore ∨ n ≤ b.clock.get a 0)]
    constructor
    · intro h'
      refine ⟨h, fun a ha n hn => ?_⟩
      exact (h' a n hn).resolve_left ha
    · intro h' a n hn
      by_cases ha : a = msg.sourceCore
      · exact .inl ha
      · exact .inr (h'.2 a ha n hn)

/-- On clocks without negative counters, an absent entry is as good as 0. -/
theorem isDeliverable_iff_stamp (h : ∀ a, 0 ≤ b.time a) :
    b.isDeliverable msg = true ↔ msg.counter = b.time msg.sourceCore + 1 ∧
      ∀ a, a ≠ msg.sourceCore → msg.stamp a ≤ b.time a := by
  rw [isDeliverable_iff]
  refine and_congr_right fun _ => forall_congr' fun a => imp_congr_right fun _ => ?_
  simp only [BroadcastMessage.stamp, Dict.get]
  cases msg.vectorClock.get? a with
  | none => simpa using h a
  | some n => simp

/-- Deliverability depends on the clock's counters alone. -/
theorem isDeliverable_congr {b' : CausalBroadcast π} (h : ∀ a, b.time a = b'.time a)
    (msg : BroadcastMessage π) : b.isDeliverable msg = b'.isDeliverable msg := by
  rw [Bool.eq_iff_iff, isDeliverable_iff, isDeliverable_iff]
  simp only [h]

/-! ## One delivery -/

@[simp] theorem deliver_handled : (b.deliver msg).handled = b.handled ++ [msg] := rfl

@[simp] theorem deliver_delivered :
    (b.deliver msg).delivered = b.delivered ++ [msg.messageId] := rfl

theorem time_deliver (a : String) :
    (b.deliver msg).time a =
      if a = msg.sourceCore then max (b.time msg.sourceCore) msg.counter else b.time a :=
  Dict.get_set ..

theorem time_deliver_self :
    (b.deliver msg).time msg.sourceCore = max (b.time msg.sourceCore) msg.counter := by
  simp [time_deliver]

theorem time_deliver_of_ne {a : String} (h : a ≠ msg.sourceCore) :
    (b.deliver msg).time a = b.time a := by
  simp [time_deliver, h]

theorem le_time_deliver (a : String) : b.time a ≤ (b.deliver msg).time a := by
  rw [time_deliver]; split
  · rename_i h; rw [h]; exact le_max_left ..
  · exact le_rfl

/-- A message that the clock covers does not move it. -/
theorem time_deliver_covered (h : msg.counter ≤ b.time msg.sourceCore) (a : String) :
    (b.deliver msg).time a = b.time a := by
  rw [time_deliver, max_eq_left h]
  split
  · rename_i ha; rw [ha]
  · rfl

/-- A message that is deliverable advances its source's counter by one. -/
theorem time_deliver_deliverable (h : b.isDeliverable msg = true) (a : String) :
    (b.deliver msg).time a = if a = msg.sourceCore then b.time a + 1 else b.time a := by
  have hc := (isDeliverable_iff.mp h).1
  rw [time_deliver, hc]
  split
  · rename_i ha; rw [ha]; omega
  · rfl

/-- The object with another hold queue. -/
def withQueue (b : CausalBroadcast π) (q : List (BroadcastMessage π)) : CausalBroadcast π :=
  { b with holdQueue := q }

@[simp] theorem withQueue_holdQueue (q) : (b.withQueue q).holdQueue = q := rfl

@[simp] theorem withQueue_delivered (q) : (b.withQueue q).delivered = b.delivered := rfl

@[simp] theorem withQueue_handled (q) : (b.withQueue q).handled = b.handled := rfl

@[simp] theorem time_withQueue (q) (a : String) : (b.withQueue q).time a = b.time a := rfl

@[simp] theorem withQueue_self : b.withQueue b.holdQueue = b := rfl

@[simp] theorem withQueue_withQueue (q q') : (b.withQueue q).withQueue q' = b.withQueue q' := rfl

/-! ## A sequence of deliveries -/

/-- Delivering `msgs` one by one, each of them deliverable at its turn. -/
inductive Drains : CausalBroadcast π → List (BroadcastMessage π) → CausalBroadcast π → Prop
  | nil {b : CausalBroadcast π} : Drains b [] b
  | cons {b t : CausalBroadcast π} {msg msgs} :
      b.isDeliverable msg = true → Drains (b.deliver msg) msgs t → Drains b (msg :: msgs) t

theorem Drains.append {msgs msgs' : List (BroadcastMessage π)} {t' : CausalBroadcast π}
    (h : Drains b msgs t) (h' : Drains t msgs' t') : Drains b (msgs ++ msgs') t' := by
  induction h with
  | nil => exact h'
  | cons hd _ ih => exact .cons hd (ih h')

theorem Drains.withQueue {msgs : List (BroadcastMessage π)} (h : Drains b msgs t) (q) :
    Drains (b.withQueue q) msgs (t.withQueue q) := by
  induction h with
  | nil => exact .nil
  | cons hd _ ih => exact .cons hd ih

theorem Drains.handled_eq {msgs : List (BroadcastMessage π)} (h : Drains b msgs t) :
    t.handled = b.handled ++ msgs := by
  induction h with
  | nil => simp
  | cons _ _ ih => rw [ih]; simp

theorem Drains.delivered_eq {msgs : List (BroadcastMessage π)} (h : Drains b msgs t) :
    t.delivered = b.delivered ++ msgs.map (·.messageId) := by
  induction h with
  | nil => simp
  | cons _ _ ih => rw [ih]; simp

theorem Drains.holdQueue_eq {msgs : List (BroadcastMessage π)} (h : Drains b msgs t) :
    t.holdQueue = b.holdQueue := by
  induction h with
  | nil => rfl
  | cons _ _ ih => exact ih

/-- One pass over `queue`: it delivers some messages and passes over the rest;
if it delivers none, none was deliverable. -/
theorem drainPass_spec (queue acc : List (BroadcastMessage π)) (deliveredAny : Bool)
    (b : CausalBroadcast π) :
    ∃ msgs rest t, Drains b msgs t ∧
      drainPass queue acc deliveredAny b =
        (t.withQueue (acc ++ rest), deliveredAny || !msgs.isEmpty) ∧
      queue.Perm (msgs ++ rest) ∧ (msgs = [] → ∀ m ∈ queue, b.isDeliverable m = false) := by
  induction queue generalizing acc deliveredAny b with
  | nil => exact ⟨[], [], b, .nil, by simp [drainPass, withQueue], by simp, by simp⟩
  | cons msg queue ih =>
    by_cases hd : b.isDeliverable msg = true
    · obtain ⟨msgs, rest, t, ht, he, hp, -⟩ := ih acc true (b.deliver msg)
      exact ⟨msg :: msgs, rest, t, .cons hd ht, by simp [drainPass, hd, he], hp.cons _, by simp⟩
    · obtain ⟨msgs, rest, t, ht, he, hp, hn⟩ := ih (acc ++ [msg]) deliveredAny b
      refine ⟨msgs, msg :: rest, t, ht, by simp [drainPass, hd, he], ?_, fun h m hm => ?_⟩
      · exact (hp.cons msg).trans List.perm_middle.symm
      · rcases List.mem_cons.mp hm with rfl | hm
        · exact Bool.eq_false_iff.mpr hd
        · exact hn h m hm

/-- With passes to spare, the loop ends because nothing left is deliverable. -/
theorem drain_spec {passes : Nat} (h : b.holdQueue.length < passes) :
    ∃ msgs rest t, Drains b msgs t ∧ drain passes b = t.withQueue rest ∧
      b.holdQueue.Perm (msgs ++ rest) ∧ ∀ m ∈ rest, t.isDeliverable m = false := by
  induction passes generalizing b with
  | zero => exact absurd h (Nat.not_lt_zero _)
  | succ passes ih =>
    obtain ⟨msgs, rest, t, ht, he, hp, hn⟩ := drainPass_spec b.holdQueue [] false b
    simp only [List.nil_append, Bool.false_or] at he
    simp only [drain, he]
    cases msgs with
    | nil =>
      cases ht
      exact ⟨[], rest, b, .nil, by simp, hp, fun m hm => hn rfl m (hp.symm.subset hm)⟩
    | cons m ms =>
      have hl := hp.length_eq
      simp only [List.length_append, List.length_cons] at hl
      obtain ⟨msgs', rest', t', ht', he', hp', hn'⟩ :=
        ih (b := t.withQueue rest) (by simp only [withQueue_holdQueue]; omega)
      refine ⟨m :: ms ++ msgs', rest', t'.withQueue b.holdQueue, ht.append ?_, ?_, ?_, hn'⟩
      · simpa [← ht.holdQueue_eq] using ht'.withQueue t.holdQueue
      · simp [he']
      · rw [List.append_assoc]
        exact hp.trans (hp'.append_left _)

theorem drain_eq_of_lt {n m : Nat} (hn : b.holdQueue.length < n) (hm : b.holdQueue.length < m) :
    drain n b = drain m b := by
  induction n generalizing b m with
  | zero => exact absurd hn (Nat.not_lt_zero _)
  | succ n ih =>
    obtain ⟨m, rfl⟩ : ∃ m', m = m' + 1 := ⟨m - 1, by omega⟩
    obtain ⟨msgs, rest, t, -, he, hp, -⟩ := drainPass_spec b.holdQueue [] false b
    simp only [drain, he]
    cases msgs with
    | nil => rfl
    | cons m' ms =>
      have hl := hp.length_eq
      simp only [List.length_append, List.length_cons] at hl
      simp only [List.isEmpty_cons, Bool.not_false, Bool.or_true, if_true]
      exact ih (by simp only [List.nil_append, withQueue_holdQueue]; omega)
        (by simp only [List.nil_append, withQueue_holdQueue]; omega)

/-- `while delivered_any`, one pass unrolled. -/
theorem tryDeliverBuffered_unroll (b : CausalBroadcast π) :
    b.tryDeliverBuffered =
      let (b', deliveredAny) := drainPass b.holdQueue [] false b
      if deliveredAny then b'.tryDeliverBuffered else b' := by
  obtain ⟨msgs, rest, t, -, he, hp, -⟩ := drainPass_spec b.holdQueue [] false b
  simp only [tryDeliverBuffered, drain, he]
  cases msgs with
  | nil => rfl
  | cons m ms =>
    have hl := hp.length_eq
    simp only [List.length_append, List.length_cons] at hl
    simp only [List.isEmpty_cons, Bool.not_false, Bool.or_true, if_true]
    exact drain_eq_of_lt (b := t.withQueue rest) (by simp only [withQueue_holdQueue]; omega)
      (Nat.lt_succ_self _)

/-! ## `receive` -/

theorem receive_health (h : msg.isHealth = true) : b.receive msg = b.deliver msg := by
  simp [receive, h]

/-- What `receive` does with a message that is not a health message. -/
theorem receive_spec (h : msg.isHealth = false) (b : CausalBroadcast π) :
    ∃ msgs rest t, Drains b msgs t ∧ b.receive msg = t.withQueue rest ∧
      (b.holdQueue ++ [msg]).Perm (msgs ++ rest) ∧ ∀ m ∈ rest, t.isDeliverable m = false := by
  obtain ⟨msgs, rest, t, ht, he, hp, hn⟩ :=
    drain_spec (b := b.withQueue (b.holdQueue ++ [msg])) (Nat.lt_succ_self _)
  refine ⟨msgs, rest, t.withQueue b.holdQueue, ht.withQueue b.holdQueue, ?_, hp, hn⟩
  simp only [receive, h, Bool.false_eq_true, if_false, withQueue_withQueue]
  exact he

end CausalBroadcast

end Gaia.Ipc
