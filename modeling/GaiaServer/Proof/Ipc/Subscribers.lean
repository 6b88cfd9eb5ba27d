import GaiaServer.Impl.Ipc.Methods
import GaiaServer.Proof.Ipc.Drain
import Mathlib.Order.Monotone.Basic

/-!
# Subscribing while messages are delivered

Threads that send, receive and subscribe on one object, access by access. No handler lets an
exception leave that is none of `Exception`.

`subscribe` does not hold the lock, but it does nothing except append to the list of handlers
(`Others`). So the other methods do to the object what they do at once
(`broadcast_refines`), and by `Monitor.Reach.refines` the object is that of its calls one
after another (`concurrent_broadcast`).

`Seen` is what the handlers have been given: each, from some message on, every message that
is delivered. A handler that is subscribed while the loop of `_deliver` runs gets that message
last, since the iterator comes to it (`Seen.disturb`, `callHandlers_ensures`). Between the
calls that leaves every handler with an end of what is delivered, and none with more than one
before it (`handlers_see_suffixes`).
-/

namespace Gaia.Ipc.Methods

open Prog (Interference Ensures ensures_perform_bind)

variable {η π : Type} {capacity : Nat} {outcome : Outcome η π} {s s' : Shared η π}
  {full done : List (BroadcastMessage π)} {place : Nat} {msg : BroadcastMessage π}

/-! ## What others do -/

/-- The steps of others while a method holds the lock: subscriptions. -/
structure Others (capacity : Nat) (s s' : Shared η π) : Prop where
  object : s'.object = s.object
  called : s'.called = s.called
  handlers : s.handlers <+: s'.handlers
  room : s.handlers.length ≤ capacity → s'.handlers.length ≤ capacity

theorem others_interference (capacity : Nat) :
    Interference (Others capacity : Shared η π → Shared η π → Prop) where
  refl _ := ⟨rfl, rfl, List.prefix_rfl, id⟩
  trans h h' := ⟨h'.object.trans h.object, h'.called.trans h.called, h.handlers.trans h'.handlers,
    h'.room ∘ h.room⟩

/-! ## What the handlers have seen -/

/-- The messages that the handler at a place has been given. -/
def seenAt (s : Shared η π) (place : Nat) : List (BroadcastMessage π) :=
  (s.called.filter fun c => c.1 = place).map Prod.snd

/-- From its start on, each handler has seen the messages of `done`, and those before `place`
the messages of `full`. -/
structure Seen (capacity : Nat) (full done : List (BroadcastMessage π)) (place : Nat)
    (s : Shared η π) : Prop where
  room : s.handlers.length ≤ capacity
  reached : place ≤ s.handlers.length
  starts : ∃ start : Nat → Nat, Monotone start ∧ (∀ j, start j ≤ done.length) ∧
    ∀ j, seenAt s j =
      if j < s.handlers.length then (if j < place then full else done).drop (start j) else []

/-- A handler that is new has seen nothing of `done`. -/
theorem Seen.disturb (hs : Seen capacity full done place s) (ho : Others capacity s s') :
    Seen capacity full done place s' := by
  have hlen := ho.handlers.length_le
  obtain ⟨start, hmono, hle, hseen⟩ := hs.starts
  refine ⟨ho.room hs.room, hs.reached.trans hlen,
    fun j => if j < s.handlers.length then start j else done.length, ?_, ?_, ?_⟩
  · intro i j hij
    dsimp only
    split
    · split
      · exact hmono hij
      · exact hle i
    · rw [if_neg (by omega)]
  · intro j
    dsimp only
    split
    · exact hle j
    · exact le_rfl
  · intro j
    have hsame : seenAt s' j = seenAt s j := by rw [seenAt, seenAt, ho.called]
    rw [hsame, hseen j]
    dsimp only
    by_cases hj : j < s.handlers.length
    · rw [if_pos hj, if_pos hj, if_pos (lt_of_lt_of_le hj hlen)]
    · have hplace : ¬ j < place := fun hlt => hj (lt_of_lt_of_le hlt hs.reached)
      rw [if_neg hj, if_neg hj, if_neg hplace, List.drop_length]
      exact (ite_self _).symm

/-- The handler at `place` is called. -/
theorem Seen.call (hs : Seen capacity (done ++ [msg]) done place s)
    (hplace : place < s.handlers.length) :
    Seen capacity (done ++ [msg]) done (place + 1)
      { s with called := s.called ++ [(place, msg)] } := by
  obtain ⟨start, hmono, hle, hseen⟩ := hs.starts
  refine ⟨hs.room, hplace, start, hmono, hle, fun j => ?_⟩
  have hnow : seenAt { s with called := s.called ++ [(place, msg)] } j =
      seenAt s j ++ if j = place then [msg] else [] := by
    simp only [seenAt, List.filter_append, List.map_append, List.filter_singleton]
    by_cases hj : j = place
    · rw [hj, if_pos rfl, decide_eq_true rfl]
      rfl
    · rw [if_neg hj, decide_eq_false (Ne.symm hj)]
      rfl
  rw [hnow, hseen j]
  dsimp only
  by_cases hj : j = place
  · subst hj
    rw [if_pos rfl, if_pos hplace, if_neg (lt_irrefl j), if_pos hplace, if_pos (Nat.lt_succ_self j),
      List.drop_append_of_le_length (hle j)]
  · rw [if_neg hj, List.append_nil]
    by_cases hlt : j < place
    · rw [if_pos hlt, if_pos (by omega : j < place + 1)]
    · rw [if_neg hlt, if_neg (by omega : ¬ j < place + 1)]

/-- The loop is at the end of the list. -/
theorem Seen.finish (hs : Seen capacity (done ++ [msg]) done place s)
    (hplace : s.handlers.length ≤ place) :
    Seen capacity (done ++ [msg]) (done ++ [msg]) 0 s := by
  obtain ⟨start, hmono, hle, hseen⟩ := hs.starts
  refine ⟨hs.room, Nat.zero_le _, start, hmono, fun j => (hle j).trans ?_, fun j => ?_⟩
  · rw [List.length_append]
    exact Nat.le_add_right ..
  · rw [hseen j]
    by_cases hj : j < s.handlers.length
    · rw [if_pos hj, if_pos hj, if_pos (lt_of_lt_of_le hj hplace), if_neg (Nat.not_lt_zero j)]
    · rw [if_neg hj, if_neg hj]

/-- A message is about to be given to the handlers. -/
theorem Seen.begin (hs : Seen capacity done done 0 s) (object : CausalBroadcast π)
    (full : List (BroadcastMessage π)) : Seen capacity full done 0 { s with object := object } := by
  obtain ⟨start, hmono, hle, hseen⟩ := hs.starts
  refine ⟨hs.room, Nat.zero_le _, start, hmono, hle, fun j => (hseen j).trans ?_⟩
  simp only [Nat.not_lt_zero, if_false]

/-! ## The private methods -/

/-- A method that only reads ends so that others have done what there is to see. -/
def Reads (capacity : Nat) {α : Type} (a : α) (s : Shared η π) (r : Except Left α)
    (s' : Shared η π) : Prop :=
  r = .ok a ∧ Others capacity s s'

theorem allKnown_ensures (outcome : Outcome η π) (capacity : Nat) (s : Shared η π)
    (sender : String) (items : List (String × Int)) :
    (allKnown sender items : SharedProg η π Bool).Ensures (Access.handle outcome capacity)
      (Others capacity)
      (Reads capacity (items.all fun item => item.1 = sender ||
        item.2 ≤ s.object.clock.get item.1 0) s) s := by
  suffices hall : ∀ s₁, Others capacity s s₁ → (allKnown sender items : SharedProg η π Bool).Ensures
      (Access.handle outcome capacity) (Others capacity)
      (Reads capacity (items.all fun item => item.1 = sender ||
        item.2 ≤ s.object.clock.get item.1 0) s) s₁ from
    hall s ((others_interference capacity).refl s)
  induction items with
  | nil => exact fun s₁ h₁ s₂ h₂ => ⟨rfl, (others_interference capacity).trans h₁ h₂⟩
  | cons item items ih =>
    obtain ⟨actor, t⟩ := item
    intro s₁ h₁
    rw [allKnown, List.all_cons]
    by_cases ha : actor = sender
    · rw [if_pos ha, decide_eq_true ha, Bool.true_or, Bool.true_and]
      exact ih s₁ h₁
    · rw [if_neg ha, decide_eq_false ha, Bool.false_or]
      refine ensures_perform_bind fun s₂ h₂ => ⟨_, rfl, ?_⟩
      have h₂ := (others_interference capacity).trans h₁ h₂
      rw [h₂.object]
      by_cases ht : t ≤ s.object.clock.get actor 0
      · rw [if_neg (by omega), decide_eq_true ht, Bool.true_and]
        exact ih s₂ h₂
      · rw [if_pos (by omega), decide_eq_false ht, Bool.false_and]
        exact fun s₃ h₃ => ⟨rfl, (others_interference capacity).trans h₂ h₃⟩

theorem isDeliverable_ensures (outcome : Outcome η π) (capacity : Nat) (s : Shared η π)
    (msg : BroadcastMessage π) :
    (isDeliverable msg).Ensures (Access.handle outcome capacity) (Others capacity)
      (Reads capacity (s.object.isDeliverable msg) s) s := by
  refine ensures_perform_bind fun s₁ h₁ => ⟨_, rfl, ?_⟩
  rw [h₁.object, CausalBroadcast.isDeliverable]
  dsimp only
  split
  · exact fun s₂ h₂ => ⟨rfl, (others_interference capacity).trans h₁ h₂⟩
  · have hall := allKnown_ensures outcome capacity s₁ msg.sourceCore msg.vectorClock.items
    rw [h₁.object] at hall
    exact hall.mono fun r s₂ h₂ => ⟨h₂.1, (others_interference capacity).trans h₁ h₂.2⟩

/-- No handler lets an exception leave that is none of `Exception`. -/
def Contained (outcome : Outcome η π) : Prop :=
  ∀ called handler msg exc, outcome called handler msg ≠ .left exc

/-- The loop over the handlers comes to all of them, the new ones too. -/
theorem callHandlers_ensures (ho : Contained outcome) {rounds place : Nat}
    (hrounds : capacity < rounds + place) (hs : Seen capacity (done ++ [msg]) done place s) :
    (callHandlers msg rounds place : SharedProg η π Unit).Ensures (Access.handle outcome capacity)
      (Others capacity) (fun r s' => r = .ok () ∧ s'.object = s.object ∧
        Seen capacity (done ++ [msg]) (done ++ [msg]) 0 s') s := by
  induction rounds generalizing place s with
  | zero =>
    have hroom := hs.room
    have hreached := hs.reached
    omega
  | succ rounds ih =>
    refine ensures_perform_bind fun s₁ h₁ => ⟨_, rfl, ?_⟩
    have hs₁ := hs.disturb h₁
    cases hh : s₁.handlers[place]? with
    | none =>
      have hend := hs₁.finish (List.getElem?_eq_none_iff.mp hh)
      exact fun s₂ h₂ => ⟨rfl, h₂.object.trans h₁.object, hend.disturb h₂⟩
    | some handler =>
      obtain ⟨hplace, -⟩ := List.getElem?_eq_some_iff.mp hh
      refine ensures_perform_bind fun s₂ h₂ => ⟨_, rfl, ?_⟩
      have hs₂ := (hs₁.disturb h₂).call (lt_of_lt_of_le hplace h₂.handlers.length_le)
      have hnext := ih (by omega) hs₂
      have hobject : s₂.object = s.object := h₂.object.trans h₁.object
      rw [← hobject]
      cases hend : outcome s₂.called handler msg with
      | returned => exact hnext
      | raised exc => exact hnext
      | left exc => exact absurd hend (ho _ _ _ _)

/-- What holds between the calls: each handler has seen an end of what was delivered. -/
def Kept (capacity : Nat) (s : Shared η π) : Prop :=
  Seen capacity s.object.handled s.object.handled 0 s

theorem Kept.disturb (hs : Kept capacity s) (ho : Others capacity s s') : Kept capacity s' := by
  rw [Kept, ho.object]
  exact Seen.disturb hs ho

/-- A change of the object that delivers nothing. -/
theorem Kept.set (hs : Kept capacity s) (object : CausalBroadcast π)
    (ho : object.handled = s.object.handled) : Kept capacity { s with object := object } := by
  rw [Kept]
  dsimp only
  rw [ho]
  exact Seen.begin hs _ _

theorem deliver_ensures (ho : Contained outcome) (hs : Kept capacity s) :
    (deliver capacity msg : SharedProg η π Unit).Ensures (Access.handle outcome capacity)
      (Others capacity) (fun r s' => r = .ok () ∧ s'.object = s.object.deliver msg ∧
        Kept capacity s') s := by
  refine ensures_perform_bind fun s₁ h₁ => ⟨_, rfl, ?_⟩
  refine ensures_perform_bind fun s₂ h₂ => ⟨_, rfl, ?_⟩
  have h₂ : Others capacity s s₂ := (others_interference capacity).trans h₁ h₂
  have hseen := (Seen.disturb hs h₂).begin { s₂.object with
    clock := s₂.object.clock.set msg.sourceCore (max (s₁.object.clock.get msg.sourceCore 0)
      (msg.vectorClock.get msg.sourceCore 0)) } s.object.handled
  refine ensures_perform_bind fun s₃ h₃ => ⟨_, rfl, ?_⟩
  have hseen := (hseen.disturb h₃).begin { s₃.object with
    delivered := s₃.object.delivered ++ [msg.messageId]
    handled := s₃.object.handled ++ [msg] } (s.object.handled ++ [msg])
  -- the object is as after a delivery
  have hobject : ({ s₃.object with
      delivered := s₃.object.delivered ++ [msg.messageId]
      handled := s₃.object.handled ++ [msg] } : CausalBroadcast π) = s.object.deliver msg := by
    have hclock : s₃.object = { s₂.object with
        clock := s₂.object.clock.set msg.sourceCore (max (s₁.object.clock.get msg.sourceCore 0)
          (msg.vectorClock.get msg.sourceCore 0)) } := h₃.object
    rw [hclock, h₂.object, h₁.object]
    rfl
  refine (callHandlers_ensures ho (by omega) hseen).mono fun r s' h => ?_
  obtain ⟨hr, hs', hk⟩ := h
  have hs' : s'.object = s.object.deliver msg := hs'.trans hobject
  refine ⟨hr, hs', ?_⟩
  rw [Kept, hs', CausalBroadcast.deliver_handled]
  exact hk

/-- A pass overwrites the queue. -/
theorem drainPass_withQueue (queue : List (BroadcastMessage π))
    (remaining : List (BroadcastMessage π)) (deliveredAny : Bool) (b : CausalBroadcast π)
    (q : List (BroadcastMessage π)) :
    CausalBroadcast.drainPass queue remaining deliveredAny (b.withQueue q) =
      CausalBroadcast.drainPass queue remaining deliveredAny b := by
  induction queue generalizing remaining deliveredAny b with
  | nil => rfl
  | cons msg queue ih =>
    have hd : (b.withQueue q).isDeliverable msg = b.isDeliverable msg := rfl
    rw [CausalBroadcast.drainPass, CausalBroadcast.drainPass, hd]
    split
    · exact ih _ _ (b.deliver msg)
    · exact ih _ _ b

theorem drainPass_ensures (ho : Contained outcome) (rounds : Nat)
    (remaining : List (BroadcastMessage π)) (deliveredAny : Bool)
    (hrounds : s.object.holdQueue.length ≤ rounds) (hs : Kept capacity s) :
    (drainPass capacity rounds remaining deliveredAny : SharedProg η π Bool).Ensures
      (Access.handle outcome capacity) (Others capacity) (fun r s' =>
        r = .ok (CausalBroadcast.drainPass s.object.holdQueue remaining deliveredAny s.object).2 ∧
        s'.object =
          (CausalBroadcast.drainPass s.object.holdQueue remaining deliveredAny s.object).1 ∧
        Kept capacity s') s := by
  -- the end of a pass, over an empty queue
  have hend : ∀ {s₁ : Shared η π} (remaining : List (BroadcastMessage π)) (deliveredAny : Bool),
      s₁.object.holdQueue = [] → Kept capacity s₁ →
      ((access (.setQueue remaining)).bind fun _ => .ret deliveredAny : SharedProg η π Bool).Ensures
        (Access.handle outcome capacity) (Others capacity) (fun r s' =>
          r = .ok (CausalBroadcast.drainPass s₁.object.holdQueue remaining deliveredAny
            s₁.object).2 ∧
          s'.object = (CausalBroadcast.drainPass s₁.object.holdQueue remaining deliveredAny
            s₁.object).1 ∧ Kept capacity s') s₁ := by
    intro s₁ remaining deliveredAny hq hk
    rw [hq]
    refine ensures_perform_bind fun s₂ h₂ => ⟨_, rfl, fun s₃ h₃ => ⟨rfl, ?_, ?_⟩⟩
    · have hobject : s₃.object = { s₂.object with holdQueue := remaining } := h₃.object
      rw [hobject, h₂.object]
      rfl
    · exact ((hk.disturb h₂).set { s₂.object with holdQueue := remaining } rfl).disturb h₃
  induction rounds generalizing remaining deliveredAny s with
  | zero => exact hend _ _ (List.length_eq_zero_iff.mp (Nat.le_zero.mp hrounds)) hs
  | succ rounds ih =>
    refine ensures_perform_bind fun s₁ h₁ => ⟨_, rfl, ?_⟩
    have hk₁ := hs.disturb h₁
    rw [← h₁.object] at hrounds ⊢
    cases hq : s₁.object.holdQueue with
    | nil =>
      have hdone := hend remaining deliveredAny hq hk₁
      rw [hq] at hdone
      rw [if_pos List.length_nil]
      exact hdone
    | cons msg queue =>
      rw [if_neg (by simp)]
      have hlen : queue.length ≤ rounds := by
        rw [hq, List.length_cons] at hrounds
        omega
      -- what the rest of the pass does, from an object with the rest of the queue
      have hrest : ∀ {s₂ : Shared η π} {b : CausalBroadcast π} {remaining deliveredAny},
          s₂.object = b.withQueue queue → Kept capacity s₂ →
          (drainPass capacity rounds remaining deliveredAny : SharedProg η π Bool).Ensures
            (Access.handle outcome capacity) (Others capacity) (fun r s' =>
              r = .ok (CausalBroadcast.drainPass queue remaining deliveredAny b).2 ∧
              s'.object = (CausalBroadcast.drainPass queue remaining deliveredAny b).1 ∧
              Kept capacity s') s₂ := by
        intro s₂ b remaining deliveredAny hobject hk
        have hqueue : s₂.object.holdQueue = queue := by rw [hobject]; rfl
        have hpass := ih remaining deliveredAny (by rw [hqueue]; exact hlen) hk
        rw [hqueue, hobject, drainPass_withQueue] at hpass
        exact hpass
      refine ensures_perform_bind fun s₂ h₂ => ?_
      have hpop : Access.handle outcome capacity .popLeft s₂ =
          (.ok msg, { s₂ with object := s₂.object.withQueue queue }) := by
        rw [Access.handle, h₂.object]
        simp only [Access.handle, hq]
        rfl
      rw [hpop]
      refine ⟨msg, rfl, ?_⟩
      have hk₂ : Kept capacity { s₂ with object := s₂.object.withQueue queue } :=
        (hk₁.disturb h₂).set _ rfl
      refine (isDeliverable_ensures outcome capacity _ msg).bind_ok (others_interference capacity)
        fun s₃ h₃ => ?_
      have hobject : s₃.object = s₁.object.withQueue queue := by rw [h₃.object, h₂.object]; rfl
      have hd : CausalBroadcast.isDeliverable (s₂.object.withQueue queue) msg =
          s₁.object.isDeliverable msg := by rw [h₂.object]; rfl
      rw [CausalBroadcast.drainPass]
      dsimp only
      rw [hd]
      split
      · refine (deliver_ensures ho (hk₂.disturb h₃)).bind_ok (others_interference capacity)
          fun s₄ h₄ => hrest ?_ h₄.2
        rw [h₄.1, hobject]
        rfl
      · exact hrest hobject (hk₂.disturb h₃)

theorem drain_ensures (ho : Contained outcome) (passes : Nat) (hs : Kept capacity s) :
    (drain capacity passes : SharedProg η π Unit).Ensures (Access.handle outcome capacity)
      (Others capacity) (fun r s' => r = .ok () ∧
        s'.object = CausalBroadcast.drain passes s.object ∧ Kept capacity s') s := by
  induction passes generalizing s with
  | zero => exact fun s' h => ⟨rfl, h.object, hs.disturb h⟩
  | succ passes ih =>
    refine ensures_perform_bind fun s₁ h₁ => ⟨_, rfl, ?_⟩
    rw [← h₁.object]
    refine (drainPass_ensures ho _ [] false (Nat.le_succ _) (hs.disturb h₁)).bind_ok
      (others_interference capacity) fun s₂ h₂ => ?_
    have hdrain : CausalBroadcast.drain (passes + 1) s₁.object =
        if (CausalBroadcast.drainPass s₁.object.holdQueue [] false s₁.object).2 then
          CausalBroadcast.drain passes
            (CausalBroadcast.drainPass s₁.object.holdQueue [] false s₁.object).1
        else (CausalBroadcast.drainPass s₁.object.holdQueue [] false s₁.object).1 := rfl
    rw [hdrain, ← h₂.1]
    split
    · exact ih h₂.2
    · exact fun s₃ h₃ => ⟨rfl, h₃.object, h₂.2.disturb h₃⟩

theorem receiveBody_ensures (ho : Contained outcome) (msg : BroadcastMessage π)
    (hs : Kept capacity s) :
    (BroadcastMethod.receiveBody capacity msg : SharedProg η π Unit).Ensures
      (Access.handle outcome capacity) (Others capacity) (fun r s' => r = .ok () ∧
        s'.object = s.object.receive msg ∧ Kept capacity s') s := by
  rw [BroadcastMethod.receiveBody, CausalBroadcast.receive]
  split
  · exact deliver_ensures ho hs
  · refine ensures_perform_bind fun s₁ h₁ => ⟨_, rfl, ?_⟩
    have hk₁ : Kept capacity { s₁ with object :=
        { s₁.object with holdQueue := s₁.object.holdQueue ++ [msg] } } :=
      (hs.disturb h₁).set _ rfl
    refine ensures_perform_bind fun s₂ h₂ => ⟨_, rfl, ?_⟩
    have hobject : s₂.object = s.object.withQueue (s.object.holdQueue ++ [msg]) := by
      rw [h₂.object, ← h₁.object]
      rfl
    have hdrain := drain_ensures ho (s₂.object.holdQueue.length + 1) (hk₁.disturb h₂)
    rw [hobject] at hdrain
    rw [hobject]
    exact hdrain

theorem sendBody_ensures (kind : String) (payload : π) (traceId uuidHex : String)
    (hs : Kept capacity s) :
    (BroadcastMethod.sendBody kind payload traceId uuidHex : SharedProg η π _).Ensures
      (Access.handle outcome capacity) (Others capacity) (fun r s' => Kept capacity s' ∧
        r = .ok (s.object.outbound kind payload traceId uuidHex) ∧
        s'.object = (s.object.send kind payload traceId uuidHex).1) s := by
  have hR := others_interference (η := η) (π := π) capacity
  refine ensures_perform_bind fun s₁ h₁ => ⟨_, rfl, ?_⟩
  refine ensures_perform_bind fun s₂ h₂ => ⟨_, rfl, ?_⟩
  refine ensures_perform_bind fun s₃ h₃ => ⟨_, rfl, ?_⟩
  refine ensures_perform_bind fun s₄ h₄ => ⟨_, rfl, fun s₅ h₅ => ?_⟩
  have h₂ : Others capacity s s₂ := hR.trans h₁ h₂
  have h₃ : Others capacity s s₃ := hR.trans h₂ h₃
  have hobject : s₄.object = { s.object with clock := s.object.tick } := by
    have hset : s₄.object = { s₃.object with
        clock := s₃.object.clock.set s₁.object.localActor
          (s₂.object.clock.get s₁.object.localActor 0 + 1) } := h₄.object
    rw [hset, h₃.object, h₂.object, h₁.object]
    rfl
  have hkept : Kept capacity s₄ := ((hs.disturb h₃).set { s₃.object with
    clock := s₃.object.clock.set s₁.object.localActor
      (s₂.object.clock.get s₁.object.localActor 0 + 1) } rfl).disturb h₄
  refine ⟨hkept.disturb h₅, ?_, h₅.object.trans hobject⟩
  rw [hobject, h₁.object]
  rfl

/-! ## The threads -/

open Monitor (Reach)

/-- A subscription may fail for want of memory. -/
def NoMemory (e : Left) : Prop := e = memoryError

theorem others_subscribe (outcome : Outcome η π) (handler : η) (s : Shared η π) :
    Others capacity s (Access.handle outcome capacity (.appendHandler handler) s).2 := by
  rw [Access.handle]
  split
  · rename_i hroom
    refine ⟨rfl, rfl, List.prefix_append .., fun _ => ?_⟩
    rw [List.length_append]
    exact hroom
  · exact (others_interference capacity).refl s

/-- Whatever is subscribed meanwhile, the methods do to the object what they do at once, and
leave each handler with an end of what was delivered. -/
theorem broadcast_refines (ho : Contained outcome) : (broadcastMonitor outcome capacity).Refines
    (Others capacity) NoMemory (Kept capacity) Shared.object
    (BroadcastMethod.atOnce (η := η) (π := π)) where
  others := others_interference capacity
  stable h hk := hk.disturb h
  same h := h.object
  body c hl s hs := by
    cases c with
    | send kind payload traceId uuidHex =>
      refine (sendBody_ensures kind payload traceId uuidHex hs).mono fun r s' h => ⟨h.1, ?_⟩
      rw [h.2.1, h.2.2]
      rfl
    | receive msg =>
      refine (receiveBody_ensures ho msg hs).mono fun r s' h => ⟨h.2.2, ?_⟩
      rw [h.1, h.2.1]
      rfl
    | clockSnapshot =>
      intro s₁ h₁ s₂ h₂
      have h₂ : Others capacity s s₂ := (others_interference capacity).trans h₁ h₂
      refine ⟨hs.disturb h₂, ?_⟩
      rw [h₂.object, ← h₁.object]
      rfl
    | holdQueueDepth =>
      intro s₁ h₁ s₂ h₂
      have h₂ : Others capacity s s₂ := (others_interference capacity).trans h₁ h₂
      refine ⟨hs.disturb h₂, ?_⟩
      rw [h₂.object, ← h₁.object]
      rfl
    | subscribe handler => cases hl
  free c hl := by
    cases c with
    | subscribe handler =>
      refine ⟨.appendHandler handler, id, rfl, fun s => ⟨others_subscribe outcome handler s, ?_⟩⟩
      by_cases hroom : s.handlers.length < capacity
      · exact .inl fun t => by
          show _ = ((Access.handle outcome capacity (.appendHandler handler) s).1, t)
          rw [Access.handle, if_pos hroom]
          rfl
      · refine .inr ⟨memoryError, ?_, rfl⟩
        show (Access.handle outcome capacity (.appendHandler handler) s).1 = _
        rw [Access.handle, if_neg hroom]
    | send => cases hl
    | receive => cases hl
    | clockSnapshot => cases hl
    | holdQueueDepth => cases hl

theorem Kept.new (localActor : String) (capacity : Nat) :
    Kept capacity (Shared.new localActor : Shared η π) :=
  ⟨Nat.zero_le _, Nat.zero_le _, fun _ => 0, monotone_const, fun _ => le_rfl, fun _ => rfl⟩

variable {α ι : Type} [DecidableEq ι] {localActor : String}
  {P₀ : Pool (BroadcastMethod η π) BroadcastRes Left α ι}
  {C : Monitor.Config (BroadcastMethod η π) BroadcastRes (Access η π) AccessRes Left α
    (Shared η π) ι}

/-- Whenever the lock is free, the threads have called the object one after another: what they
have got between two calls, and the object, are those of that sequence of calls, whatever was
subscribed meanwhile. -/
theorem concurrent_broadcast (ho : Contained outcome)
    (hr : Reach (broadcastMonitor outcome capacity) P₀ (.new localActor) C)
    (hfree : C.owner = none) :
    ∃ t P, Pool.Traced BroadcastMethod.atOnce NoMemory P₀ (.new localActor) t P C.state.object ∧
      ∀ i p, C.workers i = .outside p → P i = p :=
  (hr.refines (broadcast_refines ho) (Kept.new localActor capacity) hfree).2

/-- One thread subscribes and another receives a message, on one object. -/
def subscribeAndReceive : Pool (BroadcastMethod Unit Unit) BroadcastRes Left Unit (Fin 2) :=
  fun i =>
    if i = 0 then .call (.subscribe ()) Prog.lift
    else .call (.receive ⟨"bc_1", "core", "health", (), .single "core" 1, "", []⟩) Prog.lift

/-- Handlers that return. -/
def quiet : Outcome Unit Unit := fun _ _ _ => .returned

theorem quiet_contained : Contained quiet := by
  intro called handler msg exc h
  cases h

theorem subscribe_and_receive : ∃ t P b,
    Pool.Traced BroadcastMethod.atOnce NoMemory subscribeAndReceive (.new "local") t P b ∧
      ∀ i, ∃ r, P i = Prog.lift r := by
  obtain ⟨C, hr, hend⟩ := Monitor.exists_ended (broadcastMonitor quiet 8)
    subscribeAndReceive (.new "local")
  obtain ⟨t, P, ht, hout⟩ := concurrent_broadcast quiet_contained hr
    (hr.held.free_of_outside fun i => (hend i).imp' _ fun _ => id)
  refine ⟨t, P, _, ht, fun i => ?_⟩
  obtain ⟨r, hi⟩ := hend i
  exact ⟨r, hout i _ hi⟩

/-- Whenever the lock is free, each handler has been given, from some message on, all that was
delivered, each message once and in that order; and a handler that was subscribed before
another has been given all that the other has. -/
theorem handlers_see_suffixes (ho : Contained outcome)
    (hr : Reach (broadcastMonitor outcome capacity) P₀ (.new localActor) C)
    (hfree : C.owner = none) :
    (∀ j < C.state.handlers.length, seenAt C.state j <:+ C.state.object.handled) ∧
    (∀ i j, i ≤ j → j < C.state.handlers.length → seenAt C.state j <:+ seenAt C.state i) ∧
    ∀ j, C.state.handlers.length ≤ j → seenAt C.state j = [] := by
  obtain ⟨-, -, start, hmono, -, hseen⟩ :=
    (hr.refines (broadcast_refines ho) (Kept.new localActor capacity) hfree).1
  have hat : ∀ j < C.state.handlers.length,
      seenAt C.state j = C.state.object.handled.drop (start j) := by
    intro j hj
    rw [hseen j, if_pos hj, if_neg (Nat.not_lt_zero j)]
  refine ⟨fun j hj => ?_, fun i j hij hj => ?_, fun j hj => ?_⟩
  · rw [hat j hj]
    exact List.drop_suffix ..
  · rw [hat j hj, hat i (by omega), ← Nat.add_sub_of_le (hmono hij), ← List.drop_drop]
    exact List.drop_suffix ..
  · rw [hseen j, if_neg (by omega)]

theorem subscribe_and_see : ∃ C, Reach (broadcastMonitor quiet 8)
    subscribeAndReceive (.new "local") C ∧
      ∀ j < C.state.handlers.length, seenAt C.state j <:+ C.state.object.handled := by
  obtain ⟨C, hr, hend⟩ := Monitor.exists_ended (broadcastMonitor quiet 8)
    subscribeAndReceive (.new "local")
  exact ⟨C, hr, (handlers_see_suffixes quiet_contained hr
    (hr.held.free_of_outside fun i => (hend i).imp' _ fun _ => id)).1⟩

end Gaia.Ipc.Methods
