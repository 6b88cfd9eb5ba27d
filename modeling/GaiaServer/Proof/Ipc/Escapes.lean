import GaiaServer.Proof.Ipc.Passes

/-!
# Exceptions that leave a delivery

When an exception leaves a pass of the drain loop, what is delivered, what the pass has
set aside and what it has not popped yet are together the queue and the received message
(`Leaves.perm`). The queue is left with what is not popped: what was set aside is in the
local `remaining` and gone. So no message is lost exactly if nothing but duplicates was
set aside (`keepsMessages_iff`); among messages with identifiers of their own, if nothing
was (`asideDuplicates_iff_of_nodup`).
-/

namespace Gaia.Ipc

open scoped List

variable {η σ π : Type} {behave : Behaviour η σ π} {rounds : Nat}

namespace Subscribed

variable {n s t u : Subscribed η σ π} {msg : BroadcastMessage π}
  {queue delivered aside rest : List (BroadcastMessage π)} {stop : Stop} {exc : ExitExc}

/-! ## What was delivered by then -/

/-- The message whose delivery does not come to its end is delivered. -/
theorem Escapes.perm (h : Escapes behave rounds n queue delivered aside rest stop t) :
    t.object.delivered = n.object.delivered ++ delivered.map (·.messageId) ∧
      (delivered ++ (aside ++ rest)).Perm queue := by
  obtain ⟨popped, before, m, t₁, rfl, rfl, hs, -, hr⟩ := h
  have ho : t.object = t₁.object.deliver m := by rw [← deliver_object, hr]
  refine ⟨?_, ?_⟩
  · rw [ho, CausalBroadcast.deliver_delivered, hs.delivered_eq]
    simp
  · calc before ++ [m] ++ (aside ++ rest)
        = before ++ m :: (aside ++ rest) := by simp
      _ ~ m :: (before ++ (aside ++ rest)) := List.perm_middle
      _ = m :: ((before ++ aside) ++ rest) := by rw [List.append_assoc]
      _ ~ m :: (popped ++ rest) := (hs.perm.symm.append_right rest).cons m
      _ ~ popped ++ m :: rest := List.perm_middle.symm

/-- While `receive(msg)` drains the queue, the exception `exc` leaves the delivery of the
last of `delivered`, which ends in `t`: the running pass has set `aside` aside, and `rest`
is not popped by then. -/
def Leaves (behave : Behaviour η σ π) (rounds : Nat) (n : Subscribed η σ π)
    (msg : BroadcastMessage π) (delivered aside rest : List (BroadcastMessage π))
    (exc : ExitExc) (t : Subscribed η σ π) : Prop :=
  ∃ earlier last s, delivered = earlier ++ last ∧ Passes behave rounds (n.enqueue msg) earlier s ∧
    Escapes behave rounds s s.object.holdQueue last aside rest (.left exc) t

/-- What is delivered, set aside and not popped is the queue and the received message. -/
theorem Leaves.perm (h : Leaves behave rounds n msg delivered aside rest exc t) :
    t.object.delivered = n.object.delivered ++ delivered.map (·.messageId) ∧
      (delivered ++ (aside ++ rest)).Perm (n.object.holdQueue ++ [msg]) := by
  obtain ⟨earlier, last, s, rfl, hpasses, he⟩ := h
  obtain ⟨hd, hp⟩ := hpasses.perm
  obtain ⟨hd', hp'⟩ := he.perm
  refine ⟨?_, ?_⟩
  · rw [hd', hd, List.map_append, List.append_assoc]
    rfl
  · rw [List.append_assoc]
    exact (hp'.append_left earlier).trans hp

theorem receive_error_iff (hk : msg.isHealth = false) :
    n.receive behave rounds msg = (.error (.left exc), u) ↔
      ∃ delivered aside rest t, Leaves behave rounds n msg delivered aside rest exc t ∧
        u = t.withQueue rest := by
  have hr : n.receive behave rounds msg = (n.enqueue msg).tryDeliverBuffered behave rounds := by
    rw [receive, if_neg (by simp [hk])]
  rw [hr, tryDeliverBuffered_iff]
  constructor
  · intro h
    obtain ⟨_, passes, s, _, hg, hl⟩ := h
    obtain ⟨earlier, hpasses⟩ := passes_of_goes hg
    obtain ⟨last, aside, rest, t, he, hu⟩ := pass_error_iff.mp hl
    exact ⟨earlier ++ last, aside, rest, t, ⟨earlier, last, s, rfl, hpasses, he⟩, hu⟩
  · intro h
    obtain ⟨delivered, aside, rest, t, ⟨earlier, last, s, -, hpasses, he⟩, hu⟩ := h
    obtain ⟨passes, hg, -⟩ := hpasses.goes
    exact ⟨passes + 1, passes, s, rfl, hg, pass_error_iff.mpr ⟨last, aside, rest, t, he, hu⟩⟩

/-! ## What is lost -/

/-- After a call that ends with an exception, every message that was held, and the
received one, is delivered or still held. -/
def KeepsMessages (behave : Behaviour η σ π) (n : Subscribed η σ π) (msg : BroadcastMessage π) :
    Prop :=
  ∀ rounds exc u, n.receive behave rounds msg = (.error (.left exc), u) →
    ∀ m ∈ n.object.holdQueue ++ [msg],
      m.messageId ∈ u.object.delivered ∨ m ∈ u.object.holdQueue

/-- A message with the identifier of `m` was delivered before the call, or is among those
of the call, or `m` is in the queue once more. -/
def Duplicate (n : Subscribed η σ π) (delivered rest : List (BroadcastMessage π))
    (m : BroadcastMessage π) : Prop :=
  m.messageId ∈ n.object.delivered ∨ m.messageId ∈ delivered.map (·.messageId) ∨ m ∈ rest

/-- Whenever an exception leaves a delivery, the pass has set nothing aside but
duplicates. -/
def AsideDuplicates (behave : Behaviour η σ π) (n : Subscribed η σ π)
    (msg : BroadcastMessage π) : Prop :=
  ∀ rounds delivered aside rest exc t, Leaves behave rounds n msg delivered aside rest exc t →
    ∀ m ∈ aside, Duplicate n delivered rest m

theorem keepsMessages_health (hk : msg.isHealth = true) : KeepsMessages behave n msg := by
  intro rounds exc u hr m hm
  rw [receive, if_pos hk] at hr
  have ho : u.object = n.object.deliver msg := by rw [← deliver_object, hr]
  rw [ho]
  rcases List.mem_append.mp hm with hm | hm
  · exact .inr hm
  · rw [List.mem_singleton.mp hm, CausalBroadcast.deliver_delivered]
    exact .inl (by simp)

theorem keepsMessages_causal (hk : msg.isHealth = false) :
    KeepsMessages behave n msg ↔ AsideDuplicates behave n msg := by
  constructor
  · intro h rounds delivered aside rest exc t hl m hm
    obtain ⟨hd, hp⟩ := hl.perm
    have hmem : m ∈ n.object.holdQueue ++ [msg] := hp.subset (by simp [hm])
    have hleft := (receive_error_iff hk).mpr ⟨delivered, aside, rest, t, hl, rfl⟩
    rcases h rounds exc _ hleft m hmem with hdel | hq
    · rw [withQueue_object, CausalBroadcast.withQueue_delivered, hd, List.mem_append] at hdel
      exact hdel.elim .inl fun hnow => .inr (.inl hnow)
    · exact .inr (.inr hq)
  · intro h rounds exc u hr m hm
    obtain ⟨delivered, aside, rest, t, hl, rfl⟩ := (receive_error_iff hk).mp hr
    obtain ⟨hd, hp⟩ := hl.perm
    rw [withQueue_object, CausalBroadcast.withQueue_delivered, hd, List.mem_append]
    rcases List.mem_append.mp (hp.symm.subset hm) with hnow | hleft
    · exact .inl (.inr (List.mem_map_of_mem hnow))
    · rcases List.mem_append.mp hleft with haside | hrest
      · rcases h rounds delivered aside rest exc t hl m haside with hold | hnow | hrest
        · exact .inl (.inl hold)
        · exact .inl (.inr hnow)
        · exact .inr hrest
      · exact .inr hrest

/-- An exception that leaves `receive` loses no message exactly if the message is a health
message, or nothing but duplicates was set aside. -/
theorem keepsMessages_iff (behave : Behaviour η σ π) (n : Subscribed η σ π)
    (msg : BroadcastMessage π) :
    KeepsMessages behave n msg ↔ msg.isHealth = true ∨ AsideDuplicates behave n msg := by
  cases hk : msg.isHealth with
  | true => exact iff_of_true (keepsMessages_health hk) (.inl rfl)
  | false =>
    rw [keepsMessages_causal hk]
    simp

/-- Among messages with identifiers of their own, that is: a pass that an exception leaves
has set nothing aside. -/
theorem asideDuplicates_iff_of_nodup
    (hids : ((n.object.holdQueue ++ [msg]).map (·.messageId)).Nodup)
    (hnew : ∀ m ∈ n.object.holdQueue ++ [msg], m.messageId ∉ n.object.delivered) :
    AsideDuplicates behave n msg ↔ ∀ rounds delivered aside rest exc t,
      Leaves behave rounds n msg delivered aside rest exc t → aside = [] := by
  constructor
  · intro h rounds delivered aside rest exc t hl
    have hp := hl.perm.2
    have hnodup := (hp.map (·.messageId)).nodup_iff.mpr hids
    rw [List.map_append, List.map_append, List.nodup_append, List.nodup_append] at hnodup
    obtain ⟨-, ⟨-, -, hrest⟩, hnow⟩ := hnodup
    refine List.eq_nil_iff_forall_not_mem.mpr fun m hm => ?_
    have hid := List.mem_map_of_mem (f := (·.messageId)) hm
    rcases h rounds delivered aside rest exc t hl m hm with hold | hsent | hq
    · exact hnew m (hp.subset (by simp [hm])) hold
    · exact hnow _ hsent _ (List.mem_append_left _ hid) rfl
    · exact hrest _ hid _ (List.mem_map_of_mem hq) rfl
  · intro h rounds delivered aside rest exc t hl m hm
    rw [h rounds delivered aside rest exc t hl] at hm
    exact absurd hm List.not_mem_nil

/-- A handler that exits. -/
def exiting : Behaviour Unit Unit Unit := fun _ _ outside =>
  { ended := .left ⟨.systemExit, "1"⟩, outside }

/-- An object that holds a message whose predecessors are missing. -/
def waiting : Subscribed Unit Unit Unit where
  object := (CausalBroadcast.new "p").withQueue [numbered 4]
  handlers := [()]
  outside := ()

/-- The exception leaves the delivery of the first message of `q`; the fourth, which the
pass has set aside, is neither delivered nor held. -/
theorem aside_lost :
    (waiting.receive exiting 1 (numbered 1)).1 = .error (.left ⟨.systemExit, "1"⟩) ∧
      ¬ KeepsMessages exiting waiting (numbered 1) := by
  have hr : waiting.receive exiting 1 (numbered 1) = (.error (.left ⟨.systemExit, "1"⟩),
      (waiting.receive exiting 1 (numbered 1)).2) := rfl
  refine ⟨congrArg Prod.fst hr, fun h => ?_⟩
  have hm := h 1 _ _ hr (numbered 4) (by decide)
  revert hm
  decide

end Subscribed

end Gaia.Ipc
