import GaiaServer.Impl.Ipc.Reentry
import GaiaServer.Proof.Ipc.Drain

/-!
# Handlers that deadlock the object

The lock is held while handlers are called, and it is not reentrant: the first delivery
to a handler that calls a method of the object blocks the thread for good
(`deadlocks_deliver`). If the handlers call nothing, the calls of `receive` run to their
end and leave what the model without a lock leaves (`receives_silent`), and if nothing
is delivered, no handler is called (`receive_idle`). So a sequence of calls is free of
deadlock exactly in these two cases (`no_deadlock_iff`).
-/

namespace Gaia.Ipc

namespace Reentry

open Thread (Reaches Blocked not_deadlocks_nil deadlocks_of_blocked deadlocks_iff_of_reaches)

variable {π : Type} {handlers : List (List (Op π))} {b : CausalBroadcast π}
  {msg : BroadcastMessage π} {held : Bool} {todo : List (Command (Action π))}

/-! ## The calls of the handlers -/

theorem handlerCalls_cases (handlers : List (List (Op π))) :
    ((∀ program ∈ handlers, program = []) ∧ handlerCalls handlers = []) ∨
      ((∃ program ∈ handlers, program ≠ []) ∧
        ∃ rest, handlerCalls handlers = .acquire :: rest) := by
  induction handlers with
  | nil => exact .inl ⟨fun _ h => absurd h List.not_mem_nil, rfl⟩
  | cons program handlers ih =>
    cases program with
    | cons op ops => exact .inr ⟨⟨op :: ops, List.mem_cons_self, List.cons_ne_nil _ _⟩, _, rfl⟩
    | nil =>
      have hcalls : handlerCalls ([] :: handlers) = handlerCalls handlers := rfl
      rw [hcalls]
      refine ih.imp (And.imp_left fun h => ?_) (And.imp_left fun h => ?_)
      · exact List.forall_mem_cons.mpr ⟨rfl, h⟩
      · obtain ⟨program, hmem, hne⟩ := h
        exact ⟨program, List.mem_cons_of_mem _ hmem, hne⟩

/-- A delivery to a handler that uses the object blocks the thread. -/
theorem deadlocks_deliver (h : ∃ rest, handlerCalls handlers = .acquire :: rest) :
    Thread.Deadlocks (exec handlers) ⟨b, true, .act (.deliver msg) :: todo⟩ := by
  obtain ⟨rest, hr⟩ := h
  have hstep : Thread.step (exec handlers) ⟨b, true, .act (.deliver msg) :: todo⟩ =
      some ⟨b.deliver msg, true, handlerCalls handlers ++ todo⟩ := rfl
  refine (deadlocks_iff_of_reaches (.of_step hstep)).mpr (deadlocks_of_blocked ⟨rfl, ?_⟩)
  exact ⟨rest ++ todo, by rw [hr]; rfl⟩

/-- A delivery to handlers that call nothing. -/
theorem reaches_deliver (h : handlerCalls handlers = []) :
    Reaches (exec handlers) ⟨b, held, .act (.deliver msg) :: todo⟩ ⟨b.deliver msg, held, todo⟩ := by
  refine .of_step ?_
  rw [Thread.step, exec, h]
  rfl

/-! ## The drain -/

variable {queue remaining : List (BroadcastMessage π)} {deliveredAny : Bool}

theorem exec_drain_cons :
    exec handlers (.drain remaining deliveredAny) (setQueue b (msg :: queue)) =
    if b.isDeliverable msg then
      (setQueue b queue, [.act (.deliver msg), .act (.drain remaining true)])
    else (setQueue b queue, [.act (.drain (remaining ++ [msg]) deliveredAny)]) := rfl

theorem exec_drain_nil : exec handlers (.drain remaining deliveredAny) (setQueue b []) =
    (setQueue b remaining, if deliveredAny then [.act (.drain [] false)] else []) := rfl

theorem reaches_pop (hd : b.isDeliverable msg = true) :
    Reaches (exec handlers)
      ⟨setQueue b (msg :: queue), held, .act (.drain remaining deliveredAny) :: todo⟩
      ⟨setQueue b queue, held, .act (.deliver msg) :: .act (.drain remaining true) :: todo⟩ := by
  refine .of_step ?_
  rw [Thread.step, exec_drain_cons, if_pos hd]
  rfl

theorem reaches_hold (hd : b.isDeliverable msg = false) :
    Reaches (exec handlers)
      ⟨setQueue b (msg :: queue), held, .act (.drain remaining deliveredAny) :: todo⟩
      ⟨setQueue b queue, held, .act (.drain (remaining ++ [msg]) deliveredAny) :: todo⟩ := by
  refine .of_step ?_
  rw [Thread.step, exec_drain_cons, if_neg (by simp [hd])]
  rfl

theorem reaches_end :
    Reaches (exec handlers) ⟨setQueue b [], held, .act (.drain remaining deliveredAny) :: todo⟩
      ⟨setQueue b remaining, held,
        (if deliveredAny then [.act (.drain [] false)] else []) ++ todo⟩ := by
  refine .of_step ?_
  rw [Thread.step, exec_drain_nil]

/-- Where something in the queue is deliverable, the drain comes to a delivery. -/
theorem deadlocks_drain (h : ∃ rest, handlerCalls handlers = .acquire :: rest)
    (hq : ∃ m ∈ queue, b.isDeliverable m = true) :
    Thread.Deadlocks (exec handlers)
      ⟨setQueue b queue, true, .act (.drain remaining deliveredAny) :: todo⟩ := by
  induction queue generalizing remaining with
  | nil =>
    obtain ⟨m, hm, -⟩ := hq
    exact absurd hm List.not_mem_nil
  | cons msg queue ih =>
    cases hd : b.isDeliverable msg with
    | true => exact (deadlocks_iff_of_reaches (reaches_pop hd)).mpr (deadlocks_deliver h)
    | false =>
      refine (deadlocks_iff_of_reaches (reaches_hold hd)).mpr (ih ?_)
      obtain ⟨m, hm, hdm⟩ := hq
      rcases List.mem_cons.mp hm with rfl | hm
      · rw [hd] at hdm
        cases hdm
      · exact ⟨m, hm, hdm⟩

/-- Where nothing in the queue is deliverable, the drain leaves all as it is. -/
theorem reaches_idle (hq : ∀ m ∈ queue, b.isDeliverable m = false) :
    Reaches (exec handlers) ⟨setQueue b queue, held, .act (.drain remaining false) :: todo⟩
      ⟨setQueue b (remaining ++ queue), held, todo⟩ := by
  induction queue generalizing remaining with
  | nil =>
    rw [List.append_nil]
    exact reaches_end
  | cons msg queue ih =>
    obtain ⟨hd, hrest⟩ := List.forall_mem_cons.mp hq
    have hgo : Reaches (exec handlers)
        ⟨setQueue b queue, held, .act (.drain (remaining ++ [msg]) false) :: todo⟩
        ⟨setQueue b (remaining ++ [msg] ++ queue), held, todo⟩ := ih hrest
    rw [List.append_assoc] at hgo
    exact (reaches_hold hd).trans hgo

/-- With handlers that call nothing, one pass is that of the model without a lock. -/
theorem reaches_drainPass (h : handlerCalls handlers = []) :
    Reaches (exec handlers)
      ⟨setQueue b queue, held, .act (.drain remaining deliveredAny) :: todo⟩
      ⟨(CausalBroadcast.drainPass queue remaining deliveredAny b).1, held,
        (if (CausalBroadcast.drainPass queue remaining deliveredAny b).2 then
          [.act (.drain [] false)] else []) ++ todo⟩ := by
  induction queue generalizing remaining deliveredAny b with
  | nil => exact reaches_end
  | cons msg queue ih =>
    rw [CausalBroadcast.drainPass]
    by_cases hd : b.isDeliverable msg = true
    · rw [if_pos hd]
      exact (reaches_pop hd).trans ((reaches_deliver h).trans (ih (b := b.deliver msg)))
    · rw [if_neg hd]
      exact (reaches_hold (Bool.eq_false_iff.mpr hd)).trans ih

theorem reaches_drain (h : handlerCalls handlers = []) {fuel : Nat}
    (hfuel : b.holdQueue.length < fuel) :
    Reaches (exec handlers) ⟨b, held, .act (.drain [] false) :: todo⟩
      ⟨b.drain fuel, held, todo⟩ := by
  induction fuel generalizing b with
  | zero => exact absurd hfuel (Nat.not_lt_zero _)
  | succ fuel ih =>
    have hpass : Reaches (exec handlers) ⟨b, held, .act (.drain [] false) :: todo⟩
        ⟨(CausalBroadcast.drainPass b.holdQueue [] false b).1, held,
          (if (CausalBroadcast.drainPass b.holdQueue [] false b).2 then
            [.act (.drain [] false)] else []) ++ todo⟩ := reaches_drainPass h
    obtain ⟨msgs, rest, t, -, he, hp, -⟩ :=
      CausalBroadcast.drainPass_spec b.holdQueue [] false b
    rw [CausalBroadcast.drain]
    rw [he] at hpass ⊢
    refine hpass.trans ?_
    cases msgs with
    | nil => exact .refl
    | cons m ms =>
      have hlen := hp.length_eq
      simp only [List.length_append, List.length_cons] at hlen
      exact ih (b := t.withQueue rest) (by simp only [CausalBroadcast.withQueue_holdQueue]; omega)

/-! ## `receive` -/

/-- `receive` takes the lock and enters its body. -/
theorem reaches_body : Reaches (exec handlers) ⟨b, false, (Op.receive msg).commands ++ todo⟩
    ⟨b, true, .act (.body (.receive msg)) :: .release :: todo⟩ :=
  .of_step rfl

theorem reaches_release : Reaches (exec handlers) ⟨b, held, .release :: todo⟩ ⟨b, false, todo⟩ :=
  .of_step rfl

theorem reaches_health (hk : msg.isHealth = true) :
    Reaches (exec handlers) ⟨b, held, .act (.body (.receive msg)) :: todo⟩
      ⟨b, held, .act (.deliver msg) :: todo⟩ := by
  refine .of_step ?_
  rw [Thread.step, exec, if_pos hk]
  rfl

theorem reaches_enqueue (hk : msg.isHealth = false) :
    Reaches (exec handlers) ⟨b, held, .act (.body (.receive msg)) :: todo⟩
      ⟨setQueue b (b.holdQueue ++ [msg]), held, .act (.drain [] false) :: todo⟩ := by
  refine .of_step ?_
  rw [Thread.step, exec, if_neg (by simp [hk])]
  rfl

/-- With handlers that call nothing, `receive` is that of the model without a lock. -/
theorem receive_silent (h : handlerCalls handlers = []) :
    Reaches (exec handlers) ⟨b, false, (Op.receive msg).commands ++ todo⟩
      ⟨b.receive msg, false, todo⟩ := by
  refine reaches_body.trans ?_
  cases hk : msg.isHealth with
  | true =>
    rw [CausalBroadcast.receive_health hk]
    exact (reaches_health hk).trans ((reaches_deliver h).trans reaches_release)
  | false =>
    have hr : b.receive msg = (setQueue b (b.holdQueue ++ [msg])).tryDeliverBuffered := by
      rw [CausalBroadcast.receive, if_neg (by simp [hk])]
      rfl
    rw [hr]
    exact (reaches_enqueue hk).trans
      ((reaches_drain h (Nat.lt_succ_self _)).trans reaches_release)

/-- The calls of `receive` with handlers that call nothing. -/
theorem receives_silent (h : handlerCalls handlers = []) (msgs : List (BroadcastMessage π)) :
    Reaches (exec handlers) (receives b msgs) ⟨b.receiveAll msgs, false, []⟩ := by
  induction msgs generalizing b with
  | nil => exact .refl
  | cons msg msgs ih => exact (receive_silent h).trans ih

/-! ## Sequences of calls -/

/-- `receive` is called with a message that it does not deliver, and does not deliver
another. -/
def DeliversNothing (b : CausalBroadcast π) (msg : BroadcastMessage π) : Prop :=
  msg.isHealth = false ∧ ∀ m ∈ b.holdQueue ++ [msg], b.isDeliverable m = false

theorem receive_idle (h : DeliversNothing b msg) :
    Reaches (exec handlers) ⟨b, false, (Op.receive msg).commands ++ todo⟩
      ⟨setQueue b (b.holdQueue ++ [msg]), false, todo⟩ :=
  reaches_body.trans ((reaches_enqueue h.1).trans ((reaches_idle h.2).trans reaches_release))

theorem deadlocks_receive (hcalls : ∃ rest, handlerCalls handlers = .acquire :: rest)
    (h : ¬ DeliversNothing b msg) :
    Thread.Deadlocks (exec handlers) ⟨b, false, (Op.receive msg).commands ++ todo⟩ := by
  refine (deadlocks_iff_of_reaches reaches_body).mpr ?_
  cases hk : msg.isHealth with
  | true => exact (deadlocks_iff_of_reaches (reaches_health hk)).mpr (deadlocks_deliver hcalls)
  | false =>
    have hdel : ∃ m ∈ b.holdQueue ++ [msg], b.isDeliverable m = true := by
      by_contra hno
      refine h ⟨hk, fun m hm => Bool.eq_false_iff.mpr fun hd => ?_⟩
      exact hno ⟨m, hm, hd⟩
    exact (deadlocks_iff_of_reaches (reaches_enqueue hk)).mpr (deadlocks_drain hcalls hdel)

/-- At the clock of `b`, none of the messages is delivered when it is received, nor a held
one by then. -/
def NothingDelivered (b : CausalBroadcast π) (msgs : List (BroadcastMessage π)) : Prop :=
  ∀ msg ∈ msgs, msg.isHealth = false ∧ b.isDeliverable msg = false ∧
    ∀ m ∈ b.holdQueue, b.isDeliverable m = false

theorem nothingDelivered_cons {msgs : List (BroadcastMessage π)} :
    NothingDelivered b (msg :: msgs) ↔
      DeliversNothing b msg ∧ NothingDelivered (setQueue b (b.holdQueue ++ [msg])) msgs := by
  have hqueue : (∀ m ∈ b.holdQueue ++ [msg], b.isDeliverable m = false) ↔
      b.isDeliverable msg = false ∧ ∀ m ∈ b.holdQueue, b.isDeliverable m = false := by
    rw [List.forall_mem_append, List.forall_mem_singleton, and_comm]
  have hheld : ∀ m, (setQueue b (b.holdQueue ++ [msg])).isDeliverable m = b.isDeliverable m :=
    fun _ => rfl
  have hset : (setQueue b (b.holdQueue ++ [msg])).holdQueue = b.holdQueue ++ [msg] := rfl
  simp only [NothingDelivered, DeliversNothing, List.forall_mem_cons, hheld, hset, hqueue]
  constructor
  · intro h
    refine ⟨h.1, fun m hm => ⟨(h.2 m hm).1, (h.2 m hm).2.1, h.1.2⟩⟩
  · intro h
    refine ⟨h.1, fun m hm => ⟨(h.2 m hm).1, (h.2 m hm).2.1, h.1.2.2⟩⟩

/-- With a handler that uses the object, the calls deadlock unless nothing is delivered. -/
theorem deadlocks_iff_of_calls (hcalls : ∃ rest, handlerCalls handlers = .acquire :: rest)
    (msgs : List (BroadcastMessage π)) :
    Deadlocks handlers b msgs ↔ ¬ NothingDelivered b msgs := by
  induction msgs generalizing b with
  | nil => exact iff_of_false not_deadlocks_nil fun h => h fun _ hm => absurd hm List.not_mem_nil
  | cons msg msgs ih =>
    rw [nothingDelivered_cons]
    by_cases hn : DeliversNothing b msg
    · rw [and_iff_right hn, ← ih]
      exact deadlocks_iff_of_reaches (receive_idle hn)
    · exact iff_of_true (deadlocks_receive hcalls hn) fun h => hn h.1

/-- The calls of `receive` never deadlock exactly if no handler uses the object, or they
deliver nothing. -/
theorem no_deadlock_iff (handlers : List (List (Op π))) (b : CausalBroadcast π)
    (msgs : List (BroadcastMessage π)) :
    ¬ Deadlocks handlers b msgs ↔
      (∀ program ∈ handlers, program = []) ∨ NothingDelivered b msgs := by
  rcases handlerCalls_cases handlers with ⟨hnone, hcalls⟩ | ⟨hsome, hcalls⟩
  · refine iff_of_true ?_ (.inl hnone)
    rw [Deadlocks, deadlocks_iff_of_reaches (receives_silent hcalls msgs)]
    exact not_deadlocks_nil
  · rw [deadlocks_iff_of_calls hcalls, not_not]
    refine (or_iff_right fun hnone => ?_).symm
    obtain ⟨program, hmem, hne⟩ := hsome
    exact hne (hnone program hmem)

/-- A handler that answers with a message of its own. -/
def answering : List (Op Unit) := [.send "control" () "" "1"]

/-- The question of `q`. -/
def question : BroadcastMessage Unit where
  messageId := "bc_0"
  sourceCore := "q"
  kind := "control"
  payload := ()
  vectorClock := .single "q" 1

/-- The answer to the first message that `p` receives blocks `p` for good. -/
theorem answer_deadlocks :
    ¬ ∀ (handlers : List (List (Op Unit))) (localActor : String)
      (msgs : List (BroadcastMessage Unit)), ¬ Deadlocks handlers (.new localActor) msgs := by
  intro h
  have hcalls : ∃ rest, handlerCalls [answering] = .acquire :: rest := ⟨_, rfl⟩
  have hdel : ¬ NothingDelivered (CausalBroadcast.new "p") [question] := by
    intro hn
    obtain ⟨-, hd, -⟩ := hn question List.mem_cons_self
    revert hd
    decide
  exact h [answering] "p" [question] ((deadlocks_iff_of_calls hcalls [question]).mpr hdel)

end Reentry

end Gaia.Ipc
