import GaiaServer.Proof.Ipc.Convergence

/-!
# Dead messages in the hold queue

A held message can be delivered only while its counter is ahead of the clock entry of
its source, and the queue drops no message but by delivering it. A copy of a message
delivered or held, an actor's own message sent back to it, or a message that a health
message has overtaken is held for good (`duplicate_stays`). In a run in which no such
message arrives (`CleanRun`), every held message is ahead of the clock, and an actor
that has received all messages holds none (`hold_queue_waiting`).
-/

namespace Gaia.Ipc

open Function (update)

variable {ι π : Type} {G : Group ι}

namespace CausalBroadcast

variable {b : CausalBroadcast π} {msg : BroadcastMessage π}

/-- Every held message is ahead of the clock. -/
def Alive (b : CausalBroadcast π) : Prop := ∀ m ∈ b.holdQueue, b.time m.sourceCore < m.counter

/-- The message is news: a causal message ahead of the clock, of which no copy is held;
or a health message that overtakes no held message of its source, and is not the last
that a held message waits for. -/
def News (b : CausalBroadcast π) (msg : BroadcastMessage π) : Prop :=
  if msg.isHealth then
    (∀ m ∈ b.holdQueue, m.sourceCore = msg.sourceCore → msg.counter < m.counter) ∧
      b.EndsNoWait (.receive msg)
  else b.time msg.sourceCore < msg.counter ∧ msg ∉ b.holdQueue

theorem news_iff_of_health (hk : msg.isHealth = true) : b.News msg ↔
    (∀ m ∈ b.holdQueue, m.sourceCore = msg.sourceCore → msg.counter < m.counter) ∧
      b.EndsNoWait (.receive msg) := by
  rw [News, if_pos hk]

theorem news_iff_of_causal (hk : msg.isHealth = false) :
    b.News msg ↔ b.time msg.sourceCore < msg.counter ∧ msg ∉ b.holdQueue := by
  rw [News, if_neg (by simp [hk])]

theorem Alive.receive_health (h : b.Alive) (hk : msg.isHealth = true) (hn : b.News msg) :
    (b.receive msg).Alive := by
  rw [news_iff_of_health hk] at hn
  rw [CausalBroadcast.receive_health hk]
  intro m hm
  have hm : m ∈ b.holdQueue := hm
  have hlt := h m hm
  rw [time_deliver]
  split
  · rename_i e
    have hover := hn.1 m hm e
    rw [e] at hlt
    exact max_lt hlt hover
  · exact hlt

/-- A causal message that is news, among messages that their source and counter
identify. -/
theorem Alive.receive_causal (h : b.Alive) (hk : msg.isHealth = false) (hn : b.News msg)
    (hq : b.holdQueue.Nodup) (hinj : ∀ m ∈ b.holdQueue ++ [msg], ∀ m' ∈ b.holdQueue ++ [msg],
      m.sourceCore = m'.sourceCore → m.counter = m'.counter → m = m') :
    (b.receive msg).Alive ∧ (b.receive msg).holdQueue.Nodup := by
  rw [news_iff_of_causal hk] at hn
  obtain ⟨msgs, rest, t, ht, he, hp, -⟩ := receive_spec hk b
  have hnd : (msgs ++ rest).Nodup := by
    refine hp.nodup_iff.mp (List.nodup_append.mpr ⟨hq, List.nodup_singleton _, fun m hm c hc => ?_⟩)
    rw [List.mem_singleton.mp hc]
    exact fun e => hn.2 (e ▸ hm)
  have hold : ∀ m ∈ b.holdQueue ++ [msg], b.time m.sourceCore < m.counter := fun m hm => by
    rcases List.mem_append.mp hm with hm | hm
    · exact h m hm
    · rw [List.mem_singleton.mp hm]
      exact hn.1
  obtain ⟨-, hrest, hdisj⟩ := List.nodup_append.mp hnd
  rw [he]
  refine ⟨fun m hm => ?_, hrest⟩
  have hm : m ∈ rest := hm
  have hmem := hp.symm.subset (List.mem_append_right msgs hm)
  show t.time m.sourceCore < m.counter
  by_contra hle
  -- The clock passed `m`'s counter by delivering a message that has it: `m` itself.
  obtain ⟨m', hm', hs, hc⟩ := ht.step_mem (hold m hmem) (not_lt.mp hle)
  have hmem' := hp.symm.subset (List.mem_append_left rest hm')
  have heq := hinj m' hmem' m hmem hs hc
  exact hdisj m' hm' m hm heq

end CausalBroadcast

variable [DecidableEq ι] {N : Net ι π}

namespace Net

/-- A run in which only news reaches an actor. -/
inductive CleanRun (G : Group ι) : Net ι π → Prop
  | initial : CleanRun G (initial G)
  | send {N : Net ι π} (h : CleanRun G N) (i : ι) (kind : String) (payload : π)
      (traceId uuidHex : String) : CleanRun G (N.send i kind payload traceId uuidHex)
  | receive {N : Net ι π} (h : CleanRun G N) (i : ι) {msg : BroadcastMessage π} {j : ι}
      (hm : .sent j msg ∈ N.log) (hn : (N.node i).News msg) : CleanRun G (N.receive i msg)

theorem CleanRun.reachable (h : CleanRun G N) : Reachable G (fun _ => True) N := by
  induction h with
  | initial => exact .initial
  | send _ i kind payload traceId uuidHex ih => exact ih.send i trivial payload traceId uuidHex
  | receive _ i hm _ ih => exact ih.receive i hm

theorem CleanRun.live (h : CleanRun G N) : Live G N := by
  induction h with
  | initial => exact .initial G
  | send h i kind payload traceId uuidHex ih =>
    exact ih.send h.reachable.mixed i kind payload traceId uuidHex
  | @receive N _ i msg j _ hn ih =>
    refine ih.receive i
      ((CausalBroadcast.drained_call_iff (fun _ => ih.drained) (.receive msg)).mpr ?_)
    cases hk : msg.isHealth with
    | true => exact ((CausalBroadcast.news_iff_of_health hk).mp hn).2
    | false => exact fun e => absurd e (by simp [hk])

/-- What is held was sent by others, if it is ahead of the clock. -/
theorem ne_of_alive (h : Mixed G N) {p q : ι} (ha : (N.node p).Alive) {m : BroadcastMessage π}
    (hm : m ∈ (N.node p).holdQueue) (hq : m ∈ N.sent q) : q ≠ p := by
  rintro rfl
  have hlt := ha m hm
  have hle := h.sent.le hq
  rw [h.sent.source hq, (h.node q).own] at hlt
  omega

/-- Nobody's `send` reaches what is held. -/
theorem alive_send (h : Mixed G N) {p : ι} (ha : (N.node p).Alive) (i : ι) (kind : String)
    (payload : π) (traceId uuidHex : String) :
    ((N.send i kind payload traceId uuidHex).node p).Alive := by
  intro m hm
  rw [holdQueue_send] at hm
  have hlt := ha m hm
  by_cases hp : p = i
  · subst hp
    -- The sender's own entry is ticked, and nothing of its own is held.
    obtain ⟨q, hq⟩ := (h.node p).queue_sent hm
    rw [h.sent.source hq] at hlt ⊢
    rw [node_send_self, (h.node p).time_ticked_of_ne (ne_of_alive h ha hm hq)]
    exact hlt
  · rw [node_send_of_ne hp]
    exact hlt

/-- A sent message that is news to actor `i` leaves what `i` holds alive. -/
theorem alive_receive (h : Mixed G N) {i j : ι} {msg : BroadcastMessage π}
    (ha : (N.node i).Alive) (hq : (N.node i).holdQueue.Nodup) (hm : .sent j msg ∈ N.log)
    (hn : (N.node i).News msg) :
    ((N.node i).receive msg).Alive ∧ ((N.node i).receive msg).holdQueue.Nodup := by
  cases hk : msg.isHealth with
  | true =>
    refine ⟨ha.receive_health hk hn, ?_⟩
    rw [CausalBroadcast.receive_health hk]
    exact hq
  | false =>
    have hsent : ∀ m ∈ (N.node i).holdQueue ++ [msg], ∃ q, m ∈ N.sent q := fun m hm₁ => by
      rcases List.mem_append.mp hm₁ with hm₁ | hm₁
      · exact (h.node i).queue_sent hm₁
      · rw [List.mem_singleton.mp hm₁]
        exact ⟨j, mem_sent.mpr hm⟩
    refine ha.receive_causal hk hn hq fun m hm₁ m' hm₂ hs hc => ?_
    obtain ⟨q, hmq⟩ := hsent m hm₁
    obtain ⟨q', hmq'⟩ := hsent m' hm₂
    exact h.sent.eq_of_slot hmq hmq' hs hc

theorem CleanRun.alive (h : CleanRun G N) (p : ι) :
    (N.node p).Alive ∧ (N.node p).holdQueue.Nodup := by
  induction h with
  | initial => exact ⟨fun _ h => absurd h List.not_mem_nil, List.nodup_nil⟩
  | send h i kind payload traceId uuidHex ih =>
    refine ⟨alive_send h.reachable.mixed ih.1 i kind payload traceId uuidHex, ?_⟩
    rw [holdQueue_send]
    exact ih.2
  | @receive N h i msg j hm hn ih =>
    by_cases hp : p = i
    · subst hp
      rw [node_receive_self]
      exact alive_receive h.reachable.mixed ih.1 ih.2 hm hn
    · rw [node_receive_of_ne hp]
      exact ih

end Net

/-- In every state of a run in which only news reaches an actor: each held message is
ahead of the clock for its source, and an actor that has received all the others'
messages holds none. -/
theorem hold_queue_waiting (h : Net.CleanRun G N) :
    (∀ p, ∀ m ∈ (N.node p).holdQueue, (N.node p).time m.sourceCore < m.counter) ∧
      ∀ p, N.ReceivedAll p → (N.node p).holdQueueDepth = 0 := by
  have hmix := h.reachable.mixed
  refine ⟨fun p => (h.alive p).1, fun p hall => ?_⟩
  have ha := (h.alive p).1
  have hw : Net.Waiting G N p := fun _ hm hq _ => by
    have hlt := ha _ hq
    rwa [hmix.sent.source hm] at hlt
  refine List.length_eq_zero_iff.mpr (List.eq_nil_iff_forall_not_mem.mpr fun m hm => ?_)
  obtain ⟨q, hq⟩ := (hmix.node p).queue_sent hm
  have hne := Net.ne_of_alive hmix ha hm hq
  have hdone := h.live.handled hmix hw hall (List.suffix_refl _) hne (Net.mem_sent.mp hq)
  have hle := (hmix.node p).counter_le hdone
  exact absurd (ha m hm) (not_lt.mpr hle)

/-- In the relayed answer, `c` holds nothing in the end. -/
theorem relay_holds_none :
    (∀ p, ∀ m ∈ (relayRun.node p).holdQueue, (relayRun.node p).time m.sourceCore < m.counter) ∧
      ∀ p, relayRun.ReceivedAll p → (relayRun.node p).holdQueueDepth = 0 := by
  have hasked : Net.CleanRun trio relayAsked :=
    (Net.CleanRun.initial.send 0 "control" () "" "0").receive (j := 0) 1 (by decide)
      ((CausalBroadcast.news_iff_of_causal (by decide)).mpr (by decide))
  have hovertaken : Net.CleanRun trio
      ((relayAsked.send 1 "policy" () "" "1").receive 2 relaySecond) :=
    (hasked.send 1 "policy" () "" "1").receive (j := 1) 2 (by decide)
      ((CausalBroadcast.news_iff_of_causal (by decide)).mpr (by decide))
  have hrun : Net.CleanRun trio relayRun :=
    hovertaken.receive (j := 0) 2 (by decide)
      ((CausalBroadcast.news_iff_of_causal (by decide)).mpr (by decide))
  exact hold_queue_waiting hrun

/-- The copy of the question that the network hands `b` is held for good. -/
theorem duplicate_stays :
    Net.Reachable trio (fun _ => True) askedTwice ∧
      (askedTwice.node 1).holdQueue = [relayFirst] ∧ (askedTwice.node 1).handled = [relayFirst] ∧
      ¬ (askedTwice.node 1).time relayFirst.sourceCore < relayFirst.counter ∧
      (∀ m, .sent 0 m ∈ askedTwice.log → .received 1 m ∈ askedTwice.log) ∧
      (askedTwice.node 1).holdQueueDepth = 1 := by
  have htwice : Net.Reachable trio (fun _ => True) askedTwice :=
    (relay_asked trivial).receive (j := 0) 1 (by decide)
  refine ⟨htwice, by decide, by decide, by decide, ?_, by decide⟩
  intro m hm
  have hs : askedTwice.sent 0 = [relayFirst] := by decide
  rw [← Net.mem_sent, hs] at hm
  rw [List.mem_singleton.mp hm]
  decide

end Gaia.Ipc
