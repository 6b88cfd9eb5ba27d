import GaiaServer.Proof.Ipc.Health

/-!
# Any calls, any messages

What holds of an object whatever is sent and received: messages may be forged,
repeated or contradict each other.

* `at_most_once`: of any one source, the causal messages are delivered in
  strictly increasing order of their counters, and no clock entry decreases. A
  delivered message is above its source's clock entry before and not above it
  after (`CallInv.drains`).
* `drained_iff`: the hold queue keeps no deliverable message exactly as long as no
  `send` and no health message moves the one clock entry that a held message
  waits for (`WaitsFor`). Only `receive` of a causal message drains the queue.
-/

namespace Gaia.Ipc

open CausalBroadcast

variable {π : Type}

namespace CausalBroadcast

variable {b b' t : CausalBroadcast π} {msg m : BroadcastMessage π} {a : String} {k : Int}

theorem time_send (kind : String) (payload : π) (traceId uuidHex : String) (a : String) :
    (b.send kind payload traceId uuidHex).1.time a =
      if a = b.localActor then b.time b.localActor + 1 else b.time a := Dict.get_set ..

/-! ## At most once, in order -/

/-- Two messages of one source, the first with the lower counter. -/
def InOrder (m m' : BroadcastMessage π) : Prop :=
  m.sourceCore = m'.sourceCore → m.counter < m'.counter

/-- What any calls keep. -/
structure CallInv (b : CausalBroadcast π) : Prop where
  causal : ∀ m ∈ b.holdQueue, m.isHealth = false
  nonneg : ∀ a n, b.clock.get? a = some n → 0 ≤ n
  delivered : b.delivered = b.handled.map (·.messageId)
  inOrder : b.causalDelivered.Pairwise InOrder
  le_time : ∀ m ∈ b.causalDelivered, m.counter ≤ b.time m.sourceCore

theorem CallInv.new (localActor : String) : CallInv (new localActor : CausalBroadcast π) where
  causal _ h := absurd h List.not_mem_nil
  nonneg a n h := by
    simp only [CausalBroadcast.new, Dict.get?_single] at h
    split at h <;> simp_all
  delivered := rfl
  inOrder := .nil
  le_time _ h := absurd h List.not_mem_nil

theorem CallInv.zero_le_time (h : CallInv b) (a : String) : 0 ≤ b.time a := by
  rw [time, Dict.get]
  cases ha : b.clock.get? a with
  | none => exact le_rfl
  | some n => exact h.nonneg a n ha

/-- Setting a clock entry to a number that is not negative. -/
theorem CallInv.nonneg_set (h : CallInv b) (hk : 0 ≤ k) (c : String) :
    ∀ a n, (b.clock.set c k).get? a = some n → 0 ≤ n := by
  intro a n ha
  rw [Dict.get?_set] at ha
  split at ha
  · exact Option.some.inj ha ▸ hk
  · exact h.nonneg a n ha

theorem CallInv.send (h : CallInv b) (kind : String) (payload : π) (traceId uuidHex : String) :
    CallInv (b.send kind payload traceId uuidHex).1 where
  causal := h.causal
  nonneg := by
    have := h.zero_le_time b.localActor
    exact h.nonneg_set (Int.add_nonneg this (by decide)) b.localActor
  delivered := h.delivered
  inOrder := h.inOrder
  le_time m hm := by
    have hle := h.le_time m hm
    rw [time_send]
    split
    · rename_i e
      rw [← e]
      omega
    · exact hle

theorem CallInv.deliver_nonneg (h : CallInv b) (msg : BroadcastMessage π) :
    ∀ a n, (b.deliver msg).clock.get? a = some n → 0 ≤ n :=
  h.nonneg_set ((h.zero_le_time _).trans (le_max_left ..)) msg.sourceCore

theorem CallInv.deliver_delivered (h : CallInv b) (msg : BroadcastMessage π) :
    (b.deliver msg).delivered = (b.deliver msg).handled.map (·.messageId) := by
  simp [h.delivered]

/-- A health message is not among the causal ones, and raises the clock at most. -/
theorem CallInv.deliver_health (h : CallInv b) (hm : msg.isHealth = true) :
    CallInv (b.deliver msg) := by
  have hd : (b.deliver msg).causalDelivered = b.causalDelivered := by
    simp [causalDelivered, causalOnly, hm]
  refine ⟨h.causal, h.deliver_nonneg msg, h.deliver_delivered msg, hd ▸ h.inOrder, fun m hm' => ?_⟩
  rw [hd] at hm'
  exact (h.le_time m hm').trans (le_time_deliver _)

/-- A causal message that is deliverable has a counter above all those delivered
of its source. -/
theorem CallInv.deliver (h : CallInv b) (hm : msg.isHealth = false)
    (hd : b.isDeliverable msg = true) : CallInv (b.deliver msg) := by
  have hc := (isDeliverable_iff.mp hd).1
  have he : (b.deliver msg).causalDelivered = b.causalDelivered ++ [msg] := by
    simp [causalDelivered, causalOnly, hm]
  refine ⟨h.causal, h.deliver_nonneg msg, h.deliver_delivered msg, ?_, fun m hm' => ?_⟩
  · rw [he, List.pairwise_append]
    refine ⟨h.inOrder, List.pairwise_singleton _ _, fun m hm' m' hm'' => ?_⟩
    rw [List.mem_singleton.mp hm'']
    intro hs
    have hle := h.le_time m hm'
    rw [hs] at hle
    omega
  · rw [he] at hm'
    rcases List.mem_append.mp hm' with hm' | hm'
    · exact (h.le_time m hm').trans (le_time_deliver _)
    · rw [List.mem_singleton.mp hm', time_deliver_self]
      exact le_max_right ..

theorem CallInv.drains {msgs : List (BroadcastMessage π)} (h : CallInv b) (ht : b.Drains msgs t)
    (hm : ∀ m ∈ msgs, m.isHealth = false) : CallInv t := by
  induction ht with
  | nil => exact h
  | cons hd _ ih =>
    rw [List.forall_mem_cons] at hm
    exact ih (h.deliver hm.1 hd) hm.2

theorem CallInv.receive (h : CallInv b) (msg : BroadcastMessage π) : CallInv (b.receive msg) := by
  cases hm : msg.isHealth with
  | true => rw [receive_health hm]; exact h.deliver_health hm
  | false =>
    obtain ⟨msgs, rest, t, ht, he, hp, -⟩ := receive_spec hm b
    obtain ⟨hmsgs, hrest⟩ := causal_of_perm h.causal hm hp
    have hi := h.drains ht hmsgs
    rw [he]
    exact ⟨hrest, hi.nonneg, hi.delivered, hi.inOrder, hi.le_time⟩

theorem CallInv.call (h : CallInv b) (c : Call π) : CallInv (b.call c) := by
  cases c with
  | send kind payload traceId uuidHex => exact h.send kind payload traceId uuidHex
  | receive msg => exact h.receive msg

/-- Every clock entry of `b` is in `b'`, and no lower. -/
def Grows (b b' : CausalBroadcast π) : Prop :=
  ∀ a n, b.clock.get? a = some n → ∃ n', b'.clock.get? a = some n' ∧ n ≤ n'

theorem Grows.refl (b : CausalBroadcast π) : Grows b b := fun _ n h => ⟨n, h, le_rfl⟩

theorem Grows.trans (h : Grows b t) (h' : Grows t b') : Grows b b' := fun a n hn => by
  obtain ⟨n₁, h₁, hle₁⟩ := h a n hn
  obtain ⟨n₂, h₂, hle₂⟩ := h' a n₁ h₁
  exact ⟨n₂, h₂, hle₁.trans hle₂⟩

theorem grows_of_set (hk : b.time a ≤ k) (hc : b'.clock = b.clock.set a k) : Grows b b' := by
  intro c n hn
  rw [hc, Dict.get?_set]
  split
  · rename_i e
    have ht : b.time a = n := by rw [time, Dict.get, ← e, hn]; rfl
    exact ⟨k, rfl, ht ▸ hk⟩
  · exact ⟨n, hn, le_rfl⟩

theorem grows_deliver (b : CausalBroadcast π) (msg : BroadcastMessage π) :
    Grows b (b.deliver msg) :=
  grows_of_set (a := msg.sourceCore) (le_max_left ..) rfl

theorem Drains.grows {msgs : List (BroadcastMessage π)} (h : b.Drains msgs t) : Grows b t := by
  induction h with
  | nil => exact .refl _
  | cons _ _ ih => exact (grows_deliver _ _).trans ih

theorem grows_call (b : CausalBroadcast π) (c : Call π) : Grows b (b.call c) := by
  cases c with
  | send kind payload traceId uuidHex =>
    exact grows_of_set (a := b.localActor) (Int.le_add_one le_rfl) rfl
  | receive msg =>
    cases hm : msg.isHealth with
    | true => rw [call, receive_health hm]; exact grows_deliver b msg
    | false =>
      obtain ⟨msgs, rest, t, ht, he, -, -⟩ := receive_spec hm b
      rw [call, he]
      exact ht.grows

theorem calls_append (b : CausalBroadcast π) (before after : List (Call π)) :
    b.calls (before ++ after) = (b.calls before).calls after := Machine.run_append ..

end CausalBroadcast

/-- After any calls with any messages: the causal messages delivered from one
source have strictly increasing counters, so that none is delivered twice and no
two that claim the same counter both are; the clock's entries are not negative,
and after any further calls they are still there and no lower. -/
theorem at_most_once (localActor : String) (before after : List (Call π)) :
    let b := (new localActor).calls before
    b.delivered = b.handled.map (·.messageId) ∧
    b.causalDelivered.Pairwise InOrder ∧
    (∀ (i j : Nat) m m', b.causalDelivered[i]? = some m → b.causalDelivered[j]? = some m' →
      m.sourceCore = m'.sourceCore → m.counter = m'.counter → i = j) ∧
    (∀ a n, b.clockSnapshot.get? a = some n → 0 ≤ n) ∧
    ∀ a n, b.clockSnapshot.get? a = some n →
      ∃ n', ((new localActor).calls (before ++ after)).clockSnapshot.get? a = some n' ∧ n ≤ n' := by
  intro b
  have h : CallInv b := Machine.run_inv (fun _ c hi => hi.call c) (.new localActor) before
  refine ⟨h.delivered, h.inOrder, fun i j m m' hi hj hs hc => ?_, h.nonneg, ?_⟩
  · obtain ⟨hil, rfl⟩ := List.getElem?_eq_some_iff.mp hi
    obtain ⟨hjl, rfl⟩ := List.getElem?_eq_some_iff.mp hj
    have hp := List.pairwise_iff_getElem.mp h.inOrder
    rcases lt_trichotomy i j with hij | hij | hij
    · exact absurd hc (hp i j hil hjl hij hs).ne
    · exact hij
    · exact absurd hc (hp j i hjl hil hij hs.symm).ne'
  · have hg : Grows b (b.calls after) := Machine.run_rel Grows.refl Grows.trans grows_call b after
    rw [calls_append]
    exact hg

/-! ## Drained -/

namespace CausalBroadcast

variable {b b' t : CausalBroadcast π} {msg m : BroadcastMessage π} {a : String} {k : Int}

/-- No held message is deliverable. -/
def Drained (b : CausalBroadcast π) : Prop := ∀ m ∈ b.holdQueue, b.isDeliverable m = false

/-- `msg` waits for the clock entry of `a` alone, and the wait is over when this
is `k`: `msg` is `a`'s own next message then, or another source's next message
whose entry for `a` is ahead of the clock, up to `k`. -/
def WaitsFor (b : CausalBroadcast π) (msg : BroadcastMessage π) (a : String) (k : Int) : Prop :=
  (∀ c, c ≠ msg.sourceCore → c ≠ a → ∀ n, msg.vectorClock.get? c = some n → n ≤ b.time c) ∧
    ((msg.sourceCore = a ∧ msg.counter = k + 1) ∨
      (msg.sourceCore ≠ a ∧ msg.counter = b.time msg.sourceCore + 1 ∧
        ∃ n, msg.vectorClock.get? a = some n ∧ b.time a < n ∧ n ≤ k))

/-- A call that does not drain the queue, a `send` or a health message that raises
the clock, ends no held message's wait. -/
def EndsNoWait (b : CausalBroadcast π) : Call π → Prop
  | .send .. => ∀ m ∈ b.holdQueue, ¬ b.WaitsFor m b.localActor (b.time b.localActor + 1)
  | .receive msg => msg.isHealth = true → b.time msg.sourceCore < msg.counter →
      ∀ m ∈ b.holdQueue, ¬ b.WaitsFor m msg.sourceCore msg.counter

/-- Raising the entry of its source, to the counter before its own. -/
theorem isDeliverable_iff_waitsFor_self (ht : ∀ c, t.time c = if c = a then k else b.time c)
    (hs : msg.sourceCore = a) : t.isDeliverable msg = true ↔ b.WaitsFor msg a k := by
  rw [isDeliverable_iff, ht, if_pos hs, WaitsFor]
  constructor
  · rintro ⟨hc, ho⟩
    refine ⟨fun c hcs hca n hn => ?_, .inl ⟨hs, hc⟩⟩
    have hle := ho c hcs n hn
    rwa [ht, if_neg hca] at hle
  · rintro ⟨ho, ⟨-, hc⟩ | ⟨hn, -⟩⟩
    · refine ⟨hc, fun c hcs n hn => ?_⟩
      have hca : c ≠ a := fun e => hcs (e.trans hs.symm)
      rw [ht, if_neg hca]
      exact ho c hcs hca n hn
    · exact absurd hs hn

/-- Raising another entry, the only one that the clock did not cover. -/
theorem isDeliverable_iff_waitsFor_other (hm : b.isDeliverable msg = false)
    (ht : ∀ c, t.time c = if c = a then k else b.time c) (hs : msg.sourceCore ≠ a) :
    t.isDeliverable msg = true ↔ b.WaitsFor msg a k := by
  rw [isDeliverable_iff, ht, if_neg hs, WaitsFor]
  constructor
  · rintro ⟨hc, ho⟩
    have hother : ∀ c, c ≠ msg.sourceCore → c ≠ a → ∀ n, msg.vectorClock.get? c = some n →
        n ≤ b.time c := fun c hcs hca n hn => by
      have hle := ho c hcs n hn
      rwa [ht, if_neg hca] at hle
    refine ⟨hother, .inr ⟨hs, hc, ?_⟩⟩
    -- Without an entry for `a` ahead of the clock, `msg` were deliverable before.
    by_contra hne
    refine Bool.eq_false_iff.mp hm (isDeliverable_iff.mpr ⟨hc, fun c hcs n hn => ?_⟩)
    by_cases hca : c = a
    · subst hca
      have hle := ho c hcs n hn
      rw [ht, if_pos rfl] at hle
      by_contra hlt
      exact hne ⟨n, hn, not_le.mp hlt, hle⟩
    · exact hother c hcs hca n hn
  · rintro ⟨ho, ⟨hn, -⟩ | ⟨-, hc, n, hn, -, hle⟩⟩
    · exact absurd hn hs
    · refine ⟨hc, fun c hcs n' hn' => ?_⟩
      rw [ht]
      by_cases hca : c = a
      · subst hca
        rw [hn] at hn'
        rw [if_pos rfl, ← Option.some.inj hn']
        exact hle
      · rw [if_neg hca]
        exact ho c hcs hca n' hn'

/-- Raising the clock entry of `a` to `k` makes exactly the messages deliverable
that waited for it. -/
theorem isDeliverable_iff_waitsFor (hm : b.isDeliverable msg = false)
    (ht : ∀ c, t.time c = if c = a then k else b.time c) :
    t.isDeliverable msg = true ↔ b.WaitsFor msg a k := by
  by_cases hs : msg.sourceCore = a
  · exact isDeliverable_iff_waitsFor_self ht hs
  · exact isDeliverable_iff_waitsFor_other hm ht hs

/-- From a drained queue, raising one entry leaves it drained exactly if it ends no
held message's wait. -/
theorem drained_iff_of_time (h : b.Drained) (hq : t.holdQueue = b.holdQueue)
    (ht : ∀ c, t.time c = if c = a then k else b.time c) :
    t.Drained ↔ ∀ m ∈ b.holdQueue, ¬ b.WaitsFor m a k := by
  simp only [Drained, hq]
  refine forall₂_congr fun m hm => ?_
  rw [← isDeliverable_iff_waitsFor (h m hm) ht, Bool.not_eq_true]

theorem drained_call_iff (h : b.Drained) (c : Call π) : (b.call c).Drained ↔ b.EndsNoWait c := by
  cases c with
  | send kind payload traceId uuidHex =>
    refine drained_iff_of_time h rfl fun c => ?_
    exact time_send kind payload traceId uuidHex c
  | receive msg =>
    rw [call, EndsNoWait]
    cases hm : msg.isHealth with
    | false =>
      obtain ⟨msgs, rest, t, -, he, -, hn⟩ := receive_spec hm b
      rw [he]
      exact ⟨fun _ e => absurd e (by simp), fun _ => hn⟩
    | true =>
      rw [receive_health hm, forall_prop_of_true rfl]
      by_cases hc : b.time msg.sourceCore < msg.counter
      · rw [forall_prop_of_true hc]
        refine drained_iff_of_time h rfl fun c => ?_
        rw [time_deliver, max_eq_right hc.le]
      · -- The clock stays as it is.
        refine iff_of_true (fun m hm' => ?_) fun h' => absurd h' hc
        rw [isDeliverable_congr (time_deliver_covered (not_lt.mp hc)) m]
        exact h m hm'

end CausalBroadcast

/-- Along any calls with any messages on a fresh object, the hold queue is drained
in every state exactly if no `send` and no health message ends a held message's
wait. -/
theorem drained_iff (localActor : String) (cs : List (Call π)) :
    Machine.Always call Drained (new localActor) cs ↔
      Machine.EveryStep call EndsNoWait (new localActor) cs :=
  Machine.always_iff (I := fun _ => True) (fun _ _ _ => trivial)
    (fun _ c _ h => drained_call_iff h c) trivial (fun _ h => absurd h List.not_mem_nil) cs

/-- `p` receives the beacon while it holds the control message that follows it,
which is then deliverable and still held. -/
theorem beacon_leaves_follow :
    let b := (new "p").calls [.receive lead, .receive follow, .receive beacon]
    follow ∈ b.holdQueue ∧ b.isDeliverable follow = true := by decide

end Gaia.Ipc
