import GaiaServer.Proof.Ipc.Drain
import Mathlib.Data.Finset.Basic
import Mathlib.Data.String.Basic

/-!
# Health messages and causal messages

A health message skips the ordering test but still counts in its sender's
counter, and delivering it raises the receiver's clock. If the clock already
covers every health message on its arrival (`HealthCovered`), the run keeps
the counters, the queue and the causal deliveries of the run without health
messages (`SameCausal.receiveAll`). A health message that is not covered makes
the receiver skip a counter: the causal message with that counter is never
delivered then (`receiveAll_adds`), and it is delivered without the health
messages, perhaps after one more message (`exists_ne_of_uncovered`). So the
condition is exact (`health_covered_iff`).
-/

namespace Gaia.Ipc

open CausalBroadcast

variable {π : Type}

/-- The causal messages of a sequence. -/
def causalOnly (msgs : List (BroadcastMessage π)) : List (BroadcastMessage π) :=
  msgs.filter fun m => !m.isHealth

theorem causalOnly_append (xs ys : List (BroadcastMessage π)) :
    causalOnly (xs ++ ys) = causalOnly xs ++ causalOnly ys := List.filter_append ..

theorem causalOnly_of_all {msgs : List (BroadcastMessage π)} (h : ∀ m ∈ msgs, m.isHealth = false) :
    causalOnly msgs = msgs :=
  List.filter_eq_self.mpr fun m hm => by rw [h m hm]; rfl

theorem isHealth_of_mem_causalOnly {msgs : List (BroadcastMessage π)} {m : BroadcastMessage π}
    (h : m ∈ causalOnly msgs) : m.isHealth = false := by
  simpa using List.of_mem_filter h

theorem causalOnly_cons_health {m : BroadcastMessage π} (h : m.isHealth = true) (msgs) :
    causalOnly (m :: msgs) = causalOnly msgs := by
  simp [causalOnly, h]

theorem causalOnly_cons_causal {m : BroadcastMessage π} (h : m.isHealth = false) (msgs) :
    causalOnly (m :: msgs) = m :: causalOnly msgs := by
  simp [causalOnly, h]

namespace CausalBroadcast

/-- The causal messages delivered, in order. -/
def causalDelivered (b : CausalBroadcast π) : List (BroadcastMessage π) := causalOnly b.handled

/-- Every health message of the sequence arrives when the clock already covers
its counter. -/
def HealthCovered (b : CausalBroadcast π) : List (BroadcastMessage π) → Prop
  | [] => True
  | m :: msgs => (m.isHealth = true → m.counter ≤ b.time m.sourceCore) ∧
      HealthCovered (b.receive m) msgs

variable {b b' t : CausalBroadcast π} {msg : BroadcastMessage π}

theorem receiveAll_cons (b : CausalBroadcast π) (m : BroadcastMessage π) (msgs) :
    b.receiveAll (m :: msgs) = (b.receive m).receiveAll msgs := rfl

theorem receiveAll_append (b : CausalBroadcast π) (xs ys : List (BroadcastMessage π)) :
    b.receiveAll (xs ++ ys) = (b.receiveAll xs).receiveAll ys := List.foldl_append ..

/-! ## Covered health messages do not interfere -/

/-- Objects with the same counters, hold queue and causal deliveries. -/
structure SameCausal (b b' : CausalBroadcast π) : Prop where
  time : ∀ a, b.time a = b'.time a
  queue : b.holdQueue = b'.holdQueue
  causal : b.causalDelivered = b'.causalDelivered

theorem SameCausal.refl (b : CausalBroadcast π) : SameCausal b b := ⟨fun _ => rfl, rfl, rfl⟩

theorem SameCausal.isDeliverable (h : SameCausal b b') (m : BroadcastMessage π) :
    b.isDeliverable m = b'.isDeliverable m := isDeliverable_congr h.time m

theorem SameCausal.deliver (h : SameCausal b b') (m : BroadcastMessage π) :
    SameCausal (b.deliver m) (b'.deliver m) where
  time a := by simp only [time_deliver, h.time]
  queue := h.queue
  causal := by
    have := h.causal
    simp only [causalDelivered, deliver_handled, causalOnly_append] at this ⊢
    rw [this]

theorem SameCausal.withQueue (h : SameCausal b b') (q : List (BroadcastMessage π)) :
    SameCausal (b.withQueue q) (b'.withQueue q) := ⟨h.time, rfl, h.causal⟩

theorem SameCausal.drainPass (queue acc : List (BroadcastMessage π)) (deliveredAny : Bool)
    (h : SameCausal b b') :
    SameCausal (drainPass queue acc deliveredAny b).1 (drainPass queue acc deliveredAny b').1 ∧
      (CausalBroadcast.drainPass queue acc deliveredAny b).2 =
        (CausalBroadcast.drainPass queue acc deliveredAny b').2 := by
  induction queue generalizing acc deliveredAny b b' with
  | nil => exact ⟨h.withQueue acc, rfl⟩
  | cons m queue ih =>
    simp only [CausalBroadcast.drainPass, h.isDeliverable m]
    split
    · exact ih _ _ (h.deliver m)
    · exact ih _ _ h

theorem SameCausal.drain (passes : Nat) (h : SameCausal b b') :
    SameCausal (drain passes b) (drain passes b') := by
  induction passes generalizing b b' with
  | zero => exact h
  | succ passes ih =>
    obtain ⟨h1, h2⟩ := h.drainPass b.holdQueue [] false
    simp only [CausalBroadcast.drain, ← h.queue, h2]
    split
    · exact ih h1
    · exact h1

theorem SameCausal.receive (h : SameCausal b b') (hm : msg.isHealth = false) :
    SameCausal (b.receive msg) (b'.receive msg) := by
  simp only [CausalBroadcast.receive, hm, tryDeliverBuffered, h.queue]
  exact (h.withQueue _).drain _

/-- A covered health message changes no counter. -/
theorem SameCausal.receive_covered (h : SameCausal b b') (hm : msg.isHealth = true)
    (hc : msg.counter ≤ b.time msg.sourceCore) : SameCausal (b.receive msg) b' := by
  rw [receive_health hm]
  refine ⟨fun a => ?_, h.queue, ?_⟩
  · rw [time_deliver_covered hc, h.time a]
  · rw [← h.causal]
    simp [causalDelivered, causalOnly, hm]

/-- With every health message covered, the run goes as without them. -/
theorem SameCausal.receiveAll {msgs : List (BroadcastMessage π)} (h : SameCausal b b')
    (hc : b.HealthCovered msgs) :
    SameCausal (b.receiveAll msgs) (b'.receiveAll (causalOnly msgs)) := by
  induction msgs generalizing b b' with
  | nil => exact h
  | cons m msgs ih =>
    cases hm : m.isHealth with
    | true =>
      rw [causalOnly_cons_health hm]
      exact ih (h.receive_covered hm (hc.1 hm)) hc.2
    | false =>
      rw [causalOnly_cons_causal hm]
      exact ih (h.receive hm) hc.2

/-! ## What a run adds -/

theorem Drains.le_time {msgs : List (BroadcastMessage π)} (h : Drains b msgs t) (a : String) :
    b.time a ≤ t.time a := by
  induction h with
  | nil => exact le_rfl
  | cons _ _ ih => exact (le_time_deliver a).trans ih

/-- A delivered message's counter lies between its source's times before and after. -/
theorem Drains.counter_mem {msgs : List (BroadcastMessage π)} (h : Drains b msgs t) :
    ∀ m ∈ msgs, b.time m.sourceCore < m.counter ∧ m.counter ≤ t.time m.sourceCore := by
  induction h with
  | nil => simp
  | @cons b msg _ _ hd ht ih =>
    intro m hm
    rcases List.mem_cons.mp hm with rfl | hm
    · have hc := (isDeliverable_iff.mp hd).1
      have hle := ht.le_time m.sourceCore
      rw [time_deliver_self] at hle
      exact ⟨by omega, (le_max_right ..).trans hle⟩
    · exact (ih m hm).imp_left (le_time_deliver m.sourceCore).trans_lt

/-- A counter that moves takes every step on its way. -/
theorem Drains.step_mem {msgs : List (BroadcastMessage π)} (h : Drains b msgs t) {a : String}
    {k : Int} (hk : b.time a < k) (hkt : k ≤ t.time a) :
    ∃ m ∈ msgs, m.sourceCore = a ∧ m.counter = k := by
  induction h with
  | nil => exact absurd hkt (not_le.mpr hk)
  | @cons b t msg msgs hd _ ih =>
    have hc := (isDeliverable_iff.mp hd).1
    have ht := time_deliver_deliverable hd a
    by_cases hnew : msg.sourceCore = a ∧ msg.counter = k
    · exact ⟨msg, List.mem_cons_self, hnew⟩
    · have hlt : (b.deliver msg).time a < k := by
        by_cases e : a = msg.sourceCore
        · subst e
          have hne : msg.counter ≠ k := fun e => hnew ⟨rfl, e⟩
          rw [ht, if_pos rfl]
          omega
        · rwa [ht, if_neg e]
      obtain ⟨m, hm, hs⟩ := ih hlt hkt
      exact ⟨m, List.mem_cons_of_mem _ hm, hs⟩

theorem Drains.causalDelivered_eq {msgs : List (BroadcastMessage π)} (h : Drains b msgs t) (rest) :
    (t.withQueue rest).causalDelivered = b.causalDelivered ++ causalOnly msgs := by
  rw [causalDelivered, withQueue_handled, h.handled_eq, causalOnly_append, causalDelivered]

theorem le_time_receive (b : CausalBroadcast π) (msg : BroadcastMessage π) (a : String) :
    b.time a ≤ (b.receive msg).time a := by
  cases hm : msg.isHealth with
  | true => rw [receive_health hm]; exact le_time_deliver a
  | false =>
    obtain ⟨msgs, rest, t, ht, he, -, -⟩ := receive_spec hm b
    rw [he]; exact ht.le_time a

theorem le_time_receiveAll (b : CausalBroadcast π) (msgs : List (BroadcastMessage π)) (a : String) :
    b.time a ≤ (b.receiveAll msgs).time a := by
  induction msgs generalizing b with
  | nil => exact le_rfl
  | cons m msgs ih => exact (le_time_receive b m a).trans (ih (b.receive m))

theorem receive_adds (b : CausalBroadcast π) (msg : BroadcastMessage π) :
    ∃ new, (b.receive msg).causalDelivered = b.causalDelivered ++ new ∧
      ∀ m ∈ new, b.time m.sourceCore < m.counter := by
  cases hm : msg.isHealth with
  | true => exact ⟨[], by simp [receive_health hm, causalDelivered, causalOnly, hm], by simp⟩
  | false =>
    obtain ⟨msgs, rest, t, ht, he, -, -⟩ := receive_spec hm b
    refine ⟨causalOnly msgs, ?_, fun m h => (ht.counter_mem m (List.mem_of_mem_filter h)).1⟩
    rw [he, ht.causalDelivered_eq]

/-- What a run delivers is above the counters that it started with. -/
theorem receiveAll_adds (b : CausalBroadcast π) (msgs : List (BroadcastMessage π)) :
    ∃ new, (b.receiveAll msgs).causalDelivered = b.causalDelivered ++ new ∧
      ∀ m ∈ new, b.time m.sourceCore < m.counter := by
  induction msgs generalizing b with
  | nil => exact ⟨[], (List.append_nil _).symm, by simp⟩
  | cons m msgs ih =>
    obtain ⟨new, he, hn⟩ := receive_adds b m
    obtain ⟨new', he', hn'⟩ := ih (b.receive m)
    refine ⟨new ++ new', by rw [receiveAll_cons, he', he, List.append_assoc], fun x hx => ?_⟩
    rcases List.mem_append.mp hx with hx | hx
    · exact hn x hx
    · exact (le_time_receive b m _).trans_lt (hn' x hx)

/-- An object as the class makes it: constructed, then any calls of `send` and
`receive`. -/
inductive Reachable : CausalBroadcast π → Prop
  | new (localActor : String) : Reachable (new localActor)
  | send {b : CausalBroadcast π} (kind : String) (payload : π) (traceId uuidHex : String) :
      Reachable b → Reachable (b.send kind payload traceId uuidHex).1
  | receive {b : CausalBroadcast π} (msg : BroadcastMessage π) :
      Reachable b → Reachable (b.receive msg)

/-- A call with a causal message delivers and leaves causal messages only, if only
such are held. -/
theorem causal_of_perm {msgs rest : List (BroadcastMessage π)}
    (hq : ∀ m ∈ b.holdQueue, m.isHealth = false) (hm : msg.isHealth = false)
    (hp : (b.holdQueue ++ [msg]).Perm (msgs ++ rest)) :
    (∀ m ∈ msgs, m.isHealth = false) ∧ ∀ m ∈ rest, m.isHealth = false := by
  rw [← List.forall_mem_append]
  intro m h
  rcases List.mem_append.mp (hp.symm.subset h) with h | h
  · exact hq m h
  · rw [List.mem_singleton.mp h, hm]

/-- No health message is ever held. -/
theorem Reachable.holds_causal (h : Reachable b) : ∀ m ∈ b.holdQueue, m.isHealth = false := by
  induction h with
  | new => simp [CausalBroadcast.new]
  | send _ _ _ _ _ ih => exact ih
  | @receive b msg _ ih =>
    cases hm : msg.isHealth with
    | true => rw [receive_health hm]; exact ih
    | false =>
      obtain ⟨msgs, rest, t, -, he, hp, -⟩ := receive_spec hm b
      rw [he]
      exact (causal_of_perm ih hm hp).2

theorem receive_next_mem (hb : Reachable b) (hm : msg.isHealth = false) {a : String}
    (ha : b.time a < (b.receive msg).time a) :
    ∃ new, (b.receive msg).causalDelivered = b.causalDelivered ++ new ∧
      ∃ m ∈ new, m.sourceCore = a ∧ m.counter = b.time a + 1 := by
  obtain ⟨msgs, rest, t, ht, he, hp, -⟩ := receive_spec hm b
  have hcausal := (causal_of_perm hb.holds_causal hm hp).1
  refine ⟨msgs, ?_, ht.step_mem (Int.lt_succ _) (by rwa [he] at ha)⟩
  rw [he, ht.causalDelivered_eq, causalOnly_of_all hcausal]

/-- Without health messages, a counter that moves has taken the step to its
successor. -/
theorem receiveAll_next_mem {msgs : List (BroadcastMessage π)} (hb : Reachable b)
    (hm : ∀ m ∈ msgs, m.isHealth = false) {a : String}
    (ha : b.time a < (b.receiveAll msgs).time a) :
    ∃ new, (b.receiveAll msgs).causalDelivered = b.causalDelivered ++ new ∧
      ∃ m ∈ new, m.sourceCore = a ∧ m.counter = b.time a + 1 := by
  induction msgs generalizing b with
  | nil => exact absurd ha (lt_irrefl _)
  | cons m msgs ih =>
    rw [List.forall_mem_cons] at hm
    rcases (le_time_receive b m a).lt_or_eq with h | h
    · obtain ⟨new, he, x, hx, hxa⟩ := receive_next_mem hb hm.1 h
      obtain ⟨new', he', -⟩ := receiveAll_adds (b.receive m) msgs
      refine ⟨new ++ new', ?_, x, List.mem_append_left _ hx, hxa⟩
      rw [receiveAll_cons, he', he, List.append_assoc]
    · obtain ⟨new', he', x, hx, hxa⟩ := ih (hb.receive m) hm.2 (h ▸ ha)
      obtain ⟨new, he, -⟩ := receive_adds b m
      refine ⟨new ++ new', ?_, x, List.mem_append_right _ hx, h ▸ hxa⟩
      rw [receiveAll_cons, he', he, List.append_assoc]

/-! ## A health message that is not covered -/

/-- The message of source `a` with counter `b.time a + 1` and no other entry. -/
def nextFrom (b : CausalBroadcast π) (a : String) (payload : π) : BroadcastMessage π where
  messageId := ""
  sourceCore := a
  kind := "control"
  payload := payload
  vectorClock := .single a (b.time a + 1)

theorem nextFrom_isHealth (a : String) (payload : π) : (b.nextFrom a payload).isHealth = false := by
  simp [nextFrom, BroadcastMessage.isHealth, healthKinds]

theorem isDeliverable_nextFrom (a : String) (payload : π) (h : t.time a = b.time a) :
    t.isDeliverable (b.nextFrom a payload) = true := by
  rw [isDeliverable_iff]
  refine ⟨?_, fun a' ha n hn => ?_⟩
  · simp [BroadcastMessage.counter, BroadcastMessage.stamp, nextFrom, Dict.get_single, h]
  · simp only [nextFrom] at ha hn
    simp [Dict.get?_single, ha] at hn

theorem time_lt_receive_nextFrom (a : String) (payload : π) :
    b.time a < (b.receive (b.nextFrom a payload)).time a := by
  obtain ⟨msgs, rest, t, ht, he, hp, hn⟩ := receive_spec (nextFrom_isHealth a payload) b
  rw [he, time_withQueue]
  rcases List.mem_append.mp (hp.subset (List.mem_append_right _ (List.mem_singleton_self _))) with
    hm | hm
  · obtain ⟨h1, h2⟩ := ht.counter_mem _ hm
    exact h1.trans_le h2
  · refine (ht.le_time a).lt_of_ne fun h => ?_
    exact absurd (isDeliverable_nextFrom a payload h.symm) (by simp [hn _ hm])

/-- A health message that raises its source's counter jumps over the next
causal message of that source: if the run without health messages delivers that
message, the two runs differ. -/
theorem causalDelivered_ne_of_uncovered {h : BroadcastMessage π} (hb' : Reachable b')
    (hs : SameCausal b b') (hh : h.isHealth = true) (hc : b.time h.sourceCore < h.counter)
    {xs ys : List (BroadcastMessage π)} (hy : ∀ m ∈ ys, m.isHealth = false)
    (ht : b'.time h.sourceCore < (b'.receiveAll ys).time h.sourceCore) :
    ((b.receive h).receiveAll xs).causalDelivered ≠ (b'.receiveAll ys).causalDelivered := by
  intro heq
  obtain ⟨new, he, hn⟩ := receiveAll_adds (b.receive h) xs
  obtain ⟨new', he', m, hm, ha, hcm⟩ := receiveAll_next_mem hb' hy ht
  have hsame : (b.receive h).causalDelivered = b'.causalDelivered := by
    rw [receive_health hh, ← hs.causal]
    simp [causalDelivered, causalOnly, hh]
  rw [he, he', hsame, List.append_cancel_left_eq] at heq
  -- the run with `h` delivers only above the raised counter, so not `m`
  have hgt := hn m (heq ▸ hm)
  rw [ha, receive_health hh, time_deliver_self, hcm, ← hs.time] at hgt
  have := le_max_right (b.time h.sourceCore) h.counter
  omega

/-- So they differ now, or after one more causal message. -/
theorem exists_ne_of_uncovered {h : BroadcastMessage π} (hb' : Reachable b') (hs : SameCausal b b')
    (hh : h.isHealth = true) (hc : b.time h.sourceCore < h.counter)
    (msgs : List (BroadcastMessage π)) :
    ∃ ext, (∀ m ∈ ext, m.isHealth = false) ∧
      ((b.receive h).receiveAll (msgs ++ ext)).causalDelivered ≠
        (b'.receiveAll (causalOnly (msgs ++ ext))).causalDelivered := by
  rcases (le_time_receiveAll b' (causalOnly msgs) h.sourceCore).lt_or_eq with ht | ht
  · refine ⟨[], by simp, ?_⟩
    rw [List.append_nil]
    exact causalDelivered_ne_of_uncovered hb' hs hh hc (fun m => isHealth_of_mem_causalOnly) ht
  · have hm := (b'.receiveAll (causalOnly msgs)).nextFrom_isHealth h.sourceCore h.payload
    refine ⟨[_], List.forall_mem_singleton.mpr hm, ?_⟩
    refine causalDelivered_ne_of_uncovered hb' hs hh hc (fun m => isHealth_of_mem_causalOnly) ?_
    rw [causalOnly_append, causalOnly_of_all (List.forall_mem_singleton.mpr hm),
      receiveAll_append, ht]
    exact time_lt_receive_nextFrom h.sourceCore h.payload

theorem exists_ne_of_not_covered {msgs : List (BroadcastMessage π)} (hb' : Reachable b')
    (hs : SameCausal b b') (hn : ¬ b.HealthCovered msgs) :
    ∃ ext, (∀ m ∈ ext, m.isHealth = false) ∧
      (b.receiveAll (msgs ++ ext)).causalDelivered ≠
        (b'.receiveAll (causalOnly (msgs ++ ext))).causalDelivered := by
  induction msgs generalizing b b' with
  | nil => exact absurd trivial hn
  | cons m msgs ih =>
    cases hm : m.isHealth with
    | true =>
      simp only [List.cons_append, receiveAll_cons, causalOnly_cons_health hm]
      by_cases hc : m.counter ≤ b.time m.sourceCore
      · exact ih hb' (hs.receive_covered hm hc) fun h => hn ⟨fun _ => hc, h⟩
      · exact exists_ne_of_uncovered hb' hs hm (not_le.mp hc) msgs
    | false =>
      simp only [List.cons_append, receiveAll_cons, causalOnly_cons_causal hm]
      exact ih (hb'.receive m) (hs.receive hm) fun h => hn ⟨fun e => absurd e (by simp [hm]), h⟩

theorem healthCovered_of_causal {msgs : List (BroadcastMessage π)}
    (h : ∀ m ∈ msgs, m.isHealth = false) : b.HealthCovered msgs := by
  induction msgs generalizing b with
  | nil => trivial
  | cons m msgs ih =>
    rw [List.forall_mem_cons] at h
    exact ⟨fun e => absurd e (by simp [h.1]), ih h.2⟩

theorem healthCovered_append {xs ys : List (BroadcastMessage π)} (h : b.HealthCovered xs)
    (hy : ∀ m ∈ ys, m.isHealth = false) : b.HealthCovered (xs ++ ys) := by
  induction xs generalizing b with
  | nil => exact healthCovered_of_causal hy
  | cons x xs ih => exact ⟨h.1, ih h.2⟩

end CausalBroadcast

/-- The causal deliveries are those of the sequence without its health messages,
however it goes on with causal messages, exactly if every health message of the
sequence is covered when it arrives. -/
theorem health_covered_iff {b : CausalBroadcast π} (hb : Reachable b)
    (msgs : List (BroadcastMessage π)) :
    b.HealthCovered msgs ↔ ∀ ext : List (BroadcastMessage π), (∀ m ∈ ext, m.isHealth = false) →
      (b.receiveAll (msgs ++ ext)).causalDelivered =
        (b.receiveAll (causalOnly (msgs ++ ext))).causalDelivered := by
  refine ⟨fun h ext hext => ?_, fun h => ?_⟩
  · exact ((SameCausal.refl b).receiveAll (healthCovered_append h hext)).causal
  · by_contra hn
    obtain ⟨ext, hext, hne⟩ := exists_ne_of_not_covered hb (SameCausal.refl b) hn
    exact hne (h ext hext)

/-! ## A beacon that overtakes -/

/-- `q` sends a control message, -/
def lead : BroadcastMessage Unit := (new "q").outbound "control" () "" "0"

def leadSent : CausalBroadcast Unit := ((new "q").send "control" () "" "0").1

/-- then a beacon, -/
def beacon : BroadcastMessage Unit := leadSent.outbound "health" () "" "1"

def beaconSent : CausalBroadcast Unit := (leadSent.send "health" () "" "1").1

/-- then another control message. -/
def follow : BroadcastMessage Unit := beaconSent.outbound "control" () "" "2"

/-- The sender's own clock covers its beacons. -/
theorem echoed_beacon :
    (beaconSent.receiveAll [beacon, beacon, lead]).causalDelivered =
      (beaconSent.receiveAll (causalOnly [beacon, beacon, lead])).causalDelivered :=
  (health_covered_iff (((Reachable.new "q").send "control" () "" "0").send "health" () "" "1")
    [beacon, beacon]).mp ⟨by decide, by decide, trivial⟩ [lead] (by decide)

/-- If the beacon overtakes the first control message, `p` delivers the second
one and never the first; without the beacon it delivers the first. -/
theorem beacon_overtakes :
    ((new "p").receiveAll [beacon, follow, lead]).causalDelivered = [follow] ∧
      ((new "p").receiveAll (causalOnly [beacon, follow, lead])).causalDelivered = [lead] ∧
      follow ≠ lead := by decide

end Gaia.Ipc
