import GaiaServer.Proof.Ipc.Arrival

/-!
# Explicit dependencies

No method reads a message's `dependencies`; only its vector clock holds it back.
Among the messages of a run, the clocks may force an identifier `d` before a message
`m` (`Forced`): `m` waits for a counter, and whichever message comes with that counter
has the identifier `d` or is itself forced after `d`. What is forced before a
message is delivered before it (`DepInv.deliver`). So if every dependency of a
message that arrives has been delivered or is forced, all dependencies are honoured
(`dependencies_honoured`); a dependency that the clocks do not show is not
(`dependency_ignored`).
-/

namespace Gaia.Ipc

open CausalBroadcast

variable {π : Type}

/-- `m` is delivered only when the clock of its receiver has reached `k` for `a`. -/
def Awaits (m : BroadcastMessage π) (a : String) (k : Int) : Prop :=
  0 < k ∧ if a = m.sourceCore then k < m.counter else k ≤ m.stamp a

/-- Among the messages `xs`, the vector clocks put identifier `d` before `m`: in a
class of messages that `m` belongs to, each awaits a counter that only messages
with identifier `d` and messages of the class have. -/
def Forced (xs : List (BroadcastMessage π)) (d : String) (m : BroadcastMessage π) : Prop :=
  ∃ R : BroadcastMessage π → Prop, R m ∧ ∀ m, R m → 0 < m.counter → ∃ a k, Awaits m a k ∧
    ∀ m' ∈ xs, m'.sourceCore = a → m'.counter = k → m'.messageId = d ∨ R m'

/-- What a forced message awaits has the identifier, or is forced too. -/
theorem Forced.awaits {xs : List (BroadcastMessage π)} {d : String} {m : BroadcastMessage π}
    (h : Forced xs d m) (h0 : 0 < m.counter) : ∃ a k, Awaits m a k ∧
      ∀ m' ∈ xs, m'.sourceCore = a → m'.counter = k → m'.messageId = d ∨ Forced xs d m' := by
  obtain ⟨R, hm, hR⟩ := h
  obtain ⟨a, k, hw, hk⟩ := hR m hm h0
  refine ⟨a, k, hw, fun m' hm' hs hc => ?_⟩
  exact (hk m' hm' hs hc).imp_right fun h => ⟨R, h, hR⟩

namespace CausalBroadcast

variable {b t : CausalBroadcast π} {xs msgs : List (BroadcastMessage π)}
  {m msg : BroadcastMessage π}
  {P : BroadcastMessage π → String → Prop}

/-- Each message is delivered after every identifier that `P` demands of it. -/
def After (P : BroadcastMessage π → String → Prop) (b : CausalBroadcast π) : Prop :=
  ∀ (i : Nat) m, b.handled[i]? = some m → ∀ d, P m d → d ∈ b.delivered.take i

theorem After.deliver (h : After P b) (hd : b.delivered = b.handled.map (·.messageId))
    (hm : ∀ d, P msg d → d ∈ b.delivered) : After P (b.deliver msg) := by
  intro i m hi d hp
  have hlen : b.delivered.length = b.handled.length := by rw [hd, List.length_map]
  rw [deliver_delivered]
  rw [deliver_handled, List.getElem?_append] at hi
  split at hi
  · rename_i hlt
    rw [List.take_append_of_le_length (by omega)]
    exact h i m hi d hp
  · have hge : b.delivered.length ≤ i := by omega
    have hmm : m = msg := List.mem_singleton.mp (List.mem_of_getElem? hi)
    rw [hmm] at hp
    rw [List.take_append, List.take_of_length_le hge]
    exact List.mem_append_left _ (hm d hp)

/-- Every dependency of `m` has been delivered, or is forced before it. -/
def DepsForced (xs : List (BroadcastMessage π)) (b : CausalBroadcast π) (m : BroadcastMessage π) :
    Prop :=
  ∀ d ∈ m.dependencies, d ∈ b.delivered ∨ Forced xs d m

/-- What holds while the messages `xs` arrive. -/
structure DepInv (xs : List (BroadcastMessage π)) (b : CausalBroadcast π) : Prop where
  nonneg : ∀ a, 0 ≤ b.time a
  delivered : b.delivered = b.handled.map (·.messageId)
  arrived : ∀ m ∈ b.handled, m ∈ xs
  step_mem : ∀ a k, 0 < k → k ≤ b.time a → ∃ m ∈ b.handled, m.sourceCore = a ∧ m.counter = k
  forced : After (fun m d => Forced xs d m) b
  honoured : After (fun m d => d ∈ m.dependencies) b

theorem DepInv.new (xs : List (BroadcastMessage π)) (localActor : String) :
    DepInv xs (CausalBroadcast.new localActor) := by
  refine ⟨fun a => (time_new localActor a).ge, rfl, fun _ h => absurd h List.not_mem_nil,
    fun a k h0 hk => ?_, fun i m hi => ?_, fun i m hi => ?_⟩
  · rw [time_new] at hk
    omega
  · exact absurd hi (by simp [CausalBroadcast.new])
  · exact absurd hi (by simp [CausalBroadcast.new])

/-- A message that is deliverable comes after the identifiers forced before it: the
counter that it awaits belongs to a message already delivered. -/
theorem DepInv.delivered_of_forced (h : DepInv xs b) (hd : b.isDeliverable m = true) {d : String}
    (hf : Forced xs d m) : d ∈ b.delivered := by
  obtain ⟨hc, ho⟩ := (isDeliverable_iff_stamp h.nonneg).mp hd
  have h0 := h.nonneg m.sourceCore
  obtain ⟨a, k, ⟨hk, hw⟩, hslot⟩ := hf.awaits (by omega)
  have hle : k ≤ b.time a := by
    by_cases e : a = m.sourceCore
    · rw [if_pos e] at hw
      rw [e]
      omega
    · rw [if_neg e] at hw
      exact hw.trans (ho a e)
  obtain ⟨m', hm', hs, hc'⟩ := h.step_mem a k hk hle
  rcases hslot m' (h.arrived m' hm') hs hc' with hid | hf'
  · rw [h.delivered, ← hid]
    exact List.mem_map_of_mem hm'
  · obtain ⟨i, hi⟩ := List.mem_iff_getElem?.mp hm'
    exact List.mem_of_mem_take (h.forced i m' hi d hf')

theorem DepInv.deliver (h : DepInv xs b) (hm : msg ∈ xs) (hd : b.isDeliverable msg = true)
    (hp : DepsForced xs b msg) : DepInv xs (b.deliver msg) := by
  have ht := time_deliver_deliverable hd
  have hc := (isDeliverable_iff.mp hd).1
  have hf : ∀ d, Forced xs d msg → d ∈ b.delivered := fun d => h.delivered_of_forced hd
  have hdeps : ∀ d, d ∈ msg.dependencies → d ∈ b.delivered := fun d h =>
    (hp d h).elim id (hf d)
  refine ⟨fun a => (h.nonneg a).trans (le_time_deliver a), by simp [h.delivered],
    fun m' hm' => ?_, fun a k h0 hk => ?_, h.forced.deliver h.delivered hf,
    h.honoured.deliver h.delivered hdeps⟩
  · rcases List.mem_append.mp hm' with hm' | hm'
    · exact h.arrived m' hm'
    · rw [List.mem_singleton.mp hm']
      exact hm
  · by_cases hnew : msg.sourceCore = a ∧ msg.counter = k
    · exact ⟨msg, List.mem_append_right _ (List.mem_singleton_self _), hnew⟩
    · have hle : k ≤ b.time a := by
        rw [ht] at hk
        split at hk
        · rename_i e
          have hne : msg.counter ≠ k := fun e' => hnew ⟨e.symm, e'⟩
          rw [e] at hk ⊢
          omega
        · exact hk
      obtain ⟨m', hm', hs⟩ := h.step_mem a k h0 hle
      exact ⟨m', List.mem_append_left _ hm', hs⟩

/-- A dependency stays delivered. -/
theorem DepsForced.mono (h : DepsForced xs b m) (hd : ∀ d ∈ b.delivered, d ∈ t.delivered) :
    DepsForced xs t m := fun d hm => (h d hm).imp_left (hd d)

theorem DepInv.drains (h : DepInv xs b) (ht : b.Drains msgs t)
    (hm : ∀ m ∈ msgs, m ∈ xs ∧ DepsForced xs b m) : DepInv xs t := by
  induction ht with
  | nil => exact h
  | cons hd _ ih =>
    rw [List.forall_mem_cons] at hm
    refine ih (h.deliver hm.1.1 hd hm.1.2) fun m hm' => ?_
    exact (hm.2 m hm').imp_right fun h => h.mono fun _ => List.mem_append_left _

theorem DepInv.withQueue (h : DepInv xs b) (q : List (BroadcastMessage π)) :
    DepInv xs (b.withQueue q) :=
  ⟨h.nonneg, h.delivered, h.arrived, h.step_mem, h.forced, h.honoured⟩

/-- A message arrives whose dependencies have been delivered or are forced. -/
theorem DepInv.receive (h : DepInv xs b) (hc : msg.isHealth = false) (hx : msg ∈ xs)
    (hp : DepsForced xs b msg) (hq : ∀ m ∈ b.holdQueue, m ∈ xs ∧ DepsForced xs b m) :
    DepInv xs (b.receive msg) ∧
      ∀ m ∈ (b.receive msg).holdQueue, m ∈ xs ∧ DepsForced xs (b.receive msg) m := by
  obtain ⟨msgs, rest, t, ht, he, hperm, -⟩ := receive_spec hc b
  have hall : ∀ m ∈ msgs ++ rest, m ∈ xs ∧ DepsForced xs b m := fun m hm => by
    rcases List.mem_append.mp (hperm.symm.subset hm) with hm | hm
    · exact hq m hm
    · rw [List.mem_singleton.mp hm]
      exact ⟨hx, hp⟩
  rw [he]
  refine ⟨(h.drains ht fun m hm => hall m (List.mem_append_left _ hm)).withQueue rest,
    fun m hm => (hall m (List.mem_append_right _ hm)).imp_right fun hf => hf.mono fun d hd => ?_⟩
  show d ∈ t.delivered
  rw [ht.delivered_eq]
  exact List.mem_append_left _ hd

end CausalBroadcast

/-- Causal messages arrive at a fresh object, each dependency of each delivered
before or forced. Then, at any time, each message delivered comes after its
dependencies in `delivered`, and each that has arrived with a dependency not
delivered is held. -/
theorem dependencies_honoured (localActor : String) {xs : List (BroadcastMessage π)}
    (hc : ∀ m ∈ xs, m.isHealth = false)
    (hf : Machine.EveryStep receive (DepsForced xs) (new localActor) xs) {pre}
    (hpre : pre <+: xs) :
    let b := (new localActor).receiveAll pre
    (∀ (i : Nat) m, b.handled[i]? = some m → ∀ d ∈ m.dependencies, d ∈ b.delivered.take i) ∧
      ∀ m ∈ pre, ∀ d ∈ m.dependencies, d ∉ b.delivered → m ∈ b.holdQueue := by
  have hinv : ∀ pre, pre <+: xs → DepInv xs ((new localActor).receiveAll pre) ∧
      ∀ m ∈ ((new localActor).receiveAll pre).holdQueue,
        m ∈ xs ∧ DepsForced xs ((new localActor).receiveAll pre) m := by
    intro pre hpre
    induction pre using List.reverseRecOn with
    | nil => exact ⟨.new xs localActor, fun _ h => absurd h List.not_mem_nil⟩
    | append_singleton pre m ih =>
      obtain ⟨post, hpost⟩ := hpre
      have he : xs = pre ++ m :: post := by simpa using hpost.symm
      have hm : m ∈ xs := by simp [he]
      obtain ⟨hi, hq⟩ := ih ⟨m :: post, he.symm⟩
      rw [receiveAll_append]
      exact hi.receive (hc m hm) hm (hf pre m post he) hq
  intro b
  obtain ⟨h, -⟩ := hinv pre hpre
  refine ⟨fun i m hi d hd => h.honoured i m hi d hd, fun m hm d hd hn => ?_⟩
  have hnew : ∀ m ∈ (new localActor : CausalBroadcast π).holdQueue,
      (new localActor).isDeliverable m = false := fun _ h => absurd h List.not_mem_nil
  obtain ⟨msgs, rest, t, ht, he, hp, -⟩ :=
    receiveAll_spec (fun m hm => hc m (hpre.subset hm)) (new localActor) hnew
  have hb : b = t.withQueue rest := he
  rcases List.mem_append.mp (hp.subset (List.mem_append_right _ hm)) with hm | hm
  · -- Delivered, so its dependency has been too.
    have hmem : m ∈ b.handled := by
      rw [hb, withQueue_handled, ht.handled_eq]
      exact List.mem_append_right _ hm
    obtain ⟨i, hi⟩ := List.mem_iff_getElem?.mp hmem
    exact absurd (List.mem_of_mem_take (h.honoured i m hi d hd)) hn
  · rw [hb]
    exact hm

/-- `q`'s first message, and a message of `r` that depends on it and shows it in its clock. -/
def shown : BroadcastMessage Unit :=
  { (new "r").outbound "memory" () "" "1" with
    vectorClock := (Dict.single "r" 1).set "q" 1
    dependencies := [lead.messageId] }

/-- The dependency is forced, and honoured in either order. -/
theorem dependency_shown :
    let b := (new "p").receiveAll [shown, lead]
    (∀ (i : Nat) m, b.handled[i]? = some m → ∀ d ∈ m.dependencies, d ∈ b.delivered.take i) ∧
      ∀ m ∈ [shown, lead], ∀ d ∈ m.dependencies, d ∉ b.delivered → m ∈ b.holdQueue := by
  have hf : Forced [shown, lead] lead.messageId shown := by
    refine ⟨fun m => m = shown, rfl, fun m hm _ => ?_⟩
    subst hm
    refine ⟨"q", 1, ⟨by decide, by decide⟩, fun m' hm' hs _ => .inl ?_⟩
    rcases List.mem_pair.mp hm' with rfl | rfl
    · exact absurd hs (by decide)
    · rfl
  refine dependencies_honoured "p" (by decide) (fun pre m post he d hd => ?_) (List.prefix_refl _)
  have hm : m ∈ [shown, lead] := by simp [he]
  rcases List.mem_pair.mp hm with rfl | rfl
  · rw [List.mem_singleton.mp hd]
    exact .inr hf
  · exact absurd hd List.not_mem_nil

/-- A first message whose dependency nobody has sent. -/
def orphan : BroadcastMessage Unit :=
  { (new "q").outbound "control" () "" "0" with dependencies := ["bc_1"] }

/-- It is delivered at once. -/
theorem dependency_ignored :
    let b := (new "p").receiveAll [orphan]
    b.handled = [orphan] ∧ b.delivered = [orphan.messageId] ∧ "bc_1" ∈ orphan.dependencies ∧
      "bc_1" ∉ b.delivered ∧ orphan ∉ b.holdQueue := by decide

end Gaia.Ipc
