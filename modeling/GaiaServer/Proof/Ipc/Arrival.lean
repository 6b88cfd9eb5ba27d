import GaiaServer.Proof.Ipc.Health
import Mathlib.Data.List.Pairwise

/-!
# Arrival order

Causal messages received one by one are split into a sequence that is delivered
and a rest, none of which is deliverable in the end (`receiveAll_spec`). Two such
ends of the same messages have the same clock: what the one delivers is at its turn
covered by the other's clock, or deliverable there and so not in its rest
(`Drains.time_le_of_maximal`). A source and a counter that the clock has passed
belong to a delivered message (`Drains.step_mem`), so if they name one message only,
both have delivered the same ones (`arrival_order`).
-/

namespace Gaia.Ipc

open CausalBroadcast

variable {π : Type}

namespace CausalBroadcast

variable {b t t' : CausalBroadcast π} {msgs rest msgs' rest' xs : List (BroadcastMessage π)}

/-- What one call after another delivers and leaves. -/
theorem receiveAll_spec (hc : ∀ m ∈ xs, m.isHealth = false) (b : CausalBroadcast π)
    (hb : ∀ m ∈ b.holdQueue, b.isDeliverable m = false) :
    ∃ msgs rest t, b.Drains msgs t ∧ b.receiveAll xs = t.withQueue rest ∧
      (b.holdQueue ++ xs).Perm (msgs ++ rest) ∧ ∀ m ∈ rest, t.isDeliverable m = false := by
  induction xs generalizing b with
  | nil => exact ⟨[], b.holdQueue, b, .nil, rfl, by simp, hb⟩
  | cons x xs ih =>
    rw [List.forall_mem_cons] at hc
    obtain ⟨msgs, rest, t, ht, he, hp, hn⟩ := receive_spec hc.1 b
    obtain ⟨msgs', rest', t', ht', he', hp', hn'⟩ := ih hc.2 (t.withQueue rest) hn
    refine ⟨msgs ++ msgs', rest', t'.withQueue b.holdQueue, ht.append ?_, ?_, ?_, hn'⟩
    · have h := ht'.withQueue t.holdQueue
      rwa [withQueue_withQueue, withQueue_self, ht.holdQueue_eq] at h
    · rw [receiveAll_cons, he, he', withQueue_withQueue]
    · have hx : (b.holdQueue ++ x :: xs).Perm (msgs ++ (rest ++ xs)) := by
        simpa using hp.append_right xs
      rw [List.append_assoc]
      exact hx.trans (hp'.append_left msgs)

/-- A clock entry is there if it was before, or a message of its source has been
delivered. -/
theorem Drains.isSome_clock (h : b.Drains msgs t) (a : String) :
    (t.clock.get? a).isSome ↔ (b.clock.get? a).isSome ∨ ∃ m ∈ msgs, m.sourceCore = a := by
  induction h with
  | nil => simp
  | @cons b t msg msgs _ _ ih =>
    have hc : ((b.deliver msg).clock.get? a).isSome ↔
        (b.clock.get? a).isSome ∨ msg.sourceCore = a := by
      simp only [deliver, Dict.get?_set]
      split
      · rename_i e
        simp [e]
      · rename_i e
        simp [Ne.symm e]
    rw [ih, hc]
    simp [or_assoc]

/-! ## Two ends of the same messages -/

/-- What is delivered from `b` on is covered in `t'`, if the messages are all
delivered or left there and none left is deliverable. -/
theorem Drains.time_le_of_maximal {b' : CausalBroadcast π} (h' : b'.Drains msgs' t')
    (hn' : ∀ m ∈ rest', t'.isDeliverable m = false) (h : b.Drains msgs t)
    (hm : ∀ m ∈ msgs, m ∈ msgs' ++ rest') (hle : ∀ a, b.time a ≤ t'.time a) (a : String) :
    t.time a ≤ t'.time a := by
  induction h with
  | nil => exact hle a
  | @cons b t msg msgs hd _ ih =>
    rw [List.forall_mem_cons] at hm
    refine ih hm.2 fun c => ?_
    have hcov : msg.counter ≤ t'.time msg.sourceCore := by
      rcases List.mem_append.mp hm.1 with hmem | hmem
      · exact (h'.counter_mem msg hmem).2
      · -- Left, though all that it waits for has been delivered.
        by_contra hlt
        obtain ⟨hc, ho⟩ := isDeliverable_iff.mp hd
        have hs := hle msg.sourceCore
        refine Bool.eq_false_iff.mp (hn' msg hmem) (isDeliverable_iff.mpr ⟨by omega, ?_⟩)
        intro c hcs n hcn
        exact (ho c hcs n hcn).trans (hle c)
    rw [time_deliver]
    split
    · rename_i e
      rw [e]
      exact max_le (hle _) hcov
    · exact hle c

/-- The clocks of two such ends agree. -/
theorem Drains.time_eq_of_perm (h : b.Drains msgs t) (hn : ∀ m ∈ rest, t.isDeliverable m = false)
    (h' : b.Drains msgs' t') (hn' : ∀ m ∈ rest', t'.isDeliverable m = false)
    (hp : (msgs ++ rest).Perm (msgs' ++ rest')) (a : String) : t.time a = t'.time a := by
  have hm : ∀ m ∈ msgs, m ∈ msgs' ++ rest' := fun m hm => hp.subset (List.mem_append_left _ hm)
  have hm' : ∀ m ∈ msgs', m ∈ msgs ++ rest := fun m hm =>
    hp.symm.subset (List.mem_append_left _ hm)
  exact le_antisymm (h'.time_le_of_maximal hn' h hm h'.le_time a)
    (h.time_le_of_maximal hn h' hm' h.le_time a)

/-- The two messages are of one source, with the same counter in their clocks. -/
def SameSlot (m m' : BroadcastMessage π) : Prop :=
  m.sourceCore = m'.sourceCore ∧ ∃ k, m.vectorClock.get? m.sourceCore = some k ∧
    m'.vectorClock.get? m'.sourceCore = some k

theorem SameSlot.symm {m m' : BroadcastMessage π} (h : SameSlot m m') : SameSlot m' m := by
  obtain ⟨hs, k, hk, hk'⟩ := h
  exact ⟨hs.symm, k, hk', hk⟩

/-- A counter that is not 0 stands in the message's clock. -/
theorem get?_of_counter {m : BroadcastMessage π} {k : Int} (h : m.counter = k) (hk : k ≠ 0) :
    m.vectorClock.get? m.sourceCore = some k := by
  rw [BroadcastMessage.counter, BroadcastMessage.stamp, Dict.get] at h
  cases hg : m.vectorClock.get? m.sourceCore with
  | none =>
    rw [hg] at h
    exact absurd h.symm hk
  | some n =>
    rw [hg] at h
    exact congrArg some h

theorem sameSlot_of_counter {m m' : BroadcastMessage π} (hs : m.sourceCore = m'.sourceCore)
    (hc : m.counter = m'.counter) (h0 : m.counter ≠ 0) : SameSlot m m' :=
  ⟨hs, m.counter, get?_of_counter rfl h0, get?_of_counter hc.symm h0⟩

/-- An entry of the clock is given by whether it is there and its time. -/
theorem get?_clock_eq {t t' : CausalBroadcast π} {a : String}
    (hs : (t.clock.get? a).isSome ↔ (t'.clock.get? a).isSome) (hv : t.time a = t'.time a) :
    t.clock.get? a = t'.clock.get? a := by
  rw [time, time, Dict.get, Dict.get] at hv
  cases h : t.clock.get? a with
  | none =>
    rw [h] at hs
    exact (Option.not_isSome_iff_eq_none.mp fun h' => by simpa using hs.mpr h').symm
  | some n =>
    rw [h] at hs hv
    obtain ⟨n', h'⟩ := Option.isSome_iff_exists.mp (hs.mp rfl)
    rw [h'] at hv ⊢
    exact congrArg some hv

section Slots

variable (hnn : ∀ a, 0 ≤ b.time a) (hd : xs.Pairwise fun m m' => ¬ SameSlot m m')
include hnn hd

theorem Drains.nodup_of_slots (h : b.Drains msgs t) (hp : xs.Perm (msgs ++ rest)) :
    msgs.Nodup := by
  have hd' := (hp.pairwise hd fun hn hs => hn hs.symm).sublist (List.sublist_append_left _ _)
  refine hd'.imp_of_mem fun {m m'} hm _ hns e => ?_
  have h0 := (h.counter_mem m hm).1
  have := hnn m.sourceCore
  exact hns (e ▸ sameSlot_of_counter rfl rfl (by omega))

/-- What the one end has delivered, the other has. -/
theorem Drains.subset_of_time_eq (h : b.Drains msgs t) (h' : b.Drains msgs' t')
    (ht : ∀ a, t.time a = t'.time a) (hp : xs.Perm (msgs ++ rest))
    (hp' : xs.Perm (msgs' ++ rest')) : msgs ⊆ msgs' := by
  intro m hm
  obtain ⟨hlo, hhi⟩ := h.counter_mem m hm
  obtain ⟨m', hm', hs, hc⟩ := h'.step_mem hlo (ht _ ▸ hhi)
  have h0 := hnn m.sourceCore
  have hx : m ∈ xs := hp.symm.subset (List.mem_append_left _ hm)
  have hx' : m' ∈ xs := hp'.symm.subset (List.mem_append_left _ hm')
  by_contra hne
  have hmm : m ≠ m' := fun e => hne (e ▸ hm')
  have hsymm : Std.Symm fun m m' : BroadcastMessage π => ¬ SameSlot m m' :=
    ⟨fun _ _ hn hs => hn hs.symm⟩
  exact hd.forall hx hx' hmm (sameSlot_of_counter hs.symm hc.symm (by omega))

end Slots

end CausalBroadcast

/-- A fresh object that receives causal messages, no two of one source with the
same counter: in any order of arrival, it ends with the same clock, and has
delivered and still holds the same messages. -/
theorem arrival_order (localActor : String) {xs ys : List (BroadcastMessage π)} (hp : xs.Perm ys)
    (hc : ∀ m ∈ xs, m.isHealth = false) (hd : xs.Pairwise fun m m' => ¬ SameSlot m m') :
    let b := (new localActor).receiveAll xs
    let b' := (new localActor).receiveAll ys
    (∀ a, b.clock.get? a = b'.clock.get? a) ∧ b.delivered.Perm b'.delivered ∧
      b.handled.Perm b'.handled ∧ b.holdQueue.Perm b'.holdQueue := by
  intro b b'
  have hnew : ∀ m ∈ (new localActor : CausalBroadcast π).holdQueue,
      (new localActor).isDeliverable m = false := fun _ h => absurd h List.not_mem_nil
  have hnn : ∀ a, 0 ≤ (new localActor : CausalBroadcast π).time a := fun a => by simp
  obtain ⟨msgs, rest, t, ht, he, hx, hn⟩ := receiveAll_spec hc _ hnew
  obtain ⟨msgs', rest', t', ht', he', hy, hn'⟩ :=
    receiveAll_spec (fun m hm => hc m (hp.symm.subset hm)) _ hnew
  replace hx : xs.Perm (msgs ++ rest) := hx
  replace hy : xs.Perm (msgs' ++ rest') := hp.trans hy
  have hperm := hx.symm.trans hy
  have htime := ht.time_eq_of_perm hn ht' hn' hperm
  have hmem : ∀ m, m ∈ msgs ↔ m ∈ msgs' := fun m =>
    ⟨fun h => ht.subset_of_time_eq hnn hd ht' htime hx hy h,
      fun h => ht'.subset_of_time_eq hnn hd ht (fun a => (htime a).symm) hy hx h⟩
  have hnd : msgs.Nodup := ht.nodup_of_slots hnn hd hx
  have hnd' : msgs'.Nodup := ht'.nodup_of_slots hnn hd hy
  have hmsgs : msgs.Perm msgs' := (List.perm_ext_iff_of_nodup hnd hnd').mpr hmem
  have hb : b = t.withQueue rest := he
  have hb' : b' = t'.withQueue rest' := he'
  rw [hb, hb']
  refine ⟨fun a => ?_, ?_, ?_, ?_⟩
  · show t.clock.get? a = t'.clock.get? a
    have hs : (t.clock.get? a).isSome ↔ (t'.clock.get? a).isSome := by
      rw [ht.isSome_clock, ht'.isSome_clock]
      simp only [hmem]
    exact get?_clock_eq hs (htime a)
  · show t.delivered.Perm t'.delivered
    rw [ht.delivered_eq, ht'.delivered_eq]
    exact (hmsgs.map _).append_left _
  · show t.handled.Perm t'.handled
    rw [ht.handled_eq, ht'.handled_eq]
    exact hmsgs.append_left _
  · show rest.Perm rest'
    exact (List.perm_append_left_iff msgs).mp (hperm.trans (hmsgs.symm.append_right rest'))

/-- `q`'s two control messages may arrive in either order. -/
theorem arrival_of_two :
    let b := (new "p").receiveAll [lead, follow]
    let b' := (new "p").receiveAll [follow, lead]
    (∀ a, b.clock.get? a = b'.clock.get? a) ∧ b.delivered.Perm b'.delivered ∧
      b.handled.Perm b'.handled ∧ b.holdQueue.Perm b'.holdQueue := by
  have hslot : ¬ SameSlot lead follow := by
    rintro ⟨-, k, hk, hk'⟩
    have h1 : lead.vectorClock.get? lead.sourceCore = some 1 := by decide
    have h3 : follow.vectorClock.get? follow.sourceCore = some 3 := by decide
    rw [h1] at hk
    rw [h3] at hk'
    exact absurd (hk.trans hk'.symm) (by decide)
  exact arrival_order "p" (List.Perm.swap _ _ _) (by decide) (by simpa using hslot)

end Gaia.Ipc
