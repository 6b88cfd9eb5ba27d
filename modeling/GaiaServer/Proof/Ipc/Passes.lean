import GaiaServer.Impl.Ipc.Handlers
import GaiaServer.Proof.Ipc.Drain
import Mathlib.Logic.Hydra

/-!
# The passes of the drain loop

What one pass does with the messages it pops (`Scans`): it delivers some and sets the
others aside, in order. A pass comes to the end of the queue, or a delivery of it does not
come to its end (`scans_or_escapes`). So the loop over the passes ends, whatever the
handlers do (`tryDeliverBuffered_iff`). When no handler lets an exception leave, the object
is as in the model without handlers (`receive_contained`). When each delivery comes to the
end of the handlers besides, each pass but the last delivers a message, and what is
delivered and what is left are together the queue (`drain_terminates`). A delivery comes
to the end of the handlers if those that a handler subscribes during its call, those that
these subscribe, and so on, come to an end (`deliveriesEnd_of_wellFounded`); it does not
where a handler subscribes itself (`echo_unended`).
-/

namespace Gaia.Ipc

variable {η σ π : Type} {behave : Behaviour η σ π} {rounds more : Nat}

namespace Subscribed

variable {n t : Subscribed η σ π} {msg : BroadcastMessage π}

@[simp] theorem withQueue_object (queue : List (BroadcastMessage π)) :
    (n.withQueue queue).object = n.object.withQueue queue := rfl

/-! ## One delivery -/

theorem callHandlers_object (msg : BroadcastMessage π) (rounds place : Nat)
    (n : Subscribed η σ π) : (callHandlers behave msg rounds place n).2.object = n.object := by
  induction rounds generalizing place n with
  | zero => rfl
  | succ rounds ih =>
    rw [callHandlers]
    cases n.handlers[place]? with
    | none => rfl
    | some handler =>
      dsimp only
      cases (behave handler msg n.outside).ended with
      | returned => exact ih ..
      | raised _ => exact ih ..
      | left exc => rfl

theorem deliver_object (behave : Behaviour η σ π) (rounds : Nat) (n : Subscribed η σ π)
    (msg : BroadcastMessage π) : (n.deliver behave rounds msg).2.object = n.object.deliver msg :=
  callHandlers_object ..

/-- A loop that ends does so with more rounds, too. -/
theorem callHandlers_mono {place : Nat} {r : Except Stop Unit} (hr : r ≠ .error .unended)
    (h : callHandlers behave msg rounds place n = (r, t)) (hle : rounds ≤ more) :
    callHandlers behave msg more place n = (r, t) := by
  induction rounds generalizing place n more with
  | zero => exact absurd (congrArg Prod.fst h).symm hr
  | succ rounds ih =>
    obtain ⟨more, rfl⟩ := Nat.exists_eq_add_of_le' hle
    rw [callHandlers] at h
    rw [Nat.add_succ, callHandlers]
    cases hp : n.handlers[place]? with
    | none =>
      rw [hp] at h
      exact h
    | some handler =>
      rw [hp] at h
      dsimp only at h ⊢
      cases he : (behave handler msg n.outside).ended with
      | returned =>
        rw [he] at h
        exact ih h (Nat.le_add_left ..)
      | raised _ =>
        rw [he] at h
        exact ih h (Nat.le_add_left ..)
      | left exc =>
        rw [he] at h
        exact h

theorem deliver_mono {r : Except Stop Unit} (hr : r ≠ .error .unended)
    (h : n.deliver behave rounds msg = (r, t)) (hle : rounds ≤ more) :
    n.deliver behave more msg = (r, t) :=
  callHandlers_mono hr h hle

/-! ## One pass -/

/-- The pass pops `popped`, delivers `delivered` of them and sets `aside` aside. -/
inductive Scans (behave : Behaviour η σ π) (rounds : Nat) : Subscribed η σ π →
    (popped delivered aside : List (BroadcastMessage π)) → Subscribed η σ π → Prop
  | nil {n : Subscribed η σ π} : Scans behave rounds n [] [] [] n
  | deliver {n n₁ t : Subscribed η σ π} {msg popped delivered aside} :
      n.object.isDeliverable msg = true → n.deliver behave rounds msg = (.ok (), n₁) →
      Scans behave rounds n₁ popped delivered aside t →
      Scans behave rounds n (msg :: popped) (msg :: delivered) aside t
  | hold {n t : Subscribed η σ π} {msg popped delivered aside} :
      n.object.isDeliverable msg = false → Scans behave rounds n popped delivered aside t →
      Scans behave rounds n (msg :: popped) delivered (msg :: aside) t

variable {popped delivered aside : List (BroadcastMessage π)}

theorem Scans.perm (h : Scans behave rounds n popped delivered aside t) :
    popped.Perm (delivered ++ aside) := by
  induction h with
  | nil => exact .nil
  | deliver _ _ _ ih => exact ih.cons _
  | hold _ _ ih => exact (ih.cons _).trans List.perm_middle.symm

theorem Scans.sublist (h : Scans behave rounds n popped delivered aside t) :
    aside.Sublist popped := by
  induction h with
  | nil => exact .slnil
  | deliver _ _ _ ih => exact ih.cons _
  | hold _ _ ih => exact ih.cons_cons _

theorem Scans.delivered_eq (h : Scans behave rounds n popped delivered aside t) :
    t.object.delivered = n.object.delivered ++ delivered.map (·.messageId) := by
  induction h with
  | nil => simp
  | deliver _ hd _ ih =>
    have ho := congrArg (fun r => r.2.object) hd
    rw [deliver_object] at ho
    rw [ih, ← ho]
    simp
  | hold _ _ ih => exact ih

/-- A pass goes on from where it is. -/
theorem drainPass_scans (h : Scans behave rounds n popped delivered aside t)
    (queue remaining : List (BroadcastMessage π)) (deliveredAny : Bool) :
    drainPass behave rounds (popped ++ queue) remaining deliveredAny n =
      drainPass behave rounds queue (remaining ++ aside) (deliveredAny || !delivered.isEmpty)
        t := by
  induction h generalizing remaining deliveredAny with
  | nil => simp
  | deliver hd hr _ ih =>
    rw [List.cons_append, drainPass, if_pos hd, hr]
    refine (ih remaining true).trans ?_
    simp
  | hold hd _ ih =>
    rw [List.cons_append, drainPass, if_neg (by simp [hd]), ih]
    simp

theorem Scans.mono (h : Scans behave rounds n popped delivered aside t) (hle : rounds ≤ more) :
    Scans behave more n popped delivered aside t := by
  induction h with
  | nil => exact .nil
  | deliver hd hr _ ih => exact .deliver hd (deliver_mono (by simp) hr hle) ih
  | hold hd _ ih => exact .hold hd ih

/-- The pass from `n` over `queue` has set `aside` aside when the delivery of the last of
`delivered` stops without coming to its end, in `t`; `rest` is not popped by then. -/
def Escapes (behave : Behaviour η σ π) (rounds : Nat) (n : Subscribed η σ π)
    (queue delivered aside rest : List (BroadcastMessage π)) (stop : Stop)
    (t : Subscribed η σ π) : Prop :=
  ∃ popped before msg t₁, queue = popped ++ msg :: rest ∧ delivered = before ++ [msg] ∧
    Scans behave rounds n popped before aside t₁ ∧ t₁.object.isDeliverable msg = true ∧
      t₁.deliver behave rounds msg = (.error stop, t)

variable {queue rest : List (BroadcastMessage π)} {stop : Stop}

theorem Escapes.deliver {n₁ : Subscribed η σ π} (hd : n.object.isDeliverable msg = true)
    (hr : n.deliver behave rounds msg = (.ok (), n₁))
    (h : Escapes behave rounds n₁ queue delivered aside rest stop t) :
    Escapes behave rounds n (msg :: queue) (msg :: delivered) aside rest stop t := by
  obtain ⟨popped, before, m, t₁, rfl, rfl, hs, he⟩ := h
  exact ⟨msg :: popped, msg :: before, m, t₁, rfl, rfl, hs.deliver hd hr, he⟩

theorem Escapes.hold (hd : n.object.isDeliverable msg = false)
    (h : Escapes behave rounds n queue delivered aside rest stop t) :
    Escapes behave rounds n (msg :: queue) delivered (msg :: aside) rest stop t := by
  obtain ⟨popped, before, m, t₁, rfl, rfl, hs, he⟩ := h
  exact ⟨msg :: popped, before, m, t₁, rfl, rfl, hs.hold hd, he⟩

/-- A pass comes to the end of its queue, or a delivery of it does not come to its end. -/
theorem scans_or_escapes (behave : Behaviour η σ π) (rounds : Nat) (n : Subscribed η σ π)
    (queue : List (BroadcastMessage π)) :
    (∃ delivered aside t, Scans behave rounds n queue delivered aside t) ∨
      ∃ delivered aside rest stop t,
        Escapes behave rounds n queue delivered aside rest stop t := by
  induction queue generalizing n with
  | nil => exact .inl ⟨[], [], n, .nil⟩
  | cons msg queue ih =>
    cases hd : n.object.isDeliverable msg with
    | false =>
      rcases ih n with ⟨delivered, aside, t, h⟩ | ⟨delivered, aside, rest, stop, t, h⟩
      · exact .inl ⟨delivered, msg :: aside, t, h.hold hd⟩
      · exact .inr ⟨delivered, msg :: aside, rest, stop, t, h.hold hd⟩
    | true =>
      rcases hr : n.deliver behave rounds msg with ⟨stop | _, n₁⟩
      · exact .inr ⟨[msg], [], queue, stop, n₁, [], [], msg, n, rfl, rfl, .nil, hd, hr⟩
      · rcases ih n₁ with ⟨delivered, aside, t, h⟩ | ⟨delivered, aside, rest, stop, t, h⟩
        · exact .inl ⟨msg :: delivered, aside, t, h.deliver hd hr⟩
        · exact .inr ⟨msg :: delivered, aside, rest, stop, t, h.deliver hd hr⟩

theorem pass_of_scans (h : Scans behave rounds n n.object.holdQueue delivered aside t) :
    n.pass behave rounds = (.ok (!delivered.isEmpty), t.withQueue aside) := by
  have hgo := drainPass_scans h [] [] false
  rw [List.append_nil] at hgo
  rw [pass, hgo]
  simp [drainPass]

theorem pass_of_escapes
    (h : Escapes behave rounds n n.object.holdQueue delivered aside rest stop t) :
    n.pass behave rounds = (.error stop, t.withQueue rest) := by
  obtain ⟨popped, before, msg, t₁, hq, -, hs, hd, hr⟩ := h
  rw [pass, hq, drainPass_scans hs, drainPass, if_pos hd, hr]

/-- A pass that goes on delivered something: the rest of the queue is shorter. -/
theorem pass_goes (h : n.pass behave rounds = (.ok true, t)) : ∃ delivered t₁,
    Scans behave rounds n n.object.holdQueue delivered t.object.holdQueue t₁ ∧ delivered ≠ [] ∧
      t = t₁.withQueue t.object.holdQueue := by
  rcases scans_or_escapes behave rounds n n.object.holdQueue with ⟨delivered, aside, t₁, hs⟩ | he
  · rw [pass_of_scans hs] at h
    obtain ⟨hany, rfl⟩ := Prod.mk.inj h
    refine ⟨delivered, t₁, hs, fun hnil => ?_, rfl⟩
    rw [hnil] at hany
    cases hany
  · obtain ⟨_, _, _, _, _, he⟩ := he
    rw [pass_of_escapes he] at h
    cases h

theorem Scans.eq_of_nil (h : Scans behave rounds n popped [] aside t) :
    aside = popped ∧ t = n := by
  generalize hnil : ([] : List (BroadcastMessage π)) = delivered at h
  induction h with
  | nil => exact ⟨rfl, rfl⟩
  | deliver => cases hnil
  | hold _ _ ih =>
    obtain ⟨rfl, rfl⟩ := ih hnil
    exact ⟨rfl, rfl⟩

theorem pass_error_iff : n.pass behave rounds = (.error stop, t) ↔ ∃ delivered aside rest t₁,
    Escapes behave rounds n n.object.holdQueue delivered aside rest stop t₁ ∧
      t = t₁.withQueue rest := by
  constructor
  · intro h
    rcases scans_or_escapes behave rounds n n.object.holdQueue with
      ⟨delivered, aside, t₁, hs⟩ | he
    · rw [pass_of_scans hs] at h
      cases h
    · obtain ⟨delivered, aside, rest, stop', t₁, he⟩ := he
      rw [pass_of_escapes he] at h
      obtain ⟨hstop, rfl⟩ := Prod.mk.inj h
      obtain rfl := Except.error.inj hstop
      exact ⟨delivered, aside, rest, t₁, he, rfl⟩
  · intro h
    obtain ⟨delivered, aside, rest, t₁, he, rfl⟩ := h
    exact pass_of_escapes he

theorem length_of_goes (n t : Subscribed η σ π) (h : n.pass behave rounds = (.ok true, t)) :
    t.object.holdQueue.length < n.object.holdQueue.length := by
  obtain ⟨delivered, t₁, hs, hne, -⟩ := pass_goes h
  have hlen := hs.perm.length_eq
  have hpos := List.length_pos_iff.mpr hne
  rw [List.length_append] at hlen
  omega

/-! ## The loop -/

/-- The loop over the passes ends, whatever the handlers do. -/
theorem tryDeliverBuffered_iff {r : Except Stop Unit} :
    n.tryDeliverBuffered behave rounds = (r, t) ↔
      ∃ passes, Loop.Runs (pass behave rounds) n passes r t :=
  Loop.repeatWhile_eq_iff (μ := fun n => n.object.holdQueue.length) length_of_goes
    (Nat.lt_succ_self _)

/-- Passes that come to the end of their queue and go on, which deliver `delivered`. -/
inductive Passes (behave : Behaviour η σ π) (rounds : Nat) : Subscribed η σ π →
    List (BroadcastMessage π) → Subscribed η σ π → Prop
  | nil {n : Subscribed η σ π} : Passes behave rounds n [] n
  | cons {n t u : Subscribed η σ π} {delivered aside later} :
      Scans behave rounds n n.object.holdQueue delivered aside t → delivered ≠ [] →
      Passes behave rounds (t.withQueue aside) later u →
      Passes behave rounds n (delivered ++ later) u

theorem Passes.mono (h : Passes behave rounds n delivered t) (hle : rounds ≤ more) :
    Passes behave more n delivered t := by
  induction h with
  | nil => exact .nil
  | cons hs hne _ ih => exact .cons (hs.mono hle) hne ih

/-- Each pass that goes on delivers a message. -/
theorem Passes.goes (h : Passes behave rounds n delivered t) :
    ∃ passes, Loop.Goes (pass behave rounds) n passes t ∧ passes ≤ delivered.length := by
  induction h with
  | nil => exact ⟨0, .refl, Nat.le_refl _⟩
  | @cons n t u delivered _ _ hs hne _ ih =>
    obtain ⟨passes, hg, hle⟩ := ih
    refine ⟨passes + 1, .again ?_ hg, ?_⟩
    · rw [pass_of_scans hs]
      simp [hne]
    · have hpos := List.length_pos_iff.mpr hne
      rw [List.length_append]
      omega

theorem passes_of_goes {passes : Nat} (h : Loop.Goes (pass behave rounds) n passes t) :
    ∃ delivered, Passes behave rounds n delivered t := by
  induction h with
  | refl => exact ⟨[], .nil⟩
  | again hp _ ih =>
    obtain ⟨later, hlater⟩ := ih
    obtain ⟨delivered, t₁, hs, hne, ht⟩ := pass_goes hp
    rw [ht] at hlater
    exact ⟨delivered ++ later, .cons hs hne hlater⟩

/-- What is delivered and what is left are the queue. -/
theorem Passes.perm (h : Passes behave rounds n delivered t) :
    t.object.delivered = n.object.delivered ++ delivered.map (·.messageId) ∧
      (delivered ++ t.object.holdQueue).Perm n.object.holdQueue := by
  induction h with
  | nil => exact ⟨(List.append_nil _).symm, .refl _⟩
  | cons hs _ _ ih =>
    obtain ⟨hd, hp⟩ := ih
    refine ⟨?_, ?_⟩
    · rw [hd, withQueue_object, CausalBroadcast.withQueue_delivered, hs.delivered_eq,
        List.map_append, List.append_assoc]
    · rw [List.append_assoc]
      exact (hp.append_left _).trans hs.perm.symm

theorem Passes.sublist (h : Passes behave rounds n delivered t) :
    t.object.holdQueue.Sublist n.object.holdQueue := by
  induction h with
  | nil => exact .refl _
  | cons hs _ _ ih => exact ih.trans hs.sublist

/-! ## Handlers that let no exception leave -/

/-- Every call of a handler returns, or raises an `Exception`. -/
def Contained (behave : Behaviour η σ π) : Prop :=
  ∀ handler msg outside exc, (behave handler msg outside).ended ≠ .left exc

theorem callHandlers_contained (h : Contained behave) (msg : BroadcastMessage π)
    (rounds place : Nat) (n : Subscribed η σ π)
    (hne : (callHandlers behave msg rounds place n).1 ≠ .error .unended) :
    (callHandlers behave msg rounds place n).1 = .ok () := by
  induction rounds generalizing place n with
  | zero => exact absurd rfl hne
  | succ rounds ih =>
    rw [callHandlers] at hne ⊢
    cases hp : n.handlers[place]? with
    | none => rfl
    | some handler =>
      rw [hp] at hne
      dsimp only at hne ⊢
      cases he : (behave handler msg n.outside).ended with
      | returned =>
        rw [he] at hne
        exact ih _ _ hne
      | raised _ =>
        rw [he] at hne
        exact ih _ _ hne
      | left exc => exact absurd he (h handler msg n.outside exc)

/-- Such handlers have no effect on the object. -/
theorem drainPass_contained (h : Contained behave) (queue remaining : List (BroadcastMessage π))
    (deliveredAny : Bool)
    (hne : (drainPass behave rounds queue remaining deliveredAny n).1 ≠ .error .unended) :
    ∃ handlers outside, drainPass behave rounds queue remaining deliveredAny n =
      (.ok (CausalBroadcast.drainPass queue remaining deliveredAny n.object).2,
        ⟨(CausalBroadcast.drainPass queue remaining deliveredAny n.object).1, handlers,
          outside⟩) := by
  induction queue generalizing n remaining deliveredAny with
  | nil => exact ⟨n.handlers, n.outside, rfl⟩
  | cons msg queue ih =>
    rw [drainPass] at hne ⊢
    rw [CausalBroadcast.drainPass]
    split
    · rename_i hd
      rw [if_pos hd] at hne
      have ho := deliver_object behave rounds n msg
      rcases hr : n.deliver behave rounds msg with ⟨stop | _, n₁⟩
      · rw [hr] at hne
        have hok := callHandlers_contained h msg rounds 0 _ (by
          rw [show callHandlers behave msg rounds 0 _ = _ from hr]
          exact fun he => hne (by rw [Except.error.inj he]))
        rw [show callHandlers behave msg rounds 0 _ = _ from hr] at hok
        cases hok
      · rw [hr] at hne ho
        rw [← show n₁.object = n.object.deliver msg from ho]
        exact ih remaining true hne
    · rename_i hd
      rw [if_neg hd] at hne
      exact ih (remaining ++ [msg]) deliveredAny hne

theorem repeatWhile_contained (h : Contained behave) (fuel : Nat) (n : Subscribed η σ π)
    (hne : (Loop.repeatWhile (pass behave rounds) fuel n).1 ≠ .error .unended) :
    ∃ handlers outside, Loop.repeatWhile (pass behave rounds) fuel n =
      (.ok (), ⟨n.object.drain fuel, handlers, outside⟩) := by
  induction fuel generalizing n with
  | zero => exact ⟨n.handlers, n.outside, rfl⟩
  | succ fuel ih =>
    rw [Loop.repeatWhile] at hne ⊢
    have hpass : (n.pass behave rounds).1 ≠ .error .unended := by
      intro he
      rcases hp : n.pass behave rounds with ⟨x, t⟩
      rw [hp] at hne he
      obtain rfl : x = .error .unended := he
      exact hne rfl
    obtain ⟨handlers, outside, he⟩ := drainPass_contained h n.object.holdQueue [] false hpass
    rw [pass, he] at hne ⊢
    rw [CausalBroadcast.drain]
    rcases hd : CausalBroadcast.drainPass n.object.holdQueue [] false n.object with
      ⟨b, deliveredAny⟩
    rw [hd] at hne
    cases deliveredAny with
    | false => exact ⟨handlers, outside, rfl⟩
    | true => exact ih _ hne

/-- With such handlers a `receive` that comes to its end is that of the object alone. -/
theorem receive_contained (h : Contained behave) (msg : BroadcastMessage π)
    (hne : (n.receive behave rounds msg).1 ≠ .error .unended) : ∃ handlers outside,
    n.receive behave rounds msg = (.ok (), ⟨n.object.receive msg, handlers, outside⟩) := by
  unfold receive at hne ⊢
  unfold CausalBroadcast.receive
  split
  · rename_i hk
    rw [if_pos hk] at hne
    have hok := callHandlers_contained h msg rounds 0 _ hne
    have ho := deliver_object behave rounds n msg
    refine ⟨(n.deliver behave rounds msg).2.handlers, (n.deliver behave rounds msg).2.outside, ?_⟩
    rw [← ho]
    exact Prod.ext hok rfl
  · rename_i hk
    rw [if_neg hk] at hne
    exact repeatWhile_contained h _ (n.enqueue msg) hne

/-! ## Deliveries that end -/

/-- Every delivery comes to the end of the handlers, or an exception leaves it. -/
def DeliveriesEnd (behave : Behaviour η σ π) : Prop :=
  ∀ (n : Subscribed η σ π) (msg : BroadcastMessage π),
    ∃ rounds, (n.deliver behave rounds msg).1 ≠ .error .unended

theorem deliver_returns (hc : Contained behave) (he : DeliveriesEnd behave)
    (n : Subscribed η σ π) (msg : BroadcastMessage π) :
    ∃ rounds n₁, n.deliver behave rounds msg = (.ok (), n₁) := by
  obtain ⟨rounds, hne⟩ := he n msg
  exact ⟨rounds, _, Prod.ext (callHandlers_contained hc msg rounds 0 _ hne) rfl⟩

theorem scans_of_deliveriesEnd (hc : Contained behave) (he : DeliveriesEnd behave)
    (n : Subscribed η σ π) (queue : List (BroadcastMessage π)) :
    ∃ rounds delivered aside t, Scans behave rounds n queue delivered aside t := by
  induction queue generalizing n with
  | nil => exact ⟨0, [], [], n, .nil⟩
  | cons msg queue ih =>
    cases hd : n.object.isDeliverable msg with
    | false =>
      obtain ⟨rounds, delivered, aside, t, hs⟩ := ih n
      exact ⟨rounds, delivered, msg :: aside, t, hs.hold hd⟩
    | true =>
      obtain ⟨first, n₁, hr⟩ := deliver_returns hc he n msg
      obtain ⟨later, delivered, aside, t, hs⟩ := ih n₁
      exact ⟨max first later, msg :: delivered, aside, t,
        .deliver hd (deliver_mono (by simp) hr (le_max_left ..)) (hs.mono (le_max_right ..))⟩

/-- The passes go on until one delivers nothing. -/
theorem passes_of_deliveriesEnd (hc : Contained behave) (he : DeliveriesEnd behave)
    (n : Subscribed η σ π) : ∃ rounds delivered t, Passes behave rounds n delivered t ∧
      Scans behave rounds t t.object.holdQueue [] t.object.holdQueue t := by
  induction hlen : n.object.holdQueue.length using Nat.strong_induction_on generalizing n with
  | _ length ih =>
    obtain ⟨first, delivered, aside, t, hs⟩ := scans_of_deliveriesEnd hc he n n.object.holdQueue
    by_cases hne : delivered = []
    · subst hne
      obtain ⟨rfl, rfl⟩ := hs.eq_of_nil
      exact ⟨first, [], t, .nil, hs⟩
    · have hlt : aside.length < length := by
        have hperm := hs.perm.length_eq
        have hpos := List.length_pos_iff.mpr hne
        rw [List.length_append] at hperm
        omega
      obtain ⟨later, msgs, u, hp, hlast⟩ := ih _ hlt (t.withQueue aside) rfl
      exact ⟨max first later, delivered ++ msgs, u,
        .cons (hs.mono (le_max_left ..)) hne (hp.mono (le_max_right ..)),
        hlast.mono (le_max_right ..)⟩

/-- With rounds enough for its deliveries, the drain loop ends after at most one pass more
than the messages it delivers; these and the messages left are the queue, and what is left
is in its order. -/
theorem drain_terminates (behave : Behaviour η σ π) (hc : Contained behave)
    (he : DeliveriesEnd behave) (n : Subscribed η σ π) : ∃ rounds msgs t,
      (∀ more, rounds ≤ more → n.tryDeliverBuffered behave more = (.ok (), t) ∧
        ∃ passes, Loop.Runs (pass behave more) n passes (.ok ()) t ∧
          passes ≤ msgs.length + 1) ∧
      t.object.delivered = n.object.delivered ++ msgs.map (·.messageId) ∧
      (msgs ++ t.object.holdQueue).Perm n.object.holdQueue ∧
      t.object.holdQueue.Sublist n.object.holdQueue := by
  obtain ⟨rounds, msgs, t, hp, hlast⟩ := passes_of_deliveriesEnd hc he n
  refine ⟨rounds, msgs, t, fun more hle => ?_, hp.perm.1, hp.perm.2, hp.sublist⟩
  obtain ⟨passes, hg, hcount⟩ := (hp.mono hle).goes
  have hruns : Loop.Runs (pass behave more) n (passes + 1) (.ok ()) t :=
    ⟨passes, t, rfl, hg, pass_of_scans (hlast.mono hle)⟩
  exact ⟨tryDeliverBuffered_iff.mpr ⟨_, hruns⟩, _, hruns, Nat.succ_le_succ hcount⟩

/-! ## Handlers that subscribe handlers -/

/-- A call of `handler` may subscribe `other`. -/
def Subscribes (behave : Behaviour η σ π) (other handler : η) : Prop :=
  ∃ msg outside, other ∈ (behave handler msg outside).subscribed

/-- A call takes its handler from those still to come and adds what it subscribes. -/
theorem cutExpand_after {place : Nat} {handler : η} (hp : n.handlers[place]? = some handler)
    (msg : BroadcastMessage π) :
    Relation.CutExpand (Subscribes behave)
      ((n.after (behave handler msg n.outside)).handlers.drop (place + 1) : Multiset η)
      (n.handlers.drop place : Multiset η) := by
  obtain ⟨hlt, rfl⟩ := List.getElem?_eq_some_iff.mp hp
  refine ⟨(behave n.handlers[place] msg n.outside).subscribed, n.handlers[place],
    fun other ho => ⟨msg, n.outside, ho⟩, ?_⟩
  rw [after, List.drop_append_of_le_length hlt, List.drop_eq_getElem_cons hlt,
    ← Multiset.coe_add, ← Multiset.cons_coe, add_right_comm, ← Multiset.singleton_add,
    add_comm {_}]

/-- Without an endless chain of subscriptions, each delivery ends. -/
theorem deliveriesEnd_of_wellFounded (hw : WellFounded (Subscribes behave)) :
    DeliveriesEnd behave := by
  intro n msg
  suffices h : ∀ pending : Multiset η, ∀ (place : Nat) (n : Subscribed η σ π),
      (n.handlers.drop place : Multiset η) = pending →
        ∃ rounds, (callHandlers behave msg rounds place n).1 ≠ .error .unended from
    h _ 0 { n with object := n.object.deliver msg } rfl
  intro pending
  -- On the handlers still to come.
  induction pending using hw.cutExpand.induction with
  | _ pending ih =>
    rintro place n rfl
    cases hp : n.handlers[place]? with
    | none => exact ⟨1, by simp [callHandlers, hp]⟩
    | some handler =>
      obtain ⟨rounds, hne⟩ := ih _ (cutExpand_after hp msg) (place + 1) _ rfl
      refine ⟨rounds + 1, ?_⟩
      rw [callHandlers, hp]
      dsimp only
      cases (behave handler msg n.outside).ended with
      | returned => exact hne
      | raised _ => exact hne
      | left exc => simp

end Subscribed

/-- Message `k` of actor `q`. -/
def numbered (k : Int) : BroadcastMessage Unit where
  messageId := "bc_" ++ toString k
  sourceCore := "q"
  kind := "memory"
  payload := ()
  vectorClock := .single "q" k

/-- Two handlers: one that always fails, and one that subscribes it. -/
inductive Listener
  | failing
  | recruiter

def listening : Behaviour Listener Unit Unit
  | .failing, _, outside => { ended := .raised ⟨.valueError, "no space"⟩, outside }
  | .recruiter, _, outside => { ended := .returned, subscribed := [.failing], outside }

/-- An object that holds the second message before the first, and one that waits for the
third. -/
def backlog : Subscribed Listener Unit Unit where
  object := (CausalBroadcast.new "p").withQueue [numbered 2, numbered 1, numbered 4]
  handlers := [.recruiter, .failing]
  outside := ()

theorem listening_contained : Subscribed.Contained listening := by
  intro handler msg outside exc he
  cases handler <;> cases he

theorem listening_wellFounded : WellFounded (Subscribed.Subscribes listening) := by
  have hfailing : Acc (Subscribed.Subscribes listening) .failing := by
    refine ⟨_, fun other h => ?_⟩
    obtain ⟨_, _, hmem⟩ := h
    cases hmem
  refine ⟨fun handler => ⟨_, fun other h => ?_⟩⟩
  obtain ⟨_, _, hmem⟩ := h
  cases handler with
  | failing => cases hmem
  | recruiter =>
    obtain rfl := List.mem_singleton.mp hmem
    exact hfailing

/-- The first is delivered in the first pass, the second in the next, and the last pass
finds nothing. -/
theorem backlog_terminates : ∃ rounds msgs t,
    (∀ more, rounds ≤ more → backlog.tryDeliverBuffered listening more = (.ok (), t) ∧
      ∃ passes, Loop.Runs (Subscribed.pass listening more) backlog passes (.ok ()) t ∧
        passes ≤ msgs.length + 1) ∧
    t.object.delivered = backlog.object.delivered ++ msgs.map (·.messageId) ∧
    (msgs ++ t.object.holdQueue).Perm backlog.object.holdQueue ∧
    t.object.holdQueue.Sublist backlog.object.holdQueue :=
  Subscribed.drain_terminates listening listening_contained
    (Subscribed.deliveriesEnd_of_wellFounded listening_wellFounded) backlog

/-- A handler that subscribes itself once more and returns. -/
def echoing : Behaviour Unit Unit Unit
  | handler, _, outside => { ended := .returned, subscribed := [handler], outside }

/-- An object whose queue holds a message that it can deliver. -/
def echo : Subscribed Unit Unit Unit where
  object := (CausalBroadcast.new "p").withQueue [numbered 1]
  handlers := [()]
  outside := ()

theorem echoing_unended (msg : BroadcastMessage Unit) (rounds place : Nat)
    (n : Subscribed Unit Unit Unit) (hp : place < n.handlers.length) :
    (Subscribed.callHandlers echoing msg rounds place n).1 = .error .unended := by
  induction rounds generalizing place n with
  | zero => rfl
  | succ rounds ih =>
    rw [Subscribed.callHandlers, List.getElem?_eq_getElem hp]
    refine ih _ _ ?_
    rw [Subscribed.after, List.length_append]
    exact Nat.succ_lt_succ hp

/-- No number of rounds brings the delivery to an end. -/
theorem echo_unended : Subscribed.Contained echoing ∧
    ∀ rounds, (echo.tryDeliverBuffered echoing rounds).1 = .error .unended := by
  refine ⟨fun _ _ _ _ he => ?_, fun rounds => ?_⟩
  · cases he
  have hd : echo.object.isDeliverable (numbered 1) = true := by decide
  have hend := echoing_unended (numbered 1) rounds 0
    { echo with object := echo.object.deliver (numbered 1) } Nat.one_pos
  rcases hr : echo.deliver echoing rounds (numbered 1) with ⟨r, t⟩
  rw [Subscribed.deliver] at hr
  rw [hr] at hend
  obtain rfl : r = .error .unended := hend
  have hescape : Subscribed.Escapes echoing rounds echo [numbered 1] [numbered 1] [] []
      .unended t := ⟨[], [], numbered 1, echo, rfl, rfl, .nil, hd, hr⟩
  have hpass := Subscribed.pass_of_escapes hescape
  rw [Subscribed.tryDeliverBuffered, Loop.repeatWhile, hpass]

end Gaia.Ipc
