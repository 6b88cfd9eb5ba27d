import GaiaServer.Proof.Ipc.Mixed

/-!
# Vector clocks and happens-before

In runs with all kinds, a vector clock that covers another message's counter comes
after it (`happensBefore_of_counter_le`): its sender had delivered the message that
its clock entry was raised to, which comes after that source's earlier ones. The
converse fails, because delivering a message merges only its source's entry. For a
message delivered in causal order the clock covers the other entries already; for a
health message it need not. The vector clocks characterise happens-before exactly in
the runs in which nobody sends before its clock covers the health messages that it
has delivered (`characterises_iff`).
-/

namespace Gaia.Ipc

open Function (update)

variable {ι π : Type} [DecidableEq ι] {G : Group ι} {N : Net ι π}

namespace Net

/-- Of any two messages sent, the first happens before the second exactly if its
vector clock is covered by the second's. -/
def Characterises (N : Net ι π) : Prop :=
  ∀ {i j : ι} {m₁ m₂ : BroadcastMessage π}, .sent i m₁ ∈ N.log → .sent j m₂ ∈ N.log → m₁ ≠ m₂ →
    (N.log.HappensBefore m₁ m₂ ↔ ∀ a, m₁.stamp a ≤ m₂.stamp a)

/-- The clock of `i` covers the vector clocks of all health messages that `i` has
delivered. -/
def CaughtUp (N : Net ι π) (i : ι) : Prop :=
  ∀ m, .delivered i m ∈ N.log → m.isHealth = true → ∀ a, m.stamp a ≤ (N.node i).time a

/-- A run in which nobody sends before it has caught up. -/
inductive CaughtUpRun (G : Group ι) : Net ι π → Prop
  | initial : CaughtUpRun G (initial G)
  | send {N : Net ι π} (h : CaughtUpRun G N) (i : ι) (hc : N.CaughtUp i) (kind : String)
      (payload : π) (traceId uuidHex : String) :
      CaughtUpRun G (N.send i kind payload traceId uuidHex)
  | receive {N : Net ι π} (h : CaughtUpRun G N) (i : ι) {msg : BroadcastMessage π} {j : ι}
      (hm : .sent j msg ∈ N.log) : CaughtUpRun G (N.receive i msg)

theorem CaughtUpRun.reachable (h : CaughtUpRun G N) : Reachable G (fun _ => True) N := by
  induction h with
  | initial => exact .initial
  | send _ i _ kind payload traceId uuidHex ih => exact ih.send i trivial payload traceId uuidHex
  | receive _ i hm ih => exact ih.receive i hm

/-! ## Covered messages come before -/

/-- How the messages of a log follow on each other: each directly on its sender's
earlier ones, and on the message that an entry of its vector clock counts up to. -/
structure Follows (G : Group ι) (N : Net ι π) : Prop where
  chain : ∀ {q m m'}, m ∈ N.sent q → m' ∈ N.sent q → m.counter < m'.counter → N.log.Direct m m'
  top : ∀ {i q m}, m ∈ N.sent i → q ≠ i → 0 < m.stamp (G.name q) →
    ∃ m' ∈ N.sent q, m'.counter = m.stamp (G.name q) ∧ N.log.Direct m' m

theorem Follows.initial (G : Group ι) : Follows G (initial G : Net ι π) where
  chain h := nomatch h
  top h := nomatch h

theorem direct_receive (N : Net ι π) (i : ι) (msg : BroadcastMessage π)
    {m₁ m₂ : BroadcastMessage π} :
    (N.receive i msg).log.Direct m₁ m₂ ↔ N.log.Direct m₁ m₂ := by
  rw [log_receive]
  exact Log.direct_append (receiveEvents_ne_sent i msg _)

theorem Follows.send (f : Follows G N) (h : Mixed G N) (i : ι) (kind : String) (payload : π)
    (traceId uuidHex : String) : Follows G (N.send i kind payload traceId uuidHex) := by
  have hi := h.node i
  have hc := hi.counter_outbound kind payload traceId uuidHex
  refine ⟨fun {q m m'} hm hm' hlt => ?_, fun {j q m} hm hq h0 => ?_⟩
  · rw [log_send]
    rw [sent_send] at hm hm'
    rcases mem_update_cons.mp hm' with ⟨rfl, rfl⟩ | hs'
    · rcases mem_update_cons.mp hm with ⟨-, rfl⟩ | hs
      · exact absurd hlt (lt_irrefl _)
      · exact .here (.inl (mem_sent.mp hs))
    · rcases mem_update_cons.mp hm with ⟨rfl, rfl⟩ | hs
      · have hle := h.sent.le hs'
        omega
      · exact .later (f.chain hs hs' hlt)
  · rw [log_send, sent_send]
    rw [sent_send] at hm
    rcases mem_update_cons.mp hm with ⟨rfl, rfl⟩ | hm
    · -- The new message carries the sender's clock.
      have hst : ((N.node j).outbound kind payload traceId uuidHex).stamp (G.name q) =
          (N.node j).time (G.name q) := hi.time_ticked_of_ne hq
      rw [hst] at h0 ⊢
      obtain ⟨m', hm', hh, hcm⟩ := hi.top hq h0
      exact ⟨m', mem_update_cons.mpr (.inr hm'), hcm, .here (.inr (h.logged.mpr hh))⟩
    · obtain ⟨m', hm', hcm, hd⟩ := f.top hm hq h0
      exact ⟨m', mem_update_cons.mpr (.inr hm'), hcm, .later hd⟩

theorem Follows.receive (f : Follows G N) (i : ι) (msg : BroadcastMessage π) :
    Follows G (N.receive i msg) := by
  refine ⟨fun hm hm' hlt => ?_, fun hm hq h0 => ?_⟩
  · rw [sent_receive] at hm hm'
    rw [direct_receive]
    exact f.chain hm hm' hlt
  · rw [sent_receive] at hm ⊢
    simp only [direct_receive]
    exact f.top hm hq h0

theorem Reachable.follows {K : String → Prop} (h : Reachable G K N) : Follows G N := by
  induction h with
  | initial => exact .initial G
  | send h i _ payload traceId uuidHex ih => exact ih.send h.mixed i _ payload traceId uuidHex
  | receive _ i _ ih => exact ih.receive i _

/-- A message whose counter the other's vector clock covers happens before it. -/
theorem happensBefore_of_counter_le (h : Mixed G N) (f : Follows G N) {i j : ι}
    {m₁ m₂ : BroadcastMessage π} (h₁ : m₁ ∈ N.sent i) (h₂ : m₂ ∈ N.sent j) (hne : m₁ ≠ m₂)
    (hle : m₁.counter ≤ m₂.stamp (G.name i)) : N.log.HappensBefore m₁ m₂ := by
  by_cases hij : i = j
  · subst hij
    have hcm := h.sent.counter_eq h₂
    have hn : m₁.counter ≠ m₂.counter := fun e => hne (h.sent.inj h₁ h₂ e)
    exact .single (f.chain h₁ h₂ (by omega))
  · have h0 := h.sent.pos h₁
    obtain ⟨m', hm', hc, hd⟩ := f.top h₂ hij (by omega)
    -- `m₁` is the message that `m₂`'s clock counts up to, or an earlier one of `i`.
    rcases (hc ▸ hle : m₁.counter ≤ m'.counter).lt_or_eq with hlt | he
    · exact .tail (.single (f.chain h₁ hm' hlt)) hd
    · rw [h.sent.inj h₁ hm' he]
      exact .single hd

/-! ## What comes before is covered -/

/-- In a run that has caught up, vector clocks grow along every direct step. -/
theorem CaughtUpRun.direct (h : CaughtUpRun G N) {m₁ m₂ : BroadcastMessage π}
    (hd : N.log.Direct m₁ m₂) :
    (∀ a, m₁.stamp a ≤ m₂.stamp a) ∧ m₁.stamp m₂.sourceCore < m₂.stamp m₂.sourceCore := by
  induction h with
  | initial => exact nomatch hd
  | @send N h i hc kind payload traceId uuidHex ih =>
    rw [log_send] at hd
    rcases Log.direct_cons.mp hd with ⟨j, he, hp⟩ | hd
    · obtain ⟨rfl, rfl⟩ := Event.sent.inj he
      have hi := h.reachable.mixed.node i
      have hle : ∀ a, m₁.stamp a ≤ (N.node i).time a := by
        rcases hp with hs | hdel
        · exact hi.sent_le (mem_sent.mpr hs)
        · cases hk : m₁.isHealth with
          | true => exact hc m₁ hdel hk
          | false => exact hi.causal_le (h.reachable.mixed.logged.mp hdel) hk
      refine ⟨fun a => (hle a).trans (hi.le_time_ticked a), (hle _).trans_lt ?_⟩
      have ht := hi.time_ticked (G.name i)
      rw [if_pos rfl] at ht
      show (N.node i).time (N.node i).localActor < (N.node i).ticked.time (N.node i).localActor
      rw [hi.name, ht]
      omega
    · exact ih hd
  | receive _ i _ ih => exact ih ((direct_receive ..).mp hd)

theorem CaughtUpRun.characterises (h : CaughtUpRun G N) : N.Characterises := by
  intro i j m₁ m₂ h₁ h₂ hne
  have hm := h.reachable.mixed
  refine ⟨fun hb => (hb.stamp_lt fun _ _ => h.direct).1, fun hle => ?_⟩
  refine happensBefore_of_counter_le hm h.reachable.follows (mem_sent.mpr h₁) (mem_sent.mpr h₂)
    hne ?_
  rw [hm.sent.counter_eq (mem_sent.mpr h₁)]
  exact hle _

/-! ## A send too early -/

/-- Two messages of which the first happens before the second, whose vector clock
does not cover the first's. -/
def Uncovered (N : Net ι π) : Prop :=
  ∃ (i j : ι) (m₁ m₂ : BroadcastMessage π), .sent i m₁ ∈ N.log ∧ .sent j m₂ ∈ N.log ∧ m₁ ≠ m₂ ∧
    N.log.HappensBefore m₁ m₂ ∧ ¬ ∀ a, m₁.stamp a ≤ m₂.stamp a

omit [DecidableEq ι] in
theorem Uncovered.not_characterises (h : N.Uncovered) : ¬ N.Characterises := by
  obtain ⟨i, j, m₁, m₂, h₁, h₂, hne, hb, hn⟩ := h
  exact fun hc => hn ((hc h₁ h₂ hne).mp hb)

omit [DecidableEq ι] in
/-- What has happened stays so. -/
theorem Uncovered.mono (h : N.Uncovered) {N' : Net ι π} (evs : Log ι (BroadcastMessage π))
    (he : N'.log = evs ++ N.log) : N'.Uncovered := by
  obtain ⟨i, j, m₁, m₂, h₁, h₂, hne, hb, hn⟩ := h
  have hd : ∀ m₁ m₂, N.log.Direct m₁ m₂ → N'.log.Direct m₁ m₂ := fun m₁ m₂ hd => by
    rw [he]
    exact hd.append evs
  refine ⟨i, j, m₁, m₂, ?_, ?_, hne, Relation.TransGen.mono hd _ _ hb, hn⟩
  · rw [he]; exact List.mem_append_right _ h₁
  · rw [he]; exact List.mem_append_right _ h₂

/-- Sending before having caught up makes such a pair: a health message delivered,
and the new message. -/
theorem uncovered_of_not_caughtUp (h : Mixed G N) {i : ι} (hc : ¬ N.CaughtUp i) (kind : String)
    (payload : π) (traceId uuidHex : String) :
    (N.send i kind payload traceId uuidHex).Uncovered := by
  rw [CaughtUp] at hc
  push Not at hc
  obtain ⟨m, hd, -, a, hlt⟩ := hc
  have hi := h.node i
  set new := (N.node i).outbound kind payload traceId uuidHex with hnew
  have hst : new.stamp a = if a = G.name i then (N.node i).time a + 1 else (N.node i).time a :=
    hi.time_ticked a
  obtain ⟨j, hj⟩ := hi.handled_sent (h.logged.mp hd)
  -- The entry is not the sender's own, of which nobody knows more.
  have ha : a ≠ G.name i := fun e => by
    have hle := ((h.node j).sent_le hj a).trans (e ▸ (h.node j).time_le i)
    rw [e, hi.own, ← e] at hlt
    omega
  rw [if_neg ha] at hst
  refine ⟨j, i, m, new, ?_, List.mem_cons_self, fun e => ?_, .single (.here (.inr hd)),
    fun hle => ?_⟩
  · exact List.mem_cons_of_mem _ (mem_sent.mp hj)
  · rw [e] at hlt
    omega
  · have := hle a
    omega

theorem Reachable.caughtUpRun_or {K : String → Prop} (h : Reachable G K N) :
    CaughtUpRun G N ∨ N.Uncovered := by
  induction h with
  | initial => exact .inl .initial
  | @send N h i kind _ payload traceId uuidHex ih =>
    rcases ih with ih | ih
    · by_cases hc : N.CaughtUp i
      · exact .inl (ih.send i hc kind payload traceId uuidHex)
      · exact .inr (uncovered_of_not_caughtUp h.mixed hc kind payload traceId uuidHex)
    · exact .inr (ih.mono [_] (log_send ..))
  | receive _ i hm ih =>
    rcases ih with ih | ih
    · exact .inl (ih.receive i hm)
    · exact .inr (ih.mono _ (log_receive ..))

/-- Where no health message is sent, nobody waits for one. -/
theorem Reachable.caughtUpRun (h : Reachable G NonHealth N) : CaughtUpRun G N := by
  induction h with
  | initial => exact .initial
  | @send N h i kind _ payload traceId uuidHex ih =>
    refine ih.send i (fun m hd hk => ?_) kind payload traceId uuidHex
    obtain ⟨q, -, hq⟩ := (h.inv.node i).handled_sent (h.inv.delivered hd)
    have hcausal := h.inv.sent.causal hq
    rw [hk] at hcausal
    exact absurd hcausal (by simp)
  | receive _ i hm ih => exact ih.receive i hm

end Net

/-- In every state of every run, with messages of all kinds: vector clocks
characterise happens-before exactly if nobody sent before its clock covered the
health messages that it had delivered. -/
theorem characterises_iff (h : Net.Reachable G (fun _ => True) N) :
    N.Characterises ↔ Net.CaughtUpRun G N := by
  refine ⟨fun hc => ?_, Net.CaughtUpRun.characterises⟩
  exact h.caughtUpRun_or.resolve_right fun hu => hu.not_characterises hc

/-- So they do in the relayed answer. -/
theorem relay_characterises : relayRun.Characterises :=
  (characterises_iff relay_reachable.caughtUpRun.reachable).mpr relay_reachable.caughtUpRun

/-- Where `b` answers with a beacon only, `a`'s question happens before what `c` sends,
whose vector clock does not count it. -/
theorem beacon_uncovered :
    Net.Reachable trio (fun _ => True) beaconRun ∧ .sent 0 relayFirst ∈ beaconRun.log ∧
      .sent 2 relayThird ∈ beaconRun.log ∧ beaconRun.log.HappensBefore relayFirst relayThird ∧
      relayFirst.stamp "a" = 1 ∧ relayThird.stamp "a" = 0 ∧ ¬ beaconRun.Characterises := by
  have hrelayed : Net.Reachable trio (fun _ => True) beaconRelayed :=
    ((relay_asked trivial).send 1 trivial () "" "1").receive (j := 1) 2 (by decide)
  have hreach : Net.Reachable trio (fun _ => True) beaconRun :=
    hrelayed.send 2 trivial () "" "2"
  have hfirst : .sent 0 relayFirst ∈ beaconRun.log := by decide
  have hthird : .sent 2 relayThird ∈ beaconRun.log := by decide
  have hb : beaconRun.log.HappensBefore relayFirst relayThird := by
    refine .tail (.single (b := relayBeacon) ?_) ?_
    · show Log.Direct [_, _, _, _, _, _, _] relayFirst relayBeacon
      exact .later (.later (.later (.here (.inr (.head _)))))
    · show Log.Direct [_, _, _, _, _, _, _] relayBeacon relayThird
      exact .here (.inr (.head _))
  refine ⟨hreach, hfirst, hthird, hb, by decide, by decide, fun hc => ?_⟩
  exact absurd ((hc hfirst hthird (by decide)).mp hb "a") (by decide)

end Gaia.Ipc
