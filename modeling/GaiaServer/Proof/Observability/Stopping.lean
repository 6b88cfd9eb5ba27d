import GaiaServer.Proof.Observability.Collector

/-!
# Stopping the collector

Once it has been stopped and nobody starts it, a thread that is in a turn finishes it, and no
other turn begins: what is still appended are at most the snapshots of the threads that had not
come to their append, one each; and all threads can come to their end, whoever has the lock
(`stopped_drains`).

Threads of an earlier start may live on, and append beside those of a later one. If the collector
is started only when all its threads have ended, snapshots are appended in the order in which they
were collected, and none is passed over (`appended_in_order`).
-/

namespace Gaia.Observability

open Service (Run Step Label anyhow unstarted separately Single body_of_set exists_rest)

variable {ι : Type} [DecidableEq ι] {nodeId : String} {τ τ' : Collection ι}
  {σ σ' σ₀ : TelemetryState ι}

/-! ## What is still to come -/

/-- A thread that has still to collect in its turn. -/
def CollectPlace.uncollected : CollectPlace → Nat
  | .collect => 1
  | _ => 0

/-- A thread that has still to append in its turn. -/
def CollectPlace.unappended : CollectPlace → Nat
  | .collect | .waiting _ | .holding _ => 1
  | _ => 0

variable {G : Label ι → TelemetryState ι → Prop}

theorem run_effects (hr : Run telemetry G σ₀ σ) : σ₀.shared.effects <+: σ.shared.effects := by
  induction hr with
  | start => exact List.prefix_rfl
  | @step l σ σ' _ _ hs ih =>
    refine ih.trans ?_
    rcases hs.inv with ⟨n, b, b', -, ht, -⟩ | ⟨hshared | hread, -⟩
    · rcases LoopStep.effect ht with ⟨-, h, -⟩ | ⟨snap, -, -, -, h⟩ | ⟨h, -⟩
      · rw [h]
      · rw [h]
        exact List.prefix_append ..
      · rw [h]
    · rw [hshared]
    · rcases (ReadStep.effect hread).2 with h | ⟨c, q, -, h⟩
      · rw [h]
      · rw [h]
        exact List.prefix_append ..

theorem run_appends (hoff : σ₀.running = false) (hr : Run telemetry unstarted σ₀ σ) :
    σ.running = false ∧ (appends σ.shared.effects).length + σ.load CollectPlace.unappended ≤
      (appends σ₀.shared.effects).length + σ₀.load CollectPlace.unappended := by
  refine hr.drains CollectPlace.unappended (fun τ => (appends τ.effects).length) (fun ht => ?_)
    (fun hread => ?_) hoff
  · cases ht with
    | push =>
      rw [Collection.push, appends_push, List.length_append]
      exact Nat.le_refl _
    | collect | acquire | trim | release | log | sleep => exact Nat.le_refl _
    | fail => exact Nat.add_le_add_left (Nat.zero_le _) _
  · cases hread with
    | call | acquire | release => exact Nat.le_refl _
    | read =>
      rw [appends_read]

theorem run_collects (hoff : σ₀.running = false) (hr : Run telemetry unstarted σ₀ σ) :
    σ.shared.collected.length + σ.load CollectPlace.uncollected ≤
      σ₀.shared.collected.length + σ₀.load CollectPlace.uncollected := by
  refine (hr.drains CollectPlace.uncollected (fun τ => τ.collected.length) (fun ht => ?_)
    (fun hread => ?_) hoff).2
  · cases ht with
    | collect =>
      rw [List.length_append]
      exact Nat.le_refl _
    | fail => exact Nat.add_le_add_left (Nat.zero_le _) _
    | push | acquire | trim | release | log | sleep => exact Nat.le_refl _
  · cases hread <;> exact Nat.le_refl _

/-! ## Coming to the end -/

/-- The steps that a thread has still to take before its next test, at most. -/
def CollectPlace.rank : CollectPlace → Nat
  | .collect => 7
  | .waiting _ => 6
  | .holding _ => 5
  | .appended _ => 4
  | .trimmed _ => 3
  | .logging _ => 2
  | .sleeping => 1

/-- And before its end. -/
def remaining : LoopPlace CollectPlace → Nat
  | .body b => b.rank + 1
  | .test => 1
  | _ => 0

omit [DecidableEq ι] in
/-- A thread that has the lock, or finds it free, can go on, and leaves the lock to itself or to
nobody. -/
theorem LoopStep.exists (τ : Collection ι) (n : Nat) (b : CollectPlace)
    (h : b.holds = true ∨ τ.owner = none) : ∃ τ' b', LoopStep n τ b τ' b' ∧
      b'.elim 0 CollectPlace.rank < b.rank ∧
      (τ'.owner = τ.owner ∨ τ'.owner = some (.inl n) ∨ τ'.owner = none) := by
  cases b with
  | collect =>
    have hfail : Observability.collect τ.collector.nodeId (.error ⟨.typeError, ""⟩) "" =
      .error ⟨.typeError, ""⟩ := rfl
    exact ⟨_, _, .fail hfail, by decide, .inl rfl⟩
  | waiting snap =>
    exact ⟨_, _, .acquire (h.resolve_left nofun), Nat.lt_succ_self _, .inr (.inl rfl)⟩
  | holding snap => exact ⟨_, _, .push, Nat.lt_succ_self _, .inl rfl⟩
  | appended snap => exact ⟨_, _, .trim, Nat.lt_succ_self _, .inl rfl⟩
  | trimmed snap => exact ⟨_, _, .release, Nat.lt_succ_self _, .inr (.inr rfl)⟩
  | logging snap => exact ⟨_, _, .log, Nat.lt_succ_self _, .inl rfl⟩
  | sleeping => exact ⟨_, _, .sleep, Nat.lt_succ_self _, .inl rfl⟩

theorem run_read (h : ReadStep σ.shared τ') : Run telemetry unstarted σ { σ with shared := τ' } :=
  Run.start.step (by rintro _ ⟨⟩) (.other h)

/-- A reader that has the lock gives it back. -/
theorem reader_leaves (hlock : Locked σ) : ∃ σ', Run telemetry unstarted σ σ' ∧
    σ'.running = σ.running ∧ σ'.threads = σ.threads ∧ ∀ c, σ'.shared.owner ≠ some (.inr c) := by
  by_cases hc : ∃ c, σ.shared.owner = some (.inr c)
  · obtain ⟨c, hc⟩ := hc
    have hholds : (σ.shared.readers c).holds = true := (hlock (.inr c)).mp hc
    cases hr : σ.shared.readers c with
    | outside =>
      rw [hr] at hholds
      cases hholds
    | waiting q =>
      rw [hr] at hholds
      cases hholds
    | done r => exact ⟨_, run_read (.release hr), rfl, rfl, nofun⟩
    | holding q =>
      refine ⟨_, (run_read (.read hr)).trans (run_read (.release (c := c)
        (r := σ.shared.collector.answer q) ?_)), rfl, rfl, nofun⟩
      exact Function.update_self ..
  · exact ⟨σ, .start, rfl, rfl, fun c h => hc ⟨c, h⟩⟩

/-- All threads that have been started come to their end. -/
theorem threads_end (hlock : Locked σ) (hoff : σ.running = false)
    (hreader : ∀ c, σ.shared.owner ≠ some (.inr c)) : ∃ σ', Run telemetry unstarted σ σ' ∧
      ∀ n p, σ'.At n p → p = .made ∨ p = .ended := by
  generalize hm : (σ.threads.map remaining).sum = m
  induction m using Nat.strongRecOn generalizing σ with
  | ind m ih =>
    -- a thread that goes on has less to do
    have hnext : ∀ {l n p q} {σ' : TelemetryState ι}, σ.At n p → remaining q < remaining p →
        σ'.threads = σ.threads.set n q → unstarted l σ → Step telemetry l σ σ' →
        (∀ c, σ'.shared.owner ≠ some (.inr c)) → ∃ σ'', Run telemetry unstarted σ σ'' ∧
          ∀ n p, σ''.At n p → p = .made ∨ p = .ended := by
      intro l n p q σ' hn hlt hthreads hl hs hfree
      obtain ⟨rest, hsum, hset⟩ := exists_rest remaining hn
      have hless : (σ'.threads.map remaining).sum < m := by
        rw [hthreads, hset, ← hm, hsum]
        omega
      obtain ⟨σ'', hrun, hend⟩ := ih _ hless (hlock.step hs) (hs.running hl hoff) hfree rfl
      exact ⟨σ'', (Run.start.step hl hs).trans hrun, hend⟩
    have hbody : ∀ n b, σ.At n (.body b) → (b.holds = true ∨ σ.shared.owner = none) →
        ∃ σ'', Run telemetry unstarted σ σ'' ∧ ∀ n p, σ''.At n p → p = .made ∨ p = .ended := by
      intro n b hn hb
      obtain ⟨τ', b', ht, hlt, howner⟩ := LoopStep.exists σ.shared n b hb
      refine hnext hn ?_ rfl (by rintro _ ⟨⟩) (.turn hn ht) fun c hc => ?_
      · cases b' with
        | none => exact Nat.succ_lt_succ hlt
        | some b' => exact Nat.succ_lt_succ hlt
      · rcases howner with h | h | h
        · exact hreader c (h.symm.trans hc)
        · exact nomatch h.symm.trans hc
        · exact nomatch h.symm.trans hc
    by_cases hlive : ∃ n p, σ.At n p ∧ p ≠ .made ∧ p ≠ .ended
    · obtain ⟨n, p, hn, hmade, hended⟩ := hlive
      cases p with
      | made => exact absurd rfl hmade
      | ended => exact absurd rfl hended
      | test =>
        refine hnext hn (q := .ended) Nat.one_pos ?_ (by rintro _ ⟨⟩) (.test hn) hreader
        rw [hoff]
        rfl
      | body b =>
        cases howner : σ.shared.owner with
        | none => exact hbody n b hn (.inr howner)
        | some t =>
          cases t with
          | inr c => exact absurd howner (hreader c)
          | inl k =>
            obtain ⟨b', hk, hheld⟩ := (hlock (.inl k)).mp howner
            exact hbody k b' hk (.inl hheld)
    · refine ⟨σ, .start, fun n p hn => ?_⟩
      by_contra hne
      rw [not_or] at hne
      exact hlive ⟨n, p, hn, hne⟩

/-- A collector that has been stopped and is not started: no step takes a thread into a turn, so
that at most one snapshot is collected for each thread that had still to collect, and at most one
appended for each that had still to append; and there is a way on in which all the threads end. -/
theorem stopped_drains (hr₀ : Run telemetry anyhow (newCollector nodeId) σ₀)
    (hoff : σ₀.running = false) (hr : Run telemetry unstarted σ₀ σ) :
    (∀ l σ', unstarted l σ → Step telemetry l σ σ' → ∀ n b, σ'.At n (.body b) →
      ∃ b₀, σ.At n (.body b₀)) ∧
    (∃ new, σ.shared.effects = σ₀.shared.effects ++ new ∧
      (appends new).length + σ.load CollectPlace.unappended ≤
        σ₀.load CollectPlace.unappended) ∧
    σ.shared.collected.length + σ.load CollectPlace.uncollected ≤
      σ₀.shared.collected.length + σ₀.load CollectPlace.uncollected ∧
    ∃ σ', Run telemetry unstarted σ σ' ∧ ∀ n p, σ'.At n p → p = .made ∨ p = .ended := by
  obtain ⟨hoff', hcount⟩ := run_appends hoff hr
  obtain ⟨new, hnew⟩ := run_effects hr
  refine ⟨fun _ _ _ hs _ _ => hs.entered hoff', ⟨new, hnew.symm, ?_⟩, run_collects hoff hr, ?_⟩
  · rw [← hnew, appends, List.filterMap_append, List.length_append] at hcount
    simp only [appends] at hcount ⊢
    omega
  · have hreach := hr₀.trans (hr.mono fun _ _ _ => trivial)
    obtain ⟨σ₁, hrun, hrunning, -, hfree⟩ := reader_leaves (run_locked hreach).1
    have hlock₁ := (run_locked (hreach.trans (hrun.mono fun _ _ _ => trivial))).1
    obtain ⟨σ₂, hrun', hend⟩ := threads_end hlock₁ (hrunning.trans hoff') hfree
    exact ⟨σ₂, hrun.trans hrun', hend⟩

/-- A collector that is stopped when its thread has begun a turn. -/
theorem exists_stopped : ∃ σ : TelemetryState Unit, Run telemetry anyhow (newCollector "node") σ ∧
    σ.running = false ∧ σ.load CollectPlace.unappended = 1 := by
  have h0 : Run telemetry anyhow (newCollector "node" : TelemetryState Unit) _ := .start
  have h1 := ((h0.step trivial (.enter (c := ()) rfl)).step trivial (.make (c := ()) rfl)).step
    trivial (.launch (c := ()) (n := 0) rfl rfl rfl)
  exact ⟨_, (h1.step trivial (.test (n := 0) rfl)).step trivial .stop, rfl, rfl⟩

theorem stopped_in_turn : ∃ σ σ' : TelemetryState Unit, σ.load CollectPlace.unappended = 1 ∧
    Run telemetry unstarted σ σ' ∧ ∀ n p, σ'.At n p → p = .made ∨ p = .ended := by
  obtain ⟨σ, hr, hoff, hload⟩ := exists_stopped
  obtain ⟨-, -, -, σ', hrun, hend⟩ := stopped_drains hr hoff .start
  exact ⟨σ, σ', hload, hrun, hend⟩

/-! ## One thread -/

/-- The snapshot that a thread has collected and has still to append. -/
def CollectPlace.pending : CollectPlace → List TelemetrySnapshot
  | .waiting snap | .holding snap => [snap]
  | _ => []

/-- What has been collected is what has been appended, and what the thread has in its turn. -/
structure InOrder (σ : TelemetryState ι) : Prop where
  turn : ∀ n b, σ.At n (.body b) →
    σ.shared.collected = appends σ.shared.effects ++ b.pending
  rest : (∀ n b, ¬ σ.At n (.body b)) → σ.shared.collected = appends σ.shared.effects

omit [DecidableEq ι] in
theorem LoopStep.inOrder {n : Nat} {b : CollectPlace} {b' : Option CollectPlace}
    (h : LoopStep n τ b τ' b') (hb : τ.collected = appends τ.effects ++ b.pending) :
    τ'.collected = appends τ'.effects ++ b'.elim [] CollectPlace.pending := by
  cases h with
  | @collect _ _ snap =>
    show τ.collected ++ [snap] = _
    rw [hb]
    exact congrArg (· ++ [snap]) (List.append_nil _)
  | push =>
    rw [Collection.push, appends_push]
    exact hb.trans (List.append_nil _).symm
  | fail | acquire | trim | release | log | sleep => exact hb

theorem ReadStep.inOrder (h : ReadStep τ τ') :
    τ'.collected = τ.collected ∧ appends τ'.effects = appends τ.effects := by
  cases h with
  | call | acquire | release => exact ⟨rfl, rfl⟩
  | read => exact ⟨rfl, appends_read ..⟩

theorem InOrder.step (h : InOrder σ) (hone : Single σ) {l : Label ι}
    (hs : Step telemetry l σ σ') : InOrder σ' := by
  rcases hs.inv with ⟨n, b, b', hn, ht, hthreads⟩ | ⟨hshared, hold, hnew⟩
  · have hstep := LoopStep.inOrder ht (h.turn n b hn)
    refine ⟨fun m p hm => ?_, fun hnone => ?_⟩
    · rw [Service.State.At, hthreads] at hm
      rcases body_of_set hm with ⟨-, rfl⟩ | ⟨hne, hm⟩
      · exact hstep
      · exact absurd (hone.unique m n ⟨_, hm, by rintro ⟨⟩⟩ ⟨_, hn, by rintro ⟨⟩⟩) hne
    · cases b' with
      | none => exact hstep.trans (List.append_nil _)
      | some b' =>
        refine absurd ?_ (hnone n b')
        rw [Service.State.At, hthreads]
        exact List.getElem?_set_self (List.getElem?_eq_some_iff.mp hn).1
  · have hsame : σ'.shared.collected = σ.shared.collected ∧
        appends σ'.shared.effects = appends σ.shared.effects := by
      rcases hshared with hshared | hread
      · exact ⟨by rw [hshared], by rw [hshared]⟩
      · exact ReadStep.inOrder hread
    refine ⟨fun m p hm => ?_, fun hnone => ?_⟩
    · rw [hsame.1, hsame.2]
      rcases hnew m p hm with hold' | ⟨-, rfl, htest⟩
      · exact h.turn m p hold'
      · -- the thread that enters is the only one
        refine (h.rest fun k b hk => ?_).trans (List.append_nil _).symm
        obtain rfl := hone.unique k m ⟨_, hk, by rintro ⟨⟩⟩ ⟨_, htest, by rintro ⟨⟩⟩
        cases hk.symm.trans htest
    · rw [hsame.1, hsame.2]
      exact h.rest fun k b hk => hnone k b (hold k b hk)

/-- A collector that is started only when all its threads have ended appends the snapshots in the
order in which they are collected, each of them, but for the one that its thread has in its
turn. -/
theorem appended_in_order (hr : Run telemetry separately (newCollector nodeId) σ) :
    (∀ n m, σ.Live n → σ.Live m → n = m) ∧
    ∃ pending, σ.shared.collected = appends σ.shared.effects ++ pending ∧ pending.length ≤ 1 := by
  have hinit : Single (newCollector nodeId : TelemetryState ι) := Service.single_init _
  have horder : InOrder σ := by
    induction hr with
    | start =>
      refine ⟨fun n b h => ?_, fun _ => rfl⟩
      cases h
    | step hr _ hs ih => exact ih.step (hr.single hinit) hs
  refine ⟨(hr.single hinit).unique, ?_⟩
  by_cases hbody : ∃ n b, σ.At n (.body b)
  · obtain ⟨n, b, hn⟩ := hbody
    refine ⟨b.pending, horder.turn n b hn, ?_⟩
    cases b <;> simp [CollectPlace.pending]
  · refine ⟨[], ?_, Nat.zero_le _⟩
    rw [List.append_nil]
    exact horder.rest fun n b hn => hbody ⟨n, b, hn⟩

/-- A thread that has collected, alone. -/
theorem exists_alone : ∃ (σ : TelemetryState Unit) (snap : TelemetrySnapshot),
    Run telemetry separately (newCollector "node") σ ∧ σ.shared.collected = [snap] := by
  obtain ⟨snap, hsnap⟩ : ∃ snap, collect "node" (.ok coreless) "60.0" = .ok snap := ⟨_, rfl⟩
  have h0 : Run telemetry separately (newCollector "node" : TelemetryState Unit) _ := .start
  have hnew : separately (.enter ()) (newCollector "node" : TelemetryState Unit) := by
    refine fun _ _ => ⟨?_, fun _ => nofun⟩
    rintro n ⟨p, hp, -⟩
    cases hp
  have h1 := (h0.step hnew (.enter (c := ()) rfl)).step (by rintro _ ⟨⟩) (.make (c := ()) rfl)
  have h2 := h1.step (by rintro _ ⟨⟩) (.launch (c := ()) (n := 0) rfl rfl rfl)
  have h3 := h2.step (by rintro _ ⟨⟩) (.test (n := 0) rfl)
  exact ⟨_, snap, h3.step (by rintro _ ⟨⟩) (.turn (n := 0) rfl (LoopStep.collect hsnap)), rfl⟩

theorem alone_in_order : ∃ (σ : TelemetryState Unit) (snap : TelemetrySnapshot),
    σ.shared.collected = [snap] ∧ ∃ pending, σ.shared.collected =
      appends σ.shared.effects ++ pending ∧ pending.length ≤ 1 := by
  obtain ⟨σ, snap, hr, hcollected⟩ := exists_alone
  exact ⟨σ, snap, hcollected, (appended_in_order hr).2⟩

end Gaia.Observability
