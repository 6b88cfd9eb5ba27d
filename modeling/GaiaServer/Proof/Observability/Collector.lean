import GaiaServer.Impl.Observability.Collector
import GaiaServer.Proof.Observability.Windows
import Mathlib.Algebra.Order.Group.Multiset

/-!
# The collector among threads

However many threads of the loop there are, and however their steps fall among those of readers:
one of them at most is where the lock is held (`Locked.step`). So the history is the last 1000 of
the snapshots that have been appended, but for one that is not cut yet, and that nobody reads
(`Windowed.step`). Every read returns what a collector returns that has appended the snapshots
before it, one after another, and every snapshot that has been collected has been appended once
or is on its way (`telemetry_refines`).
-/

namespace Gaia.Observability

open Service (Run Step Label anyhow body_of_set)
open TelemetryCollector (maxHistory)

variable {ι : Type} {nodeId : String} {τ τ' : Collection ι} {σ σ' : TelemetryState ι}

/-! ## Effects -/

def Effect.snap? : Effect ι → Option TelemetrySnapshot
  | .appended snap => some snap
  | .read .. => none

/-- The snapshots that have been appended. -/
def appends (es : List (Effect ι)) : List TelemetrySnapshot := es.filterMap Effect.snap?

@[simp] theorem appends_push (es : List (Effect ι)) (snap : TelemetrySnapshot) :
    appends (es ++ [.appended snap]) = appends es ++ [snap] := List.filterMap_append ..

@[simp] theorem appends_read (es : List (Effect ι)) (c : ι) (q : Query) (r : Reply) :
    appends (es ++ [.read c q r]) = appends es :=
  (List.filterMap_append ..).trans (List.append_nil _)

/-- A collector that has appended them. -/
def window (nodeId : String) (es : List (Effect ι)) : TelemetryCollector :=
  ⟨nodeId, (appends es).rtake maxHistory⟩

/-- Every read has returned what is in the window of the appends before it. -/
def Legal (nodeId : String) (es : List (Effect ι)) : Prop :=
  ∀ pre c q r post, es = pre ++ .read c q r :: post → r = (window nodeId pre).answer q

theorem Legal.concat {es : List (Effect ι)} (h : Legal nodeId es) {e : Effect ι}
    (he : ∀ c q r, e = .read c q r → r = (window nodeId es).answer q) :
    Legal nodeId (es ++ [e]) := by
  intro pre c q r post hes
  rcases List.eq_nil_or_concat post with rfl | ⟨post', x, rfl⟩
  · obtain ⟨rfl, hx⟩ := List.append_inj' hes rfl
    exact he c q r (List.cons.inj hx).1
  · rw [List.concat_eq_append, ← List.cons_append, ← List.append_assoc] at hes
    exact h pre c q r post' (List.append_inj' hes rfl).1

/-! ## The lock -/

def CollectPlace.holds : CollectPlace → Bool
  | .holding _ | .appended _ | .trimmed _ => true
  | _ => false

def ReadPlace.holds : ReadPlace → Bool
  | .holding _ | .done _ => true
  | _ => false

/-- A thread of the loop, or a reader, is where the lock is held. -/
def Holds (σ : TelemetryState ι) : Nat ⊕ ι → Prop
  | .inl n => ∃ p, σ.At n (.body p) ∧ p.holds = true
  | .inr c => (σ.shared.readers c).holds = true

/-- It is the one that has the lock. -/
def Locked (σ : TelemetryState ι) : Prop := ∀ t, σ.shared.owner = some t ↔ Holds σ t

/-- One of those who use a lock goes on: it keeps the lock or does not have it, it takes the lock
when it is free, or it gives it back. -/
theorem lock_step {T : Type} {owner owner' : Option T} {holds holds' : T → Prop}
    (h : ∀ t, owner = some t ↔ holds t) (t₀ : T) (hothers : ∀ t, t ≠ t₀ → (holds' t ↔ holds t))
    (hstep : (owner' = owner ∧ (holds' t₀ ↔ holds t₀)) ∨
      (owner = none ∧ owner' = some t₀ ∧ holds' t₀) ∨ (owner' = none ∧ holds t₀ ∧ ¬ holds' t₀))
    (t : T) : owner' = some t ↔ holds' t := by
  by_cases ht : t = t₀
  · subst ht
    rcases hstep with ⟨rfl, hsame⟩ | ⟨-, rfl, hnow⟩ | ⟨rfl, -, hnot⟩
    · exact (h t).trans hsame.symm
    · exact iff_of_true rfl hnow
    · exact iff_of_false nofun hnot
  · rw [hothers t ht, ← h t]
    rcases hstep with ⟨rfl, -⟩ | ⟨rfl, rfl, -⟩ | ⟨rfl, hheld, -⟩
    · exact Iff.rfl
    · exact iff_of_false (fun he => ht (Option.some.inj he).symm) nofun
    · refine iff_of_false nofun fun he => ht ?_
      exact Option.some.inj (he.symm.trans ((h t₀).mpr hheld))

theorem LoopStep.lock {n : Nat} {b : CollectPlace} {b' : Option CollectPlace}
    (h : LoopStep n τ b τ' b') : τ'.readers = τ.readers ∧
      ((τ'.owner = τ.owner ∧ b'.any CollectPlace.holds = b.holds) ∨
        (τ.owner = none ∧ τ'.owner = some (.inl n) ∧ b'.any CollectPlace.holds = true) ∨
        (τ'.owner = none ∧ b.holds = true ∧ b'.any CollectPlace.holds = false)) := by
  cases h with
  | collect | fail | push | trim | log | sleep => exact ⟨rfl, .inl ⟨rfl, rfl⟩⟩
  | acquire h => exact ⟨rfl, .inr (.inl ⟨h, rfl, rfl⟩)⟩
  | release => exact ⟨rfl, .inr (.inr ⟨rfl, rfl, rfl⟩)⟩

theorem any_holds {b' : Option CollectPlace} :
    b'.any CollectPlace.holds = true ↔ ∃ p, b' = some p ∧ p.holds = true := by
  cases b' <;> simp

variable [DecidableEq ι]

theorem ReadStep.lock (h : ReadStep τ τ') : ∃ c, (∀ a, a ≠ c → τ'.readers a = τ.readers a) ∧
    ((τ'.owner = τ.owner ∧ (τ'.readers c).holds = (τ.readers c).holds) ∨
      (τ.owner = none ∧ τ'.owner = some (.inr c) ∧ (τ'.readers c).holds = true) ∨
      (τ'.owner = none ∧ (τ.readers c).holds = true ∧ (τ'.readers c).holds = false)) := by
  cases h with
  | @call c q h =>
    exact ⟨c, fun a ha => Function.update_of_ne ha .., .inl ⟨rfl, by simp [h, ReadPlace.holds]⟩⟩
  | @acquire c q h hfree =>
    refine ⟨c, fun a ha => Function.update_of_ne ha .., .inr (.inl ⟨hfree, rfl, ?_⟩)⟩
    simp [ReadPlace.holds]
  | @read c q h =>
    exact ⟨c, fun a ha => Function.update_of_ne ha .., .inl ⟨rfl, by simp [h, ReadPlace.holds]⟩⟩
  | @release c r h =>
    refine ⟨c, fun a ha => Function.update_of_ne ha .., .inr (.inr ⟨rfl, ?_, ?_⟩)⟩
    · simp [h, ReadPlace.holds]
    · simp [ReadPlace.holds]

theorem Locked.step (h : Locked σ) {l : Label ι} (hs : Step telemetry l σ σ') : Locked σ' := by
  rcases hs.inv with ⟨n, b, b', hn, ht, hthreads⟩ | ⟨hshared, hold, hnew⟩
  · obtain ⟨hreaders, hlock⟩ := ht.lock
    have hself : Holds σ' (.inl n) ↔ b'.any CollectPlace.holds = true := by
      rw [any_holds]
      refine ⟨fun ⟨p, hp, hheld⟩ => ?_, fun ⟨p, hp, hheld⟩ => ⟨p, ?_, hheld⟩⟩
      · rw [Service.State.At, hthreads] at hp
        rcases body_of_set hp with ⟨-, hp⟩ | ⟨hne, -⟩
        · exact ⟨p, hp, hheld⟩
        · exact absurd rfl hne
      · rw [Service.State.At, hthreads, hp]
        exact List.getElem?_set_self (List.getElem?_eq_some_iff.mp hn).1
    have hwas : Holds σ (.inl n) ↔ b.holds = true := by
      refine ⟨fun ⟨p, hp, hheld⟩ => ?_, fun hheld => ⟨b, hn, hheld⟩⟩
      cases hn.symm.trans hp
      exact hheld
    refine lock_step h (.inl n) (fun t hne => ?_) ?_
    · cases t with
      | inl m =>
        have hmn : n ≠ m := fun he => hne (congrArg Sum.inl he.symm)
        simp only [Holds, Service.State.At, hthreads, List.getElem?_set_ne hmn]
      | inr c => simp only [Holds, hreaders]
    · rw [hself, hwas, Bool.not_eq_true]
      rcases hlock with ⟨howner, hsame⟩ | h | h
      · exact .inl ⟨howner, by rw [hsame]⟩
      · exact .inr (.inl h)
      · exact .inr (.inr h)
  · have hloop : ∀ m, Holds σ' (.inl m) ↔ Holds σ (.inl m) := by
      refine fun m => ⟨fun ⟨p, hp, hheld⟩ => ?_, fun ⟨p, hp, hheld⟩ => ⟨p, hold m p hp, hheld⟩⟩
      rcases hnew m p hp with hp | ⟨-, rfl, -⟩
      · exact ⟨p, hp, hheld⟩
      · cases hheld
    rcases hshared with hshared | hread
    · intro t
      rw [hshared, h t]
      cases t with
      | inl m => exact (hloop m).symm
      | inr c => rw [Holds, Holds, hshared]
    · obtain ⟨c, hothers, hlock⟩ := ReadStep.lock hread
      refine lock_step h (.inr c) (fun t hne => ?_) ?_
      · cases t with
        | inl m => exact hloop m
        | inr a =>
          have ha : a ≠ c := fun he => hne (congrArg Sum.inr he)
          rw [Holds, Holds, hothers a ha]
      · rw [Holds, Holds, Bool.not_eq_true]
        rcases hlock with ⟨howner, hsame⟩ | h | h
        · exact .inl ⟨howner, by rw [hsame]⟩
        · exact .inr (.inl h)
        · exact .inr (.inr h)

/-! ## The history -/

/-- The history, cut or not, ends as what has been appended, and is too long only in a thread
that is about to cut it. -/
structure Windowed (nodeId : String) (σ : TelemetryState ι) : Prop where
  node : σ.shared.collector.nodeId = nodeId
  kept : σ.shared.collector.kept.rtake maxHistory = (appends σ.shared.effects).rtake maxHistory
  bound : σ.shared.collector.kept.length ≤ maxHistory ∨
    ∃ n snap, σ.At n (.body (.appended snap)) ∧
      σ.shared.collector.kept.length ≤ maxHistory + 1
  legal : Legal nodeId σ.shared.effects

omit [DecidableEq ι] in
/-- The history is not too long unless a thread is about to cut it. -/
theorem Windowed.collector_eq (hw : Windowed nodeId σ)
    (hcut : ∀ n snap, ¬ σ.At n (.body (.appended snap))) :
    σ.shared.collector = window nodeId σ.shared.effects := by
  have hlen : σ.shared.collector.kept.length ≤ maxHistory := by
    refine hw.bound.resolve_right fun h => ?_
    obtain ⟨n, snap, hn, -⟩ := h
    exact hcut n snap hn
  rw [window, ← hw.kept, ← hw.node, rtake_of_length_le hlen]

omit [DecidableEq ι] in
theorem LoopStep.effect {n : Nat} {b : CollectPlace} {b' : Option CollectPlace}
    (h : LoopStep n τ b τ' b') :
    (τ'.collector = τ.collector ∧ τ'.effects = τ.effects ∧ ∀ snap, b ≠ .appended snap) ∨
    (∃ snap, b = .holding snap ∧ b' = some (.appended snap) ∧
      τ'.collector = { τ.collector with kept := τ.collector.kept ++ [snap] } ∧
      τ'.effects = τ.effects ++ [.appended snap]) ∨
    (τ'.effects = τ.effects ∧
      τ'.collector = { τ.collector with kept := τ.collector.kept.rtake maxHistory }) := by
  cases h with
  | collect | fail | acquire | release | log | sleep => exact .inl ⟨rfl, rfl, nofun⟩
  | push => exact .inr (.inl ⟨_, rfl, rfl, rfl, rfl⟩)
  | trim => exact .inr (.inr ⟨rfl, by rw [Collection.trim, trim_eq (by decide)]⟩)

omit [DecidableEq ι] in
/-- A step of a thread in the loop. -/
theorem Windowed.loop (hw : Windowed nodeId σ) (h : Locked σ) {n : Nat} {b : CollectPlace}
    {b' : Option CollectPlace} (hn : σ.At n (.body b)) (ht : LoopStep n σ.shared b σ'.shared b')
    (hthreads : σ'.threads = σ.threads.set n (b'.elim .test .body)) : Windowed nodeId σ' := by
  obtain ⟨hnode, hkept, hbound, hlegal⟩ := hw
  rcases ht.effect with ⟨hcollector, heffects, hb⟩ | ⟨snap, rfl, rfl, hcollector, heffects⟩ |
    ⟨heffects, hcollector⟩
  · refine ⟨by rw [hcollector, hnode], by rw [hcollector, heffects, hkept], ?_,
      by rwa [heffects]⟩
    rw [hcollector]
    refine hbound.imp_right ?_
    rintro ⟨m, snap, hm, hle⟩
    refine ⟨m, snap, ?_, hle⟩
    have hnm : n ≠ m := fun he => by
      subst he
      cases hn.symm.trans hm
      exact hb snap rfl
    rw [Service.State.At, hthreads]
    exact (List.getElem?_set_ne hnm).trans hm
  · have hlen : σ.shared.collector.kept.length ≤ maxHistory := by
      -- two threads would have the lock
      refine hbound.resolve_right fun hcut => ?_
      obtain ⟨m, snap', hm, -⟩ := hcut
      have howner := ((h (.inl n)).mpr ⟨_, hn, rfl⟩).symm.trans ((h (.inl m)).mpr ⟨_, hm, rfl⟩)
      cases howner
      cases hn.symm.trans hm
    refine ⟨by rw [hcollector, hnode], ?_, .inr ⟨n, snap, ?_, ?_⟩, ?_⟩
    · rw [hcollector, heffects, appends_push, ← rtake_append, hkept, rtake_append]
    · rw [Service.State.At, hthreads]
      exact List.getElem?_set_self (List.getElem?_eq_some_iff.mp hn).1
    · rw [hcollector, List.length_append, List.length_singleton]
      omega
    · rw [heffects]
      refine hlegal.concat ?_
      rintro _ _ _ ⟨⟩
  · refine ⟨by rw [hcollector, hnode], ?_, .inl ?_, by rwa [heffects]⟩
    · rw [hcollector, heffects, rtake_rtake, min_self, hkept]
    · rw [hcollector, length_rtake]
      exact Nat.min_le_left ..

theorem ReadStep.effect (h : ReadStep τ τ') : τ'.collector = τ.collector ∧
    (τ'.effects = τ.effects ∨ ∃ c q, τ.readers c = .holding q ∧
      τ'.effects = τ.effects ++ [.read c q (τ.collector.answer q)]) := by
  cases h with
  | call | acquire | release => exact ⟨rfl, .inl rfl⟩
  | read h => exact ⟨rfl, .inr ⟨_, _, h, rfl⟩⟩

theorem Windowed.step (hw : Windowed nodeId σ) (h : Locked σ) {l : Label ι}
    (hs : Step telemetry l σ σ') : Windowed nodeId σ' := by
  rcases hs.inv with ⟨n, b, b', hn, ht, hthreads⟩ | ⟨hshared, hold, -⟩
  · exact hw.loop h hn ht hthreads
  · have hbound : σ.shared.collector.kept.length ≤ maxHistory ∨
        ∃ n snap, σ'.At n (.body (.appended snap)) ∧
          σ.shared.collector.kept.length ≤ maxHistory + 1 :=
      hw.bound.imp_right fun ⟨m, snap, hm, hle⟩ => ⟨m, snap, hold m _ hm, hle⟩
    rcases hshared with hshared | hread
    · exact ⟨by rw [hshared, hw.node], by rw [hshared, hw.kept], by rwa [hshared],
        by rw [hshared]; exact hw.legal⟩
    · obtain ⟨hcollector, heffects | ⟨c, q, hc, heffects⟩⟩ := ReadStep.effect hread
      · exact ⟨by rw [hcollector, hw.node], by rw [hcollector, heffects, hw.kept],
          by rwa [hcollector], by rw [heffects]; exact hw.legal⟩
      · refine ⟨by rw [hcollector, hw.node], ?_, by rwa [hcollector], ?_⟩
        · rw [hcollector, heffects, appends_read, hw.kept]
        · -- the reader has the lock, so that no thread is about to cut the history
          have howner := (h (.inr c)).mpr (by rw [Holds, hc]; rfl)
          have hwindow := hw.collector_eq fun m snap hm =>
            nomatch howner.symm.trans ((h (.inl m)).mpr ⟨_, hm, rfl⟩)
          rw [heffects]
          refine hw.legal.concat fun c' q' r he => ?_
          cases he
          rw [hwindow]

/-! ## Runs -/

omit [DecidableEq ι] in
theorem locked_new (nodeId : String) : Locked (newCollector nodeId : TelemetryState ι) := by
  intro t
  refine iff_of_false nofun ?_
  cases t with
  | inl n =>
    rintro ⟨p, hp, -⟩
    cases hp
  | inr c => exact nofun

omit [DecidableEq ι] in
theorem windowed_new (nodeId : String) :
    Windowed nodeId (newCollector nodeId : TelemetryState ι) where
  node := rfl
  kept := rfl
  bound := .inl (Nat.zero_le _)
  legal pre c q r post h := by
    cases pre <;> cases h

variable {G : Label ι → TelemetryState ι → Prop}

theorem run_locked (hr : Run telemetry G (newCollector nodeId) σ) :
    Locked σ ∧ Windowed nodeId σ := by
  induction hr with
  | start => exact ⟨locked_new nodeId, windowed_new nodeId⟩
  | step _ _ hs ih => exact ⟨ih.1.step hs, ih.2.step ih.1 hs⟩

/-- The snapshot of a thread that has collected it and has still to append it. -/
def CollectPlace.inFlight : CollectPlace → Multiset TelemetrySnapshot
  | .waiting snap | .holding snap => {snap}
  | _ => 0

theorem run_collected (hr : Run telemetry G (newCollector nodeId) σ) :
    (σ.shared.collected : Multiset TelemetrySnapshot) =
      appends σ.shared.effects + σ.load CollectPlace.inFlight := by
  refine hr.balanced CollectPlace.inFlight (fun τ => (τ.collected : Multiset TelemetrySnapshot))
    (fun τ => (appends τ.effects : Multiset TelemetrySnapshot)) rfl (fun ht rest h => ?_)
    (fun hread rest h => ?_) rfl
  · cases ht with
    | @collect _ _ snap =>
      show ((_ ++ [snap] : List TelemetrySnapshot) : Multiset _) = _ + ({snap} + rest)
      rw [← Multiset.coe_add, Multiset.coe_singleton, h]
      show _ + (0 + rest) + {snap} = _
      rw [zero_add, add_assoc, add_comm rest]
    | @push snap =>
      rw [Collection.push, appends_push, ← Multiset.coe_add, Multiset.coe_singleton, h]
      show _ + ({snap} + rest) = _ + {snap} + (0 + rest)
      rw [zero_add, add_assoc]
    | fail | acquire | trim | release | log | sleep => exact h
  · cases hread with
    | call | acquire | release => exact h
    | read => rwa [appends_read]

/-- Whoever starts, stops and reads, and in whatever order: one thread or reader at most is where
the lock is held; every read has returned what a collector returns that has appended the
snapshots before it one after another, which is what the history is whenever the lock is free, and
it is never longer by more than one; and every snapshot collected has been appended once, or is
on its way in a thread. -/
theorem telemetry_refines (hr : Run telemetry anyhow (newCollector nodeId) σ) :
    (∀ a b, Holds σ a → Holds σ b → a = b) ∧ Legal nodeId σ.shared.effects ∧
    (σ.shared.owner = none → σ.shared.collector = window nodeId σ.shared.effects) ∧
    σ.shared.collector.kept.length ≤ maxHistory + 1 ∧
    (σ.shared.collected : Multiset TelemetrySnapshot) =
      appends σ.shared.effects + σ.load CollectPlace.inFlight := by
  obtain ⟨hlock, hw⟩ := run_locked hr
  refine ⟨fun a b ha hb => ?_, hw.legal, fun hfree => hw.collector_eq fun n snap hn => ?_, ?_,
    run_collected hr⟩
  · exact Option.some.inj (((hlock a).mpr ha).symm.trans ((hlock b).mpr hb))
  · exact nomatch hfree.symm.trans ((hlock (.inl n)).mpr ⟨_, hn, rfl⟩)
  · rcases hw.bound with h | ⟨n, snap, -, h⟩
    · exact h.trans (Nat.le_succ _)
    · exact h

/-- A caller starts a collector, which collects and appends a snapshot, and asks for the latest. -/
theorem exists_sampled : ∃ (σ : TelemetryState Unit) (snap : TelemetrySnapshot),
    Run telemetry anyhow (newCollector "node") σ ∧
      σ.shared.effects = [.appended snap, .read () .latest (.latest (some snap))] := by
  obtain ⟨snap, hsnap⟩ : ∃ snap, collect "node" (.ok coreless) "60.0" = .ok snap := ⟨_, rfl⟩
  have h0 : Run telemetry anyhow (newCollector "node" : TelemetryState Unit) _ := .start
  have h1 := ((h0.step trivial (.enter (c := ()) rfl)).step trivial (.make (c := ()) rfl)).step
    trivial (.launch (c := ()) (n := 0) rfl rfl rfl)
  have h2 := (h1.step trivial (.test (n := 0) rfl)).step trivial
    (.turn (n := 0) rfl (LoopStep.collect hsnap))
  have h3 := (h2.step trivial (.turn (n := 0) rfl (LoopStep.acquire rfl))).step trivial
    (.turn (n := 0) rfl LoopStep.push)
  have h4 := (h3.step trivial (.turn (n := 0) rfl LoopStep.trim)).step trivial
    (.turn (n := 0) rfl LoopStep.release)
  have h5 := (h4.step trivial (.other (ReadStep.call (c := ()) .latest rfl))).step trivial
    (.other (ReadStep.acquire (c := ()) (q := .latest) rfl rfl))
  exact ⟨_, snap, h5.step trivial (.other (ReadStep.read (c := ()) (q := .latest) rfl)), rfl⟩

theorem sampled_refines : ∃ (σ : TelemetryState Unit) (snap : TelemetrySnapshot),
    σ.shared.effects = [.appended snap, .read () .latest (.latest (some snap))] ∧
    (σ.shared.owner = none → σ.shared.collector = window "node" σ.shared.effects) ∧
    Legal "node" σ.shared.effects := by
  obtain ⟨σ, snap, hr, heffects⟩ := exists_sampled
  obtain ⟨-, hlegal, hfree, -⟩ := telemetry_refines hr
  exact ⟨σ, snap, heffects, hfree, hlegal⟩

end Gaia.Observability
