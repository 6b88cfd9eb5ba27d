import GaiaServer.Impl.Ipc.ThreadedGroup
import GaiaServer.Proof.Ipc.Convergence
import GaiaServer.Proof.Ipc.Subscribers

/-!
# The group with threads is the group

Whatever the threads of the actors do, and wherever their accesses fall, there is a run of
`Impl.Ipc.Group`, in which every call takes effect at once, that has the same objects
wherever the lock is free, and the same messages on the network (`Follows`,
`threaded_refines`). Each actor follows by `Monitor.Sim.step`; a call takes effect in the
group when the lock is released, so after all that was sent before it began, and before its
message is handed to the network (`Net.exists_call`).

So what holds of the group in any order of calls holds with threads: causal order
(`threaded_causal_order`), and that nothing is lost (`threaded_no_lost_update`).
-/

namespace Gaia.Ipc

open Function (update)
open Methods Monitor

variable {η π ι κ : Type} {G : Group ι} {K : String → Prop} {A A' A₁ A₂ : Net ι π} {i : ι}

/-! ## A call at once -/

/-- What came of a call is in the log. -/
def Logged (log : Log ι (BroadcastMessage π)) (i : ι) : Between π → Prop
  | .idle => True
  | .sent msg => .sent i msg ∈ log
  | .received msg => .received i msg ∈ log

/-- A call that the group may make. -/
def Possible (K : String → Prop) (log : Log ι (BroadcastMessage π)) :
    BroadcastMethod η π → Prop
  | .send kind .. => K kind
  | .receive msg => ∃ j, .sent j msg ∈ log
  | _ => True

theorem Logged.mono {log log' : Log ι (BroadcastMessage π)} (hl : log ⊆ log') {d : Between π}
    (hd : Logged log i d) : Logged log' i d := by
  cases d with
  | idle => trivial
  | sent msg => exact hl hd
  | received msg => exact hl hd

theorem Possible.mono {log log' : Log ι (BroadcastMessage π)} (hl : log ⊆ log')
    {m : BroadcastMethod η π} (hm : Possible K log m) : Possible K log' m := by
  cases m with
  | send => exact hm
  | receive msg => exact hm.imp fun _ hj => hl hj
  | clockSnapshot => trivial
  | holdQueueDepth => trivial
  | subscribe => trivial

namespace Net

variable [DecidableEq ι]

/-- A call that takes effect at once is a step of the group, or leaves it as it is. -/
theorem exists_call (hA : Reachable G K A) (i : ι) {m : BroadcastMethod η π}
    (hm : Possible K A.log m) : ∃ A', Reachable G K A' ∧
      A'.node = update A.node i (BroadcastMethod.atOnce m (A.node i)).2 ∧ A.log ⊆ A'.log ∧
      Logged A'.log i (after m (BroadcastMethod.atOnce m (A.node i)).1) ∧
      ∀ q msg, .sent q msg ∈ A'.log → .sent q msg ∈ A.log ∨
        q = i ∧ after m (BroadcastMethod.atOnce m (A.node i)).1 = .sent msg := by
  cases m with
  | send kind payload traceId uuidHex =>
    refine ⟨_, hA.send i hm payload traceId uuidHex, rfl, List.subset_cons_self .., ?_, ?_⟩
    · exact List.mem_cons_self
    · intro q msg hq
      rcases List.mem_cons.mp hq with he | hq
      · cases he
        exact .inr ⟨rfl, rfl⟩
      · exact .inl hq
  | receive msg =>
    obtain ⟨j, hj⟩ := hm
    refine ⟨_, hA.receive i hj, rfl, ?_, ?_, fun q m' hq => .inl ?_⟩
    · exact fun e he => List.mem_append_right _ (List.mem_cons_of_mem _ he)
    · exact List.mem_append_right _ List.mem_cons_self
    · simpa [Net.receive] using hq
  | clockSnapshot => exact ⟨A, hA, (Function.update_eq_self ..).symm, List.Subset.refl _, trivial,
      fun _ _ => .inl⟩
  | holdQueueDepth => exact ⟨A, hA, (Function.update_eq_self ..).symm, List.Subset.refl _, trivial,
      fun _ _ => .inl⟩
  | subscribe => exact ⟨A, hA, (Function.update_eq_self ..).symm, List.Subset.refl _, trivial,
      fun _ _ => .inl⟩

end Net

/-! ## Threads of calls -/

/-- A thread that is to make a call that is possible, or knows what came of one. -/
def Faithful (K : String → Prop) (log : Log ι (BroadcastMessage π)) (i : ι)
    (p : Prog (BroadcastMethod η π) BroadcastRes Left (Between π)) : Prop :=
  (∃ m, p = calling m ∧ Possible K log m) ∨ ∃ d, p = .ret d ∧ Logged log i d

theorem Faithful.mono {log log' : Log ι (BroadcastMessage π)} (hl : log ⊆ log')
    {p : Prog (BroadcastMethod η π) BroadcastRes Left (Between π)} (hp : Faithful K log i p) :
    Faithful K log' i p :=
  hp.imp (.imp fun _ => .imp_right (.mono hl)) (.imp fun _ => .imp_right (.mono hl))

/-- A thread that calls is to make a call that is possible. -/
theorem Faithful.call {log : Log ι (BroadcastMessage π)} {m : BroadcastMethod η π}
    {k : Except Left (BroadcastRes m) → Prog (BroadcastMethod η π) BroadcastRes Left (Between π)}
    (hp : Faithful K log i (.call m k)) : k = (fun r => .ret (after m r)) ∧ Possible K log m := by
  rcases hp with ⟨m', hm, hposs⟩ | ⟨d, hd, -⟩
  · cases hm
    exact ⟨rfl, hposs⟩
  · cases hd

variable {P P' : Pool (BroadcastMethod η π) BroadcastRes Left (Between π) κ}

/-- The group has come from `A` to `A'`, and the threads of actor `i` from `P` to `P'`. -/
structure Came (K : String → Prop) (A A' : Net ι π) (i : ι)
    (P P' : Pool (BroadcastMethod η π) BroadcastRes Left (Between π) κ) : Prop where
  log : A.log ⊆ A'.log
  threads : ∀ j, Faithful K A'.log i (P' j)
  kept : ∀ j d, P j = .ret d → P' j = .ret d
  sent : ∀ q msg, .sent q msg ∈ A'.log → .sent q msg ∈ A.log ∨
    q = i ∧ ∃ j, P' j = .ret (.sent msg)

/-- A call is over. -/
theorem Came.over [DecidableEq κ] (h : Came K A A₁ i P P') {j : κ} {m k} (hj : P' j = .call m k)
    {d : Between π} (hlog : A₁.log ⊆ A₂.log) (hd : Logged A₂.log i d)
    (hnew : ∀ q msg, .sent q msg ∈ A₂.log → .sent q msg ∈ A₁.log ∨ q = i ∧ d = .sent msg) :
    Came K A A₂ i P (update P' j (.ret d)) := by
  have hne : ∀ {l d}, P' l = .ret d → l ≠ j := by
    rintro l d hl rfl
    rw [hl] at hj
    cases hj
  refine ⟨fun e he => hlog (h.log he), fun l => ?_, fun l d hl => ?_, fun q msg hq => ?_⟩
  · by_cases hlj : l = j
    · rw [hlj, Function.update_self]
      exact .inr ⟨d, rfl, hd⟩
    · rw [Function.update_of_ne hlj]
      exact (h.threads l).mono hlog
  · have hl := h.kept l d hl
    rwa [Function.update_of_ne (hne hl)]
  · rcases hnew q msg hq with hq | ⟨rfl, rfl⟩
    · refine (h.sent q msg hq).imp_right (.imp_right fun ⟨l, hl⟩ => ⟨l, ?_⟩)
      rwa [Function.update_of_ne (hne hl)]
    · exact .inr ⟨rfl, j, Function.update_self ..⟩

variable [DecidableEq ι] [DecidableEq κ]

/-- The calls of one actor's threads, taken at once, are steps of the group. -/
theorem Net.exists_calls (hA : Reachable G K A) (hP : ∀ j, Faithful K A.log i (P j))
    {x : List (κ × BroadcastMethod η π)} {b : CausalBroadcast π}
    (ht : Pool.Traced BroadcastMethod.atOnce NoMemory P (A.node i) x P' b) :
    ∃ A', Reachable G K A' ∧ A'.node = update A.node i b ∧ Came K A A' i P P' := by
  induction ht with
  | start => exact ⟨A, hA, (Function.update_eq_self ..).symm, List.Subset.refl _, hP,
      fun _ _ => id, fun _ _ => .inl⟩
  | @effect x P' b j m k _ hj ih =>
    obtain ⟨A₁, hA₁, hnode, h⟩ := ih
    obtain ⟨rfl, hposs⟩ := (hj ▸ h.threads j).call
    obtain ⟨A₂, hA₂, hnode₂, hlog, hdone, hnew⟩ := Net.exists_call hA₁ i hposs
    have hb : A₁.node i = b := by rw [hnode, Function.update_self]
    rw [hb] at hnode₂ hdone hnew
    refine ⟨A₂, hA₂, ?_, h.over hj hlog hdone hnew⟩
    rw [hnode₂, hnode, Function.update_idem]
  | @fault x P' b j m k e _ hj _ ih =>
    obtain ⟨A₁, hA₁, hnode, h⟩ := ih
    obtain ⟨rfl, -⟩ := (hj ▸ h.threads j).call
    have hidle : after m (.error e) = .idle := by cases m <;> rfl
    refine ⟨A₁, hA₁, hnode, h.over hj (List.Subset.refl _) ?_ fun _ _ => .inl⟩
    rw [hidle]
    trivial

/-! ## The simulation -/

variable {outcome : ι → Outcome η π} {capacity : Nat} {N N' : ThreadedNet η π ι κ}
  {Q : ι → Pool (BroadcastMethod η π) BroadcastRes Left (Between π) κ}

/-- The group `A`, the threads `Q` of which make calls at once, is where `N` is. -/
structure Follows (outcome : ι → Outcome η π) (capacity : Nat) (K : String → Prop)
    (N : ThreadedNet η π ι κ) (Q : ι → Pool (BroadcastMethod η π) BroadcastRes Left (Between π) κ)
    (A : Net ι π) : Prop where
  held : ∀ i, Held (broadcastMonitor (outcome i) capacity) (N.actor i)
  sim : ∀ i, Sim (broadcastMonitor (outcome i) capacity) (Others capacity) (Kept capacity)
    Shared.object BroadcastMethod.atOnce (N.actor i) (Q i) (A.node i)
  threads : ∀ i j, Faithful K A.log i (Q i j)
  sent : ∀ msg ∈ N.sent, ∃ i, .sent i msg ∈ A.log
  received : ∀ x ∈ N.received, .received x.1 x.2 ∈ A.log
  known : ∀ i msg, .sent i msg ∈ A.log → msg ∈ N.sent ∨ ∃ j, Q i j = .ret (.sent msg)

omit [DecidableEq ι] [DecidableEq κ] in
theorem Follows.initial (outcome : ι → Outcome η π) (capacity : Nat) (G : Group ι)
    (K : String → Prop) : Follows outcome capacity K (.initial G : ThreadedNet η π ι κ)
      (fun _ _ => .ret .idle) (.initial G) where
  held _ := .init _ _ _
  sim i := .init (Kept.new (G.name i) capacity)
  threads _ _ := .inr ⟨.idle, rfl, trivial⟩
  sent _ h := absurd h List.not_mem_nil
  received _ h := absurd h List.not_mem_nil
  known _ _ h := absurd h List.not_mem_nil

/-- A thread that knows what came of its last call goes on. -/
theorem Follows.resume (ho : ∀ i, Contained (outcome i)) (h : Follows outcome capacity K N Q A)
    {j : κ} {d : Between π} (hj : (N.actor i).workers j = .outside (.ret d))
    {p : Prog (BroadcastMethod η π) BroadcastRes Left (Between π)} (hp : Faithful K A.log i p)
    (hN : N'.actor = update N.actor i ((N.actor i).resume j p))
    (hsent : ∀ msg, msg ∈ N'.sent ↔ msg ∈ N.sent ∨ d = .sent msg)
    (hreceived : ∀ x ∈ N'.received, x ∈ N.received ∨ x.1 = i ∧ d = .received x.2) :
    Follows outcome capacity K N' (update Q i (update (Q i) j p)) A := by
  have hd : Q i j = .ret d := (h.sim i).outside j _ hj
  have hlog : Logged A.log i d := by
    rcases h.threads i j with ⟨m, hm, -⟩ | ⟨d', hd', hl⟩
    · rw [hd] at hm
      cases hm
    · rw [hd] at hd'
      cases hd'
      exact hl
  refine ⟨fun q => ?_, fun q => ?_, fun q l => ?_, fun msg hm => ?_, fun x hx => ?_,
    fun q msg hq => ?_⟩
  · rw [hN]
    by_cases hqi : q = i
    · subst hqi
      rw [Function.update_self]
      exact (h.held q).resume hj p
    · rw [Function.update_of_ne hqi]
      exact h.held q
  · rw [hN]
    by_cases hqi : q = i
    · subst hqi
      rw [Function.update_self, Function.update_self]
      exact (h.sim q).resume (broadcast_refines (ho q)) j p
    · rw [Function.update_of_ne hqi, Function.update_of_ne hqi]
      exact h.sim q
  · by_cases hqi : q = i
    · subst hqi
      rw [Function.update_self]
      by_cases hlj : l = j
      · rwa [hlj, Function.update_self]
      · rw [Function.update_of_ne hlj]
        exact h.threads q l
    · rw [Function.update_of_ne hqi]
      exact h.threads q l
  · rcases (hsent msg).mp hm with hm | rfl
    · exact h.sent msg hm
    · exact ⟨i, hlog⟩
  · rcases hreceived x hx with hx | ⟨rfl, rfl⟩
    · exact h.received x hx
    · exact hlog
  · rcases h.known q msg hq with hm | ⟨l, hl⟩
    · exact .inl ((hsent msg).mpr (.inl hm))
    · by_cases hij : q = i ∧ l = j
      · obtain ⟨rfl, rfl⟩ := hij
        rw [hd] at hl
        cases hl
        exact .inl ((hsent msg).mpr (.inr rfl))
      · refine .inr ⟨l, ?_⟩
        by_cases hqi : q = i
        · subst hqi
          rwa [Function.update_self, Function.update_of_ne fun hlj => hij ⟨rfl, hlj⟩]
        · rwa [Function.update_of_ne hqi]

/-- A thread takes a step inside of its object. -/
theorem Follows.run (ho : ∀ i, Contained (outcome i)) (hA : Net.Reachable G K A)
    (h : Follows outcome capacity K N Q A) {C : Actor η π κ}
    (hs : Monitor.Step (broadcastMonitor (outcome i) capacity) (N.actor i) C) :
    ∃ Q' A', Net.Reachable G K A' ∧ Follows outcome capacity K (N.setActor i C) Q' A' := by
  obtain ⟨x, P', b, ht, hsim⟩ := (h.sim i).step (broadcast_refines (ho i)) (h.held i) hs
  obtain ⟨A', hA', hnode, hcame⟩ := Net.exists_calls hA (h.threads i) ht
  refine ⟨update Q i P', A', hA', fun q => ?_, fun q => ?_, fun q l => ?_,
    fun msg hm => ?_, fun x hx => hcame.log (h.received x hx), fun q msg hq => ?_⟩
  · rw [ThreadedNet.setActor_actor]
    by_cases hqi : q = i
    · subst hqi
      rw [Function.update_self]
      exact (h.held q).step hs
    · rw [Function.update_of_ne hqi]
      exact h.held q
  · rw [ThreadedNet.setActor_actor, hnode]
    by_cases hqi : q = i
    · subst hqi
      rwa [Function.update_self, Function.update_self, Function.update_self]
    · rw [Function.update_of_ne hqi, Function.update_of_ne hqi, Function.update_of_ne hqi]
      exact h.sim q
  · by_cases hqi : q = i
    · subst hqi
      rw [Function.update_self]
      exact hcame.threads l
    · rw [Function.update_of_ne hqi]
      exact (h.threads q l).mono hcame.log
  · exact (h.sent msg hm).imp fun _ hq => hcame.log hq
  · rcases hcame.sent q msg hq with hq | ⟨rfl, l, hl⟩
    · refine (h.known q msg hq).imp_right fun ⟨l, hl⟩ => ⟨l, ?_⟩
      by_cases hqi : q = i
      · subst hqi
        rw [Function.update_self]
        exact hcame.kept l _ hl
      · rwa [Function.update_of_ne hqi]
    · exact .inr ⟨l, by rwa [Function.update_self]⟩

theorem Follows.step (ho : ∀ i, Contained (outcome i)) (hA : Net.Reachable G K A)
    (h : Follows outcome capacity K N Q A) (hs : ThreadedNet.Step outcome capacity K N N') :
    ∃ Q' A', Net.Reachable G K A' ∧ Follows outcome capacity K N' Q' A' := by
  cases hs with
  | @call i j m hj hm =>
    have hposs : Possible K A.log m := by
      cases m with
      | send => exact hm
      | receive msg => exact h.sent msg hm
      | clockSnapshot => trivial
      | holdQueueDepth => trivial
      | subscribe => trivial
    exact ⟨_, A, hA, h.resume ho hj (.inl ⟨m, rfl, hposs⟩) rfl
      (fun _ => by simp [ThreadedNet.setActor]) fun _ => .inl⟩
  | run hs => exact h.run ho hA hs
  | @post i j d hj =>
    refine ⟨_, A, hA, h.resume ho hj (.inr ⟨.idle, rfl, trivial⟩) ?_ (fun msg => ?_) fun x hx => ?_⟩
    · cases d <;> rfl
    · cases d <;> simp [ThreadedNet.post, ThreadedNet.setActor, or_comm, eq_comm]
    · cases d with
      | idle => exact .inl hx
      | sent => exact .inl hx
      | received msg =>
        rcases List.mem_cons.mp hx with rfl | hx
        · exact .inr ⟨rfl, rfl⟩
        · exact .inl hx

theorem ThreadedNet.Reachable.follows (ho : ∀ i, Contained (outcome i))
    (hr : ThreadedNet.Reachable outcome capacity G K N) :
    ∃ Q A, Net.Reachable G K A ∧ Follows outcome capacity K N Q A := by
  induction hr with
  | initial => exact ⟨_, _, .initial, .initial outcome capacity G K⟩
  | step _ hs ih =>
    obtain ⟨Q, A, hA, h⟩ := ih
    exact h.step ho hA hs

/-! ## What holds with threads -/

/-- No thread is inside of a method, and what came of every call is known. -/
def ThreadedNet.Idle (N : ThreadedNet η π ι κ) : Prop :=
  ∀ i j, (N.actor i).workers j = .outside (.ret .idle)

omit [DecidableEq ι] [DecidableEq κ] in
/-- When the threads are idle, the network has all that was sent. -/
theorem Follows.mem_sent (h : Follows outcome capacity K N Q A) (hidle : N.Idle) {i : ι}
    {msg : BroadcastMessage π} (hm : .sent i msg ∈ A.log) : msg ∈ N.sent := by
  refine (h.known i msg hm).resolve_right ?_
  rintro ⟨j, hj⟩
  rw [(h.sim i).outside j _ (hidle i j)] at hj
  cases hj

omit [DecidableEq ι] [DecidableEq κ] in
/-- Where the lock is free, the object is the same. -/
theorem Follows.object (h : Follows outcome capacity K N Q A) (hfree : (N.actor i).owner = none) :
    (N.actor i).state.object = A.node i :=
  ((h.sim i).state hfree).2

/-- Whatever the threads of the actors do, there is a run of the group, in which every call
takes effect at once, with the same object wherever the lock is free, where all that has been
handed to the network was sent, and all that has been received was received. When the threads
are idle nothing else has been sent there. -/
theorem threaded_refines (ho : ∀ i, Contained (outcome i))
    (hr : ThreadedNet.Reachable outcome capacity G K N) : ∃ A, Net.Reachable G K A ∧
      (∀ i, (N.actor i).owner = none → (N.actor i).state.object = A.node i) ∧
      (∀ msg ∈ N.sent, ∃ i, .sent i msg ∈ A.log) ∧
      (∀ i msg, (i, msg) ∈ N.received → .received i msg ∈ A.log) ∧
      (N.Idle → ∀ i msg, .sent i msg ∈ A.log → msg ∈ N.sent) := by
  obtain ⟨Q, A, hA, h⟩ := hr.follows ho
  exact ⟨A, hA, fun _ => h.object, h.sent, fun i msg hm => h.received _ hm,
    fun hidle _ _ => h.mem_sent hidle⟩

/-- An actor's thread makes a call while all the others wait. -/
def ThreadedNet.called (outcome : ι → Outcome η π) (capacity : Nat) (N : ThreadedNet η π ι κ)
    (i : ι) (m : BroadcastMethod η π) : ThreadedNet η π ι κ :=
  let r := (broadcastMonitor (outcome i) capacity).atomic m (N.actor i).state
  (N.setActor i ⟨(N.actor i).workers, none, r.2⟩).post i (after m r.1)

theorem ThreadedNet.Reachable.steps (hr : ThreadedNet.Reachable outcome capacity G K N) {i : ι}
    {C C' : Actor η π κ} (hC : N.actor i = C)
    (hs : Relation.ReflTransGen (Monitor.Step (broadcastMonitor (outcome i) capacity)) C C') :
    ThreadedNet.Reachable outcome capacity G K (N.setActor i C') := by
  induction hs with
  | refl => rwa [← hC, ThreadedNet.setActor_self]
  | @tail C₁ C₂ _ hs ih =>
    have hC₁ : (N.setActor i C₁).actor i = C₁ := Function.update_self ..
    have hr' := ih.step (.run (hC₁.symm ▸ hs))
    rwa [ThreadedNet.setActor_setActor] at hr'

theorem ThreadedNet.Reachable.called (hr : ThreadedNet.Reachable outcome capacity G K N) {i : ι}
    (j : κ) {m : BroadcastMethod η π} (hj : (N.actor i).workers j = .outside (.ret .idle))
    (hfree : (N.actor i).owner = none) (hm : Allowed K N.sent m) :
    ThreadedNet.Reachable outcome capacity G K (N.called outcome capacity i m) := by
  have hactor : ∀ (N : ThreadedNet η π ι κ) C, (N.setActor i C).actor i = C := fun N C =>
    Function.update_self ..
  have hw : ((N.actor i).resume j (calling m)).workers j =
      .outside (.call m fun r => .ret (after m r)) := Function.update_self ..
  have hr' := (hr.step (.call hj hm)).steps (hactor _ _) (steps_call hw hfree)
  rw [ThreadedNet.setActor_setActor] at hr'
  -- what came of the call
  have hpost := hr'.step (.post (i := i) (j := j) (by rw [hactor]; exact Function.update_self ..))
  rw [hactor, ThreadedNet.setActor_setActor] at hpost
  have hidle : ∀ (p : Prog (BroadcastMethod η π) BroadcastRes Left (Between π)) s,
      (⟨update ((N.actor i).resume j (calling m)).workers j (.outside p), none, s⟩ :
        Actor η π κ).resume j (.ret .idle) = ⟨(N.actor i).workers, none, s⟩ := by
    intro p s
    simp only [Config.resume, Function.update_idem, ← hj, Function.update_eq_self]
  rw [hidle] at hpost
  exact hpost

/-! ## A run -/

/-- Handlers that return. -/
def quietAll : Fin 3 → Outcome Unit Unit := fun _ => quiet

/-- A thread of `a` sends its question, one of `b` receives it and sends an answer. -/
def threadedAnswered (a b : Fin 3) : ThreadedNet Unit Unit (Fin 3) Unit :=
  (((ThreadedNet.initial trio).called quietAll 8 a (.send "control" () "" "0")).called
    quietAll 8 b (.receive relayFirst)).called quietAll 8 b (.send "policy" () "" "1")

/-- A thread of `c` receives the answer before the question. -/
def threadedRelay (a b c : Fin 3) : ThreadedNet Unit Unit (Fin 3) Unit :=
  ((threadedAnswered a b).called quietAll 8 c (.receive relaySecond)).called
    quietAll 8 c (.receive relayFirst)

theorem threadedRelay_spec : (threadedRelay 0 1 2).sent = [relaySecond, relayFirst] ∧
    (threadedRelay 0 1 2).received = [(2, relayFirst), (2, relaySecond), (1, relayFirst)] ∧
    ((threadedRelay 0 1 2).actor 2).state.object.handled = [relayFirst, relaySecond] := by decide

theorem threadedRelay_reachable :
    ThreadedNet.Reachable quietAll 8 trio NonHealth (threadedRelay 0 1 2) := by
  have hsent : relayFirst ∈ (threadedAnswered 0 1).sent ∧
      relaySecond ∈ (threadedAnswered 0 1).sent := by
    decide
  have hanswered : ThreadedNet.Reachable quietAll 8 trio NonHealth (threadedAnswered 0 1) := by
    refine ((ThreadedNet.Reachable.initial.called () rfl rfl ?_).called () rfl rfl ?_).called ()
      rfl rfl ?_
    · show NonHealth "control"
      decide
    · exact List.mem_singleton_self _
    · show NonHealth "policy"
      decide
  exact (hanswered.called () (m := .receive relaySecond) rfl rfl hsent.2).called ()
    (m := .receive relayFirst) rfl rfl hsent.1

theorem threaded_relay_refines : ∃ A, Net.Reachable trio NonHealth A ∧
    (A.node 2).handled = [relayFirst, relaySecond] ∧ .received 1 relayFirst ∈ A.log := by
  obtain ⟨A, hA, hobject, -, hreceived, -⟩ :=
    threaded_refines (fun _ => quiet_contained) threadedRelay_reachable
  obtain ⟨-, hr, hhandled⟩ := threadedRelay_spec
  refine ⟨A, hA, ?_, hreceived 1 relayFirst ?_⟩
  · rw [← hobject 2 rfl]
    exact hhandled
  · rw [hr]
    simp

/-! ## Causal order -/

/-- With any number of threads at each actor: a message that another's vector clock covers,
and that is not the actor's own, has been delivered before it; and none has been delivered
twice. -/
theorem threaded_causal_order (ho : ∀ i, Contained (outcome i))
    (hr : ThreadedNet.Reachable outcome capacity G NonHealth N) {p : ι}
    (hfree : (N.actor p).owner = none) :
    (N.actor p).state.object.handled.Nodup ∧
    ∀ (n : Nat) m₂, (N.actor p).state.object.handled[n]? = some m₂ → ∀ m₁ ∈ N.sent,
      m₁.sourceCore ≠ G.name p → m₁.counter ≤ m₂.stamp m₁.sourceCore → m₁ ≠ m₂ →
      ∃ n' < n, (N.actor p).state.object.handled[n']? = some m₁ := by
  obtain ⟨Q, A, hA, h⟩ := hr.follows ho
  have hp := hA.inv.node p
  rw [h.object hfree]
  refine ⟨hp.nodup, fun n m₂ hn m₁ hm₁ hsource hcovers hne => ?_⟩
  obtain ⟨q, hq⟩ := h.sent m₁ hm₁
  have hq := Net.mem_sent.mpr hq
  have hname := hA.inv.sent.source hq
  rw [hname] at hsource hcovers
  exact hp.ordered n m₂ hn m₁ ⟨q, fun e => hsource (e ▸ rfl), hq, hcovers, hne⟩

theorem threaded_relay_ordered :
    ∃ n < 1, ((threadedRelay 0 1 2).actor 2).state.object.handled[n]? = some relayFirst := by
  obtain ⟨hsent, -, hhandled⟩ := threadedRelay_spec
  refine (threaded_causal_order (fun _ => quiet_contained) threadedRelay_reachable (p := 2) rfl).2
    1 relaySecond ?_ relayFirst ?_ ?_ ?_ ?_
  · rw [hhandled]
    rfl
  · rw [hsent]
    simp
  · decide
  · decide
  · decide

/-! ## No lost update -/

/-- `p` has taken in every message of the others that the network has. -/
def ThreadedNet.ReceivedAll (G : Group ι) (N : ThreadedNet η π ι κ) (p : ι) : Prop :=
  ∀ msg ∈ N.sent, msg.sourceCore ≠ G.name p → (p, msg) ∈ N.received

/-- Actors that have received all the others' messages have the same clock. -/
theorem Net.Reachable.time_eq (hA : Net.Reachable G NonHealth A) {p p' : ι}
    (hp : A.ReceivedAll p) (hp' : A.ReceivedAll p') (a : String) :
    (A.node p).time a = (A.node p').time a := by
  have htime : ∀ {p}, A.ReceivedAll p → ∀ q, (A.node p).time (G.name q) = (A.sent q).length :=
    fun hall q => hA.live.time_eq hA.mixed (hA.inv.waiting _) hall q
  by_cases ha : ∃ q, a = G.name q
  · obtain ⟨q, rfl⟩ := ha
    rw [htime hp, htime hp']
  · have hs : ∀ q, a ≠ G.name q := fun q e => ha ⟨q, e⟩
    rw [(hA.inv.node p).stranger hs, (hA.inv.node p').stranger hs]

/-- With any number of threads at each actor, when all calls are over: an actor that has
taken in all messages of the others has delivered exactly these, each once, and two such
actors have the same clock. -/
theorem threaded_no_lost_update (ho : ∀ i, Contained (outcome i))
    (hr : ThreadedNet.Reachable outcome capacity G NonHealth N) (hidle : N.Idle) :
    (∀ p, N.ReceivedAll G p → (N.actor p).state.object.handled.Nodup ∧
      ∀ msg, msg ∈ (N.actor p).state.object.handled ↔
        msg ∈ N.sent ∧ msg.sourceCore ≠ G.name p) ∧
    ∀ p p', N.ReceivedAll G p → N.ReceivedAll G p' → ∀ a,
      (N.actor p).state.object.clock.get a 0 = (N.actor p').state.object.clock.get a 0 := by
  obtain ⟨Q, A, hA, h⟩ := hr.follows ho
  have hobject : ∀ p, (N.actor p).state.object = A.node p := fun p =>
    h.object ((h.held p).free_of_outside fun j => ⟨_, hidle p j⟩)
  have hall : ∀ {p}, N.ReceivedAll G p → A.ReceivedAll p := by
    intro p hp q hq m hm
    refine h.received (p, m) (hp m (h.mem_sent hidle hm) fun hs => hq (G.distinct ?_))
    rw [← hA.inv.sent.source (Net.mem_sent.mpr hm), hs]
  refine ⟨fun p hp => ⟨?_, fun msg => ⟨fun hm => ?_, fun hm => ?_⟩⟩, fun p p' hp hp' a => ?_⟩
  · rw [hobject]
    exact (hA.inv.node p).nodup
  · rw [hobject] at hm
    obtain ⟨q, hq, hm⟩ := (hA.inv.node p).handled_sent hm
    refine ⟨h.mem_sent hidle (Net.mem_sent.mp hm), ?_⟩
    rw [hA.inv.sent.source hm]
    exact fun e => hq (G.distinct e)
  · obtain ⟨q, hq⟩ := h.sent msg hm.1
    have hqp : q ≠ p := by
      rintro rfl
      exact hm.2 (hA.inv.sent.source (Net.mem_sent.mpr hq))
    rw [hobject]
    exact hA.live.handled hA.mixed (hA.inv.waiting p) (hall hp) (List.suffix_refl _) hqp hq
  · rw [hobject, hobject]
    exact hA.time_eq (hall hp) (hall hp') a

theorem threaded_relay_converges :
    (fun a => ((threadedRelay 0 1 2).actor 1).state.object.clock.get a 0) =
      fun a => ((threadedRelay 0 1 2).actor 2).state.object.clock.get a 0 := by
  obtain ⟨hsent, hreceived, -⟩ := threadedRelay_spec
  refine funext ((threaded_no_lost_update (fun _ => quiet_contained) threadedRelay_reachable
    fun i j => ?_).2 1 2 ?_ ?_)
  · match i with
    | 0 => rfl
    | 1 => rfl
    | 2 => rfl
  · intro msg hm hs
    rw [hsent] at hm
    rcases List.mem_pair.mp hm with rfl | rfl
    · exact absurd rfl hs
    · rw [hreceived]
      simp
  · intro msg hm _
    rw [hsent] at hm
    rw [hreceived]
    rcases List.mem_pair.mp hm with rfl | rfl
    · simp
    · simp

end Gaia.Ipc
