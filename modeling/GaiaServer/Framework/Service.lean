import Mathlib.Algebra.BigOperators.Group.List.Basic
import Mathlib.Logic.Function.Basic
import Mathlib.Tactic.Common

/-!
# Loops in the background

A service runs a loop in a thread of its own, `while running: ...` (`Service`). A call that
starts it sets the flag, makes a thread and starts the thread that has been made last; the call
that stops it clears the flag. Any number of callers do so, and threads of earlier starts may be
there still (`Step`).

What each thread has at its place in the body, added up, is its `load`:

* `Run.balanced`: what a turn of the loop takes from one account, carries, and puts into
  another, is in the one, or carried by some thread, or in the other;
* `Run.drains`: once the flag is cleared and nobody starts the service, the threads finish the
  turns in which they are, and begin no other;
* `Run.single`: if the service is started only when all its threads have ended, there is never
  more than one thread.
-/

namespace Gaia

open Function (update)

/-- Where a thread is: made, but not started; at the loop's condition; in the loop's body; or
past the loop. -/
inductive LoopPlace (B : Type)
  | made
  | test
  | body (b : B)
  | ended

/-- The loop's body, from its `entry` on: the steps of thread `n`, where `none` is the end of the
body. And the steps of others on the state that the threads share. -/
structure Service (S B : Type) where
  entry : B
  turn : (n : Nat) → S → B → S → Option B → Prop
  others : S → S → Prop

namespace Service

variable {S B ι M : Type}

/-- Where a caller of `start` is. -/
inductive StartPlace
  | outside
  | making
  | starting
  deriving DecidableEq

structure State (S B ι : Type) where
  shared : S
  running : Bool
  /-- The thread that was made last. -/
  thread : Option Nat
  threads : List (LoopPlace B)
  callers : ι → StartPlace

def init (s : S) : State S B ι := ⟨s, false, none, [], fun _ => .outside⟩

/-- What a step is. -/
inductive Label (ι : Type)
  | enter (c : ι)
  | make (c : ι)
  | launch (c : ι)
  /-- The thread has been started already. -/
  | refuse (c : ι)
  | stop
  | test (n : Nat)
  | turn (n : Nat)
  | other

/-- Thread `n` is at a place. -/
def State.At (σ : State S B ι) (n : Nat) (p : LoopPlace B) : Prop := σ.threads[n]? = some p

/-- A thread that has not ended. -/
def State.Live (σ : State S B ι) (n : Nat) : Prop := ∃ p, σ.At n p ∧ p ≠ .ended

variable [DecidableEq ι] (V : Service S B)

inductive Step : Label ι → State S B ι → State S B ι → Prop
  | enter {σ c} (hc : σ.callers c = .outside) :
      Step (.enter c) σ { σ with running := true, callers := update σ.callers c .making }
  | make {σ c} (hc : σ.callers c = .making) :
      Step (.make c) σ { σ with
        thread := some σ.threads.length
        threads := σ.threads ++ [.made]
        callers := update σ.callers c .starting }
  | launch {σ c n} (hc : σ.callers c = .starting) (ht : σ.thread = some n)
      (hn : σ.At n .made) :
      Step (.launch c) σ { σ with
        threads := σ.threads.set n .test
        callers := update σ.callers c .outside }
  | refuse {σ c n p} (hc : σ.callers c = .starting) (ht : σ.thread = some n)
      (hn : σ.At n p) (hp : p ≠ .made) :
      Step (.refuse c) σ { σ with callers := update σ.callers c .outside }
  | stop {σ} : Step .stop σ { σ with running := false }
  | test {σ n} (hn : σ.At n .test) :
      Step (.test n) σ
        { σ with threads := σ.threads.set n (if σ.running then .body V.entry else .ended) }
  | turn {σ n b s b'} (hn : σ.At n (.body b)) (hs : V.turn n σ.shared b s b') :
      Step (.turn n) σ
        { σ with shared := s, threads := σ.threads.set n (b'.elim .test .body) }
  | other {σ s} (hs : V.others σ.shared s) : Step .other σ { σ with shared := s }

/-- What can be reached from a state by steps that are taken as `G` allows. -/
inductive Run (G : Label ι → State S B ι → Prop) (σ₀ : State S B ι) : State S B ι → Prop
  | start : Run G σ₀ σ₀
  | step {l σ σ'} : Run G σ₀ σ → G l σ → Step V l σ σ' → Run G σ₀ σ'

/-- Any steps. -/
def anyhow : Label ι → State S B ι → Prop := fun _ _ => True

/-- Nobody starts the service. -/
def unstarted (l : Label ι) (_ : State S B ι) : Prop := ∀ c, l ≠ .enter c

/-- Somebody starts the service only if all its threads have ended, and nobody else is about to
make one. -/
def separately (l : Label ι) (σ : State S B ι) : Prop :=
  ∀ c, l = .enter c → (∀ n, ¬ σ.Live n) ∧ ∀ c, σ.callers c ≠ .making

variable {V} {G : Label ι → State S B ι → Prop} {σ₀ σ σ' : State S B ι} {l : Label ι}

theorem Run.mono {G' : Label ι → State S B ι → Prop} (hG : ∀ l σ, G l σ → G' l σ)
    (hr : Run V G σ₀ σ) : Run V G' σ₀ σ := by
  induction hr with
  | start => exact .start
  | step _ hl hs ih => exact ih.step (hG _ _ hl) hs

theorem Run.trans (hr : Run V G σ₀ σ) (hr' : Run V G σ σ') : Run V G σ₀ σ' := by
  induction hr' with
  | start => exact hr
  | step _ hl hs ih => exact ih.step hl hs

/-! ## The bodies -/

omit [DecidableEq ι] in
/-- Where the threads are after thread `n` has gone on. -/
theorem body_of_set {ps : List (LoopPlace B)} {n m : Nat} {b' : Option B} {b : B}
    (h : (ps.set n (b'.elim .test .body))[m]? = some (.body b)) :
    (m = n ∧ b' = some b) ∨ (m ≠ n ∧ ps[m]? = some (.body b)) := by
  by_cases hm : m = n
  · subst hm
    rw [List.getElem?_set_self'] at h
    obtain ⟨p, -, hp⟩ := Option.map_eq_some_iff.mp h
    cases b' with
    | none => cases hp
    | some b' =>
      cases hp
      exact .inl ⟨rfl, rfl⟩
  · exact .inr ⟨hm, (List.getElem?_set_ne (Ne.symm hm)).symm.trans h⟩

/-- A step takes a thread on in its body; or all that are in the body stay where they are, and
one more may enter it from the condition, if this holds. -/
theorem Step.inv (hs : Step V l σ σ') :
    (∃ n b b', σ.At n (.body b) ∧ V.turn n σ.shared b σ'.shared b' ∧
      σ'.threads = σ.threads.set n (b'.elim .test .body)) ∨
    ((σ'.shared = σ.shared ∨ V.others σ.shared σ'.shared) ∧
      (∀ n b, σ.At n (.body b) → σ'.At n (.body b)) ∧
      ∀ n b, σ'.At n (.body b) →
        σ.At n (.body b) ∨ (σ.running = true ∧ b = V.entry ∧ σ.At n .test)) := by
  have hset : ∀ (n : Nat) (p q : LoopPlace B), σ.At n p → (∀ b, p ≠ .body b) →
      (∀ m b, σ.At m (.body b) → (σ.threads.set n q)[m]? = some (.body b)) ∧
      ∀ m b, (σ.threads.set n q)[m]? = some (.body b) → σ.At m (.body b) ∨
        (m = n ∧ q = .body b) := by
    intro n p q hn hp
    refine ⟨fun m b hm => ?_, fun m b hm => ?_⟩
    · have hmn : n ≠ m := fun h => by
        subst h
        exact hp b (Option.some.inj (hn.symm.trans hm))
      exact (List.getElem?_set_ne hmn).trans hm
    · by_cases hmn : m = n
      · subst hmn
        rw [List.getElem?_set_self (List.getElem?_eq_some_iff.mp hn).1] at hm
        exact .inr ⟨rfl, Option.some.inj hm⟩
      · exact .inl ((List.getElem?_set_ne (Ne.symm hmn)).symm.trans hm)
  cases hs with
  | enter | refuse | stop => exact .inr ⟨.inl rfl, fun _ _ => id, fun _ _ => .inl⟩
  | make =>
    refine .inr ⟨.inl rfl, fun n b hn => ?_, fun n b hn => .inl ?_⟩
    · exact (List.getElem?_append_left (List.getElem?_eq_some_iff.mp hn).1).trans hn
    · rw [State.At, List.getElem?_append] at hn
      split at hn
      · exact hn
      · cases List.mem_singleton.mp (List.mem_of_getElem? hn)
  | @launch _ _ n _ _ hn =>
    obtain ⟨hold, hnew⟩ := hset n _ .test hn nofun
    exact .inr ⟨.inl rfl, hold, fun m b hm => (hnew m b hm).imp_right fun h => nomatch h.2⟩
  | @test _ n hn =>
    obtain ⟨hold, hnew⟩ := hset n _ (if σ.running then .body V.entry else .ended) hn nofun
    refine .inr ⟨.inl rfl, hold, fun m b hm => (hnew m b hm).imp_right fun h => ?_⟩
    obtain ⟨rfl, hq⟩ := h
    split at hq
    · rename_i hrunning
      cases hq
      exact ⟨hrunning, rfl, hn⟩
    · cases hq
  | @turn _ n b s b' hn ht => exact .inl ⟨n, b, b', hn, ht, rfl⟩
  | other ho => exact .inr ⟨.inr ho, fun _ _ => id, fun _ _ => .inl⟩

/-! ## What the threads carry -/

section

variable [AddCommMonoid M] (wt : B → M)

/-- What a thread has at its place. -/
def weigh : LoopPlace B → M
  | .body b => wt b
  | _ => 0

/-- What the threads have together. -/
def State.load (σ : State S B ι) : M := (σ.threads.map (weigh wt)).sum

/-- One thread apart from the others. -/
theorem exists_rest {β : Type} (w : β → M) {ps : List β} {n : Nat} {p : β} (h : ps[n]? = some p) :
    ∃ rest, (ps.map w).sum = w p + rest ∧ ∀ q, ((ps.set n q).map w).sum = w q + rest := by
  induction ps generalizing n with
  | nil => cases h
  | cons x ps ih =>
    cases n with
    | zero =>
      cases h
      exact ⟨(ps.map w).sum, by simp, fun q => by simp⟩
    | succ n =>
      obtain ⟨rest, hsum, hset⟩ := ih (n := n) (by simpa using h)
      refine ⟨w x + rest, ?_, fun q => ?_⟩
      · rw [List.map_cons, List.sum_cons, hsum, add_left_comm]
      · rw [List.set_cons_succ, List.map_cons, List.sum_cons, hset, add_left_comm]

/-- A step of a thread in the body puts down what it had there, and takes up what it has at its
next place; and a thread that enters the body takes up what it has at its entry. -/
theorem Step.load (hs : Step V l σ σ') :
    (∃ n b b' rest, V.turn n σ.shared b σ'.shared b' ∧ σ.load wt = wt b + rest ∧
      σ'.load wt = b'.elim 0 wt + rest) ∨
    ((σ'.shared = σ.shared ∨ V.others σ.shared σ'.shared) ∧
      (σ'.load wt = σ.load wt ∨ σ.running = true ∧ σ'.load wt = wt V.entry + σ.load wt)) := by
  have hset : ∀ {n : Nat} {p q : LoopPlace B}, σ.threads[n]? = some p → weigh wt p = 0 →
      ((σ.threads.set n q).map (weigh wt)).sum = weigh wt q + σ.load wt := by
    intro n p q hn hp
    obtain ⟨rest, hsum, hq⟩ := exists_rest (weigh wt) hn
    rw [hq, State.load, hsum, hp, zero_add]
  cases hs with
  | enter | refuse | stop => exact .inr ⟨.inl rfl, .inl rfl⟩
  | make =>
    refine .inr ⟨.inl rfl, .inl ?_⟩
    simp [State.load, weigh]
  | launch _ _ hn => exact .inr ⟨.inl rfl, .inl ((hset hn rfl).trans (zero_add _))⟩
  | test hn =>
    refine .inr ⟨.inl rfl, ?_⟩
    cases hrun : σ.running with
    | true => exact .inr ⟨rfl, hset hn rfl⟩
    | false => exact .inl ((hset hn rfl).trans (zero_add _))
  | @turn _ n b s b' hn ht =>
    obtain ⟨rest, hsum, hq⟩ := exists_rest (weigh wt) hn
    refine .inl ⟨n, b, b', rest, ht, hsum, (hq _).trans ?_⟩
    cases b' <;> rfl
  | other ho => exact .inr ⟨.inr ho, .inl rfl⟩

/-- What has been taken from `f` is carried by the threads, or has been put into `g`. -/
theorem Run.balanced (f g : S → M) (hentry : wt V.entry = 0)
    (hturn : ∀ {n s b s' b'}, V.turn n s b s' b' → ∀ rest, f s = g s + (wt b + rest) →
      f s' = g s' + (b'.elim 0 wt + rest))
    (hothers : ∀ {s s'}, V.others s s' → ∀ rest, f s = g s + rest → f s' = g s' + rest)
    (h₀ : f σ₀.shared = g σ₀.shared + σ₀.load wt) (hr : Run V G σ₀ σ) :
    f σ.shared = g σ.shared + σ.load wt := by
  induction hr with
  | start => exact h₀
  | @step l σ σ' _ _ hs ih =>
    rcases hs.load wt with ⟨n, b, b', rest, ht, hload, hload'⟩ | ⟨hshared, hload⟩
    · rw [hload] at ih
      rw [hload']
      exact hturn ht rest ih
    · have hsame : σ'.load wt = σ.load wt := by
        rcases hload with h | ⟨-, h⟩
        · exact h
        · rw [h, hentry, zero_add]
      rw [hsame]
      rcases hshared with h | h
      · rw [h]
        exact ih
      · exact hothers h _ ih

end

/-! ## After the flag is cleared -/

theorem Step.running (hs : Step V l σ σ') (hl : unstarted l σ) (hrun : σ.running = false) :
    σ'.running = false := by
  cases hs with
  | enter => exact absurd rfl (hl _)
  | stop => rfl
  | make | launch | refuse | test | turn | other => exact hrun

/-- No thread enters the body. -/
theorem Step.entered (hs : Step V l σ σ') (hrun : σ.running = false) {n : Nat} {b : B}
    (hb : σ'.At n (.body b)) : ∃ b₀, σ.At n (.body b₀) := by
  rcases hs.inv with ⟨m, b₀, b', hm, -, hthreads⟩ | ⟨-, -, hnew⟩
  · rw [State.At, hthreads] at hb
    rcases body_of_set hb with ⟨rfl, -⟩ | ⟨-, hold⟩
    · exact ⟨b₀, hm⟩
    · exact ⟨b, hold⟩
  · rcases hnew n b hb with hold | ⟨hon, -⟩
    · exact ⟨b, hold⟩
    · rw [hrun] at hon
      cases hon

/-- What the threads may still do: each turn that is finished was under way, and `count` grows by
no more than the threads had still to add to it. -/
theorem Run.drains (wt : B → Nat) (count : S → Nat)
    (hturn : ∀ {n s b s' b'}, V.turn n s b s' b' → count s' + b'.elim 0 wt ≤ count s + wt b)
    (hothers : ∀ {s s'}, V.others s s' → count s' ≤ count s) (hrun : σ₀.running = false)
    (hr : Run V unstarted σ₀ σ) :
    σ.running = false ∧ count σ.shared + σ.load wt ≤ count σ₀.shared + σ₀.load wt := by
  induction hr with
  | start => exact ⟨hrun, Nat.le_refl _⟩
  | @step l σ σ' _ hl hs ih =>
    obtain ⟨hoff, hcount⟩ := ih
    refine ⟨hs.running hl hoff, ?_⟩
    rcases hs.load wt with ⟨n, b, b', rest, ht, hload, hload'⟩ | ⟨hshared, hload⟩
    · have hstep := hturn ht
      omega
    · have hsame : σ'.load wt = σ.load wt := hload.resolve_right fun h => by
        rw [hoff] at h
        exact absurd h.1 nofun
      have hle : count σ'.shared ≤ count σ.shared := by
        rcases hshared with h | h
        · exact Nat.le_of_eq (congrArg count h)
        · exact hothers h
      omega

/-! ## One thread at a time -/

/-- There is one thread at most that has not ended, and none while somebody is about to make one,
who is the only one. -/
structure Single (σ : State S B ι) : Prop where
  unique : ∀ n m, σ.Live n → σ.Live m → n = m
  none : ∀ c, σ.callers c = .making → ∀ n, ¬ σ.Live n
  maker : ∀ c c', σ.callers c = .making → σ.callers c' = .making → c = c'

omit [DecidableEq ι] in
theorem single_init (s : S) : Single (init s : State S B ι) where
  unique n m h _ := absurd h (by rintro ⟨p, hp, -⟩; cases hp)
  none c h := nomatch h
  maker c c' h := nomatch h

omit [DecidableEq ι] in
/-- There may be fewer threads, and fewer who make one. -/
theorem Single.of_live (h : Single σ) (hlive : ∀ n, σ'.Live n → σ.Live n)
    (hmaking : ∀ c, σ'.callers c = .making → σ.callers c = .making) : Single σ' where
  unique n m hn hm := h.unique n m (hlive n hn) (hlive m hm)
  none c hc n hn := h.none c (hmaking c hc) n (hlive n hn)
  maker c c' hc hc' := h.maker c c' (hmaking c hc) (hmaking c' hc')

omit [DecidableEq ι] in
/-- A thread that goes on was live. -/
theorem live_of_set {n : Nat} {p q : LoopPlace B} (hn : σ.At n p) (hp : p ≠ .ended)
    (hset : σ'.threads = σ.threads.set n q) (m : Nat) (hm : σ'.Live m) : σ.Live m := by
  obtain ⟨p', hm, hp'⟩ := hm
  by_cases hmn : m = n
  · subst hmn
    exact ⟨p, hn, hp⟩
  · rw [State.At, hset, List.getElem?_set_ne (Ne.symm hmn)] at hm
    exact ⟨p', hm, hp'⟩

theorem update_making {callers : ι → StartPlace} {c c' : ι} {p : StartPlace}
    (h : update callers c p c' = .making) (hp : p ≠ .making) : c' ≠ c ∧ callers c' = .making := by
  by_cases hc : c' = c
  · subst hc
    rw [Function.update_self] at h
    exact absurd h hp
  · rw [Function.update_of_ne hc] at h
    exact ⟨hc, h⟩

theorem Single.step (h : Single σ) (hl : separately l σ) (hs : Step V l σ σ') : Single σ' := by
  cases hs with
  | @enter _ c hc =>
    obtain ⟨hnone, hmaking⟩ := hl c rfl
    have hmaker : ∀ c', update σ.callers c .making c' = .making → c' = c := fun c' h' => by
      by_contra hne
      rw [Function.update_of_ne hne] at h'
      exact hmaking c' h'
    exact ⟨fun n m hn => absurd hn (hnone n), fun _ _ => hnone,
      fun a b ha hb => (hmaker a ha).trans (hmaker b hb).symm⟩
  | @make _ c hc =>
    have hlive : ∀ m p, (σ.threads ++ [.made])[m]? = some p → p ≠ .ended →
        m = σ.threads.length := by
      intro m p hm hp
      rw [List.getElem?_append] at hm
      split at hm
      · exact absurd ⟨p, hm, hp⟩ (h.none c hc m)
      · have hlt := (List.getElem?_eq_some_iff.mp hm).1
        rw [List.length_singleton] at hlt
        omega
    have hmaker : ∀ a, update σ.callers c .starting a ≠ .making := fun a ha => by
      obtain ⟨hne, ha⟩ := update_making ha nofun
      exact hne (h.maker a c ha hc)
    refine ⟨fun n m hn hm => ?_, fun a ha => absurd ha (hmaker a),
      fun a _ ha => absurd ha (hmaker a)⟩
    obtain ⟨p, hn, hp⟩ := hn
    obtain ⟨q, hm, hq⟩ := hm
    exact (hlive n p hn hp).trans (hlive m q hm hq).symm
  | launch hc ht hn =>
    exact h.of_live (live_of_set hn nofun rfl) fun a ha => (update_making ha nofun).2
  | refuse => exact h.of_live (fun _ => id) fun a ha => (update_making ha nofun).2
  | stop => exact h.of_live (fun _ => id) fun _ => id
  | test hn => exact h.of_live (live_of_set hn nofun rfl) fun _ => id
  | turn hn _ => exact h.of_live (live_of_set hn nofun rfl) fun _ => id
  | other => exact h.of_live (fun _ => id) fun _ => id

theorem Run.single (h₀ : Single σ₀) (hr : Run V separately σ₀ σ) : Single σ := by
  induction hr with
  | start => exact h₀
  | step _ hl hs ih => exact ih.step hl hs

end Service

end Gaia
