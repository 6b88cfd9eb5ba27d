import GaiaServer.Framework.Prog
import Mathlib.Logic.Relation

/-!
# Programs that are stopped and started again

A program that is stopped, between two operations or by an exception of one, leaves the state
that it has come to (`Prog.Cut`). A loop of steps each of which is done at once or not at all,
and finds nothing to do where it has been done (`Prog.Once`), goes on where it was stopped:
after any number of stops it does what it would have done at first (`forM_resumes`).
-/

namespace Gaia.Prog

variable {Op : Type} {Res : Op → Type} {ε α β S : Type} {h : Handler Op Res ε S} {s s' : S}

/-- The states that a program leaves where it is stopped. -/
inductive Cut (h : Handler Op Res ε S) : Prog Op Res ε α → S → S → Prop
  | stop {p s} : Cut h p s s
  | effect {o k s s'} : Cut h (k (h o s).1) (h o s).2 s' → Cut h (call o k) s s'
  | fault {o k s s'} (e : ε) : Cut h (k (.error e)) s s' → Cut h (call o k) s s'

theorem Cut.lift_inv {r : Except ε α} (hc : Cut h (lift r) s s') : s' = s := by
  cases r <;> cases hc <;> rfl

/-- One program after another is stopped in the first, or in the second. -/
theorem Cut.bind_inv {p : Prog Op Res ε α} {f : α → Prog Op Res ε β} (hc : Cut h (p.bind f) s s') :
    Cut h p s s' ∨ ∃ a s₁, Exec h p s (.ok a) s₁ ∧ Cut h (f a) s₁ s' := by
  induction p generalizing s with
  | ret a => exact .inr ⟨a, s, .ret, hc⟩
  | raise e =>
    cases hc
    exact .inl .stop
  | call o k ih =>
    cases hc with
    | stop => exact .inl .stop
    | effect hc =>
      rcases ih _ hc with hc | ⟨a, s₁, hx, hc⟩
      · exact .inl (.effect hc)
      · exact .inr ⟨a, s₁, .effect hx, hc⟩
    | fault e hc =>
      rcases ih _ hc with hc | ⟨a, s₁, hx, hc⟩
      · exact .inl (.fault e hc)
      · exact .inr ⟨a, s₁, .fault e hx, hc⟩

/-- The end of an execution. -/
theorem Exec.cut {p : Prog Op Res ε α} {r : Except ε α} (hx : Exec h p s r s') : Cut h p s s' := by
  induction hx with
  | ret => exact .stop
  | raise => exact .stop
  | effect _ ih => exact .effect ih
  | fault e _ ih => exact .fault e ih

theorem Cut.only_reads {A : Op → Prop} {p : Prog Op Res ε α} (hA : ∀ o s, A o → (h o s).2 = s)
    (hp : p.Only A) (hc : Cut h p s s') : s' = s := by
  induction hc with
  | stop => rfl
  | effect _ ih => rw [ih (hp.2 _), hA _ _ hp.1]
  | fault _ _ ih => exact ih (hp.2 _)

/-- An execution that returns went through both parts. -/
theorem Exec.bind_ok {p : Prog Op Res ε α} {f : α → Prog Op Res ε β} {b : β}
    (hx : Exec h (p.bind f) s (.ok b) s') :
    ∃ a s₁, Exec h p s (.ok a) s₁ ∧ Exec h (f a) s₁ (.ok b) s' := by
  rcases hx.bind_inv with ⟨e, -, he⟩ | hx
  · cases he
  · exact hx

/-- A step that is done at once, or not at all, and once; `D` holds where it has been done. -/
structure Once (h : Handler Op Res ε S) (D : S → Prop) (p : Prog Op Res ε Unit) : Prop where
  cut : ∀ {s s'}, Cut h p s s' → s' = s ∨ p.run h s = (.ok (), s')
  returns : ∀ {s s'}, Exec h p s (.ok ()) s' → p.run h s = (.ok (), s')
  done : ∀ {s s'}, p.run h s = (.ok (), s') → D s'
  idle : ∀ {s}, D s → p.run h s = (.ok (), s)

variable {f : β → Prog Op Res ε Unit} {D : β → S → Prop} {l : List β}

theorem run_forM_cons (b : β) (hb : (f b).run h s = (.ok (), s')) :
    ((b :: l).forM f).run h s = (l.forM f).run h s' :=
  run_bind_ok h hb

theorem run_forM_append {l₁ : List β} (l₂ : List β) (hl : (l₁.forM f).run h s = (.ok (), s')) :
    ((l₁ ++ l₂).forM f).run h s = (l₂.forM f).run h s' := by
  induction l₁ generalizing s with
  | nil =>
    cases hl
    rfl
  | cons b l₁ ih =>
    obtain ⟨⟨⟩, s₁, hb, hl⟩ := (run_bind_eq_ok h).mp hl
    rw [List.cons_append, run_forM_cons b hb]
    exact ih hl

/-- What each step of a loop keeps, the loop keeps. -/
theorem forM_keeps {I : S → Prop}
    (hI : ∀ b ∈ l, ∀ {s s'}, I s → (f b).run h s = (.ok (), s') → I s') (hs : I s)
    (hl : (l.forM f).run h s = (.ok (), s')) : I s' := by
  induction l generalizing s with
  | nil =>
    cases hl
    exact hs
  | cons b l ih =>
    obtain ⟨hIb, hI⟩ := List.forall_mem_cons.mp hI
    obtain ⟨⟨⟩, s₁, hb, hl⟩ := (run_bind_eq_ok h).mp hl
    exact ih hI (hIb hs hb) hl

variable (hf : ∀ b ∈ l, Once h (D b) (f b))
include hf

/-- Where a loop is stopped, the steps before have been done. -/
theorem Cut.forM (hc : Cut h (l.forM f) s s') :
    ∃ l₁ l₂, l = l₁ ++ l₂ ∧ (l₁.forM f).run h s = (.ok (), s') := by
  induction l generalizing s with
  | nil =>
    cases hc
    exact ⟨[], [], rfl, rfl⟩
  | cons b l ih =>
    obtain ⟨hb, hf⟩ := List.forall_mem_cons.mp hf
    rcases Cut.bind_inv hc with hc | ⟨⟨⟩, s₁, hx, hc⟩
    · rcases hb.cut hc with rfl | hrun
      · exact ⟨[], b :: l, rfl, rfl⟩
      · exact ⟨[b], l, rfl, run_bind_ok h hrun⟩
    · obtain ⟨l₁, l₂, rfl, hl⟩ := ih hf hc
      exact ⟨b :: l₁, l₂, rfl, (run_forM_cons b (hb.returns hx)).trans hl⟩

/-- A loop whose steps have been done does nothing. -/
theorem run_forM_idle (hD : ∀ b ∈ l, D b s) : (l.forM f).run h s = (.ok (), s) := by
  induction l with
  | nil => rfl
  | cons b l ih =>
    obtain ⟨hb, hf⟩ := List.forall_mem_cons.mp hf
    obtain ⟨hDb, hD⟩ := List.forall_mem_cons.mp hD
    rw [run_forM_cons b (hb.idle hDb)]
    exact ih hf hD

variable (hkeep : ∀ b, ∀ c ∈ l, ∀ {s s'}, D b s → (f c).run h s = (.ok (), s') → D b s')
include hkeep

/-- Where a loop has ended, its steps have been done. -/
theorem forM_done (hl : (l.forM f).run h s = (.ok (), s')) : ∀ b ∈ l, D b s' := by
  induction l generalizing s with
  | nil => exact fun _ hb => absurd hb List.not_mem_nil
  | cons b l ih =>
    obtain ⟨hb, hf⟩ := List.forall_mem_cons.mp hf
    have hkeep : ∀ b, ∀ c ∈ l, ∀ {s s'}, D b s → (f c).run h s = (.ok (), s') → D b s' :=
      fun b c hc => hkeep b c (List.mem_cons_of_mem _ hc)
    obtain ⟨⟨⟩, s₁, hrun, hl⟩ := (run_bind_eq_ok h).mp hl
    exact List.forall_mem_cons.mpr ⟨forM_keeps (hkeep b) (hb.done hrun) hl, ih hf hkeep hl⟩

/-- A loop that has been stopped goes on where it was. -/
theorem Cut.forM_resumes (hc : Cut h (l.forM f) s s') :
    (l.forM f).run h s' = (l.forM f).run h s := by
  obtain ⟨l₁, l₂, rfl, hl⟩ := hc.forM hf
  have hf₁ : ∀ b ∈ l₁, Once h (D b) (f b) := fun b hb => hf b (List.mem_append_left _ hb)
  have hdone := forM_done hf₁ (fun b c hc => hkeep b c (List.mem_append_left _ hc)) hl
  rw [run_forM_append l₂ hl, run_forM_append l₂ (run_forM_idle hf₁ hdone)]

/-- However often it has been stopped. -/
theorem forM_resumes (hc : Relation.ReflTransGen (Cut h (l.forM f)) s s') :
    (l.forM f).run h s' = (l.forM f).run h s := by
  induction hc with
  | refl => rfl
  | tail _ hc ih => exact (hc.forM_resumes hf hkeep).trans ih

end Gaia.Prog
