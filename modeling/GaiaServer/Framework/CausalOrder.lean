import Mathlib.Logic.Relation
import Mathlib.Order.Basic
import Mathlib.Data.List.Basic

/-!
# Event logs, happens-before and causal delivery

Actors `ι` exchange messages `μ`; a log is what happened, newest event first
(`Log`). One message directly precedes another when the sender of the second
had sent or delivered the first before it sent the second (`Log.Direct`), and
happens before it through any number of such steps (`Log.HappensBefore`).

* `HappensBefore.stamp_lt`: if the stamps of messages grow along every direct
  step, strictly at the later sender's place, they do along happens-before;
* `OrderedBy R l`: in the sequence `l`, each message comes after every message
  that `R` puts before it (`OrderedBy.snoc`, `OrderedBy.mono`).
-/

namespace Gaia

variable {ι μ α : Type}

/-- An event of actor `i`: it sends `m`, is handed `m` by the network, or
delivers `m`. -/
inductive Event (ι μ : Type)
  | sent (i : ι) (m : μ)
  | received (i : ι) (m : μ)
  | delivered (i : ι) (m : μ)
  deriving DecidableEq

/-- A log, newest event first. -/
abbrev Log (ι μ : Type) := List (Event ι μ)

namespace Log

/-- When `m₂` was sent, its sender had sent or delivered `m₁`. -/
inductive Direct : Log ι μ → μ → μ → Prop
  | here {i : ι} {m₁ m₂ : μ} {past : Log ι μ} :
      .sent i m₁ ∈ past ∨ .delivered i m₁ ∈ past → Direct (.sent i m₂ :: past) m₁ m₂
  | later {e : Event ι μ} {m₁ m₂ : μ} {past : Log ι μ} :
      Direct past m₁ m₂ → Direct (e :: past) m₁ m₂

/-- `m₁` happens before `m₂`. -/
def HappensBefore (log : Log ι μ) : μ → μ → Prop := Relation.TransGen (Direct log)

theorem direct_cons {e : Event ι μ} {m₁ m₂ : μ} {past : Log ι μ} :
    Direct (e :: past) m₁ m₂ ↔
      (∃ i, e = .sent i m₂ ∧ (.sent i m₁ ∈ past ∨ .delivered i m₁ ∈ past)) ∨ Direct past m₁ m₂ := by
  constructor
  · rintro (h | h)
    · exact .inl ⟨_, rfl, h⟩
    · exact .inr h
  · rintro (⟨i, rfl, h⟩ | h)
    · exact .here h
    · exact .later h

theorem Direct.append {log : Log ι μ} {m₁ m₂ : μ} (h : Direct log m₁ m₂) (evs : Log ι μ) :
    Direct (evs ++ log) m₁ m₂ := by
  induction evs with
  | nil => exact h
  | cons _ _ ih => exact .later ih

theorem Direct.left_mem {log : Log ι μ} {m₁ m₂ : μ} (h : Direct log m₁ m₂) :
    ∃ i, .sent i m₁ ∈ log ∨ .delivered i m₁ ∈ log := by
  induction h with
  | here h => exact ⟨_, h.imp (List.mem_cons_of_mem _) (List.mem_cons_of_mem _)⟩
  | later _ ih => exact ih.imp fun _ => .imp (List.mem_cons_of_mem _) (List.mem_cons_of_mem _)

theorem HappensBefore.left_mem {log : Log ι μ} {m₁ m₂ : μ} (h : log.HappensBefore m₁ m₂) :
    ∃ i, .sent i m₁ ∈ log ∨ .delivered i m₁ ∈ log := by
  induction h using Relation.TransGen.head_induction_on with
  | single h => exact h.left_mem
  | head h _ _ => exact h.left_mem

/-- Stamps that grow along every direct step, strictly at the place of the later
message's source, grow so along happens-before. -/
theorem HappensBefore.stamp_lt {T : Type} [Preorder T] {log : Log ι μ} {stamp : μ → α → T}
    {source : μ → α}
    (hd : ∀ m₁ m₂, Direct log m₁ m₂ →
      (∀ a, stamp m₁ a ≤ stamp m₂ a) ∧ stamp m₁ (source m₂) < stamp m₂ (source m₂))
    {m₁ m₂ : μ} (h : log.HappensBefore m₁ m₂) :
    (∀ a, stamp m₁ a ≤ stamp m₂ a) ∧ stamp m₁ (source m₂) < stamp m₂ (source m₂) := by
  induction h with
  | single h => exact hd _ _ h
  | tail _ h ih =>
    obtain ⟨hle, hlt⟩ := hd _ _ h
    exact ⟨fun a => (ih.1 a).trans (hle a), (ih.1 _).trans_lt hlt⟩

/-- The messages that `i` sent, newest first. -/
def sentBy [DecidableEq ι] (i : ι) (log : Log ι μ) : List μ :=
  log.filterMap fun
    | .sent j m => if j = i then some m else none
    | _ => none

section sentBy

variable [DecidableEq ι] {i : ι} {m : μ} {log : Log ι μ}

@[simp] theorem sentBy_cons_self : sentBy i (.sent i m :: log) = m :: sentBy i log := by
  simp [sentBy]

theorem sentBy_cons_of_ne {j : ι} (h : j ≠ i) : sentBy i (.sent j m :: log) = sentBy i log := by
  simp [sentBy, h]

theorem mem_sentBy : m ∈ sentBy i log ↔ .sent i m ∈ log := by
  simp only [sentBy, List.mem_filterMap]
  constructor
  · rintro ⟨e, he, h⟩
    cases e with
    | sent j m' =>
      simp only [Option.ite_none_right_eq_some, Option.some.injEq] at h
      obtain ⟨rfl, rfl⟩ := h; exact he
    | received | delivered => cases h
  · exact fun h => ⟨_, h, by simp⟩

theorem sentBy_append {evs : Log ι μ} (h : ∀ e ∈ evs, ∀ j m, e ≠ .sent j m) :
    sentBy i (evs ++ log) = sentBy i log := by
  rw [sentBy, List.filterMap_append, List.filterMap_eq_nil_iff.mpr fun e he => ?_, List.nil_append,
    sentBy]
  cases e with
  | sent j m => exact absurd rfl (h _ he j m)
  | received | delivered => rfl

end sentBy

/-- Events that are not sends add nothing to direct precedence. -/
theorem direct_append {evs log : Log ι μ} (h : ∀ e ∈ evs, ∀ j m, e ≠ .sent j m) {m₁ m₂ : μ} :
    Direct (evs ++ log) m₁ m₂ ↔ Direct log m₁ m₂ := by
  induction evs with
  | nil => rfl
  | cons e evs ih =>
    rw [List.cons_append, direct_cons, ih fun e' he' => h e' (List.mem_cons_of_mem _ he')]
    refine or_iff_right ?_
    rintro ⟨i, rfl, -⟩
    exact h _ List.mem_cons_self i m₂ rfl

end Log

/-! ## Ordered sequences -/

/-- Each message of `l` comes after all those that `R` puts before it. -/
def OrderedBy (R : μ → μ → Prop) (l : List μ) : Prop :=
  ∀ (i : Nat) m₂, l[i]? = some m₂ → ∀ m₁, R m₁ m₂ → ∃ j < i, l[j]? = some m₁

namespace OrderedBy

variable {R R' : μ → μ → Prop} {l : List μ}

theorem nil : OrderedBy R ([] : List μ) := fun i m₂ h => by simp at h

theorem mono (h : OrderedBy R l) (hR : ∀ m₁ m₂, m₂ ∈ l → R' m₁ m₂ → R m₁ m₂) : OrderedBy R' l :=
  fun i m₂ hi m₁ hr => h i m₂ hi m₁ (hR m₁ m₂ (List.mem_of_getElem? hi) hr)

/-- A message whose predecessors are all there may come next. -/
theorem snoc {m : μ} (h : OrderedBy R l) (hm : ∀ m₁, R m₁ m → m₁ ∈ l) : OrderedBy R (l ++ [m]) := by
  intro i m₂ hi m₁ hr
  by_cases hl : i < l.length
  · rw [List.getElem?_append_left hl] at hi
    obtain ⟨j, hj, hm₁⟩ := h i m₂ hi m₁ hr
    exact ⟨j, hj, by rw [List.getElem?_append_left (Nat.lt_trans hj hl)]; exact hm₁⟩
  · have hlt : i < (l ++ [m]).length := (List.getElem?_eq_some_iff.mp hi).1
    rw [List.length_append, List.length_singleton] at hlt
    obtain rfl : i = l.length := by omega
    rw [List.getElem?_append_right (Nat.le_refl _), Nat.sub_self] at hi
    obtain rfl : m = m₂ := Option.some.inj hi
    obtain ⟨j, hj, hm₁⟩ := List.mem_iff_getElem.mp (hm m₁ hr)
    exact ⟨j, hj, by rw [List.getElem?_append_left hj, List.getElem?_eq_getElem hj, hm₁]⟩

end OrderedBy

end Gaia
