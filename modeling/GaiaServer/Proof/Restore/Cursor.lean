import GaiaServer.Framework.IntLiteral
import GaiaServer.Framework.Trace
import GaiaServer.Proof.Restore.Replay

/-!
# The cursor

`replay_events` drops every `seq:` from the cursor and gives the rest to `int`. If
`int` reads a number, the log is opened after it (`readsAfter_of_literal`), if not,
the cursor is refused before anything is read (`refuses_of_not_literal`). So a
cursor of the documented form is read if it has no more digits than `int` takes,
and any other is refused exactly if what it leaves is no literal
(`cursor_grammar_iff`).
-/

namespace Gaia.Restore

open Storage World RestoreOrchestrator

variable {o : RestoreOrchestrator} {M : RestoreManifest} {cursor stream : String}

/-- `seq:` and decimal digits, one or more. -/
def Cursor (cursor : String) (digits : List Char) : Prop :=
  cursor = "seq:" ++ String.ofList digits ∧ digits ≠ [] ∧ ∀ c ∈ digits, c.isDigit = true

/-- The replay begins by opening the log after `n`. -/
def ReadsAfter (o : RestoreOrchestrator) (M : RestoreManifest) (stream : String) (n : Int) : Prop :=
  ∀ w, ((o.replayEvents M stream).trace handle w).head? =
    some (.subscribe (stream ++ ".>") (some (n + 1)))

/-- The replay raises `CausalReplayError` and reads nothing. -/
def Refuses (o : RestoreOrchestrator) (M : RestoreManifest) (stream : String) : Prop :=
  ∀ w, (o.replayEvents M stream).trace handle w = [] ∧
    ∃ exc, (o.replayEvents M stream).run handle w = (.error exc, w) ∧ exc.cls = .causalReplayError

/-- The replay keeps to the grammar: it reads after the number that the digits make,
and refuses every cursor that is not of the form. -/
def KeepsGrammar (o : RestoreOrchestrator) (M : RestoreManifest) (stream cursor : String) : Prop :=
  (∀ digits, Cursor cursor digits → ReadsAfter o M stream (Nat.ofDigitChars 10 digits 0)) ∧
  ((∀ digits, ¬ Cursor cursor digits) → Refuses o M stream)

/-! ## What is left of the cursor -/

/-- Where the pattern's first character does not occur, nothing is replaced. -/
theorem replaceAux_of_not_mem {c : Char} {pat new cs : List Char} (h : c ∉ cs) :
    replaceAux (c :: pat) new 0 cs = cs := by
  induction cs with
  | nil => rfl
  | cons c' cs ih =>
    obtain ⟨hc, hcs⟩ := not_or.mp (mt List.mem_cons.mpr h)
    rw [replaceAux, if_neg (by simp [hc]), ih hcs]

theorem Cursor.replace_eq {digits : List Char} (h : Cursor cursor digits) :
    replace cursor "seq:" "" = String.ofList digits := by
  obtain ⟨rfl, -, hdigits⟩ := h
  have hs : 's' ∉ digits := fun hmem => by
    have := hdigits 's' hmem
    revert this
    decide
  have hlist : ("seq:" ++ String.ofList digits).toList = 's' :: 'e' :: 'q' :: ':' :: digits := by
    simp
  rw [replace, hlist]
  show String.ofList (replaceAux ['s', 'e', 'q', ':'] [] 0 digits) = _
  rw [replaceAux_of_not_mem hs]

/-! ## What is read -/

theorem readsAfter_of_literal (hc : given M.causalCursor = some cursor) {n : Int}
    (h : pyInt (replace cursor "seq:" "") = some n) : ReadsAfter o M stream n := by
  intro w
  simp only [replayEvents, hc, h, Prog.bind_eq, JetStreamEventStore.readEvents, Option.map_some]
  rfl

theorem refuses_of_not_literal (hc : given M.causalCursor = some cursor)
    (h : pyInt (replace cursor "seq:" "") = none) : Refuses o M stream := by
  intro w
  simp only [replayEvents, hc, h]
  exact ⟨rfl, _, rfl, rfl⟩

theorem ReadsAfter.not_refuses {n : Int} (h : ReadsAfter o M stream n) : ¬ Refuses o M stream := by
  intro hr
  have hhead := h ⟨.empty, .empty, .empty⟩
  rw [(hr _).1] at hhead
  cases hhead

/-- A cursor that is given is read by the grammar exactly if it is of the form and
has at most 4300 digits, or is not of the form and leaves no literal. -/
theorem cursor_grammar_iff (o : RestoreOrchestrator) (stream : String)
    (hc : given M.causalCursor = some cursor) :
    KeepsGrammar o M stream cursor ↔
      (∃ digits, Cursor cursor digits ∧ digits.length ≤ maxStrDigits) ∨
      (∀ digits, ¬ Cursor cursor digits) ∧ ∀ n, ¬ IntLiteral (replace cursor "seq:" "") n := by
  by_cases hform : ∃ digits, Cursor cursor digits
  · obtain ⟨digits, hd⟩ := hform
    have hint := pyInt_digits hd.2.1 hd.2.2
    rw [← hd.replace_eq] at hint
    have huniq : ∀ digits', Cursor cursor digits' → digits' = digits := fun digits' hd' => by
      rw [← String.toList_ofList (l := digits'), ← hd'.replace_eq, hd.replace_eq,
        String.toList_ofList]
    by_cases hlen : digits.length ≤ maxStrDigits
    · rw [if_pos hlen] at hint
      refine iff_of_true ⟨fun digits' hd' => ?_, fun hno => absurd hd (hno digits)⟩
        (.inl ⟨digits, hd, hlen⟩)
      rw [huniq digits' hd']
      exact readsAfter_of_literal hc hint
    · rw [if_neg hlen] at hint
      refine iff_of_false (fun hg => ?_) ?_
      · exact (hg.1 digits hd).not_refuses (refuses_of_not_literal hc hint)
      · rintro (⟨digits', hd', hlen'⟩ | ⟨hno, -⟩)
        · exact hlen (huniq digits' hd' ▸ hlen')
        · exact hno digits hd
  · have hno : ∀ digits, ¬ Cursor cursor digits := fun digits hd => hform ⟨digits, hd⟩
    rw [or_iff_right fun ⟨digits, hd, _⟩ => hno digits hd, and_iff_right hno]
    constructor
    · intro hg n hlit
      exact (readsAfter_of_literal hc (pyInt_eq_some.mpr hlit)).not_refuses (hg.2 hno)
    · intro hlit
      refine ⟨fun digits hd => absurd hd (hno digits), fun _ => refuses_of_not_literal hc ?_⟩
      cases hint : pyInt (replace cursor "seq:" "") with
      | none => rfl
      | some n => exact absurd (pyInt_eq_some.mp hint) (hlit n)

/-- The ticks are read after the number of their cursor. -/
theorem tick_cursor_kept : KeepsGrammar ticker tickManifest "gaia-checkpoints" "seq:0" :=
  (cursor_grammar_iff ticker "gaia-checkpoints" rfl).mpr
    (.inl ⟨['0'], ⟨by decide, by decide, List.forall_mem_singleton.mpr rfl⟩, by decide⟩)

/-- A bare number is read as a cursor, and a prefix twice, a blank, a sign and an
underscore are read over. -/
theorem other_cursors_read :
    (∀ digits, ¬ Cursor "7" digits) ∧
    ReadsAfter ticker { tickManifest with causalCursor := some "7" } "gaia-checkpoints" 7 ∧
    (∀ digits, ¬ Cursor "seq:seq: -1_0" digits) ∧
    ReadsAfter ticker { tickManifest with causalCursor := some "seq:seq: -1_0" }
      "gaia-checkpoints" (-10) := by
  have h7 : given (some "7") = some "7" := rfl
  have hseq : given (some "seq:seq: -1_0") = some "seq:seq: -1_0" := rfl
  refine ⟨?_, readsAfter_of_literal h7 (by decide), ?_, readsAfter_of_literal hseq (by decide)⟩
  · rintro digits ⟨he, -⟩
    have hl := congrArg String.toList he
    simp at hl
  · rintro digits ⟨he, -, hdigits⟩
    have hl := congrArg String.toList he
    have hs : 's' ∈ digits := by
      simp at hl
      simp [← hl]
    have hdigit := hdigits 's' hs
    revert hdigit
    decide

end Gaia.Restore
