import GaiaServer.Framework.Text
import Mathlib.Data.List.TakeWhile

/-!
# What `int` reads

The texts that Python's `int` takes, as a grammar: a numeral (`Numeral`) has single
underscores between its digits, and a literal (`IntLiteral`) has a sign before it
and blanks around it, or none. `pyInt` reads exactly the literals
(`pyInt_eq_some`). Of a text of digits that are all ASCII it reads the number, up to
4300 of them (`pyInt_digits`).
-/

namespace Gaia

/-- A numeral and the values of its digits. -/
inductive Numeral : List Char → List Nat → Prop
  | digit {c : Char} {d : Nat} (hd : decimal? c = some d) : Numeral [c] [d]
  | next {c : Char} {d : Nat} {cs : List Char} {ds : List Nat} (hd : decimal? c = some d)
      (hs : Numeral cs ds) : Numeral (c :: cs) (d :: ds)
  | under {c : Char} {d : Nat} {cs : List Char} {ds : List Nat} (hd : decimal? c = some d)
      (hs : Numeral cs ds) : Numeral (c :: '_' :: cs) (d :: ds)

/-- The number that the digits make. -/
def numeralValue (ds : List Nat) : Nat := ds.foldl (fun n d => 10 * n + d) 0

/-- A text that `int` takes, and the number it stands for. -/
def IntLiteral (s : String) (n : Int) : Prop :=
  ∃ before sign cs after ds, s.toList = before ++ (sign ++ cs) ++ after ∧
    (∀ c ∈ before, isBlank c = true) ∧ (∀ c ∈ after, isBlank c = true) ∧
    Numeral cs ds ∧ ds.length ≤ maxStrDigits ∧
    (sign = ['-'] ∧ n = -(numeralValue ds : Int) ∨
      (sign = [] ∨ sign = ['+']) ∧ n = (numeralValue ds : Int))

/-! ## Numerals -/

theorem decimal?_underscore : decimal? '_' = none := by decide

/-- What `numeral?` reads after a digit: nothing more, more digits, or an
underscore and more digits. -/
theorem numeral?_eq_some {afterDigit : Bool} {cs : List Char} {ds : List Nat} :
    numeral? afterDigit cs = some ds ↔
      Numeral cs ds ∨ (afterDigit = true ∧
        (cs = [] ∧ ds = [] ∨ ∃ cs', cs = '_' :: cs' ∧ Numeral cs' ds)) := by
  induction cs generalizing afterDigit ds with
  | nil =>
    have hno : ¬ Numeral [] ds := fun h => by cases h
    cases afterDigit <;> simp [numeral?, hno, eq_comm]
  | cons c cs ih =>
    by_cases hc : c = '_'
    · subst hc
      have hno : ∀ cs' ds', ¬ Numeral ('_' :: cs') ds' := fun cs' ds' h => by
        cases h with
        | digit hd | next hd | under hd =>
          rw [decimal?_underscore] at hd
          cases hd
      cases afterDigit with
      | false => simp [numeral?, hno]
      | true => simp [numeral?, hno, ih]
    · rw [numeral?, if_neg hc]
      cases hd : decimal? c with
      | none =>
        have hno : ¬ Numeral (c :: cs) ds := fun h => by
          cases h with
          | digit hd' | next hd' | under hd' =>
            rw [hd] at hd'
            cases hd'
        simp [hno, hc]
      | some d =>
        simp only [Option.map_eq_some_iff, ih, true_and, reduceCtorEq, false_and, or_false,
          List.cons.injEq, hc, exists_false, and_false]
        constructor
        · rintro ⟨ds', h | ⟨rfl, rfl⟩ | ⟨cs', rfl, h⟩, rfl⟩
          · exact .next hd h
          · exact .digit hd
          · exact .under hd h
        · intro h
          cases h with
          | digit hd' =>
            obtain rfl := Option.some.inj (hd.symm.trans hd')
            exact ⟨[], .inr (.inl ⟨rfl, rfl⟩), rfl⟩
          | next hd' h =>
            obtain rfl := Option.some.inj (hd.symm.trans hd')
            exact ⟨_, .inl h, rfl⟩
          | under hd' h =>
            obtain rfl := Option.some.inj (hd.symm.trans hd')
            exact ⟨_, .inr (.inr ⟨_, rfl, h⟩), rfl⟩

theorem numeral?_false_eq_some {cs : List Char} {ds : List Nat} :
    numeral? false cs = some ds ↔ Numeral cs ds := by
  simp [numeral?_eq_some]

theorem magnitude?_of_numeral {cs : List Char} {ds : List Nat} (h : Numeral cs ds) :
    magnitude? cs = if ds.length ≤ maxStrDigits then some (numeralValue ds) else none := by
  rw [magnitude?, numeral?_false_eq_some.mpr h]
  rfl

theorem magnitude?_eq_some {cs : List Char} {n : Nat} :
    magnitude? cs = some n ↔
      ∃ ds, Numeral cs ds ∧ ds.length ≤ maxStrDigits ∧ n = numeralValue ds := by
  constructor
  · intro h
    cases hn : numeral? false cs with
    | none =>
      rw [magnitude?, hn] at h
      cases h
    | some ds =>
      have hds : Numeral cs ds := numeral?_false_eq_some.mp hn
      rw [magnitude?_of_numeral hds] at h
      split at h
      · rename_i hlen
        exact ⟨ds, hds, hlen, (Option.some.inj h).symm⟩
      · cases h
  · rintro ⟨ds, hds, hlen, rfl⟩
    rw [magnitude?_of_numeral hds, if_pos hlen]

/-! ## Blanks -/

section

variable {α : Type} {p : α → Bool}

/-- A list between blanks, with none at its ends, is what is left of the whole when
the blanks are dropped at both ends. -/
theorem strip_eq {before core after : List α} (hb : ∀ a ∈ before, p a = true)
    (ha : ∀ a ∈ after, p a = true) (hhead : ∀ a ∈ core.head?, p a = false)
    (hlast : ∀ a ∈ core.getLast?, p a = false) (hne : core ≠ []) :
    (((before ++ core ++ after).dropWhile p).reverse.dropWhile p).reverse = core := by
  have hkeep : ∀ l : List α, l ≠ [] → (∀ a ∈ l.head?, p a = false) → l.dropWhile p = l := by
    intro l hl hh
    cases l with
    | nil => exact absurd rfl hl
    | cons a l => rw [List.dropWhile_cons_of_neg (by simp [hh a rfl])]
  have hfirst : (core ++ after).dropWhile p = core ++ after := by
    refine hkeep _ (List.append_ne_nil_of_left_ne_nil hne _) fun a hmem => ?_
    rw [List.head?_append_of_ne_nil _ hne] at hmem
    exact hhead a hmem
  have hsecond : core.reverse.dropWhile p = core.reverse := by
    refine hkeep _ (by simpa using hne) fun a hmem => ?_
    rw [List.head?_reverse] at hmem
    exact hlast a hmem
  rw [List.append_assoc, List.dropWhile_append_of_pos hb, hfirst, List.reverse_append,
    List.dropWhile_append_of_pos (by simpa using ha), hsecond, List.reverse_reverse]

/-- The whole is what is left, between blanks. -/
theorem eq_strip (p : α → Bool) (l : List α) :
    ∃ before after, l = before ++ ((l.dropWhile p).reverse.dropWhile p).reverse ++ after ∧
      (∀ a ∈ before, p a = true) ∧ ∀ a ∈ after, p a = true := by
  refine ⟨l.takeWhile p, ((l.dropWhile p).reverse.takeWhile p).reverse, ?_,
    fun a ha => List.mem_takeWhile_imp ha, fun a ha => ?_⟩
  · rw [List.append_assoc, ← List.reverse_append, List.takeWhile_append_dropWhile,
      List.reverse_reverse, List.takeWhile_append_dropWhile]
  · rw [List.mem_reverse] at ha
    exact List.mem_takeWhile_imp ha

end

/-! ## Literals -/

theorem not_isBlank_of_decimal? {c : Char} {d : Nat} (h : decimal? c = some d) :
    isBlank c = false := by
  have hnone : ∀ n ∈ [0x9, 0xa, 0xb, 0xc, 0xd, 0x20, 0x85, 0xa0, 0x1680, 0x2028, 0x2029, 0x202f,
      0x205f, 0x3000] ++ List.range' 0x2000 11,
      (decimalZeros.find? fun z => z ≤ n ∧ n < z + 10) = none := by decide
  by_contra hb
  have hmem : c.toNat ∈ [0x9, 0xa, 0xb, 0xc, 0xd, 0x20, 0x85, 0xa0, 0x1680, 0x2028, 0x2029, 0x202f,
      0x205f, 0x3000] ++ List.range' 0x2000 11 := by
    rw [Bool.not_eq_false, isBlank, Bool.or_eq_true, Bool.and_eq_true] at hb
    rw [List.mem_append]
    refine hb.imp (fun h => by simpa using h) fun h => ?_
    rw [List.mem_range'_1]
    simp only [decide_eq_true_eq] at h
    omega
  rw [decimal?, hnone _ hmem] at h
  cases h

/-- A numeral begins and ends with a digit. -/
theorem Numeral.ends {cs : List Char} {ds : List Nat} (h : Numeral cs ds) :
    cs ≠ [] ∧ (∀ c ∈ cs.head?, decimal? c ≠ none) ∧ ∀ c ∈ cs.getLast?, decimal? c ≠ none := by
  have hsome : ∀ {c c' : Char} {d : Nat}, decimal? c = some d → c' ∈ some c →
      decimal? c' ≠ none := by
    intro c c' d hd hc
    obtain rfl := Option.some.inj hc
    rw [hd]
    exact Option.some_ne_none d
  induction h with
  | digit hd => exact ⟨by simp, fun c => hsome hd, fun c => hsome hd⟩
  | @next c d cs ds hd hs ih =>
    refine ⟨by simp, fun c' => hsome hd, ?_⟩
    rw [List.getLast?_cons_of_ne_nil ih.1]
    exact ih.2.2
  | @under c d cs ds hd hs ih =>
    refine ⟨by simp, fun c' => hsome hd, ?_⟩
    rw [List.getLast?_cons_of_ne_nil (by simp), List.getLast?_cons_of_ne_nil ih.1]
    exact ih.2.2

theorem Numeral.head_ne {c : Char} {cs : List Char} {ds : List Nat} (h : Numeral (c :: cs) ds)
    (c' : Char) (hc : decimal? c' = none) : c ≠ c' := by
  rintro rfl
  exact h.ends.2.1 c rfl hc

/-- What is between the blanks of a literal is what `int` looks at. -/
theorem pyInt_literal {s : String} {before sign cs after : List Char} {ds : List Nat}
    (hs : s.toList = before ++ (sign ++ cs) ++ after) (hb : ∀ c ∈ before, isBlank c = true)
    (ha : ∀ c ∈ after, isBlank c = true) (hds : Numeral cs ds)
    (hsign : sign = ['-'] ∨ sign = [] ∨ sign = ['+']) :
    pyInt s = (magnitude? cs).map fun n : Nat =>
      if sign = ['-'] then -(n : Int) else (n : Int) := by
  obtain ⟨hne, hhead, hlast⟩ := hds.ends
  have hblank : ∀ c, decimal? c ≠ none → isBlank c = false := fun c hc => by
    obtain ⟨d, hd⟩ := Option.ne_none_iff_exists'.mp hc
    exact not_isBlank_of_decimal? hd
  have hstrip : (((before ++ (sign ++ cs) ++ after).dropWhile isBlank).reverse.dropWhile
      isBlank).reverse = sign ++ cs := by
    refine strip_eq hb ha (fun c hc => ?_) (fun c hc => ?_) (by simp [hne])
    · rcases hsign with rfl | rfl | rfl
      · obtain rfl := Option.some.inj hc
        decide
      · exact hblank c (hhead c hc)
      · obtain rfl := Option.some.inj hc
        decide
    · rw [List.getLast?_append_of_ne_nil _ hne] at hc
      exact hblank c (hlast c hc)
  rw [pyInt, hs, hstrip]
  rcases hsign with rfl | rfl | rfl
  · rw [List.singleton_append]
    cases hm : magnitude? cs <;> simp [hm]
  · -- without a sign the numeral's first digit is no sign
    rw [List.nil_append]
    split
    · exact absurd rfl (hds.head_ne '-' (by decide))
    · exact absurd rfl (hds.head_ne '+' (by decide))
    · rfl
  · rfl

theorem pyInt_eq_some {s : String} {n : Int} : pyInt s = some n ↔ IntLiteral s n := by
  constructor
  · intro h
    obtain ⟨before, after, hs, hb, ha⟩ := eq_strip isBlank s.toList
    rw [pyInt] at h
    generalize ((s.toList.dropWhile isBlank).reverse.dropWhile isBlank).reverse = core at h hs
    split at h
    · rename_i cs
      cases hm : magnitude? cs with
      | none =>
        rw [hm] at h
        cases h
      | some m =>
        rw [hm] at h
        obtain ⟨ds, hds, hlen, rfl⟩ := magnitude?_eq_some.mp hm
        exact ⟨before, ['-'], cs, after, ds, hs, hb, ha, hds, hlen,
          .inl ⟨rfl, (Option.some.inj h).symm⟩⟩
    · rename_i cs
      obtain ⟨m, hm, rfl⟩ := Option.map_eq_some_iff.mp h
      obtain ⟨ds, hds, hlen, rfl⟩ := magnitude?_eq_some.mp hm
      exact ⟨before, ['+'], cs, after, ds, hs, hb, ha, hds, hlen, .inr ⟨.inr rfl, rfl⟩⟩
    · obtain ⟨m, hm, rfl⟩ := Option.map_eq_some_iff.mp h
      obtain ⟨ds, hds, hlen, rfl⟩ := magnitude?_eq_some.mp hm
      exact ⟨before, [], core, after, ds, hs, hb, ha, hds, hlen, .inr ⟨.inl rfl, rfl⟩⟩
  · rintro ⟨before, sign, cs, after, ds, hs, hb, ha, hds, hlen, hsign⟩
    rw [pyInt_literal hs hb ha hds (hsign.imp And.left And.left), magnitude?_of_numeral hds,
      if_pos hlen, Option.map_some]
    rcases hsign with ⟨rfl, rfl⟩ | ⟨rfl | rfl, rfl⟩ <;> rfl

/-! ## ASCII digits -/

theorem decimal?_of_isDigit {c : Char} (h : c.isDigit = true) :
    decimal? c = some (c.toNat - 48) := by
  have hrange : 48 ≤ c.toNat ∧ c.toNat < 58 := by
    rw [Char.isDigit, Bool.and_eq_true, decide_eq_true_eq, decide_eq_true_eq] at h
    have h1 : 48 ≤ c.toNat := h.1
    have h2 : c.toNat ≤ 57 := h.2
    omega
  rw [decimal?, decimalZeros, List.find?_cons_of_pos (by simp; omega)]
  rfl

/-- Digits alone are a numeral. -/
theorem numeral_of_digits {cs : List Char} (hne : cs ≠ []) (h : ∀ c ∈ cs, c.isDigit = true) :
    Numeral cs (cs.map fun c => c.toNat - 48) := by
  induction cs with
  | nil => exact absurd rfl hne
  | cons c cs ih =>
    have hd := decimal?_of_isDigit (h c List.mem_cons_self)
    cases cs with
    | nil => exact .digit hd
    | cons c' cs => exact .next hd (ih (by simp) fun a ha => h a (List.mem_cons_of_mem c ha))

theorem numeralValue_map_digits (cs : List Char) :
    numeralValue (cs.map fun c => c.toNat - 48) = Nat.ofDigitChars 10 cs 0 := by
  rw [numeralValue, List.foldl_map, Nat.ofDigitChars_eq_foldl]
  rfl

/-- The number that ASCII digits make is read, up to 4300 of them. -/
theorem pyInt_digits {cs : List Char} (hne : cs ≠ []) (h : ∀ c ∈ cs, c.isDigit = true) :
    pyInt (String.ofList cs) =
      if cs.length ≤ maxStrDigits then some (Nat.ofDigitChars 10 cs 0 : Int) else none := by
  have hds : Numeral cs (cs.map fun c => c.toNat - 48) := numeral_of_digits hne h
  have hs : (String.ofList cs).toList = [] ++ ([] ++ cs) ++ [] := by simp
  rw [pyInt_literal hs (by simp) (by simp) hds (.inr (.inl rfl)), magnitude?_of_numeral hds,
    List.length_map, numeralValue_map_digits]
  simp only [reduceCtorEq, if_false]
  split <;> rfl

end Gaia
