import GaiaServer.Framework.JsonParse

/-!
# The decoder reads what the encoder writes

First strings with their escapes (`scanString_literal`) and numbers
(`scanNumber_append`), then the parts of lists and dictionaries (`ScansParts.all`) and
values (`scans_of_encoded`), of the trees that the encoder makes (`Encoded`): an `int`
is within the limit, and a float's literal is its `repr`.

So a text is the text of one tree (`print_inj`), and what the encoder writes is
decoded to the value of its tree (`loads_print`).
-/

namespace Gaia.Json

/-! ## Strings -/

theorem hexValue?_hexDigit : ∀ n < 16, hexValue? (hexDigit n) = some n := by decide

theorem hex4?_hexDigit {n : Nat} (h : n < 0x10000) :
    hex4? (hexDigit (n / 4096 % 16)) (hexDigit (n / 256 % 16)) (hexDigit (n / 16 % 16))
      (hexDigit (n % 16)) = some n := by
  have hdigit : ∀ m, hexValue? (hexDigit (m % 16)) = some (m % 16) := fun m =>
    hexValue?_hexDigit _ (Nat.mod_lt m (by decide))
  simp only [hex4?, hdigit, Option.some.injEq]
  omega

theorem scanString_unicodeEscape {n : Nat} (h : n < 0x10000) (hs : n < 0xd800 ∨ 0xdfff < n)
    (tail : List Char) : scanString (unicodeEscape n ++ tail) =
      (scanString tail).map fun p => (Char.ofNat n :: p.1, p.2) := by
  rw [unicodeEscape]
  simp only [List.cons_append, List.nil_append]
  rw [scanString, hex4?_hexDigit h]
  dsimp only
  rw [if_neg (by omega), if_neg (by omega)]

theorem scanString_surrogates {n m : Nat} (hn : 0xd800 ≤ n ∧ n ≤ 0xdbff)
    (hm : 0xdc00 ≤ m ∧ m ≤ 0xdfff) (tail : List Char) :
    scanString (unicodeEscape n ++ (unicodeEscape m ++ tail)) =
      (scanString tail).map fun p =>
        (Char.ofNat (0x10000 + (n - 0xd800) * 0x400 + (m - 0xdc00)) :: p.1, p.2) := by
  rw [unicodeEscape, unicodeEscape]
  simp only [List.cons_append, List.nil_append]
  have hhigh := hex4?_hexDigit (n := n) (by omega)
  have hlow := hex4?_hexDigit (n := m) (by omega)
  rw [scanString, hhigh]
  simp only [hn, hlow, hm, and_self, if_true]

/-- One character of a literal. -/
theorem scanString_escapeChar (c : Char) (tail : List Char) :
    scanString (escapeChar c ++ tail) = (scanString tail).map fun p => (c :: p.1, p.2) := by
  have hvalid : c.toNat < 0xd800 ∨ 0xdfff < c.toNat ∧ c.toNat < 0x110000 := c.valid
  unfold escapeChar
  split
  · rename_i h
    rw [h]
    simp [scanString, escape?]
  split
  · rename_i h
    rw [h]
    simp [scanString, escape?]
  split
  · rename_i h
    rw [h]
    simp [scanString, escape?]
  split
  · rename_i h
    rw [h]
    simp [scanString, escape?]
  split
  · rename_i h
    rw [h]
    simp [scanString, escape?]
  split
  · rename_i h
    have hc : c = Char.ofNat 0xc := by rw [← h, Char.ofNat_toNat]
    rw [hc]
    simp [scanString, escape?]
  split
  · rename_i h
    have hc : c = Char.ofNat 0x8 := by rw [← h, Char.ofNat_toNat]
    rw [hc]
    simp [scanString, escape?]
  split
  · rename_i hquote hslash _ _ _ _ _ h
    rw [List.singleton_append, scanString]
    · exact if_neg (not_or.mpr ⟨hslash, by omega⟩)
    all_goals simp_all
  split
  · rename_i h
    rw [scanString_unicodeEscape h (by omega), Char.ofNat_toNat]
  · rename_i h
    have hpair : 0x10000 + (0xd800 + (c.toNat - 0x10000) / 0x400 - 0xd800) * 0x400 +
        (0xdc00 + (c.toNat - 0x10000) % 0x400 - 0xdc00) = c.toNat := by omega
    rw [List.append_assoc, scanString_surrogates (by omega) (by omega), hpair, Char.ofNat_toNat]

/-- A literal, after its opening quote. -/
theorem scanString_literal (cs tail : List Char) :
    scanString (cs.flatMap escapeChar ++ '"' :: tail) = some (cs, tail) := by
  induction cs with
  | nil => rw [List.flatMap_nil, List.nil_append, scanString]
  | cons c cs ih =>
    rw [List.flatMap_cons, List.append_assoc, scanString_escapeChar, ih, Option.map_some]

/-! ## Numbers -/

/-- Digits, at least one. -/
def Digits (ds : List Char) : Prop := ds ≠ [] ∧ ∀ d ∈ ds, d.isDigit = true

/-- `0`, or digits that do not begin with it. -/
inductive IntPart : List Char → Prop
  | zero : IntPart ['0']
  | digits {d : Char} {ds : List Char} (hd : d ≠ '0') (hs : ∀ c ∈ d :: ds, c.isDigit = true) :
      IntPart (d :: ds)

inductive FracPart : List Char → Prop
  | none : FracPart []
  | digits {ds : List Char} (h : Digits ds) : FracPart ('.' :: ds)

inductive ExpPart : List Char → Prop
  | none : ExpPart []
  | digits {e : Char} {sign ds : List Char} (he : e = 'e' ∨ e = 'E')
      (hs : sign = [] ∨ sign = ['+'] ∨ sign = ['-']) (h : Digits ds) : ExpPart (e :: (sign ++ ds))

/-- No character of this kind comes next. -/
def NotNext (p : Char → Bool) (cs : List Char) : Prop := ∀ c ∈ cs.head?, p c = false

/-- What no number goes on with. -/
def isNumeric (c : Char) : Bool := c.isDigit || c = '.' || c = 'e' || c = 'E'

theorem notNext_nil (p : Char → Bool) : NotNext p [] := fun c hc => by cases hc

theorem NotNext.mono {p q : Char → Bool} {cs : List Char} (h : NotNext q cs)
    (hpq : ∀ c, p c = true → q c = true) : NotNext p cs := fun c hc => by
  have hq := h c hc
  rw [Bool.eq_false_iff] at hq ⊢
  exact fun hp => hq (hpq c hp)

theorem takeWhile_digits {ds cs : List Char} (hd : ∀ d ∈ ds, d.isDigit = true)
    (hc : NotNext Char.isDigit cs) :
    (ds ++ cs).takeWhile Char.isDigit = ds ∧ (ds ++ cs).dropWhile Char.isDigit = cs := by
  rw [List.takeWhile_append_of_pos hd, List.dropWhile_append_of_pos hd]
  cases cs with
  | nil => exact ⟨List.append_nil _, rfl⟩
  | cons c cs =>
    have hc := hc c rfl
    rw [List.takeWhile_cons_of_neg (by simp [hc]), List.dropWhile_cons_of_neg (by simp [hc])]
    exact ⟨List.append_nil _, rfl⟩

theorem scanInt_append {int cs : List Char} (hi : IntPart int) (hc : NotNext Char.isDigit cs) :
    scanInt (int ++ cs) = some (int, cs) := by
  cases hi with
  | zero => rfl
  | digits hd hs =>
    rw [List.forall_mem_cons] at hs
    obtain ⟨htake, hdrop⟩ := takeWhile_digits hs.2 hc
    rw [List.cons_append, scanInt, if_neg hd, if_pos hs.1, htake, hdrop]

theorem scanFrac_append {frac cs : List Char} (hf : FracPart frac)
    (hc : NotNext (fun c => c.isDigit || c = '.') cs) : scanFrac (frac ++ cs) = (frac, cs) := by
  cases hf with
  | none =>
    rw [List.nil_append, scanFrac]
    intro ds hcs
    exact absurd (hc '.' (by rw [hcs]; rfl)) (by decide)
  | digits h =>
    obtain ⟨htake, hdrop⟩ := takeWhile_digits h.2 (hc.mono fun c h => by simp [h])
    rw [List.cons_append, scanFrac, htake, hdrop, if_neg h.1]

theorem scanExp_append {exp cs : List Char} (he : ExpPart exp) (hc : NotNext isNumeric cs) :
    scanExp (exp ++ cs) = (exp, cs) := by
  cases he with
  | none =>
    cases cs with
    | nil => rfl
    | cons c cs =>
      have hc := hc c rfl
      simp only [isNumeric, Bool.or_eq_false_iff, decide_eq_false_iff_not] at hc
      rw [List.nil_append, scanExp]
      exact if_neg fun h => h.1.elim hc.1.2 hc.2
  | @digits e sign ds he hs h =>
    obtain ⟨htake, hdrop⟩ := takeWhile_digits h.2 (hc.mono fun c h => by simp [isNumeric, h])
    have hsign : scanSign ['+', '-'] (sign ++ (ds ++ cs)) = (sign, ds ++ cs) := by
      obtain rfl | rfl | rfl := hs
      · obtain ⟨d, ds, rfl⟩ := List.exists_cons_of_ne_nil h.1
        have hd := h.2 d List.mem_cons_self
        refine if_neg fun hmem => ?_
        simp only [List.mem_cons, List.not_mem_nil, or_false] at hmem
        obtain rfl | rfl := hmem <;> exact absurd hd (by decide)
      · rfl
      · rfl
    rw [List.cons_append, List.append_assoc, scanExp, hsign]
    dsimp only
    rw [htake, hdrop, if_pos ⟨he, h.1⟩]
    rfl

theorem FracPart.notNext {frac cs : List Char} (hf : FracPart frac) (hc : NotNext Char.isDigit cs) :
    NotNext Char.isDigit (frac ++ cs) := by
  cases hf with
  | none => exact hc
  | digits h =>
    intro c hmem
    cases hmem
    decide

theorem ExpPart.notNext {exp cs : List Char} (he : ExpPart exp)
    (hc : NotNext (fun c => c.isDigit || c = '.') cs) :
    NotNext (fun c => c.isDigit || c = '.') (exp ++ cs) := by
  cases he with
  | none => exact hc
  | digits he hs h =>
    intro c hmem
    cases hmem
    obtain rfl | rfl := he <;> decide

/-- The sign and the first digit of a number. -/
theorem IntPart.head {int : List Char} (hi : IntPart int) :
    ∃ d ds, int = d :: ds ∧ d.isDigit = true := by
  cases hi with
  | zero => exact ⟨_, _, rfl, by decide⟩
  | @digits d ds hd hs => exact ⟨d, ds, rfl, hs d List.mem_cons_self⟩

theorem scanNumber_append {sign int frac exp cs : List Char} (hs : sign = [] ∨ sign = ['-'])
    (hi : IntPart int) (hf : FracPart frac) (he : ExpPart exp) (hc : NotNext isNumeric cs) :
    scanNumber (sign ++ (int ++ (frac ++ (exp ++ cs)))) =
      if frac = [] ∧ exp = [] then
        if int.length ≤ maxStrDigits then
          let n := Nat.ofDigitChars 10 int 0
          some (.int (if sign = [] then n else -n), cs)
        else none
      else some (.float (String.ofList (sign ++ int ++ frac ++ exp)), cs) := by
  have hsign : ∀ cs, scanSign ['-'] (sign ++ (int ++ cs)) = (sign, int ++ cs) := by
    intro cs
    obtain rfl | rfl := hs
    · obtain ⟨d, ds, rfl, hd⟩ := hi.head
      refine if_neg fun hmem => ?_
      obtain rfl := List.mem_singleton.mp hmem
      exact absurd hd (by decide)
    · rfl
  have hexp : NotNext (fun c => c.isDigit || c = '.') (exp ++ cs) :=
    he.notNext (hc.mono fun c h => by
      rw [isNumeric, h]
      rfl)
  have hfrac : NotNext Char.isDigit (frac ++ (exp ++ cs)) :=
    hf.notNext (hexp.mono fun c h => by simp [h])
  rw [scanNumber, hsign]
  dsimp only
  rw [scanInt_append hi hfrac]
  dsimp only
  rw [scanFrac_append hf hexp]
  dsimp only
  rw [scanExp_append he hc]

theorem toDigits_head {n : Nat} (hn : 0 < n) : ∃ d ds, Nat.toDigits 10 n = d :: ds ∧ d ≠ '0' := by
  have hdigit : ∀ n < 10, 0 < n → Nat.digitChar n ≠ '0' := by decide
  induction n using Nat.strong_induction_on with
  | _ n ih =>
    by_cases h : n < 10
    · exact ⟨_, _, Nat.toDigits_of_lt_base h, hdigit n h hn⟩
    · obtain ⟨d, ds, hds, hd⟩ := ih (n / 10) (by omega) (by omega)
      exact ⟨d, ds ++ [Nat.digitChar (n % 10)],
        by rw [Nat.toDigits_of_base_le (by omega) (by omega), hds, List.cons_append], hd⟩

/-- The digits of an `int`. -/
theorem intPart_toDigits (n : Nat) : IntPart (Nat.toDigits 10 n) := by
  obtain rfl | hn := Nat.eq_zero_or_pos n
  · exact .zero
  · obtain ⟨d, ds, hds, hd⟩ := toDigits_head hn
    rw [hds]
    refine .digits hd fun c hc => ?_
    rw [← hds] at hc
    exact Nat.isDigit_of_mem_toDigits (by decide) (by decide) hc

/-- The text of a finite float: a fraction, an exponent or both. -/
def FloatLiteral (cs : List Char) : Prop :=
  ∃ sign int frac exp, cs = sign ++ int ++ frac ++ exp ∧ (sign = [] ∨ sign = ['-']) ∧
    IntPart int ∧ FracPart frac ∧ ExpPart exp ∧ ¬ (frac = [] ∧ exp = [])

theorem scanNumber_float {l cs : List Char} (hl : FloatLiteral l) (hc : NotNext isNumeric cs) :
    scanNumber (l ++ cs) = some (.float (String.ofList l), cs) := by
  obtain ⟨sign, int, frac, exp, rfl, hs, hi, hf, he, hne⟩ := hl
  have hscan := scanNumber_append hs hi hf he hc
  rw [if_neg hne] at hscan
  simpa only [List.append_assoc] using hscan

/-- No word is the text of a finite float. -/
theorem FloatLiteral.ne {r : String} (hl : FloatLiteral r.toList) {word : String}
    (hw : scanNumber word.toList = none) : r ≠ word := by
  rintro rfl
  have hscan := scanNumber_float hl (notNext_nil _)
  rw [List.append_nil, hw] at hscan
  cases hscan

theorem FloatLiteral.floatText {r : String} (hl : FloatLiteral r.toList) :
    floatText r = r.toList := by
  rw [Json.floatText, if_neg (hl.ne rfl), if_neg (hl.ne rfl), if_neg (hl.ne rfl)]

theorem scanNumber_int {n : Int} {cs : List Char}
    (hn : (Nat.toDigits 10 n.natAbs).length ≤ maxStrDigits) (hc : NotNext isNumeric cs) :
    scanNumber ((if n < 0 then ['-'] else []) ++ Nat.toDigits 10 n.natAbs ++ cs) =
      some (.int n, cs) := by
  have hscan : ∀ sign, sign = [] ∨ sign = ['-'] →
      scanNumber (sign ++ Nat.toDigits 10 n.natAbs ++ cs) =
        some (.int (if sign = [] then n.natAbs else -n.natAbs), cs) := by
    intro sign hs
    have hscan := scanNumber_append hs (intPart_toDigits n.natAbs) .none .none hc
    rw [if_pos ⟨rfl, rfl⟩, if_pos hn, Nat.ofDigitChars_ten_toDigits] at hscan
    rw [List.append_assoc]
    exact hscan
  split
  · rw [hscan _ (.inr rfl), if_neg (List.cons_ne_nil _ _)]
    congr 3
    omega
  · rw [hscan _ (.inl rfl), if_pos rfl]
    congr 3
    omega

/-! ## Scalars -/

theorem scanWord_of_ne (word : String) {t : JsonTree} {c d : Char} {ws cs : List Char}
    (hw : word.toList = d :: ws) (h : d ≠ c) : scanWord word t (c :: cs) = none := by
  rw [scanWord, hw]
  refine if_neg fun hp => h ?_
  simpa using (List.cons_prefix_cons.mp (List.isPrefixOf_iff_prefix.mp hp)).1

theorem scanScalar_null (cs : List Char) :
    scanScalar ("null".toList ++ cs) = some (.null, cs) := rfl

theorem scanScalar_bool (b : Bool) (cs : List Char) :
    scanScalar (boolText b ++ cs) = some (.bool b, cs) := by
  cases b <;> rfl

theorem scanScalar_nan (cs : List Char) :
    scanScalar ("NaN".toList ++ cs) = some (.float "NaN", cs) := rfl

theorem scanScalar_infinity (cs : List Char) :
    scanScalar ("Infinity".toList ++ cs) = some (.float "Infinity", cs) := rfl

theorem scanScalar_negInfinity (cs : List Char) :
    scanScalar ("-Infinity".toList ++ cs) = some (.float "-Infinity", cs) := rfl

/-- What a number begins with. -/
def isNumberHead (c : Char) : Bool := c = '-' || c.isDigit

theorem ne_of_isNumberHead {c d : Char} (hc : isNumberHead c = true) (hd : isNumberHead d = false) :
    c ≠ d := by
  rintro rfl
  rw [hc] at hd
  cases hd

theorem scanScalar_number {c : Char} {cs : List Char} (hc : isNumberHead c = true)
    {p : JsonTree × List Char} (h : scanNumber (c :: cs) = some p) :
    scanScalar (c :: cs) = some p := by
  have hne : ∀ d, isNumberHead d = false → d ≠ c := fun d hd => (ne_of_isNumberHead hc hd).symm
  rw [scanScalar, scanWord_of_ne "null" rfl (hne 'n' (by decide)),
    scanWord_of_ne "true" rfl (hne 't' (by decide)),
    scanWord_of_ne "false" rfl (hne 'f' (by decide)), h]
  rfl

theorem FloatLiteral.head {l : List Char} (hl : FloatLiteral l) :
    ∃ c cs, l = c :: cs ∧ isNumberHead c = true := by
  obtain ⟨sign, int, frac, exp, rfl, hs, hi, -⟩ := hl
  obtain ⟨d, ds, rfl, hd⟩ := hi.head
  obtain rfl | rfl := hs
  · exact ⟨_, _, rfl, by rw [isNumberHead, hd, Bool.or_true]⟩
  · exact ⟨_, _, rfl, by decide⟩

theorem int_head (n : Int) :
    ∃ c cs, (if n < 0 then ['-'] else []) ++ Nat.toDigits 10 n.natAbs = c :: cs ∧
      isNumberHead c = true := by
  obtain ⟨d, ds, hds, hd⟩ := (intPart_toDigits n.natAbs).head
  rw [hds]
  split
  · exact ⟨_, _, rfl, by decide⟩
  · exact ⟨_, _, rfl, by rw [isNumberHead, hd, Bool.or_true]⟩

/-! ## Trees -/

/-- A comma and a colon, and blanks after them. -/
structure Separators (args : DumpsArgs) : Prop where
  item : ∃ ws, args.itemSep.toList = ',' :: ws ∧ ∀ c ∈ ws, isWs c = true
  key : ∃ ws, args.keySep.toList = ':' :: ws ∧ ∀ c ∈ ws, isWs c = true

/-- The `repr` of a float: of a finite one, a literal that is read as this float. -/
inductive FloatRepr (reprFloat : String → String) : String → Prop
  | nan : FloatRepr reprFloat "nan"
  | inf : FloatRepr reprFloat "inf"
  | negInf : FloatRepr reprFloat "-inf"
  | finite {r : String} (hl : FloatLiteral r.toList) (hr : reprFloat r = r) :
      FloatRepr reprFloat r

/-- The trees that the encoder makes. -/
inductive Encoded (reprFloat : String → String) : JsonTree → Prop
  | null : Encoded reprFloat .null
  | bool (b : Bool) : Encoded reprFloat (.bool b)
  | int {n : Int} (hn : (Nat.toDigits 10 n.natAbs).length ≤ maxStrDigits) :
      Encoded reprFloat (.int n)
  | float {r : String} (hr : FloatRepr reprFloat r) :
      Encoded reprFloat (.float (String.ofList (floatText r)))
  | str (s : String) : Encoded reprFloat (.str s)
  | arr {xs : List JsonTree} (hxs : ∀ x ∈ xs, Encoded reprFloat x) : Encoded reprFloat (.arr xs)
  | obj {items : List (String × JsonTree)} (hitems : ∀ i ∈ items, Encoded reprFloat i.2) :
      Encoded reprFloat (.obj items)

/-- The scanner reads the text of the tree, and no more. -/
structure Scans (args : DumpsArgs) (t : JsonTree) : Prop where
  head : ∃ c cs, print args t = c :: cs ∧ isWs c = false ∧ c ≠ ']'
  scan : ∀ {fuel rest}, (print args t).length ≤ fuel → NotNext isNumeric rest →
    scanValue fuel (print args t ++ rest) = some (t, rest)

variable {args : DumpsArgs}

theorem skipWs_cons {c : Char} (hc : isWs c = false) (cs : List Char) :
    skipWs (c :: cs) = c :: cs := by
  rw [skipWs, List.dropWhile_cons_of_neg (by simp [hc])]

theorem skipWs_append {ws cs : List Char} {c : Char} (hws : ∀ c ∈ ws, isWs c = true)
    (hc : isWs c = false) : skipWs (ws ++ c :: cs) = c :: cs := by
  rw [skipWs, List.dropWhile_append_of_pos hws]
  exact skipWs_cons hc cs

theorem scanValue_scalar {fuel : Nat} {c : Char} {cs : List Char} (hq : c ≠ '"') (hl : c ≠ '[')
    (hb : c ≠ '\x7b') : scanValue (fuel + 1) (c :: cs) = scanScalar (c :: cs) := by
  rw [scanValue]
  · exact fun cs' h => hq (List.head_eq_of_cons_eq h)
  · exact fun cs' h => hl (List.head_eq_of_cons_eq h)
  · exact fun cs' h => hb (List.head_eq_of_cons_eq h)

theorem scans_scalar {t : JsonTree} {c : Char} {cs : List Char} (ht : print args t = c :: cs)
    (hc : isWs c = false) (hne : c ∉ ['"', '[', ']', '\x7b'])
    (hscan : ∀ rest, NotNext isNumeric rest → scanScalar (print args t ++ rest) = some (t, rest)) :
    Scans args t := by
  simp only [List.mem_cons, List.not_mem_nil, not_or, or_false] at hne
  refine ⟨⟨c, cs, ht, hc, hne.2.2.1⟩, fun {fuel rest} hf hrest => ?_⟩
  have hscan := hscan rest hrest
  rw [ht] at hf hscan ⊢
  cases fuel with
  | zero => cases hf
  | succ fuel =>
    rw [List.cons_append] at hscan ⊢
    rw [scanValue_scalar hne.1 hne.2.1 hne.2.2.2, hscan]

theorem scans_number {t : JsonTree} {c : Char} {cs : List Char} (ht : print args t = c :: cs)
    (hc : isNumberHead c = true)
    (hscan : ∀ rest, NotNext isNumeric rest → scanNumber (print args t ++ rest) = some (t, rest)) :
    Scans args t := by
  have hne : ∀ d, isNumberHead d = false → c ≠ d := fun d => ne_of_isNumberHead hc
  refine scans_scalar ht ?_ ?_ fun rest hrest => ?_
  · simp only [isWs, hne ' ' (by decide), hne '\t' (by decide), hne '\n' (by decide),
      hne '\r' (by decide), decide_false, Bool.or_false]
  · simp only [List.mem_cons, List.not_mem_nil, or_false, not_or]
    exact ⟨hne _ (by decide), hne _ (by decide), hne _ (by decide), hne _ (by decide)⟩
  · have hscan := hscan rest hrest
    rw [ht] at hscan ⊢
    exact scanScalar_number hc hscan

/-! ## Lists -/

/-- What is written of parts that are not none begins with the first of them. -/
theorem intercalate_cons (sep p : List Char) (ps : List (List Char)) :
    ∃ tail, sep.intercalate (p :: ps) = p ++ tail := by
  cases ps with
  | nil => exact ⟨[], by rw [List.intercalate_singleton, List.append_nil]⟩
  | cons q ps => exact ⟨_, by rw [List.intercalate_cons_cons, List.append_assoc]⟩

/-- `scan` reads parts as `text` writes them, a comma after each but the last, and
`close` after that. -/
structure ScansParts {α : Type} (P : α → Prop) (text : α → List Char) (close : Char)
    (scan : Nat → List Char → Option (List α × List Char)) : Prop where
  head : ∀ {x}, P x → ∃ c cs, text x = c :: cs ∧ isWs c = false
  last : ∀ {x fuel rest}, P x → (text x).length ≤ fuel →
    scan (fuel + 1) (text x ++ close :: rest) = some ([x], rest)
  next : ∀ {x fuel rest}, P x → (text x).length ≤ fuel →
    scan (fuel + 1) (text x ++ ',' :: rest) =
      (scan fuel (skipWs rest)).map fun p => (x :: p.1, p.2)

theorem ScansParts.all {α : Type} {P : α → Prop} {text : α → List Char} {close : Char}
    {scan : Nat → List Char → Option (List α × List Char)} (h : ScansParts P text close scan)
    (hargs : Separators args) {x : α} {xs : List α} (hxs : ∀ y ∈ x :: xs, P y) {fuel : Nat}
    (hf : (args.itemSep.toList.intercalate ((x :: xs).map text)).length < fuel)
    (rest : List Char) :
    scan fuel (args.itemSep.toList.intercalate ((x :: xs).map text) ++ close :: rest) =
      some (x :: xs, rest) := by
  obtain ⟨ws, hsep, hws⟩ := hargs.item
  rw [hsep] at hf ⊢
  induction xs generalizing x fuel with
  | nil =>
    rw [List.map_singleton, List.intercalate_singleton] at hf ⊢
    obtain ⟨fuel, rfl⟩ := Nat.exists_eq_succ_of_ne_zero (Nat.ne_zero_of_lt hf)
    exact h.last (hxs x List.mem_cons_self) (by omega)
  | cons y ys ih =>
    rw [List.forall_mem_cons] at hxs
    obtain ⟨fuel, rfl⟩ := Nat.exists_eq_succ_of_ne_zero (Nat.ne_zero_of_lt hf)
    rw [List.map_cons, List.map_cons, List.intercalate_cons_cons, ← List.map_cons] at hf ⊢
    simp only [List.length_append, List.length_cons] at hf
    obtain ⟨c, cs, hy, hc⟩ := h.head (hxs.2 y List.mem_cons_self)
    obtain ⟨tail, htail⟩ := intercalate_cons (',' :: ws) (text y) (ys.map text)
    have hnext : skipWs (ws ++ ((',' :: ws).intercalate ((y :: ys).map text) ++ close :: rest)) =
        (',' :: ws).intercalate ((y :: ys).map text) ++ close :: rest := by
      rw [List.map_cons, htail, hy]
      exact skipWs_append hws hc
    rw [List.append_assoc, List.append_assoc, List.cons_append, h.next hxs.1 (by omega), hnext,
      ih hxs.2 (by omega), Option.map_some]

theorem scanElements_parts : ScansParts (Scans args) (print args) ']' scanElements where
  head hx := by
    obtain ⟨c, cs, hcs, hc, -⟩ := hx.head
    exact ⟨c, cs, hcs, hc⟩
  last hx hf := by
    rw [scanElements, hx.scan hf fun c hc => by cases hc; decide]
    rfl
  next hx hf := by
    rw [scanElements, hx.scan hf fun c hc => by cases hc; decide]
    rfl

/-! ## Dictionaries -/

theorem printItem_cons (args : DumpsArgs) (i : String × JsonTree) (rest : List Char) :
    printItem args i ++ rest = '"' :: (i.1.toList.flatMap escapeChar ++
      '"' :: (args.keySep.toList ++ (print args i.2 ++ rest))) := by
  simp only [printItem, strText, List.append_assoc, List.cons_append, List.nil_append]

/-- The value of an item, after the colon and the blanks before it. -/
theorem scanItem (hargs : Separators args) {i : String × JsonTree} (hi : Scans args i.2)
    {fuel : Nat} (hf : (printItem args i).length ≤ fuel) (rest : List Char)
    (hrest : NotNext isNumeric rest) : ∃ ws, args.keySep.toList = ':' :: ws ∧
      scanValue fuel (skipWs (ws ++ (print args i.2 ++ rest))) = some (i.2, rest) := by
  obtain ⟨ws, hsep, hws⟩ := hargs.key
  obtain ⟨c, cs, hx, hc, -⟩ := hi.head
  have hvalue : skipWs (ws ++ (print args i.2 ++ rest)) = print args i.2 ++ rest := by
    rw [hx]
    exact skipWs_append hws hc
  have hlen : (print args i.2).length ≤ fuel := by
    simp only [printItem, List.length_append] at hf
    omega
  exact ⟨ws, hsep, by rw [hvalue, hi.scan hlen hrest]⟩

theorem scanMembers_parts (hargs : Separators args) :
    ScansParts (fun i => Scans args i.2) (printItem args) '\x7d' scanMembers where
  head {i} _ := ⟨_, _, (List.append_nil _).symm.trans (printItem_cons args i []), rfl⟩
  last {i fuel rest} hi hf := by
    obtain ⟨ws, hsep, hvalue⟩ := scanItem hargs hi hf ('\x7d' :: rest) fun c hc => by
      cases hc
      decide
    have hcolon := skipWs_cons (c := ':') (by decide)
    have hclose := skipWs_cons (c := '\x7d') (by decide)
    rw [printItem_cons, scanMembers, scanString_literal, hsep, List.cons_append]
    simp only [hcolon, hvalue, hclose, String.ofList_toList]
  next {i fuel rest} hi hf := by
    obtain ⟨ws, hsep, hvalue⟩ := scanItem hargs hi hf (',' :: rest) fun c hc => by
      cases hc
      decide
    have hcolon := skipWs_cons (c := ':') (by decide)
    have hcomma := skipWs_cons (c := ',') (by decide)
    rw [printItem_cons, scanMembers, scanString_literal, hsep, List.cons_append]
    simp only [hcolon, hvalue, hcomma, String.ofList_toList]

/-! ## Values -/

theorem scans_str (s : String) : Scans args (.str s) := by
  refine ⟨⟨'"', _, rfl, by decide, by decide⟩, fun {fuel rest} hf _ => ?_⟩
  cases fuel with
  | zero => cases hf
  | succ fuel =>
    have htext : print args (.str s) ++ rest =
        '"' :: (s.toList.flatMap escapeChar ++ '"' :: rest) := by
      rw [print, strText, List.append_assoc, List.cons_append, List.singleton_append]
    rw [htext, scanValue, scanString_literal, Option.map_some, String.ofList_toList]

theorem scans_arr (hargs : Separators args) {xs : List JsonTree} (hxs : ∀ x ∈ xs, Scans args x) :
    Scans args (.arr xs) := by
  refine ⟨⟨'[', _, rfl, by decide, by decide⟩, fun {fuel rest} hf _ => ?_⟩
  rw [print, prints_eq, bracket] at hf ⊢
  rw [List.cons_append, List.length_cons, List.length_append] at hf
  obtain ⟨fuel, rfl⟩ := Nat.exists_eq_succ_of_ne_zero (Nat.ne_zero_of_lt hf)
  cases xs with
  | nil => rfl
  | cons x xs =>
    have hlen : (args.itemSep.toList.intercalate ((x :: xs).map (print args))).length < fuel := by
      rw [List.length_singleton] at hf
      omega
    have hscan := scanElements_parts.all hargs hxs hlen rest
    obtain ⟨c, cs, hx, hc, hne⟩ := (hxs x List.mem_cons_self).head
    obtain ⟨tail, htail⟩ := intercalate_cons args.itemSep.toList (print args x)
      (xs.map (print args))
    rw [List.map_cons, htail, hx] at hscan ⊢
    simp only [List.append_assoc, List.cons_append, List.nil_append] at hscan ⊢
    rw [scanValue, skipWs_cons hc]
    split
    · rename_i heq
      exact absurd (List.head_eq_of_cons_eq heq) hne
    · rw [hscan]
      rfl

theorem scans_obj (hargs : Separators args) {items : List (String × JsonTree)}
    (hitems : ∀ i ∈ items, Scans args i.2) : Scans args (.obj items) := by
  refine ⟨⟨'\x7b', _, rfl, by decide, by decide⟩, fun {fuel rest} hf _ => ?_⟩
  rw [print, printItems_eq, bracket] at hf ⊢
  rw [List.cons_append, List.length_cons, List.length_append] at hf
  obtain ⟨fuel, rfl⟩ := Nat.exists_eq_succ_of_ne_zero (Nat.ne_zero_of_lt hf)
  cases items with
  | nil => rfl
  | cons i items =>
    have hlen : (args.itemSep.toList.intercalate ((i :: items).map (printItem args))).length <
        fuel := by
      rw [List.length_singleton] at hf
      omega
    have hscan := (scanMembers_parts hargs).all hargs hitems hlen rest
    obtain ⟨tail, htail⟩ := intercalate_cons args.itemSep.toList (printItem args i)
      (items.map (printItem args))
    rw [List.map_cons, htail] at hscan ⊢
    simp only [List.append_assoc, List.cons_append, List.nil_append, printItem_cons] at hscan ⊢
    rw [scanValue, skipWs_cons (by decide)]
    show (scanMembers fuel _).map _ = _
    rw [hscan]
    rfl

theorem scans_of_encoded (hargs : Separators args) {reprFloat : String → String} {t : JsonTree}
    (ht : Encoded reprFloat t) : Scans args t := by
  induction ht with
  | null => exact scans_scalar rfl (by decide) (by decide) fun rest _ => scanScalar_null rest
  | bool b =>
    cases b with
    | false =>
      exact scans_scalar rfl (by decide) (by decide) fun rest _ => scanScalar_bool false rest
    | true => exact scans_scalar rfl (by decide) (by decide) fun rest _ => scanScalar_bool true rest
  | @int n hn =>
    obtain ⟨c, cs, hcs, hc⟩ := int_head n
    exact scans_number hcs hc fun rest hrest => scanNumber_int hn hrest
  | float hr =>
    cases hr with
    | nan => exact scans_scalar rfl (by decide) (by decide) fun rest _ => scanScalar_nan rest
    | inf => exact scans_scalar rfl (by decide) (by decide) fun rest _ => scanScalar_infinity rest
    | negInf =>
      exact scans_scalar rfl (by decide) (by decide) fun rest _ => scanScalar_negInfinity rest
    | @finite r hl hr =>
      rw [hl.floatText, String.ofList_toList]
      obtain ⟨c, cs, hcs, hc⟩ := hl.head
      refine scans_number hcs hc fun rest hrest => ?_
      rw [print, scanNumber_float hl hrest, String.ofList_toList]
  | str s => exact scans_str s
  | arr hxs ih => exact scans_arr hargs ih
  | obj hitems ih => exact scans_obj hargs ih

/-- The scanner reads what the printer writes. -/
theorem scan_print (hargs : Separators args) {reprFloat : String → String} {t : JsonTree}
    (ht : Encoded reprFloat t) : scan (print args t) = some t := by
  have hscans := scans_of_encoded hargs ht
  obtain ⟨c, cs, hcs, hc, -⟩ := hscans.head
  have hskip : skipWs (print args t) = print args t := by
    rw [hcs, skipWs_cons hc]
  have hscan := hscans.scan (Nat.le_succ _) (notNext_nil _)
  rw [List.append_nil] at hscan
  rw [scan, hskip, hscan]
  rfl

/-- A text is the text of one tree. -/
theorem print_inj (hargs : Separators args) {reprFloat : String → String} {t u : JsonTree}
    (ht : Encoded reprFloat t) (hu : Encoded reprFloat u) (h : print args t = print args u) :
    t = u :=
  Option.some.inj ((scan_print hargs ht).symm.trans (h ▸ scan_print hargs hu))

/-- What the encoder writes is decoded to the value of its tree. -/
theorem loads_print (hargs : Separators args) {reprFloat : String → String} {t : JsonTree}
    (ht : Encoded reprFloat t) :
    loads reprFloat (String.ofList (print args t)) = some (t.value reprFloat) := by
  rw [loads, String.toList_ofList, scan_print hargs ht, Option.map_some]

end Gaia.Json
