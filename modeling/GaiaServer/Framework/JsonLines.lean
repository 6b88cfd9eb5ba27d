import GaiaServer.Framework.JsonStable

/-!
# JSON, one value a line

The encoder writes printable ASCII, whatever characters its strings hold (`print_printable`). So
a text with a value on each line splits into these lines again (`splitOn_lines`), and what is
decoded from them are the values (`loads_lines`). A dictionary of strings is decoded as it was
(`value_strTree`).
-/

namespace Gaia.Json

variable {args : DumpsArgs} {reprFloat : String → String}

/-! ## Printable text -/

def Printable (c : Char) : Prop := 0x20 ≤ c.toNat ∧ c.toNat ≤ 0x7e

instance : DecidablePred Printable := fun _ => inferInstanceAs (Decidable (_ ∧ _))

-- Looks at the characters of the list only, not at all characters there are.
instance (l : List Char) : Decidable (∀ d ∈ l, Printable d) := List.decidableBAll Printable l

theorem printable_hexDigit : ∀ n < 16, Printable (hexDigit n) := by decide

theorem printable_unicodeEscape (n : Nat) : ∀ d ∈ unicodeEscape n, Printable d := by
  have hdigit : ∀ m, Printable (hexDigit (m % 16)) := fun m =>
    printable_hexDigit _ (Nat.mod_lt m (by decide))
  simp only [unicodeEscape, List.forall_mem_cons, hdigit, true_and]
  exact ⟨by decide, by decide, List.forall_mem_nil _⟩

theorem printable_escapeChar (c : Char) : ∀ d ∈ escapeChar c, Printable d := by
  unfold escapeChar
  split_ifs with _ _ _ _ _ _ _ hc
  iterate 7 decide
  · exact List.forall_mem_singleton.mpr hc
  · exact printable_unicodeEscape _
  · exact List.forall_mem_append.mpr ⟨printable_unicodeEscape _, printable_unicodeEscape _⟩

theorem printable_strText (s : String) : ∀ d ∈ strText s, Printable d := by
  refine List.forall_mem_append.mpr ⟨?_, List.forall_mem_singleton.mpr (by decide)⟩
  refine List.forall_mem_cons.mpr ⟨by decide, fun d hd => ?_⟩
  obtain ⟨c, -, hd⟩ := List.mem_flatMap.mp hd
  exact printable_escapeChar c d hd

theorem printable_of_isDigit {c : Char} (h : c.isDigit = true) : Printable c := by
  simp only [Char.isDigit, Bool.and_eq_true, decide_eq_true_eq] at h
  exact ⟨le_trans (by decide) h.1, le_trans h.2 (by decide)⟩

theorem FloatLiteral.printable {l : List Char} (hl : FloatLiteral l) : ∀ d ∈ l, Printable d := by
  have hdigits : ∀ {ds : List Char}, Digits ds → ∀ d ∈ ds, Printable d := fun h d hd =>
    printable_of_isDigit (h.2 d hd)
  obtain ⟨sign, int, frac, exp, rfl, hs, hi, hf, he, -⟩ := hl
  simp only [List.forall_mem_append]
  refine ⟨⟨⟨?_, ?_⟩, ?_⟩, ?_⟩
  · obtain rfl | rfl := hs <;> decide
  · cases hi with
    | zero => decide
    | digits _ hs => exact fun d hd => printable_of_isDigit (hs d hd)
  · cases hf with
    | none => decide
    | digits h => exact List.forall_mem_cons.mpr ⟨by decide, hdigits h⟩
  · cases he with
    | none => decide
    | digits he hs h =>
      refine List.forall_mem_cons.mpr ⟨?_, List.forall_mem_append.mpr ⟨?_, hdigits h⟩⟩
      · obtain rfl | rfl := he <;> decide
      · obtain rfl | rfl | rfl := hs <;> decide

theorem FloatRepr.printable {r : String} (hr : FloatRepr reprFloat r) :
    ∀ d ∈ floatText r, Printable d := by
  cases hr with
  | nan => decide
  | inf => decide
  | negInf => decide
  | finite hl => exact hl.floatText ▸ hl.printable

/-- The separators are printable. -/
structure PrintableArgs (args : DumpsArgs) : Prop where
  item : ∀ d ∈ args.itemSep.toList, Printable d
  key : ∀ d ∈ args.keySep.toList, Printable d

theorem printable_bracket (hargs : PrintableArgs args) {l r : Char} (hl : Printable l)
    (hr : Printable r) {parts : List (List Char)} (h : ∀ p ∈ parts, ∀ d ∈ p, Printable d) :
    ∀ d ∈ bracket l r args parts, Printable d := by
  refine List.forall_mem_append.mpr ⟨?_, List.forall_mem_singleton.mpr hr⟩
  refine List.forall_mem_cons.mpr ⟨hl, ?_⟩
  induction parts with
  | nil => exact nofun
  | cons p parts ih =>
    rw [List.forall_mem_cons] at h
    cases parts with
    | nil => simpa using h.1
    | cons q parts =>
      rw [List.intercalate_cons_of_ne_nil (List.cons_ne_nil q parts)]
      simp only [List.forall_mem_append]
      exact ⟨⟨h.1, hargs.item⟩, ih h.2⟩

/-- What the encoder writes is printable ASCII. -/
theorem print_printable (hargs : PrintableArgs args) {t : JsonTree} (ht : Encoded reprFloat t) :
    ∀ d ∈ print args t, Printable d := by
  induction ht with
  | null => exact show ∀ d ∈ "null".toList, Printable d by decide
  | bool b =>
    rw [print]
    cases b <;> decide
  | @int n hn =>
    refine List.forall_mem_append.mpr ⟨?_, fun d hd => ?_⟩
    · split <;> decide
    · exact printable_of_isDigit (Nat.isDigit_of_mem_toDigits (by decide) (by decide) hd)
  | float hr =>
    rw [print, String.toList_ofList]
    exact hr.printable
  | str s => exact printable_strText s
  | arr _ ih =>
    rw [print, prints_eq]
    refine printable_bracket hargs (by decide) (by decide) fun p hp => ?_
    obtain ⟨x, hx, rfl⟩ := List.mem_map.mp hp
    exact ih x hx
  | obj _ ih =>
    rw [print, printItems_eq]
    refine printable_bracket hargs (by decide) (by decide) fun p hp => ?_
    obtain ⟨i, hi, rfl⟩ := List.mem_map.mp hp
    simp only [printItem, List.forall_mem_append]
    exact ⟨⟨printable_strText i.1, hargs.key⟩, ih i hi⟩

/-! ## Lines -/

/-- The text of values, one a line. -/
def linesText (args : DumpsArgs) (ts : List JsonTree) : List Char :=
  ts.flatMap fun t => print args t ++ ['\n']

/-- What is decoded of the lines, that after the last newline apart. -/
def loadLines (reprFloat : String → String) (text : List Char) : List (Option PyVal) :=
  (text.splitOn '\n').dropLast.map fun line => loads reprFloat (String.ofList line)

theorem splitOn_lines (hargs : PrintableArgs args) {ts : List JsonTree}
    (hts : ∀ t ∈ ts, Encoded reprFloat t) :
    (linesText args ts).splitOn '\n' = ts.map (print args) ++ [[]] := by
  induction ts with
  | nil => rfl
  | cons t ts ih =>
    rw [List.forall_mem_cons] at hts
    have hnone : '\n' ∉ print args t := fun h =>
      absurd (print_printable hargs hts.1 _ h) (by decide)
    rw [linesText, List.flatMap_cons, List.append_assoc, List.singleton_append,
      List.splitOn_append_cons_self_of_not_mem hnone]
    exact congrArg (print args t :: ·) (ih hts.2)

/-- Line by line, the values come back. -/
theorem loads_lines (hsep : Separators args) (hargs : PrintableArgs args) {ts : List JsonTree}
    (hts : ∀ t ∈ ts, Encoded reprFloat t) :
    loadLines reprFloat (linesText args ts) = ts.map fun t => some (t.value reprFloat) := by
  rw [loadLines, splitOn_lines hargs hts, List.dropLast_concat, List.map_map]
  exact List.map_congr_left fun t ht => loads_print hsep (hts t ht)

/-! ## Dictionaries of strings -/

/-- A dictionary of strings, as a value and as a tree. -/
def strDict (items : List (String × String)) : PyVal :=
  .dict (items.map fun i => (.str i.1, .str i.2))

def strTree (items : List (String × String)) : JsonTree :=
  .obj (items.map fun i => (i.1, .str i.2))

theorem encoded_strTree (items : List (String × String)) : Encoded reprFloat (strTree items) := by
  refine .obj fun i hi => ?_
  obtain ⟨j, -, rfl⟩ := List.mem_map.mp hi
  exact .str j.2

theorem dumps_strDict (hsort : args.sortKeys = false) (items : List (String × String)) :
    dumps args (strDict items) = .ok (String.ofList (print args (strTree items))) := by
  have htree : tree args (strDict items) = .ok (strTree items) := by
    have hordered : ¬ args.sortKeys = true := by
      rw [hsort]
      exact Bool.false_ne_true
    refine tree_dict_ok.mpr ⟨_, _, by rw [ordered, if_neg hordered], ?_, rfl⟩
    rw [List.forall₂_map_left_iff, List.forall₂_map_right_iff]
    exact List.forall₂_same.mpr fun i _ => ⟨rfl, rfl⟩
  rw [dumps, text_eq, htree]
  rfl

/-- Keys that differ keep their values. -/
theorem value_strTree {items : List (String × String)} (h : (items.map Prod.fst).Nodup) :
    (strTree items).value reprFloat = strDict items := by
  rw [strTree, JsonTree.value, valueItems_of_nodup, List.nil_append, strDict, List.map_map]
  · rfl
  · rw [List.map_nil, List.nil_append, List.map_map]
    have hkeys := h.map (f := PyKey.str) fun _ _ => PyKey.str.inj
    rwa [List.map_map] at hkeys

end Gaia.Json
