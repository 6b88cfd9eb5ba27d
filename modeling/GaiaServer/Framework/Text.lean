import Mathlib.Data.List.Basic
import Mathlib.Data.List.TakeWhile
import Mathlib.Tactic.Common

/-!
# Python's strings, bytes and `int`

The standard-library operations on text that the server relies on, on Lean's
`String` (a sequence of Unicode scalar values): UTF-8 encoding (`encode`), hex
digests (`hexdigest`), `str.lstrip` (`lstrip`), `str.split` at most once (`splitOnce`),
`str.startswith` (`startsWith`), `str.endswith` (`endsWith`), `str.replace` (`replace`)
and `int(s)` (`pyInt`), with its blanks, sign, underscores, decimal digits of any script
and limit on the number of digits. A string with lone surrogates is a `PyStr`.
-/

namespace Gaia

/-- Python's `bytes`. -/
abbrev Bytes := List UInt8

/-- `s.encode()`. -/
def encode (s : String) : Bytes := s.toByteArray.data.toList

theorem encode_injective : Function.Injective encode := fun s t h => by
  apply String.toByteArray_inj.mp
  simp only [encode, Array.toList_inj] at h
  exact ByteArray.ext h

theorem encode_inj {s t : String} : encode s = encode t ↔ s = t := encode_injective.eq_iff

/-- A digit below 16, in lower case. -/
def hexDigit (n : Nat) : Char := if n < 10 then Char.ofNat (48 + n) else Char.ofNat (87 + n)

/-- `digest.hex()`: two digits a byte. -/
def hexdigest (digest : Bytes) : String :=
  String.ofList (digest.flatMap fun b => [hexDigit (b.toNat / 16), hexDigit (b.toNat % 16)])

theorem length_hexdigest (digest : Bytes) :
    (hexdigest digest).toList.length = 2 * digest.length := by
  rw [hexdigest, String.toList_ofList]
  induction digest with
  | nil => rfl
  | cons b digest ih =>
    rw [List.flatMap_cons, List.length_append, ih, List.length_cons, List.length_cons]
    simp only [List.length_cons, List.length_nil]
    omega

/-- `s.lstrip(c)`, for one character. -/
def lstrip (c : Char) (s : String) : String := String.ofList (s.toList.dropWhile (· = c))

theorem lstrip_of_head {c d : Char} {s : String} {cs : List Char} (h : s.toList = d :: cs)
    (hd : d ≠ c) : lstrip c s = s := by
  rw [lstrip, h, List.dropWhile_cons_of_neg (by simpa using hd), ← h, String.ofList_toList]

theorem lstrip_lstrip (c : Char) (s : String) : lstrip c (lstrip c s) = lstrip c s := by
  rw [lstrip, lstrip, String.toList_ofList]
  congr 1
  induction s.toList with
  | nil => rfl
  | cons a l ih =>
    by_cases ha : a = c
    · simp [ha, ih]
    · simp [ha]

theorem lstrip_eq_iff {c : Char} {s t : String} :
    lstrip c s = t ↔ t.toList.head? ≠ some c ∧ ∃ n, s.toList = List.replicate n c ++ t.toList := by
  rw [lstrip, ← String.toList_inj, String.toList_ofList]
  generalize s.toList = cs
  generalize t.toList = ds
  induction cs with
  | nil =>
    simp only [List.dropWhile_nil, List.nil_eq_append_iff, List.replicate_eq_nil_iff]
    constructor
    · rintro rfl
      exact ⟨nofun, 0, rfl, rfl⟩
    · rintro ⟨-, -, -, rfl⟩
      rfl
  | cons a cs ih =>
    by_cases ha : a = c
    · subst ha
      rw [List.dropWhile_cons_of_pos (by simp), ih]
      refine and_congr_right fun hd => ⟨fun ⟨n, hn⟩ => ⟨n + 1, by rw [hn]; rfl⟩, ?_⟩
      rintro ⟨n, hn⟩
      cases n with
      | zero =>
        rw [List.replicate_zero, List.nil_append] at hn
        rw [← hn] at hd
        exact absurd rfl hd
      | succ n => exact ⟨n, (List.cons.inj hn).2⟩
    · rw [List.dropWhile_cons_of_neg (by simpa using ha)]
      constructor
      · rintro rfl
        exact ⟨by simpa using ha, 0, rfl⟩
      · rintro ⟨-, n, hn⟩
        cases n with
        | zero => exact hn
        | succ n => exact absurd (List.cons.inj hn).1 ha

/-- `s.split(c, 1)`: what is before the first `c`, and what is after it, if there is one. -/
def splitOnce (c : Char) (s : String) : String × Option String :=
  match s.toList.dropWhile (· ≠ c) with
  | [] => (s, none)
  | _ :: rest => (String.ofList (s.toList.takeWhile (· ≠ c)), some (String.ofList rest))

/-- What is not split does not contain the separator. -/
theorem notMem_of_splitOnce {c : Char} {s a : String} (h : splitOnce c s = (a, none)) :
    c ∉ a.toList := by
  rw [splitOnce] at h
  split at h
  · rename_i hd
    obtain rfl := (Prod.mk.inj h).1
    intro hc
    simpa using List.dropWhile_eq_nil_iff.mp hd c hc
  · cases h

theorem splitOnce_eq_some {c : Char} {s a b : String} :
    splitOnce c s = (a, some b) ↔ c ∉ a.toList ∧ s.toList = a.toList ++ c :: b.toList := by
  constructor
  · intro h
    rw [splitOnce] at h
    split at h
    · cases h
    · rename_i d rest hd
      obtain ⟨rfl, hb⟩ := Prod.mk.inj h
      obtain rfl := Option.some.inj hb
      have hdc : d = c := by
        have hne := List.head?_dropWhile_not (fun x => decide (x ≠ c)) s.toList
        rw [hd] at hne
        simpa using hne
      have hs := List.takeWhile_append_dropWhile (p := fun x => decide (x ≠ c)) (l := s.toList)
      rw [hd, hdc] at hs
      simp only [String.toList_ofList]
      exact ⟨fun hc => by simpa using List.mem_takeWhile_imp hc, hs.symm⟩
  · rintro ⟨ha, hs⟩
    have hall : ∀ x ∈ a.toList, decide (x ≠ c) = true := fun x hx =>
      decide_eq_true fun e => ha (e ▸ hx)
    rw [splitOnce, hs, List.dropWhile_append_of_pos hall, List.takeWhile_append_of_pos hall]
    simp

/-- A string or `None`, if it is neither `None` nor empty: what a bare `if`
tests. -/
def given : Option String → Option String
  | none => none
  | some s => if s = "" then none else some s

theorem given_eq_some {o : Option String} {s : String} :
    given o = some s ↔ o = some s ∧ s ≠ "" := by
  cases o with
  | none => simp [given]
  | some t =>
    by_cases h : t = ""
    · subst h
      simp only [given, if_true, Option.some.injEq]
      exact ⟨nofun, fun h => absurd h.1.symm h.2⟩
    · simp only [given, h, if_false, Option.some.injEq]
      exact ⟨fun e => ⟨e, e ▸ h⟩, And.left⟩

/-- A Python string: a text, or code points with a lone surrogate among them, which have no
UTF-8 form. -/
inductive PyStr
  | text (s : String)
  | lone (points : List Nat) (surrogate : ∃ p ∈ points, 0xD800 ≤ p ∧ p < 0xE000)

/-- A string that is neither `None` nor empty. -/
def givenStr : Option PyStr → Option PyStr
  | some (.text s) => (given (some s)).map .text
  | o => o

theorem givenStr_text {s : String} (hs : s ≠ "") : givenStr (some (.text s)) = some (.text s) := by
  rw [givenStr, given_eq_some.mpr ⟨rfl, hs⟩]
  rfl

/-- `s.startswith(head)`. -/
def startsWith (s head : String) : Bool := head.toList.isPrefixOf s.toList

theorem startsWith_iff {s head : String} : startsWith s head = true ↔ ∃ tail, s = head ++ tail := by
  rw [startsWith, List.isPrefixOf_iff_prefix]
  constructor
  · rintro ⟨tail, ht⟩
    refine ⟨String.ofList tail, ?_⟩
    rw [← String.toList_inj, String.toList_append, String.toList_ofList, ht]
  · rintro ⟨tail, rfl⟩
    exact ⟨tail.toList, String.toList_append.symm⟩

/-- `s.endswith(tail)`. -/
def endsWith (s tail : String) : Bool := tail.toList.isSuffixOf s.toList

theorem endsWith_iff {s tail : String} : endsWith s tail = true ↔ ∃ p, s = p ++ tail := by
  rw [endsWith, List.isSuffixOf_iff_suffix]
  constructor
  · rintro ⟨p, hp⟩
    refine ⟨String.ofList p, ?_⟩
    rw [← String.toList_inj, String.toList_append, String.toList_ofList, hp]
  · rintro ⟨p, rfl⟩
    exact ⟨p.toList, String.toList_append.symm⟩

/-- `replace` on the characters: `skip` characters of a match are still to be
passed over. -/
def replaceAux (pat new : List Char) : Nat → List Char → List Char
  | _, [] => []
  | skip + 1, _ :: cs => replaceAux pat new skip cs
  | 0, c :: cs =>
    if pat.isPrefixOf (c :: cs) then new ++ replaceAux pat new (pat.length - 1) cs
    else c :: replaceAux pat new 0 cs

/-- `s.replace(pat, new)`, for a pattern that is not empty. -/
def replace (s pat new : String) : String :=
  String.ofList (replaceAux pat.toList new.toList 0 s.toList)

/-! ## `int(s)` -/

/-- The decimal zeros of Unicode 14; the nine characters after each are its
other digits. -/
def decimalZeros : List Nat :=
  [0x30, 0x660, 0x6f0, 0x7c0, 0x966, 0x9e6, 0xa66, 0xae6, 0xb66, 0xbe6, 0xc66, 0xce6, 0xd66, 0xde6,
    0xe50, 0xed0, 0xf20, 0x1040, 0x1090, 0x17e0, 0x1810, 0x1946, 0x19d0, 0x1a80, 0x1a90, 0x1b50,
    0x1bb0, 0x1c40, 0x1c50, 0xa620, 0xa8d0, 0xa900, 0xa9d0, 0xa9f0, 0xaa50, 0xabf0, 0xff10, 0x104a0,
    0x10d30, 0x11066, 0x110f0, 0x11136, 0x111d0, 0x112f0, 0x11450, 0x114d0, 0x11650, 0x116c0,
    0x11730, 0x118e0, 0x11950, 0x11c50, 0x11d50, 0x11da0, 0x16a60, 0x16ac0, 0x16b50, 0x1d7ce,
    0x1d7d8, 0x1d7e2, 0x1d7ec, 0x1d7f6, 0x1e140, 0x1e2f0, 0x1e950, 0x1fbf0]

/-- The value of a decimal digit. -/
def decimal? (c : Char) : Option Nat :=
  (decimalZeros.find? fun z => z ≤ c.toNat ∧ c.toNat < z + 10).map (c.toNat - ·)

/-- The blanks that `int` strips. -/
def isBlank (c : Char) : Bool :=
  c.toNat ∈ [0x9, 0xa, 0xb, 0xc, 0xd, 0x20, 0x85, 0xa0, 0x1680, 0x2028, 0x2029, 0x202f, 0x205f,
      0x3000] || (0x2000 ≤ c.toNat && c.toNat ≤ 0x200a)

/-- The digits of a numeral: an underscore may stand between two digits
(`afterDigit`: the last character was a digit). -/
def numeral? (afterDigit : Bool) : List Char → Option (List Nat)
  | [] => if afterDigit then some [] else none
  | c :: cs =>
    if c = '_' then if afterDigit then numeral? false cs else none
    else match decimal? c with
      | none => none
      | some d => (numeral? true cs).map (d :: ·)

/-- The most digits `int` accepts (`sys.get_int_max_str_digits()`). -/
def maxStrDigits : Nat := 4300

/-- A numeral without its sign. -/
def magnitude? (cs : List Char) : Option Nat :=
  match numeral? false cs with
  | none => none
  | some ds => if ds.length ≤ maxStrDigits then some (ds.foldl (fun n d => 10 * n + d) 0) else none

/-- `int(s)`; `none` is its `ValueError`. -/
def pyInt (s : String) : Option Int :=
  match ((s.toList.dropWhile isBlank).reverse.dropWhile isBlank).reverse with
  | '-' :: cs => (magnitude? cs).map fun n => -n
  | '+' :: cs => (magnitude? cs).map Int.ofNat
  | cs => (magnitude? cs).map Int.ofNat

example : pyInt " -1_0\u2003" = some (-10) := by decide

end Gaia
