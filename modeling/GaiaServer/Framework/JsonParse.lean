import GaiaServer.Framework.Dict
import GaiaServer.Framework.JsonTree
import Mathlib.Data.List.TakeWhile

/-!
# `json.loads`

The decoder of the standard library: a scanner from text to tree (`scanValue`), with
Python's strings, numbers and blanks, and the value of a tree (`JsonTree.value`),
where a key that is there twice has its last value. What `float` and `repr` make of a
literal is a parameter, and a lone surrogate, which no `String` holds, is refused.
-/

namespace Gaia

namespace Json

/-! ## Strings -/

/-- A hexadecimal digit. -/
def hexValue? (c : Char) : Option Nat :=
  if c.isDigit then some (c.toNat - 48)
  else if 97 ≤ c.toNat ∧ c.toNat ≤ 102 then some (c.toNat - 87)
  else if 65 ≤ c.toNat ∧ c.toNat ≤ 70 then some (c.toNat - 55)
  else none

/-- The code unit of `\uXXXX`. -/
def hex4? (a b c d : Char) : Option Nat :=
  match hexValue? a, hexValue? b, hexValue? c, hexValue? d with
  | some a, some b, some c, some d => some (((a * 16 + b) * 16 + c) * 16 + d)
  | _, _, _, _ => none

/-- The character of a one-letter escape. -/
def escape? (c : Char) : Option Char :=
  if c = '"' then some '"'
  else if c = '\\' then some '\\'
  else if c = '/' then some '/'
  else if c = 'b' then some (Char.ofNat 0x8)
  else if c = 'f' then some (Char.ofNat 0xc)
  else if c = 'n' then some '\n'
  else if c = 'r' then some '\r'
  else if c = 't' then some '\t'
  else none

/-- The characters of a string literal after its opening quote, and what follows its
closing one. -/
def scanString : List Char → Option (List Char × List Char)
  | [] => none
  | '"' :: cs => some ([], cs)
  | '\\' :: 'u' :: a :: b :: c :: d :: cs =>
    match hex4? a b c d with
    | none => none
    | some n =>
      if 0xd800 ≤ n ∧ n ≤ 0xdbff then
        match cs with
        | '\\' :: 'u' :: a' :: b' :: c' :: d' :: cs =>
          match hex4? a' b' c' d' with
          | none => none
          | some m =>
            if 0xdc00 ≤ m ∧ m ≤ 0xdfff then
              (scanString cs).map fun p =>
                (Char.ofNat (0x10000 + (n - 0xd800) * 0x400 + (m - 0xdc00)) :: p.1, p.2)
            else none
        | _ => none
      else if 0xdc00 ≤ n ∧ n ≤ 0xdfff then none
      else (scanString cs).map fun p => (Char.ofNat n :: p.1, p.2)
  | '\\' :: e :: cs =>
    match escape? e with
    | none => none
    | some c => (scanString cs).map fun p => (c :: p.1, p.2)
  | c :: cs =>
    if c = '\\' ∨ c.toNat < 0x20 then none else (scanString cs).map fun p => (c :: p.1, p.2)

/-! ## Numbers -/

/-- `0`, or digits that do not begin with it. -/
def scanInt : List Char → Option (List Char × List Char)
  | [] => none
  | c :: cs =>
    if c = '0' then some (['0'], cs)
    else if c.isDigit then some (c :: cs.takeWhile Char.isDigit, cs.dropWhile Char.isDigit)
    else none

/-- A point and digits, if they come next. -/
def scanFrac (cs : List Char) : List Char × List Char :=
  match cs with
  | '.' :: ds =>
    if ds.takeWhile Char.isDigit = [] then ([], cs)
    else ('.' :: ds.takeWhile Char.isDigit, ds.dropWhile Char.isDigit)
  | _ => ([], cs)

/-- A sign, if it comes next. -/
def scanSign (signs : List Char) : List Char → List Char × List Char
  | c :: cs => if c ∈ signs then ([c], cs) else ([], c :: cs)
  | [] => ([], [])

/-- `e` and digits, with a sign or not, if they come next. -/
def scanExp (cs : List Char) : List Char × List Char :=
  match cs with
  | c :: ds =>
    let signed := scanSign ['+', '-'] ds
    if (c = 'e' ∨ c = 'E') ∧ signed.2.takeWhile Char.isDigit ≠ [] then
      (c :: signed.1 ++ signed.2.takeWhile Char.isDigit, signed.2.dropWhile Char.isDigit)
    else ([], cs)
  | [] => ([], cs)

/-- A number: an `int` if it has neither fraction nor exponent. -/
def scanNumber (cs : List Char) : Option (JsonTree × List Char) :=
  let sign := scanSign ['-'] cs
  match scanInt sign.2 with
  | none => none
  | some (int, cs) =>
    let frac := scanFrac cs
    let exp := scanExp frac.2
    if frac.1 = [] ∧ exp.1 = [] then
      if int.length ≤ maxStrDigits then
        let n := Nat.ofDigitChars 10 int 0
        some (.int (if sign.1 = [] then n else -n), exp.2)
      else none
    else some (.float (String.ofList (sign.1 ++ int ++ frac.1 ++ exp.1)), exp.2)

/-! ## Values -/

def isWs (c : Char) : Bool := c = ' ' || c = '\t' || c = '\n' || c = '\r'

def skipWs (cs : List Char) : List Char := cs.dropWhile isWs

/-- A word that stands for a tree, if it comes next. -/
def scanWord (word : String) (t : JsonTree) (cs : List Char) : Option (JsonTree × List Char) :=
  if word.toList.isPrefixOf cs then some (t, cs.drop word.toList.length) else none

def scanScalar (cs : List Char) : Option (JsonTree × List Char) :=
  scanWord "null" .null cs <|> scanWord "true" (.bool true) cs <|>
    scanWord "false" (.bool false) cs <|> scanNumber cs <|> scanWord "NaN" (.float "NaN") cs <|>
    scanWord "Infinity" (.float "Infinity") cs <|> scanWord "-Infinity" (.float "-Infinity") cs

mutual

/-- A value and what follows it. Every call goes on with less of the text, so `fuel`
is at most the text's length. -/
def scanValue : (fuel : Nat) → List Char → Option (JsonTree × List Char)
  | 0, _ => none
  | fuel + 1, cs =>
    match cs with
    | '"' :: cs => (scanString cs).map fun p => (.str (String.ofList p.1), p.2)
    | '[' :: cs =>
      match skipWs cs with
      | ']' :: cs => some (.arr [], cs)
      | cs => (scanElements fuel cs).map fun p => (.arr p.1, p.2)
    | '\x7b' :: cs =>
      match skipWs cs with
      | '\x7d' :: cs => some (.obj [], cs)
      | cs => (scanMembers fuel cs).map fun p => (.obj p.1, p.2)
    | cs => scanScalar cs

def scanElements : (fuel : Nat) → List Char → Option (List JsonTree × List Char)
  | 0, _ => none
  | fuel + 1, cs =>
    match scanValue fuel cs with
    | none => none
    | some (x, cs) =>
      match skipWs cs with
      | ']' :: cs => some ([x], cs)
      | ',' :: cs => (scanElements fuel (skipWs cs)).map fun p => (x :: p.1, p.2)
      | _ => none

def scanMembers : (fuel : Nat) → List Char → Option (List (String × JsonTree) × List Char)
  | 0, _ => none
  | fuel + 1, cs =>
    match cs with
    | '"' :: cs =>
      match scanString cs with
      | none => none
      | some (key, cs) =>
        match skipWs cs with
        | ':' :: cs =>
          match scanValue fuel (skipWs cs) with
          | none => none
          | some (x, cs) =>
            match skipWs cs with
            | '\x7d' :: cs => some ([(String.ofList key, x)], cs)
            | ',' :: cs =>
              (scanMembers fuel (skipWs cs)).map fun p => ((String.ofList key, x) :: p.1, p.2)
            | _ => none
        | _ => none
    | _ => none

end

/-- The tree of a text. -/
def scan (cs : List Char) : Option JsonTree :=
  match scanValue (cs.length + 1) (skipWs cs) with
  | none => none
  | some (t, cs) => if skipWs cs = [] then some t else none

end Json

/-! ## Decoding -/

/-- The `repr` of the float that a literal stands for; `reprFloat` is that of a
number. -/
def Json.literalRepr (reprFloat : String → String) (literal : String) : String :=
  if literal = "NaN" then "nan"
  else if literal = "Infinity" then "inf"
  else if literal = "-Infinity" then "-inf"
  else reprFloat literal

mutual

def JsonTree.value (reprFloat : String → String) : JsonTree → PyVal
  | .null => .none
  | .bool b => .bool b
  | .int n => .int n
  | .float l => .float (Json.literalRepr reprFloat l)
  | .str s => .str s
  | .arr xs => .list (JsonTree.values reprFloat xs)
  | .obj items => .dict (JsonTree.valueItems reprFloat [] items)

def JsonTree.values (reprFloat : String → String) : List JsonTree → List PyVal
  | [] => []
  | x :: xs => x.value reprFloat :: JsonTree.values reprFloat xs

/-- The items of `dict(pairs)`, after those that are there. -/
def JsonTree.valueItems (reprFloat : String → String) (done : List (PyKey × PyVal)) :
    List (String × JsonTree) → List (PyKey × PyVal)
  | [] => done
  | (k, x) :: items =>
    JsonTree.valueItems reprFloat (Dict.setItems (.str k) (x.value reprFloat) done) items

end

/-- `json.loads(s)`; `none` is its `ValueError`. -/
def Json.loads (reprFloat : String → String) (s : String) : Option PyVal :=
  (Json.scan s.toList).map (JsonTree.value reprFloat)

end Gaia
