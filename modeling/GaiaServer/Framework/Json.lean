import GaiaServer.Framework.Text
import Mathlib.Data.Char
import Mathlib.Data.List.Lex
import Mathlib.Data.List.Sort
import Mathlib.Data.Rat.Defs
import Mathlib.Algebra.Order.Ring.Rat
import Mathlib.Order.WithBot

/-!
# Python values and `json.dumps`

The values the encoder of the standard library distinguishes (`PyVal`), and
`json.dumps` (`dumps`) with the arguments the server passes it: sorted keys,
separators and `default=str`. Text comes out in ASCII (`ensure_ascii`).

A float is its `repr`, which determines it; as a dictionary key it also carries
its value, by which keys are sorted. A `nan` key, which no order has a place for, is
left out.
-/

namespace Gaia

/-- A dictionary key. -/
inductive PyKey
  | str (s : String)
  | int (n : Int)
  | bool (b : Bool)
  | none
  | float (value : WithBot (WithTop Rat)) (repr : String)
  /-- A key of any other type, which JSON has no form for. -/
  | other (typeName : String)
  deriving DecidableEq

/-- A Python value, as the JSON encoder sees it. -/
inductive PyVal
  | none
  | bool (b : Bool)
  | int (n : Int)
  | float (repr : String)
  | str (s : String)
  | list (xs : List PyVal)
  | tuple (xs : List PyVal)
  | dict (items : List (PyKey × PyVal))
  /-- An object of any other type, with its `str(o)`. -/
  | obj (typeName text : String)

/-- The exceptions of the encoder. -/
inductive EncodeError
  | typeError
  | valueError
  deriving DecidableEq

/-- The characters of a string key. -/
def PyKey.str? : PyKey → Option (List Char)
  | .str s => some s.toList
  | _ => Option.none

/-- The value of a numeric key; a `bool` is a number. -/
def PyKey.num? : PyKey → Option (WithBot (WithTop Rat))
  | .int n => some ((n : Rat) : WithTop Rat)
  | .bool b => some ((if b then 1 else 0 : Rat) : WithTop Rat)
  | .float q _ => some q
  | _ => Option.none

/-- The arguments of `json.dumps`. -/
structure DumpsArgs where
  sortKeys : Bool := false
  itemSep : String := ", "
  keySep : String := ": "
  defaultStr : Bool := false

namespace Json

/-! ## Scalars -/

/-- `\uXXXX`. -/
def unicodeEscape (n : Nat) : List Char :=
  ['\\', 'u', hexDigit (n / 4096 % 16), hexDigit (n / 256 % 16), hexDigit (n / 16 % 16),
    hexDigit (n % 16)]

/-- A character of a string literal; beyond U+FFFF, a surrogate pair. -/
def escapeChar (c : Char) : List Char :=
  if c = '"' then ['\\', '"']
  else if c = '\\' then ['\\', '\\']
  else if c = '\n' then ['\\', 'n']
  else if c = '\r' then ['\\', 'r']
  else if c = '\t' then ['\\', 't']
  else if c.toNat = 0xc then ['\\', 'f']
  else if c.toNat = 0x8 then ['\\', 'b']
  else if 0x20 ≤ c.toNat ∧ c.toNat ≤ 0x7e then [c]
  else if c.toNat < 0x10000 then unicodeEscape c.toNat
  else unicodeEscape (0xd800 + (c.toNat - 0x10000) / 0x400) ++
    unicodeEscape (0xdc00 + (c.toNat - 0x10000) % 0x400)

def strText (s : String) : List Char := '"' :: s.toList.flatMap escapeChar ++ ['"']

def boolText (b : Bool) : List Char := if b then "true".toList else "false".toList

/-- `int.__repr__`, with its limit on the number of digits. -/
def intText (n : Int) : Except EncodeError (List Char) :=
  let digits := Nat.toDigits 10 n.natAbs
  if digits.length ≤ maxStrDigits then .ok ((if n < 0 then ['-'] else []) ++ digits)
  else .error .valueError

def floatText (repr : String) : List Char :=
  if repr = "nan" then "NaN".toList
  else if repr = "inf" then "Infinity".toList
  else if repr = "-inf" then "-Infinity".toList
  else repr.toList

/-! ## Keys -/

/-- The text a key is converted to, before quoting. -/
def keyText : PyKey → Except EncodeError String
  | .str s => .ok s
  | .int n => (intText n).map String.ofList
  | .bool b => .ok (String.ofList (boolText b))
  | .none => .ok "null"
  | .float _ repr => .ok (String.ofList (floatText repr))
  | .other _ => .error .typeError

/-- `sorted(d.items())`: keys are compared when there are two or more, and only
strings with strings and numbers with numbers compare. -/
def sortItems {α : Type} (items : List (PyKey × α)) : Except EncodeError (List (PyKey × α)) :=
  if items.length ≤ 1 then .ok items
  else if items.all fun i => i.1.str?.isSome then
    .ok (items.insertionSort fun i j => i.1.str?.getD [] ≤ j.1.str?.getD [])
  else if items.all fun i => i.1.num?.isSome then
    .ok (items.insertionSort fun i j => i.1.num?.getD ⊥ ≤ j.1.num?.getD ⊥)
  else .error .typeError

/-! ## Values -/

/-- `key: value` of a dictionary, the value already encoded. -/
def itemText (args : DumpsArgs) (i : PyKey × Except EncodeError (List Char)) :
    Except EncodeError (List Char) := do
  let key ← keyText i.1
  let value ← i.2
  return strText key ++ args.keySep.toList ++ value

def bracket (l r : Char) (args : DumpsArgs) (parts : List (List Char)) : List Char :=
  l :: args.itemSep.toList.intercalate parts ++ [r]

mutual

/-- The encoding of a value. -/
def text (args : DumpsArgs) : PyVal → Except EncodeError (List Char)
  | .none => .ok "null".toList
  | .bool b => .ok (boolText b)
  | .int n => intText n
  | .float repr => .ok (floatText repr)
  | .str s => .ok (strText s)
  | .list xs => do return bracket '[' ']' args (← (texts args xs).mapM id)
  | .tuple xs => do return bracket '[' ']' args (← (texts args xs).mapM id)
  | .dict items => do
    let items := itemTexts args items
    let items ← if args.sortKeys then sortItems items else .ok items
    return bracket '\x7b' '\x7d' args (← items.mapM (itemText args))
  | .obj _ s => if args.defaultStr then .ok (strText s) else .error .typeError

/-- The encodings of the elements of a list. -/
def texts (args : DumpsArgs) : List PyVal → List (Except EncodeError (List Char))
  | [] => []
  | x :: xs => text args x :: texts args xs

/-- The items of a dictionary, their values encoded. -/
def itemTexts (args : DumpsArgs) :
    List (PyKey × PyVal) → List (PyKey × Except EncodeError (List Char))
  | [] => []
  | (k, v) :: items => (k, text args v) :: itemTexts args items

end

/-- `json.dumps(v, …)`. -/
def dumps (args : DumpsArgs) (v : PyVal) : Except EncodeError String :=
  (text args v).map String.ofList

end Json

end Gaia
