import Mathlib.Data.List.Sort
import Mathlib.Data.List.Perm.Basic
import Mathlib.Data.String.Basic
import Mathlib.Data.Nat.Digits.Defs
import Mathlib.Tactic.IntervalCases

/-! # JSON values and their canonical text

A value is written with its object keys sorted and no optional blanks. Followed by
a delimiter, that text determines the value up to the order of object keys. -/

namespace JsonText

/-- The characters that occur in a number. -/
def isNumeral (c : Char) : Bool :=
  c.isDigit || c == '-' || c == '+' || c == '.' || c == 'e'

/-- The text of a finite float. The mark tells it apart from every integer. -/
structure FloatText where
  chars : List Char
  numeral : ∀ c ∈ chars, isNumeral c = true
  marked : ∃ c ∈ chars, c = '.' ∨ c = 'e'

inductive NonFinite where
  | nan
  | infinity
  | negInfinity
  deriving DecidableEq, Repr

/-- JSON values. Objects are association lists, in the order they were built. -/
inductive Json where
  | null
  | bool (b : Bool)
  | int (n : Int)
  | float (f : FloatText)
  | nonFinite (k : NonFinite)
  | str (s : String)
  | arr (items : List Json)
  | obj (fields : List (String × Json))

instance : Inhabited Json := ⟨.null⟩

/-! ## Text -/

def hexDigit (n : ℕ) : Char :=
  if n < 10 then Char.ofNat (48 + n) else Char.ofNat (87 + n)

def escapeChar (c : Char) : List Char :=
  if c = '"' then ['\\', '"']
  else if c = '\\' then ['\\', '\\']
  else if c = '\n' then ['\\', 'n']
  else if c = '\r' then ['\\', 'r']
  else if c = '\t' then ['\\', 't']
  else if c.toNat = 8 then ['\\', 'b']
  else if c.toNat = 12 then ['\\', 'f']
  else if c.toNat < 32 then ['\\', 'u', '0', '0', hexDigit (c.toNat / 16), hexDigit (c.toNat % 16)]
  else [c]

def quoteChars : List Char → List Char
  | [] => ['"']
  | c :: cs => escapeChar c ++ quoteChars cs

def quote (s : String) : List Char :=
  '"' :: quoteChars s.toList

def NonFinite.chars : NonFinite → List Char
  | .nan => ['N', 'a', 'N']
  | .infinity => ['I', 'n', 'f', 'i', 'n', 'i', 't', 'y']
  | .negInfinity => ['-', 'I', 'n', 'f', 'i', 'n', 'i', 't', 'y']

mutual
/-- The text of a value; `blank` follows every comma and every colon. -/
def text (blank : List Char) : Json → List Char
  | .null => ['n', 'u', 'l', 'l']
  | .bool true => ['t', 'r', 'u', 'e']
  | .bool false => ['f', 'a', 'l', 's', 'e']
  | .int n => (toString n).toList
  | .float f => f.chars
  | .nonFinite k => k.chars
  | .str s => quote s
  | .arr [] => ['[', ']']
  | .arr (v :: items) => '[' :: (text blank v ++ textItems blank items)
  | .obj [] => ['{', '}']
  | .obj ((k, v) :: fields) => '{' :: (quote k ++ ':' :: (blank ++ (text blank v ++ textFields blank fields)))
def textItems (blank : List Char) : List Json → List Char
  | [] => [']']
  | v :: items => ',' :: (blank ++ (text blank v ++ textItems blank items))
def textFields (blank : List Char) : List (String × Json) → List Char
  | [] => ['}']
  | (k, v) :: fields =>
      ',' :: (blank ++ (quote k ++ ':' :: (blank ++ (text blank v ++ textFields blank fields))))
end

mutual
/-- No float in the value is infinite or undefined. -/
def finite : Json → Bool
  | .nonFinite _ => false
  | .arr items => finiteItems items
  | .obj fields => finiteFields fields
  | _ => true
def finiteItems : List Json → Bool
  | [] => true
  | v :: items => finite v && finiteItems items
def finiteFields : List (String × Json) → Bool
  | [] => true
  | (_, v) :: fields => finite v && finiteFields fields
end

mutual
/-- The value with the keys of every object sorted. -/
def canonical : Json → Json
  | .arr items => .arr (canonicalItems items)
  | .obj fields => .obj ((canonicalFields fields).insertionSort (fun a b => a.1 ≤ b.1))
  | v => v
def canonicalItems : List Json → List Json
  | [] => []
  | v :: items => canonical v :: canonicalItems items
def canonicalFields : List (String × Json) → List (String × Json)
  | [] => []
  | (k, v) :: fields => (k, canonical v) :: canonicalFields fields
end

/-- The canonical text: sorted keys and no blanks. -/
def normalized (v : Json) : List Char :=
  text [] (canonical v)

end JsonText
