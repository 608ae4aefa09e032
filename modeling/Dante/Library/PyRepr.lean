import Dante.Library.PyValue

/-! # Python values as text -/

namespace JsonText

/-- The Unicode table behind `repr`, beyond ASCII. -/
class Printable where
  /-- `str.isprintable()`. -/
  isprintable : Char → Bool

variable [Printable]

def isPrintable (c : Char) : Bool :=
  if c.toNat < 128 then decide (32 ≤ c.toNat ∧ c.toNat < 127) else Printable.isprintable c

/-- So many hexadecimal digits of a number. -/
def hexDigits : ℕ → ℕ → List Char
  | 0, _ => []
  | width + 1, n => hexDigits width (n / 16) ++ [hexDigit (n % 16)]

def reprChar (mark c : Char) : List Char :=
  if c = mark ∨ c = '\\' then ['\\', c]
  else if c = '\t' then ['\\', 't']
  else if c = '\n' then ['\\', 'n']
  else if c = '\r' then ['\\', 'r']
  else if isPrintable c then [c]
  else if c.toNat < 256 then '\\' :: 'x' :: hexDigits 2 c.toNat
  else if c.toNat < 65536 then '\\' :: 'u' :: hexDigits 4 c.toNat
  else '\\' :: 'U' :: hexDigits 8 c.toNat

/-- The apostrophe. -/
def single : Char := Char.ofNat 39

/-- Double quotes only where they save escaping an apostrophe. -/
def reprStr (s : String) : List Char :=
  let mark := if single ∈ s.toList ∧ '"' ∉ s.toList then '"' else single
  mark :: (s.toList.flatMap (reprChar mark) ++ [mark])

def NonFinite.repr : NonFinite → List Char
  | .nan => ['n', 'a', 'n']
  | .infinity => ['i', 'n', 'f']
  | .negInfinity => ['-', 'i', 'n', 'f']

namespace Value

mutual
/-- `repr(value)`. -/
def repr : Value → List Char
  | .none => ['N', 'o', 'n', 'e']
  | .bool true => ['T', 'r', 'u', 'e']
  | .bool false => ['F', 'a', 'l', 's', 'e']
  | .int n => (toString n).toList
  | .float f => f.chars
  | .nonFinite k => k.repr
  | .str s => reprStr s
  | .list items => '[' :: ([',', ' '].intercalate (reprItems items) ++ [']'])
  | .tuple [v] => '(' :: (repr v ++ [',', ')'])
  | .tuple items => '(' :: ([',', ' '].intercalate (reprItems items) ++ [')'])
  | .dict entries => '{' :: ([',', ' '].intercalate (reprEntries entries) ++ ['}'])
def reprItems : List Value → List (List Char)
  | [] => []
  | v :: items => repr v :: reprItems items
def reprEntries : List (Value × Value) → List (List Char)
  | [] => []
  | (k, v) :: entries => (repr k ++ ':' :: ' ' :: repr v) :: reprEntries entries
end

/-- `str(value)`. -/
def toText : Value → List Char
  | .str s => s.toList
  | v => repr v

end Value

end JsonText
