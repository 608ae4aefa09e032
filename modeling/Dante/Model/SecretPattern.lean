import Dante.Library.Regex
import Dante.Model.Acceptance

/-! # What the privacy gate takes for a secret

The expression `_SECRET` of the gate, compiled with `re.IGNORECASE`. -/

namespace Dante

open Regex

/-- The Unicode tables behind `\w`, beyond ASCII. -/
class Unicode where
  /-- `str.isalnum()`. -/
  isalnum : Char → Bool

/-- `\w`. -/
def isWord [Unicode] (c : Char) : Bool :=
  if c.toNat < 128 then c.isAlphanum || c == '_' else Unicode.isalnum c

/-- The letters beyond ASCII that match an ASCII letter when case is ignored. -/
def foldsTo : Char → Char
  | 'İ' | 'ı' => 'i'
  | 'ſ' => 's'
  | 'K' => 'k'
  | c => c.toLower

/-- One character of the expression, its case ignored. -/
def ignoreCase (l c : Char) : Bool :=
  foldsTo c == l.toLower

/-- Some consecutive characters of the expression. -/
def literal (s : String) : Pattern :=
  .each (s.toList.map ignoreCase)

/-- `[A-Z ]`, its case ignored. -/
def upperOrSpace (c : Char) : Bool :=
  (foldsTo c).isAlpha || c == ' '

/-- `[A-Za-z0-9_-]`, its case ignored. -/
def keyChar (c : Char) : Bool :=
  (foldsTo c).isAlphanum || c == '_' || c == '-'

/-- `[_-]`. -/
def joint (c : Char) : Bool :=
  c == '_' || c == '-'

/-- `-----BEGIN [A-Z ]*PRIVATE KEY-----`. -/
def privateKey : Pattern :=
  .seq (literal "-----BEGIN ") (.seq (.many upperOrSpace) (literal "PRIVATE KEY-----"))

/-- `\bpassword\s*=`. -/
def password (space : Char → Bool) : Pattern :=
  .seq .boundary (.seq (literal "password") (.seq (.many space) (literal "=")))

/-- `\bapi[_-]?key\s*=`. -/
def apiKey (space : Char → Bool) : Pattern :=
  .seq .boundary (.seq (literal "api") (.seq (.optional (.char joint))
    (.seq (literal "key") (.seq (.many space) (literal "=")))))

/-- `\bsk-[A-Za-z0-9_-]{12,}`. -/
def secretKey : Pattern :=
  .seq .boundary (.seq (literal "sk-") (.atLeast 12 keyChar))

/-- The four alternatives, with the characters that count as white space. -/
def secretBy (space : Char → Bool) : Pattern :=
  .alt privateKey (.alt (password space) (.alt (apiKey space) secretKey))

/-- `_SECRET.search(content)`. -/
def searchSecret [Unicode] (content : String) : Bool :=
  found ⟨isWord, isWord⟩ (secretBy isSpace) false content.toList

end Dante
