import Dante.Library.Json

/-! # Reading JSON documents

What a reader finds in a text, the checks on it that hooks can make, and the ways in which a
program takes a value apart. -/

namespace JsonText

/-! ## Documents -/

/-- A text as it is read: every object with all of its pairs, in the order of the text. -/
structure Document where
  value : Json
  /-- One of `NaN`, `Infinity` and `-Infinity` is written in it. -/
  constants : Bool

mutual
/-- No object in the value has one key twice. -/
def distinctKeys : Json → Bool
  | .arr items => distinctItems items
  | .obj fields => decide (fields.map Prod.fst).Nodup && distinctFields fields
  | _ => true
def distinctItems : List Json → Bool
  | [] => true
  | v :: items => distinctKeys v && distinctItems items
def distinctFields : List (String × Json) → Bool
  | [] => true
  | (_, v) :: fields => distinctKeys v && distinctFields fields
end

/-! ## Taking values apart -/

namespace Json

/-- `value[key]`, for a string key. -/
def item (key : String) : Json → Option Json
  | .obj fields => fields.lookup key
  | _ => none

/-- `value.get(key)`; only objects have a `get`. -/
def get (key : String) : Json → Option (Option Json)
  | .obj fields => some (fields.lookup key)
  | _ => none

/-- What a loop over the value goes through. -/
def elements : Json → Option (List Json)
  | .arr items => some items
  | .obj fields => some (fields.map fun f => .str f.1)
  | .str s => some (s.toList.map fun c => .str (String.singleton c))
  | _ => none

def asList : Json → Option (List Json)
  | .arr items => some items
  | _ => none

def asText : Json → Option String
  | .str s => some s
  | _ => none

def asObject : Json → Option (List (String × Json))
  | .obj fields => some fields
  | _ => none

@[simp] theorem item_obj (key : String) (fields : List (String × Json)) :
    item key (.obj fields) = fields.lookup key := rfl

@[simp] theorem get_obj (key : String) (fields : List (String × Json)) :
    get key (.obj fields) = some (fields.lookup key) := rfl

@[simp] theorem asText_eq_some {v : Json} {s : String} : v.asText = some s ↔ v = .str s := by
  cases v <;> simp [asText]

@[simp] theorem asObject_eq_some {v : Json} {fields : List (String × Json)} :
    v.asObject = some fields ↔ v = .obj fields := by
  cases v <;> simp [asObject]

@[simp] theorem asList_eq_some {v : Json} {items : List Json} :
    v.asList = some items ↔ v = .arr items := by
  cases v <;> simp [asList]

end Json

end JsonText
