import Dante.Model.Contracts
import Mathlib.Data.List.Infix

/-! # The bounded schema dialect of tool arguments -/

namespace Dante

open JsonText

variable [Platform]

/-! ## Equality of Python values -/

/-- The number a JSON value is equal to; `True` and `False` are `1` and `0`. -/
def numeral : Json → Option ℚ
  | .bool b => some (if b then 1 else 0)
  | .int n => some n
  | .float f => some (Platform.floatValue f)
  | _ => none

mutual
/-- `a == b`. A NaN is equal to nothing. -/
def pyEq : Json → Json → Bool
  | .null, .null => true
  | .str a, .str b => a == b
  | .nonFinite a, .nonFinite b => a == b && a != .nan
  | .arr a, .arr b => pyEqItems a b
  | .obj a, .obj b => pyEqFields a b && b.all (fun f => (a.lookup f.1).isSome)
  | a, b =>
      match numeral a, numeral b with
      | some x, some y => x == y
      | _, _ => false
def pyEqItems : List Json → List Json → Bool
  | [], [] => true
  | a :: as, b :: bs => pyEq a b && pyEqItems as bs
  | _, _ => false
/-- Every field of the first object is equal to that of the second. -/
def pyEqFields : List (String × Json) → List (String × Json) → Bool
  | [], _ => true
  | (k, a) :: fields, other =>
      (match other.lookup k with
        | some b => pyEq a b
        | none => false) && pyEqFields fields other
end

/-- `value in container`. -/
def memberOf (value : Json) : Json → Except Exn Bool
  | .arr items => .ok (items.any (pyEq value))
  | .obj fields =>
      match value with
      | .str key => .ok (fields.lookup key).isSome
      | .arr _ | .obj _ => .error (.typeError "unhashable type")
      | _ => .ok false
  | .str text =>
      match value with
      | .str part => .ok (decide (part.toList <:+: text.toList))
      | _ => .error (.typeError "'in <string>' requires string as left operand")
  | _ => .error (.typeError "argument is not iterable")

/-! ## Schemas -/

inductive Kind where
  | object
  | array
  | string
  | integer
  | number
  | boolean
  | null
  deriving DecidableEq, Repr

def Kind.ofName : String → Option Kind
  | "object" => some .object
  | "array" => some .array
  | "string" => some .string
  | "integer" => some .integer
  | "number" => some .number
  | "boolean" => some .boolean
  | "null" => some .null
  | _ => none

/-- `schema.get('type')`, looked up among the known types. -/
def schemaKind (schema : Dict Json) (unknown : Exn) : Except Exn Kind :=
  match schema.lookup "type" with
  | some (.str name) => orRaise (Kind.ofName name) unknown
  | some (.arr _) | some (.obj _) => .error (.typeError "unhashable type")
  | _ => .error unknown

def isStr : Json → Bool
  | .str _ => true
  | _ => false

/-- A string of the list `keys` that is not a key of `fields`. -/
def missingKey (keys : List Json) (fields : Dict Json) : Bool :=
  keys.any (fun key =>
    match key with
    | .str k => (fields.lookup k).isNone
    | _ => true)

/-- The keywords a schema of this kind may use. -/
def Kind.keywords : Kind → List String
  | .object => ["type", "enum", "properties", "required", "additionalProperties"]
  | .array => ["type", "enum", "items"]
  | _ => ["type", "enum"]

/-- The conditions on an object schema, short of those on its properties. -/
def objectSchema (schema : Dict Json) : Except Exn Unit :=
  match (schema.lookup "properties").getD (.obj []), (schema.lookup "required").getD (.arr []),
    (schema.lookup "additionalProperties").getD (.bool false) with
  | .obj properties, .arr required, .bool _ =>
      require (required.all isStr && !missingKey required properties)
        (.valueError "Invalid object schema")
  | _, _, _ => .error (.valueError "Invalid object schema")

/-- The final check of `check_schema`. -/
def schemaKeywords (schema : Dict Json) (kind : Kind) : Except Exn Unit :=
  require (schema.all (fun f => kind.keywords.contains f.1) &&
      (match schema.lookup "enum" with
        | none => true
        | some (.arr _) => true
        | some _ => false))
    (.valueError "Unsupported schema keyword")

mutual
/-- `check_schema`. -/
def checkSchema : Json → Except Exn Unit
  | .obj schema => do
      let kind ← schemaKind schema (.valueError "Unsupported schema type")
      match kind with
      | .object =>
          objectSchema schema
          checkProperties schema
      | .array => checkItems schema
      | _ => pure ()
      schemaKeywords schema kind
  | _ => .error (.valueError "Schema must be an object")
/-- `for child in schema.get('properties', {}).values(): check_schema(child)`. -/
def checkProperties : List (String × Json) → Except Exn Unit
  | [] => .ok ()
  | (key, .obj properties) :: rest =>
      if key = "properties" then checkChildren properties else checkProperties rest
  | (key, _) :: rest => if key = "properties" then .ok () else checkProperties rest
def checkChildren : List (String × Json) → Except Exn Unit
  | [] => .ok ()
  | (_, child) :: rest => do
      checkSchema child
      checkChildren rest
/-- `check_schema(schema.get('items'))`. -/
def checkItems : List (String × Json) → Except Exn Unit
  | [] => .error (.valueError "Schema must be an object")
  | (key, child) :: rest => if key = "items" then checkSchema child else checkItems rest
end

/-- `isinstance(value, types[kind])`, and no boolean passes for a number. -/
def hasKind : Kind → Json → Bool
  | .object, .obj _ => true
  | .array, .arr _ => true
  | .string, .str _ => true
  | .integer, .int _ => true
  | .number, .int _ => true
  | .number, .float _ => true
  | .number, .nonFinite _ => true
  | .boolean, .bool _ => true
  | .null, .null => true
  | _, _ => false

/-- What `validate_schema` asks of an object before it looks at the properties. -/
def objectShape (schema value : Dict Json) : Except Exn (Dict Json) :=
  match (schema.lookup "properties").getD (.obj []), (schema.lookup "required").getD (.arr []),
    (schema.lookup "additionalProperties").getD (.bool false) with
  | .obj properties, .arr required, .bool additional => do
      require (required.all hashableName) (.typeError "unhashable type")
      require (!missingKey required value) (.valueError "Missing argument")
      require (additional || value.all (fun f => (properties.lookup f.1).isSome))
        (.valueError "Unknown argument")
      pure properties
  | _, _, _ => .error (.valueError "Invalid object schema")
where
  hashableName : Json → Bool
    | .arr _ => false
    | .obj _ => false
    | _ => true

/-- The checks of `validate_schema` that do not recurse. -/
def schemaHead (schema : Json) (value : Json) : Except Exn (Dict Json × Kind) :=
  match schema with
  | .obj fields => do
      require (fields.all (fun f => ["type", "properties", "required", "additionalProperties",
          "items", "enum"].contains f.1)) (.valueError "Unsupported schema")
      let kind ← schemaKind fields (.valueError "Invalid argument type")
      require (hasKind kind value) (.valueError "Invalid argument type")
      match fields.lookup "enum" with
      | none => pure (fields, kind)
      | some allowed => do
          let listed ← memberOf value allowed
          require listed (.valueError "Invalid argument value")
          pure (fields, kind)
  | _ => .error (.valueError "Unsupported schema")

mutual
/-- `validate_schema`. -/
def validateSchema (schema : Json) : Json → Except Exn Unit
  | .obj fields => do
      let (head, _) ← schemaHead schema (.obj fields)
      let properties ← objectShape head fields
      validateFields properties fields
  | .arr items => do
      let (head, _) ← schemaHead schema (.arr items)
      let itemSchema ← orRaise (head.lookup "items") (.valueError "Missing item schema")
      validateItems itemSchema items
  | value => do
      let _ ← schemaHead schema value
      pure ()
def validateFields (properties : Dict Json) : List (String × Json) → Except Exn Unit
  | [] => .ok ()
  | (key, item) :: rest => do
      match properties.lookup key with
      | some child => validateSchema child item
      | none => pure ()
      validateFields properties rest
def validateItems (itemSchema : Json) : List Json → Except Exn Unit
  | [] => .ok ()
  | item :: rest => do
      validateSchema itemSchema item
      validateItems itemSchema rest
end

end Dante
