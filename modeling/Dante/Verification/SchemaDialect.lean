import Dante.Model.Reference
import Dante.Model.Schema

/-! # The schema dialect

The grammar of schemas and the values that inhabit them, each given by rules of its own. What
`check_schema` accepts is in the grammar, and on it `validate_schema` decides inhabitance. -/

namespace Dante

open JsonText

section Dialect

variable [Platform]

/-! ## Rules -/

/-- A value of a type that has no parts. No boolean is a number, and no float an integer. -/
inductive OfType : String → Json → Prop where
  | string (s : String) : OfType "string" (.str s)
  | integer (n : ℤ) : OfType "integer" (.int n)
  | wholeNumber (n : ℤ) : OfType "number" (.int n)
  | number (f : FloatText) : OfType "number" (.float f)
  | nonFinite (k : NonFinite) : OfType "number" (.nonFinite k)
  | boolean (b : Bool) : OfType "boolean" (.bool b)
  | null : OfType "null" .null

/-- If the schema lists values, one of them is equal to `v`. -/
def Enumerated (schema : Dict Json) (v : Json) : Prop :=
  ∀ allowed, schema.lookup "enum" = some (.arr allowed) → ∃ a ∈ allowed, pyEq v a = true

/-- The properties that an object schema declares. -/
def propertiesOf (schema : Dict Json) : Dict Json :=
  match schema.lookup "properties" with
  | some (.obj properties) => properties
  | _ => []

/-- The keys that an object schema requires. -/
def requiredOf (schema : Dict Json) : List Json :=
  match schema.lookup "required" with
  | some (.arr required) => required
  | _ => []

/-- The schema admits keys that it does not declare. -/
def Open (schema : Dict Json) : Prop :=
  schema.lookup "additionalProperties" = some (.bool true)

/-- The values of a schema. -/
inductive Inhabits : Json → Json → Prop where
  | object {schema fields : Dict Json} (htype : schema.lookup "type" = some (.str "object"))
      (henum : Enumerated schema (.obj fields))
      (hrequired : ∀ key, .str key ∈ requiredOf schema → (fields.lookup key).isSome)
      (hclosed : ¬Open schema → ∀ f ∈ fields, ((propertiesOf schema).lookup f.1).isSome)
      (hproperties : ∀ f ∈ fields, ∀ child, (propertiesOf schema).lookup f.1 = some child →
        Inhabits child f.2) :
      Inhabits (.obj schema) (.obj fields)
  | array {schema : Dict Json} {items : List Json} {child : Json}
      (htype : schema.lookup "type" = some (.str "array"))
      (henum : Enumerated schema (.arr items)) (hchild : schema.lookup "items" = some child)
      (hitems : ∀ item ∈ items, Inhabits child item) :
      Inhabits (.obj schema) (.arr items)
  | scalar {schema : Dict Json} {name : String} {v : Json}
      (htype : schema.lookup "type" = some (.str name)) (hof : OfType name v)
      (henum : Enumerated schema v) : Inhabits (.obj schema) v

/-- The schema has no keyword but the given ones, and lists values only as an array. -/
structure Keywords (schema : Dict Json) (allowed : List String) : Prop where
  known : ∀ f ∈ schema, f.1 ∈ allowed
  listed : ∀ v, schema.lookup "enum" = some v → ∃ values, v = .arr values

/-- The grammar of schemas: the keywords of each type, at every depth. -/
inductive Schema : Json → Prop where
  | object {schema properties : Dict Json} {required : List String} {additional : Bool}
      (htype : schema.lookup "type" = some (.str "object"))
      (hkeywords : Keywords schema
        ["type", "enum", "properties", "required", "additionalProperties"])
      (hproperties : (schema.lookup "properties").getD (.obj []) = .obj properties)
      (hrequired : (schema.lookup "required").getD (.arr []) = .arr (required.map .str))
      (hdeclared : ∀ key ∈ required, (properties.lookup key).isSome)
      (hadditional : (schema.lookup "additionalProperties").getD (.bool false) = .bool additional)
      (hchildren : ∀ f ∈ properties, Schema f.2) : Schema (.obj schema)
  | array {schema : Dict Json} {child : Json}
      (htype : schema.lookup "type" = some (.str "array"))
      (hkeywords : Keywords schema ["type", "enum", "items"])
      (hitems : schema.lookup "items" = some child) (hchild : Schema child) :
      Schema (.obj schema)
  | scalar {schema : Dict Json} {name : String}
      (htype : schema.lookup "type" = some (.str name))
      (hname : name ∈ ["string", "integer", "number", "boolean", "null"])
      (hkeywords : Keywords schema ["type", "enum"]) : Schema (.obj schema)

/-! ## What `check_schema` accepts -/

omit [Platform] in
theorem schemaKind_ok {schema : Dict Json} {unknown : Exn} {kind : Kind}
    (h : schemaKind schema unknown = .ok kind) :
    ∃ name, schema.lookup "type" = some (.str name) ∧ Kind.ofName name = some kind := by
  unfold schemaKind at h
  split at h
  · rename_i name hname
    exact ⟨name, hname, orRaise_eq_ok.mp h⟩
  · cases h
  · cases h
  · cases h

omit [Platform] in
theorem keywords_ok {schema : Dict Json} {kind : Kind} (h : schemaKeywords schema kind = .ok ()) :
    Keywords schema kind.keywords := by
  simp only [schemaKeywords, require_eq_ok, Bool.and_eq_true, List.all_eq_true,
    List.contains_iff_mem] at h
  refine ⟨h.1, fun v hv => ?_⟩
  rw [hv] at h
  cases v with
  | arr values => exact ⟨values, rfl⟩
  | _ => cases h.2

omit [Platform] in
theorem missingKey_eq_false {keys : List Json} (fields : Dict Json)
    (hkeys : ∀ key ∈ keys, isStr key = true) :
    missingKey keys fields = false ↔ ∀ key, .str key ∈ keys → (fields.lookup key).isSome := by
  simp only [missingKey, List.any_eq_false]
  constructor
  · intro h key hkey
    simpa using h _ hkey
  · intro h key hkey
    cases key with
    | str k => simpa using h k hkey
    | _ => cases hkeys _ hkey

omit [Platform] in
theorem all_isStr {keys : List Json} (h : keys.all isStr = true) :
    ∃ names : List String, keys = names.map .str := by
  induction keys with
  | nil => exact ⟨[], rfl⟩
  | cons key keys ih =>
      simp only [List.all_cons, Bool.and_eq_true] at h
      obtain ⟨names, rfl⟩ := ih h.2
      cases key with
      | str k => exact ⟨k :: names, rfl⟩
      | _ => cases h.1

omit [Platform] in
/-- The parts of an object schema that passes. -/
theorem objectSchema_ok {schema : Dict Json} (h : objectSchema schema = .ok ()) :
    ∃ (properties : Dict Json) (required : List String) (additional : Bool),
      (schema.lookup "properties").getD (.obj []) = .obj properties ∧
      (schema.lookup "required").getD (.arr []) = .arr (required.map .str) ∧
      (∀ key ∈ required, (properties.lookup key).isSome) ∧
      (schema.lookup "additionalProperties").getD (.bool false) = .bool additional := by
  unfold objectSchema at h
  split at h
  · rename_i properties required additional hproperties hrequired hadditional
    simp only [require_eq_ok, Bool.and_eq_true, Bool.not_eq_true'] at h
    obtain ⟨names, rfl⟩ := all_isStr h.1
    refine ⟨properties, names, additional, hproperties, hrequired, fun key hkey => ?_, hadditional⟩
    exact (missingKey_eq_false _ (List.all_eq_true.mp h.1)).mp h.2 key (List.mem_map_of_mem hkey)
  · cases h

omit [Platform] in
theorem ofName_scalar {name : String} {kind : Kind} (h : Kind.ofName name = some kind)
    (hobject : kind ≠ .object) (harray : kind ≠ .array) :
    name ∈ ["string", "integer", "number", "boolean", "null"] ∧ kind.keywords = ["type", "enum"] := by
  unfold Kind.ofName at h
  split at h <;> cases h <;> simp_all [Kind.keywords]

omit [Platform] in
theorem ofName_object {name : String} (h : Kind.ofName name = some .object) : name = "object" := by
  unfold Kind.ofName at h
  split at h <;> cases h
  rfl

omit [Platform] in
theorem ofName_array {name : String} (h : Kind.ofName name = some .array) : name = "array" := by
  unfold Kind.ofName at h
  split at h <;> cases h
  rfl

omit [Platform] in
mutual
/-- What `check_schema` accepts is in the grammar. -/
theorem schema_of_check : ∀ v : Json, checkSchema v = .ok () → Schema v
  | .obj schema, h => by
      rw [checkSchema, Except.bind_eq_ok] at h
      obtain ⟨kind, hkind, h⟩ := h
      obtain ⟨name, htype, hname⟩ := schemaKind_ok hkind
      cases kind with
      | object =>
          simp only [Except.bind_eq_ok] at h
          obtain ⟨_, hobject, _, hchildren, hkeywords⟩ := h
          obtain ⟨properties, required, additional, hprops, hreq, hdeclared, hadd⟩ :=
            objectSchema_ok hobject
          obtain rfl := ofName_object hname
          exact .object htype (keywords_ok hkeywords) hprops hreq hdeclared hadd
            (properties_of_check schema hchildren properties hprops)
      | array =>
          simp only [Except.bind_eq_ok] at h
          obtain ⟨_, hitems, hkeywords⟩ := h
          obtain ⟨child, hchild, hschema⟩ := items_of_check schema hitems
          obtain rfl := ofName_array hname
          exact .array htype (keywords_ok hkeywords) hchild hschema
      | _ =>
          have hscalar := ofName_scalar hname (by simp) (by simp)
          exact .scalar htype hscalar.1 (keywords_ok h)
  | .null, h => by cases h
  | .bool _, h => by cases h
  | .int _, h => by cases h
  | .float _, h => by cases h
  | .nonFinite _, h => by cases h
  | .str _, h => by cases h
  | .arr _, h => by cases h

theorem properties_of_check : ∀ schema : List (String × Json), checkProperties schema = .ok () →
    ∀ properties, (schema.lookup "properties").getD (.obj []) = .obj properties →
      ∀ f ∈ properties, Schema f.2
  | [], _, properties, hprops, f, hf => by
      cases hprops
      cases hf
  | (key, v) :: rest, h, properties, hprops, f, hf => by
      by_cases hkey : key = "properties"
      · subst hkey
        simp only [List.lookup_cons_self, Option.getD_some] at hprops
        subst hprops
        rw [checkProperties, if_pos rfl] at h
        exact children_of_check properties h f hf
      · have hlookup : ((key, v) :: rest).lookup "properties" = rest.lookup "properties" := by
          rw [List.lookup_cons, beq_false_of_ne (Ne.symm hkey)]
        rw [hlookup] at hprops
        have hrest : checkProperties rest = .ok () := by
          cases v <;> simpa [checkProperties, hkey] using h
        exact properties_of_check rest hrest properties hprops f hf

theorem children_of_check : ∀ properties : List (String × Json),
    checkChildren properties = .ok () → ∀ f ∈ properties, Schema f.2
  | [], _, f, hf => by cases hf
  | (_, child) :: rest, h, f, hf => by
      rw [checkChildren] at h
      simp only [Except.bind_eq_ok] at h
      obtain ⟨_, hchild, hrest⟩ := h
      cases List.mem_cons.mp hf with
      | inl heq => exact heq ▸ schema_of_check child hchild
      | inr htail => exact children_of_check rest hrest f htail

theorem items_of_check : ∀ schema : List (String × Json), checkItems schema = .ok () →
    ∃ child, schema.lookup "items" = some child ∧ Schema child
  | [], h => by cases h
  | (key, child) :: rest, h => by
      rw [checkItems] at h
      by_cases hkey : key = "items"
      · subst hkey
        rw [if_pos rfl] at h
        exact ⟨child, List.lookup_cons_self, schema_of_check child h⟩
      · rw [if_neg hkey] at h
        obtain ⟨found, hfound, hschema⟩ := items_of_check rest h
        exact ⟨found, by rw [List.lookup_cons, beq_false_of_ne (Ne.symm hkey), hfound], hschema⟩
end

/-! ## The rules, by the type of the schema -/

omit [Platform] in
theorem OfType.name {name : String} {v : Json} (h : OfType name v) :
    name ≠ "object" ∧ name ≠ "array" := by
  cases h <;> simp

theorem inhabits_object {schema : Dict Json} {v : Json}
    (htype : schema.lookup "type" = some (.str "object")) :
    Inhabits (.obj schema) v ↔ ∃ fields, v = .obj fields ∧ Enumerated schema v ∧
      (∀ key, .str key ∈ requiredOf schema → (fields.lookup key).isSome) ∧
      (¬Open schema → ∀ f ∈ fields, ((propertiesOf schema).lookup f.1).isSome) ∧
      ∀ f ∈ fields, ∀ child, (propertiesOf schema).lookup f.1 = some child →
        Inhabits child f.2 := by
  constructor
  · intro h
    cases h with
    | object _ henum hrequired hclosed hproperties =>
        exact ⟨_, rfl, henum, hrequired, hclosed, hproperties⟩
    | array hother => simp [htype] at hother
    | scalar hother hof =>
        rw [htype, Option.some.injEq, Json.str.injEq] at hother
        exact absurd hother.symm hof.name.1
  · intro ⟨fields, hv, henum, hrequired, hclosed, hproperties⟩
    subst hv
    exact .object htype henum hrequired hclosed hproperties

theorem inhabits_array {schema : Dict Json} {v child : Json}
    (htype : schema.lookup "type" = some (.str "array"))
    (hchild : schema.lookup "items" = some child) :
    Inhabits (.obj schema) v ↔ ∃ items, v = .arr items ∧ Enumerated schema v ∧
      ∀ item ∈ items, Inhabits child item := by
  constructor
  · intro h
    cases h with
    | object hother => simp [htype] at hother
    | array _ henum hother hitems =>
        cases hchild.symm.trans hother
        exact ⟨_, rfl, henum, hitems⟩
    | scalar hother hof =>
        rw [htype, Option.some.injEq, Json.str.injEq] at hother
        exact absurd hother.symm hof.name.2
  · intro ⟨items, hv, henum, hitems⟩
    subst hv
    exact .array htype henum hchild hitems

theorem inhabits_scalar {schema : Dict Json} {v : Json} {name : String}
    (htype : schema.lookup "type" = some (.str name))
    (hname : name ∈ ["string", "integer", "number", "boolean", "null"]) :
    Inhabits (.obj schema) v ↔ OfType name v ∧ Enumerated schema v := by
  constructor
  · intro h
    cases h with
    | object hother =>
        cases htype.symm.trans hother
        simp at hname
    | array hother =>
        cases htype.symm.trans hother
        simp at hname
    | scalar hother hof henum =>
        cases htype.symm.trans hother
        exact ⟨hof, henum⟩
  · intro ⟨hof, henum⟩
    exact .scalar htype hof henum

omit [Platform] in
theorem hasKind_object {v : Json} : hasKind .object v = true ↔ ∃ fields, v = .obj fields := by
  cases v <;> simp [hasKind]

omit [Platform] in
theorem hasKind_array {v : Json} : hasKind .array v = true ↔ ∃ items, v = .arr items := by
  cases v <;> simp [hasKind]

omit [Platform] in
theorem hasKind_scalar {name : String} {kind : Kind} {v : Json}
    (hname : Kind.ofName name = some kind) (hobject : kind ≠ .object) (harray : kind ≠ .array) :
    hasKind kind v = true ↔ OfType name v := by
  constructor
  · intro h
    unfold Kind.ofName at hname
    split at hname <;> cases hname <;> cases v <;> simp_all [hasKind] <;> constructor
  · intro h
    cases h <;> cases hname <;> rfl

/-! ## What `validate_schema` does first -/

/-- The checks that do not recurse pass, or raise a `ValueError`. -/
theorem schemaHead_exact {schema : Dict Json} {name : String} {kind : Kind} {v : Json}
    {allowed : List String} (hkeywords : Keywords schema allowed)
    (hallowed : ∀ key ∈ allowed,
      key ∈ ["type", "properties", "required", "additionalProperties", "items", "enum"])
    (htype : schema.lookup "type" = some (.str name)) (hname : Kind.ofName name = some kind) :
    ((hasKind kind v = true ∧ Enumerated schema v) ∧ schemaHead (.obj schema) v = .ok (schema, kind)) ∨
      (¬(hasKind kind v = true ∧ Enumerated schema v) ∧
        ∃ m, schemaHead (.obj schema) v = .error (.valueError m)) := by
  have hknown : schema.all (fun f => ["type", "properties", "required", "additionalProperties",
      "items", "enum"].contains f.1) = true := by
    rw [List.all_eq_true]
    intro f hf
    exact List.contains_iff_mem.mpr (hallowed _ (hkeywords.known f hf))
  have hkind : schemaKind schema (.valueError "Invalid argument type") = .ok kind := by
    simp [schemaKind, htype, hname, orRaise]
  simp only [schemaHead, hknown, hkind, require, bind, Except.bind, if_true]
  cases hof : hasKind kind v with
  | false => exact .inr ⟨fun h => (by cases h.1), _, rfl⟩
  | true =>
      cases henum : schema.lookup "enum" with
      | none =>
          refine .inl ⟨⟨rfl, fun allowed h => ?_⟩, rfl⟩
          rw [henum] at h
          cases h
      | some listed =>
          obtain ⟨values, rfl⟩ := hkeywords.listed _ henum
          have hiff : Enumerated schema v ↔ values.any (pyEq v) = true := by
            rw [List.any_eq_true]
            constructor
            · intro h
              exact h values henum
            · intro h allowed hallowed
              rw [henum] at hallowed
              cases hallowed
              exact h
          cases hany : values.any (pyEq v) with
          | false =>
              refine .inr ⟨fun h => ?_, "Invalid argument value", ?_⟩
              · rw [hiff.mp h.2] at hany
                cases hany
              · simp [memberOf, hany]
          | true => exact .inl ⟨⟨rfl, hiff.mpr hany⟩, by simp [memberOf, hany, pure, Except.pure]⟩

theorem validateSchema_refused {schema v : Json} {e : Exn}
    (h : schemaHead schema v = .error e) : validateSchema schema v = .error e := by
  cases v <;> simp [validateSchema, h, bind, Except.bind]

/-! ## What `validate_schema` does with the parts -/

omit [Platform] in
/-- A check passes, and so does what follows. -/
theorem check_bind_ok {α : Type} {x : Except Exn Unit} {f : Unit → Except Exn α} {a : α} :
    (x >>= f) = .ok a ↔ x = .ok () ∧ f () = .ok a := by
  cases x <;> simp [bind, Except.bind]

theorem validateFields_ok {properties : Dict Json} {fields : List (String × Json)} :
    validateFields properties fields = .ok () ↔ ∀ f ∈ fields, ∀ child,
      properties.lookup f.1 = some child → validateSchema child f.2 = .ok () := by
  induction fields with
  | nil => simp [validateFields]
  | cons f rest ih =>
      obtain ⟨key, item⟩ := f
      rw [validateFields, List.forall_mem_cons, ← ih]
      cases hchild : properties.lookup key with
      | none => simp
      | some child => simp [check_bind_ok]

theorem validateFields_error {properties : Dict Json} {fields : List (String × Json)} {e : Exn}
    (h : validateFields properties fields = .error e) :
    ∃ f ∈ fields, ∃ child, properties.lookup f.1 = some child ∧
      validateSchema child f.2 = .error e := by
  induction fields with
  | nil => cases h
  | cons f rest ih =>
      obtain ⟨key, item⟩ := f
      rw [validateFields] at h
      cases hchild : properties.lookup key with
      | none =>
          simp only [hchild] at h
          obtain ⟨f, hf, hrest⟩ := ih h
          exact ⟨f, List.mem_cons_of_mem _ hf, hrest⟩
      | some child =>
          simp only [hchild, Except.bind_eq_error] at h
          cases h with
          | inl hitem => exact ⟨(key, item), by simp, child, hchild, hitem⟩
          | inr hlater =>
              obtain ⟨_, _, hlater⟩ := hlater
              obtain ⟨f, hf, hrest⟩ := ih hlater
              exact ⟨f, List.mem_cons_of_mem _ hf, hrest⟩

theorem validateItems_ok {schema : Json} {items : List Json} :
    validateItems schema items = .ok () ↔ ∀ item ∈ items, validateSchema schema item = .ok () := by
  induction items with
  | nil => simp [validateItems]
  | cons item rest ih => simp [validateItems, check_bind_ok, ih]

theorem validateItems_error {schema : Json} {items : List Json} {e : Exn}
    (h : validateItems schema items = .error e) :
    ∃ item ∈ items, validateSchema schema item = .error e := by
  induction items with
  | nil => cases h
  | cons item rest ih =>
      rw [validateItems, Except.bind_eq_error] at h
      cases h with
      | inl hitem => exact ⟨item, by simp, hitem⟩
      | inr hlater =>
          obtain ⟨_, _, hlater⟩ := hlater
          obtain ⟨other, hother, hrest⟩ := ih hlater
          exact ⟨other, List.mem_cons_of_mem _ hother, hrest⟩

omit [Platform] in
theorem propertiesOf_eq {schema properties : Dict Json}
    (h : (schema.lookup "properties").getD (.obj []) = .obj properties) :
    propertiesOf schema = properties := by
  unfold propertiesOf
  cases hlookup : schema.lookup "properties" with
  | none => simpa [hlookup] using h
  | some v =>
      rw [hlookup, Option.getD_some] at h
      subst h
      rfl

omit [Platform] in
theorem requiredOf_eq {schema : Dict Json} {required : List Json}
    (h : (schema.lookup "required").getD (.arr []) = .arr required) :
    requiredOf schema = required := by
  unfold requiredOf
  cases hlookup : schema.lookup "required" with
  | none => simpa [hlookup] using h
  | some v =>
      rw [hlookup, Option.getD_some] at h
      subst h
      rfl

omit [Platform] in
theorem open_iff {schema : Dict Json} {additional : Bool}
    (h : (schema.lookup "additionalProperties").getD (.bool false) = .bool additional) :
    Open schema ↔ additional = true := by
  unfold Open
  cases hlookup : schema.lookup "additionalProperties" with
  | none => simpa [hlookup, eq_comm] using h
  | some v =>
      rw [hlookup, Option.getD_some] at h
      subst h
      simp

omit [Platform] in
/-- Of an object with the declared parts, `validate_schema` asks for the required keys, and
for no others unless the schema is open. -/
theorem objectShape_exact {schema properties : Dict Json} {required : List String}
    {additional : Bool} (fields : Dict Json)
    (hproperties : (schema.lookup "properties").getD (.obj []) = .obj properties)
    (hrequired : (schema.lookup "required").getD (.arr []) = .arr (required.map .str))
    (hadditional : (schema.lookup "additionalProperties").getD (.bool false) = .bool additional) :
    (((∀ key ∈ required, (fields.lookup key).isSome) ∧
        (additional = false → ∀ f ∈ fields, (properties.lookup f.1).isSome)) ∧
      objectShape schema fields = .ok properties) ∨
    (¬((∀ key ∈ required, (fields.lookup key).isSome) ∧
        (additional = false → ∀ f ∈ fields, (properties.lookup f.1).isSome)) ∧
      ∃ m, objectShape schema fields = .error (.valueError m)) := by
  have hstr : ∀ key ∈ required.map Json.str, isStr key = true := by
    intro key hkey
    obtain ⟨name, -, rfl⟩ := List.mem_map.mp hkey
    rfl
  have hhashable : (required.map Json.str).all objectShape.hashableName = true := by
    rw [List.all_eq_true]
    intro key hkey
    obtain ⟨name, -, rfl⟩ := List.mem_map.mp hkey
    rfl
  have hmissing := missingKey_eq_false fields hstr
  simp only [List.mem_map, Json.str.injEq, exists_eq_right] at hmissing
  simp only [objectShape, hproperties, hrequired, hadditional, hhashable, require, bind,
    Except.bind, if_true]
  cases hmiss : missingKey (required.map Json.str) fields with
  | true =>
      refine .inr ⟨fun h => ?_, _, rfl⟩
      rw [hmissing.mpr h.1] at hmiss
      cases hmiss
  | false =>
      cases hall : fields.all (fun f => (properties.lookup f.1).isSome) with
      | true =>
          refine .inl ⟨⟨hmissing.mp hmiss, fun _ => List.all_eq_true.mp hall⟩, ?_⟩
          simp [pure, Except.pure]
      | false =>
          cases additional with
          | true => exact .inl ⟨⟨hmissing.mp hmiss, fun h => (by cases h)⟩, rfl⟩
          | false =>
              refine .inr ⟨fun h => ?_, _, rfl⟩
              rw [List.all_eq_true.mpr (h.2 rfl)] at hall
              cases hall

/-! ## Deciding inhabitance -/

/-- On this schema and value `validate_schema` accepts what inhabits the schema, and raises a
`ValueError` otherwise. -/
def Decides (schema v : Json) : Prop :=
  (Inhabits schema v ∧ validateSchema schema v = .ok ()) ∨
    (¬Inhabits schema v ∧ ∃ m, validateSchema schema v = .error (.valueError m))

theorem Decides.iff {schema v : Json} (h : Decides schema v) :
    validateSchema schema v = .ok () ↔ Inhabits schema v := by
  cases h with
  | inl h => simp [h.1, h.2]
  | inr h =>
      obtain ⟨hnot, m, herror⟩ := h
      simp [hnot, herror]

theorem Decides.valueError {schema v : Json} {e : Exn} (h : Decides schema v)
    (he : validateSchema schema v = .error e) : ∃ m, e = .valueError m := by
  cases h with
  | inl h =>
      rw [h.2] at he
      cases he
  | inr h =>
      obtain ⟨-, m, herror⟩ := h
      rw [herror] at he
      exact ⟨m, (Except.error.inj he).symm⟩

theorem decides_scalar {schema : Dict Json} {name : String} {v : Json}
    (htype : schema.lookup "type" = some (.str name))
    (hname : name ∈ ["string", "integer", "number", "boolean", "null"])
    (hkeywords : Keywords schema ["type", "enum"]) : Decides (.obj schema) v := by
  obtain ⟨kind, hkind, hobject, harray⟩ : ∃ kind, Kind.ofName name = some kind ∧
      kind ≠ .object ∧ kind ≠ .array := by
    simp only [List.mem_cons, List.not_mem_nil, or_false] at hname
    rcases hname with rfl | rfl | rfl | rfl | rfl <;> exact ⟨_, rfl, by decide, by decide⟩
  have hiff := inhabits_scalar (v := v) htype hname
  rw [← hasKind_scalar hkind hobject harray] at hiff
  cases schemaHead_exact (v := v) hkeywords (by simp) htype hkind with
  | inl h =>
      refine .inl ⟨hiff.mpr h.1, ?_⟩
      have hof := h.1.1
      cases v with
      | obj fields => cases kind <;> simp_all [hasKind]
      | arr items => cases kind <;> simp_all [hasKind]
      | _ => simp [validateSchema, h.2, bind, Except.bind, pure, Except.pure]
  | inr h =>
      obtain ⟨hnot, m, herror⟩ := h
      exact .inr ⟨fun hin => hnot (hiff.mp hin), m, validateSchema_refused herror⟩

theorem decides_array {schema : Dict Json} {child v : Json}
    (htype : schema.lookup "type" = some (.str "array"))
    (hkeywords : Keywords schema ["type", "enum", "items"])
    (hitems : schema.lookup "items" = some child) (hchild : ∀ item, Decides child item) :
    Decides (.obj schema) v := by
  have hiff := inhabits_array (v := v) htype hitems
  have hkind : Kind.ofName "array" = some .array := rfl
  cases schemaHead_exact (v := v) hkeywords (by simp) htype hkind with
  | inr h =>
      obtain ⟨hnot, m, herror⟩ := h
      refine .inr ⟨fun hin => hnot ?_, m, validateSchema_refused herror⟩
      obtain ⟨items, rfl, henum, -⟩ := hiff.mp hin
      exact ⟨rfl, henum⟩
  | inl h =>
      obtain ⟨⟨hof, henum⟩, hhead⟩ := h
      obtain ⟨items, rfl⟩ := hasKind_array.mp hof
      have hvalidate : validateSchema (.obj schema) (.arr items) = validateItems child items := by
        simp [validateSchema, hhead, hitems, orRaise, bind, Except.bind]
      cases hrest : validateItems child items with
      | ok u =>
          refine .inl ⟨hiff.mpr ⟨items, rfl, henum, fun item hitem => ?_⟩, hvalidate.trans hrest⟩
          exact (hchild item).iff.mp (validateItems_ok.mp hrest item hitem)
      | error e =>
          obtain ⟨item, hitem, herror⟩ := validateItems_error hrest
          obtain ⟨m, rfl⟩ := (hchild item).valueError herror
          refine .inr ⟨fun hin => ?_, m, hvalidate.trans hrest⟩
          obtain ⟨others, hothers, -, hall⟩ := hiff.mp hin
          cases hothers
          rw [(hchild item).iff.mpr (hall item hitem)] at herror
          cases herror

theorem decides_object {schema properties : Dict Json} {required : List String} {additional : Bool}
    {v : Json} (htype : schema.lookup "type" = some (.str "object"))
    (hkeywords : Keywords schema ["type", "enum", "properties", "required", "additionalProperties"])
    (hproperties : (schema.lookup "properties").getD (.obj []) = .obj properties)
    (hrequired : (schema.lookup "required").getD (.arr []) = .arr (required.map .str))
    (hadditional : (schema.lookup "additionalProperties").getD (.bool false) = .bool additional)
    (hchildren : ∀ f ∈ properties, ∀ item, Decides f.2 item) : Decides (.obj schema) v := by
  have hiff := inhabits_object (v := v) htype
  have hkind : Kind.ofName "object" = some .object := rfl
  cases schemaHead_exact (v := v) hkeywords (by simp) htype hkind with
  | inr h =>
      obtain ⟨hnot, m, herror⟩ := h
      refine .inr ⟨fun hin => hnot ?_, m, validateSchema_refused herror⟩
      obtain ⟨fields, rfl, henum, -⟩ := hiff.mp hin
      exact ⟨rfl, henum⟩
  | inl h =>
      obtain ⟨⟨hof, henum⟩, hhead⟩ := h
      obtain ⟨fields, rfl⟩ := hasKind_object.mp hof
      have hdecides (f : String × Json) (child : Json)
          (hchild : properties.lookup f.1 = some child) : Decides child f.2 :=
        hchildren _ (mem_of_lookup hchild) f.2
      rw [propertiesOf_eq hproperties, open_iff hadditional] at hiff
      simp only [requiredOf_eq hrequired, List.mem_map, Json.str.injEq, exists_eq_right,
        Bool.not_eq_true] at hiff
      cases objectShape_exact fields hproperties hrequired hadditional with
      | inr hshape =>
          obtain ⟨hnot, m, herror⟩ := hshape
          refine .inr ⟨fun hin => hnot ?_, m, ?_⟩
          · obtain ⟨others, hothers, -, hkeys, hclosed, -⟩ := hiff.mp hin
            cases hothers
            exact ⟨hkeys, hclosed⟩
          · simp [validateSchema, hhead, herror, bind, Except.bind]
      | inl hshape =>
          obtain ⟨⟨hkeys, hclosed⟩, hok⟩ := hshape
          have hvalidate : validateSchema (.obj schema) (.obj fields) =
              validateFields properties fields := by
            simp [validateSchema, hhead, hok, bind, Except.bind]
          cases hrest : validateFields properties fields with
          | ok u =>
              refine .inl ⟨hiff.mpr ⟨fields, rfl, henum, hkeys, hclosed, ?_⟩,
                hvalidate.trans hrest⟩
              intro f hf child hchild
              exact (hdecides f child hchild).iff.mp (validateFields_ok.mp hrest f hf child hchild)
          | error e =>
              obtain ⟨f, hf, child, hchild, herror⟩ := validateFields_error hrest
              obtain ⟨m, rfl⟩ := (hdecides f child hchild).valueError herror
              refine .inr ⟨fun hin => ?_, m, hvalidate.trans hrest⟩
              obtain ⟨others, hothers, -, -, -, hall⟩ := hiff.mp hin
              cases hothers
              rw [(hdecides f child hchild).iff.mpr (hall f hf child hchild)] at herror
              cases herror

/-- The two recursions cover one grammar: what `check_schema` accepts has only the keywords of
its types at every depth, and `validate_schema` decides inhabitance of it, raising nothing but
`ValueError`. -/
theorem schema_dialect_exact {schema : Json} (h : checkSchema schema = .ok ()) :
    Schema schema ∧ ∀ v, (validateSchema schema v = .ok () ↔ Inhabits schema v) ∧
      ∀ e, validateSchema schema v = .error e → ∃ m, e = .valueError m := by
  have hschema := schema_of_check schema h
  refine ⟨hschema, fun v => ?_⟩
  have hdecides : Decides schema v := by
    clear h
    induction hschema generalizing v with
    | object htype hkeywords hproperties hrequired _ hadditional _ ih =>
        exact decides_object htype hkeywords hproperties hrequired hadditional ih
    | array htype hkeywords hitems _ ih => exact decides_array htype hkeywords hitems ih
    | scalar htype hname hkeywords => exact decides_scalar htype hname hkeywords
  exact ⟨hdecides.iff, fun e he => hdecides.valueError he⟩

end Dialect

section Example

local instance schemaDialectPlatform : Platform := .reference []

/-- An object with a required integer, and a list of names. -/
def sampleSchema : Json :=
  .obj [("type", .str "object"), ("required", .arr [.str "count"]),
    ("properties", .obj [("count", .obj [("type", .str "integer")]),
      ("names", .obj [("type", .str "array"), ("items", .obj [("type", .str "string")])])])]

theorem schema_dialect_exact_sample :
    Inhabits sampleSchema (.obj [("count", .int 2), ("names", .arr [.str "a", .str "b"])]) := by
  have hcheck : checkSchema sampleSchema = .ok () := rfl
  exact ((schema_dialect_exact hcheck).2 _).1.mp rfl

end Example

end Dante
