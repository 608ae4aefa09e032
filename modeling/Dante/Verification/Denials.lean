import Dante.Model.Preflight

/-! # The preflight denies, and never raises

Each of its blocks catches everything that its checks can raise. -/

namespace Dante

open JsonText

section Checks

variable [Platform]

/-! ## Checks and what they raise -/

/-- The check raises only what `caught` selects. -/
def Raises (caught : Exn → Bool) {α : Type} (x : Except Exn α) : Prop :=
  ∀ e, x = .error e → caught e = true

variable {caught : Exn → Bool} {α β : Type}

omit [Platform] in
theorem Raises.pure (a : α) : Raises caught (.ok a : Except Exn α) := by
  intro e h
  cases h

omit [Platform] in
theorem Raises.bind {x : Except Exn α} {f : α → Except Exn β} (hx : Raises caught x)
    (hf : ∀ a, x = .ok a → Raises caught (f a)) : Raises caught (x >>= f) := by
  intro e h
  cases Except.bind_eq_error.mp h with
  | inl h => exact hx e h
  | inr h =>
      obtain ⟨a, ha, h⟩ := h
      exact hf a ha e h

omit [Platform] in
theorem Raises.require {c : Bool} {e : Exn} (h : caught e = true) :
    Raises caught (Dante.require c e) := by
  intro e' he
  rw [require_eq_error] at he
  rw [← he.2]
  exact h

omit [Platform] in
theorem Raises.orRaise {x : Option α} {e : Exn} (h : caught e = true) :
    Raises caught (Dante.orRaise x e) := by
  intro e' he
  rw [orRaise_eq_error] at he
  rw [← he.2]
  exact h

omit [Platform] in
theorem Raises.error {e : Exn} (h : caught e = true) :
    Raises caught (.error e : Except Exn α) := by
  intro e' he
  cases he
  exact h

omit [Platform] in
theorem raises_schemaKind {schema : Dict Json} {m : String} :
    Raises Exn.isSchemaError (schemaKind schema (.valueError m)) := by
  unfold schemaKind
  split
  · exact .orRaise rfl
  · exact .error rfl
  · exact .error rfl
  · exact .error rfl

omit [Platform] in
theorem raises_objectSchema {schema : Dict Json} :
    Raises Exn.isSchemaError (objectSchema schema) := by
  unfold objectSchema
  split
  · exact .require rfl
  · exact .error rfl

omit [Platform] in
mutual
theorem raises_checkSchema : ∀ v : Json, Raises Exn.isSchemaError (checkSchema v)
  | .obj schema => by
      rw [checkSchema]
      refine raises_schemaKind.bind fun kind _ => ?_
      cases kind with
      | object =>
          refine raises_objectSchema.bind fun _ _ => ?_
          exact (raises_checkProperties schema).bind fun _ _ => .require rfl
      | array => exact (raises_checkItems schema).bind fun _ _ => .require rfl
      | _ => exact .require rfl
  | .null => .error rfl
  | .bool _ => .error rfl
  | .int _ => .error rfl
  | .float _ => .error rfl
  | .nonFinite _ => .error rfl
  | .str _ => .error rfl
  | .arr _ => .error rfl
theorem raises_checkProperties :
    ∀ schema : List (String × Json), Raises Exn.isSchemaError (checkProperties schema)
  | [] => .pure ()
  | (key, v) :: rest => by
      have hrest := raises_checkProperties rest
      by_cases hkey : key = "properties"
      · cases v with
        | obj properties =>
            rw [checkProperties, if_pos hkey]
            exact raises_checkChildren properties
        | _ => simpa [checkProperties, hkey] using Raises.pure ()
      · cases v <;> simpa [checkProperties, hkey] using hrest
theorem raises_checkChildren :
    ∀ properties : List (String × Json), Raises Exn.isSchemaError (checkChildren properties)
  | [] => .pure ()
  | (_, child) :: rest =>
      (raises_checkSchema child).bind fun _ _ => raises_checkChildren rest
theorem raises_checkItems :
    ∀ schema : List (String × Json), Raises Exn.isSchemaError (checkItems schema)
  | [] => .error rfl
  | (key, child) :: rest => by
      rw [checkItems]
      split
      · exact raises_checkSchema child
      · exact raises_checkItems rest
end

theorem raises_memberOf {v container : Json} :
    Raises Exn.isSchemaError (memberOf v container) := by
  cases container with
  | arr items => exact .pure _
  | obj fields => cases v <;> first | exact .pure _ | exact .error rfl
  | str text => cases v <;> first | exact .pure _ | exact .error rfl
  | _ => exact .error rfl

theorem raises_schemaHead {schema v : Json} : Raises Exn.isSchemaError (schemaHead schema v) := by
  unfold schemaHead
  split
  · refine .bind (.require rfl) fun _ _ => raises_schemaKind.bind fun kind _ => ?_
    refine .bind (.require rfl) fun _ _ => ?_
    split
    · exact .pure _
    · exact raises_memberOf.bind fun _ _ => .bind (.require rfl) fun _ _ => .pure _
  · exact .error rfl

omit [Platform] in
theorem raises_objectShape {schema fields : Dict Json} :
    Raises Exn.isSchemaError (objectShape schema fields) := by
  unfold objectShape
  split
  · refine .bind (.require rfl) fun _ _ => .bind (.require rfl) fun _ _ => ?_
    exact .bind (.require rfl) fun _ _ => .pure _
  · exact .error rfl

mutual
theorem raises_validateSchema (schema : Json) :
    ∀ v : Json, Raises Exn.isSchemaError (validateSchema schema v)
  | .obj fields => by
      rw [validateSchema]
      refine raises_schemaHead.bind fun head _ => raises_objectShape.bind fun properties _ => ?_
      exact raises_validateFields properties fields
  | .arr items => by
      rw [validateSchema]
      refine raises_schemaHead.bind fun head _ => .bind (.orRaise rfl) fun itemSchema _ => ?_
      exact raises_validateItems itemSchema items
  | .null => raises_schemaHead.bind fun _ _ => .pure ()
  | .bool _ => raises_schemaHead.bind fun _ _ => .pure ()
  | .int _ => raises_schemaHead.bind fun _ _ => .pure ()
  | .float _ => raises_schemaHead.bind fun _ _ => .pure ()
  | .nonFinite _ => raises_schemaHead.bind fun _ _ => .pure ()
  | .str _ => raises_schemaHead.bind fun _ _ => .pure ()
theorem raises_validateFields (properties : Dict Json) :
    ∀ fields : List (String × Json), Raises Exn.isSchemaError (validateFields properties fields)
  | [] => .pure ()
  | (key, item) :: rest => by
      have hitem (child : Json) := raises_validateSchema child item
      rw [validateFields]
      cases properties.lookup key with
      | none => exact raises_validateFields properties rest
      | some child => exact (hitem child).bind fun _ _ => raises_validateFields properties rest
theorem raises_validateItems (itemSchema : Json) :
    ∀ items : List Json, Raises Exn.isSchemaError (validateItems itemSchema items)
  | [] => .pure ()
  | item :: rest =>
      (raises_validateSchema itemSchema item).bind fun _ _ => raises_validateItems itemSchema rest
end

omit [Platform] in
theorem Raises.mono {caught' : Exn → Bool} {x : Except Exn α} (h : Raises caught x)
    (hcaught : ∀ e, caught e = true → caught' e = true) : Raises caught' x :=
  fun e he => hcaught e (h e he)

omit [Platform] in
/-- What the schema checks raise counts as a wrong argument, too. -/
theorem Raises.argument {x : Except Exn α} (h : Raises Exn.isSchemaError x) :
    Raises Exn.isArgumentError x := by
  apply h.mono
  intro e he
  cases e <;> first | rfl | cases he

theorem raises_digest {v : Json} : Raises Exn.isArgumentError (digest v) := by
  unfold digest
  split
  · exact .pure _
  · exact .error rfl

theorem raises_checkArguments {entry : Registered} {schema : Json} {arguments : Dict Json} :
    Raises Exn.isArgumentError (checkArguments entry schema arguments) := by
  unfold checkArguments
  refine raises_digest.bind fun _ _ => ?_
  cases schema
  all_goals
    refine .bind ?_ fun kind _ => .bind (.require rfl) fun _ _ =>
      (raises_validateSchema _ _).argument.bind fun _ _ => ?_
    · first
      | exact .pure _
      | exact .error rfl
    · cases entry.wrapper with
      | none => exact .pure ()
      | some method => exact (raises_validateSchema _ _).argument

omit [Platform] in
theorem raises_resolve {fs : FileSystem} {path : String} :
    Raises Exn.isScopeError (fs.resolve path) := by
  intro e he
  unfold FileSystem.resolve at he
  cases hresolution : fs.resolution path with
  | ok resolved =>
      rw [hresolution] at he
      cases he
  | error problem =>
      rw [hresolution] at he
      cases he
      cases problem <;> rfl

theorem raises_containedPath {fs : FileSystem} {root value : String} :
    Raises Exn.isScopeError (containedPath fs root value) := by
  unfold containedPath
  refine .bind (.require rfl) fun _ _ => .bind (.require rfl) fun _ _ => ?_
  refine .bind (.require rfl) fun _ _ => raises_resolve.bind fun _ _ => ?_
  exact raises_resolve.bind fun _ _ => .bind (.require rfl) fun _ _ => .pure _

omit [Platform] in
theorem raises_checkWrapper {fs : FileSystem} {entry : Registered} {root : String} :
    Raises Exn.isScopeError (checkWrapper fs entry root) := by
  unfold checkWrapper
  split
  · exact .pure ()
  · exact raises_resolve.bind fun _ _ => .require rfl

omit [Platform] in
theorem raises_forM {f : α → Except Exn Unit} (hf : ∀ a, Raises caught (f a)) {l : List α} :
    Raises caught (l.forM f) := by
  induction l with
  | nil => exact .pure ()
  | cons a l ih => exact (hf a).bind fun _ _ => ih

theorem raises_checkScope {fs : FileSystem} {entry : Registered} {required : Finset String}
    {workspace : String} {arguments : Dict Json} :
    Raises Exn.isScopeError (checkScope fs entry required workspace arguments) := by
  unfold checkScope
  by_cases hrequired : required.Nonempty
  · rw [if_pos hrequired]
    refine .bind (.require rfl) fun _ _ => raises_containedPath.bind fun _ _ => ?_
    refine raises_checkWrapper.bind fun _ _ => raises_forM fun declared => ?_
    unfold checkPath
    refine .bind (.require rfl) fun _ _ => ?_
    split
    · exact .pure ()
    · exact raises_containedPath.bind fun _ _ => .pure ()
    · exact .error rfl
  · rw [if_neg hrequired]
    exact .require rfl

/-- What the preflight denies with. -/
def PreflightDenial (result : ToolResult) : Prop :=
  result.status = .policyDenied ∨ result.status = .validationDenied

/-- The preflight returns, and denies with one of two statuses. -/
theorem preflight_returns (fs : FileSystem) (broker : ToolBroker) (task : Task) (toolId : String)
    (arguments : Dict Json) : ∃ denied, preflight fs broker task toolId arguments = .ok denied ∧
      ∀ result, denied = some result → PreflightDenial result := by
  have hpolicy : PreflightDenial (.denied .policyDenied) := .inl rfl
  have hvalidation : PreflightDenial (.denied .validationDenied) := .inr rfl
  have hdenied {status : ToolStatus} {block : Except Exn Unit} {caught : Exn → Bool}
      {rest : Except Exn (Option ToolResult)} (hblock : Raises caught block)
      (hstatus : PreflightDenial (.denied status))
      (hrest : ∃ denied, rest = .ok denied ∧ ∀ result, denied = some result →
        PreflightDenial result) :
      ∃ denied, deniedWhen caught status block rest = .ok denied ∧
        ∀ result, denied = some result → PreflightDenial result := by
    unfold deniedWhen
    cases hcase : block with
    | ok u => exact hrest
    | error e =>
        refine ⟨some (.denied status), by simp [hblock e hcase], fun result hresult => ?_⟩
        exact Option.some.inj hresult ▸ hstatus
  unfold preflight
  split
  · exact ⟨_, rfl, fun result hresult => Option.some.inj hresult ▸ hpolicy⟩
  · split
    · split
      · refine hdenied (raises_checkSchema _) hpolicy (hdenied raises_checkArguments hvalidation
          (hdenied raises_checkScope hpolicy ⟨none, rfl, fun result hresult => ?_⟩))
        cases hresult
      · exact ⟨_, rfl, fun result hresult => Option.some.inj hresult ▸ hpolicy⟩
    · exact ⟨_, rfl, fun result hresult => Option.some.inj hresult ▸ hpolicy⟩

end Checks

end Dante
