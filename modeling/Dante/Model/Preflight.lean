import Dante.Model.Evidence
import Dante.Model.Schema

/-! # Registered tools and what is checked before one runs -/

namespace Dante

open JsonText

variable [Platform]

/-! ## Registration -/

/-- A method of the workspace tools, with the scope and schema it was wrapped with. -/
structure WorkspaceMethod where
  root : String
  permission : String
  schema : Dict Json
  paths : Dict String

/-- An entry of `_tools`. The handler itself is foreign code; `wrapper` is what the broker
inspects of it. -/
structure Registered where
  manifest : ToolManifest
  wrapper : Option WorkspaceMethod
  required : Option (Finset String)

/-- `ToolBroker`, with its ledger. -/
structure ToolBroker where
  tools : Dict Registered

/-- The schema and paths of a wrapped method fill in a manifest without a schema. -/
def ToolManifest.wrapped (m : ToolManifest) (method : WorkspaceMethod) : ToolManifest :=
  match m.argumentsSchema with
  | some _ => m
  | none => { m with
      argumentsSchema := some (.obj method.schema), pathPermissions := method.paths }

/-- `register`. -/
def ToolBroker.register (broker : ToolBroker) (manifest : ToolManifest)
    (wrapper : Option WorkspaceMethod) (required : Option (Finset String)) : ToolBroker :=
  let entry : Registered :=
    match wrapper with
    | some method => ⟨manifest.wrapped method, some method, some {method.permission}⟩
    | none => ⟨manifest, none, required⟩
  ⟨broker.tools.set manifest.toolId entry⟩

def ToolResult.denied (status : ToolStatus) : ToolResult :=
  { status := status }

/-- `manifest`. -/
def ToolBroker.manifest (broker : ToolBroker) (toolId : String) : Except Exn ToolManifest := do
  let entry ← orRaise (broker.tools.lookup toolId) (.toolDenied (.denied .policyDenied))
  pure entry.manifest

/-! ## Preflight -/

/-- `contained_path`. -/
def containedPath (fs : FileSystem) (root value : String) : Except Exn String := do
  require (!(Platform.windowsParts value).contains ".." && !(Platform.parts value).contains "..")
    (.valueError "Traversal denied")
  require (Platform.windowsDrive value == "" || Platform.isAbsolute value)
    (.valueError "Ambiguous path")
  let candidate :=
    if Platform.isAbsolute value then Platform.pathText value else Platform.join root value
  require ((candidate :: Platform.parents candidate).all (fun part => !fs.isReparse part))
    (.valueError "Reparse path denied")
  let resolved ← fs.resolve candidate
  let base ← fs.resolve root
  require (Platform.isRelativeTo resolved base) (.valueError "not in the subpath")
  pure resolved

/-- The static part of the policy. -/
def ToolManifest.admissible (m : ToolManifest) (required : Finset String) : Bool :=
  required = m.permissions && required ⊆ {"read_workspace", "write_workspace"} &&
    (m.risk == "R0" || m.risk == "R1") && m.secretAccess == "none" &&
    m.networkScope == "none" && (m.approvalPolicy == "never" || m.approvalPolicy == "always") &&
    !(m.risk == "R0" && "write_workspace" ∈ required) && m.argumentsSchema.isSome &&
    !isBlank m.version && !isBlank m.toolId

/-- The second block of `preflight`: the arguments fit the schemas. -/
def checkArguments (entry : Registered) (schema : Json) (arguments : Dict Json) :
    Except Exn Unit := do
  let _ ← digest (.obj arguments)
  let kind ← match schema with
    | .obj fields => pure (fields.lookup "type")
    | _ => .error (.valueError "Object required")
  require (match kind with | some (.str name) => name == "object" | _ => false)
    (.valueError "Object required")
  validateSchema schema (.obj arguments)
  match entry.wrapper with
  | some method => validateSchema (.obj method.schema) (.obj arguments)
  | none => pure ()

/-- Each declared path argument lies below the tool's root. -/
def checkPath (fs : FileSystem) (required : Finset String) (root : String)
    (arguments : Dict Json) (declared : String × String) : Except Exn Unit := do
  require (declared.2 ∈ required) (.valueError "Undeclared path permission")
  match arguments.lookup declared.1 with
  | none => pure ()
  | some (.str path) =>
      let _ ← containedPath fs root path
      pure ()
  | some _ => .error (.valueError "Path must be a string")

/-- The scope of a wrapped method is the scope its manifest declares. -/
def checkWrapper (fs : FileSystem) (entry : Registered) (root : String) : Except Exn Unit :=
  match entry.wrapper with
  | none => .ok ()
  | some method => do
      let resolved ← fs.resolve root
      require (method.root == resolved && Dict.same entry.manifest.pathPermissions method.paths)
        (.valueError "Wrapper scope mismatch")

/-- The third block of `preflight`: the file system scope. -/
def checkScope (fs : FileSystem) (entry : Registered) (required : Finset String)
    (workspace : String) (arguments : Dict Json) : Except Exn Unit := do
  if required.Nonempty then
    let root := Platform.pathText entry.manifest.filesystemScope
    require (Platform.isAbsolute root && Platform.isAbsolute workspace)
      (.valueError "Absolute scope required")
    let _ ← containedPath fs workspace root
    checkWrapper fs entry root
    entry.manifest.pathPermissions.forM (checkPath fs required root arguments)
  else
    require (entry.manifest.filesystemScope == "none" && entry.manifest.pathPermissions.isEmpty)
      (.valueError "Undeclared filesystem scope")

/-- `except (ValueError, OSError, RuntimeError)`. -/
def Exn.isScopeError : Exn → Bool
  | .valueError _ => true
  | .osError => true
  | .runtimeError _ => true
  | _ => false

/-- `except (ValueError, TypeError, RecursionError)`. -/
def Exn.isSchemaError : Exn → Bool
  | .valueError _ => true
  | .typeError _ => true
  | _ => false

/-- `except (ValueError, TypeError, KeyError, RecursionError)`. -/
def Exn.isArgumentError : Exn → Bool
  | .valueError _ => true
  | .typeError _ => true
  | .keyError _ => true
  | _ => false

/-- A block of checks: caught errors deny with `status`, others escape. -/
def deniedWhen (caught : Exn → Bool) (status : ToolStatus) (block : Except Exn Unit)
    (rest : Except Exn (Option ToolResult)) : Except Exn (Option ToolResult) :=
  match block with
  | .ok _ => rest
  | .error e => if caught e then .ok (some (.denied status)) else .error e

/-- `preflight`. -/
def preflight (fs : FileSystem) (broker : ToolBroker) (task : Task) (toolId : String)
    (arguments : Dict Json) : Except Exn (Option ToolResult) :=
  match broker.tools.lookup toolId with
  | none => .ok (some (.denied .policyDenied))
  | some entry =>
      match entry.required, entry.manifest.argumentsSchema with
      | some required, some schema =>
          if entry.manifest.admissible required then
            deniedWhen Exn.isSchemaError .policyDenied (checkSchema schema) <|
            deniedWhen Exn.isArgumentError .validationDenied
              (checkArguments entry schema arguments) <|
            deniedWhen Exn.isScopeError .policyDenied
              (checkScope fs entry required task.workspace arguments) (.ok none)
          else .ok (some (.denied .policyDenied))
      | _, _ => .ok (some (.denied .policyDenied))

/-! ## The action an approval is bound to -/

/-- `manifest.model_dump(mode='json')` with sorted permissions. -/
def ToolManifest.dump (m : ToolManifest) : Json :=
  .obj [("tool_id", .str m.toolId), ("version", .str m.version),
    ("permissions", .arr ((sorted m.permissions).map .str)), ("risk", .str m.risk),
    ("filesystem_scope", .str m.filesystemScope), ("network_scope", .str m.networkScope),
    ("secret_access", .str m.secretAccess), ("approval_policy", .str m.approvalPolicy),
    ("timeout_s", .int m.timeoutS), ("output_limit_bytes", .int m.outputLimitBytes),
    ("arguments_schema", m.argumentsSchema.getD .null),
    ("path_permissions", dumpTexts m.pathPermissions)]

/-- The JSON object that `action_hash` digests. -/
def actionJson (taskId workspace : String) (manifest : ToolManifest) (arguments : Dict Json)
    (planHash : String) : Json :=
  .obj [("task", .str taskId), ("workspace", .str workspace), ("manifest", manifest.dump),
    ("arguments", .obj arguments), ("plan", .str planHash)]

/-- `action_hash`. -/
def actionHash (broker : ToolBroker) (task : Task) (toolId : String) (arguments : Dict Json)
    (planHash : String) : Except Exn String := do
  let manifest ← broker.manifest toolId
  digest (actionJson task.taskId task.workspace manifest arguments planHash)

/-! ## Running a handler -/

/-- What a started handler did. -/
inductive HandlerOutcome where
  /-- It returned a string. -/
  | text (s : String)
  /-- It returned a value that JSON can represent. -/
  | value (v : Json)
  /-- It returned something else: `size` bytes were encoded before `errorType` was raised. -/
  | foreign (size : ℕ) (errorType : String)
  | raised (errorType : String)
  /-- Nothing arrived within the deadline. -/
  | late

def ToolResult.failed (errorType : String) : ToolResult :=
  { status := .executionFailure, effectUncertain := true,
    errorType := some (String.ofList (errorType.toList.take 80)) }

def ToolResult.outputLimit : ToolResult :=
  { status := .outputLimit, effectUncertain := true }

/-- The part of `_run` that encodes the value again and inspects it. -/
def encodedOutcome (limit : ℕ) (v : Json) : ToolResult :=
  if finite v then
    if limit < (String.ofList (text [' '] v)).utf8ByteSize then .outputLimit
    else
      match v with
      | .obj fields =>
          if isTrue (fields.lookup "ok") then { status := .success, data := some fields }
          else .failed "RuntimeError"
      | _ => .failed "RuntimeError"
  else if limit < Platform.encodedBefore v then .outputLimit
  else .failed "ValueError"

/-- `_run`, given what the handler did. -/
def runOutcome (manifest : ToolManifest) : HandlerOutcome → ToolResult
  | .text s =>
      if manifest.outputLimitBytes < s.utf8ByteSize then .outputLimit
      else
        match Platform.loads s.toUTF8 with
        | none => .failed "JSONDecodeError"
        | some v => encodedOutcome manifest.outputLimitBytes v
  | .value v => encodedOutcome manifest.outputLimitBytes v
  | .foreign size errorType =>
      if manifest.outputLimitBytes < size then .outputLimit else .failed errorType
  | .raised errorType => .failed errorType
  | .late => { status := .timeout, effectUncertain := true }

end Dante
