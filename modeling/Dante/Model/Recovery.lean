import Dante.Library.PyValue
import Dante.Model.Contracts

/-! # Receipts of tool effects, and how they are verified again -/

namespace Dante

open JsonText

variable [Platform]

/-! ## Files -/

/-- What `Path(path).resolve()` may raise. -/
inductive PathError where
  | osError
  | valueError (message : String)
  | runtimeError (message : String)

def PathError.exn : PathError → Exn
  | .osError => .osError
  | .valueError message => .valueError message
  | .runtimeError message => .runtimeError message

/-- What a process sees of the file system at one moment. -/
structure FileSystem where
  /-- The bytes of a path that can be opened; `none` is an `OSError`. -/
  contents : String → Option ByteArray
  isFile : String → Bool
  /-- The absolute path that links lead to. -/
  resolution : String → Except PathError String
  /-- `path.is_symlink() or path.is_junction()`. -/
  isReparse : String → Bool

/-- `Path(path).resolve()`. -/
def FileSystem.resolve (fs : FileSystem) (path : String) : Except Exn String :=
  (fs.resolution path).mapError PathError.exn

/-- `file_digest`. -/
def fileDigest (fs : FileSystem) (path : String) : Except Exn String :=
  match fs.contents path with
  | some data => .ok (Platform.sha256 data)
  | none => .error .osError

/-! ## Digests -/

/-- `digest`. Keys are strings by construction; an infinite or undefined float is a
`ValueError`. -/
def digest (value : Json) : Except Exn String :=
  if finite value then .ok (Platform.sha256 (String.ofList (normalized value)).toUTF8)
  else .error (.valueError "Out of range float values are not JSON compliant")

mutual
/-- `check_keys`. -/
def checkKeys : Value → Except Exn Unit
  | .dict entries => do
      require (entries.all (fun e => e.1.isStr)) (.valueError "JSON object keys must be strings")
      checkKeysEntries entries
  | .list items => checkKeysItems items
  | .tuple items => checkKeysItems items
  | _ => .ok ()
def checkKeysItems : List Value → Except Exn Unit
  | [] => .ok ()
  | v :: items => do
      checkKeys v
      checkKeysItems items
def checkKeysEntries : List (Value × Value) → Except Exn Unit
  | [] => .ok ()
  | (_, v) :: entries => do
      checkKeys v
      checkKeysEntries entries
end

/-- `digest` of a value that need not have been read from JSON. -/
def digestValue (value : Value) : Except Exn String := do
  checkKeys value
  digest value.toJson

/-! ## Step records -/

inductive StepState where
  | intent
  | started
  | succeeded
  | uncertain
  deriving DecidableEq, Repr

structure StepRecord where
  stepId : String
  taskId : String
  toolId : String
  toolVersion : String
  argumentsDigest : String
  idempotencyKey : String
  attempt : ℕ
  state : StepState
  createdAt : ℚ
  /-- The JSON object stored as text. -/
  result : Option (Dict Json)
  resultDigest : Option String
  evidenceRef : Option String
  error : Option String

/-- The operation a stored step must match before it is reused. -/
def StepRecord.operation (s : StepRecord) : String × String × String :=
  (s.toolId, s.toolVersion, s.argumentsDigest)

/-- `x is True`. -/
def isTrue : Option Json → Bool
  | some (.bool true) => true
  | _ => false

/-- `Path(path).resolve().relative_to(Path(workspace).resolve())` succeeds. A `ValueError`
on the workspace counts as being outside of it. -/
def insideWorkspace (fs : FileSystem) (path workspace : String) : Except Exn Bool :=
  match fs.resolve workspace with
  | .ok root => .ok (Platform.isRelativeTo path root)
  | .error (.valueError _) => .ok false
  | .error e => .error e

/-- `receipt`. -/
def receipt (fs : FileSystem) (result : Dict Json) (workspace : String) :
    Except Exn (Dict Json) := do
  require (isTrue (result.lookup "ok")) (.valueError "A successful result is required")
  match result.lookup "path" with
  | some (.str p) =>
      let path ← fs.resolve p
      let inside ← insideWorkspace fs path workspace
      if inside && fs.isFile path then
        let checksum ← fileDigest fs path
        pure [("ok", .bool true), ("path", .str path), ("checksum_sha256", .str checksum)]
      else pure [("ok", .bool true)]
  | _ => pure [("ok", .bool true)]

/-- The file named by a receipt still has the recorded checksum. An `OSError` or a
`KeyError` counts as a changed file. -/
def fileEvidence (fs : FileSystem) (result : Dict Json) : Except Exn Bool :=
  match result.lookup "path" with
  | none => .ok true
  | some (.str path) =>
      match fileDigest fs path, result.lookup "checksum_sha256" with
      | .ok actual, some (.str checksum) => .ok (actual == checksum)
      | _, _ => .ok false
  | some _ => .error (.typeError "expected str, bytes or os.PathLike object")

/-- `verified_receipt`. -/
def verifiedReceipt (fs : FileSystem) (step : StepRecord) : Except Exn (Dict Json) := do
  require (step.state == .succeeded)
    (.reconciliationRequired "Step has no verified durable outcome")
  let result ← orRaise step.result (.reconciliationRequired "Step has no verified durable outcome")
  require (isTrue (result.lookup "ok")) (.reconciliationRequired "Step receipt integrity failed")
  let actual ← digest (.obj result)
  require (some actual == step.resultDigest)
    (.reconciliationRequired "Step receipt integrity failed")
  let valid ← fileEvidence fs result
  require valid (.reconciliationRequired "Step file evidence changed or is unavailable")
  pure result

end Dante
