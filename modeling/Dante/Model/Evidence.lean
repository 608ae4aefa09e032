import Dante.Model.TaskQueue

/-! # Evidence that a completed task must show -/

namespace Dante

open JsonText Relational

variable [Platform]

/-- `json.loads(Path(path).read_text(encoding='utf-8'))`. -/
def readJson (fs : FileSystem) (path : String) : Except Exn Json :=
  match fs.contents path with
  | none => .error .osError
  | some data => orRaise (Platform.loads data) (.valueError "Expecting value")

/-- `_checked_artifact`. -/
def checkedArtifact (fs : FileSystem) (db : Database) (taskId artifactId : String) :
    Except Exn Artifact := do
  let artifact ← orRaise (db.artifacts.find (Artifact.ownedBy taskId artifactId))
    (.valueError "Artifact does not belong to task")
  let actual ← fileDigest fs artifact.path
  require (actual == artifact.checksumSha256) (.valueError "Artifact integrity failed")
  pure artifact

/-- The truth value of an optional string. -/
def given (ref : Option String) : Option String :=
  ref.filter (· ≠ "")

/-- The receipt of a step and the artifact it was reconciled with are both intact. -/
def verifiedStep (fs : FileSystem) (db : Database) (taskId : String) (step : StepRecord) :
    Except Exn Unit := do
  let _ ← verifiedReceipt fs step
  match given step.evidenceRef with
  | some ref =>
      let _ ← checkedArtifact fs db taskId ref
      pure ()
  | none => pure ()

/-- `except (ReconciliationRequired, ValueError, OSError)`. -/
def Exn.leavesPending : Exn → Bool
  | .reconciliationRequired _ => true
  | .valueError _ => true
  | .osError => true
  | _ => false

/-- `except (OSError, ValueError)`. -/
def Exn.isFileOrValue : Exn → Bool
  | .valueError _ => true
  | .osError => true
  | _ => false

/-! ## The three loops of `_acceptance_result` -/

/-- What the loops over steps and artifacts have gathered. -/
structure Gathered where
  tools : Finset String
  names : List Json
  pending : List String

def gatherStep (fs : FileSystem) (db : Database) (taskId : String) (acc : Gathered)
    (step : StepRecord) : Except Exn Gathered :=
  match verifiedStep fs db taskId step with
  | .ok _ => .ok { acc with tools := insert step.toolId acc.tools }
  | .error e =>
      if e.leavesPending then .ok { acc with pending := acc.pending ++ ["step:" ++ step.stepId] }
      else .error e

/-- Lists and objects cannot be members of a set. -/
def hashable : Json → Bool
  | .arr _ => false
  | .obj _ => false
  | _ => true

/-- `artifact.provenance.get('logical_name', Path(artifact.path).name)`. -/
def Artifact.logicalName (a : Artifact) : Json :=
  (a.provenance.lookup "logical_name").getD (.str (Platform.name a.path))

def gatherArtifact (fs : FileSystem) (db : Database) (taskId : String) (acc : Gathered)
    (item : Artifact) : Except Exn Gathered :=
  match checkedArtifact fs db taskId item.artifactId with
  | .ok artifact => do
      require (hashable artifact.logicalName) (.typeError "unhashable type")
      pure { acc with names := acc.names ++ [.str artifact.artifactId, artifact.logicalName] }
  | .error e =>
      if e.isFileOrValue then
        .ok { acc with pending := acc.pending ++ ["artifact:" ++ item.artifactId] }
      else .error e

/-- `json.loads(text)[field]`. -/
def subscript (v : Json) (field : String) : Except Exn Json :=
  match v with
  | .obj fields => orRaise (fields.lookup field) (.keyError field)
  | _ => .error (.typeError "indices must be integers")

def finalFieldValue (fs : FileSystem) (db : Database) (taskId field artifactId : String) :
    Except Exn Json := do
  let artifact ← checkedArtifact fs db taskId artifactId
  let value ← readJson fs artifact.path
  subscript value field

/-- A string is taken over, any other value leaves the field as it was, and a field that
cannot be read is dropped. -/
def gatherField (fs : FileSystem) (db : Database) (taskId : String) (fields : Dict String)
    (ref : String × String) : Dict String :=
  match finalFieldValue fs db taskId ref.1 ref.2 with
  | .ok (.str value) => fields.set ref.1 value
  | .ok _ => fields
  | .error _ => fields.pop ref.1

/-- Validation of a `frozenset[str]`. -/
def asStrings : List Json → Except Exn (List String)
  | [] => .ok []
  | .str s :: rest => do
      let names ← asStrings rest
      pure (s :: names)
  | _ :: _ => .error (.valueError "Input should be a valid string")

/-- The attestations that still count: none for a strict row. -/
def AcceptanceRow.attested (row : AcceptanceRow) : ObservedAcceptance :=
  if row.strict then .default else row.attestations

def AcceptanceResult.withPending (result : AcceptanceResult) (pending : List String) :
    AcceptanceResult :=
  if pending.isEmpty then result
  else { result with
    acceptanceComplete := false
    missingChecks := result.missingChecks ++ pending.insertionSort (· ≤ ·) }

/-- `_acceptance_result`. -/
def acceptanceResult (fs : FileSystem) (db : Database) (taskId : String) :
    Except Exn AcceptanceResult :=
  match db.acceptance.get? taskId with
  | none => .ok ⟨false, ["acceptance_contract"], [], []⟩
  | some row => do
      let observed := row.attested
      let steps := db.stepsOf taskId
      let tools := observed.tools \ (steps.map StepRecord.toolId).toFinset
      let acc ← steps.foldlM (gatherStep fs db taskId) ⟨tools, [], []⟩
      let acc ← (db.artifactsOf taskId).foldlM (gatherArtifact fs db taskId) acc
      let fields := row.finalEvidence.foldl (gatherField fs db taskId) observed.finalFields
      let names ← asStrings acc.names
      let result := verify row.contract
        ⟨acc.tools, observed.artifacts ∪ names.toFinset, fields⟩
      pure (result.withPending acc.pending)

end Dante
