import Dante.Library.JsonDocument
import Dante.Model.Ledger

/-! # Acceptance over stored columns

The acceptance operations of the ledger as they meet the columns of the database: payloads,
contracts and attestations are texts, which every operation reads again. -/

namespace Dante

open JsonText Relational

variable [Platform]

/-! ## Models and their texts -/

/-- What `model_dump_json` writes. -/
def modelText (v : Json) : String :=
  String.ofList (text [] v)

/-- How pydantic reads and writes columns. -/
class StoredModels where
  /-- The JSON value of a text; `none` is a `ValidationError`. -/
  json : String → Option Json
  /-- What was written is read back. -/
  json_empty : json "{}" = some (.obj [])
  json_default : json (modelText AcceptanceContract.default.dump) =
    some AcceptanceContract.default.dump
  /-- `Task.model_validate_json`. -/
  task : String → Option Task
  /-- `task.model_dump_json()`. -/
  dumpTask : Task → String
  /-- The payload of a task that was read from a payload and then changed. -/
  redumpTask : String → Task → String
  /-- `Artifact.model_validate_json`. -/
  artifact : String → Option Artifact

variable [StoredModels]

/-- Validation of a `frozenset[str]` field with an empty default. -/
def setField (fields : List (String × Json)) (name : String) : Option (Finset String) :=
  match fields.lookup name with
  | none => some ∅
  | some v => do
      let items ← v.asList
      let names ← items.mapM Json.asText
      pure names.toFinset

/-- Validation of a `dict[str, str]` field with an empty default. -/
def textsField (fields : List (String × Json)) (name : String) : Option (Dict String) :=
  match fields.lookup name with
  | none => some []
  | some v => do
      let entries ← v.asObject
      entries.mapM fun f => f.2.asText.map fun value => (f.1, value)

/-- The model forbids any other field. -/
def onlyFields (fields : List (String × Json)) (names : List String) : Option Unit :=
  if fields.all (fun f => f.1 ∈ names) then some () else none

def AcceptanceContract.ofJson (v : Json) : Option AcceptanceContract := do
  let fields ← v.asObject
  onlyFields fields
    ["required_tools", "required_artifacts", "required_final_fields", "instructions"]
  let tools ← setField fields "required_tools"
  let artifacts ← setField fields "required_artifacts"
  let finals ← setField fields "required_final_fields"
  let instructions ← textsField fields "instructions"
  pure ⟨tools, artifacts, finals, instructions⟩

def ObservedAcceptance.ofJson (v : Json) : Option ObservedAcceptance := do
  let fields ← v.asObject
  onlyFields fields ["tools", "artifacts", "final_fields"]
  let tools ← setField fields "tools"
  let artifacts ← setField fields "artifacts"
  let finals ← textsField fields "final_fields"
  pure ⟨tools, artifacts, finals⟩

/-- A `ValidationError`. -/
def modelValidated {α : Type} (x : Option α) : Except Exn α :=
  orRaise x (.valueError "validation error")

/-- `AcceptanceContract.model_validate_json`. -/
def readContract (column : String) : Except Exn AcceptanceContract :=
  modelValidated ((StoredModels.json column).bind AcceptanceContract.ofJson)

/-- `ObservedAcceptance.model_validate_json`. -/
def readObserved (column : String) : Except Exn ObservedAcceptance :=
  modelValidated ((StoredModels.json column).bind ObservedAcceptance.ofJson)

/-! ## Rows -/

structure StoredTask where
  taskId : Option String
  payload : String
  revision : ℤ

structure StoredAcceptance where
  taskId : Option String
  contract : String
  strict : ℤ
  locked : ℤ
  attestations : String
  finalEvidence : String

structure StoredArtifact where
  artifactId : Option String
  taskId : String
  payload : String

instance : NullKeyed StoredTask String := ⟨StoredTask.taskId⟩
instance : NullKeyed StoredAcceptance String := ⟨StoredAcceptance.taskId⟩
instance : NullKeyed StoredArtifact String := ⟨StoredArtifact.artifactId⟩

/-- The tables that the acceptance operations read and write, and the events they log. -/
structure Store where
  tasks : Table StoredTask
  acceptance : Table StoredAcceptance
  artifacts : Table StoredArtifact
  steps : Table StepRecord
  queue : Table QueueRow
  log : List TaskEvent

namespace Store

variable (s : Store)

/-- The tables a lease is checked against. -/
def leases : Database :=
  { Database.empty with queue := s.queue }

/-- `_event`. The event refers to a stored task. -/
def event (task : Task) (name : String) (previous : Option TaskStatus) (metadata : Dict Json) :
    Except Exn Store := do
  let _ ← orRaise (s.tasks.at? task.taskId) .integrityError
  pure { s with log := s.log ++ [⟨task.taskId, name, previous, task.status, metadata⟩] }

/-- `UPDATE tasks SET payload=?,revision=revision+1 WHERE task_id=?`. -/
def updateTask (taskId : String) (task : Task) : Store :=
  { s with
    tasks := s.tasks.amend taskId
      (fun r => { r with
        payload := StoredModels.redumpTask r.payload task, revision := r.revision + 1 })
      (fun _ => rfl) }

def updateAcceptance (taskId : String) (f : StoredAcceptance → StoredAcceptance)
    (hf : ∀ r, (f r).taskId = r.taskId) : Store :=
  { s with acceptance := s.acceptance.amend taskId f hf }

/-! ## Tasks -/

/-- `create_task`. -/
def createTask (task : Task) (acceptance : Option AcceptanceContract) :
    Except Exn (Task × Store) := do
  let tasks ← orRaise (s.tasks.insert ⟨some task.taskId, StoredModels.dumpTask task, 0⟩)
    .integrityError
  let accepted ← orRaise (s.acceptance.insert ⟨some task.taskId,
    modelText (acceptance.getD .default).dump, if acceptance.isSome then 1 else 0,
    if acceptance.isSome then 1 else 0, "{}", "{}"⟩) .integrityError
  let s ← event { s with tasks := tasks, acceptance := accepted } task "task.created" none []
  pure (task, s)

/-- `_active_task`. -/
def activeTask (taskId : String) : Except Exn Task := do
  let row ← orRaise (s.tasks.at? taskId) (.keyError taskId)
  let task ← modelValidated (StoredModels.task row.payload)
  require (!task.status.terminal)
    (.invalidTransition "Terminal tasks cannot acquire new execution/evidence")
  pure task

/-! ## Evidence -/

/-- `_checked_artifact`; nothing matches a null id. -/
def checkedArtifact (fs : FileSystem) (taskId : String) (artifactId : Option String) :
    Except Exn Artifact := do
  let row ← orRaise (s.artifacts.find fun r =>
      artifactId.isSome && r.artifactId == artifactId && r.taskId == taskId)
    (.valueError "Artifact does not belong to task")
  let artifact ← modelValidated (StoredModels.artifact row.payload)
  let actual ← fileDigest fs artifact.path
  require (actual == artifact.checksumSha256) (.valueError "Artifact integrity failed")
  pure artifact

def verifiedStep (fs : FileSystem) (taskId : String) (step : StepRecord) : Except Exn Unit := do
  let _ ← verifiedReceipt fs step
  match given step.evidenceRef with
  | some ref =>
      let _ ← s.checkedArtifact fs taskId (some ref)
      pure ()
  | none => pure ()

def gatherStep (fs : FileSystem) (taskId : String) (acc : Gathered) (step : StepRecord) :
    Except Exn Gathered :=
  match s.verifiedStep fs taskId step with
  | .ok _ => .ok { acc with tools := insert step.toolId acc.tools }
  | .error e =>
      if e.leavesPending then .ok { acc with pending := acc.pending ++ ["step:" ++ step.stepId] }
      else .error e

/-- A null id cannot be appended to a text. -/
def gatherArtifact (fs : FileSystem) (taskId : String) (acc : Gathered) (item : StoredArtifact) :
    Except Exn Gathered :=
  match s.checkedArtifact fs taskId item.artifactId with
  | .ok artifact => do
      require (hashable artifact.logicalName) (.typeError "unhashable type")
      pure { acc with names := acc.names ++ [.str artifact.artifactId, artifact.logicalName] }
  | .error e =>
      if e.isFileOrValue then do
        let artifactId ← orRaise item.artifactId (.typeError "can only concatenate str")
        pure { acc with pending := acc.pending ++ ["artifact:" ++ artifactId] }
      else .error e

def finalFieldValue (fs : FileSystem) (taskId field artifactId : String) : Except Exn Json := do
  let artifact ← s.checkedArtifact fs taskId (some artifactId)
  let value ← readJson fs artifact.path
  subscript value field

/-- Of the references only texts are ever written. -/
def gatherField (fs : FileSystem) (taskId : String) (fields : Dict String)
    (ref : String × Json) : Dict String :=
  match ref.2 with
  | .str artifactId =>
      match s.finalFieldValue fs taskId ref.1 artifactId with
      | .ok (.str value) => fields.set ref.1 value
      | .ok _ => fields
      | .error _ => fields.pop ref.1
  | _ => fields.pop ref.1

end Store

/-- The attestations that still count: none for a strict row. -/
def StoredAcceptance.observed (row : StoredAcceptance) : Except Exn ObservedAcceptance :=
  if row.strict = 0 then readObserved row.attestations else .ok .default

/-- `json.loads(row['final_evidence']).items()`. -/
def StoredAcceptance.references (row : StoredAcceptance) : Except Exn (List (String × Json)) := do
  let value ← orRaise (Platform.loads row.finalEvidence.toUTF8) (.valueError "Expecting value")
  orRaise value.asObject (.attributeError "no attribute 'items'")

namespace Store

variable (s : Store)

/-- `_acceptance_result`. -/
def acceptanceResult (fs : FileSystem) (taskId : String) : Except Exn AcceptanceResult :=
  match s.acceptance.at? taskId with
  | none => .ok ⟨false, ["acceptance_contract"], [], []⟩
  | some row => do
      let contract ← readContract row.contract
      let observed ← row.observed
      let steps := s.steps.rows.filter (fun step => step.taskId == taskId)
      let tools := observed.tools \ (steps.map StepRecord.toolId).toFinset
      let acc ← steps.foldlM (s.gatherStep fs taskId) ⟨tools, [], []⟩
      let items := s.artifacts.rows.filter (fun item => item.taskId == taskId)
      let acc ← items.foldlM (s.gatherArtifact fs taskId) acc
      let references ← row.references
      let fields := references.foldl (s.gatherField fs taskId) observed.finalFields
      let names ← asStrings acc.names
      let result := verify contract ⟨acc.tools, observed.artifacts ∪ names.toFinset, fields⟩
      pure (result.withPending acc.pending)

def requireAccepted (fs : FileSystem) (taskId : String) : Except Exn Unit := do
  let result ← s.acceptanceResult fs taskId
  require result.acceptanceComplete
    (.invalidTransition "Persistent acceptance or step evidence is incomplete")

/-- `transition`. -/
def transition (owner : Option Lease) (taskId : String) (target : TaskStatus)
    (currentStep : Option String) (metadata : Dict Json) (clock : ℕ → ℚ) (fs : FileSystem) :
    Except Exn (Task × Store) := do
  requireLease s.leases (clock 0) taskId false owner
  whenever (target = .completed) (requireLease s.leases (clock 1) taskId true owner)
  let row ← orRaise (s.tasks.at? taskId) (.keyError taskId)
  let task ← modelValidated (StoredModels.task row.payload)
  if task.status = target then pure (task, s)
  else
    require ((transitions task.status).contains target)
      (.invalidTransition (task.status.value ++ " -> " ++ target.value ++ " is not allowed"))
    whenever (target = .completed) (s.requireAccepted fs taskId)
    let updated := s.tasks.count (fun r => Table.hasKey taskId r && r.revision == row.revision)
    require (updated == 1) (.runtimeError "Concurrent task update rejected")
    let moved := task.moved target currentStep
    let s ← (s.updateTask taskId moved).event moved "task.transition" (some task.status) metadata
    pure (moved, s)

end Store

/-! ## Acceptance operations -/

/-- A locked contract may only be bound again. -/
def StoredAcceptance.mayBind (row : StoredAcceptance) (contract : AcceptanceContract) :
    Except Exn Unit :=
  if row.locked = 0 then .ok ()
  else do
    let bound ← readContract row.contract
    require (bound.same contract) (.valueError "Persistent acceptance cannot be replaced")

/-- The contract of a row that becomes strict: unless it is locked it then requires the tool. -/
def StoredAcceptance.hardenedContract (row : StoredAcceptance) (toolId : String) :
    Except Exn AcceptanceContract := do
  let contract ← readContract row.contract
  pure (if row.locked = 0 then
    { contract with requiredTools := insert toolId contract.requiredTools } else contract)

/-- `SET contract=?,locked=1`. -/
def StoredAcceptance.bound (contract : AcceptanceContract) (r : StoredAcceptance) :
    StoredAcceptance :=
  { r with contract := modelText contract.dump, locked := 1 }

/-- `SET attestations=?`. -/
def StoredAcceptance.attesting (observed : ObservedAcceptance) (r : StoredAcceptance) :
    StoredAcceptance :=
  { r with attestations := modelText observed.dump }

/-- `SET strict=1,contract=?,attestations='{}'`. -/
def StoredAcceptance.hardened (contract : AcceptanceContract) (r : StoredAcceptance) :
    StoredAcceptance :=
  { r with strict := 1, contract := modelText contract.dump, attestations := "{}" }

namespace Store

variable (s : Store)

/-- `bind_acceptance`. -/
def bindAcceptance (taskId : String) (contract : AcceptanceContract) :
    Except Exn (Unit × Store) := do
  let _ ← s.activeTask taskId
  let row ← orRaise (s.acceptance.at? taskId) (.runtimeError "Missing persistent acceptance")
  row.mayBind contract
  pure ((), s.updateAcceptance taskId (.bound contract) (fun _ => rfl))

/-- `record_observations`. -/
def recordObservations (taskId : String) (observed : ObservedAcceptance) :
    Except Exn (Unit × Store) := do
  require (classify (dumpJson observed.dump) .internal != .secret)
    (.valueError "Secret-bearing observations must not be persisted")
  let task ← s.activeTask taskId
  let row ← orRaise (s.acceptance.at? taskId) (.typeError "'NoneType' object is not subscriptable")
  if row.strict ≠ 0 then pure ((), s)
  else
    let prior ← readObserved row.attestations
    let s := s.updateAcceptance taskId (.attesting (prior.merged observed)) (fun _ => rfl)
    let s ← s.event task "acceptance.caller_attestation" (some task.status)
      [("source", .str "legacy_trusted_caller")]
    pure ((), s)

/-- The transaction of `prepare_step`. -/
def prepareStep (owner : Option Lease) (taskId toolId toolVersion : String)
    (arguments : Dict Json) (idempotencyKey : Option String) (clock : ℕ → ℚ) (newId : String) :
    Except Exn (Prepared × Store) := do
  let argsDigest ← digest (.obj arguments)
  let key ← stepKey toolId toolVersion argsDigest idempotencyKey
  requireLease s.leases (clock 0) taskId true owner
  let task ← s.activeTask taskId
  match s.steps.find (StepRecord.keyed taskId key) with
  | some step =>
      sameOperation step toolId toolVersion argsDigest
      pure (.existing step, s)
  | none =>
      let row ← orRaise (s.acceptance.at? taskId) (.runtimeError "Missing persistent acceptance")
      let contract ← row.hardenedContract toolId
      let steps ← orRaise (s.steps.insert
        (.prepared newId taskId toolId toolVersion argsDigest key (clock 1))) .integrityError
      let s := { s.updateAcceptance taskId (.hardened contract) (fun _ => rfl) with steps := steps }
      let s ← s.event task "step.intent" (some task.status)
        [("step_id", .str newId), ("arguments_digest", .str argsDigest)]
      pure (.created newId, s)

end Store

/-- A call of one of the acceptance operations. -/
inductive AcceptanceCall where
  | bindAcceptance (taskId : String) (contract : AcceptanceContract)
  | recordObservations (taskId : String) (observed : ObservedAcceptance)
  | prepareStep (owner : Option Lease) (taskId toolId toolVersion : String)
      (arguments : Dict Json) (idempotencyKey : Option String) (clock : ℕ → ℚ) (newId : String)
  | transition (owner : Option Lease) (taskId : String) (target : TaskStatus)
      (currentStep : Option String) (metadata : Dict Json) (clock : ℕ → ℚ) (fs : FileSystem)

/-- What a call answers. -/
inductive AcceptanceAnswer where
  | done
  | prepared (step : Prepared)
  | moved (task : Task)

/-- A call commits what it made, or raises and leaves the tables alone. -/
def AcceptanceCall.run (call : AcceptanceCall) (s : Store) : Except Exn (AcceptanceAnswer × Store) :=
  match call with
  | .bindAcceptance taskId contract =>
      (s.bindAcceptance taskId contract).map fun r => (.done, r.2)
  | .recordObservations taskId observed =>
      (s.recordObservations taskId observed).map fun r => (.done, r.2)
  | .prepareStep owner taskId toolId toolVersion arguments idempotencyKey clock newId =>
      (s.prepareStep owner taskId toolId toolVersion arguments idempotencyKey clock newId).map
        fun r => (.prepared r.1, r.2)
  | .transition owner taskId target currentStep metadata clock fs =>
      (s.transition owner taskId target currentStep metadata clock fs).map
        fun r => (.moved r.1, r.2)

/-- The answers of calls made one after the other, and the tables after them. -/
def Store.answers : List AcceptanceCall → Store → List (Except Exn AcceptanceAnswer) × Store
  | [], s => ([], s)
  | call :: calls, s =>
      match call.run s with
      | .ok (answer, s') =>
          let rest := answers calls s'
          (.ok answer :: rest.1, rest.2)
      | .error e =>
          let rest := answers calls s
          (.error e :: rest.1, rest.2)

end Dante
