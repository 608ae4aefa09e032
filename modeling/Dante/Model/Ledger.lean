import Dante.Model.Evidence

/-! # The ledger's transactions

Each function is the body of one `BEGIN IMMEDIATE` block: it answers and commits the new
database, or raises and leaves the old one. `owner` is the lease of the caller's context,
`clock` the successive readings of `time.time()`. -/

namespace Dante

open JsonText Relational

variable [Platform]

/-! ## Tasks -/

/-- `create_task`. -/
def createTask (task : Task) (acceptance : Option AcceptanceContract) (db : Database) :
    Except Exn (Task × Database) := do
  let tasks ← orRaise (db.tasks.insert ⟨task.stored, 0⟩) .integrityError
  let accepted ← orRaise (db.acceptance.insert ⟨task.taskId, acceptance.getD .default,
    acceptance.isSome, acceptance.isSome, .default, []⟩) .integrityError
  let db := { db with tasks := tasks, acceptance := accepted }
  pure (task, db.event task "task.created" none [])

/-- `get_task`. -/
def getTask (taskId : String) (db : Database) : Except Exn Task := do
  let row ← orRaise (db.tasks.get? taskId) (.keyError taskId)
  pure row.payload

/-- `_active_task`. -/
def activeTask (db : Database) (taskId : String) : Except Exn Task := do
  let task ← getTask taskId db
  require (!task.status.terminal)
    (.invalidTransition "Terminal tasks cannot acquire new execution/evidence")
  pure task

/-- The fields of a task that a transition writes. -/
def Task.moved (task : Task) (target : TaskStatus) (currentStep : Option String) : Task :=
  { task with
    status := target
    currentStep := currentStep.or task.currentStep
    attempts := if target = .running then task.attempts + 1 else task.attempts }

omit [Platform] in
@[simp] theorem Task.moved_taskId (task : Task) (target : TaskStatus)
    (currentStep : Option String) : (task.moved target currentStep).taskId = task.taskId := rfl

omit [Platform] in
@[simp] theorem Task.moved_status (task : Task) (target : TaskStatus)
    (currentStep : Option String) : (task.moved target currentStep).status = target := rfl

/-- Completion needs complete acceptance, read in the same transaction. -/
def requireAccepted (fs : FileSystem) (db : Database) (taskId : String) : Except Exn Unit := do
  let result ← acceptanceResult fs db taskId
  require result.acceptanceComplete
    (.invalidTransition "Persistent acceptance or step evidence is incomplete")

/-- `transition`. -/
def transition (owner : Option Lease) (taskId : String) (target : TaskStatus)
    (currentStep : Option String) (metadata : Dict Json) (clock : ℕ → ℚ) (fs : FileSystem)
    (db : Database) : Except Exn (Task × Database) := do
  requireLease db (clock 0) taskId false owner
  whenever (target = .completed) (requireLease db (clock 1) taskId true owner)
  let row ← orRaise (db.tasks.get? taskId) (.keyError taskId)
  let task := row.payload
  if task.status = target then pure (task, db)
  else
    require ((transitions task.status).contains target)
      (.invalidTransition (task.status.value ++ " -> " ++ target.value ++ " is not allowed"))
    whenever (target = .completed) (requireAccepted fs db taskId)
    let updated := db.tasks.count (fun r => r.payload.taskId == taskId && r.revision == row.revision)
    require (updated == 1) (.runtimeError "Concurrent task update rejected")
    let moved := task.moved target currentStep
    let db := db.updateTask taskId (fun t => t.moved target currentStep)
      (fun t => t.moved_taskId target currentStep)
    pure (moved, db.event moved "task.transition" (some task.status) metadata)

/-- `checkpoint`. The revision it tests is the one it has just read. -/
def checkpoint (owner : Option Lease) (taskId step : String) (state : Dict Json) (now : ℚ)
    (db : Database) : Except Exn (Task × Database) := do
  requireLease db now taskId false owner
  let task ← getTask taskId db
  let saved := { task with currentStep := some step, checkpoint := state }
  let db := db.updateTask taskId
    (fun t => { t with currentStep := some step, checkpoint := revalidatedFields state })
    (fun _ => rfl)
  pure (saved, db.event saved "task.checkpoint" (some task.status) [("step", .str step)])

/-- `set_route`. A route id already in use is left alone. -/
def setRoute (owner : Option Lease) (decision : RouteDecision) (now : ℚ) (db : Database) :
    Except Exn (Task × Database) := do
  requireLease db now decision.taskId true owner
  let db := { db with routes := (db.routes.insert decision).getD db.routes }
  let task ← getTask decision.taskId db
  let routed := { task with selectedRoute := some decision.routeId }
  let db := db.updateTask decision.taskId
    (fun t => { t with selectedRoute := some decision.routeId }) (fun _ => rfl)
  pure (routed, db.event routed "route.selected" (some task.status)
    [("route_id", .str decision.routeId), ("model_id", .str decision.selectedModel)])

/-- `if artifact_id not in task.artifacts: task.artifacts.append(artifact_id)`. -/
def Task.withArtifact (task : Task) (artifactId : String) : Task :=
  { task with
    artifacts :=
      if task.artifacts.contains artifactId then task.artifacts
      else task.artifacts ++ [artifactId] }

omit [Platform] in
@[simp] theorem Task.withArtifact_taskId (task : Task) (artifactId : String) :
    (task.withArtifact artifactId).taskId = task.taskId := rfl

omit [Platform] in
@[simp] theorem Task.withArtifact_status (task : Task) (artifactId : String) :
    (task.withArtifact artifactId).status = task.status := rfl

/-- `add_artifact`. -/
def addArtifact (artifact : Artifact) (db : Database) : Except Exn (Task × Database) := do
  let task ← activeTask db artifact.taskId
  let artifacts ← orRaise (db.artifacts.insert artifact.stored) .integrityError
  let db := { db with artifacts := artifacts }
  let extended := task.withArtifact artifact.artifactId
  let db := db.updateTask artifact.taskId (fun t => t.withArtifact artifact.artifactId)
    (fun t => t.withArtifact_taskId artifact.artifactId)
  pure (extended, db.event extended "artifact.created" (some task.status)
    [("artifact_id", .str artifact.artifactId)])

/-! ## Acceptance -/

/-- `==` on contracts. -/
def AcceptanceContract.same (a b : AcceptanceContract) : Bool :=
  a.requiredTools = b.requiredTools && a.requiredArtifacts = b.requiredArtifacts &&
    a.requiredFinalFields = b.requiredFinalFields && Dict.same a.instructions b.instructions

/-- `bind_acceptance`. -/
def bindAcceptance (taskId : String) (contract : AcceptanceContract) (db : Database) :
    Except Exn (Unit × Database) := do
  let _ ← activeTask db taskId
  let row ← orRaise (db.acceptance.get? taskId) (.runtimeError "Missing persistent acceptance")
  require (!(row.locked && !row.contract.same contract))
    (.valueError "Persistent acceptance cannot be replaced")
  pure ((), db.updateAcceptance taskId (fun r => { r with contract := contract, locked := true })
    (fun _ => rfl))

def ObservedAcceptance.dump (o : ObservedAcceptance) : Json :=
  .obj [("tools", dumpSet o.tools), ("artifacts", dumpSet o.artifacts),
    ("final_fields", dumpTexts o.finalFields)]

/-- `record_observations`. -/
def recordObservations (taskId : String) (observed : ObservedAcceptance) (db : Database) :
    Except Exn (Unit × Database) := do
  require (classify (dumpJson observed.dump) .internal != .secret)
    (.valueError "Secret-bearing observations must not be persisted")
  let task ← activeTask db taskId
  let row ← orRaise (db.acceptance.get? taskId)
    (.typeError "'NoneType' object is not subscriptable")
  if row.strict then pure ((), db)
  else
    let db := db.updateAcceptance taskId
      (fun r => { r with attestations := r.attestations.merged observed }) (fun _ => rfl)
    pure ((), db.event task "acceptance.caller_attestation" (some task.status)
      [("source", .str "legacy_trusted_caller")])

/-- The keys of a JSON object whose values are all strings. -/
def stringMappingKeys : Json → Option (List String)
  | .obj fields =>
      if fields.all (fun f => match f.2 with | .str _ => true | _ => false) then
        some (fields.map Prod.fst)
      else none
  | _ => none

/-- `record_final_evidence`. -/
def recordFinalEvidence (taskId artifactId : String) (fs : FileSystem) (db : Database) :
    Except Exn (Unit × Database) := do
  let task ← activeTask db taskId
  let artifact ← checkedArtifact fs db taskId artifactId
  let values ← readJson fs artifact.path
  let keys ← orRaise (stringMappingKeys values)
    (.valueError "Final field evidence must be a JSON string mapping")
  let _ ← orRaise (db.acceptance.get? taskId)
    (.typeError "'NoneType' object is not subscriptable")
  let db := db.updateAcceptance taskId
    (fun r => { r with finalEvidence := r.finalEvidence.update (keys.map (·, artifactId)) })
    (fun _ => rfl)
  pure ((), db.event task "acceptance.final_evidence" (some task.status)
    [("artifact_id", .str artifactId)])

def AcceptanceResult.dump (r : AcceptanceResult) : Dict Json :=
  [("acceptance_complete", .bool r.acceptanceComplete),
    ("missing_checks", .arr (r.missingChecks.map .str)),
    ("missing_artifacts", .arr (r.missingArtifacts.map .str)),
    ("missing_final_fields", .arr (r.missingFinalFields.map .str))]

/-- `verify_persistent_acceptance`. -/
def verifyPersistentAcceptance (taskId : String) (fs : FileSystem) (db : Database) :
    Except Exn (AcceptanceResult × Database) := do
  let result ← acceptanceResult fs db taskId
  let task ← activeTask db taskId
  pure (result, db.event task "acceptance.checked" (some task.status) result.dump)

/-- `record_tool_outcome`. -/
def recordToolOutcome (taskId toolDigest status : String) (stepId : Option String)
    (db : Database) : Except Exn (Unit × Database) := do
  let task ← getTask taskId db
  pure ((), db.event task "tool.outcome" (some task.status)
    [("tool_digest", .str toolDigest), ("status", .str status), ("step_id", dumpOption stepId)])

/-! ## The step journal -/

/-- The key a step is stored under. -/
def stepKey (toolId toolVersion argumentsDigest : String) (idempotencyKey : Option String) :
    Except Exn String :=
  match idempotencyKey with
  | some key => digest (.str key)
  | none => digest (.arr [.str toolId, .str toolVersion, .str argumentsDigest])

/-- A stored step is reused only for the operation it was created for. -/
def sameOperation (step : StepRecord) (toolId toolVersion argumentsDigest : String) :
    Except Exn Unit :=
  require (step.operation == (toolId, toolVersion, argumentsDigest))
    (.valueError "Idempotency key reused for a different operation")

/-- `lookup_step`. -/
def lookupStep (taskId toolId toolVersion : String) (arguments : Dict Json)
    (idempotencyKey : Option String) (db : Database) : Except Exn (Option StepRecord) := do
  let argsDigest ← digest (.obj arguments)
  let key ← stepKey toolId toolVersion argsDigest idempotencyKey
  match db.steps.find (StepRecord.keyed taskId key) with
  | none => pure none
  | some step =>
      sameOperation step toolId toolVersion argsDigest
      pure (some step)

/-- A step as `prepare_step` inserts it. -/
def StepRecord.prepared (stepId taskId toolId toolVersion argsDigest key : String)
    (createdAt : ℚ) : StepRecord where
  stepId := stepId
  taskId := taskId
  toolId := toolId
  toolVersion := toolVersion
  argumentsDigest := argsDigest
  idempotencyKey := key
  attempt := 0
  state := .intent
  createdAt := createdAt
  result := none
  resultDigest := none
  evidenceRef := none
  error := none

/-- Preparing a step makes the row strict; an open contract then requires the tool. -/
def AcceptanceRow.hardened (row : AcceptanceRow) (toolId : String) : AcceptanceRow :=
  { row with
    strict := true
    contract :=
      if row.locked then row.contract
      else { row.contract with requiredTools := insert toolId row.contract.requiredTools }
    attestations := .default }

omit [Platform] in
@[simp] theorem AcceptanceRow.hardened_taskId (row : AcceptanceRow) (toolId : String) :
    (row.hardened toolId).taskId = row.taskId := rfl

/-- What `prepare_step` found or made. -/
inductive Prepared where
  | existing (step : StepRecord)
  | created (stepId : String)

/-- The transaction of `prepare_step`. -/
def prepareStep (owner : Option Lease) (taskId toolId toolVersion : String)
    (arguments : Dict Json) (idempotencyKey : Option String) (clock : ℕ → ℚ) (newId : String)
    (db : Database) : Except Exn (Prepared × Database) := do
  let argsDigest ← digest (.obj arguments)
  let key ← stepKey toolId toolVersion argsDigest idempotencyKey
  requireLease db (clock 0) taskId true owner
  let task ← activeTask db taskId
  match db.steps.find (StepRecord.keyed taskId key) with
  | some step =>
      sameOperation step toolId toolVersion argsDigest
      pure (.existing step, db)
  | none =>
      let _ ← orRaise (db.acceptance.get? taskId) (.runtimeError "Missing persistent acceptance")
      let db := db.updateAcceptance taskId (fun r => r.hardened toolId)
        (fun r => r.hardened_taskId toolId)
      let steps ← orRaise (db.steps.insert
        (.prepared newId taskId toolId toolVersion argsDigest key (clock 1))) .integrityError
      let db := { db with steps := steps }
      pure (.created newId, db.event task "step.intent" (some task.status)
        [("step_id", .str newId), ("arguments_digest", .str argsDigest)])

/-- `get_step`. -/
def getStep (taskId stepId : String) (db : Database) : Except Exn StepRecord :=
  orRaise (db.steps.find (StepRecord.named taskId stepId)) (.keyError stepId)

/-- `steps`: in order of creation, then of id. -/
def steps (taskId : String) (db : Database) : List StepRecord :=
  (db.stepsOf taskId).insertionSort
    (fun a b => a.createdAt < b.createdAt ∨ (a.createdAt = b.createdAt ∧ a.stepId ≤ b.stepId))

/-- `WHERE task_id=? AND step_id=? AND state=?`. -/
def StepRecord.namedIn (taskId stepId : String) (state : StepState) (s : StepRecord) : Bool :=
  s.named taskId stepId && s.state == state

/-- The evidence that reopened a step must still be intact when it is claimed. -/
def retryEvidence (fs : FileSystem) (db : Database) (taskId : String) (row : Option StepRecord) :
    Except Exn Unit :=
  match row.bind (fun s => given s.evidenceRef) with
  | none => .ok ()
  | some ref =>
      match checkedArtifact fs db taskId ref with
      | .ok _ => .ok ()
      | .error e =>
          .error (if e.isFileOrValue then
            .reconciliationRequired "Evidence permitting retry is unavailable" else e)

/-- `claim_step`. -/
def claimStep (owner : Option Lease) (taskId stepId : String) (now : ℚ) (fs : FileSystem)
    (db : Database) : Except Exn (Unit × Database) := do
  requireLease db now taskId true owner
  let task ← activeTask db taskId
  let pending := StepRecord.namedIn taskId stepId .intent
  retryEvidence fs db taskId (db.steps.find pending)
  require (db.steps.count pending == 1)
    (.reconciliationRequired "Step already claimed; do not replay")
  let db := db.updateSteps pending
    (fun s => { s with state := .started, attempt := s.attempt + 1, error := none }) (fun _ => rfl)
  pure ((), db.event task "step.started" (some task.status) [("step_id", .str stepId)])

/-- The transaction of `finish_step`; `safe` is the receipt made before it. -/
def finishStep (owner : Option Lease) (taskId stepId : String) (safe : Dict Json) (now : ℚ)
    (db : Database) : Except Exn (Unit × Database) := do
  requireLease db now taskId false owner
  let task ← activeTask db taskId
  let safeDigest ← digest (.obj safe)
  let running := StepRecord.namedIn taskId stepId .started
  require (db.steps.count running == 1)
    (.reconciliationRequired "Step outcome requires reconciliation")
  let db := db.updateSteps running
    (fun s => { s with
      state := .succeeded, result := some safe, resultDigest := some safeDigest, error := none })
    (fun _ => rfl)
  pure ((), db.event task "step.succeeded" (some task.status)
    [("step_id", .str stepId), ("result_digest", .str safeDigest)])

/-- `mark_uncertain`. -/
def markUncertain (owner : Option Lease) (taskId stepId errorType : String) (now : ℚ)
    (db : Database) : Except Exn (Unit × Database) := do
  requireLease db now taskId false owner
  let task ← activeTask db taskId
  let db := db.updateSteps (StepRecord.namedIn taskId stepId .started)
    (fun s => { s with state := .uncertain, error := some errorType }) (fun _ => rfl)
  pure ((), db.event task "step.uncertain" (some task.status)
    [("step_id", .str stepId), ("error_type", .str errorType)])

/-! ## Reconciliation -/

inductive Outcome where
  | applied
  | notApplied
  deriving DecidableEq, Repr

/-- A succeeded step can be reconciled only while its receipt does not verify. -/
def unverified (fs : FileSystem) (step : StepRecord) : Except Exn Unit :=
  if step.state = .succeeded then
    match verifiedReceipt fs step with
    | .ok _ => .error (.reconciliationRequired "A verified outcome cannot be rewritten")
    | .error (.reconciliationRequired _) => .ok ()
    | .error e => .error e
  else .ok ()

/-- The evidence object, once it names the step and its arguments. -/
def boundEvidence (evidence : Json) (step : StepRecord) : Except Exn (Dict Json) :=
  match evidence with
  | .obj fields =>
      match fields.lookup "step_id", fields.lookup "arguments_digest" with
      | some (.str stepId), some (.str argsDigest) => do
          require (stepId == step.stepId && argsDigest == step.argumentsDigest)
            (.valueError "Reconciliation evidence does not match operation")
          pure fields
      | _, _ => .error (.valueError "Reconciliation evidence does not match operation")
  | _ => .error (.attributeError "object has no attribute 'get'")

def evidenceOutcome (evidence : Dict Json) : Except Exn Outcome :=
  match evidence.lookup "outcome" with
  | some (.str outcome) =>
      if outcome = "applied" then .ok .applied
      else if outcome = "not_applied" then .ok .notApplied
      else .error (.reconciliationRequired "Effect remains uncertain")
  | _ => .error (.reconciliationRequired "Effect remains uncertain")

/-- `receipt(evidence['result'], workspace)`. -/
def evidenceReceipt (fs : FileSystem) (evidence : Dict Json) (workspace : String) :
    Except Exn (Dict Json) := do
  let result ← orRaise (evidence.lookup "result") (.keyError "result")
  match result with
  | .obj fields => receipt fs fields workspace
  | _ => .error (.attributeError "object has no attribute 'get'")

/-- The two updates of `reconcile_step`. -/
def settleStep (fs : FileSystem) (evidence : Dict Json) (workspace stepId artifactId : String)
    (outcome : Outcome) (db : Database) : Except Exn Database :=
  match outcome with
  | .applied => do
      let safe ← evidenceReceipt fs evidence workspace
      let safeDigest ← digest (.obj safe)
      pure (db.updateSteps (fun s => s.stepId == stepId)
        (fun s => { s with
          state := .succeeded
          result := some safe
          resultDigest := some safeDigest
          evidenceRef := some artifactId
          error := none }) (fun _ => rfl))
  | .notApplied =>
      pure (db.updateSteps (fun s => s.stepId == stepId)
        (fun s => { s with state := .intent, evidenceRef := some artifactId, error := none })
        (fun _ => rfl))

def Outcome.value : Outcome → String
  | .applied => "applied"
  | .notApplied => "not_applied"

/-- The transaction of `reconcile_step`. -/
def reconcileStep (taskId stepId artifactId actor : String) (fs : FileSystem) (db : Database) :
    Except Exn (Outcome × Database) := do
  let task ← activeTask db taskId
  let step ← orRaise (db.steps.find (StepRecord.named taskId stepId))
    (.reconciliationRequired "Step is not awaiting reconciliation")
  require (step.state != .intent) (.reconciliationRequired "Step is not awaiting reconciliation")
  unverified fs step
  let artifact ← checkedArtifact fs db taskId artifactId
  let value ← readJson fs artifact.path
  let evidence ← boundEvidence value step
  let outcome ← evidenceOutcome evidence
  let db ← settleStep fs evidence task.workspace stepId artifactId outcome db
  pure (outcome, db.event task "step.reconciled" (some task.status)
    [("step_id", .str stepId), ("artifact_id", .str artifactId), ("actor", .str actor),
      ("outcome", .str outcome.value)])

end Dante
