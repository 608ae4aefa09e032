import Dante.Model.Request

/-! # Invoking a tool

The programs of `ledger.py` that span several connections, and `ToolBroker.invoke`. -/

namespace Dante

open JsonText Concurrent Program

variable [Platform]

namespace Programs

/-! ## Ledger operations over several connections -/

/-- `verified_step_result`. -/
def verifiedStepResult (taskId stepId : String) : Prog (Dict Json) := do
  let step : StepRecord ← ask (.getStep taskId stepId)
  let result : Dict Json ← ask (.verifiedReceipt step)
  match given step.evidenceRef with
  | none => pure result
  | some ref =>
      let _ ← (ask (.checkedArtifact taskId ref) : Prog Artifact).except fun e =>
        .raise (if e.isFileOrValue then
          .reconciliationRequired "Reconciliation evidence is unavailable or altered" else e)
      pure result

/-- `prepare_step`. -/
def prepareStep (owner : Option Lease) (taskId toolId toolVersion : String)
    (arguments : Dict Json) (idempotencyKey : Option String) : Prog StepRecord := do
  let prepared : Prepared ←
    ask (.prepareStep owner taskId toolId toolVersion arguments idempotencyKey)
  match prepared with
  | .existing step => pure step
  | .created stepId => ask (.getStep taskId stepId)

/-- `finish_step`. -/
def finishStep (owner : Option Lease) (taskId stepId : String) (result : Dict Json) :
    Prog StepRecord := do
  let task : Task ← ask (.getTask taskId)
  let safe : Dict Json ← ask (.receipt result task.workspace)
  let _ : Unit ← ask (.finishStep owner taskId stepId safe)
  ask (.getStep taskId stepId)

/-- `reconcile_step`. -/
def reconcileStep (taskId stepId artifactId actor : String) (executorStopped : Bool) :
    Prog StepRecord := do
  if !executorStopped || isBlank actor then
    .raise (.reconciliationRequired "Confirm executor quiescence and reconciliation actor")
  else
    let _ : Outcome ← ask (.reconcileStep taskId stepId artifactId actor)
    ask (.getStep taskId stepId)

/-! ## The broker -/

/-- `authorize`. -/
def authorize (broker : ToolBroker) (task : Task) (toolId : String) (arguments : Dict Json)
    (approvalId : Option String) (planHash : String) : Prog (Option ToolResult) := do
  let manifest ← ofExcept (broker.manifest toolId)
  if manifest.approvalPolicy == "never" then pure none
  else
    match approvalId with
    | none => pure (some (.denied .approvalRequired))
    | some approvalId =>
        let hash ← ofExcept (actionHash broker task toolId arguments planHash)
        Program.except (do
            let _ : Unit ← ask (.consumeAction approvalId task.taskId hash)
            pure none)
          fun
          | .permissionError _ => pure (some (.denied .approvalInvalid))
          | e => .raise e

/-- `record`. -/
def record (task : Task) (toolId : String) (result : ToolResult) (stepId : Option String) :
    Prog Unit := do
  let toolDigest ← ofExcept (digest (.str toolId))
  ask (.recordToolOutcome task.taskId toolDigest result.status.value stepId)

def uncertainResult : ToolResult :=
  { status := .uncertain, effectUncertain := true }

/-- `if step is not None: mark_uncertain(...)`. -/
def markKnown (owner : Option Lease) (taskId : String) (step : Option StepRecord) : Prog Unit :=
  match step with
  | some s => ask (.markUncertain owner taskId s.stepId "execution_failure")
  | none => pure ()

/-- The two `except` clauses of `invoke`, with the step known at that point. -/
def guarded {α : Type} (owner : Option Lease) (taskId : String) (step : Option StepRecord)
    (onReconciliation : α) (body : Prog α) : Prog α :=
  body.except fun
    | .reconciliationRequired _ => pure onReconciliation
    | e => do
        markKnown owner taskId step
        .raise e

/-- An invocation of a tool: the arguments of `invoke`, once they are checked. -/
structure Invocation where
  owner : Option Lease
  broker : ToolBroker
  task : Task
  manifest : ToolManifest
  toolId : String
  arguments : Dict Json
  approvalId : Option String
  planHash : String
  idempotencyKey : Option String

/-- The handler start of an invocation, for the step it has claimed. -/
def Invocation.call (v : Invocation) (step : StepRecord) : ToolCall where
  toolId := v.toolId
  taskId := v.task.taskId
  workspace := v.task.workspace
  stepId := step.stepId
  idempotencyKey := v.idempotencyKey
  manifest := v.manifest
  arguments := v.arguments
  planHash := v.planHash

/-- Authorise, then prepare the step. -/
def Invocation.prepare (v : Invocation) : Prog (ToolResult ⊕ StepRecord) := do
  let denied ← authorize v.broker v.task v.toolId v.arguments v.approvalId v.planHash
  match denied with
  | some result => pure (.inl result)
  | none =>
      let step ← prepareStep v.owner v.task.taskId v.toolId v.manifest.version v.arguments
        v.idempotencyKey
      pure (.inr step)

/-- Claim the step, run the handler, record what came of it. -/
def Invocation.execute (v : Invocation) (step : StepRecord) : Prog ToolResult := do
  let _ : Unit ← ask (.claimStep v.owner v.task.taskId step.stepId)
  let result : ToolResult ← ask (.runTool (v.call step))
  if result.status == .success then
    let _ ← finishStep v.owner v.task.taskId step.stepId (result.data.getD [])
    pure result
  else
    let _ : Unit ← ask (.markUncertain v.owner v.task.taskId step.stepId
      ((given result.errorType).getD result.status.value))
    pure result

/-- The branch of `invoke` for a step that may still be claimed. -/
def Invocation.attempt (v : Invocation) (step : Option StepRecord) :
    Prog (ToolResult × Option StepRecord) := do
  let prepared ← guarded v.owner v.task.taskId step (.inl uncertainResult) v.prepare
  match prepared with
  | .inl result => pure (result, step)
  | .inr step =>
      let result ← guarded v.owner v.task.taskId (some step) uncertainResult (v.execute step)
      pure (result, some step)

/-- What `invoke` does with the step it has looked up. -/
def Invocation.resolve (v : Invocation) (step : Option StepRecord) :
    Prog (ToolResult × Option StepRecord) :=
  match step with
  | none => v.attempt none
  | some s =>
      match s.state with
      | .intent => v.attempt (some s)
      | .started => pure (uncertainResult, some s)
      | .uncertain => pure (uncertainResult, some s)
      | .succeeded => do
          let result ← guarded v.owner v.task.taskId (some s) uncertainResult (do
            let data ← verifiedStepResult v.task.taskId s.stepId
            pure { status := .success, data := some data })
          pure (result, some s)

/-- The end of `invoke`: the step id is added to the result, and the outcome recorded. -/
def Invocation.conclude (v : Invocation) (outcome : ToolResult × Option StepRecord) :
    Prog ToolResult := do
  let result := { outcome.1 with stepId := outcome.2.map StepRecord.stepId }
  record v.task v.toolId result result.stepId
  pure result

/-- The part of `invoke` after a preflight that denies nothing. -/
def Invocation.run (v : Invocation) : Prog ToolResult :=
  .request (.lookupStep v.task.taskId v.toolId v.manifest.version v.arguments v.idempotencyKey)
    fun
    | .error (.valueError _) => do
        let result := ToolResult.denied .validationDenied
        record v.task v.toolId result none
        pure result
    | .error e => .raise e
    | .ok step => do
        let outcome ← v.resolve step
        v.conclude outcome

/-- `invoke`. Arguments that `digest` accepts are unchanged by the JSON round trip. -/
def invoke (broker : ToolBroker) (owner : Option Lease) (task : Task) (toolId : String)
    (arguments : Dict Json) (approvalId : Option String) (planHash : String)
    (idempotencyKey : Option String) : Prog ToolResult := do
  let task : Task ← ask (.getTask task.taskId)
  match digest (.obj arguments) with
  | .error _ =>
      let result := ToolResult.denied .validationDenied
      record task toolId result none
      pure result
  | .ok _ =>
      let denied : Option ToolResult ← ask (.preflight broker task toolId arguments)
      match denied with
      | some result =>
          record task toolId result none
          pure result
      | none =>
          let manifest ← ofExcept (broker.manifest toolId)
          Invocation.run ⟨owner, broker, task, manifest, toolId, arguments, approvalId, planHash,
            idempotencyKey⟩

/-- `ApprovalManager.request_tool`. -/
def requestTool (broker : ToolBroker) (task : Task) (toolId : String) (arguments : Dict Json)
    (planHash : String) : Prog (Approval × String) := do
  let denied : Option ToolResult ← ask (.preflight broker task toolId arguments)
  match denied with
  | some _ => .raise (.permissionError "Action is not admissible")
  | none =>
      let binding ← ofExcept (actionHash broker task toolId arguments planHash)
      ask (.requestApproval task.taskId "tool.execute" binding binding)

end Programs

end Dante
