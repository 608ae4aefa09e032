import Dante.Model.ToolBroker

/-! # Orchestration of one task -/

namespace Dante

open JsonText Concurrent Program

variable [Platform]

namespace Programs

/-- `start`. -/
def start (owner : Option Lease) (task : Task) (acceptance : Option AcceptanceContract) :
    Prog Task := do
  let created : Task ← ask (.createTask task acceptance)
  let _ : Task ← ask (.transition owner created.taskId .planned (some "planned") [])
  ask (.transition owner created.taskId .running (some "routing") [])

/-- The statuses from which an unverified effect makes a task retryable. -/
def executing (status : TaskStatus) : Bool :=
  status == .running || status == .waitingTool || status == .verifying

/-- `verified_step_result`, with `ReconciliationRequired` caught. -/
def stepVerifies (taskId stepId : String) : Prog Bool :=
  Program.except (do
      let _ ← verifiedStepResult taskId stepId
      pure true)
    fun
    | .reconciliationRequired _ => pure false
    | e => .raise e

/-- The loop of `resume`. -/
def resumeScan (owner : Option Lease) (task : Task) : List StepRecord → Prog Task
  | [] =>
      if task.status == .waitingTool || task.status == .failedRetryable then
        ask (.transition owner task.taskId .running (some "resumed") [])
      else pure task
  | step :: rest =>
      if step.state == .intent then resumeScan owner task rest
      else do
        let verified ← stepVerifies task.taskId step.stepId
        if verified then resumeScan owner task rest
        else if executing task.status then
          ask (.transition owner task.taskId .failedRetryable
            (some ("reconcile:" ++ step.stepId)) [])
        else pure task

/-- `resume`. -/
def resume (owner : Option Lease) (taskId : String) : Prog Task := do
  let task : Task ← ask (.getTask taskId)
  let steps : List StepRecord ← ask (.steps taskId)
  resumeScan owner task steps

/-- The arguments of one `execute_tool_and_checkpoint`. -/
structure ToolRequest where
  toolId : String
  arguments : Dict Json
  stopAfter : Bool
  idempotencyKey : Option String
  approvalId : Option String
  planHash : String

/-- A task that failed earlier is resumed before it runs another tool. -/
def resumeFailed (owner : Option Lease) (task : Task) : Prog Unit := do
  if task.status == .failedRetryable then
    let resumed ← resume owner task.taskId
    if resumed.status == .failedRetryable then
      .raise (.reconciliationRequired "Unresolved task effects require reconciliation")
    else pure ()
  else pure ()

/-- The `try` block of `execute_tool_and_checkpoint`. -/
def runTool (broker : ToolBroker) (owner : Option Lease) (task : Task) (r : ToolRequest) :
    Prog (Dict Json) := do
  resumeFailed owner task
  let task : Task ← ask (.transition owner task.taskId .waitingTool (some ("tool:" ++ r.toolId)) [])
  let outcome ← invoke broker owner task r.toolId r.arguments r.approvalId r.planHash
    r.idempotencyKey
  if outcome.status == .uncertain then
    .raise (.reconciliationRequired "Prior tool invocation requires reconciliation")
  else if outcome.status != .success then .raise (.toolDenied outcome)
  else
    let stepId := outcome.stepId.getD ""
    let result ← verifiedStepResult task.taskId stepId
    let _ : Task ← ask (.checkpoint owner task.taskId ("tool:" ++ r.toolId ++ ":complete")
      [("step_id", .str stepId)])
    if r.stopAfter then pure result
    else
      let _ : Task ← ask (.transition owner task.taskId .running (some "post-tool") [])
      pure result

/-- `execute_tool_and_checkpoint`. -/
def executeToolAndCheckpoint (broker : ToolBroker) (owner : Option Lease) (taskId : String)
    (r : ToolRequest) : Prog (Dict Json) := do
  let task : Task ← ask (.getTask taskId)
  (runTool broker owner task r).except fun e => do
    let current : Task ← ask (.getTask taskId)
    if current.status == .running || current.status == .waitingTool then
      let _ : Task ← ask (.transition owner taskId .failedRetryable (some "reconcile-or-retry") [])
      .raise e
    else .raise e

def bindGiven (taskId : String) : Option AcceptanceContract → Prog Unit
  | some contract => ask (.bindAcceptance taskId contract)
  | none => pure ()

def recordGiven (taskId : String) : Option ObservedAcceptance → Prog Unit
  | some observed => ask (.recordObservations taskId observed)
  | none => pure ()

/-- A task that is not yet being verified is moved to `VERIFYING`. -/
def enterVerifying (owner : Option Lease) (taskId : String) : Prog Unit := do
  let task : Task ← ask (.getTask taskId)
  if task.status == .verifying then pure ()
  else
    let _ : Task ← ask (.transition owner taskId .verifying (some "verifying-acceptance") [])
    pure ()

/-- `verify_acceptance`. -/
def verifyAcceptance (owner : Option Lease) (taskId : String)
    (contract : Option AcceptanceContract) (observed : Option ObservedAcceptance) :
    Prog AcceptanceResult := do
  bindGiven taskId contract
  recordGiven taskId observed
  enterVerifying owner taskId
  let result : AcceptanceResult ← ask (.verifyPersistentAcceptance taskId)
  let _ : Task ← ask (.checkpoint owner taskId "acceptance:verified" result.dump)
  pure result

/-- `complete`. -/
def complete (owner : Option Lease) (taskId : String) (contract : Option AcceptanceContract)
    (observed : Option ObservedAcceptance) : Prog Task := do
  let task : Task ← ask (.getTask taskId)
  if task.status == .completed then ask (.getTask taskId)
  else
    let result ← verifyAcceptance owner taskId contract observed
    if result.acceptanceComplete then
      ask (.transition owner taskId .completed (some "completed") [])
    else
      ask (.transition owner taskId .failedRetryable (some "acceptance-incomplete") result.dump)

/-- `complete_with_one_continuation`. What `continue_missing` does is the caller's. -/
def completeWithOneContinuation (owner : Option Lease) (taskId : String)
    (contract : AcceptanceContract) (observed : ObservedAcceptance)
    (continueMissing : String → Prog ObservedAcceptance) (knownFinalFields : Dict String) :
    Prog (Task × AcceptanceResult) := do
  let first ← verifyAcceptance owner taskId (some contract) (some observed)
  if first.acceptanceComplete then
    let task : Task ← ask (.transition owner taskId .completed (some "completed") [])
    pure (task, first)
  else
    let _ : Task ← ask
      (.transition owner taskId .failedRetryable (some "acceptance-incomplete") first.dump)
    let _ : Task ← resume owner taskId
    let more ← continueMissing
      (continuationPrompt first knownFinalFields contract.instructions)
    let second ← verifyAcceptance owner taskId (some contract) (some (observed.merged more))
    let target : TaskStatus := if second.acceptanceComplete then .completed else .failedRetryable
    let step := if second.acceptanceComplete then "completed" else "acceptance-incomplete"
    let task : Task ← ask (.transition owner taskId target (some step) second.dump)
    pure (task, second)

/-- The operations on a task that is there already, `infer` apart. -/
inductive HostOperation where
  | executeToolAndCheckpoint (broker : ToolBroker) (r : ToolRequest)
  | resume
  | verifyAcceptance (contract : Option AcceptanceContract) (observed : Option ObservedAcceptance)
  | complete (contract : Option AcceptanceContract) (observed : Option ObservedAcceptance)
  | completeWithOneContinuation (contract : AcceptanceContract) (observed : ObservedAcceptance)
      (continueMissing : String → Prog ObservedAcceptance) (knownFinalFields : Dict String)

/-- The operation as a process of its own. -/
def HostOperation.program (owner : Option Lease) (taskId : String) : HostOperation → Prog Unit
  | .executeToolAndCheckpoint broker r => do
      let _ ← Programs.executeToolAndCheckpoint broker owner taskId r
      pure ()
  | .resume => do
      let _ : Task ← Programs.resume owner taskId
      pure ()
  | .verifyAcceptance contract observed => do
      let _ ← Programs.verifyAcceptance owner taskId contract observed
      pure ()
  | .complete contract observed => do
      let _ : Task ← Programs.complete owner taskId contract observed
      pure ()
  | .completeWithOneContinuation contract observed continueMissing knownFinalFields => do
      let _ ← Programs.completeWithOneContinuation owner taskId contract observed continueMissing
        knownFinalFields
      pure ()

end Programs

end Dante
