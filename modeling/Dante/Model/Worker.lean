import Dante.Model.AgentHost

/-! # One local task at a time, under a renewed lease -/

namespace Dante

open JsonText Concurrent Program

variable [Platform]

/-- `Worker`. The factory's host is used through its broker. -/
structure Worker where
  workerId : String
  leaseS : ℚ
  hostFactory : Task → Except Exn ToolBroker

/-- `f'worker-action:{index}'`. -/
def actionKey (index : ℕ) : String :=
  "worker-action:" ++ toString index

namespace Programs

/-- `_fail`. -/
def fail (lease : Lease) : Prog Unit := do
  let task : Task ← ask (.getTask lease.taskId)
  if executing task.status then
    let _ : Task ← ask (.transition (some lease) lease.taskId .failedRetryable
      (some "worker-blocked") [])
    pure ()
  else pure ()

/-- `except LeaseLost: self.stop.set()`. -/
def stopWhenLost (worker : Worker) (body : Prog Unit) : Prog Unit :=
  body.except fun
    | .leaseLost => ask (.setStop worker.workerId)
    | e => .raise e

/-- `if reason is not None: self._fail(...)`. -/
def failGiven (lease : Lease) : Option String → Prog Unit
  | some _ => fail lease
  | none => pure ()

/-- `_release_after_failure`. -/
def releaseAfterFailure (worker : Worker) (lease : Lease) (reason : Option String) : Prog Unit :=
  stopWhenLost worker do
    failGiven lease reason
    ask (.release lease reason none)

/-- A transition made only from the status `source`. -/
def moveFrom (lease : Lease) (task : Task) (source target : TaskStatus) : Prog Task :=
  if task.status == source then ask (.transition (some lease) lease.taskId target none [])
  else pure task

/-- The clause for `ContinuitySignal`. -/
def onContinuitySignal (worker : Worker) (lease : Lease) (outcome : ContinuityOutcome) :
    Prog Unit :=
  stopWhenLost worker <|
    match outcome.disposition with
    | .retryLater => do
        fail lease
        ask (.release lease (some outcome.reason) outcome.nextAttemptAt)
    | .terminal => do
        let current : Task ← ask (.getTask lease.taskId)
        let _ ← moveFrom lease current .failedRetryable .running
        let _ : Task ← ask (.transition (some lease) lease.taskId .failedTerminal
          (some outcome.reason) [])
        ask (.release lease none none)
    | .continueNow => releaseAfterFailure worker lease (some "invalid_continuity_signal")

/-- The `except` clauses of `run_once`. -/
def onFailure (worker : Worker) (lease : Lease) : Exn → Prog Unit
  | .continuitySignal outcome => onContinuitySignal worker lease outcome
  | .cancellationRequested => releaseAfterFailure worker lease none
  | .reconciliationRequired _ => releaseAfterFailure worker lease (some "reconciliation_required")
  | .toolDenied result => releaseAfterFailure worker lease (some result.status.value)
  | .leaseLost => ask (.setStop worker.workerId)
  | _ => releaseAfterFailure worker lease (some "worker_failure")

/-- An effect on record must still verify. -/
def inspectStep (taskId : String) (step : StepRecord) : Prog Unit :=
  if step.state == .intent then pure ()
  else do
    let _ ← verifiedStepResult taskId step.stepId
    pure ()

/-- The loop over every prior effect. -/
def inspectEffects (taskId : String) : List StepRecord → Prog Unit
  | [] => pure ()
  | step :: rest => do
      inspectStep taskId step
      inspectEffects taskId rest

/-- The tool request of a queued action. -/
def Action.request (action : Action) (index : ℕ) : ToolRequest where
  toolId := action.toolId
  arguments := action.arguments
  stopAfter := false
  idempotencyKey := some (actionKey index)
  approvalId := action.approvalId
  planHash := action.planHash

/-- One round of the loop over the plan. -/
def runAction (broker : ToolBroker) (lease : Lease) (action : Action) (index : ℕ) :
    Prog Unit := do
  let manifest ← ofExcept (broker.manifest action.toolId)
  if manifest.version != action.version then .raise (.toolDenied (.denied .policyDenied))
  else
    let _ ← executeToolAndCheckpoint broker (some lease) lease.taskId (Action.request action index)
    ask (.advance lease index)

/-- A worker that was asked to stop gives the task back; the answer tells whether it goes on. -/
def continues (worker : Worker) (lease : Lease) : Prog Bool := do
  let _ : Unit ← ask (.boundary lease)
  let stopped : Bool ← ask (.isStopped worker.workerId)
  if stopped then
    let _ : Unit ← ask (.release lease none none)
    pure false
  else pure true

/-- `while index < len(plan.actions)`, over the actions from `index` on. -/
def runActions (worker : Worker) (broker : ToolBroker) (lease : Lease) :
    List Action → ℕ → Prog Bool
  | [], _ => pure true
  | action :: rest, index => do
      let goesOn ← continues worker lease
      if goesOn then
        runAction broker lease action index
        runActions worker broker lease rest (index + 1)
      else pure false

/-- `CREATED` and `PLANNED` tasks are taken to `RUNNING`. -/
def begin (lease : Lease) : Prog Task := do
  let task : Task ← ask (.getTask lease.taskId)
  let task ← moveFrom lease task .created .planned
  moveFrom lease task .planned .running

/-- The end of `run_once` after the last action. -/
def finishPlan (worker : Worker) (lease : Lease) : Prog Unit := do
  let goesOn ← continues worker lease
  if goesOn then
    let finished ← complete (some lease) lease.taskId none none
    ask (.release lease
      (if finished.status == .completed then none else some "acceptance_incomplete") none)
  else pure ()

/-- The `try` block of `run_once`. -/
def executePlan (worker : Worker) (lease : Lease) : Prog Unit := do
  let _ : Unit ← ask (.boundary lease)
  let task ← begin lease
  let steps : List StepRecord ← ask (.steps lease.taskId)
  inspectEffects lease.taskId steps
  let broker ← ofExcept (worker.hostFactory task)
  let _ ← resume (some lease) lease.taskId
  let planned : QueueRow ← ask (.queueRow lease.taskId)
  let current : QueueRow ← ask (.queueRow lease.taskId)
  let _ : Task ← ask (.getTask lease.taskId)
  let index := current.nextAction
  let goesOn ← runActions worker broker lease (planned.plan.actions.drop index) index
  if goesOn then finishPlan worker lease else pure ()

/-- `run_once`. Lease renewal runs as a program of its own. -/
def runOnce (worker : Worker) : Prog Bool := do
  let stopped : Bool ← ask (.isStopped worker.workerId)
  if stopped then pure false
  else
    let _ : ℕ ← ask .recoverExpired
    let lease : Option Lease ← ask (.claim worker.workerId worker.leaseS)
    match lease with
    | none => pure false
    | some lease =>
        (executePlan worker lease).except (onFailure worker lease)
        pure true

/-- `run`, for at most `n` rounds of its loop. -/
def run (worker : Worker) : ℕ → Prog Unit
  | 0 => pure ()
  | n + 1 => do
      let stopped : Bool ← ask (.isStopped worker.workerId)
      if stopped then pure ()
      else
        let _ : Bool ← runOnce worker
        run worker n

/-- At most `n` rounds of the heartbeat thread. -/
def renew (worker : Worker) (lease : Lease) : ℕ → Prog Unit
  | 0 => pure ()
  | n + 1 => .request (.heartbeat lease worker.leaseS) fun
      | .ok _ => renew worker lease n
      | .error _ => ask (.setStop worker.workerId)

end Programs

end Dante
