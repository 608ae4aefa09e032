import Dante.Library.Table
import Dante.Model.Recovery
import Mathlib.Tactic.Simps.Basic

/-! # The tables of the ledger database -/

namespace Dante

open JsonText Relational

/-! ## Rows -/

structure TaskRow where
  payload : Task
  revision : ℕ

structure AcceptanceRow where
  taskId : String
  contract : AcceptanceContract
  strict : Bool
  locked : Bool
  attestations : ObservedAcceptance
  finalEvidence : Dict String

inductive QueueState where
  | ready
  | leased
  | blocked
  | done
  deriving DecidableEq, Repr

structure QueueRow where
  taskId : String
  plan : ExecutionPlan
  state : QueueState
  nextAction : ℕ
  workerId : Option String
  generation : ℕ
  claimedAt : Option ℚ
  leaseExpiresAt : Option ℚ
  heartbeatAt : Option ℚ
  attempt : ℕ
  retryCount : ℕ
  nextAttemptAt : ℚ
  lastFailure : Option String
  cancelRequested : Bool

/-- `INSERT INTO task_queue(task_id,plan)`, with the column defaults. -/
def QueueRow.submitted (taskId : String) (plan : ExecutionPlan) : QueueRow where
  taskId := taskId
  plan := plan
  state := .ready
  nextAction := 0
  workerId := none
  generation := 0
  claimedAt := none
  leaseExpiresAt := none
  heartbeatAt := none
  attempt := 0
  retryCount := 0
  nextAttemptAt := 0
  lastFailure := none
  cancelRequested := false

inductive ApprovalStatus where
  | pending
  | approved
  | rejected
  | executed
  deriving DecidableEq, Repr

structure Approval where
  approvalId : String
  taskId : String
  action : String
  target : String
  planHash : String
  status : ApprovalStatus
  decidedBy : Option String

structure ApprovalRow where
  payload : Approval
  tokenHash : String
  consumed : Bool

/-- Of a task's continuity state the queue reads only the next attempt. -/
structure ContinuityRow where
  taskId : String
  nextAttemptAt : Option ℚ

structure TaskEvent where
  taskId : String
  event : String
  fromStatus : Option TaskStatus
  toStatus : TaskStatus
  metadata : Dict Json

/-! ## Keys -/

instance : Keyed TaskRow String := ⟨fun r => r.payload.taskId⟩
instance : Keyed AcceptanceRow String := ⟨AcceptanceRow.taskId⟩
instance : Keyed QueueRow String := ⟨QueueRow.taskId⟩
instance : Keyed RouteDecision String := ⟨RouteDecision.routeId⟩
instance : Keyed Artifact String := ⟨Artifact.artifactId⟩
instance : Keyed ApprovalRow String := ⟨fun r => r.payload.approvalId⟩
instance : Keyed ContinuityRow String := ⟨ContinuityRow.taskId⟩

/-- `step_id` is the primary key, `(task_id, idempotency_key)` is unique. -/
instance : Row StepRecord :=
  ⟨String × String × String, fun s => (s.stepId, s.taskId, s.idempotencyKey),
    fun a b => a.1 == b.1 || a.2 == b.2⟩

/-- `WHERE task_id=? AND step_id=?`. -/
def StepRecord.named (taskId stepId : String) (s : StepRecord) : Bool :=
  s.taskId == taskId && s.stepId == stepId

/-- `WHERE task_id=? AND idempotency_key=?`. -/
def StepRecord.keyed (taskId key : String) (s : StepRecord) : Bool :=
  s.taskId == taskId && s.idempotencyKey == key

/-- `WHERE artifact_id=? AND task_id=?`. -/
def Artifact.ownedBy (taskId artifactId : String) (a : Artifact) : Bool :=
  a.artifactId == artifactId && a.taskId == taskId

theorem StepRecord.named_determines (taskId stepId : String) :
    Determines (StepRecord.named taskId stepId) := by
  intro a b ha hb
  simp only [named, Bool.and_eq_true, beq_iff_eq] at ha hb
  simp [clashes, Row.clash, Row.key, ha, hb]

theorem StepRecord.keyed_determines (taskId key : String) :
    Determines (StepRecord.keyed taskId key) := by
  intro a b ha hb
  simp only [keyed, Bool.and_eq_true, beq_iff_eq] at ha hb
  simp [clashes, Row.clash, Row.key, ha, hb]

/-! ## The database -/

structure Database where
  tasks : Table TaskRow
  acceptance : Table AcceptanceRow
  steps : Table StepRecord
  queue : Table QueueRow
  routes : Table RouteDecision
  artifacts : Table Artifact
  approvals : Table ApprovalRow
  continuity : Table ContinuityRow
  events : List TaskEvent

namespace Database

def empty : Database where
  tasks := .empty
  acceptance := .empty
  steps := .empty
  queue := .empty
  routes := .empty
  artifacts := .empty
  approvals := .empty
  continuity := .empty
  events := []

variable (db : Database)

/-- `SELECT * FROM execution_steps WHERE task_id=?`. -/
def stepsOf (taskId : String) : List StepRecord :=
  db.steps.rows.filter (fun s => s.taskId == taskId)

/-- `SELECT * FROM artifacts WHERE task_id=?`. -/
def artifactsOf (taskId : String) : List Artifact :=
  db.artifacts.rows.filter (fun a => a.taskId == taskId)

/-- Append one event. -/
@[simps] def log (e : TaskEvent) : Database :=
  { db with events := db.events ++ [e] }

/-- `_event`. -/
@[simps] def event (task : Task) (name : String) (previous : Option TaskStatus)
    (metadata : Dict Json) : Database :=
  { db with events := db.events ++ [⟨task.taskId, name, previous, task.status, metadata⟩] }

/-- `UPDATE tasks SET payload=?,revision=revision+1 WHERE task_id=?`. The payload written is
the stored one, with the fields that `f` changes. -/
@[simps] def updateTask (taskId : String) (f : Task → Task) (hf : ∀ t, (f t).taskId = t.taskId) :
    Database :=
  { db with
    tasks := db.tasks.modify taskId
      (fun r => { payload := f r.payload, revision := r.revision + 1 }) (fun r => hf r.payload) }

@[simps] def updateAcceptance (taskId : String) (f : AcceptanceRow → AcceptanceRow)
    (hf : ∀ r, (f r).taskId = r.taskId) : Database :=
  { db with acceptance := db.acceptance.modify taskId f hf }

@[simps] def updateQueue (taskId : String) (f : QueueRow → QueueRow)
    (hf : ∀ r, (f r).taskId = r.taskId) : Database :=
  { db with queue := db.queue.modify taskId f hf }

@[simps] def updateSteps (p : StepRecord → Bool) (f : StepRecord → StepRecord)
    (hf : KeepsKey f) : Database :=
  { db with steps := db.steps.update p f hf }

@[simps] def updateApproval (approvalId : String) (f : ApprovalRow → ApprovalRow)
    (hf : ∀ r, (f r).payload.approvalId = r.payload.approvalId) : Database :=
  { db with approvals := db.approvals.modify approvalId f hf }

end Database

end Dante
