import Dante.Model.Request
import Dante.Verification.Operations

/-! # The life of one task

Of the whole database only two things decide who may run a task: its status and its queue
row. This module describes how these two may move, and shows that every request moves them
so. Fencing, consistency and finality of cancellation follow from the description alone. -/

namespace Dante

open JsonText Relational Concurrent

/-! ## The abstract machine -/

/-- What is known of a task: its status, and its queue row if it was submitted. -/
structure View where
  status : Option TaskStatus
  row : Option QueueRow

/-- The status a task ends a lease with: a requested cancellation is carried out. -/
def QueueRow.settled (row : QueueRow) (status : TaskStatus) : TaskStatus :=
  if row.cancelRequested && !status.terminal then .cancelled else status

/-- The state a row may be left in when its lease ends. -/
def QueueState.EndsWith (state : QueueState) (status : TaskStatus) : Prop :=
  if status.terminal then state = .done else state = .ready ∨ state = .blocked

/-- The moves that requests name. -/
inductive Move where
  | silent
  | created (status : TaskStatus)
  | moved (target : TaskStatus)
  | granted (lease : Lease)
  | advanced
  deriving DecidableEq, Repr

/-- The lease that a move hands out. -/
@[simp] def Move.lease : Move → Option Lease
  | .granted lease => some lease
  | _ => none

/-- One move of a task. -/
inductive Lifecycle : Move → View → View → Prop where
  | stay (v : View) : Lifecycle .silent v v
  | already {v : View} {target : TaskStatus} (h : v.status = some target) :
      Lifecycle (.moved target) v v
  | created (status : TaskStatus) (row : Option QueueRow) :
      Lifecycle (.created status) ⟨none, row⟩ ⟨some status, row⟩
  | submitted (taskId : String) (plan : ExecutionPlan) :
      Lifecycle .silent ⟨none, none⟩ ⟨some .created, some (.submitted taskId plan)⟩
  | moved {status target : TaskStatus} {row : Option QueueRow}
      (hallowed : target ∈ transitions status)
      (hpermitted : ∀ r, row = some r → ∃ now owner, r.Accepts now false owner)
      (hcompleting : target = .completed → ∀ r, row = some r →
        ∃ now owner, r.Accepts now true owner) :
      Lifecycle (.moved target) ⟨some status, row⟩ ⟨some target, row⟩
  | granted {status : TaskStatus} {row : QueueRow} (workerId : String) (now leaseS : ℚ)
      (hready : row.state = .ready) (hkept : row.cancelRequested = false)
      (hlive : status.terminal = false) :
      Lifecycle (.granted ⟨row.taskId, workerId, row.generation + 1⟩) ⟨some status, some row⟩
        ⟨some status, some (row.claimed ⟨row.taskId, workerId, row.generation + 1⟩ now leaseS)⟩
  | renewed {status : Option TaskStatus} {row : QueueRow} {lease : Lease} {now : ℚ}
      (beat expires : ℚ) (haccepts : row.Accepts now false (some lease)) :
      Lifecycle .silent ⟨status, some row⟩
        ⟨status, some { row with heartbeatAt := some beat, leaseExpiresAt := some expires }⟩
  | advanced {status : Option TaskStatus} {row : QueueRow} {lease : Lease} {now : ℚ}
      (haccepts : row.Accepts now false (some lease)) :
      Lifecycle .advanced ⟨status, some row⟩
        ⟨status, some { row with nextAction := row.nextAction + 1 }⟩
  | ended {status : TaskStatus} {row : QueueRow} (state : QueueState) (failure : Option String)
      (retries : ℕ) (nextAttemptAt : ℚ) (hleased : row.state = .leased)
      (hstate : state.EndsWith (row.settled status)) :
      Lifecycle .silent ⟨some status, some row⟩ ⟨some (row.settled status), some { row with
        state := state
        leaseExpiresAt := none
        lastFailure := failure
        retryCount := retries
        nextAttemptAt := nextAttemptAt }⟩
  | flagged {status : TaskStatus} {row : QueueRow} (hlive : status.terminal = false)
      (hleased : row.state = .leased) :
      Lifecycle .silent ⟨some status, some row⟩
        ⟨some status, some { row with cancelRequested := true }⟩
  | cancelled {status : TaskStatus} {row : QueueRow} (hlive : status.terminal = false) :
      Lifecycle .silent ⟨some status, some row⟩ ⟨some .cancelled, some { row with
        cancelRequested := true, state := .done, leaseExpiresAt := none }⟩
  | retried {status : TaskStatus} {row : QueueRow} (retries : ℕ) (nextAttemptAt : ℚ)
      (hkept : row.cancelRequested = false) (hlive : status.terminal = false)
      (hunleased : row.state ≠ .leased) :
      Lifecycle .silent ⟨some status, some row⟩ ⟨some status, some { row with
        state := .ready, retryCount := retries, nextAttemptAt := nextAttemptAt }⟩

/-! ## The view of a database -/

def Database.view (db : Database) (taskId : String) : View :=
  ⟨(db.tasks.get? taskId).map (fun r => r.payload.status), db.queue.get? taskId⟩

variable {db db' : Database} {taskId other : String}

theorem view_congr (htasks : db'.tasks = db.tasks) (hqueue : db'.queue = db.queue) :
    db'.view taskId = db.view taskId := by
  simp only [Database.view, htasks, hqueue]

@[simp] theorem view_log (e : TaskEvent) : (db.log e).view taskId = db.view taskId := rfl

@[simp] theorem view_event (task : Task) (name : String) (previous : Option TaskStatus)
    (metadata : Dict Json) :
    (db.event task name previous metadata).view taskId = db.view taskId := rfl

/-- A change of payload fields other than the status is invisible. -/
theorem view_updateTask {f : Task → Task} (hf : ∀ t, (f t).taskId = t.taskId)
    (hstatus : ∀ t, (f t).status = t.status) :
    (db.updateTask other f hf).view taskId = db.view taskId := by
  simp only [Database.view, Database.updateTask_tasks, Database.updateTask_queue,
    Table.get?_modify]
  split
  · simp only [Option.map_map, Function.comp_def, hstatus]
  · rfl

theorem view_updateTask_ne {f : Task → Task} (hf : ∀ t, (f t).taskId = t.taskId)
    (hne : taskId ≠ other) : (db.updateTask other f hf).view taskId = db.view taskId := by
  simp only [Database.view, Database.updateTask_tasks, Database.updateTask_queue,
    Table.get?_modify, if_neg hne]

theorem view_updateTask_self {f : Task → Task} (hf : ∀ t, (f t).taskId = t.taskId)
    {row : TaskRow} (hrow : db.tasks.get? taskId = some row) :
    (db.updateTask taskId f hf).view taskId =
      ⟨some (f row.payload).status, db.queue.get? taskId⟩ := by
  simp only [Database.view, Database.updateTask_tasks, Database.updateTask_queue,
    Table.get?_modify, if_true, hrow, Option.map_some]

theorem view_updateQueue_ne {f : QueueRow → QueueRow} (hf : ∀ r, (f r).taskId = r.taskId)
    (hne : taskId ≠ other) : (db.updateQueue other f hf).view taskId = db.view taskId := by
  simp only [Database.view, Database.updateQueue_tasks, Database.updateQueue_queue,
    Table.get?_modify, if_neg hne]

theorem view_updateQueue_self {f : QueueRow → QueueRow} (hf : ∀ r, (f r).taskId = r.taskId) :
    (db.updateQueue taskId f hf).view taskId =
      ⟨(db.view taskId).status, (db.view taskId).row.map f⟩ := by
  simp only [Database.view, Database.updateQueue_tasks, Database.updateQueue_queue,
    Table.get?_modify, if_true]

theorem view_of_get? {row : TaskRow} {q : QueueRow} (hrow : db.tasks.get? taskId = some row)
    (hq : db.queue.get? taskId = some q) :
    db.view taskId = ⟨some row.payload.status, some q⟩ := by
  simp only [Database.view, hrow, hq, Option.map_some]

end Dante
