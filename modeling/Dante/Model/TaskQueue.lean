import Dante.Model.Acceptance
import Dante.Model.Database

/-! # Persistent scheduling and fenced ownership -/

namespace Dante

open JsonText Relational

variable [Platform]

/-! ## Plans as JSON -/

mutual
/-- The value after `model_validate_json(model_dump_json())`, which writes infinite and
undefined floats as `null`. -/
def revalidated : Json → Json
  | .nonFinite _ => .null
  | .arr items => .arr (revalidatedItems items)
  | .obj fields => .obj (revalidatedFields fields)
  | v => v
def revalidatedItems : List Json → List Json
  | [] => []
  | v :: items => revalidated v :: revalidatedItems items
def revalidatedFields : List (String × Json) → List (String × Json)
  | [] => []
  | (k, v) :: fields => (k, revalidated v) :: revalidatedFields fields
end

/-- The task as its stored payload reads back. -/
def Task.stored (t : Task) : Task :=
  { t with checkpoint := revalidatedFields t.checkpoint }

def Artifact.stored (a : Artifact) : Artifact :=
  { a with provenance := revalidatedFields a.provenance }

def Action.revalidated (a : Action) : Action :=
  { a with arguments := revalidatedFields a.arguments }

def ExecutionPlan.revalidated (plan : ExecutionPlan) : ExecutionPlan :=
  { plan with
    actions := plan.actions.map Action.revalidated
    nonempty := by simpa using plan.nonempty
    bounded := by simpa using plan.bounded }

def dumpSet (s : Finset String) : Json :=
  .arr ((Platform.setOrder s).map .str)

def dumpOption (s : Option String) : Json :=
  s.elim .null .str

def dumpTexts (d : Dict String) : Json :=
  .obj (d.map (fun f => (f.1, .str f.2)))

def Action.dump (a : Action) : Json :=
  .obj [("tool_id", .str a.toolId), ("version", .str a.version), ("arguments", .obj a.arguments),
    ("approval_id", dumpOption a.approvalId), ("plan_hash", .str a.planHash)]

def AcceptanceContract.dump (c : AcceptanceContract) : Json :=
  .obj [("required_tools", dumpSet c.requiredTools),
    ("required_artifacts", dumpSet c.requiredArtifacts),
    ("required_final_fields", dumpSet c.requiredFinalFields),
    ("instructions", dumpTexts c.instructions)]

/-- `plan.model_dump(mode='json')`. -/
def ExecutionPlan.dump (plan : ExecutionPlan) : Json :=
  .obj [("actions", .arr (plan.actions.map Action.dump)), ("acceptance", plan.acceptance.dump)]

/-- The JSON text of a dumped model. -/
def dumpJson (v : Json) : String :=
  String.ofList (text [] v)

def sensitiveKey (key : String) : Bool :=
  ["password", "secret", "api_key", "token", "access_token"].contains (Platform.lower key)

mutual
/-- A key at any depth names a credential. -/
def sensitive : Json → Bool
  | .arr items => sensitiveItems items
  | .obj fields => sensitiveFields fields
  | _ => false
def sensitiveItems : List Json → Bool
  | [] => false
  | v :: items => sensitive v || sensitiveItems items
def sensitiveFields : List (String × Json) → Bool
  | [] => false
  | (k, v) :: fields => sensitiveKey k || sensitive v || sensitiveFields fields
end

/-! ## Leases -/

/-- The row is leased to `owner`, whatever the time. -/
def QueueRow.ownedBy (row : QueueRow) (taskId : String) : Option Lease → Bool
  | none => false
  | some lease =>
      lease.taskId == taskId && row.state == .leased && row.workerId == some lease.workerId &&
        row.generation == lease.generation

/-- `assert_lease`. A task that is not queued needs no lease. -/
def assertLease (db : Database) (now : ℚ) (taskId : String) (beforeEffect : Bool)
    (owner : Option Lease) : Except Exn (Option QueueRow) :=
  match db.queue.get? taskId with
  | none => .ok none
  | some row => do
      require (row.ownedBy taskId owner) .leaseLost
      let expiresAt ← orRaise row.leaseExpiresAt (.typeError "'<=' not supported")
      require (now < expiresAt) .leaseLost
      require (!(beforeEffect && row.cancelRequested)) .cancellationRequested
      pure (some row)

/-- `assert_lease` where the row is not used. -/
def requireLease (db : Database) (now : ℚ) (taskId : String) (beforeEffect : Bool)
    (owner : Option Lease) : Except Exn Unit := do
  let _ ← assertLease db now taskId beforeEffect owner
  pure ()

/-- `positive`. -/
def positive (value : ℚ) : Except Exn Unit :=
  require (0 < value) (.valueError "Interval must be finite and positive")

/-- `TaskQueue._event`. -/
def queueEvent (db : Database) (taskId name : String) (metadata : Dict Json) :
    Except Exn Database := do
  let row ← orRaise (db.tasks.get? taskId) (.typeError "'NoneType' object is not subscriptable")
  pure (db.event row.payload name (some row.payload.status) metadata)

/-! ## Queue operations -/

/-- `TaskQueue.submit`. -/
def submit (task : Task) (plan : ExecutionPlan) (db : Database) : Except Exn (Task × Database) := do
  let plan := plan.revalidated
  let _ ← digest plan.dump
  require (task.status == .created && !sensitive plan.dump &&
      classify (task.goal ++ dumpJson plan.dump) task.privacyClass != .secret)
    (.valueError "Only new tasks with non-secret local plans can be queued")
  let acceptance := { plan.acceptance with
    requiredTools := plan.acceptance.requiredTools ∪ (plan.actions.map Action.toolId).toFinset }
  let tasks ← orRaise (db.tasks.insert ⟨task.stored, 0⟩) .integrityError
  let accepted ← orRaise
    (db.acceptance.insert ⟨task.taskId, acceptance, true, true, .default, []⟩) .integrityError
  let queue ← orRaise (db.queue.insert (.submitted task.taskId plan)) .integrityError
  let db := { db with tasks := tasks, acceptance := accepted, queue := queue }
  let db := db.event task "task.created" none []
  let db := db.event task "worker.submitted" none [("action_count", .int plan.actions.length)]
  pure (task, db)

/-- What `status` and `list` show of a row: all but its plan, and the task's status. -/
structure QueueEntry where
  row : QueueRow
  taskStatus : TaskStatus

/-- `TaskQueue.status`. -/
def queueStatus (taskId : String) (db : Database) : Except Exn QueueEntry := do
  let row ← orRaise (db.queue.get? taskId) (.keyError taskId)
  let taskRow ← orRaise (db.tasks.get? taskId) (.keyError taskId)
  pure ⟨row, taskRow.payload.status⟩

/-- The filter of `TaskQueue.list`. -/
def QueueRow.runnable (now : ℚ) (row : QueueRow) : Except Exn Bool :=
  if row.cancelRequested then .ok false
  else if row.state = .ready ∧ row.nextAttemptAt ≤ now then .ok true
  else if row.state = .leased then do
    let expiresAt ← orRaise row.leaseExpiresAt (.typeError "'<=' not supported")
    pure (expiresAt ≤ now)
  else .ok false

def runnableEntries (now : ℚ) : List QueueEntry → Except Exn (List QueueEntry)
  | [] => .ok []
  | entry :: entries => do
      let due ← entry.row.runnable now
      let rest ← runnableEntries now entries
      pure (if due then entry :: rest else rest)

/-- `TaskQueue.list`. -/
def queueList (runnable : Bool) (now : ℚ) (db : Database) : Except Exn (List QueueEntry) := do
  let entries ← db.queue.rows.mapM (fun row => queueStatus row.taskId db)
  if runnable then runnableEntries now entries else pure entries

omit [Platform] in
theorem Task.cancelled_taskId (t : Task) : ({ t with status := .cancelled } : Task).taskId = t.taskId :=
  rfl

omit [Platform] in
theorem StepRecord.expired_keepsKey : KeepsKey fun s : StepRecord =>
    { s with state := .uncertain, error := some "lease_expired" } :=
  fun _ => rfl

/-- `_cancel_task`. -/
def cancelTask (db : Database) (task : Task) : Except Exn (Task × Database) := do
  require ((transitions task.status).contains .cancelled) (.valueError "Task cannot be cancelled")
  let cancelled := { task with status := .cancelled }
  let db := db.updateTask task.taskId (fun t => { t with status := .cancelled })
    Task.cancelled_taskId
  pure (cancelled, db.event cancelled "task.transition" (some task.status)
    [("reason", .str "cancel_requested")])

/-- `if cancel_requested and task.status not in TERMINAL: _cancel_task(db, task)`. -/
def cancelIfRequested (db : Database) (row : QueueRow) (task : Task) :
    Except Exn (Task × Database) :=
  if row.cancelRequested && !task.status.terminal then cancelTask db task else .ok (task, db)

/-- What `recover_expired` does for one expired row. -/
def recoverRow (row : QueueRow) (db : Database) : Except Exn Database := do
  let db := db.updateSteps (fun s => s.taskId == row.taskId && s.state == .started)
    (fun s => { s with state := .uncertain, error := some "lease_expired" })
    StepRecord.expired_keepsKey
  let taskRow ← orRaise (db.tasks.get? row.taskId)
    (.typeError "'NoneType' object is not subscriptable")
  let (task, db) ← cancelIfRequested db row taskRow.payload
  let state := if task.status.terminal then .done else .ready
  let resumeAt := ((db.continuity.get? row.taskId).bind ContinuityRow.nextAttemptAt).getD 0
  let db := db.updateQueue row.taskId
    (fun r => { r with
      state := state, leaseExpiresAt := none, nextAttemptAt := max r.nextAttemptAt resumeAt })
    (fun _ => rfl)
  queueEvent db row.taskId "worker.recovered" [("worker_id", dumpOption row.workerId),
    ("generation", .int row.generation), ("reason", .str "lease_expired")]

/-- `state='leased' AND lease_expires_at<=?`. -/
def QueueRow.expired (now : ℚ) (row : QueueRow) : Bool :=
  row.state == .leased && row.leaseExpiresAt.any (· ≤ now)

/-- `TaskQueue.recover_expired`. -/
def recoverExpired (now : ℚ) (db : Database) : Except Exn (ℕ × Database) := do
  let rows := db.queue.rows.filter (QueueRow.expired now)
  let db ← rows.foldlM (fun db row => recoverRow row db) db
  pure (rows.length, db)

/-- The rows `claim` selects from. -/
def QueueRow.claimable (db : Database) (now : ℚ) (row : QueueRow) : Bool :=
  row.state == .ready && !row.cancelRequested && row.nextAttemptAt ≤ now &&
    ((db.continuity.get? row.taskId).bind ContinuityRow.nextAttemptAt).getD 0 ≤ now &&
    (db.tasks.get? row.taskId).any (fun t => !t.payload.status.terminal)

/-- `ORDER BY next_attempt_at,rowid LIMIT 1`. -/
def earliest : List QueueRow → Option QueueRow
  | [] => none
  | row :: rows =>
      match earliest rows with
      | none => some row
      | some other => if other.nextAttemptAt < row.nextAttemptAt then some other else some row

/-- The row after a successful claim. -/
def QueueRow.claimed (row : QueueRow) (lease : Lease) (now leaseS : ℚ) : QueueRow :=
  { row with
    state := .leased
    workerId := some lease.workerId
    generation := lease.generation
    claimedAt := some now
    leaseExpiresAt := some (now + leaseS)
    heartbeatAt := some now
    attempt := row.attempt + 1 }

omit [Platform] in
@[simp] theorem QueueRow.claimed_taskId (row : QueueRow) (lease : Lease) (now leaseS : ℚ) :
    (row.claimed lease now leaseS).taskId = row.taskId := rfl

/-- `TaskQueue.claim`. -/
def claim (workerId : String) (leaseS now : ℚ) (db : Database) :
    Except Exn (Option Lease × Database) := do
  positive leaseS
  require (!isBlank workerId) (.valueError "Worker identity required")
  match earliest (db.queue.rows.filter (QueueRow.claimable db now)) with
  | none => pure (none, db)
  | some row =>
      let lease : Lease := ⟨row.taskId, workerId, row.generation + 1⟩
      let db := db.updateQueue row.taskId (fun r => r.claimed lease now leaseS)
        (fun r => r.claimed_taskId lease now leaseS)
      let db ← queueEvent db lease.taskId "worker.claimed"
        [("worker_id", .str workerId), ("generation", .int lease.generation)]
      pure (some lease, db)

/-- `TaskQueue.heartbeat`. -/
def heartbeat (lease : Lease) (leaseS : ℚ) (clock : ℕ → ℚ) (db : Database) :
    Except Exn (Unit × Database) := do
  positive leaseS
  requireLease db (clock 0) lease.taskId false (some lease)
  let now := clock 1
  let db := db.updateQueue lease.taskId
    (fun r => { r with heartbeatAt := some now, leaseExpiresAt := some (now + leaseS) })
    (fun _ => rfl)
  let db ← queueEvent db lease.taskId "worker.heartbeat"
    [("worker_id", .str lease.workerId), ("generation", .int lease.generation)]
  pure ((), db)

/-- `TaskQueue.boundary`. -/
def boundary (lease : Lease) (now : ℚ) (db : Database) : Except Exn Unit :=
  requireLease db now lease.taskId true (some lease)

/-- `TaskQueue.advance`. -/
def advance (lease : Lease) (index : ℕ) (now : ℚ) (db : Database) :
    Except Exn (Unit × Database) := do
  let held ← assertLease db now lease.taskId false (some lease)
  let row ← orRaise held (.typeError "'NoneType' object is not subscriptable")
  require (row.nextAction == index) (.valueError "Unexpected action checkpoint")
  let db := db.updateQueue lease.taskId (fun r => { r with nextAction := index + 1 }) (fun _ => rfl)
  let db ← queueEvent db lease.taskId "worker.checkpoint"
    [("generation", .int lease.generation), ("next_action", .int (index + 1))]
  pure ((), db)

/-- The state `release` leaves the row in. -/
def releasedState (status : TaskStatus) (blocked : Option String) (retryAt : Option ℚ) :
    QueueState :=
  if status.terminal then .done
  else if blocked.any (· ≠ "") && retryAt.isNone then .blocked
  else .ready

def QueueState.value : QueueState → String
  | .ready => "ready"
  | .leased => "leased"
  | .blocked => "blocked"
  | .done => "done"

/-- `release` with a retry time postpones a row it made ready. -/
def scheduleRetry (db : Database) (taskId : String) (state : QueueState)
    (blocked : Option String) (retryAt : Option ℚ) : Except Exn Database :=
  match retryAt, state with
  | some time, .ready =>
      let db := db.updateQueue taskId
        (fun r => { r with nextAttemptAt := time, retryCount := r.retryCount + 1 }) (fun _ => rfl)
      queueEvent db taskId "worker.retry_scheduled"
        [("next_attempt_at", .float (Platform.floatText time)), ("reason", dumpOption blocked)]
  | _, _ => .ok db

/-- `TaskQueue.release`. -/
def release (lease : Lease) (blocked : Option String) (retryAt : Option ℚ) (now : ℚ)
    (db : Database) : Except Exn (Unit × Database) := do
  require (retryAt.all (0 < ·)) (.valueError "Invalid retry timestamp")
  let held ← assertLease db now lease.taskId false (some lease)
  let taskRow ← orRaise (db.tasks.get? lease.taskId)
    (.typeError "'NoneType' object is not subscriptable")
  let row ← orRaise held (.typeError "'NoneType' object is not subscriptable")
  let (task, db) ← cancelIfRequested db row taskRow.payload
  let state := releasedState task.status blocked retryAt
  let db := db.updateQueue lease.taskId
    (fun r => { r with state := state, leaseExpiresAt := none, lastFailure := blocked })
    (fun _ => rfl)
  let db ← scheduleRetry db lease.taskId state blocked retryAt
  let db ← queueEvent db lease.taskId "worker.released" [("worker_id", .str lease.workerId),
    ("generation", .int lease.generation), ("state", .str state.value),
    ("reason", dumpOption blocked)]
  pure ((), db)

/-- `row['state'] != 'leased' or row['lease_expires_at'] <= now`. -/
def QueueRow.unattended (row : QueueRow) (now : ℚ) : Except Exn Bool :=
  if row.state = .leased then
    match row.leaseExpiresAt with
    | some expiresAt => .ok (expiresAt ≤ now)
    | none => .error (.typeError "'<=' not supported")
  else .ok true

/-- A task that nobody runs is cancelled at once, and its row closed. -/
def closeUnattended (db : Database) (taskId : String) (task : Task) (unattended : Bool) :
    Except Exn Database :=
  if unattended then do
    let (_, db) ← cancelTask db task
    pure (db.updateQueue taskId (fun r => { r with state := .done, leaseExpiresAt := none })
      (fun _ => rfl))
  else .ok db

/-- `TaskQueue.cancel`. -/
def cancel (taskId : String) (now : ℚ) (db : Database) : Except Exn (Unit × Database) := do
  let row ← orRaise (db.queue.get? taskId) (.keyError taskId)
  let taskRow ← orRaise (db.tasks.get? taskId)
    (.typeError "'NoneType' object is not subscriptable")
  if taskRow.payload.status.terminal then pure ((), db)
  else
    let db := db.updateQueue taskId (fun r => { r with cancelRequested := true }) (fun _ => rfl)
    let unattended ← row.unattended now
    let db ← closeUnattended db taskId taskRow.payload unattended
    let db ← queueEvent db taskId "worker.cancel_requested" []
    pure ((), db)

/-- `TaskQueue.retry`. -/
def retry (taskId : String) (delayS now : ℚ) (db : Database) : Except Exn (Unit × Database) := do
  positive delayS
  let row ← orRaise (db.queue.get? taskId) (.keyError taskId)
  let taskRow ← orRaise (db.tasks.get? taskId)
    (.typeError "'NoneType' object is not subscriptable")
  require (!(row.cancelRequested || taskRow.payload.status.terminal || row.state == .leased))
    (.valueError "Task is not available for retry")
  let db := db.updateQueue taskId (fun r => { r with
    state := .ready, retryCount := r.retryCount + 1, nextAttemptAt := now + delayS })
    (fun _ => rfl)
  let db ← queueEvent db taskId "worker.retry_scheduled"
    [("delay_s", .float (Platform.floatText delayS)), ("retry_count", .int (row.retryCount + 1))]
  pure ((), db)

end Dante
