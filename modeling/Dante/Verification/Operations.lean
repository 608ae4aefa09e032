import Dante.Model.Approvals
import Dante.Verification.LeaseChecks

/-! # What each committed operation did

One lemma an operation: the checks it passed, and the database it committed in terms of
the table updates. Every invariant below is derived from these. -/

namespace Dante

open JsonText Relational

variable {db db' : Database} {now : ℚ} {clock : ℕ → ℚ} {fs : FileSystem} {owner : Option Lease}
  {taskId stepId : String} {u : Unit}

/-! ## Reading -/

theorem getTask_ok {task : Task} :
    getTask taskId db = .ok task ↔ ∃ row, db.tasks.get? taskId = some row ∧ row.payload = task := by
  simp only [getTask, Except.bind_eq_ok, orRaise_eq_ok, Except.pure_eq_ok]

theorem activeTask_ok {task : Task} :
    activeTask db taskId = .ok task ↔
      (∃ row, db.tasks.get? taskId = some row ∧ row.payload = task) ∧
        task.status.terminal = false := by
  simp only [activeTask, Except.bind_eq_ok, getTask_ok, require_eq_ok, Bool.not_eq_true',
    Except.pure_eq_ok]
  constructor
  · rintro ⟨_, hrow, _, hterm, rfl⟩
    exact ⟨hrow, hterm⟩
  · rintro ⟨hrow, hterm⟩
    exact ⟨task, hrow, (), hterm, rfl⟩

theorem queueEvent_ok {name : String} {metadata : Dict Json} :
    queueEvent db taskId name metadata = .ok db' ↔ ∃ row, db.tasks.get? taskId = some row ∧
      db' = db.event row.payload name (some row.payload.status) metadata := by
  simp only [queueEvent, Except.bind_eq_ok, orRaise_eq_ok, Except.pure_eq_ok]
  exact exists_congr fun row => and_congr_right fun _ => eq_comm

/-- The event is about the task and has the name. -/
def TaskEvent.Reports (taskId name : String) (e : TaskEvent) : Prop :=
  e.taskId = taskId ∧ e.event = name

/-- What `TaskQueue._event` logs. -/
theorem queueEvent_log {name : String} {metadata : Dict Json}
    (h : queueEvent db taskId name metadata = .ok db') :
    ∃ e : TaskEvent, e.Reports taskId name ∧ db' = db.log e := by
  obtain ⟨row, hrow, rfl⟩ := queueEvent_ok.mp h
  have hid : row.payload.taskId = taskId := Table.primary_of_get? hrow
  exact ⟨_, ⟨hid, rfl⟩, rfl⟩

/-! ## Tasks, routes and artifacts -/

theorem createTask_ok {task t : Task} {acceptance : Option AcceptanceContract}
    (h : createTask task acceptance db = .ok (t, db')) :
    ∃ tasks accepted, db.tasks.insert ⟨task.stored, 0⟩ = some tasks ∧
      db.acceptance.insert ⟨task.taskId, acceptance.getD .default, acceptance.isSome,
        acceptance.isSome, .default, []⟩ = some accepted ∧ t = task ∧
      db' = ({ db with tasks := tasks, acceptance := accepted }).event task "task.created"
        none [] := by
  simp only [createTask, Except.bind_eq_ok, orRaise_eq_ok, Except.pure_eq_ok,
    Prod.mk.injEq] at h
  obtain ⟨tasks, htasks, accepted, haccepted, rfl, rfl⟩ := h
  exact ⟨tasks, accepted, htasks, haccepted, rfl, rfl⟩

theorem checkpoint_ok {step : String} {state : Dict Json} {task : Task}
    (h : checkpoint owner taskId step state now db = .ok (task, db')) :
    ∃ row, db.tasks.get? taskId = some row ∧ db.Permits now taskId false owner ∧
      db' = (db.updateTask taskId (fun t => { t with
          currentStep := some step, checkpoint := revalidatedFields state }) (fun _ => rfl)).event
        { row.payload with currentStep := some step, checkpoint := state } "task.checkpoint"
        (some row.payload.status) [("step", .str step)] := by
  simp only [checkpoint, Except.bind_eq_ok, requireLease_ok, getTask_ok] at h
  obtain ⟨-, hpermit, _, ⟨row, hrow, rfl⟩, h⟩ := h
  cases h
  exact ⟨row, hrow, hpermit, rfl⟩

theorem setRoute_ok {decision : RouteDecision} {task : Task}
    (h : setRoute owner decision now db = .ok (task, db')) :
    ∃ row, db.tasks.get? decision.taskId = some row ∧
      db.Permits now decision.taskId true owner ∧
      db' = (({ db with routes := (db.routes.insert decision).getD db.routes }).updateTask
          decision.taskId (fun t => { t with selectedRoute := some decision.routeId })
          (fun _ => rfl)).event
        { row.payload with selectedRoute := some decision.routeId } "route.selected"
        (some row.payload.status)
        [("route_id", .str decision.routeId), ("model_id", .str decision.selectedModel)] := by
  simp only [setRoute, Except.bind_eq_ok, requireLease_ok, getTask_ok] at h
  obtain ⟨-, hpermit, _, ⟨row, hrow, rfl⟩, h⟩ := h
  cases h
  exact ⟨row, hrow, hpermit, rfl⟩

theorem addArtifact_ok {artifact : Artifact} {task : Task}
    (h : addArtifact artifact db = .ok (task, db')) :
    ∃ row artifacts, db.tasks.get? artifact.taskId = some row ∧
      row.payload.status.terminal = false ∧ db.artifacts.insert artifact.stored = some artifacts ∧
      db' = (({ db with artifacts := artifacts }).updateTask artifact.taskId
          (fun t => t.withArtifact artifact.artifactId)
          (fun t => t.withArtifact_taskId artifact.artifactId)).event
        (row.payload.withArtifact artifact.artifactId) "artifact.created"
        (some row.payload.status) [("artifact_id", .str artifact.artifactId)] := by
  simp only [addArtifact, Except.bind_eq_ok, activeTask_ok, orRaise_eq_ok] at h
  obtain ⟨_, ⟨⟨row, hrow, rfl⟩, hterm⟩, artifacts, hins, h⟩ := h
  cases h
  exact ⟨row, artifacts, hrow, hterm, hins, rfl⟩

theorem bindAcceptance_ok {contract : AcceptanceContract}
    (h : bindAcceptance taskId contract db = .ok (u, db')) :
    ∃ row accepted, db.tasks.get? taskId = some row ∧ row.payload.status.terminal = false ∧
      db.acceptance.get? taskId = some accepted ∧
      (accepted.locked = true → accepted.contract.same contract = true) ∧
      db' = db.updateAcceptance taskId
        (fun r => { r with contract := contract, locked := true }) (fun _ => rfl) := by
  simp only [bindAcceptance, Except.bind_eq_ok, activeTask_ok, orRaise_eq_ok, require_eq_ok] at h
  obtain ⟨_, ⟨⟨row, hrow, rfl⟩, hterm⟩, accepted, hacc, -, hlock, h⟩ := h
  cases h
  refine ⟨row, accepted, hrow, hterm, hacc, fun hlocked => ?_, rfl⟩
  simpa [hlocked] using hlock

theorem recordToolOutcome_ok {toolDigest status : String} {step : Option String}
    (h : recordToolOutcome taskId toolDigest status step db = .ok (u, db')) :
    ∃ row, db.tasks.get? taskId = some row ∧
      db' = db.event row.payload "tool.outcome" (some row.payload.status)
        [("tool_digest", .str toolDigest), ("status", .str status),
          ("step_id", dumpOption step)] := by
  simp only [recordToolOutcome, Except.bind_eq_ok, getTask_ok] at h
  obtain ⟨_, ⟨row, hrow, rfl⟩, h⟩ := h
  cases h
  exact ⟨row, hrow, rfl⟩

theorem markUncertain_ok {errorType : String}
    (h : markUncertain owner taskId stepId errorType now db = .ok (u, db')) :
    ∃ row, db.tasks.get? taskId = some row ∧ row.payload.status.terminal = false ∧
      db.Permits now taskId false owner ∧
      db' = (db.updateSteps (StepRecord.namedIn taskId stepId .started)
          (fun s => { s with state := .uncertain, error := some errorType })
          (fun _ => rfl)).event row.payload "step.uncertain" (some row.payload.status)
        [("step_id", .str stepId), ("error_type", .str errorType)] := by
  simp only [markUncertain, Except.bind_eq_ok, requireLease_ok, activeTask_ok] at h
  obtain ⟨-, hpermit, _, ⟨⟨row, hrow, rfl⟩, hterm⟩, h⟩ := h
  cases h
  exact ⟨row, hrow, hterm, hpermit, rfl⟩

/-! ## The queue -/

/-- `_cancel_task` always succeeds on a task that has not ended. -/
theorem cancelled_mem_transitions {status : TaskStatus} :
    TaskStatus.cancelled ∈ transitions status ↔ status.terminal = false := by
  cases status <;> simp [transitions, TaskStatus.terminal]

/-- The database after `_cancel_task`. -/
def Database.cancelled (db : Database) (task : Task) : Database :=
  (db.updateTask task.taskId (fun t => { t with status := .cancelled })
    Task.cancelled_taskId).event
    { task with status := .cancelled } "task.transition" (some task.status)
    [("reason", .str "cancel_requested")]

theorem cancelTask_ok {task t : Task} (h : cancelTask db task = .ok (t, db')) :
    task.status.terminal = false ∧ t = { task with status := .cancelled } ∧
      db' = db.cancelled task := by
  simp only [cancelTask, Except.bind_eq_ok, require_eq_ok, List.contains_iff_mem,
    cancelled_mem_transitions] at h
  obtain ⟨-, hterm, h⟩ := h
  cases h
  exact ⟨hterm, rfl, rfl⟩

/-- The outcome of `_cancel_task` when the row asks for it, and of nothing otherwise. -/
inductive CancelledOnRequest (row : QueueRow) (db : Database) (task : Task) :
    Task → Database → Prop where
  | cancelled (hrequested : row.cancelRequested = true) (hlive : task.status.terminal = false) :
      CancelledOnRequest row db task { task with status := .cancelled } (db.cancelled task)
  | kept (h : row.cancelRequested = false ∨ task.status.terminal = true) :
      CancelledOnRequest row db task task db

theorem cancelIfRequested_ok {row : QueueRow} {task t : Task}
    (h : cancelIfRequested db row task = .ok (t, db')) :
    CancelledOnRequest row db task t db' := by
  unfold cancelIfRequested at h
  split at h
  next hc =>
    simp only [Bool.and_eq_true, Bool.not_eq_true'] at hc
    obtain ⟨-, rfl, rfl⟩ := cancelTask_ok h
    exact .cancelled hc.1 hc.2
  next hc =>
    cases h
    refine .kept ?_
    cases hr : row.cancelRequested
    · exact .inl rfl
    · simp only [hr, Bool.true_and, Bool.not_eq_true', Bool.not_eq_false] at hc
      exact .inr hc

/-- `recover_expired` first resolves the steps in flight. -/
def Database.expireSteps (db : Database) (taskId : String) : Database :=
  db.updateSteps (fun s => s.taskId == taskId && s.state == .started)
    (fun s => { s with state := .uncertain, error := some "lease_expired" })
    StepRecord.expired_keepsKey

/-- The date the continuity manager has set for the task's next attempt. -/
def Database.resumeAt (db : Database) (taskId : String) : ℚ :=
  ((db.continuity.get? taskId).bind ContinuityRow.nextAttemptAt).getD 0

theorem CancelledOnRequest.resumeAt {row : QueueRow} {mid : Database} {task t : Task}
    (h : CancelledOnRequest row db task t mid) : mid.resumeAt taskId = db.resumeAt taskId := by
  cases h <;> rfl

theorem recoverRow_ok {row : QueueRow} (h : recoverRow row db = .ok db') :
    ∃ taskRow task mid logged, db.tasks.get? row.taskId = some taskRow ∧
      CancelledOnRequest row (db.expireSteps row.taskId) taskRow.payload task mid ∧
      logged.Reports row.taskId "worker.recovered" ∧
      db' = (mid.updateQueue row.taskId (fun r => { r with
          state := if task.status.terminal then .done else .ready
          leaseExpiresAt := none
          nextAttemptAt := max r.nextAttemptAt (db.resumeAt row.taskId) })
        (fun _ => rfl)).log logged := by
  simp only [recoverRow, Except.bind_eq_ok, orRaise_eq_ok] at h
  obtain ⟨taskRow, htask, ⟨task, mid⟩, hcancel, hlog⟩ := h
  obtain ⟨logged, hlogged, rfl⟩ := queueEvent_log hlog
  have hcancelled := cancelIfRequested_ok hcancel
  refine ⟨taskRow, task, mid, logged, htask, hcancelled, hlogged, ?_⟩
  have hresume : mid.resumeAt row.taskId = db.resumeAt row.taskId := hcancelled.resumeAt
  rw [← hresume]
  rfl

theorem recoverExpired_ok {n : ℕ} (h : recoverExpired now db = .ok (n, db')) :
    (db.queue.rows.filter (QueueRow.expired now)).foldlM
      (fun db row => recoverRow row db) db = .ok db' := by
  simp only [recoverExpired, Except.bind_eq_ok, Except.pure_eq_ok, Prod.mk.injEq] at h
  obtain ⟨_, hfold, -, rfl⟩ := h
  exact hfold

/-- `cancel` closes a row that nobody attends to, and only flags the others. -/
inductive CancelRequested (taskId : String) (now : ℚ) (row : QueueRow) (task : Task)
    (db : Database) : Database → Prop where
  | ended (hterm : task.status.terminal = true) : CancelRequested taskId now row task db db
  | flagged (logged : TaskEvent) (hlogged : logged.Reports taskId "worker.cancel_requested")
      (hlive : task.status.terminal = false)
      (hleased : row.state = .leased) (hcurrent : ∃ e, row.leaseExpiresAt = some e ∧ now < e) :
      CancelRequested taskId now row task db
        ((db.updateQueue taskId (fun r => { r with cancelRequested := true })
          (fun _ => rfl)).log logged)
  | closed (logged : TaskEvent) (hlogged : logged.Reports taskId "worker.cancel_requested")
      (hlive : task.status.terminal = false) :
      CancelRequested taskId now row task db
        ((((db.updateQueue taskId (fun r => { r with cancelRequested := true })
            (fun _ => rfl)).cancelled task).updateQueue taskId
          (fun r => { r with state := .done, leaseExpiresAt := none }) (fun _ => rfl)).log logged)

theorem cancel_ok (h : cancel taskId now db = .ok (u, db')) :
    ∃ row taskRow, db.queue.get? taskId = some row ∧ db.tasks.get? taskId = some taskRow ∧
      CancelRequested taskId now row taskRow.payload db db' := by
  simp only [cancel, Except.bind_eq_ok, orRaise_eq_ok] at h
  obtain ⟨row, hrow, taskRow, htask, h⟩ := h
  refine ⟨row, taskRow, hrow, htask, ?_⟩
  cases hterm : taskRow.payload.status.terminal with
  | true =>
      rw [if_pos hterm] at h
      cases h
      exact .ended hterm
  | false =>
      rw [if_neg (by simp [hterm])] at h
      simp only [Except.bind_eq_ok, Except.pure_eq_ok, Prod.mk.injEq] at h
      obtain ⟨unattended, hun, mid, hmid, late, hlate, -, rfl⟩ := h
      obtain ⟨logged, hlogged, rfl⟩ := queueEvent_log hlate
      cases unattended with
      | true =>
          simp only [closeUnattended, if_true, Except.bind_eq_ok, Except.pure_eq_ok] at hmid
          obtain ⟨⟨t, closed⟩, hcancel, rfl⟩ := hmid
          obtain ⟨-, rfl, rfl⟩ := cancelTask_ok hcancel
          exact .closed _ hlogged hterm
      | false =>
          cases hmid
          refine .flagged _ hlogged hterm ?_ ?_
          all_goals
            unfold QueueRow.unattended at hun
            split at hun
          · assumption
          · cases hun
          · split at hun
            next e he =>
              refine ⟨e, he, ?_⟩
              simpa using hun
            next => cases hun
          · cases hun

theorem claim_ok {workerId : String} {leaseS : ℚ} {answer : Option Lease}
    (h : claim workerId leaseS now db = .ok (answer, db')) :
    0 < leaseS ∧
      ((answer = none ∧ db' = db ∧
          earliest (db.queue.rows.filter (QueueRow.claimable db now)) = none) ∨
        ∃ row taskRow, answer = some ⟨row.taskId, workerId, row.generation + 1⟩ ∧
          earliest (db.queue.rows.filter (QueueRow.claimable db now)) = some row ∧
          db.tasks.get? row.taskId = some taskRow ∧
          db' = (db.updateQueue row.taskId
              (fun r => r.claimed ⟨row.taskId, workerId, row.generation + 1⟩ now leaseS)
              (fun r => r.claimed_taskId _ now leaseS)).event taskRow.payload "worker.claimed" (some taskRow.payload.status)
            [("worker_id", .str workerId), ("generation", .int ↑(row.generation + 1))]) := by
  simp only [claim, positive, Except.bind_eq_ok, require_eq_ok, decide_eq_true_eq] at h
  obtain ⟨-, hpos, -, -, h⟩ := h
  refine ⟨hpos, ?_⟩
  cases hsel : earliest (db.queue.rows.filter (QueueRow.claimable db now)) with
  | none =>
      simp only [hsel, Except.pure_eq_ok, Prod.mk.injEq] at h
      exact .inl ⟨h.1.symm, h.2.symm, rfl⟩
  | some row =>
      simp only [hsel, Except.bind_eq_ok, queueEvent_ok, Except.pure_eq_ok, Prod.mk.injEq] at h
      obtain ⟨_, ⟨taskRow, htask, rfl⟩, rfl, rfl⟩ := h
      exact .inr ⟨row, taskRow, rfl, rfl, htask, rfl⟩

theorem heartbeat_ok {lease : Lease} {leaseS : ℚ}
    (h : heartbeat lease leaseS clock db = .ok (u, db')) :
    ∃ row, db.tasks.get? lease.taskId = some row ∧
      db.Permits (clock 0) lease.taskId false (some lease) ∧
      db' = (db.updateQueue lease.taskId (fun r => { r with
            heartbeatAt := some (clock 1), leaseExpiresAt := some (clock 1 + leaseS) })
          (fun _ => rfl)).event row.payload "worker.heartbeat" (some row.payload.status)
        [("worker_id", .str lease.workerId), ("generation", .int lease.generation)] := by
  simp only [heartbeat, positive, Except.bind_eq_ok, requireLease_ok, queueEvent_ok,
    Except.pure_eq_ok] at h
  obtain ⟨-, -, -, hpermit, _, ⟨row, hrow, rfl⟩, h⟩ := h
  cases h
  exact ⟨row, hrow, hpermit, rfl⟩

theorem advance_ok {lease : Lease} {index : ℕ}
    (h : advance lease index now db = .ok (u, db')) :
    ∃ row taskRow, db.queue.get? lease.taskId = some row ∧ row.nextAction = index ∧
      db.tasks.get? lease.taskId = some taskRow ∧
      db.Permits now lease.taskId false (some lease) ∧
      db' = (db.updateQueue lease.taskId (fun r => { r with nextAction := index + 1 })
          (fun _ => rfl)).event taskRow.payload "worker.checkpoint" (some taskRow.payload.status)
        [("generation", .int lease.generation), ("next_action", .int (index + 1))] := by
  simp only [advance, Except.bind_eq_ok, assertLease_ok, queueEvent_ok, orRaise_eq_ok,
    require_eq_ok, beq_iff_eq, Except.pure_eq_ok] at h
  obtain ⟨held, ⟨hheld, hpermit⟩, row, hrow, -, hindex, _, ⟨taskRow, htask, rfl⟩, h⟩ := h
  cases h
  exact ⟨row, taskRow, hheld ▸ hrow, hindex, htask, hpermit, rfl⟩

/-! ## Operations that write JSON text or digests -/

@[simp] theorem sameOperation_ok {step : StepRecord} {toolId toolVersion argsDigest : String} :
    sameOperation step toolId toolVersion argsDigest = .ok u ↔
      step.operation = (toolId, toolVersion, argsDigest) := by
  simp [sameOperation]


variable [Platform]

theorem requireAccepted_ok :
    requireAccepted fs db taskId = .ok u ↔
      ∃ result, acceptanceResult fs db taskId = .ok result ∧ result.acceptanceComplete = true := by
  simp only [requireAccepted, Except.bind_eq_ok, require_eq_ok]

/-- A transition that changes the status. -/
structure Transitioned (owner : Option Lease) (taskId : String) (target : TaskStatus)
    (currentStep : Option String) (metadata : Dict Json) (clock : ℕ → ℚ) (fs : FileSystem)
    (db db' : Database) (row : TaskRow) : Prop where
  changed : row.payload.status ≠ target
  permitted : db.Permits (clock 0) taskId false owner
  completing : target = .completed → db.Permits (clock 1) taskId true owner
  allowed : target ∈ transitions row.payload.status
  accepted : target = .completed →
    ∃ result, acceptanceResult fs db taskId = .ok result ∧ result.acceptanceComplete = true
  committed : db' = (db.updateTask taskId (fun t => t.moved target currentStep)
    (fun t => t.moved_taskId target currentStep)).event (row.payload.moved target currentStep) "task.transition"
      (some row.payload.status) metadata

theorem transition_ok {target : TaskStatus} {currentStep : Option String} {metadata : Dict Json}
    {task : Task}
    (h : transition owner taskId target currentStep metadata clock fs db = .ok (task, db')) :
    ∃ row, db.tasks.get? taskId = some row ∧
      ((row.payload.status = target ∧ task = row.payload ∧ db' = db) ∨
        (task = row.payload.moved target currentStep ∧
          Transitioned owner taskId target currentStep metadata clock fs db db' row)) := by
  simp only [transition, Except.bind_eq_ok, requireLease_ok, whenever_eq_ok, orRaise_eq_ok,
    decide_eq_true_eq] at h
  obtain ⟨-, hpermit, -, hcomplete, row, hrow, h⟩ := h
  refine ⟨row, hrow, ?_⟩
  by_cases hsame : row.payload.status = target
  · rw [if_pos hsame] at h
    cases h
    exact .inl ⟨hsame, rfl, rfl⟩
  · rw [if_neg hsame] at h
    simp only [Except.bind_eq_ok, require_eq_ok, whenever_eq_ok, requireAccepted_ok,
      decide_eq_true_eq, List.contains_iff_mem] at h
    obtain ⟨-, hallowed, -, haccepted, -, -, h⟩ := h
    cases h
    exact .inr ⟨rfl, hsame, hpermit, hcomplete, hallowed, haccepted, rfl⟩

theorem recordObservations_ok {observed : ObservedAcceptance}
    (h : recordObservations taskId observed db = .ok (u, db')) :
    ∃ row accepted, db.tasks.get? taskId = some row ∧ row.payload.status.terminal = false ∧
      db.acceptance.get? taskId = some accepted ∧
      ((accepted.strict = true ∧ db' = db) ∨
        (accepted.strict = false ∧
          db' = (db.updateAcceptance taskId
              (fun r => { r with attestations := r.attestations.merged observed })
              (fun _ => rfl)).event row.payload "acceptance.caller_attestation"
            (some row.payload.status) [("source", .str "legacy_trusted_caller")])) := by
  simp only [recordObservations, Except.bind_eq_ok, activeTask_ok, orRaise_eq_ok] at h
  obtain ⟨-, -, _, ⟨⟨row, hrow, rfl⟩, hterm⟩, accepted, hacc, h⟩ := h
  refine ⟨row, accepted, hrow, hterm, hacc, ?_⟩
  cases hs : accepted.strict with
  | true =>
      rw [if_pos hs] at h
      cases h
      exact .inl ⟨rfl, rfl⟩
  | false =>
      rw [if_neg (by simp [hs])] at h
      cases h
      exact .inr ⟨rfl, rfl⟩

theorem recordFinalEvidence_ok {artifactId : String}
    (h : recordFinalEvidence taskId artifactId fs db = .ok (u, db')) :
    ∃ row, ∃ keys : List String, db.tasks.get? taskId = some row ∧
      row.payload.status.terminal = false ∧
      db' = (db.updateAcceptance taskId (fun r => { r with
            finalEvidence := r.finalEvidence.update (keys.map (·, artifactId)) })
          (fun _ => rfl)).event row.payload "acceptance.final_evidence"
        (some row.payload.status) [("artifact_id", .str artifactId)] := by
  simp only [recordFinalEvidence, Except.bind_eq_ok, activeTask_ok, orRaise_eq_ok] at h
  obtain ⟨_, ⟨⟨row, hrow, rfl⟩, hterm⟩, _, -, _, -, keys, -, _, -, h⟩ := h
  cases h
  exact ⟨row, keys, hrow, hterm, rfl⟩

theorem verifyPersistentAcceptance_ok {result : AcceptanceResult}
    (h : verifyPersistentAcceptance taskId fs db = .ok (result, db')) :
    ∃ row, db.tasks.get? taskId = some row ∧ row.payload.status.terminal = false ∧
      acceptanceResult fs db taskId = .ok result ∧
      db' = db.event row.payload "acceptance.checked" (some row.payload.status) result.dump := by
  simp only [verifyPersistentAcceptance, Except.bind_eq_ok, activeTask_ok] at h
  obtain ⟨_, hresult, _, ⟨⟨row, hrow, rfl⟩, hterm⟩, h⟩ := h
  cases h
  exact ⟨row, hrow, hterm, hresult, rfl⟩

/-! ### Submission and the end of a lease -/

theorem submit_ok {task t : Task} {plan : ExecutionPlan}
    (h : submit task plan db = .ok (t, db')) :
    ∃ tasks accepted queue, ∃ contract : AcceptanceContract, task.status = .created ∧ t = task ∧
      contract = { plan.revalidated.acceptance with
        requiredTools := plan.revalidated.acceptance.requiredTools ∪
          (plan.revalidated.actions.map Action.toolId).toFinset } ∧
      db.tasks.insert ⟨task.stored, 0⟩ = some tasks ∧
      db.acceptance.insert ⟨task.taskId, contract, true, true, .default, []⟩ = some accepted ∧
      db.queue.insert (.submitted task.taskId plan.revalidated) = some queue ∧
      db' = (({ db with tasks := tasks, acceptance := accepted, queue := queue }).event task
          "task.created" none []).event task "worker.submitted" none
        [("action_count", .int plan.revalidated.actions.length)] := by
  simp only [submit, Except.bind_eq_ok, orRaise_eq_ok, require_eq_ok, Bool.and_eq_true,
    beq_iff_eq, Except.pure_eq_ok, Prod.mk.injEq] at h
  obtain ⟨-, -, -, ⟨⟨hcreated, -⟩, -⟩, tasks, htasks, accepted, haccepted, queue, hqueue, rfl,
    rfl⟩ := h
  exact ⟨tasks, accepted, queue, _, hcreated, rfl, rfl, htasks, haccepted, hqueue, rfl⟩

theorem scheduleRetry_ok {state : QueueState} {blocked : Option String} {retryAt : Option ℚ}
    (h : scheduleRetry db taskId state blocked retryAt = .ok db') :
    db' = db ∨ ∃ time logged, state = .ready ∧ logged.Reports taskId "worker.retry_scheduled" ∧
      db' = (db.updateQueue taskId (fun r => { r with
          nextAttemptAt := time, retryCount := r.retryCount + 1 }) (fun _ => rfl)).log logged := by
  unfold scheduleRetry at h
  split at h
  next time =>
    obtain ⟨logged, hlogged, rfl⟩ := queueEvent_log h
    exact .inr ⟨time, logged, rfl, hlogged, rfl⟩
  next =>
    cases h
    exact .inl rfl

theorem release_ok {lease : Lease} {blocked : Option String} {retryAt : Option ℚ}
    (h : release lease blocked retryAt now db = .ok (u, db')) :
    ∃ row taskRow task mid late logged, db.queue.get? lease.taskId = some row ∧
      db.tasks.get? lease.taskId = some taskRow ∧
      db.Permits now lease.taskId false (some lease) ∧
      CancelledOnRequest row db taskRow.payload task mid ∧
      scheduleRetry (mid.updateQueue lease.taskId (fun r => { r with
            state := releasedState task.status blocked retryAt
            leaseExpiresAt := none
            lastFailure := blocked }) (fun _ => rfl))
        lease.taskId (releasedState task.status blocked retryAt) blocked retryAt = .ok late ∧
      logged.Reports lease.taskId "worker.released" ∧ db' = late.log logged := by
  simp only [release, Except.bind_eq_ok, assertLease_ok, orRaise_eq_ok, Except.pure_eq_ok,
    Prod.mk.injEq] at h
  obtain ⟨-, -, held, ⟨hheld, hpermit⟩, taskRow, htask, row, hrow, ⟨task, mid⟩, hcancel, late,
    hlate, _, hlog, -, rfl⟩ := h
  obtain ⟨logged, hlogged, rfl⟩ := queueEvent_log hlog
  exact ⟨row, taskRow, task, mid, late, logged, hheld ▸ hrow, htask, hpermit,
    cancelIfRequested_ok hcancel, hlate, hlogged, rfl⟩

theorem retry_ok {delayS : ℚ} (h : retry taskId delayS now db = .ok (u, db')) :
    ∃ row taskRow logged, db.queue.get? taskId = some row ∧
      db.tasks.get? taskId = some taskRow ∧ row.cancelRequested = false ∧
      taskRow.payload.status.terminal = false ∧ row.state ≠ .leased ∧
      logged.Reports taskId "worker.retry_scheduled" ∧
      db' = (db.updateQueue taskId (fun r => { r with
          state := .ready, retryCount := r.retryCount + 1, nextAttemptAt := now + delayS })
        (fun _ => rfl)).log logged := by
  simp only [retry, positive, Except.bind_eq_ok, orRaise_eq_ok, require_eq_ok,
    Bool.not_eq_true', Bool.or_eq_false_iff, beq_eq_false_iff_ne, Except.pure_eq_ok,
    Prod.mk.injEq] at h
  obtain ⟨-, -, row, hrow, taskRow, htask, -, ⟨⟨hcancel, hterm⟩, hstate⟩, _, hlog, -, rfl⟩ := h
  obtain ⟨logged, hlogged, rfl⟩ := queueEvent_log hlog
  exact ⟨row, taskRow, logged, hrow, htask, hcancel, hterm, hstate, hlogged, rfl⟩

/-! ### The step journal -/

theorem lookupStep_ok {toolId toolVersion : String} {arguments : Dict Json}
    {idempotencyKey : Option String} {answer : Option StepRecord}
    (h : lookupStep taskId toolId toolVersion arguments idempotencyKey db = .ok answer) :
    ∃ argsDigest key, digest (.obj arguments) = .ok argsDigest ∧
      stepKey toolId toolVersion argsDigest idempotencyKey = .ok key ∧
      answer = db.steps.find (StepRecord.keyed taskId key) ∧
      ∀ step, answer = some step → step.operation = (toolId, toolVersion, argsDigest) := by
  simp only [lookupStep, Except.bind_eq_ok] at h
  obtain ⟨argsDigest, hargs, key, hkey, h⟩ := h
  refine ⟨argsDigest, key, hargs, hkey, ?_⟩
  cases hfind : db.steps.find (StepRecord.keyed taskId key) with
  | none =>
      rw [hfind] at h
      cases h
      simp
  | some step =>
      simp only [hfind, Except.bind_eq_ok, sameOperation_ok, Except.pure_eq_ok] at h
      obtain ⟨-, hop, rfl⟩ := h
      refine ⟨rfl, fun s hs => ?_⟩
      cases hs
      exact hop

/-- The new row of `prepare_step`, and what else it commits. -/
structure StepPrepared (taskId toolId toolVersion argsDigest key newId : String) (createdAt : ℚ)
    (db db' : Database) (row : TaskRow) : Prop where
  absent : db.steps.find (StepRecord.keyed taskId key) = none
  inserted : ∃ steps, db.steps.insert
      (.prepared newId taskId toolId toolVersion argsDigest key createdAt) = some steps ∧
    db' = ({ db.updateAcceptance taskId (fun r => r.hardened toolId)
        (fun r => r.hardened_taskId toolId) with
        steps := steps }).event row.payload "step.intent" (some row.payload.status)
      [("step_id", .str newId), ("arguments_digest", .str argsDigest)]

theorem prepareStep_ok {toolId toolVersion newId : String} {arguments : Dict Json}
    {idempotencyKey : Option String} {answer : Prepared}
    (h : prepareStep owner taskId toolId toolVersion arguments idempotencyKey clock newId db
      = .ok (answer, db')) :
    ∃ argsDigest key row, digest (.obj arguments) = .ok argsDigest ∧
      stepKey toolId toolVersion argsDigest idempotencyKey = .ok key ∧
      db.tasks.get? taskId = some row ∧ row.payload.status.terminal = false ∧
      db.Permits (clock 0) taskId true owner ∧
      ((∃ step, answer = .existing step ∧ db' = db ∧
          db.steps.find (StepRecord.keyed taskId key) = some step ∧
          step.operation = (toolId, toolVersion, argsDigest)) ∨
        (answer = .created newId ∧
          StepPrepared taskId toolId toolVersion argsDigest key newId (clock 1) db db' row)) := by
  simp only [prepareStep, Except.bind_eq_ok, requireLease_ok, activeTask_ok] at h
  obtain ⟨argsDigest, hargs, key, hkey, -, hpermit, _, ⟨⟨row, hrow, rfl⟩, hterm⟩, h⟩ := h
  refine ⟨argsDigest, key, row, hargs, hkey, hrow, hterm, hpermit, ?_⟩
  cases hfind : db.steps.find (StepRecord.keyed taskId key) with
  | some step =>
      simp only [hfind, Except.bind_eq_ok, sameOperation_ok, Except.pure_eq_ok,
        Prod.mk.injEq] at h
      obtain ⟨-, hop, rfl, rfl⟩ := h
      exact .inl ⟨step, rfl, rfl, rfl, hop⟩
  | none =>
      simp only [hfind, Except.bind_eq_ok, orRaise_eq_ok, Except.pure_eq_ok,
        Prod.mk.injEq] at h
      obtain ⟨-, -, steps, hins, rfl, rfl⟩ := h
      exact .inr ⟨rfl, hfind, steps, hins, rfl⟩

theorem claimStep_ok (h : claimStep owner taskId stepId now fs db = .ok (u, db')) :
    ∃ row step, db.tasks.get? taskId = some row ∧ row.payload.status.terminal = false ∧
      db.Permits now taskId true owner ∧
      db.steps.find (StepRecord.namedIn taskId stepId .intent) = some step ∧
      retryEvidence fs db taskId (some step) = .ok () ∧
      db' = (db.updateSteps (StepRecord.namedIn taskId stepId .intent)
          (fun s => { s with state := .started, attempt := s.attempt + 1, error := none })
          (fun _ => rfl)).event row.payload "step.started" (some row.payload.status)
        [("step_id", .str stepId)] := by
  simp only [claimStep, Except.bind_eq_ok, requireLease_ok, activeTask_ok, require_eq_ok,
    beq_iff_eq] at h
  obtain ⟨-, hpermit, _, ⟨⟨row, hrow, rfl⟩, hterm⟩, _, hevidence, -, hcount, h⟩ := h
  obtain ⟨step, hstep⟩ := Table.find_of_count hcount
  cases h
  exact ⟨row, step, hrow, hterm, hpermit, hstep, hstep ▸ hevidence, rfl⟩

theorem finishStep_ok {safe : Dict Json}
    (h : finishStep owner taskId stepId safe now db = .ok (u, db')) :
    ∃ row step safeDigest, db.tasks.get? taskId = some row ∧ row.payload.status.terminal = false ∧
      db.Permits now taskId false owner ∧ digest (.obj safe) = .ok safeDigest ∧
      db.steps.find (StepRecord.namedIn taskId stepId .started) = some step ∧
      db' = (db.updateSteps (StepRecord.namedIn taskId stepId .started)
          (fun s => { s with
            state := .succeeded
            result := some safe
            resultDigest := some safeDigest
            error := none }) (fun _ => rfl)).event row.payload "step.succeeded"
        (some row.payload.status)
        [("step_id", .str stepId), ("result_digest", .str safeDigest)] := by
  simp only [finishStep, Except.bind_eq_ok, requireLease_ok, activeTask_ok, require_eq_ok,
    beq_iff_eq] at h
  obtain ⟨-, hpermit, _, ⟨⟨row, hrow, rfl⟩, hterm⟩, safeDigest, hdigest, -, hcount, h⟩ := h
  obtain ⟨step, hstep⟩ := Table.find_of_count hcount
  cases h
  exact ⟨row, step, safeDigest, hrow, hterm, hpermit, hdigest, hstep, rfl⟩

/-- What a committed reconciliation wrote to its step. -/
inductive Settled (fs : FileSystem) (evidence : Dict Json) (workspace artifactId : String) :
    Outcome → (StepRecord → StepRecord) → Prop where
  | applied (safe : Dict Json) (safeDigest : String)
      (hreceipt : evidenceReceipt fs evidence workspace = .ok safe)
      (hdigest : digest (.obj safe) = .ok safeDigest) :
      Settled fs evidence workspace artifactId .applied (fun s => { s with
        state := .succeeded
        result := some safe
        resultDigest := some safeDigest
        evidenceRef := some artifactId
        error := none })
  | notApplied : Settled fs evidence workspace artifactId .notApplied (fun s =>
      { s with state := .intent, evidenceRef := some artifactId, error := none })

theorem Settled.keepsKey {evidence : Dict Json} {workspace artifactId : String}
    {outcome : Outcome} {f : StepRecord → StepRecord}
    (h : Settled fs evidence workspace artifactId outcome f) : KeepsKey f := by
  cases h <;> exact fun _ => rfl

theorem settleStep_ok {evidence : Dict Json} {workspace artifactId : String} {outcome : Outcome}
    (h : settleStep fs evidence workspace stepId artifactId outcome db = .ok db') :
    ∃ f, ∃ hf : Settled fs evidence workspace artifactId outcome f,
      db' = db.updateSteps (fun s => s.stepId == stepId) f hf.keepsKey := by
  cases outcome with
  | applied =>
      simp only [settleStep, Except.bind_eq_ok] at h
      obtain ⟨safe, hsafe, safeDigest, hdigest, h⟩ := h
      cases h
      exact ⟨_, .applied safe safeDigest hsafe hdigest, rfl⟩
  | notApplied =>
      cases h
      exact ⟨_, .notApplied, rfl⟩

theorem reconcileStep_ok {artifactId actor : String} {outcome : Outcome}
    (h : reconcileStep taskId stepId artifactId actor fs db = .ok (outcome, db')) :
    ∃ row step evidence f, ∃ hf : Settled fs evidence row.payload.workspace artifactId outcome f,
      db.tasks.get? taskId = some row ∧ row.payload.status.terminal = false ∧
      db.steps.find (StepRecord.named taskId stepId) = some step ∧ step.state ≠ .intent ∧
      unverified fs step = .ok () ∧
      db' = (db.updateSteps (fun s => s.stepId == stepId) f hf.keepsKey).event row.payload
        "step.reconciled" (some row.payload.status)
        [("step_id", .str stepId), ("artifact_id", .str artifactId), ("actor", .str actor),
          ("outcome", .str outcome.value)] := by
  simp only [reconcileStep, Except.bind_eq_ok, activeTask_ok, orRaise_eq_ok, require_eq_ok,
    bne_iff_ne, ne_eq] at h
  obtain ⟨_, ⟨⟨row, hrow, rfl⟩, hterm⟩, step, hstep, -, hstate, _, hunver, _, -, _, -, evidence,
    -, out, -, _, hsettle, h⟩ := h
  obtain ⟨f, hf, rfl⟩ := settleStep_ok hsettle
  cases h
  exact ⟨row, step, evidence, f, hf, hrow, hterm, hstep, hstate, hunver, rfl⟩

/-! ### Approvals -/

theorem requestApproval_ok {action target planHash newId token : String}
    {answer : Approval × String}
    (h : requestApproval taskId action target planHash newId token db = .ok (answer, db')) :
    ∃ approvals, db.approvals.insert ⟨⟨newId, taskId, action, target, planHash, .pending, none⟩,
        tokenHash token, false⟩ = some approvals ∧
      answer.1.approvalId = newId ∧ db' = { db with approvals := approvals } := by
  simp only [requestApproval, Except.bind_eq_ok, orRaise_eq_ok, Except.pure_eq_ok,
    Prod.mk.injEq] at h
  obtain ⟨approvals, hins, rfl, rfl⟩ := h
  exact ⟨approvals, hins, rfl, rfl⟩

theorem decideApproval_ok {approvalId token planHash actor : String} {approve : Bool}
    {answer : Approval}
    (h : decideApproval approvalId token planHash actor approve db = .ok (answer, db')) :
    ∃ row, db.approvals.get? approvalId = some row ∧ row.consumed = false ∧
      row.tokenHash = tokenHash token ∧ row.payload.planHash = planHash ∧
      answer = row.payload.decided actor approve ∧
      db' = db.updateApproval approvalId
        (fun r => { r with payload := r.payload.decided actor approve, consumed := true })
        (fun r => r.payload.decided_approvalId actor approve) := by
  simp only [decideApproval, Except.bind_eq_ok, orRaise_eq_ok, require_eq_ok, Bool.and_eq_true,
    Bool.not_eq_true', beq_iff_eq, Except.pure_eq_ok, Prod.mk.injEq] at h
  obtain ⟨row, hrow, -, ⟨hopen, htoken⟩, -, hplan, rfl, rfl⟩ := h
  exact ⟨row, hrow, hopen, htoken, hplan, rfl, rfl⟩

omit [Platform] in
theorem consumeAction_ok {approvalId actionHash : String}
    (h : consumeAction approvalId taskId actionHash db = .ok (u, db')) :
    ∃ row, db.approvals.get? approvalId = some row ∧ row.consumed = true ∧
      row.payload.grants taskId actionHash = true ∧
      db' = db.updateApproval approvalId
        (fun r => { r with payload := { r.payload with status := .executed } })
        (fun _ => rfl) := by
  simp only [consumeAction, Except.bind_eq_ok, orRaise_eq_ok, require_eq_ok, Except.pure_eq_ok,
    Prod.mk.injEq] at h
  obtain ⟨row, hrow, -, hconsumed, -, hgrants, -, rfl⟩ := h
  exact ⟨row, hrow, hconsumed, hgrants, rfl⟩

end Dante
