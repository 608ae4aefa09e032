import Dante.Verification.Footprint
import Dante.Verification.Lifecycle

/-! # Every request moves a task as its life cycle allows -/

namespace Dante

open JsonText Relational Concurrent

variable {db db' mid : Database} {now : ℚ} {clock : ℕ → ℚ} {fs : FileSystem}
  {owner : Option Lease} {taskId : String} {u : Unit}

theorem taskId_of_task {row : TaskRow} (h : db.tasks.get? taskId = some row) :
    row.payload.taskId = taskId :=
  Table.primary_of_get? h

/-- An operation on another task is a stay. -/
theorem Lifecycle.of_eq {v v' : View} (h : v' = v) : Lifecycle .silent v v' :=
  h ▸ .stay v

/-- A row inserted under a free key is found under that key only. -/
theorem get?_insert_cases {σ κ : Type} [DecidableEq κ] [Keyed σ κ] {t t' : Table σ} {r : σ}
    (h : t.insert r = some t') (k : κ) :
    (Keyed.primary r = k ∧ t.get? k = none ∧ t'.get? k = some r) ∨
      (Keyed.primary r ≠ k ∧ t'.get? k = t.get? k) := by
  have hget := Table.get?_insert h (k := k)
  by_cases hk : Keyed.primary r = k
  · have hfree := Table.insert_isSome.mp (Option.isSome_iff_exists.mpr ⟨t', h⟩)
    exact .inl ⟨hk, hk ▸ hfree, by rw [hget, if_pos hk]⟩
  · exact .inr ⟨hk, by rw [hget, if_neg hk]⟩

/-! ## Operations on tasks -/

theorem createTask_lifecycle {task t : Task} {acceptance : Option AcceptanceContract}
    (h : createTask task acceptance db = .ok (t, db')) :
    Lifecycle (if task.taskId = taskId then .created task.status else .silent) (db.view taskId)
      (db'.view taskId) := by
  obtain ⟨tasks, accepted, htasks, -, -, rfl⟩ := createTask_ok h
  rcases get?_insert_cases htasks taskId with ⟨hid, hfree, hnew⟩ | ⟨hid, hold⟩
  · have hsame : task.taskId = taskId := hid
    rw [if_pos hsame]
    simp only [Database.view, Database.event_tasks, Database.event_queue, hnew, hfree,
      Option.map_none, Option.map_some]
    exact .created _ _
  · have hother : task.taskId ≠ taskId := hid
    rw [if_neg hother]
    refine .of_eq ?_
    simp only [Database.view, Database.event_tasks, Database.event_queue, hold]

theorem checkpoint_view {step : String} {state : Dict Json} {task : Task} {id : String}
    (h : checkpoint owner id step state now db = .ok (task, db')) :
    db'.view taskId = db.view taskId := by
  obtain ⟨row, -, -, rfl⟩ := checkpoint_ok h
  rw [view_event, view_updateTask]
  exact fun _ => rfl

theorem setRoute_view {decision : RouteDecision} {task : Task}
    (h : setRoute owner decision now db = .ok (task, db')) :
    db'.view taskId = db.view taskId := by
  obtain ⟨row, -, -, rfl⟩ := setRoute_ok h
  rw [view_event, view_updateTask]
  · rfl
  · exact fun _ => rfl

theorem addArtifact_view {artifact : Artifact} {task : Task}
    (h : addArtifact artifact db = .ok (task, db')) :
    db'.view taskId = db.view taskId := by
  obtain ⟨row, artifacts, -, -, -, rfl⟩ := addArtifact_ok h
  rw [view_event, view_updateTask]
  · rfl
  · exact fun _ => rfl

/-! ## Operations on the queue -/

theorem earliest_mem {rows : List QueueRow} {row : QueueRow} (h : earliest rows = some row) :
    row ∈ rows := by
  induction rows with
  | nil => cases h
  | cons first rest ih =>
      rw [earliest] at h
      cases hrest : earliest rest with
      | none =>
          rw [hrest] at h
          cases h
          exact List.mem_cons_self
      | some other =>
          rw [hrest] at h
          simp only at h
          split at h
          · cases h
            exact List.mem_cons_of_mem _ (ih hrest)
          · cases h
            exact List.mem_cons_self

/-- The row a claim selects is stored, and claimable. -/
theorem selected {row : QueueRow}
    (h : earliest (db.queue.rows.filter (QueueRow.claimable db now)) = some row) :
    db.queue.get? row.taskId = some row ∧ row.claimable db now = true := by
  obtain ⟨hmem, hclaim⟩ := List.mem_filter.mp (earliest_mem h)
  exact ⟨Table.get?_eq_some_iff.mpr ⟨hmem, rfl⟩, hclaim⟩

/-- The move of a task that a reply to `claim` stands for. -/
def claimMove (taskId : String) : Option Lease → Move
  | some lease => if lease.taskId = taskId then .granted lease else .silent
  | none => .silent

theorem claim_lifecycle {workerId : String} {leaseS : ℚ} {answer : Option Lease}
    (h : claim workerId leaseS now db = .ok (answer, db')) :
    Lifecycle (claimMove taskId answer) (db.view taskId) (db'.view taskId) := by
  obtain ⟨-, ⟨rfl, rfl, -⟩ | ⟨row, taskRow, rfl, hsel, htask, rfl⟩⟩ := claim_ok h
  · exact .stay _
  · obtain ⟨hrow, hclaim⟩ := selected hsel
    by_cases hid : row.taskId = taskId
    · subst hid
      simp only [QueueRow.claimable, htask, Option.any_some, Bool.and_eq_true, beq_iff_eq,
        Bool.not_eq_true'] at hclaim
      rw [view_event, view_updateQueue_self, view_of_get? htask hrow]
      rw [claimMove, if_pos rfl]
      exact .granted workerId now leaseS hclaim.1.1.1.1 hclaim.1.1.1.2 hclaim.2
    · rw [claimMove, if_neg hid]
      refine .of_eq ?_
      rw [view_event, view_updateQueue_ne _ (Ne.symm hid)]

theorem heartbeat_lifecycle {lease : Lease} {leaseS : ℚ}
    (h : heartbeat lease leaseS clock db = .ok (u, db')) :
    Lifecycle .silent (db.view taskId) (db'.view taskId) := by
  obtain ⟨taskRow, htask, hpermit, rfl⟩ := heartbeat_ok h
  by_cases hid : lease.taskId = taskId
  · subst hid
    rw [view_event, view_updateQueue_self]
    cases hrow : db.queue.get? lease.taskId with
    | none =>
        refine .of_eq ?_
        simp only [Database.view, hrow, Option.map_none]
    | some row =>
        rw [view_of_get? htask hrow]
        exact .renewed _ _ (hpermit row hrow)
  · refine .of_eq ?_
    rw [view_event, view_updateQueue_ne _ (Ne.symm hid)]

theorem advance_lifecycle {lease : Lease} {index : ℕ}
    (h : advance lease index now db = .ok (u, db')) :
    Lifecycle (if lease.taskId = taskId then .advanced else .silent) (db.view taskId)
      (db'.view taskId) := by
  obtain ⟨row, taskRow, hrow, rfl, htask, hpermit, rfl⟩ := advance_ok h
  by_cases hid : lease.taskId = taskId
  · subst hid
    rw [if_pos rfl, view_event, view_updateQueue_self,
      view_of_get? htask hrow]
    exact .advanced (hpermit row hrow)
  · rw [if_neg hid]
    refine .of_eq ?_
    rw [view_event, view_updateQueue_ne _ (Ne.symm hid)]

/-! ## The end of a lease, and cancellation -/

theorem cancelled_tasks (db : Database) (task : Task) :
    (db.cancelled task).view taskId = if taskId = task.taskId then
      ⟨(db.view taskId).status.map (fun _ => .cancelled), (db.view taskId).row⟩
    else db.view taskId := by
  rw [Database.cancelled, view_event]
  by_cases hid : taskId = task.taskId
  · rw [if_pos hid, ← hid]
    simp only [Database.view, Database.updateTask_tasks, Database.updateTask_queue,
      Table.get?_modify, if_true, Option.map_map, Function.comp_def]
  · rw [if_neg hid, view_updateTask_ne _ hid]

/-- A requested cancellation gives the task its settled status, and moves nothing else. -/
theorem CancelledOnRequest.view_eq {row : QueueRow} {task t : Task}
    (h : CancelledOnRequest row db task t mid) {q : Option QueueRow}
    (hview : db.view task.taskId = ⟨some task.status, q⟩) :
    mid.view task.taskId = ⟨some (row.settled task.status), q⟩ ∧
      t.status = row.settled task.status := by
  cases h with
  | cancelled hrequested hlive =>
      rw [cancelled_tasks, if_pos rfl, hview]
      simp [QueueRow.settled, hrequested, hlive]
  | kept hkept =>
      have hsettled : row.settled task.status = task.status := by
        rcases hkept with hkept | hkept <;> simp [QueueRow.settled, hkept]
      rw [hsettled]
      exact ⟨hview, rfl⟩

theorem CancelledOnRequest.view_ne {row : QueueRow} {task t : Task}
    (h : CancelledOnRequest row db task t mid) (hne : taskId ≠ task.taskId) :
    mid.view taskId = db.view taskId := by
  cases h with
  | cancelled hrequested hlive => rw [cancelled_tasks, if_neg hne]
  | kept hkept => rfl

theorem view_expireSteps (id : String) : (db.expireSteps id).view taskId = db.view taskId := rfl

theorem endsWith_recovered (status : TaskStatus) :
    (if status.terminal then QueueState.done else .ready).EndsWith status := by
  cases h : status.terminal <;> simp [QueueState.EndsWith, h]

theorem endsWith_released (status : TaskStatus) (blocked : Option String) (retryAt : Option ℚ) :
    (releasedState status blocked retryAt).EndsWith status := by
  cases h : status.terminal
  · simp only [QueueState.EndsWith, releasedState, h, Bool.false_eq_true, if_false]
    split
    · exact .inr rfl
    · exact .inl rfl
  · simp [QueueState.EndsWith, releasedState, h]

theorem recoverRow_view_ne {row : QueueRow} (h : recoverRow row db = .ok db')
    (hne : taskId ≠ row.taskId) : db'.view taskId = db.view taskId := by
  obtain ⟨taskRow, task, mid, logged, htask, hcancel, -, rfl⟩ := recoverRow_ok h
  rw [view_log, view_updateQueue_ne _ hne,
    hcancel.view_ne (taskId_of_task htask ▸ hne), view_expireSteps]

theorem recoverRow_lifecycle {row : QueueRow} (h : recoverRow row db = .ok db')
    (hrow : db.queue.get? row.taskId = some row) (hleased : row.state = .leased) :
    Lifecycle .silent (db.view row.taskId) (db'.view row.taskId) := by
  obtain ⟨taskRow, task, mid, logged, htask, hcancel, -, rfl⟩ := recoverRow_ok h
  have hid := taskId_of_task htask
  have hview : (db.expireSteps row.taskId).view taskRow.payload.taskId =
      ⟨some taskRow.payload.status, some row⟩ := by
    rw [hid, view_expireSteps, view_of_get? htask hrow]
  obtain ⟨hmid, hstatus⟩ := hcancel.view_eq hview
  rw [hid] at hmid
  rw [view_log, view_updateQueue_self, hmid, hstatus, view_of_get? htask hrow]
  exact .ended _ row.lastFailure row.retryCount _ hleased (endsWith_recovered _)

theorem recoverRows_view_ne {rows : List QueueRow} (hne : ∀ row ∈ rows, taskId ≠ row.taskId)
    (h : rows.foldlM (fun db row => recoverRow row db) db = .ok db') :
    db'.view taskId = db.view taskId := by
  induction rows generalizing db with
  | nil =>
      cases h
      rfl
  | cons row rest ih =>
      simp only [List.foldlM_cons, Except.bind_eq_ok] at h
      obtain ⟨next, hnext, hrest⟩ := h
      rw [ih (fun r hr => hne r (List.mem_cons_of_mem _ hr)) hrest,
        recoverRow_view_ne hnext (hne row List.mem_cons_self)]

/-- Recovery visits each expired row once; no visit moves another task. -/
theorem recoverRows_lifecycle {rows : List QueueRow}
    (hdistinct : rows.Pairwise (fun a b => a.taskId ≠ b.taskId))
    (hrows : ∀ row ∈ rows, db.queue.get? row.taskId = some row ∧ row.state = .leased)
    (h : rows.foldlM (fun db row => recoverRow row db) db = .ok db') :
    Lifecycle .silent (db.view taskId) (db'.view taskId) := by
  induction rows generalizing db with
  | nil =>
      cases h
      exact .stay _
  | cons row rest ih =>
      simp only [List.foldlM_cons, Except.bind_eq_ok] at h
      obtain ⟨next, hnext, hrest⟩ := h
      obtain ⟨hne, hdistinct⟩ := List.pairwise_cons.mp hdistinct
      obtain ⟨hrow, hleased⟩ := hrows row List.mem_cons_self
      have hlater (other : QueueRow) (hother : other ∈ rest) :
          next.queue.get? other.taskId = some other := by
        have hsame := recoverRow_view_ne hnext (Ne.symm (hne other hother))
        have hold := (hrows other (List.mem_cons_of_mem _ hother)).1
        rw [← hold]
        exact congrArg View.row hsame
      have hnexts := fun other hother =>
        And.intro (hlater other hother) (hrows other (List.mem_cons_of_mem _ hother)).2
      by_cases hid : taskId = row.taskId
      · subst hid
        rw [recoverRows_view_ne (fun other hother => hne other hother) hrest]
        exact recoverRow_lifecycle hnext hrow hleased
      · rw [← recoverRow_view_ne hnext hid]
        exact ih hdistinct hnexts hrest

theorem recoverExpired_lifecycle {n : ℕ} (h : recoverExpired now db = .ok (n, db')) :
    Lifecycle .silent (db.view taskId) (db'.view taskId) := by
  refine recoverRows_lifecycle ?_ ?_ (recoverExpired_ok h)
  · refine (db.queue.unique.imp ?_).filter _
    intro a b hclash heq
    simp [clashes, Row.clash, Row.key, Keyed.primary, heq] at hclash
  · intro row hrow
    obtain ⟨hmem, hexpired⟩ := List.mem_filter.mp hrow
    simp only [QueueRow.expired, Bool.and_eq_true, beq_iff_eq] at hexpired
    exact ⟨Table.get?_eq_some_iff.mpr ⟨hmem, rfl⟩, hexpired.1⟩

theorem cancel_lifecycle {id : String} (h : cancel id now db = .ok (u, db')) :
    Lifecycle .silent (db.view taskId) (db'.view taskId) := by
  obtain ⟨row, taskRow, hrow, htask, hcancel⟩ := cancel_ok h
  have hid := taskId_of_task htask
  by_cases hne : taskId = id
  · subst hne
    cases hcancel with
    | ended hterm => exact .stay _
    | flagged logged hlogged hlive hleased hcurrent =>
        rw [view_log, view_updateQueue_self, view_of_get? htask hrow]
        exact .flagged hlive hleased
    | closed logged hlogged hlive =>
        rw [view_log, view_updateQueue_self, cancelled_tasks, if_pos hid.symm,
          view_updateQueue_self, view_of_get? htask hrow]
        exact .cancelled hlive
  · refine .of_eq ?_
    cases hcancel with
    | ended hterm => rfl
    | flagged logged hlogged hlive hleased hcurrent => rw [view_log, view_updateQueue_ne _ hne]
    | closed logged hlogged hlive =>
        rw [view_log, view_updateQueue_ne _ hne, cancelled_tasks, if_neg (hid ▸ hne),
          view_updateQueue_ne _ hne]

theorem retry_lifecycle [Platform] {id : String} {delayS : ℚ}
    (h : retry id delayS now db = .ok (u, db')) :
    Lifecycle .silent (db.view taskId) (db'.view taskId) := by
  obtain ⟨row, taskRow, logged, hrow, htask, hkept, hlive, hstate, -, rfl⟩ := retry_ok h
  by_cases hid : id = taskId
  · subst hid
    rw [view_log, view_updateQueue_self,
      view_of_get? htask hrow]
    exact .retried _ _ hkept hlive hstate
  · refine .of_eq ?_
    rw [view_log, view_updateQueue_ne _ (Ne.symm hid)]

variable [Platform]

theorem submit_lifecycle {task t : Task} {plan : ExecutionPlan}
    (h : submit task plan db = .ok (t, db')) :
    Lifecycle .silent (db.view taskId) (db'.view taskId) := by
  obtain ⟨tasks, accepted, queue, contract, hcreated, -, -, htasks, -, hqueue, rfl⟩ := submit_ok h
  rw [view_event, view_event]
  rcases get?_insert_cases htasks taskId with ⟨hid, hfree, hnew⟩ | ⟨hid, hold⟩
  · rcases get?_insert_cases hqueue taskId with ⟨-, hqfree, hqnew⟩ | ⟨hqid, -⟩
    · have hstatus : task.stored.status = .created := hcreated
      simp only [Database.view, hnew, hfree, hqnew, hqfree, Option.map_none, Option.map_some,
        hstatus]
      exact .submitted _ _
    · exact absurd hid hqid
  · rcases get?_insert_cases hqueue taskId with ⟨hqid, -⟩ | ⟨-, hqold⟩
    · exact absurd hqid hid
    · refine .of_eq ?_
      simp only [Database.view, hold, hqold]

theorem transition_lifecycle {id : String} {target : TaskStatus} {currentStep : Option String}
    {metadata : Dict Json} {task : Task}
    (h : transition owner id target currentStep metadata clock fs db = .ok (task, db')) :
    Lifecycle (if id = taskId then .moved target else .silent) (db.view taskId)
      (db'.view taskId) := by
  obtain ⟨row, hrow, ⟨hsame, -, rfl⟩ | ⟨-, hmove⟩⟩ := transition_ok h
  · by_cases hid : id = taskId
    · subst hid
      rw [if_pos rfl]
      refine .already ?_
      simp only [Database.view, hrow, Option.map_some, hsame]
    · rw [if_neg hid]
      exact .stay _
  · rw [hmove.committed, view_event]
    by_cases hid : id = taskId
    · subst hid
      rw [if_pos rfl, view_updateTask_self _ hrow, Task.moved_status, Database.view, hrow, Option.map_some]
      refine .moved hmove.allowed (fun r hr => ⟨_, _, hmove.permitted r hr⟩) ?_
      exact fun htarget r hr => ⟨_, _, hmove.completing htarget r hr⟩
    · rw [if_neg hid]
      exact .of_eq (view_updateTask_ne _ (Ne.symm hid))

theorem scheduleRetry_view (taskId : String) {id : String} {state : QueueState} {blocked : Option String}
    {retryAt : Option ℚ} (h : scheduleRetry db id state blocked retryAt = .ok db') :
    ∃ retries nextAttemptAt : QueueRow → _, db'.view taskId = if taskId = id then
      ⟨(db.view taskId).status, (db.view taskId).row.map (fun r => { r with
        retryCount := retries r, nextAttemptAt := nextAttemptAt r })⟩ else db.view taskId := by
  obtain rfl | ⟨time, logged, -, -, rfl⟩ := scheduleRetry_ok h
  · refine ⟨QueueRow.retryCount, QueueRow.nextAttemptAt, ?_⟩
    split <;> simp
  · refine ⟨fun r => r.retryCount + 1, fun _ => time, ?_⟩
    rw [view_log]
    split
    next hid =>
      subst hid
      rw [view_updateQueue_self]
    next hid => rw [view_updateQueue_ne _ hid]

theorem release_lifecycle {lease : Lease} {blocked : Option String} {retryAt : Option ℚ}
    (h : release lease blocked retryAt now db = .ok (u, db')) :
    Lifecycle .silent (db.view taskId) (db'.view taskId) := by
  obtain ⟨row, taskRow, task, mid, late, logged, hrow, htask, hpermit, hcancel, hlate, -, rfl⟩ :=
    release_ok h
  obtain ⟨retries, nextAttemptAt, hview⟩ := scheduleRetry_view taskId hlate
  have hid := taskId_of_task htask
  rw [view_log, hview]
  by_cases hne : taskId = lease.taskId
  · subst hne
    have hbefore := view_of_get? htask hrow
    obtain ⟨hmid, hstatus⟩ := hcancel.view_eq (hid.symm ▸ hbefore)
    rw [hid] at hmid
    obtain ⟨_, _, -, hheld, -⟩ := hpermit row hrow
    rw [if_pos rfl, view_updateQueue_self, hmid, hstatus, hbefore]
    exact .ended _ blocked _ _ hheld.2.1 (endsWith_released _ blocked retryAt)
  · refine .of_eq ?_
    rw [if_neg hne, view_updateQueue_ne _ hne, hcancel.view_ne (hid.symm ▸ hne)]

/-! ## Every request -/

/-- The move of a task that a request stands for. -/
def moveOf (taskId : String) : (r : Request) → Except Exn r.Reply → Move
  | .createTask task _, .ok _ => if task.taskId = taskId then .created task.status else .silent
  | .transition _ id target _ _, .ok _ => if id = taskId then .moved target else .silent
  | .claim _ _, .ok answer => claimMove taskId answer
  | .advance lease _, .ok _ => if lease.taskId = taskId then .advanced else .silent
  | _, _ => .silent

omit [Platform] in
theorem commit_lifecycle {α : Type} {w w' : World} {x : Except Exn (α × Database)}
    {reply : Except Exn α} (h : w.commit x = (reply, w'))
    (hx : ∀ a db', x = .ok (a, db') → Lifecycle .silent (w.db.view taskId) (db'.view taskId)) :
    Lifecycle .silent (w.db.view taskId) (w'.db.view taskId) := by
  rcases commit_cases h with ⟨a, db', ha, -, rfl⟩ | ⟨-, -, -, rfl⟩
  · exact hx a db' ha
  · exact .stay _

/-- The model refines the life cycle: one request is one move of every task. -/
theorem perform_lifecycle {env : Surroundings} {r : Request} {w w' : World}
    {reply : Except Exn r.Reply} (h : perform env r w = (reply, w')) (taskId : String) :
    Lifecycle (moveOf taskId r reply) (w.db.view taskId) (w'.db.view taskId) := by
  cases r with
  | claim workerId leaseS =>
      rcases commit_cases h with ⟨answer, db', hx, rfl, rfl⟩ | ⟨e, -, rfl, rfl⟩
      · exact claim_lifecycle hx
      · exact .stay _
  | createTask =>
      rcases commit_cases h with ⟨answer, db', hx, rfl, rfl⟩ | ⟨e, -, rfl, rfl⟩
      · exact createTask_lifecycle hx
      · exact .stay _
  | transition =>
      rcases commit_cases h with ⟨answer, db', hx, rfl, rfl⟩ | ⟨e, -, rfl, rfl⟩
      · exact transition_lifecycle hx
      · exact .stay _
  | advance =>
      rcases commit_cases h with ⟨answer, db', hx, rfl, rfl⟩ | ⟨e, -, rfl, rfl⟩
      · exact advance_lifecycle hx
      · exact .stay _
  | checkpoint => exact commit_lifecycle h fun _ _ hx => .of_eq (checkpoint_view hx)
  | setRoute => exact commit_lifecycle h fun _ _ hx => .of_eq (setRoute_view hx)
  | addArtifact => exact commit_lifecycle h fun _ _ hx => .of_eq (addArtifact_view hx)
  | submit => exact commit_lifecycle h fun _ _ hx => submit_lifecycle hx
  | recoverExpired => exact commit_lifecycle h fun _ _ hx => recoverExpired_lifecycle hx
  | heartbeat => exact commit_lifecycle h fun _ _ hx => heartbeat_lifecycle hx
  | release => exact commit_lifecycle h fun _ _ hx => release_lifecycle hx
  | cancel => exact commit_lifecycle h fun _ _ hx => cancel_lifecycle hx
  | retry => exact commit_lifecycle h fun _ _ hx => retry_lifecycle hx
  -- the other requests write neither table
  | _ =>
      exact .of_eq (view_congr (perform_writes h .tasks (by simp [Request.writes]))
        (perform_writes h .queue (by simp [Request.writes])))

omit [Platform] in
/-- The surroundings move no task. -/
theorem World.Drift.view_eq {w w' : World} (h : w.Drift w') :
    w'.db.view taskId = w.db.view taskId :=
  view_congr (h.agree (t := .tasks) (by simp)) (h.agree (t := .queue) (by simp))

end Dante
