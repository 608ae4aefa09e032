import Dante.Library.Replay
import Dante.Verification.Fencing

/-! # The audit trail explains task statuses

Status and attempts of a task are a fold of its events: every commit that changes them logs
the event that says so, and no other commit logs one. -/

namespace Dante

open JsonText Relational Concurrent Audit

/-! ## The events that speak of a status -/

/-- `task.created` and `task.transition` of one task. -/
def TaskEvent.ofStatus (taskId : String) (e : TaskEvent) : Bool :=
  e.taskId == taskId && (e.event == "task.created" || e.event == "task.transition")

/-- The status events of a task, in order of their ids. -/
def Database.statusEvents (db : Database) (taskId : String) : List TaskEvent :=
  db.events.filter (TaskEvent.ofStatus taskId)

/-- The stored status and attempts of a task. -/
def Database.standing (db : Database) (taskId : String) : Option (TaskStatus × ℕ) :=
  (db.tasks.get? taskId).map (fun r => (r.payload.status, r.payload.attempts))

/-- One `task.transition` event along `TRANSITIONS`. -/
def TaskEvent.Moves (status : TaskStatus) (e : TaskEvent) (target : TaskStatus) : Prop :=
  e.event = "task.transition" ∧ e.fromStatus = some status ∧ e.toStatus = target ∧
    target ∈ transitions status

/-- What a status event does to the standing of its task. -/
inductive StatusMove : Option (TaskStatus × ℕ) → TaskEvent → Option (TaskStatus × ℕ) → Prop where
  | created {e : TaskEvent} (attempts : ℕ) (hname : e.event = "task.created")
      (hfirst : e.fromStatus = none) : StatusMove none e (some (e.toStatus, attempts))
  | moved {status target : TaskStatus} {e : TaskEvent} (attempts : ℕ)
      (h : e.Moves status target) :
      StatusMove (some (status, attempts)) e
        (some (target, if target = .running then attempts + 1 else attempts))

variable {db db' mid : Database} {taskId : String} {w w' : World}

/-- The events that `db'` has beyond `db` account for the change of the task's standing. -/
def Database.Accounts (db : Database) (taskId : String) (db' : Database) : Prop :=
  Extends StatusMove (db.statusEvents taskId) (db'.statusEvents taskId) (db.standing taskId)
    (db'.standing taskId)

theorem Database.Accounts.refl (db : Database) : db.Accounts taskId db :=
  Extends.refl _ _

theorem Database.Accounts.trans (h : db.Accounts taskId mid) (h' : mid.Accounts taskId db') :
    db.Accounts taskId db' :=
  Extends.trans h h'

/-- The names of events that do not speak of a status. -/
def StatusFree (names : List String) : Prop :=
  "task.created" ∉ names ∧ "task.transition" ∉ names

theorem TaskEvent.ofStatus_quiet {names : List String} (hquiet : StatusFree names) {e : TaskEvent}
    (he : e.event ∈ names) : e.ofStatus taskId = false := by
  have hcreated : e.event ≠ "task.created" := fun h => hquiet.1 (h ▸ he)
  have hmoved : e.event ≠ "task.transition" := fun h => hquiet.2 (h ▸ he)
  simp [ofStatus, hcreated, hmoved]

/-- Commits that keep the tasks' standing and log other events. -/
theorem accounts_quiet (names : List String) (hquiet : StatusFree names)
    (hlogs : db.LogsOnly names db') (hsame : db'.standing taskId = db.standing taskId) :
    db.Accounts taskId db' := by
  obtain ⟨new, hnew, hnames⟩ := hlogs
  refine Extends.of_eq ?_ hsame
  have hnone : new.filter (TaskEvent.ofStatus taskId) = [] := by
    rw [List.filter_eq_nil_iff]
    intro e he
    simp [TaskEvent.ofStatus_quiet hquiet (hnames e he)]
  rw [Database.statusEvents, hnew, List.filter_append, hnone, List.append_nil,
    Database.statusEvents]

/-- A status event of another task. -/
theorem accounts_other {e : TaskEvent} (hevents : db'.events = db.events ++ [e])
    (hother : e.taskId ≠ taskId) (hsame : db'.standing taskId = db.standing taskId) :
    db.Accounts taskId db' := by
  refine Extends.of_eq ?_ hsame
  have hno : TaskEvent.ofStatus taskId e = false := by simp [TaskEvent.ofStatus, hother]
  simp [Database.statusEvents, hevents, hno]

/-- A status event of the task itself. -/
theorem accounts_event {e : TaskEvent} (hevents : db'.events = db.events ++ [e])
    (hid : e.taskId = taskId) (hmove : StatusMove (db.standing taskId) e (db'.standing taskId)) :
    db.Accounts taskId db' := by
  refine Extends.single ?_ hmove
  have hyes : TaskEvent.ofStatus taskId e = true := by
    generalize db.standing taskId = before, db'.standing taskId = after at hmove
    cases hmove with
    | created attempts hname => simp [TaskEvent.ofStatus, hid, hname]
    | moved attempts h => simp [TaskEvent.ofStatus, hid, h.1]
  simp [Database.statusEvents, hevents, hyes]

/-! ## Updates of the task table -/

theorem standing_congr (h : db'.tasks = db.tasks) : db'.standing taskId = db.standing taskId := by
  rw [Database.standing, h, Database.standing]

@[simp] theorem standing_event (task : Task) (name : String) (previous : Option TaskStatus)
    (metadata : Dict Json) :
    (db.event task name previous metadata).standing taskId = db.standing taskId := rfl

theorem standing_updateTask {other : String} {f : Task → Task} (hf : ∀ t, (f t).taskId = t.taskId)
    (hkeeps : ∀ t, (f t).status = t.status ∧ (f t).attempts = t.attempts) :
    (db.updateTask other f hf).standing taskId = db.standing taskId := by
  rw [Database.standing, Database.updateTask_tasks, Table.get?_modify]
  split
  · rw [Option.map_map, Database.standing]
    congr 1
    funext row
    simp [hkeeps]
  · rfl

theorem standing_updateTask_ne {other : String} {f : Task → Task}
    (hf : ∀ t, (f t).taskId = t.taskId) (hne : taskId ≠ other) :
    (db.updateTask other f hf).standing taskId = db.standing taskId := by
  rw [Database.standing, Database.updateTask_tasks, Table.get?_modify, if_neg hne,
    Database.standing]

theorem standing_updateTask_self {f : Task → Task} (hf : ∀ t, (f t).taskId = t.taskId)
    {row : TaskRow} (hrow : db.tasks.get? taskId = some row) :
    (db.updateTask taskId f hf).standing taskId =
      some ((f row.payload).status, (f row.payload).attempts) := by
  rw [Database.standing, Database.updateTask_tasks, Table.get?_modify, if_pos rfl, hrow]
  rfl

theorem standing_of_get? {row : TaskRow} (h : db.tasks.get? taskId = some row) :
    db.standing taskId = some (row.payload.status, row.payload.attempts) := by
  rw [Database.standing, h]
  rfl

/-! ## Each operation -/

/-- `_cancel_task` logs the transition that it makes. -/
theorem cancelled_accounts {task : Task} {row : TaskRow}
    (hrow : db.tasks.get? task.taskId = some row) (hsame : row.payload = task)
    (hlive : task.status.terminal = false) : db.Accounts taskId (db.cancelled task) := by
  have hevents : (db.cancelled task).events = db.events ++
      [⟨task.taskId, "task.transition", some task.status, .cancelled,
        [("reason", .str "cancel_requested")]⟩] := rfl
  by_cases hid : task.taskId = taskId
  · subst hid
    apply accounts_event hevents rfl
    rw [Database.cancelled, standing_event, standing_updateTask_self _ hrow,
      standing_of_get? hrow, hsame]
    exact .moved task.attempts ⟨rfl, rfl, rfl, cancelled_mem_transitions.mpr hlive⟩
  · apply accounts_other hevents hid
    rw [Database.cancelled, standing_event, standing_updateTask_ne _ (Ne.symm hid)]

theorem CancelledOnRequest.accounts {queued : QueueRow} {task task' : Task} {row : TaskRow}
    (h : CancelledOnRequest queued db task task' mid)
    (hrow : db.tasks.get? task.taskId = some row) (hsame : row.payload = task) :
    db.Accounts taskId mid := by
  cases h with
  | cancelled hrequested hlive => exact cancelled_accounts hrow hsame hlive
  | kept => exact .refl db

theorem recoverRow_accounts {queued : QueueRow} (h : recoverRow queued db = .ok db') :
    db.Accounts taskId db' := by
  obtain ⟨row, task, mid, logged, hrow, hcancel, hlogged, rfl⟩ := recoverRow_ok h
  have hid := Table.primary_of_get? hrow
  have hmid : (db.expireSteps queued.taskId).Accounts taskId mid :=
    hcancel.accounts (hid.symm ▸ hrow) rfl
  refine Database.Accounts.trans hmid (accounts_quiet ["worker.recovered"] ?_ (.one rfl ?_) rfl)
  · simp [StatusFree]
  · simp [hlogged.2]

theorem recoverRows_accounts {rows : List QueueRow}
    (h : rows.foldlM (fun db row => recoverRow row db) db = .ok db') : db.Accounts taskId db' := by
  induction rows generalizing db with
  | nil =>
      cases h
      exact Database.Accounts.refl _
  | cons row rest ih =>
      simp only [List.foldlM_cons, Except.bind_eq_ok] at h
      obtain ⟨next, hnext, hrest⟩ := h
      exact (recoverRow_accounts hnext).trans (ih hrest)

theorem cancel_accounts {id : String} {now : ℚ} {u : Unit}
    (h : cancel id now db = .ok (u, db')) : db.Accounts taskId db' := by
  obtain ⟨row, taskRow, -, htask, hcancel⟩ := cancel_ok h
  have hquiet : StatusFree ["worker.cancel_requested"] := by simp [StatusFree]
  cases hcancel with
  | ended => exact .refl _
  | flagged logged hlogged =>
      exact accounts_quiet _ hquiet (.one rfl (by simp [hlogged.2])) rfl
  | closed logged hlogged hlive =>
      have hid : taskRow.payload.taskId = id := Table.primary_of_get? htask
      have hcancelled : db.Accounts taskId ((db.updateQueue id (fun r => { r with
          cancelRequested := true }) (fun _ => rfl)).cancelled taskRow.payload) :=
        cancelled_accounts (by rw [hid]; exact htask) rfl hlive
      exact hcancelled.trans (accounts_quiet _ hquiet (.one rfl (by simp [hlogged.2])) rfl)

/-- A row that was inserted stands where it was created. -/
theorem inserted_accounts {task : Task} {tasks : Table TaskRow}
    (hinsert : db.tasks.insert ⟨task.stored, 0⟩ = some tasks) (hdb : db'.tasks = tasks)
    (hevents : db'.events = db.events ++ [⟨task.taskId, "task.created", none, task.status, []⟩]) :
    db.Accounts taskId db' := by
  rcases get?_insert_cases hinsert taskId with ⟨hid, hfree, hnew⟩ | ⟨hid, hold⟩
  · apply accounts_event hevents hid
    have hbefore : db.standing taskId = none := by simp [Database.standing, hfree]
    have hafter : db'.standing taskId = some (task.status, task.attempts) := by
      simp [Database.standing, hdb, hnew, Task.stored]
    rw [hbefore, hafter]
    exact .created (e := ⟨task.taskId, "task.created", none, task.status, []⟩) _ rfl rfl
  · apply accounts_other hevents hid
    simp [Database.standing, hdb, hold]

section Runs

variable [Platform]

theorem scheduleRetry_accounts (taskId : String) {id : String} {state : QueueState} {blocked : Option String}
    {retryAt : Option ℚ} (h : scheduleRetry db id state blocked retryAt = .ok db') :
    db.Accounts taskId db' := by
  obtain rfl | ⟨time, logged, -, hlogged, rfl⟩ := scheduleRetry_ok h
  · exact .refl _
  · apply accounts_quiet ["worker.retry_scheduled"]
    · simp [StatusFree]
    · exact .one rfl (by simp [hlogged.2])
    · rfl

theorem transition_accounts {owner : Option Lease} {id : String} {target : TaskStatus}
    {currentStep : Option String} {metadata : Dict Json} {clock : ℕ → ℚ} {fs : FileSystem}
    {task : Task} (h : transition owner id target currentStep metadata clock fs db
      = .ok (task, db')) : db.Accounts taskId db' := by
  obtain ⟨row, hrow, ⟨-, -, rfl⟩ | ⟨-, hmove⟩⟩ := transition_ok h
  · exact .refl _
  · have hid : row.payload.taskId = id := Table.primary_of_get? hrow
    have hevents : db'.events = db.events ++
        [⟨id, "task.transition", some row.payload.status, target, metadata⟩] := by
      rw [hmove.committed, Database.event_events, Database.updateTask_events,
        Task.moved_taskId, Task.moved_status, hid]
    by_cases hsame : id = taskId
    · subst hsame
      apply accounts_event hevents rfl
      rw [hmove.committed, standing_event, standing_updateTask_self _ hrow,
        standing_of_get? hrow]
      exact .moved row.payload.attempts ⟨rfl, rfl, rfl, hmove.allowed⟩
    · apply accounts_other hevents hsame
      rw [hmove.committed, standing_event, standing_updateTask_ne _ (Ne.symm hsame)]

theorem release_accounts {lease : Lease} {blocked : Option String} {retryAt : Option ℚ} {now : ℚ}
    {u : Unit} (h : release lease blocked retryAt now db = .ok (u, db')) :
    db.Accounts taskId db' := by
  obtain ⟨_, row, _, mid, late, logged, -, hrow, -, hcancel, hlate, hlogged, rfl⟩ := release_ok h
  have hid : row.payload.taskId = lease.taskId := Table.primary_of_get? hrow
  have hmid : db.Accounts taskId mid := hcancel.accounts (hid.symm ▸ hrow) rfl
  have hscheduled := scheduleRetry_accounts taskId hlate
  refine Database.Accounts.trans (hmid.trans hscheduled)
    (accounts_quiet ["worker.released"] ?_ (.one rfl ?_) rfl)
  · simp [StatusFree]
  · simp [hlogged.2]

theorem submit_accounts {task t : Task} {plan : ExecutionPlan}
    (h : submit task plan db = .ok (t, db')) : db.Accounts taskId db' := by
  obtain ⟨tasks, accepted, queue, contract, -, -, -, htasks, -, -, rfl⟩ := submit_ok h
  have hcreated : db.Accounts taskId (({ db with
      tasks := tasks, acceptance := accepted, queue := queue }).event task "task.created" none []) :=
    inserted_accounts htasks rfl rfl
  refine hcreated.trans ?_
  exact accounts_quiet ["worker.submitted"] (by simp [StatusFree]) (.one rfl (by simp)) rfl

omit [Platform] in
theorem commit_accounts {α : Type} {x : Except Exn (α × Database)} {reply : Except Exn α}
    (h : w.commit x = (reply, w')) (hx : ∀ a db', x = .ok (a, db') → w.db.Accounts taskId db') :
    w.db.Accounts taskId w'.db := by
  rcases commit_cases h with ⟨a, db', ha, -, rfl⟩ | ⟨-, -, -, rfl⟩
  · exact hx a db' ha
  · exact .refl _

/-- Every request accounts for what it does to a task's standing. -/
theorem perform_accounts {env : Surroundings} {r : Request} {reply : Except Exn r.Reply}
    (h : perform env r w = (reply, w')) (taskId : String) : w.db.Accounts taskId w'.db := by
  have hlogs := perform_logs h
  cases r with
  | createTask =>
      refine commit_accounts h fun _ _ hx => ?_
      obtain ⟨_, _, htasks, -, -, rfl⟩ := createTask_ok hx
      exact inserted_accounts htasks rfl rfl
  | transition => exact commit_accounts h fun _ _ hx => transition_accounts hx
  | submit => exact commit_accounts h fun _ _ hx => submit_accounts hx
  | recoverExpired =>
      exact commit_accounts h fun _ _ hx => recoverRows_accounts (recoverExpired_ok hx)
  | release => exact commit_accounts h fun _ _ hx => release_accounts hx
  | cancel => exact commit_accounts h fun _ _ hx => cancel_accounts hx
  -- three more write the payload, but neither the status nor the attempts
  | checkpoint =>
      refine commit_accounts h fun _ _ hx => ?_
      obtain ⟨_, -, -, rfl⟩ := checkpoint_ok hx
      refine accounts_quiet ["task.checkpoint"] ?_ (.one rfl ?_) ?_
      · simp [StatusFree]
      · simp
      · rw [standing_event, standing_updateTask]
        exact fun _ => ⟨rfl, rfl⟩
  | setRoute =>
      refine commit_accounts h fun _ _ hx => ?_
      obtain ⟨_, -, -, rfl⟩ := setRoute_ok hx
      refine accounts_quiet ["route.selected"] ?_ (.one rfl ?_) ?_
      · simp [StatusFree]
      · simp
      · rw [standing_event, standing_updateTask]
        · rfl
        · exact fun _ => ⟨rfl, rfl⟩
  | addArtifact =>
      refine commit_accounts h fun _ _ hx => ?_
      obtain ⟨_, _, -, -, -, rfl⟩ := addArtifact_ok hx
      refine accounts_quiet ["artifact.created"] ?_ (.one rfl ?_) ?_
      · simp [StatusFree]
      · simp
      · rw [standing_event, standing_updateTask]
        · rfl
        · exact fun _ => ⟨rfl, rfl⟩
  | _ =>
      refine accounts_quiet _ ?_ hlogs (standing_congr ?_)
      · simp [StatusFree, Request.reports]
      · exact perform_writes h .tasks (by simp [Request.writes])

omit [Platform] in
/-- No event of the continuity manager is called `name`. -/
theorem continuity_ne {name suffix : String} (hname : name.toList.head? ≠ some 'c') :
    "continuity." ++ suffix ≠ name := by
  rintro rfl
  simp at hname

omit [Platform] in
/-- The surroundings touch neither a task's standing nor its status events. -/
theorem World.Drift.trail (h : w.Drift w') (taskId : String) :
    w'.db.statusEvents taskId = w.db.statusEvents taskId ∧
      w'.db.standing taskId = w.db.standing taskId := by
  obtain ⟨rows, logged, hdb, hnames⟩ := h.continuity
  rw [hdb]
  refine ⟨?_, rfl⟩
  have hnone : logged.filter (TaskEvent.ofStatus taskId) = [] := by
    rw [List.filter_eq_nil_iff]
    intro e he
    obtain ⟨suffix, hname⟩ := hnames e he
    have hcreated : e.event ≠ "task.created" := hname ▸ continuity_ne (by decide)
    have hmoved : e.event ≠ "task.transition" := hname ▸ continuity_ne (by decide)
    simp [TaskEvent.ofStatus, hcreated, hmoved]
  simp only [Database.statusEvents, List.filter_append, hnone, List.append_nil]

/-! ## Whole runs -/

/-- The committed call that created the task. -/
def Creates (task : Task) : Event Request.Reply Exn → Prop
  | .call _ (.createTask t _) (.ok _) => t = task
  | .call _ (.submit t _) (.ok _) => t = task
  | _ => False

omit [Platform] in
theorem creates_submit {pid : ℕ} {task : Task} {plan : ExecutionPlan} {reply : Except Exn Task}
    (h : reply.isOk = true) : Creates task (.call pid (.submit task plan) reply) := by
  obtain ⟨t, rfl⟩ := Except.exists_of_isOk h
  rfl

/-- The trail begins with the creation, and leads from there to the stored standing. -/
def Database.TrailFrom (db : Database) (task : Task) : Prop :=
  ∃ created moves, db.statusEvents task.taskId = created :: moves ∧
    created.event = "task.created" ∧ created.fromStatus = none ∧ created.toStatus = task.status ∧
    Replay StatusMove (some (task.status, task.attempts)) moves (db.standing task.taskId)

omit [Platform] in
theorem Database.TrailFrom.extend {task : Task} (h : db.TrailFrom task)
    (haccounts : db.Accounts task.taskId db') : db'.TrailFrom task := by
  obtain ⟨created, moves, hevents, hname, hfirst, hstatus, hpath⟩ := h
  obtain ⟨new, hnew, hpath'⟩ := haccounts
  exact ⟨created, moves ++ new, by rw [hnew, hevents, List.cons_append], hname, hfirst, hstatus,
    hpath.append hpath'⟩

omit [Platform] in
/-- Nothing leads back to a task that does not exist. -/
theorem StatusMove.of_none {v : Option (TaskStatus × ℕ)} {log : List TaskEvent}
    (h : Replay StatusMove v log none) : v = none ∧ log = [] := by
  induction log generalizing v with
  | nil =>
      cases h
      exact ⟨rfl, rfl⟩
  | cons e rest ih =>
      cases h with
      | cons hedge hrest =>
          rw [(ih hrest).1] at hedge
          cases hedge

omit [Platform] in
/-- From the creation on the trail is a chain of transitions that counts the attempts. -/
theorem StatusMove.chain {status : TaskStatus} {attempts : ℕ} {moves : List TaskEvent}
    {v : Option (TaskStatus × ℕ)} (h : Replay StatusMove (some (status, attempts)) moves v) :
    ∃ target, v = some (target,
        attempts + moves.countP (fun e => decide (e.toStatus = .running))) ∧
      Replay TaskEvent.Moves status moves target := by
  induction moves generalizing status attempts with
  | nil =>
      cases h
      exact ⟨status, by simp, .nil status⟩
  | cons e rest ih =>
      cases h with
      | cons hedge hrest =>
          cases hedge with
          | @moved _ next _ _ hmove =>
              obtain ⟨target, rfl, hchain⟩ := ih hrest
              refine ⟨target, ?_, .cons hmove hchain⟩
              rw [List.countP_cons, hmove.2.2.1]
              by_cases hrunning : next = .running
              · simp only [hrunning, if_true, decide_true, Option.some.injEq, Prod.mk.injEq,
                  true_and]
                omega
              · simp [hrunning]

omit [Platform] in
/-- A creation starts the trail of a task that had none. -/
theorem inserted_trail {task : Task} {tasks : Table TaskRow}
    (hinsert : db.tasks.insert ⟨task.stored, 0⟩ = some tasks) (hdb : db'.tasks = tasks)
    (hevents : db'.events = db.events ++ [⟨task.taskId, "task.created", none, task.status, []⟩])
    (hunborn : db.standing task.taskId = none → db.statusEvents task.taskId = []) :
    db'.TrailFrom task := by
  rcases get?_insert_cases hinsert task.taskId with ⟨-, hfree, hnew⟩ | ⟨hid, -⟩
  · have hempty := hunborn (by simp [Database.standing, hfree])
    have hafter : db'.standing task.taskId = some (task.status, task.attempts) := by
      simp [Database.standing, hdb, hnew, Task.stored]
    refine ⟨⟨task.taskId, "task.created", none, task.status, []⟩, [], ?_, rfl, rfl, rfl, ?_⟩
    · rw [Database.statusEvents] at hempty ⊢
      simp [hevents, hempty, TaskEvent.ofStatus]
    · rw [hafter]
      exact .nil _
  · exact absurd rfl hid

theorem perform_trail {env : Surroundings} {r : Request} {reply : Except Exn r.Reply}
    (h : perform env r w = (reply, w')) {pid : ℕ} {task : Task}
    (hcreates : Creates task (.call pid r reply))
    (hunborn : w.db.standing task.taskId = none → w.db.statusEvents task.taskId = []) :
    w'.db.TrailFrom task := by
  unfold Creates at hcreates
  split at hcreates
  next heq =>
    cases heq
    subst hcreates
    obtain ⟨db', hx, rfl⟩ := commit_ok h
    obtain ⟨tasks, accepted, htasks, -, -, rfl⟩ := createTask_ok hx
    exact inserted_trail htasks rfl rfl hunborn
  next heq =>
    cases heq
    subst hcreates
    obtain ⟨db', hx, rfl⟩ := commit_ok h
    obtain ⟨tasks, accepted, queue, contract, -, -, -, htasks, -, -, rfl⟩ := submit_ok hx
    refine Database.TrailFrom.extend (inserted_trail htasks rfl rfl hunborn)
      (accounts_quiet ["worker.submitted"] (by simp [StatusFree]) (.one rfl (by simp)) rfl)
  next => exact hcreates.elim

/-- The trails of a snapshot: none before the creation, and one from each creation. -/
structure Trailed (taskId : String) (s : Snapshot ledgerMachine) : Prop where
  unborn : s.state.db.standing taskId = none → s.state.db.statusEvents taskId = []
  created : ∀ task, task.taskId = taskId → (∃ e ∈ s.log, Creates task e) →
    s.state.db.TrailFrom task

theorem Trailed.other {s : Snapshot ledgerMachine} (h : Trailed taskId s)
    {e : Event Request.Reply Exn} (he : ∀ task, ¬Creates task e) :
    Trailed taskId ⟨s.state, s.log ++ [e]⟩ := by
  refine ⟨h.unborn, fun task hid ⟨e', he', hcreates⟩ => h.created task hid ⟨e', ?_, hcreates⟩⟩
  rcases List.mem_append.mp he' with hold | hlast
  · exact hold
  · rw [List.mem_singleton.mp hlast] at hcreates
    exact absurd hcreates (he task)

theorem trailed {s : System ledgerMachine} (h : Reachable anyRun s) (taskId : String) :
    Trailed taskId s.snap := by
  refine h.snapshot_invariant (J := Trailed taskId) ?_ ?_ ?_ ?_ ?_
  · intro w hw
    have hempty : w.db = .empty := hw
    constructor
    · intro _
      simp [hempty, Database.empty, Database.statusEvents]
    · rintro _ - ⟨_, he, -⟩
      cases he
  · intro s pid r env reply w hs _ hp
    have haccounts := perform_accounts hp taskId
    constructor
    · intro hnone
      obtain ⟨new, hnew, hpath⟩ := haccounts
      have hnone' : w.db.standing taskId = none := hnone
      rw [hnone'] at hpath
      obtain ⟨hbefore, rfl⟩ := StatusMove.of_none hpath
      exact hnew.trans (by rw [hs.unborn hbefore, List.append_nil])
    · rintro task rfl ⟨e, he, hcreates⟩
      rcases List.mem_append.mp he with hold | hlast
      · exact (hs.created task rfl ⟨e, hold, hcreates⟩).extend haccounts
      · rw [List.mem_singleton.mp hlast] at hcreates
        exact perform_trail hp hcreates hs.unborn
  · exact fun hs => hs.other fun _ h => h
  · exact fun hs => hs.other fun _ h => h
  · intro s w hs hd
    obtain ⟨hevents, hstanding⟩ := hd.trail taskId
    constructor
    · intro hnone
      exact hevents.trans (hs.unborn (hstanding.symm.trans hnone))
    · intro task hid he
      refine (hs.created task hid he).extend (Extends.of_eq ?_ ?_)
      · exact hid ▸ hevents
      · exact hid ▸ hstanding

/-- The audit trail reconstructs status and attempts. After its creation a task's status events
are transitions, each from the status before it, along `TRANSITIONS`, up to the stored status;
the stored attempts are those that lead to `running`. -/
theorem status_audited {s : System ledgerMachine} (hs : Reachable anyRun s) {task : Task}
    (hcreated : ∃ e ∈ s.snap.log, Creates task e) (hstatus : task.status = .created)
    (hattempts : task.attempts = 0) :
    ∃ row created moves, s.snap.state.db.tasks.get? task.taskId = some row ∧
      s.snap.state.db.statusEvents task.taskId = created :: moves ∧
      created.event = "task.created" ∧ created.fromStatus = none ∧ created.toStatus = .created ∧
      Replay TaskEvent.Moves .created moves row.payload.status ∧
      row.payload.attempts = moves.countP (fun e => decide (e.toStatus = .running)) := by
  obtain ⟨created, moves, hevents, hname, hfirst, hto, hpath⟩ :=
    (trailed hs task.taskId).created task rfl hcreated
  rw [hstatus, hattempts] at hpath
  obtain ⟨target, hstanding, hchain⟩ := StatusMove.chain hpath
  obtain ⟨row, hrow, hpayload⟩ := Option.map_eq_some_iff.mp hstanding
  simp only [Prod.mk.injEq] at hpayload
  obtain ⟨rfl, hcount⟩ := hpayload
  refine ⟨row, created, moves, hrow, hevents, hname, hfirst, hto.trans hstatus, hchain, ?_⟩
  rw [hcount, Nat.zero_add]

end Runs

section Example

local instance auditExample : Platform := .reference []

/-- The owner of the first lease plans the task and starts it. -/
def Sample.underway : List (Surroundings × Request) :=
  [(moment 1 "", .transition (some ⟨"task", "first", 1⟩) "task" .planned none []),
    (moment 2 "", .transition (some ⟨"task", "first", 1⟩) "task" .running none [])]

theorem status_audited_underway :
    ∃ row moves, ((Sample.fresh []).script
        (Sample.claimed ++ Sample.underway)).snap.state.db.tasks.get? "task" = some row ∧
      Replay TaskEvent.Moves .created moves row.payload.status ∧
      row.payload.attempts = moves.countP (fun e => decide (e.toStatus = .running)) := by
  have hcreated : ∃ e ∈ ((Sample.fresh []).script
      (Sample.claimed ++ Sample.underway)).snap.log, Creates Sample.task e :=
    ⟨_, .tail _ (.head _), creates_submit (by decide +kernel)⟩
  obtain ⟨row, _, moves, hrow, -, -, -, -, hchain, hcount⟩ :=
    status_audited (Sample.reachable [] _) hcreated rfl rfl
  exact ⟨row, moves, hrow, hchain, hcount⟩

end Example

end Dante
