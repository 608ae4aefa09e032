import Dante.Library.Within
import Dante.Verification.Cancellation
import Dante.Verification.Frozen
import Dante.Verification.Gates
import Dante.Verification.Windows

/-! # What a task that has ended still lets through

The operations that give a task new evidence look at its status first, and a transition finds
no way out of a status that has ended. `checkpoint` and `set_route` look at the lease only. -/

namespace Dante

open JsonText Relational Concurrent

variable {db db' mid : Database} {taskId : String}

/-! ## The record of a task -/

/-- The task has ended. -/
def Database.Ended (db : Database) (taskId : String) : Prop :=
  ∃ row, db.tasks.get? taskId = some row ∧ row.payload.status.terminal = true

/-- The task's stored payload is as it was, and it has no new route. -/
structure Database.Undisturbed (db db' : Database) (taskId : String) : Prop where
  payload : (db'.tasks.get? taskId).map TaskRow.payload =
    (db.tasks.get? taskId).map TaskRow.payload
  routes : db'.routesOf taskId = db.routesOf taskId

theorem Database.Undisturbed.refl (db : Database) (taskId : String) : db.Undisturbed db taskId :=
  ⟨rfl, rfl⟩

theorem Database.Undisturbed.trans (h : db.Undisturbed mid taskId)
    (h' : mid.Undisturbed db' taskId) : db.Undisturbed db' taskId :=
  ⟨h'.payload.trans h.payload, h'.routes.trans h.routes⟩

theorem undisturbed_of_row (htask : db'.tasks.get? taskId = db.tasks.get? taskId)
    (hroutes : db'.routes = db.routes) : db.Undisturbed db' taskId := by
  refine ⟨by rw [htask], ?_⟩
  simp only [Database.routesOf, hroutes]

theorem Database.Ended.of_undisturbed (hended : db.Ended taskId)
    (h : db.Undisturbed db' taskId) : db'.Ended taskId := by
  obtain ⟨row, hrow, hterm⟩ := hended
  have hpayload := h.payload
  rw [hrow, Option.map_some] at hpayload
  obtain ⟨row', hrow', hsame⟩ := Option.map_eq_some_iff.mp hpayload
  exact ⟨row', hrow', hsame ▸ hterm⟩

/-- Whoever finds the task alive has found another task. -/
theorem Database.Ended.ne_of_live {id : String} {row : TaskRow} (hended : db.Ended taskId)
    (hrow : db.tasks.get? id = some row) (hlive : row.payload.status.terminal = false) :
    taskId ≠ id := by
  rintro rfl
  obtain ⟨row', hrow', hterm⟩ := hended
  cases hrow.symm.trans hrow'
  rw [hlive] at hterm
  cases hterm

theorem payload_updateTask {f : Task → Task} (hf : ∀ t, (f t).taskId = t.taskId) :
    ((db.updateTask taskId f hf).tasks.get? taskId).map TaskRow.payload =
      (db.tasks.get? taskId).map fun row => f row.payload := by
  rw [Database.updateTask_tasks, Table.get?_modify, if_pos rfl, Option.map_map]
  rfl

theorem undisturbed_insert {row : TaskRow} {tasks : Table TaskRow} (hended : db.Ended taskId)
    (hins : db.tasks.insert row = some tasks) (htasks : db'.tasks = tasks)
    (hroutes : db'.routes = db.routes) : db.Undisturbed db' taskId := by
  obtain ⟨row', hrow', -⟩ := hended
  rcases get?_insert_cases hins taskId with ⟨-, hfree, -⟩ | ⟨-, hold⟩
  · rw [hrow'] at hfree
    cases hfree
  · exact undisturbed_of_row (htasks ▸ hold) hroutes

/-! ## Cancellation and recovery -/

theorem undisturbed_cancelled {id : String} {row : TaskRow} (hended : db.Ended taskId)
    (hrow : db.tasks.get? id = some row) (hlive : row.payload.status.terminal = false) :
    db.Undisturbed (db.cancelled row.payload) taskId := by
  have hne := hended.ne_of_live hrow hlive
  rw [← taskId_of_task hrow] at hne
  exact undisturbed_of_row (by simp [Database.cancelled, Table.get?_modify, hne]) rfl

theorem CancelledOnRequest.undisturbed {id : String} {queued : QueueRow} {row : TaskRow}
    {t : Task} (h : CancelledOnRequest queued db row.payload t mid)
    (hrow : db.tasks.get? id = some row) (hended : db.Ended taskId) :
    db.Undisturbed mid taskId := by
  cases h with
  | cancelled _ hlive => exact undisturbed_cancelled hended hrow hlive
  | kept => exact .refl _ _

theorem recoverRow_undisturbed {row : QueueRow} (h : recoverRow row db = .ok db')
    (hended : db.Ended taskId) : db.Undisturbed db' taskId := by
  obtain ⟨taskRow, task, mid, logged, htask, hcancel, -, rfl⟩ := recoverRow_ok h
  have hmid : (db.expireSteps row.taskId).Undisturbed mid taskId :=
    hcancel.undisturbed htask hended
  exact ⟨hmid.payload, hmid.routes⟩

theorem recoverRows_undisturbed {rows : List QueueRow}
    (h : rows.foldlM (fun db row => recoverRow row db) db = .ok db') (hended : db.Ended taskId) :
    db.Undisturbed db' taskId := by
  induction rows generalizing db with
  | nil =>
      cases h
      exact .refl _ _
  | cons row rest ih =>
      simp only [List.foldlM_cons, Except.bind_eq_ok] at h
      obtain ⟨next, hnext, hrest⟩ := h
      have hfirst := recoverRow_undisturbed hnext hended
      exact hfirst.trans (ih hrest (hended.of_undisturbed hfirst))

theorem cancel_undisturbed {id : String} {now : ℚ} {u : Unit}
    (h : cancel id now db = .ok (u, db')) (hended : db.Ended taskId) :
    db.Undisturbed db' taskId := by
  obtain ⟨row, taskRow, -, htask, hcancel⟩ := cancel_ok h
  cases hcancel with
  | ended => exact .refl _ _
  | flagged => exact undisturbed_of_row rfl rfl
  | closed logged _ hlive =>
      have hmid := undisturbed_cancelled hended htask hlive
      exact ⟨hmid.payload, hmid.routes⟩

theorem addArtifact_undisturbed {artifact : Artifact} {task : Task}
    (h : addArtifact artifact db = .ok (task, db')) (hended : db.Ended taskId) :
    db.Undisturbed db' taskId := by
  obtain ⟨row, artifacts, hrow, hlive, -, rfl⟩ := addArtifact_ok h
  have hne := hended.ne_of_live hrow hlive
  exact undisturbed_of_row (by simp [Table.get?_modify, hne]) rfl

/-! ## The two operations that look at the lease only -/

/-- The task's record says what the checkpoint would write. -/
def Database.Checkpointed (db : Database) (taskId step : String) (state : Dict Json) : Prop :=
  ∃ row, db.tasks.get? taskId = some row ∧ row.payload.currentStep = some step ∧
    row.payload.checkpoint = revalidatedFields state

/-- The route's id is taken, and it is the one that the task names. -/
def Database.Routed (db : Database) (taskId routeId : String) : Prop :=
  (db.routes.get? routeId).isSome = true ∧
    ∃ row, db.tasks.get? taskId = some row ∧ row.payload.selectedRoute = some routeId

theorem checkpoint_undisturbed {owner : Option Lease} {id step : String} {state : Dict Json}
    {now : ℚ} {task : Task} (h : checkpoint owner id step state now db = .ok (task, db')) :
    db.Undisturbed db' taskId ↔ (id = taskId → db.Checkpointed taskId step state) := by
  obtain ⟨row, hrow, -, rfl⟩ := checkpoint_ok h
  by_cases hid : taskId = id
  · subst hid
    constructor
    · intro hsame _
      have hpayload := hsame.payload
      rw [Database.event_tasks, payload_updateTask, hrow, Option.map_some, Option.map_some,
        Option.some.injEq] at hpayload
      refine ⟨row, hrow, ?_, ?_⟩
      · exact (congrArg Task.currentStep hpayload).symm
      · exact (congrArg Task.checkpoint hpayload).symm
    · intro hsame
      obtain ⟨row', hrow', hstep, hstate⟩ := hsame rfl
      cases hrow.symm.trans hrow'
      refine ⟨?_, rfl⟩
      rw [Database.event_tasks, payload_updateTask, hrow, ← hstep, ← hstate]
      rfl
  · refine iff_of_true (undisturbed_of_row ?_ rfl) fun hsame => absurd hsame.symm hid
    simp [Table.get?_modify, hid]

/-- A route under an id in use is left alone. -/
theorem routesOf_ensure {decision : RouteDecision} :
    { db with routes := (db.routes.insert decision).getD db.routes }.routesOf decision.taskId =
      db.routesOf decision.taskId ↔ (db.routes.get? decision.routeId).isSome = true := by
  have hkey : Keyed.primary decision = decision.routeId := rfl
  cases hins : db.routes.insert decision with
  | none =>
      refine iff_of_true rfl ?_
      cases hget : db.routes.get? decision.routeId with
      | some route => rfl
      | none =>
          have hsome := Table.insert_isSome.mpr (hkey ▸ hget : db.routes.get? _ = none)
          rw [hins] at hsome
          cases hsome
  | some routes =>
      have hfree := Table.insert_isSome.mp (Option.isSome_of_mem hins)
      rw [hkey] at hfree
      simp [Database.routesOf, Table.rows_insert hins, hfree]

theorem setRoute_undisturbed {owner : Option Lease} {decision : RouteDecision} {now : ℚ}
    {task : Task} (h : setRoute owner decision now db = .ok (task, db')) :
    db.Undisturbed db' taskId ↔
      (decision.taskId = taskId → db.Routed taskId decision.routeId) := by
  have hothers : decision.taskId ≠ taskId → db'.routesOf taskId = db.routesOf taskId :=
    routesOf_setRoute h
  obtain ⟨row, hrow, -, rfl⟩ := setRoute_ok h
  by_cases hid : taskId = decision.taskId
  · subst hid
    constructor
    · intro hsame _
      refine ⟨routesOf_ensure.mp hsame.routes, row, hrow, ?_⟩
      have hpayload := hsame.payload
      rw [Database.event_tasks, payload_updateTask, hrow, Option.map_some, Option.map_some,
        Option.some.injEq] at hpayload
      exact (congrArg Task.selectedRoute hpayload).symm
    · intro hsame
      obtain ⟨htaken, row', hrow', hselected⟩ := hsame rfl
      cases hrow.symm.trans hrow'
      refine ⟨?_, routesOf_ensure.mpr htaken⟩
      rw [Database.event_tasks, payload_updateTask, hrow, ← hselected]
      rfl
  · refine iff_of_true ⟨?_, hothers (Ne.symm hid)⟩ fun hsame => absurd hsame.symm hid
    rw [Database.event_tasks, Database.updateTask_tasks, Table.get?_modify, if_neg hid]

section Runs

variable [Platform] {w w' : World} {env : Surroundings} {r : Request} {reply : Except Exn r.Reply}

/-- A checkpoint or a route of the task that the lease check lets through, and that says
something new. -/
def Request.Overwrites (now : ℚ) (db : Database) (taskId : String) : Request → Prop
  | .checkpoint owner id step state => id = taskId ∧ db.Permits now taskId false owner ∧
      ¬db.Checkpointed taskId step state
  | .setRoute owner decision => decision.taskId = taskId ∧ db.Permits now taskId true owner ∧
      ¬db.Routed taskId decision.routeId
  | _ => False

omit [Platform] in
theorem checkpoint_of_permits {owner : Option Lease} {step : String} {state : Dict Json} {now : ℚ}
    (hended : db.Ended taskId) (hpermits : db.Permits now taskId false owner) :
    ∃ answer, checkpoint owner taskId step state now db = .ok answer := by
  obtain ⟨row, hrow, -⟩ := hended
  simp only [checkpoint, Except.bind_eq_ok, requireLease_ok, getTask_ok]
  exact ⟨_, (), hpermits, row.payload, ⟨row, hrow, rfl⟩, rfl⟩

omit [Platform] in
theorem setRoute_of_permits {owner : Option Lease} {decision : RouteDecision} {now : ℚ}
    (hended : db.Ended decision.taskId) (hpermits : db.Permits now decision.taskId true owner) :
    ∃ answer, setRoute owner decision now db = .ok answer := by
  obtain ⟨row, hrow, -⟩ := hended
  simp only [setRoute, Except.bind_eq_ok, requireLease_ok, getTask_ok]
  exact ⟨_, (), hpermits, row.payload, ⟨row, hrow, rfl⟩, rfl⟩

/-- A request disturbs a task that has ended exactly when it overwrites the task's record. -/
theorem perform_undisturbed (hended : w.db.Ended taskId) (h : perform env r w = (reply, w')) :
    w.db.Undisturbed w'.db taskId ↔ ¬r.Overwrites (env.clock 0) w.db taskId := by
  have htransact {α : Type} {x : Except Exn (α × Database)} {answer : Except Exn α}
      (hcommit : w.commit x = (answer, w'))
      (hx : ∀ a db', x = .ok (a, db') → w.db.Undisturbed db' taskId) :
      w.db.Undisturbed w'.db taskId := by
    rcases commit_cases hcommit with ⟨a, db', ha, -, rfl⟩ | ⟨-, -, -, rfl⟩
    · exact hx a db' ha
    · exact .refl _ _
  cases r with
  | checkpoint owner id step state =>
      rcases commit_cases h with ⟨a, db', hx, -, rfl⟩ | ⟨e, hx, -, rfl⟩
      · obtain ⟨-, -, hpermits, -⟩ := checkpoint_ok hx
        rw [checkpoint_undisturbed hx]
        constructor
        · rintro hsame ⟨rfl, -, hnew⟩
          exact hnew (hsame rfl)
        · intro hnot hid
          by_contra hnew
          exact hnot ⟨hid, hid ▸ hpermits, hnew⟩
      · refine iff_of_true (.refl _ _) ?_
        rintro ⟨rfl, hpermits, -⟩
        obtain ⟨_, hok⟩ : ∃ answer, checkpoint owner id step state (env.clock 0) w'.db = .ok answer :=
          checkpoint_of_permits hended hpermits
        rw [hok] at hx
        cases hx
  | setRoute owner decision =>
      rcases commit_cases h with ⟨a, db', hx, -, rfl⟩ | ⟨e, hx, -, rfl⟩
      · obtain ⟨-, -, hpermits, -⟩ := setRoute_ok hx
        rw [setRoute_undisturbed hx]
        constructor
        · rintro hsame ⟨rfl, -, hnew⟩
          exact hnew (hsame rfl)
        · intro hnot hid
          by_contra hnew
          exact hnot ⟨hid, hid ▸ hpermits, hnew⟩
      · refine iff_of_true (.refl _ _) ?_
        rintro ⟨rfl, hpermits, -⟩
        obtain ⟨_, hok⟩ := setRoute_of_permits hended hpermits
        rw [hok] at hx
        cases hx
  | createTask =>
      refine iff_of_true (htransact h fun _ _ hx => ?_) id
      obtain ⟨_, _, hins, -, -, rfl⟩ := createTask_ok hx
      exact undisturbed_insert hended hins rfl rfl
  | submit =>
      refine iff_of_true (htransact h fun _ _ hx => ?_) id
      obtain ⟨_, _, _, _, -, -, -, hins, -, -, rfl⟩ := submit_ok hx
      exact undisturbed_insert hended hins rfl rfl
  | transition =>
      refine iff_of_true (htransact h fun _ _ hx => ?_) id
      obtain ⟨row, hrow, ⟨-, -, rfl⟩ | ⟨-, hmove⟩⟩ := transition_ok hx
      · exact .refl _ _
      · obtain rfl := hmove.committed
        have hlive := transitions_of_terminal hmove.allowed
        have hne := hended.ne_of_live hrow hlive
        exact undisturbed_of_row (by simp [Table.get?_modify, hne]) rfl
  | addArtifact =>
      exact iff_of_true (htransact h fun _ _ hx => addArtifact_undisturbed hx hended) id
  | recoverExpired =>
      refine iff_of_true (htransact h fun _ _ hx => ?_) id
      exact recoverRows_undisturbed (recoverExpired_ok hx) hended
  | release =>
      refine iff_of_true (htransact h fun _ _ hx => ?_) id
      obtain ⟨_, taskRow, _, mid, late, _, -, htask, -, hcancel, hlate, -, rfl⟩ := release_ok hx
      have hmid := hcancel.undisturbed htask hended
      obtain rfl | ⟨_, _, -, -, rfl⟩ := scheduleRetry_ok hlate <;>
        exact ⟨hmid.payload, hmid.routes⟩
  | cancel =>
      exact iff_of_true (htransact h fun _ _ hx => cancel_undisturbed hx hended) id
  -- the other requests write neither table
  | _ =>
      have htasks : w'.db.tasks = w.db.tasks := perform_writes h .tasks (by simp [Request.writes])
      have hroutes : w'.db.routes = w.db.routes :=
        perform_writes h .routes (by simp [Request.writes])
      exact iff_of_true (undisturbed_of_row (by rw [htasks]) hroutes) id

/-! ## Runs of the ledger -/

omit [Platform] in
theorem ended_iff : db.Ended taskId ↔
    ∃ status, (db.view taskId).status = some status ∧ status.terminal = true := by
  constructor
  · rintro ⟨row, hrow, hterm⟩
    exact ⟨_, by rw [Database.view, hrow, Option.map_some], hterm⟩
  · rintro ⟨status, hstatus, hterm⟩
    obtain ⟨row, hrow, rfl⟩ := Option.map_eq_some_iff.mp hstatus
    exact ⟨row, hrow, hterm⟩

theorem perform_ended (hended : w.db.Ended taskId) (h : perform env r w = (reply, w')) :
    w'.db.Ended taskId := by
  obtain ⟨status, hstatus, hterm⟩ := ended_iff.mp hended
  obtain ⟨status', hstatus', hsame⟩ := (perform_lifecycle h taskId).status_stays hstatus
  exact ended_iff.mpr ⟨status', hstatus', hsame hterm ▸ hterm⟩

omit [Platform] in
theorem World.Drift.undisturbed (h : w.Drift w') : w.db.Undisturbed w'.db taskId := by
  have htasks : w'.db.tasks = w.db.tasks := h.agree (t := .tasks) (by simp)
  exact undisturbed_of_row (by rw [htasks]) (h.agree (t := .routes) (by simp))

/-- A task that has ended stays so. -/
theorem ended_step {s s' : System ledgerMachine} (h : Step anyRun s s')
    (hended : s.snap.state.db.Ended taskId) : s'.snap.state.db.Ended taskId := by
  rcases h.state_cases with hsame | hdrift | ⟨pid, r, env, reply, -, hperform, -⟩
  · exact hsame ▸ hended
  · exact hended.of_undisturbed (World.Drift.undisturbed hdrift)
  · exact perform_ended hended hperform

/-- The step does not overwrite the task's record. -/
def Sparing (taskId : String) (s s' : System ledgerMachine) : Prop :=
  ∀ pid r reply env, s'.snap.log = s.snap.log ++ [.call pid r reply] →
    perform env r s.snap.state = (reply, s'.snap.state) →
      ¬r.Overwrites (env.clock 0) s.snap.state.db taskId

theorem undisturbed_iff_sparing {s s' : System ledgerMachine} (h : Step anyRun s s')
    (hended : s.snap.state.db.Ended taskId) :
    s.snap.state.db.Undisturbed s'.snap.state.db taskId ↔ Sparing taskId s s' := by
  constructor
  · intro hsame pid r reply env _ hperform
    exact (perform_undisturbed hended hperform).mp hsame
  · intro hsparing
    rcases h.state_cases with hsame | hdrift | ⟨pid, r, env, reply, -, hperform, hlog⟩
    · rw [hsame]
      exact .refl _ _
    · exact World.Drift.undisturbed hdrift
    · exact (perform_undisturbed hended hperform).mpr (hsparing pid r reply env hlog hperform)

/-! ## The operations of the host -/

/-- Neither the start of a handler, nor a write to a task's record. -/
def Request.Idle : Request → Prop
  | .runTool _ | .checkpoint _ _ _ _ | .setRoute _ _ => False
  | _ => True

/-- What a request can be answered while the task has ended. -/
def AnsweredEnded (taskId : String) (r : Request) (reply : Except Exn r.Reply) : Prop :=
  ∃ env w w', w.db.Ended taskId ∧ perform env r w = (reply, w')

theorem getTask_ended {task : Task} (h : AnsweredEnded taskId (.getTask taskId) (.ok task)) :
    task.taskId = taskId ∧ task.status.terminal = true := by
  obtain ⟨env, w, w', ⟨row, hrow, hterm⟩, hperform⟩ := h
  obtain ⟨row', hrow', rfl⟩ := getTask_ok.mp (congrArg Prod.fst hperform)
  cases hrow.symm.trans hrow'
  exact ⟨taskId_of_task hrow, hterm⟩

theorem transition_ended {owner : Option Lease} {target : TaskStatus}
    {currentStep : Option String} {metadata : Dict Json} {task : Task}
    (h : AnsweredEnded taskId (.transition owner taskId target currentStep metadata) (.ok task)) :
    target.terminal = true := by
  obtain ⟨env, w, w', hended, hperform⟩ := h
  obtain ⟨db', hx, -⟩ := commit_ok hperform
  obtain ⟨row, hrow, ⟨hsame, -⟩ | ⟨-, hmove⟩⟩ := transition_ok hx
  · obtain ⟨row', hrow', hterm⟩ := hended
    cases hrow.symm.trans hrow'
    exact hsame ▸ hterm
  · exact absurd rfl (hended.ne_of_live hrow (transitions_of_terminal hmove.allowed))

open Programs

/-- A program whose requests are idle, behind any replies. -/
abbrev IdleEnded {α : Type} (taskId : String) (p : Prog α) (Q : α → Prop) : Prop :=
  p.Within (AnsweredEnded taskId) Request.Idle Q (fun _ => True)

theorem idle_uses {α : Type} {p : Prog α} (h : p.Uses Request.Idle) :
    IdleEnded taskId p (fun _ => True) :=
  .of_uses h

theorem idle_ask (hr : r.Idle) {Q : r.Reply → Prop}
    (hok : ∀ a, AnsweredEnded taskId r (.ok a) → Q a) : IdleEnded taskId (ask r) Q :=
  .call hr hok fun _ _ => trivial

/-- The task as it is read. -/
theorem idle_getTask : IdleEnded taskId (ask (.getTask taskId))
    (fun task : Task => task.taskId = taskId ∧ task.status.terminal = true) :=
  idle_ask (r := .getTask taskId) trivial fun _ => getTask_ended

/-- A transition is refused. -/
theorem idle_transition {owner : Option Lease} {target : TaskStatus}
    {currentStep : Option String} {metadata : Dict Json} (hlive : target.terminal = false) :
    IdleEnded taskId (ask (.transition owner taskId target currentStep metadata))
      (fun _ => False) := by
  refine idle_ask (r := .transition owner taskId target currentStep metadata) trivial
    fun task h => ?_
  rw [transition_ended h] at hlive
  cases hlive

theorem stepVerifies_idle {id stepId : String} :
    IdleEnded taskId (stepVerifies id stepId) (fun _ => True) := by
  refine idle_uses (.except (.bind ?_ fun _ => trivial) fun e => ?_)
  · refine .bind (.call trivial) fun step => .bind (.call trivial) fun result => ?_
    split
    · trivial
    · exact .bind (.except (.call trivial) fun _ => trivial) fun _ => trivial
  · split <;> trivial

omit [Platform] in
/-- The statuses that `resume` and the failure of a tool act on. -/
theorem not_executing {status : TaskStatus} (h : status.terminal = true) :
    executing status = false ∧ (status == .waitingTool) = false ∧
      (status == .failedRetryable) = false ∧ (status == .running) = false ∧
        (status == .verifying) = false := by
  rcases terminal_cases h with rfl | rfl | rfl <;> decide

theorem resumeScan_idle {owner : Option Lease} {task : Task}
    (hterm : task.status.terminal = true) (steps : List StepRecord) :
    IdleEnded taskId (resumeScan owner task steps)
      (fun resumed => resumed.status.terminal = true) := by
  obtain ⟨hexecuting, hwaiting, hretryable, -, -⟩ := not_executing hterm
  induction steps with
  | nil =>
      rw [resumeScan, hwaiting, hretryable]
      exact hterm
  | cons step rest ih =>
      rw [resumeScan]
      split
      · exact ih
      · refine .bind (.mono stepVerifies_idle (fun verified _ => ?_) fun _ h => h)
        cases verified with
        | true => exact ih
        | false =>
            rw [hexecuting]
            exact hterm

theorem resume_idle {owner : Option Lease} :
    IdleEnded taskId (resume owner taskId) (fun task => task.status.terminal = true) := by
  refine .bind (.mono idle_getTask (fun task h => ?_) fun _ h => h)
  refine .bind (.mono (idle_uses (.call trivial)) (fun steps _ => ?_) fun _ h => h)
  exact resumeScan_idle h.2 steps

theorem enterVerifying_idle {owner : Option Lease} :
    IdleEnded taskId (enterVerifying owner taskId) (fun _ => False) := by
  refine .bind (.mono idle_getTask (fun task h => ?_) fun _ h => h)
  rw [(not_executing h.2).2.2.2.2]
  exact .bind (.mono (idle_transition rfl) (fun _ h => h.elim) fun _ h => h)

theorem verifyAcceptance_idle {owner : Option Lease} {contract : Option AcceptanceContract}
    {observed : Option ObservedAcceptance} :
    IdleEnded taskId (verifyAcceptance owner taskId contract observed) (fun _ => False) := by
  refine .bind (.mono (idle_uses ?_) (fun _ _ => ?_) fun _ h => h)
  · cases contract with
    | some contract => exact .call trivial
    | none => trivial
  refine .bind (.mono (idle_uses ?_) (fun _ _ => ?_) fun _ h => h)
  · cases observed with
    | some observed => exact .call trivial
    | none => trivial
  exact .bind (.mono enterVerifying_idle (fun _ h => h.elim) fun _ h => h)

theorem complete_idle {owner : Option Lease} {contract : Option AcceptanceContract}
    {observed : Option ObservedAcceptance} :
    IdleEnded taskId (complete owner taskId contract observed) (fun _ => True) := by
  refine .bind (.mono idle_getTask (fun task _ => ?_) fun _ h => h)
  refine .ite (fun _ => idle_uses (.call trivial)) fun _ => ?_
  exact .bind (.mono verifyAcceptance_idle (fun _ h => h.elim) fun _ h => h)

theorem completeWithOneContinuation_idle {owner : Option Lease} {contract : AcceptanceContract}
    {observed : ObservedAcceptance} {continueMissing : String → Prog ObservedAcceptance}
    {known : Dict String} :
    IdleEnded taskId
      (completeWithOneContinuation owner taskId contract observed continueMissing known)
      (fun _ => True) :=
  .bind (.mono verifyAcceptance_idle (fun _ h => h.elim) fun _ h => h)

/-- The tool is refused by the transition to `WAITING_TOOL`. -/
theorem executeToolAndCheckpoint_idle {broker : ToolBroker} {owner : Option Lease}
    {request : ToolRequest} :
    IdleEnded taskId (executeToolAndCheckpoint broker owner taskId request) (fun _ => True) := by
  refine .bind (.mono idle_getTask (fun task h => .except ?_) fun _ h => h)
  obtain ⟨rfl, hterm⟩ := h
  refine .mono (Q := fun _ => False) (E := fun _ => True) ?_ (fun _ h => h.elim) fun e _ => ?_
  · -- the `try` block
    refine .bind (.mono (Q := fun _ => True) ?_ (fun _ _ => ?_) fun _ h => h)
    · rw [resumeFailed, (not_executing hterm).2.2.1]
      trivial
    · exact .bind (.mono (idle_transition rfl) (fun _ h => h.elim) fun _ h => h)
  · -- the clause that would make the task retryable
    refine .bind (.mono idle_getTask (fun current h => ?_) fun _ h => h)
    obtain ⟨-, hwaiting, -, hrunning, -⟩ := not_executing h.2
    rw [hwaiting, hrunning]
    trivial

/-- What an operation of the host asks of a task that has ended is idle. -/
theorem hostOperation_idle (op : HostOperation) (owner : Option Lease) :
    IdleEnded taskId (op.program owner taskId) (fun _ => True) := by
  cases op with
  | executeToolAndCheckpoint broker request =>
      exact .bind (.mono executeToolAndCheckpoint_idle (fun _ _ => trivial) fun _ h => h)
  | resume => exact .bind (.mono resume_idle (fun _ _ => trivial) fun _ h => h)
  | verifyAcceptance contract observed =>
      exact .bind (.mono verifyAcceptance_idle (fun _ _ => trivial) fun _ h => h)
  | complete contract observed =>
      exact .bind (.mono complete_idle (fun _ _ => trivial) fun _ h => h)
  | completeWithOneContinuation contract observed continueMissing known =>
      exact .bind (.mono completeWithOneContinuation_idle (fun _ _ => trivial) fun _ h => h)

end Runs

/-! ## Inference on a ledger that others use -/

section Inference

variable [Platform] {w w' : InferenceWorld} {env : Providers} {r : InferenceStep}
  {reply : Except Fault r.Reply}

/-- One request of the ledger, whoever makes it. -/
def Database.Moves (db db' : Database) : Prop :=
  ∃ (env : Surroundings) (r : Request) (w w' : World) (reply : Except Exn r.Reply),
    perform env r w = (reply, w') ∧ w.db = db ∧ w'.db = db'

/-- Single requests, one after another, are moves of the ledger. -/
theorem moves_script (s : System ledgerMachine) (requests : List (Surroundings × Request)) :
    Relation.ReflTransGen Database.Moves s.snap.state.db (s.script requests).snap.state.db := by
  induction requests generalizing s with
  | nil => exact .refl
  | cons x rest ih =>
      exact .head ⟨x.1, x.2, s.snap.state, _, _, rfl, rfl, rfl⟩ (ih (s.asked x.1 x.2))

/-- The continuity tables, on a ledger that is only moved by its own requests. -/
abbrev sharedMachine : Machine InferenceStep.Reply Fault where
  State := InferenceWorld
  Env := Providers
  perform := InferenceStep.perform
  drift w w' := w.Drift w' ∧ Relation.ReflTransGen Database.Moves w.db w'.db

/-- Any processes, from an empty ledger on. -/
def sharedRun : Rules sharedMachine where
  start w := w.db = .empty
  program _ := True
  admits _ _ _ := True

theorem moves_ended (h : Relation.ReflTransGen Database.Moves db db')
    (hended : db.Ended taskId) : db'.Ended taskId := by
  induction h with
  | refl => exact hended
  | tail _ hmove ih =>
      obtain ⟨env, r, w, w', reply, hperform, rfl, rfl⟩ := hmove
      exact perform_ended ih hperform

/-- The routes that a request records for the task, once the lease check lets it through. -/
def InferenceStep.Routes (time : ℚ) (db : Database) (taskId : String) : InferenceStep → Prop
  | .setRoute owner route => route.taskId = taskId ∧ db.Permits time taskId true owner
  | _ => False

/-- The tasks and the routes are the same. -/
def InferenceWorld.SameTasks (w w' : InferenceWorld) : Prop :=
  w'.db.tasks = w.db.tasks ∧ w'.db.routes = w.db.routes

omit [Platform] in
theorem commit_sameTasks {α : Type} {x : Except Exn (α × InferenceWorld)} {answer : Except Fault α}
    (h : w.commit x = (answer, w')) (hx : ∀ a, x = .ok (a, w') → w.SameTasks w') :
    w.SameTasks w' := by
  cases answer with
  | ok a => exact hx a (InferenceWorld.commit_ok h)
  | error e =>
      rw [InferenceWorld.commit_error h]
      exact ⟨rfl, rfl⟩

omit [Platform] in
theorem observe_sameTasks {owner : Option Lease} {guarded : Option String} {backendId : String}
    {state : BackendState} {reason : String} {observedAt : ℚ} {cooldownUntil : Option ℚ} {time : ℚ}
    {u : Unit} (h : observe owner guarded backendId state reason observedAt cooldownUntil time w =
      .ok (u, w')) : w.SameTasks w' := by
  simp only [observe, Except.bind_eq_ok, Except.pure_eq_ok] at h
  obtain ⟨-, -, h⟩ := h
  cases h
  exact ⟨rfl, rfl⟩

omit [Platform] in
theorem noteEvent_sameTasks {owner : Option Lease} {task : Task} {note : Note} {time : ℚ} {u : Unit}
    (h : noteEvent owner task note time w = .ok (u, w')) : w.SameTasks w' := by
  simp only [noteEvent, Except.bind_eq_ok, Except.pure_eq_ok] at h
  obtain ⟨-, -, -, -, h⟩ := h
  cases h
  exact ⟨rfl, rfl⟩

omit [Platform] in
theorem reserve_sameTasks {owner : Option Lease} {now time : ℚ} {policy : ContinuityPolicy}
    {answer : Option ℚ} (h : reserve owner taskId now policy time w = .ok (answer, w')) :
    w.SameTasks w' := by
  simp only [reserve, Except.bind_eq_ok, orRaise_eq_ok] at h
  obtain ⟨-, -, -, -, row, -, h⟩ := h
  split_ifs at h
  all_goals
    cases h
    exact ⟨rfl, rfl⟩

theorem outcome_sameTasks {owner : Option Lease} {task : Task} {disposition : Disposition}
    {reason : String} {retryAt : Option ℚ} {clock : ℕ → ℚ} {time : ℚ} {u : Unit}
    (h : outcome owner task disposition reason retryAt clock time w = .ok (u, w')) :
    w.SameTasks w' := by
  simp only [outcome, Except.bind_eq_ok, Except.pure_eq_ok] at h
  obtain ⟨-, -, -, -, h⟩ := h
  cases h
  by_cases hcontinue : disposition = .continueNow
  · rw [if_pos hcontinue]
    exact ⟨rfl, rfl⟩
  · rw [if_neg hcontinue]
    exact ⟨rfl, rfl⟩

/-- Only the recording of a route writes a task or a route. -/
theorem inference_sameTasks (h : r.perform env w = (reply, w'))
    (hr : ∀ owner route, r ≠ .setRoute owner route) : w.SameTasks w' := by
  cases r with
  | setRoute owner route => exact absurd rfl (hr owner route)
  | observe => exact commit_sameTasks h fun _ hx => observe_sameTasks hx
  | event => exact commit_sameTasks h fun _ hx => noteEvent_sameTasks hx
  | reserve => exact commit_sameTasks h fun _ hx => reserve_sameTasks hx
  | outcome => exact commit_sameTasks h fun _ hx => outcome_sameTasks hx
  | getTask | clock | observation | complete =>
      cases h
      exact ⟨rfl, rfl⟩

omit [Platform] in
theorem commitDb_cases {α : Type} {x : Except Exn (α × Database)} {answer : Except Fault α}
    (h : w.commitDb x = (answer, w')) :
    (∃ a db', x = .ok (a, db') ∧ answer = .ok a ∧ w' = { w with db := db' }) ∨
      ∃ e, x = .error e ∧ answer = .error (.exn e) ∧ w' = w := by
  cases x with
  | ok p =>
      cases h
      exact .inl ⟨p.1, p.2, rfl, rfl, rfl⟩
  | error e =>
      cases h
      exact .inr ⟨e, rfl, rfl, rfl⟩

/-- A request disturbs a task that has ended exactly when it records a route that says something
new. -/
theorem inference_undisturbed (hended : w.db.Ended taskId) (h : r.perform env w = (reply, w')) :
    w.db.Undisturbed w'.db taskId ↔
      ¬(r.Routes env.time w.db taskId ∧ ¬w.db.Routed taskId env.newId) := by
  cases r with
  | setRoute owner route =>
      rcases commitDb_cases h with ⟨task, db', hx, -, rfl⟩ | ⟨e, hx, -, rfl⟩
      · obtain ⟨-, -, hpermits, -⟩ := setRoute_ok hx
        rw [setRoute_undisturbed hx]
        constructor
        · rintro hsame ⟨⟨rfl, -⟩, hnew⟩
          exact hnew (hsame rfl)
        · intro hnot hid
          by_contra hnew
          exact hnot ⟨⟨hid, hid ▸ hpermits⟩, hnew⟩
      · refine iff_of_true (.refl _ _) ?_
        rintro ⟨⟨rfl, hpermits⟩, -⟩
        obtain ⟨_, hok⟩ : ∃ answer, setRoute owner (route.recorded env.newId) env.time w'.db =
            .ok answer := setRoute_of_permits hended hpermits
        rw [hok] at hx
        cases hx
  | _ =>
      obtain ⟨htasks, hroutes⟩ := inference_sameTasks h (by simp)
      exact iff_of_true (undisturbed_of_row (by rw [htasks]) hroutes) fun hroute => hroute.1

theorem inference_ended (hended : w.db.Ended taskId) (h : r.perform env w = (reply, w')) :
    w'.db.Ended taskId := by
  obtain ⟨status, hstatus, hterm⟩ := ended_iff.mp hended
  suffices hview : w'.db.view taskId = w.db.view taskId ∨ w'.db.tasks = w.db.tasks by
    rcases hview with hview | htasks
    · exact ended_iff.mpr ⟨status, hview ▸ hstatus, hterm⟩
    · obtain ⟨row, hrow, hrowterm⟩ := hended
      exact ⟨row, htasks ▸ hrow, hrowterm⟩
  cases r with
  | setRoute owner route =>
      rcases commitDb_cases h with ⟨task, db', hx, -, rfl⟩ | ⟨e, -, -, rfl⟩
      · exact .inl (setRoute_view hx)
      · exact .inl rfl
  | _ => exact .inr (inference_sameTasks h (by simp)).1

/-- What a request can be answered while the task has ended and no route of it is recorded. -/
def AnsweredUnrouted (taskId : String) (r : InferenceStep) (reply : Except Fault r.Reply) :
    Prop :=
  ∃ env w w', w.db.Ended taskId ∧ ¬r.Routes env.time w.db taskId ∧ r.perform env w = (reply, w')

theorem getTask_unrouted {task : Task}
    (h : AnsweredUnrouted taskId (.getTask taskId) (.ok task)) : task.taskId = taskId := by
  obtain ⟨env, w, w', -, -, hperform⟩ := h
  have hreply : faulty (getTask taskId w.db) = .ok task := congrArg Prod.fst hperform
  obtain ⟨row, hrow, rfl⟩ := getTask_ok.mp (faulty_eq_ok.mp hreply)
  exact taskId_of_task hrow

theorem setRoute_unrouted {owner : Option Lease} {route : Route} {task : Task}
    (h : AnsweredUnrouted taskId (.setRoute owner route) (.ok task)) : route.taskId ≠ taskId := by
  obtain ⟨env, w, w', -, hroutes, hperform⟩ := h
  rintro rfl
  rcases commitDb_cases hperform with ⟨_, db', hx, -, -⟩ | ⟨e, -, he, -⟩
  · obtain ⟨-, -, hpermits, -⟩ := setRoute_ok hx
    exact hroutes ⟨rfl, hpermits⟩
  · cases he

open Programs

/-- No provider is called, behind any replies. -/
abbrev Uncalled {α : Type} (taskId : String) (p : InferenceProg α) : Prop :=
  p.Within (AnsweredUnrouted taskId) (Calls fun _ _ => False) (fun _ => True) (fun _ => True)

theorem uncalled_of_bookkeeping {α : Type} {p : InferenceProg α} (h : p.Uses Bookkeeping) :
    Uncalled taskId p :=
  .of_uses (h.mono calls_of_bookkeeping)

theorem uncalled_bind {α β : Type} {p : InferenceProg β} {f : β → InferenceProg α}
    (hp : Uncalled taskId p) (hf : ∀ b, Uncalled taskId (f b)) : Uncalled taskId (p.bind f) :=
  .bind (.mono hp (fun b _ => hf b) fun _ h => h)

theorem uncalled_send (hr : Calls (fun _ _ => False) r) : Uncalled taskId (send r) :=
  .of_uses (.call hr)

/-- The route of an ended task is refused, and nothing comes after it. -/
theorem uncalled_setRoute {α : Type} {owner : Option Lease} {route : Route}
    {f : Task → InferenceProg α} (hroute : route.taskId = taskId) :
    Uncalled taskId ((send (.setRoute owner route)).bind f) := by
  refine .bind (.call (r := InferenceStep.setRoute owner route) (by simp [Calls]) (fun task h => ?_)
    fun _ _ => trivial)
  exact absurd hroute (setRoute_unrouted h)

theorem useRoute_uncalled {manager : ContinuityManager} {owner : Option Lease}
    {call : InferenceCall} {excluded : Dict String} {previous : Option String}
    {selected : ModelRef} (hcall : call.task.taskId = taskId) :
    Uncalled taskId (useRoute manager owner call excluded previous selected) :=
  uncalled_bind (uncalled_send (by simp [Calls])) fun _ => uncalled_setRoute hcall

theorem inferRound_uncalled {manager : ContinuityManager} {owner : Option Lease}
    {call : InferenceCall} {excluded : Dict String} {previous : Option String}
    (hcall : call.task.taskId = taskId) :
    Uncalled taskId (inferRound manager owner call excluded previous) := by
  refine uncalled_bind (uncalled_send (by simp [Calls])) fun now => ?_
  refine uncalled_bind (.of_uses (.ofExcept _)) fun sifted => ?_
  refine uncalled_bind (uncalled_of_bookkeeping scan_bookkeeping) fun found => ?_
  refine uncalled_bind (uncalled_send (by simp [Calls])) fun _ => ?_
  split
  next => exact uncalled_bind (uncalled_of_bookkeeping noRoute_bookkeeping) fun _ => trivial
  next selected rest _ =>
    refine uncalled_bind (.of_uses reserve_calls) fun retryAt => ?_
    cases retryAt with
    | some time =>
        exact uncalled_bind (uncalled_of_bookkeeping outcome_bookkeeping) fun _ => trivial
    | none => exact useRoute_uncalled hcall

theorem continuityInfer_uncalled {manager : ContinuityManager} {owner : Option Lease}
    {call : InferenceCall} (hcall : call.task.taskId = taskId) (rounds : ℕ) :
    Uncalled taskId (continuityInfer manager owner call rounds) := by
  refine .ite (fun _ => ?_) fun _ => ?_
  · exact uncalled_bind (uncalled_of_bookkeeping outcome_bookkeeping) fun _ => trivial
  generalize ([] : Dict String) = excluded
  generalize (none : Option String) = previous
  induction rounds generalizing excluded previous with
  | zero => trivial
  | succ n ih =>
      refine uncalled_bind (inferRound_uncalled hcall) fun round => ?_
      cases round with
      | done ended => trivial
      | again excluded previous => exact ih excluded previous

theorem decide_taskId {router : RuleBasedRouter} {id : String} {privacy : PrivacyDecision}
    {capabilities : Finset String} {route : Route}
    (h : router.decide id privacy capabilities = .ok route) : route.taskId = id := by
  simp only [RuleBasedRouter.decide, Except.bind_eq_ok] at h
  obtain ⟨-, -, eligible, -, h⟩ := h
  split at h
  · cases h
  · cases h
    rfl

theorem hostInfer_uncalled {host : InferenceHost} {owner : Option Lease} {content : String}
    {capabilities : Finset String} {tools : List ToolDefinition} {contextTokens : Option ℤ}
    {rounds : ℕ} :
    Uncalled taskId (hostInfer host owner taskId content capabilities tools contextTokens rounds) := by
  refine .bind (.call (r := InferenceStep.getTask taskId) (by simp [Calls]) (fun task h => ?_)
    fun _ _ => trivial)
  have hid := getTask_unrouted h
  split
  · refine uncalled_bind (continuityInfer_uncalled hid rounds) fun ended => ?_
    cases ended with
    | none => trivial
    | some ended => exact .ite (fun _ => trivial) fun _ => trivial
  · refine .bind (.ofExcept (fun route hroute => ?_) fun _ _ => trivial)
    exact uncalled_setRoute ((decide_taskId (faulty_eq_ok.mp hroute)).trans hid)

/-! ## Runs that record no route -/

/-- The operations that may call a provider. -/
inductive InferenceOperation where
  | hostInfer (host : InferenceHost) (taskId content : String) (capabilities : Finset String)
      (tools : List ToolDefinition) (requiredContextTokens : Option ℤ)
  | continuityInfer (manager : ContinuityManager) (call : InferenceCall)

/-- The task that a provider would be called for. -/
def InferenceOperation.subject : InferenceOperation → String
  | .hostInfer _ taskId _ _ _ _ => taskId
  | .continuityInfer _ call => call.task.taskId

/-- The operation as a process of its own, for at most `rounds` rounds. -/
def InferenceOperation.program (owner : Option Lease) (rounds : ℕ) :
    InferenceOperation → InferenceProg Unit
  | .hostInfer host taskId content capabilities tools contextTokens => do
      let _ ← Programs.hostInfer host owner taskId content capabilities tools contextTokens rounds
      pure ()
  | .continuityInfer manager call => do
      let _ ← Programs.continuityInfer manager owner call rounds
      pure ()

theorem InferenceOperation.uncalled (op : InferenceOperation) (owner : Option Lease)
    (rounds : ℕ) : Uncalled op.subject (op.program owner rounds) := by
  cases op with
  | hostInfer host taskId content capabilities tools contextTokens =>
      exact uncalled_bind hostInfer_uncalled fun _ => trivial
  | continuityInfer manager call =>
      exact uncalled_bind (continuityInfer_uncalled rfl rounds) fun _ => trivial

/-- The step records no route of the task. -/
def Unrouting (taskId : String) (s s' : System sharedMachine) : Prop :=
  ∀ (pid : ℕ) (r : InferenceStep) (reply : Except Fault r.Reply) (env : Providers),
    s'.snap.log = s.snap.log ++ [.call pid r reply] →
    r.perform env s.snap.state = (reply, s'.snap.state) →
      ¬r.Routes env.time s.snap.state.db taskId

theorem shared_ended {s s' : System sharedMachine} (h : Step sharedRun s s')
    (hended : s.snap.state.db.Ended taskId) : s'.snap.state.db.Ended taskId := by
  rcases h.state_cases with hsame | hdrift | ⟨pid, r, env, reply, -, hperform, -⟩
  · exact hsame ▸ hended
  · exact moves_ended hdrift.2 hended
  · exact inference_ended hended hperform

/-- While no route of an ended task is recorded, no operation begun since calls a provider for
it. -/
theorem uncalled_run {op : InferenceOperation} {owner : Option Lease} {rounds : ℕ}
    {s s' : System sharedMachine} (h : Reachable sharedRun s)
    (hended : s.snap.state.db.Ended op.subject)
    (hruns : Relation.ReflTransGen (fun a b => Step sharedRun a b ∧ Unrouting op.subject a b)
      (s.started (op.program owner rounds)) s') :
    ∀ adapter request reply,
      .call s.threads.length (.complete adapter request) reply ∉ s'.snap.log := by
  intro adapter request reply hmem
  have hwithin := h.within (AnsweredUnrouted op.subject)
    (J := fun w : InferenceWorld => w.db.Ended op.subject) (fun _ _ hT => hT.1)
    (fun _ _ hT hJ => shared_ended hT.1 hJ) ?_ (op.uncalled owner rounds) hended hruns
  · exact hwithin.2 _ reply hmem adapter request rfl
  · intro a b pid r reply hT hJ hlog
    obtain ⟨env, hperform⟩ := hT.1.performed hlog
    exact ⟨env, _, _, hJ, hT.2 pid r reply env hlog hperform, hperform⟩

/-- A terminal task starts nothing new. A request disturbs it only as a checkpoint or a route that
its lease check lets through; the host's operations on it ask no such thing and start no handler;
and unless a route of it is recorded no inference for it calls a provider. -/
theorem terminal_starts_nothing (taskId : String) :
    (∀ s s' : System ledgerMachine, s.snap.state.db.Ended taskId → Step anyRun s s' →
      s'.snap.state.db.Ended taskId ∧
        (s.snap.state.db.Undisturbed s'.snap.state.db taskId ↔ Sparing taskId s s')) ∧
    (∀ (op : HostOperation) (owner : Option Lease) (s s' : System ledgerMachine),
      Reachable anyRun s → s.snap.state.db.Ended taskId →
      Steps anyRun (s.started (op.program owner taskId)) s' →
        ∀ r reply, .call s.threads.length r reply ∈ s'.snap.log → r.Idle) ∧
    (∀ (env : Providers) (r : InferenceStep) (reply : Except Fault r.Reply) (w w' : InferenceWorld),
      w.db.Ended taskId → r.perform env w = (reply, w') →
        (w.db.Undisturbed w'.db taskId ↔
          ¬(r.Routes env.time w.db taskId ∧ ¬w.db.Routed taskId env.newId))) ∧
    ∀ (op : InferenceOperation) (owner : Option Lease) (rounds : ℕ) (s s' : System sharedMachine),
      op.subject = taskId → Reachable sharedRun s → s.snap.state.db.Ended taskId →
      Relation.ReflTransGen (fun a b => Step sharedRun a b ∧ Unrouting taskId a b)
        (s.started (op.program owner rounds)) s' →
        ∀ adapter request reply,
          .call s.threads.length (.complete adapter request) reply ∉ s'.snap.log := by
  refine ⟨fun s s' hended hstep => ⟨ended_step hstep hended, undisturbed_iff_sparing hstep hended⟩,
    ?_, fun env r reply w w' hended hperform => inference_undisturbed hended hperform, ?_⟩
  · intro op owner s s' hreach hended hsteps
    have hwithin := hreach.within (AnsweredEnded taskId)
      (J := fun w : World => w.db.Ended taskId) (fun _ _ hstep => hstep)
      (fun _ _ hstep hJ => ended_step hstep hJ) ?_ (hostOperation_idle op owner) hended hsteps
    · exact hwithin.2
    · intro a b pid r reply hstep hJ hlog
      obtain ⟨env, hperform⟩ := hstep.performed hlog
      exact ⟨env, _, _, hJ, hperform⟩
  · rintro op owner rounds s s' rfl hreach hended hruns
    exact uncalled_run hreach hended hruns

end Inference

section Cancelled

local instance terminalCancelled : Platform := .reference []

/-- A task that is not queued is cancelled. -/
def Sample.withdrawn : List (Surroundings × Request) :=
  [(moment 0 "", .createTask task none),
    (moment 1 "", .transition none "task" .cancelled none [])]

/-- The state that inference finds then. -/
def Sample.inactive : InferenceWorld where
  db := ((Sample.fresh []).script Sample.withdrawn).snap.state.db
  backends := .empty
  windows := .empty
  now := 0

/-- Inference for the cancelled task, by a host without continuity manager. -/
def Sample.revived : InferenceOperation :=
  .hostInfer (host ["cloud"] none) "task" "hello" ∅ [] none

theorem terminal_starts_nothing_ended :
    ((Sample.fresh []).script Sample.ended).snap.state.db.Undisturbed
      (((Sample.fresh []).script Sample.ended).asked (Sample.moment 2 "")
        (.checkpoint none "task" "later" [])).snap.state.db "task" := by
  obtain ⟨s, hs⟩ : ∃ s, s = (Sample.fresh []).script Sample.ended := ⟨_, rfl⟩
  obtain ⟨row, hrow, hcancelled⟩ : ∃ row ∈ s.snap.state.db.tasks.get? "task",
      row.payload.status = .cancelled := by
    rw [hs]
    decide +kernel
  obtain ⟨queued, hqueued⟩ : ∃ queued, s.snap.state.db.queue.get? "task" = some queued := by
    rw [← Option.isSome_iff_exists, hs]
    decide +kernel
  rw [← hs]
  refine ((terminal_starts_nothing "task").1
    (s.spawned (.checkpoint none "task" "later" [])) _ ⟨row, hrow, by rw [hcancelled]; rfl⟩
    (Step.asked (fun _ _ => trivial) s (Sample.moment 2 ""))).2.mpr ?_
  intro pid r reply env hlog _ hoverwrites
  have hevent := List.append_cancel_left hlog
  simp only [List.cons.injEq, Event.call.injEq, and_true] at hevent
  obtain ⟨-, rfl, -⟩ := hevent
  obtain ⟨lease, _, howner, -⟩ := hoverwrites.2.1 queued hqueued
  cases howner

theorem Sample.inactive_reachable :
    Reachable sharedRun (System.drifted ⟨⟨⟨.empty, .empty, .empty, 0⟩, []⟩, []⟩ Sample.inactive) := by
  refine (Reachable.start _ rfl).step (.drifted ⟨⟨rfl, rfl, rfl⟩, ?_⟩)
  exact moves_script (Sample.fresh []) Sample.withdrawn

/-- The host routes the request and calls its provider. -/
def Sample.called : System sharedMachine :=
  System.driven (System.started
    (System.drifted ⟨⟨⟨.empty, .empty, .empty, 0⟩, []⟩, []⟩ Sample.inactive)
    (Sample.revived.program none 0)) 0 (List.replicate 3 (Sample.answers 5))

/-- The process `0` calls a provider. -/
def Sample.calling : Event InferenceStep.Reply Fault → Bool
  | .call pid (.complete _ _) _ => pid == 0
  | _ => false

theorem terminal_overwritten :
    (∃ s s' : System ledgerMachine, Reachable anyRun s ∧ s.snap.state.db.Ended "task" ∧
      Step anyRun s s' ∧ ¬s.snap.state.db.Undisturbed s'.snap.state.db "task") ∧
    ∃ s s' : System sharedMachine, Reachable sharedRun s ∧ s.snap.state.db.Ended "task" ∧
      Steps sharedRun (s.started (Sample.revived.program none 0)) s' ∧
        ∃ adapter request reply,
          .call s.threads.length (.complete adapter request) reply ∈ s'.snap.log := by
  obtain ⟨s, hs⟩ : ∃ s, s = (Sample.fresh []).script Sample.withdrawn := ⟨_, rfl⟩
  obtain ⟨row, hrow, hcancelled, hstep⟩ : ∃ row ∈ s.snap.state.db.tasks.get? "task",
      row.payload.status = .cancelled ∧ row.payload.currentStep = none := by
    rw [hs]
    decide +kernel
  have hended : s.snap.state.db.Ended "task" := ⟨row, hrow, by rw [hcancelled]; rfl⟩
  constructor
  · have hreach : Reachable anyRun s := hs ▸ Sample.reachable [] Sample.withdrawn
    refine ⟨s.spawned (.checkpoint none "task" "later" []), _,
      hreach.step (.spawn s _ trivial), hended,
      Step.asked (fun _ _ => trivial) s (Sample.moment 2 ""), fun hsame => ?_⟩
    have hlater : ((s.asked (Sample.moment 2 "") (.checkpoint none "task" "later" [])
        ).snap.state.db.tasks.get? "task").map (fun r => r.payload.currentStep) =
        some (some "later") := by
      rw [hs]
      decide +kernel
    have hpayload := congrArg (Option.map Task.currentStep) hsame.payload
    rw [Option.map_map, Option.map_map] at hpayload
    have hbefore : (s.snap.state.db.tasks.get? "task").map (fun r => r.payload.currentStep) =
        some none := by
      rw [hrow, Option.map_some, hstep]
    cases (hlater.symm.trans hpayload).trans hbefore
  · rw [hs] at hended
    refine ⟨_, Sample.called, Sample.inactive_reachable, hended,
      Steps.driven (fun _ _ _ => trivial) _ 0 _, ?_⟩
    have hcalls : Sample.called.snap.log.any Sample.calling = true := by decide +kernel
    obtain ⟨e, hmem, hcall⟩ := List.any_eq_true.mp hcalls
    cases e with
    | call pid r reply =>
        cases r with
        | complete adapter request =>
            obtain rfl := beq_iff_eq.mp hcall
            exact ⟨adapter, request, reply, hmem⟩
        | _ => cases hcall
    | _ => cases hcall

end Cancelled

end Dante
