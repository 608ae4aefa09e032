import Dante.Verification.Journal

/-! # Cancellation is final -/

namespace Dante

open JsonText Relational Concurrent

variable {db db' : Database} {taskId : String}

/-! ## The commit that requests a cancellation -/

theorem cancel_cancelling {now : ℚ} {u : Unit} {row : TaskRow}
    (hrow : db.tasks.get? taskId = some row) (hlive : row.payload.status.terminal = false)
    (h : cancel taskId now db = .ok (u, db')) : (db'.view taskId).Cancelling := by
  obtain ⟨queued, taskRow, hqueued, htask, hcancel⟩ := cancel_ok h
  cases hrow.symm.trans htask
  have hid := taskId_of_task htask
  cases hcancel with
  | ended hterm =>
      rw [hlive] at hterm
      cases hterm
  | flagged logged _ _ hleased hcurrent =>
      rw [view_log, view_updateQueue_self, view_of_get? htask hqueued]
      refine ⟨_, _, rfl, rfl, fun hcompleted => ?_⟩
      simp [hcompleted, TaskStatus.terminal] at hlive
  | closed logged =>
      rw [view_log, view_updateQueue_self, cancelled_tasks, if_pos hid.symm,
        view_updateQueue_self, view_of_get? htask hqueued]
      exact ⟨_, _, rfl, rfl, by simp⟩

/-- Nobody passes the lease check for an effect while a cancellation is pending. -/
theorem View.Cancelling.not_permits {now : ℚ} {owner : Option Lease}
    (h : (db.view taskId).Cancelling) : ¬db.Permits now taskId true owner := by
  obtain ⟨status, row, hview, hrequested, -⟩ := h
  intro hpermits
  obtain ⟨_, _, -, -, -, -, hkept⟩ := hpermits row (congrArg View.row hview)
  rw [hkept rfl] at hrequested
  cases hrequested

/-! ## Routes -/

/-- The routes recorded for a task. -/
def Database.routesOf (db : Database) (taskId : String) : List RouteDecision :=
  db.routes.rows.filter (fun d => d.taskId == taskId)

theorem routesOf_setRoute {owner : Option Lease} {decision : RouteDecision} {now : ℚ} {task : Task}
    (h : setRoute owner decision now db = .ok (task, db')) (hne : decision.taskId ≠ taskId) :
    db'.routesOf taskId = db.routesOf taskId := by
  obtain ⟨_, -, -, rfl⟩ := setRoute_ok h
  simp only [Database.routesOf, Database.event_routes, Database.updateTask_routes]
  cases hins : db.routes.insert decision with
  | none => rfl
  | some routes => simp [Table.rows_insert hins, hne]

section Runs

variable [Platform] {w w' : World} {env : Surroundings} {r : Request} {reply : Except Exn r.Reply}

theorem View.Cancelling.routes_kept (hw : (w.db.view taskId).Cancelling)
    (h : perform env r w = (reply, w')) : w'.db.routesOf taskId = w.db.routesOf taskId := by
  by_cases hwrites : TableName.routes ∈ r.writes
  · cases r with
    | setRoute owner decision =>
        rcases commit_cases h with ⟨answer, db', hx, -, rfl⟩ | ⟨-, -, -, rfl⟩
        · refine routesOf_setRoute hx fun hsame => ?_
          obtain ⟨_, -, hpermits, -⟩ := setRoute_ok hx
          exact hw.not_permits (hsame ▸ hpermits)
        · rfl
    | _ => simp [Request.writes] at hwrites
  · have hroutes : w'.db.routes = w.db.routes := perform_writes h .routes hwrites
    simp only [Database.routesOf, hroutes]

/-! ## Steps -/

theorem View.Cancelling.no_claim {stepId : String} (hw : (w.db.view taskId).Cancelling)
    (h : perform env r w = (reply, w')) : stepEventOf taskId stepId r reply ≠ some .claimed := by
  cases r with
  | claimStep owner task step =>
      rcases commit_cases h with ⟨answer, db', hx, rfl, -⟩ | ⟨e, -, rfl, -⟩
      · obtain ⟨_, _, -, -, hpermits, -⟩ := claimStep_ok hx
        have hother : ¬(task = taskId ∧ step = stepId) := fun hsame =>
          hw.not_permits (hsame.1 ▸ hpermits)
        simp [stepEventOf, hother]
      · simp [stepEventOf]
  | reconcileStep task step artifactId actor =>
      cases reply with
      | ok outcome =>
          cases outcome <;> simp only [stepEventOf, Outcome.event] <;> split <;> simp
      | error e => simp [stepEventOf]
  | _ => simp [stepEventOf]

theorem View.Cancelling.not_claims {stepId : String} (hw : (w.db.view taskId).Cancelling)
    (h : perform env r w = (reply, w')) : ¬w.db.Claims w'.db taskId stepId := by
  rintro ⟨before, after, hbefore, hintent, hafter, hstarted⟩
  have hmove := perform_journal h taskId stepId
  simp only [Database.stepNamed] at hbefore hafter
  rw [hbefore, hafter] at hmove
  exact hmove.not_started (hw.no_claim h) hintent hstarted

/-! ## Whole runs -/

/-- What one step of a run leaves alone once a cancellation is pending. -/
theorem View.Cancelling.step {s s' : System ledgerMachine}
    (hs : (s.snap.state.db.view taskId).Cancelling) (h : Step anyRun s s') :
    grants taskId s'.snap.log = grants taskId s.snap.log ∧
      s'.snap.state.db.routesOf taskId = s.snap.state.db.routesOf taskId ∧
      ∀ stepId, ¬s.snap.state.db.Claims s'.snap.state.db taskId stepId := by
  have hquiet : ∀ db' : Database, db'.steps = s.snap.state.db.steps → ∀ stepId,
      ¬s.snap.state.db.Claims db' taskId stepId := by
    rintro db' heq stepId ⟨before, after, hbefore, hintent, hafter, hstarted⟩
    simp only [Database.stepNamed, heq] at hbefore hafter
    cases hbefore.symm.trans hafter
    rw [hintent] at hstarted
    cases hstarted
  cases h with
  | spawn p hp => exact ⟨by simp [grants, grantIn], rfl, hquiet _ rfl⟩
  | crash pid hpid => exact ⟨by simp [grants, grantIn], rfl, hquiet _ rfl⟩
  | call pid r next env reply w hthread hadmits hperform =>
      refine ⟨?_, hs.routes_kept hperform, fun stepId => hs.not_claims hperform⟩
      rw [Snapshot.after_log, grants_call, (perform_lifecycle hperform taskId).no_grant hs]
      exact List.append_nil _
  | drift w hdrift =>
      have hroutes : w.db.routes = s.snap.state.db.routes := hdrift.agree (t := .routes) (by simp)
      refine ⟨rfl, by simp only [Database.routesOf, hroutes], hquiet _ ?_⟩
      exact hdrift.agree (t := .steps) (by simp)

/-- Once a cancellation of a live task is committed, no run claims the task or one of its
steps, records a route for it, or completes it. -/
theorem cancellation_final {s s₁ : System ledgerMachine} {row : TaskRow} {pid : ℕ}
    (hrow : s.snap.state.db.tasks.get? taskId = some row)
    (hlive : row.payload.status.terminal = false) (hcancel : Step anyRun s s₁)
    (hlog : s₁.snap.log = s.snap.log ++ [.call pid (.cancel taskId) (.ok ())])
    {s₂ : System ledgerMachine} (hs : Steps anyRun s₁ s₂) :
    grants taskId s₂.snap.log = grants taskId s.snap.log ∧
      s₂.snap.state.db.routesOf taskId = s.snap.state.db.routesOf taskId ∧
      (∀ s₃ stepId, Step anyRun s₂ s₃ →
        ¬s₂.snap.state.db.Claims s₃.snap.state.db taskId stepId) ∧
      ∃ taskRow, s₂.snap.state.db.tasks.get? taskId = some taskRow ∧
        (taskRow.payload.status.terminal = true →
          taskRow.payload.status = .cancelled ∨ taskRow.payload.status = .failedTerminal) := by
  obtain ⟨env, hperform⟩ := hcancel.performed hlog
  have hfirst : (s₁.snap.state.db.view taskId).Cancelling := by
    rcases commit_cases hperform with ⟨answer, db', hx, -, hw⟩ | ⟨e, -, he, -⟩
    · rw [hw]
      exact cancel_cancelling hrow hlive hx
    · cases he
  have hcancelling {t : System ledgerMachine} (ht : Steps anyRun s₁ t) :
      (t.snap.state.db.view taskId).Cancelling :=
    Steps.view_invariant (J := View.Cancelling) (fun hstep hv => hstep.cancelling hv) ht hfirst
  have hkept : grants taskId s₂.snap.log = grants taskId s₁.snap.log ∧
      s₂.snap.state.db.routesOf taskId = s₁.snap.state.db.routesOf taskId := by
    induction hs with
    | refl => exact ⟨rfl, rfl⟩
    | tail hinit hstep ih =>
        obtain ⟨hgrants, hroutes, -⟩ := (hcancelling hinit).step hstep
        exact ⟨hgrants.trans ih.1, hroutes.trans ih.2⟩
  have hstart : grants taskId s₁.snap.log = grants taskId s.snap.log ∧
      s₁.snap.state.db.routesOf taskId = s.snap.state.db.routesOf taskId := by
    refine ⟨?_, ?_⟩
    · rw [hlog, grants_call]
      exact List.append_nil _
    · have hroutes : s₁.snap.state.db.routes = s.snap.state.db.routes :=
        perform_writes (r := .cancel taskId) hperform .routes (by simp [Request.writes])
      simp only [Database.routesOf, hroutes]
  refine ⟨hkept.1.trans hstart.1, hkept.2.trans hstart.2,
    fun s₃ stepId hstep => ((hcancelling hs).step hstep).2.2 stepId, ?_⟩
  obtain ⟨status, queued, hview, -, hstatus⟩ := hcancelling hs
  have hstatusOf := congrArg View.status hview
  obtain ⟨taskRow, htask, hpayload⟩ := Option.map_eq_some_iff.mp hstatusOf
  refine ⟨taskRow, htask, fun hterm => ?_⟩
  exact (terminal_cases hterm).resolve_left (hpayload ▸ hstatus)

end Runs

section Claimed

local instance cancellationClaimed : Platform := .reference []

theorem cancellation_final_claimed :
    ∃ taskRow, ((((Sample.fresh []).script Sample.claimed).asked (Sample.moment 5 "")
        (.cancel "task")).script Sample.reclaimed).snap.state.db.tasks.get? "task" = some taskRow ∧
      (taskRow.payload.status.terminal = true →
        taskRow.payload.status = .cancelled ∨ taskRow.payload.status = .failedTerminal) := by
  obtain ⟨s, hs⟩ : ∃ s, s = (Sample.fresh []).script Sample.claimed := ⟨_, rfl⟩
  obtain ⟨row, hrow, hlive⟩ : ∃ row ∈ s.snap.state.db.tasks.get? "task",
      row.payload.status.terminal = false := by
    rw [hs]
    decide +kernel
  have hreply : (perform (Sample.moment 5 "") (.cancel "task") s.snap.state).1 = .ok () := by
    have hok : (perform (Sample.moment 5 "") (.cancel "task") s.snap.state).1.isOk = true := by
      rw [hs]
      decide +kernel
    obtain ⟨_, hreply⟩ := Except.exists_of_isOk hok
    exact hreply
  rw [← hs]
  have hfinal := cancellation_final (s := s.spawned (.cancel "task")) hrow hlive
    (Step.asked (fun _ _ => trivial) s (Sample.moment 5 ""))
    (System.asked_log hreply) (anyRun_script _ Sample.reclaimed)
  exact hfinal.2.2.2

end Claimed

end Dante
