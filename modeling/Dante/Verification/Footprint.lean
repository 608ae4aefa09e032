import Dante.Model.Request
import Dante.Verification.Operations

/-! # Which tables a request may write -/

namespace Dante

open JsonText Relational Concurrent

inductive TableName where
  | tasks
  | acceptance
  | steps
  | queue
  | routes
  | artifacts
  | approvals
  | continuity
  deriving DecidableEq, Repr

/-- Both databases hold the same rows in a table. -/
def Database.Agree (db db' : Database) : TableName → Prop
  | .tasks => db'.tasks = db.tasks
  | .acceptance => db'.acceptance = db.acceptance
  | .steps => db'.steps = db.steps
  | .queue => db'.queue = db.queue
  | .routes => db'.routes = db.routes
  | .artifacts => db'.artifacts = db.artifacts
  | .approvals => db'.approvals = db.approvals
  | .continuity => db'.continuity = db.continuity

theorem Database.Agree.refl (db : Database) (t : TableName) : db.Agree db t := by
  cases t <;> rfl

/-- A transaction commits its database, or changes nothing. -/
theorem commit_cases {α : Type} {w w' : World} {x : Except Exn (α × Database)}
    {reply : Except Exn α} (h : w.commit x = (reply, w')) :
    (∃ a db', x = .ok (a, db') ∧ reply = .ok a ∧ w' = { w with db := db' }) ∨
      (∃ e, x = .error e ∧ reply = .error e ∧ w' = w) := by
  cases x with
  | ok p =>
      cases h
      exact .inl ⟨p.1, p.2, rfl, rfl, rfl⟩
  | error e =>
      cases h
      exact .inr ⟨e, rfl, rfl, rfl⟩

theorem commit_ok {α : Type} {w w' : World} {x : Except Exn (α × Database)} {a : α}
    (h : w.commit x = (.ok a, w')) : ∃ db', x = .ok (a, db') ∧ w' = { w with db := db' } := by
  rcases commit_cases h with ⟨_, db', hx, ha, hw⟩ | ⟨_, -, he, -⟩
  · cases ha
    exact ⟨db', hx, hw⟩
  · cases he

theorem commit_failed {α : Type} {w w' : World} {x : Except Exn (α × Database)} {e : Exn}
    (h : w.commit x = (.error e, w')) : w' = w := by
  rcases commit_cases h with ⟨_, _, -, he, -⟩ | ⟨_, -, -, hw⟩
  · cases he
  · exact hw

/-- The tables that a request may write; events are always appended. -/
def Request.writes : Request → List TableName
  | .createTask .. => [.tasks, .acceptance]
  | .transition .. | .checkpoint .. => [.tasks]
  | .setRoute .. => [.tasks, .routes]
  | .addArtifact .. => [.tasks, .artifacts]
  | .bindAcceptance .. | .recordObservations .. | .recordFinalEvidence .. => [.acceptance]
  | .prepareStep .. => [.acceptance, .steps]
  | .claimStep .. | .finishStep .. | .markUncertain .. | .reconcileStep .. => [.steps]
  | .submit .. => [.tasks, .acceptance, .queue]
  | .recoverExpired => [.tasks, .steps, .queue]
  | .claim .. | .heartbeat .. | .advance .. | .retry .. => [.queue]
  | .release .. | .cancel .. => [.tasks, .queue]
  | .requestApproval .. | .decideApproval .. | .consumeAction .. => [.approvals]
  | _ => []

variable {w w' : World} {t : TableName}

theorem commit_agree {α : Type} {x : Except Exn (α × Database)} {reply : Except Exn α}
    (h : w.commit x = (reply, w')) (hx : ∀ a db', x = .ok (a, db') → w.db.Agree db' t) :
    w.db.Agree w'.db t := by
  rcases commit_cases h with ⟨a, db', ha, -, rfl⟩ | ⟨-, -, -, rfl⟩
  · exact hx a db' ha
  · exact .refl _ t

theorem CancelledOnRequest.agree {row : QueueRow} {db mid : Database} {task task' : Task}
    (h : CancelledOnRequest row db task task' mid) (ht : t ≠ .tasks) : db.Agree mid t := by
  cases h with
  | cancelled => cases t <;> first | rfl | exact absurd rfl ht
  | kept => exact .refl _ t

theorem Database.Agree.trans {a b c : Database} (h : a.Agree b t) (h' : b.Agree c t) :
    a.Agree c t := by
  cases t <;> exact Eq.trans h' h

theorem recoverRow_agree {row : QueueRow} {db db' : Database} (h : recoverRow row db = .ok db')
    (ht : t ∉ Request.recoverExpired.writes) : db.Agree db' t := by
  obtain ⟨_, _, mid, _, -, hcancel, -, rfl⟩ := recoverRow_ok h
  have hmid := hcancel.agree (t := t) (fun h => ht (by simp [h, Request.writes]))
  refine (Database.Agree.trans ?_ hmid).trans ?_
  all_goals cases t <;> first | rfl | simp [Request.writes] at ht

theorem recoverExpired_agree {now : ℚ} {n : ℕ} {db db' : Database}
    (h : recoverExpired now db = .ok (n, db')) (ht : t ∉ Request.recoverExpired.writes) :
    db.Agree db' t := by
  have hfold := recoverExpired_ok h
  generalize db.queue.rows.filter (QueueRow.expired now) = rows at hfold
  clear h
  induction rows generalizing db with
  | nil =>
      cases hfold
      exact .refl _ t
  | cons row rest ih =>
      simp only [List.foldlM_cons, Except.bind_eq_ok] at hfold
      obtain ⟨next, hnext, hrest⟩ := hfold
      exact (recoverRow_agree hnext ht).trans (ih hrest)

variable [Platform]

theorem release_agree {lease : Lease} {blocked : Option String} {retryAt : Option ℚ} {now : ℚ}
    {u : Unit} {db db' : Database} (h : release lease blocked retryAt now db = .ok (u, db'))
    (ht : t ∉ (Request.release lease blocked retryAt).writes) : db.Agree db' t := by
  obtain ⟨_, _, _, mid, late, _, -, -, -, hcancel, hlate, -, rfl⟩ := release_ok h
  have hmid := hcancel.agree (t := t) (fun h => ht (by simp [h, Request.writes]))
  refine hmid.trans ?_
  obtain rfl | ⟨_, _, -, -, rfl⟩ := scheduleRetry_ok hlate
  all_goals cases t <;> first | rfl | simp [Request.writes] at ht

/-- A request leaves every table it does not name as it was. -/
theorem perform_writes {env : Surroundings} {r : Request} {reply : Except Exn r.Reply}
    (h : perform env r w = (reply, w')) (t : TableName) (ht : t ∉ r.writes) :
    w.db.Agree w'.db t := by
  cases r with
  | createTask =>
      refine commit_agree h fun _ _ hx => ?_
      obtain ⟨_, _, -, -, -, rfl⟩ := createTask_ok hx
      cases t <;> first | rfl | simp [Request.writes] at ht
  | transition =>
      refine commit_agree h fun _ _ hx => ?_
      obtain ⟨_, -, ⟨-, -, rfl⟩ | ⟨-, hmove⟩⟩ := transition_ok hx
      · exact .refl _ t
      · rw [hmove.committed]
        cases t <;> first | rfl | simp [Request.writes] at ht
  | checkpoint =>
      refine commit_agree h fun _ _ hx => ?_
      obtain ⟨_, -, -, rfl⟩ := checkpoint_ok hx
      cases t <;> first | rfl | simp [Request.writes] at ht
  | setRoute =>
      refine commit_agree h fun _ _ hx => ?_
      obtain ⟨_, -, -, rfl⟩ := setRoute_ok hx
      cases t <;> first | rfl | simp [Request.writes] at ht
  | addArtifact =>
      refine commit_agree h fun _ _ hx => ?_
      obtain ⟨_, _, -, -, -, rfl⟩ := addArtifact_ok hx
      cases t <;> first | rfl | simp [Request.writes] at ht
  | bindAcceptance =>
      refine commit_agree h fun _ _ hx => ?_
      obtain ⟨_, _, -, -, -, -, rfl⟩ := bindAcceptance_ok hx
      cases t <;> first | rfl | simp [Request.writes] at ht
  | recordObservations =>
      refine commit_agree h fun _ _ hx => ?_
      obtain ⟨_, _, -, -, -, ⟨-, rfl⟩ | ⟨-, rfl⟩⟩ := recordObservations_ok hx
      all_goals cases t <;> first | rfl | simp [Request.writes] at ht
  | recordFinalEvidence =>
      refine commit_agree h fun _ _ hx => ?_
      obtain ⟨_, _, -, -, rfl⟩ := recordFinalEvidence_ok hx
      cases t <;> first | rfl | simp [Request.writes] at ht
  | verifyPersistentAcceptance =>
      refine commit_agree h fun _ _ hx => ?_
      obtain ⟨_, -, -, -, rfl⟩ := verifyPersistentAcceptance_ok hx
      cases t <;> rfl
  | recordToolOutcome =>
      refine commit_agree h fun _ _ hx => ?_
      obtain ⟨_, -, rfl⟩ := recordToolOutcome_ok hx
      cases t <;> rfl
  | prepareStep =>
      refine commit_agree h fun _ _ hx => ?_
      obtain ⟨_, _, _, -, -, -, -, -, ⟨_, -, rfl, -⟩ | ⟨-, hnew⟩⟩ := prepareStep_ok hx
      · exact .refl _ t
      · obtain ⟨_, -, rfl⟩ := hnew.inserted
        cases t <;> first | rfl | simp [Request.writes] at ht
  | claimStep =>
      refine commit_agree h fun _ _ hx => ?_
      obtain ⟨_, _, -, -, -, -, -, rfl⟩ := claimStep_ok hx
      cases t <;> first | rfl | simp [Request.writes] at ht
  | finishStep =>
      refine commit_agree h fun _ _ hx => ?_
      obtain ⟨_, _, _, -, -, -, -, -, rfl⟩ := finishStep_ok hx
      cases t <;> first | rfl | simp [Request.writes] at ht
  | markUncertain =>
      refine commit_agree h fun _ _ hx => ?_
      obtain ⟨_, -, -, -, rfl⟩ := markUncertain_ok hx
      cases t <;> first | rfl | simp [Request.writes] at ht
  | reconcileStep =>
      refine commit_agree h fun _ _ hx => ?_
      obtain ⟨_, _, _, _, _, -, -, -, -, -, rfl⟩ := reconcileStep_ok hx
      cases t <;> first | rfl | simp [Request.writes] at ht
  | submit =>
      refine commit_agree h fun _ _ hx => ?_
      obtain ⟨_, _, _, _, -, -, -, -, -, -, rfl⟩ := submit_ok hx
      cases t <;> first | rfl | simp [Request.writes] at ht
  | recoverExpired => exact commit_agree h fun _ _ hx => recoverExpired_agree hx ht
  | claim =>
      refine commit_agree h fun _ _ hx => ?_
      obtain ⟨-, ⟨-, rfl, -⟩ | ⟨_, _, -, -, -, rfl⟩⟩ := claim_ok hx
      · exact .refl _ t
      · cases t <;> first | rfl | simp [Request.writes] at ht
  | heartbeat =>
      refine commit_agree h fun _ _ hx => ?_
      obtain ⟨_, -, -, rfl⟩ := heartbeat_ok hx
      cases t <;> first | rfl | simp [Request.writes] at ht
  | advance =>
      refine commit_agree h fun _ _ hx => ?_
      obtain ⟨_, _, -, -, -, -, rfl⟩ := advance_ok hx
      cases t <;> first | rfl | simp [Request.writes] at ht
  | release => exact commit_agree h fun _ _ hx => release_agree hx ht
  | cancel =>
      refine commit_agree h fun _ _ hx => ?_
      obtain ⟨_, _, -, -, hcancel⟩ := cancel_ok hx
      cases hcancel <;> cases t <;> first | rfl | simp [Request.writes] at ht
  | retry =>
      refine commit_agree h fun _ _ hx => ?_
      obtain ⟨_, _, _, -, -, -, -, -, -, rfl⟩ := retry_ok hx
      cases t <;> first | rfl | simp [Request.writes] at ht
  | requestApproval =>
      refine commit_agree h fun _ _ hx => ?_
      obtain ⟨_, -, -, rfl⟩ := requestApproval_ok hx
      cases t <;> first | rfl | simp [Request.writes] at ht
  | decideApproval =>
      refine commit_agree h fun _ _ hx => ?_
      obtain ⟨_, -, -, -, -, -, rfl⟩ := decideApproval_ok hx
      cases t <;> first | rfl | simp [Request.writes] at ht
  | consumeAction =>
      refine commit_agree h fun _ _ hx => ?_
      obtain ⟨_, -, -, -, rfl⟩ := consumeAction_ok hx
      cases t <;> first | rfl | simp [Request.writes] at ht
  -- the rest does not touch the database
  | _ =>
      cases h
      exact .refl _ t

omit [Platform] in
/-- The surroundings write nothing but the continuity table. -/
theorem World.Drift.agree (h : w.Drift w') (ht : t ≠ .continuity) : w.db.Agree w'.db t := by
  obtain ⟨rows, logged, hdb, -⟩ := h.continuity
  rw [hdb]
  cases t <;> first | rfl | exact absurd rfl ht

/-! ## Which events a request may log -/

/-- The names of the events that a request may log. -/
def Request.reports : Request → List String
  | .createTask .. => ["task.created"]
  | .transition .. => ["task.transition"]
  | .checkpoint .. => ["task.checkpoint"]
  | .setRoute .. => ["route.selected"]
  | .addArtifact .. => ["artifact.created"]
  | .recordObservations .. => ["acceptance.caller_attestation"]
  | .recordFinalEvidence .. => ["acceptance.final_evidence"]
  | .verifyPersistentAcceptance .. => ["acceptance.checked"]
  | .recordToolOutcome .. => ["tool.outcome"]
  | .prepareStep .. => ["step.intent"]
  | .claimStep .. => ["step.started"]
  | .finishStep .. => ["step.succeeded"]
  | .markUncertain .. => ["step.uncertain"]
  | .reconcileStep .. => ["step.reconciled"]
  | .submit .. => ["task.created", "worker.submitted"]
  | .recoverExpired => ["task.transition", "worker.recovered"]
  | .claim .. => ["worker.claimed"]
  | .heartbeat .. => ["worker.heartbeat"]
  | .advance .. => ["worker.checkpoint"]
  | .release .. => ["task.transition", "worker.retry_scheduled", "worker.released"]
  | .cancel .. => ["task.transition", "worker.cancel_requested"]
  | .retry .. => ["worker.retry_scheduled"]
  | _ => []

/-- `db'` has the events of `db`, and after them only events with the given names. -/
def Database.LogsOnly (names : List String) (db db' : Database) : Prop :=
  ∃ new, db'.events = db.events ++ new ∧ ∀ e ∈ new, e.event ∈ names

section Logging

variable {names : List String} {db db' db'' : Database}

omit [Platform] in
theorem Database.LogsOnly.of_eq (h : db'.events = db.events) : db.LogsOnly names db' :=
  ⟨[], by simp [h], by simp⟩

omit [Platform] in
theorem Database.LogsOnly.one {e : TaskEvent} (h : db'.events = db.events ++ [e])
    (he : e.event ∈ names) : db.LogsOnly names db' :=
  ⟨[e], h, by simpa using he⟩

omit [Platform] in
theorem Database.LogsOnly.trans (h : db.LogsOnly names db') (h' : db'.LogsOnly names db'') :
    db.LogsOnly names db'' := by
  obtain ⟨new, hnew, hnames⟩ := h
  obtain ⟨later, hlater, hlaters⟩ := h'
  refine ⟨new ++ later, by rw [hlater, hnew, List.append_assoc], ?_⟩
  intro e he
  exact (List.mem_append.mp he).elim (hnames e) (hlaters e)

omit [Platform] in
theorem CancelledOnRequest.logs {row : QueueRow} {mid : Database} {task task' : Task}
    (h : CancelledOnRequest row db task task' mid) (hname : "task.transition" ∈ names) :
    db.LogsOnly names mid := by
  cases h with
  | cancelled => exact .one rfl hname
  | kept => exact .of_eq rfl

omit [Platform] in
theorem recoverRow_logs {row : QueueRow} (h : recoverRow row db = .ok db') :
    db.LogsOnly Request.recoverExpired.reports db' := by
  obtain ⟨_, _, mid, logged, -, hcancel, hlogged, rfl⟩ := recoverRow_ok h
  have hmid : db.LogsOnly Request.recoverExpired.reports mid :=
    .trans (.of_eq rfl) (hcancel.logs (by simp [Request.reports]))
  exact hmid.trans (.one rfl (by simp [hlogged.2, Request.reports]))

omit [Platform] in
theorem recoverRows_logs {rows : List QueueRow}
    (h : rows.foldlM (fun db row => recoverRow row db) db = .ok db') :
    db.LogsOnly Request.recoverExpired.reports db' := by
  induction rows generalizing db with
  | nil =>
      cases h
      exact .of_eq rfl
  | cons row rest ih =>
      simp only [List.foldlM_cons, Except.bind_eq_ok] at h
      obtain ⟨next, hnext, hrest⟩ := h
      exact (recoverRow_logs hnext).trans (ih hrest)

theorem release_logs {lease : Lease} {blocked : Option String} {retryAt : Option ℚ} {now : ℚ}
    {u : Unit} (h : release lease blocked retryAt now db = .ok (u, db')) :
    db.LogsOnly (Request.release lease blocked retryAt).reports db' := by
  obtain ⟨_, _, _, mid, late, logged, -, -, -, hcancel, hlate, hlogged, rfl⟩ := release_ok h
  refine (hcancel.logs (by simp [Request.reports])).trans (.trans ?_
    (.one (e := logged) rfl (by simp [hlogged.2, Request.reports])))
  obtain rfl | ⟨_, scheduled, -, hscheduled, rfl⟩ := scheduleRetry_ok hlate
  · exact .of_eq rfl
  · exact .one rfl (by simp [hscheduled.2, Request.reports])

omit [Platform] in
theorem cancel_logs {taskId : String} {now : ℚ} {u : Unit}
    (h : cancel taskId now db = .ok (u, db')) :
    db.LogsOnly (Request.cancel taskId).reports db' := by
  obtain ⟨_, _, -, -, hcancel⟩ := cancel_ok h
  cases hcancel with
  | ended => exact .of_eq rfl
  | flagged logged hlogged => exact .one (e := logged) rfl (by simp [hlogged.2, Request.reports])
  | closed logged hlogged =>
      refine .trans (.one rfl ?_) (.one (e := logged) rfl ?_)
      · simp [Request.reports]
      · simp [hlogged.2, Request.reports]

omit [Platform] in
theorem commit_logs {α : Type} {x : Except Exn (α × Database)} {reply : Except Exn α}
    (h : w.commit x = (reply, w')) (hx : ∀ a db', x = .ok (a, db') → w.db.LogsOnly names db') :
    w.db.LogsOnly names w'.db := by
  rcases commit_cases h with ⟨a, db', ha, -, rfl⟩ | ⟨-, -, -, rfl⟩
  · exact hx a db' ha
  · exact .of_eq rfl

/-- A request logs no other events than its own. -/
theorem perform_logs {env : Surroundings} {r : Request} {reply : Except Exn r.Reply}
    (h : perform env r w = (reply, w')) : w.db.LogsOnly r.reports w'.db := by
  cases r with
  | createTask =>
      refine commit_logs h fun _ _ hx => ?_
      obtain ⟨_, _, -, -, -, rfl⟩ := createTask_ok hx
      exact .one rfl (by simp [Request.reports])
  | transition =>
      refine commit_logs h fun _ _ hx => ?_
      obtain ⟨_, -, ⟨-, -, rfl⟩ | ⟨-, hmove⟩⟩ := transition_ok hx
      · exact .of_eq rfl
      · rw [hmove.committed]
        exact .one rfl (by simp [Request.reports])
  | checkpoint =>
      refine commit_logs h fun _ _ hx => ?_
      obtain ⟨_, -, -, rfl⟩ := checkpoint_ok hx
      exact .one rfl (by simp [Request.reports])
  | setRoute =>
      refine commit_logs h fun _ _ hx => ?_
      obtain ⟨_, -, -, rfl⟩ := setRoute_ok hx
      exact .one rfl (by simp [Request.reports])
  | addArtifact =>
      refine commit_logs h fun _ _ hx => ?_
      obtain ⟨_, _, -, -, -, rfl⟩ := addArtifact_ok hx
      exact .one rfl (by simp [Request.reports])
  | bindAcceptance =>
      refine commit_logs h fun _ _ hx => ?_
      obtain ⟨_, _, -, -, -, -, rfl⟩ := bindAcceptance_ok hx
      exact .of_eq rfl
  | recordObservations =>
      refine commit_logs h fun _ _ hx => ?_
      obtain ⟨_, _, -, -, -, ⟨-, rfl⟩ | ⟨-, rfl⟩⟩ := recordObservations_ok hx
      · exact .of_eq rfl
      · exact .one rfl (by simp [Request.reports])
  | recordFinalEvidence =>
      refine commit_logs h fun _ _ hx => ?_
      obtain ⟨_, _, -, -, rfl⟩ := recordFinalEvidence_ok hx
      exact .one rfl (by simp [Request.reports])
  | verifyPersistentAcceptance =>
      refine commit_logs h fun _ _ hx => ?_
      obtain ⟨_, -, -, -, rfl⟩ := verifyPersistentAcceptance_ok hx
      exact .one rfl (by simp [Request.reports])
  | recordToolOutcome =>
      refine commit_logs h fun _ _ hx => ?_
      obtain ⟨_, -, rfl⟩ := recordToolOutcome_ok hx
      exact .one rfl (by simp [Request.reports])
  | prepareStep =>
      refine commit_logs h fun _ _ hx => ?_
      obtain ⟨_, _, _, -, -, -, -, -, ⟨_, -, rfl, -⟩ | ⟨-, hnew⟩⟩ := prepareStep_ok hx
      · exact .of_eq rfl
      · obtain ⟨_, -, rfl⟩ := hnew.inserted
        exact .one rfl (by simp [Request.reports])
  | claimStep =>
      refine commit_logs h fun _ _ hx => ?_
      obtain ⟨_, _, -, -, -, -, -, rfl⟩ := claimStep_ok hx
      exact .one rfl (by simp [Request.reports])
  | finishStep =>
      refine commit_logs h fun _ _ hx => ?_
      obtain ⟨_, _, _, -, -, -, -, -, rfl⟩ := finishStep_ok hx
      exact .one rfl (by simp [Request.reports])
  | markUncertain =>
      refine commit_logs h fun _ _ hx => ?_
      obtain ⟨_, -, -, -, rfl⟩ := markUncertain_ok hx
      exact .one rfl (by simp [Request.reports])
  | reconcileStep =>
      refine commit_logs h fun _ _ hx => ?_
      obtain ⟨_, _, _, _, _, -, -, -, -, -, rfl⟩ := reconcileStep_ok hx
      exact .one rfl (by simp [Request.reports])
  | submit =>
      refine commit_logs h fun _ _ hx => ?_
      obtain ⟨_, _, _, _, -, -, -, -, -, -, rfl⟩ := submit_ok hx
      refine .trans (.trans (.of_eq rfl) (.one rfl ?_)) (.one rfl ?_)
      all_goals simp [Request.reports]
  | recoverExpired => exact commit_logs h fun _ _ hx => recoverRows_logs (recoverExpired_ok hx)
  | claim =>
      refine commit_logs h fun _ _ hx => ?_
      obtain ⟨-, ⟨-, rfl, -⟩ | ⟨_, _, -, -, -, rfl⟩⟩ := claim_ok hx
      · exact .of_eq rfl
      · exact .one rfl (by simp [Request.reports])
  | heartbeat =>
      refine commit_logs h fun _ _ hx => ?_
      obtain ⟨_, -, -, rfl⟩ := heartbeat_ok hx
      exact .one rfl (by simp [Request.reports])
  | advance =>
      refine commit_logs h fun _ _ hx => ?_
      obtain ⟨_, _, -, -, -, -, rfl⟩ := advance_ok hx
      exact .one rfl (by simp [Request.reports])
  | release => exact commit_logs h fun _ _ hx => release_logs hx
  | cancel => exact commit_logs h fun _ _ hx => cancel_logs hx
  | retry =>
      refine commit_logs h fun _ _ hx => ?_
      obtain ⟨_, _, logged, -, -, -, -, -, hlogged, rfl⟩ := retry_ok hx
      exact .one rfl (by simp [hlogged.2, Request.reports])
  | requestApproval =>
      refine commit_logs h fun _ _ hx => ?_
      obtain ⟨_, -, -, rfl⟩ := requestApproval_ok hx
      exact .of_eq rfl
  | decideApproval =>
      refine commit_logs h fun _ _ hx => ?_
      obtain ⟨_, -, -, -, -, -, rfl⟩ := decideApproval_ok hx
      exact .of_eq rfl
  | consumeAction =>
      refine commit_logs h fun _ _ hx => ?_
      obtain ⟨_, -, -, -, rfl⟩ := consumeAction_ok hx
      exact .of_eq rfl
  -- the rest does not touch the database
  | _ =>
      cases h
      exact .of_eq rfl

end Logging

end Dante
