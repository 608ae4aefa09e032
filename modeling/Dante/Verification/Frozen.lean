import Dante.Verification.StepEdges

/-! # The evidence of a task that has ended

Whoever writes the evidence of a task looks at its status in the same transaction. The one
writer that does not, `recover_expired`, finds nothing to write when the task completed. -/

namespace Dante

open JsonText Relational Concurrent

section Runs

variable [Platform] {taskId stepId : String} {w w' : World} {env : Surroundings} {r : Request}
  {reply : Except Exn r.Reply} {row : TaskRow}

/-! ## Requests that write evidence -/

/-- The task whose evidence a request may write. -/
def Request.evidenceOf : Request → Option String
  | .createTask task _ => some task.taskId
  | .submit task _ => some task.taskId
  | .addArtifact artifact => some artifact.taskId
  | .bindAcceptance taskId _ => some taskId
  | .recordObservations taskId _ => some taskId
  | .recordFinalEvidence taskId _ => some taskId
  | .prepareStep _ taskId _ _ _ _ => some taskId
  | .claimStep _ taskId _ => some taskId
  | .finishStep _ taskId _ _ => some taskId
  | .markUncertain _ taskId _ _ => some taskId
  | .reconcileStep taskId _ _ _ => some taskId
  | _ => none

/-- A request that wrote evidence has created the task, or found it alive. -/
theorem active_of_evidence {answer : r.Reply} (hr : r.evidenceOf = some taskId)
    (h : perform env r w = (.ok answer, w')) :
    (.tasks ∈ r.writes ∧ w.db.tasks.get? taskId = none) ∨
      ∃ row, w.db.tasks.get? taskId = some row ∧ row.payload.status.terminal = false := by
  cases r with
  | createTask =>
      cases hr
      obtain ⟨db', hx, -⟩ := commit_ok h
      obtain ⟨tasks, _, hins, -⟩ := createTask_ok hx
      exact .inl ⟨by simp [Request.writes], Table.insert_isSome.mp (Option.isSome_of_mem hins)⟩
  | submit =>
      cases hr
      obtain ⟨db', hx, -⟩ := commit_ok h
      obtain ⟨tasks, _, _, _, -, -, -, hins, -⟩ := submit_ok hx
      exact .inl ⟨by simp [Request.writes], Table.insert_isSome.mp (Option.isSome_of_mem hins)⟩
  | addArtifact =>
      cases hr
      obtain ⟨db', hx, -⟩ := commit_ok h
      obtain ⟨other, _, hother, hlive, -⟩ := addArtifact_ok hx
      exact .inr ⟨other, hother, hlive⟩
  | bindAcceptance =>
      cases hr
      obtain ⟨db', hx, -⟩ := commit_ok h
      obtain ⟨other, _, hother, hlive, -⟩ := bindAcceptance_ok hx
      exact .inr ⟨other, hother, hlive⟩
  | recordObservations =>
      cases hr
      obtain ⟨db', hx, -⟩ := commit_ok h
      obtain ⟨other, _, hother, hlive, -⟩ := recordObservations_ok hx
      exact .inr ⟨other, hother, hlive⟩
  | recordFinalEvidence =>
      cases hr
      obtain ⟨db', hx, -⟩ := commit_ok h
      obtain ⟨other, _, hother, hlive, -⟩ := recordFinalEvidence_ok hx
      exact .inr ⟨other, hother, hlive⟩
  | prepareStep =>
      cases hr
      obtain ⟨db', hx, -⟩ := commit_ok h
      obtain ⟨_, _, other, -, -, hother, hlive, -⟩ := prepareStep_ok hx
      exact .inr ⟨other, hother, hlive⟩
  | claimStep =>
      cases hr
      obtain ⟨db', hx, -⟩ := commit_ok h
      obtain ⟨other, _, hother, hlive, -⟩ := claimStep_ok hx
      exact .inr ⟨other, hother, hlive⟩
  | finishStep =>
      cases hr
      obtain ⟨db', hx, -⟩ := commit_ok h
      obtain ⟨other, _, _, hother, hlive, -⟩ := finishStep_ok hx
      exact .inr ⟨other, hother, hlive⟩
  | markUncertain =>
      cases hr
      obtain ⟨db', hx, -⟩ := commit_ok h
      obtain ⟨other, hother, hlive, -⟩ := markUncertain_ok hx
      exact .inr ⟨other, hother, hlive⟩
  | reconcileStep =>
      cases hr
      obtain ⟨db', hx, -⟩ := commit_ok h
      obtain ⟨other, _, _, _, _, hother, hlive, -⟩ := reconcileStep_ok hx
      exact .inr ⟨other, hother, hlive⟩
  | _ => cases hr

/-- A request that fails has written nothing. -/
theorem perform_failed {e : Exn} (h : perform env r w = (.error e, w')) : w'.db = w.db := by
  cases r with
  | getTask | lookupStep | getStep | steps | verifiedReceipt | checkedArtifact | receipt | queueRow
  | boundary | preflight | runTool | isStopped | setStop =>
      exact (congrArg (fun answer => World.db answer.2) h).symm
  | _ => exact congrArg World.db (commit_failed h)

/-! ## Evidence of other tasks -/

/-- The acceptance row and the artifacts of a task are the same. -/
def Database.SameEvidence (db db' : Database) (taskId : String) : Prop :=
  db'.acceptance.get? taskId = db.acceptance.get? taskId ∧
    db'.artifactsOf taskId = db.artifactsOf taskId

omit [Platform] in
theorem sameEvidence_of_eq {db db' : Database} (hacceptance : db'.acceptance = db.acceptance)
    (hartifacts : db'.artifacts = db.artifacts) : db.SameEvidence db' taskId := by
  refine ⟨by rw [hacceptance], ?_⟩
  simp only [Database.artifactsOf, hartifacts]

/-- Evidence is only written for the task that the request names. -/
theorem perform_sameEvidence (h : perform env r w = (reply, w')) (hr : r.evidenceOf ≠ some taskId) :
    w.db.SameEvidence w'.db taskId := by
  cases reply with
  | error e =>
      rw [perform_failed h]
      exact ⟨rfl, rfl⟩
  | ok answer =>
      have hother {other : String} (ho : r.evidenceOf = some other) : taskId ≠ other := by
        rintro rfl
        exact hr ho
      cases r with
      | createTask =>
          obtain ⟨db', hx, rfl⟩ := commit_ok h
          obtain ⟨_, accepted, -, hins, -, rfl⟩ := createTask_ok hx
          refine ⟨?_, rfl⟩
          rcases get?_insert_cases hins taskId with ⟨hid, -⟩ | ⟨-, hold⟩
          · exact absurd hid.symm (hother rfl)
          · exact hold
      | submit =>
          obtain ⟨db', hx, rfl⟩ := commit_ok h
          obtain ⟨_, accepted, _, _, -, -, -, -, hins, -, rfl⟩ := submit_ok hx
          refine ⟨?_, rfl⟩
          rcases get?_insert_cases hins taskId with ⟨hid, -⟩ | ⟨-, hold⟩
          · exact absurd hid.symm (hother rfl)
          · exact hold
      | addArtifact artifact =>
          obtain ⟨db', hx, rfl⟩ := commit_ok h
          obtain ⟨_, artifacts, -, -, hins, rfl⟩ := addArtifact_ok hx
          refine ⟨rfl, ?_⟩
          have hne : ¬artifact.stored.taskId = taskId := fun hid => hother rfl hid.symm
          have hrows := Table.rows_insert hins
          simp [Database.artifactsOf, hrows, hne]
      | bindAcceptance =>
          obtain ⟨db', hx, rfl⟩ := commit_ok h
          obtain ⟨_, _, -, -, -, -, rfl⟩ := bindAcceptance_ok hx
          refine ⟨?_, rfl⟩
          simp [Table.get?_modify, hother rfl]
      | recordObservations =>
          obtain ⟨db', hx, rfl⟩ := commit_ok h
          obtain ⟨_, _, -, -, -, ⟨-, rfl⟩ | ⟨-, rfl⟩⟩ := recordObservations_ok hx
          · exact ⟨rfl, rfl⟩
          · refine ⟨?_, rfl⟩
            simp [Table.get?_modify, hother rfl]
      | recordFinalEvidence =>
          obtain ⟨db', hx, rfl⟩ := commit_ok h
          obtain ⟨_, _, -, -, rfl⟩ := recordFinalEvidence_ok hx
          refine ⟨?_, rfl⟩
          simp [Table.get?_modify, hother rfl]
      | prepareStep =>
          obtain ⟨db', hx, rfl⟩ := commit_ok h
          obtain ⟨_, _, _, -, -, -, -, -, ⟨_, -, rfl, -⟩ | ⟨-, hnew⟩⟩ := prepareStep_ok hx
          · exact ⟨rfl, rfl⟩
          · obtain ⟨_, -, rfl⟩ := hnew.inserted
            refine ⟨?_, rfl⟩
            simp [Table.get?_modify, hother rfl]
      -- the other requests write neither table
      | _ =>
          exact sameEvidence_of_eq (perform_writes h .acceptance (by simp [Request.writes]))
            (perform_writes h .artifacts (by simp [Request.writes]))

/-! ## Statuses -/

omit [Platform] in
/-- A task is never forgotten, and a status that has ended is final. -/
theorem Lifecycle.status_stays {move : Move} {v v' : View} {status : TaskStatus}
    (h : Lifecycle move v v') (hv : v.status = some status) :
    ∃ status', v'.status = some status' ∧ (status.terminal = true → status' = status) := by
  cases h with
  | stay => exact ⟨status, hv, fun _ => rfl⟩
  | already => exact ⟨status, hv, fun _ => rfl⟩
  | created => cases hv
  | submitted => cases hv
  | moved hallowed =>
      cases hv
      refine ⟨_, rfl, fun hterm => ?_⟩
      rw [transitions_of_terminal hallowed] at hterm
      cases hterm
  | granted => exact ⟨status, hv, fun _ => rfl⟩
  | renewed => exact ⟨status, hv, fun _ => rfl⟩
  | advanced => exact ⟨status, hv, fun _ => rfl⟩
  | ended =>
      cases hv
      exact ⟨_, rfl, fun hterm => QueueRow.settled_of_terminal hterm⟩
  | flagged => exact ⟨status, hv, fun _ => rfl⟩
  | cancelled hlive =>
      cases hv
      refine ⟨_, rfl, fun hterm => ?_⟩
      rw [hlive] at hterm
      cases hterm
  | retried => exact ⟨status, hv, fun _ => rfl⟩

/-- A task that completes was created so, or has shown its evidence. -/
theorem completing_cases (h : perform env r w = (reply, w'))
    (hbefore : (w.db.view taskId).status ≠ some .completed)
    (hafter : (w'.db.view taskId).status = some .completed) :
    (w.db.view taskId).status = none ∨ ∃ row, Evidenced w.fs w.db taskId row := by
  have hmove := perform_lifecycle h taskId
  rcases hmove.completes hbefore hafter with hcreated | hmoved
  · left
    rw [hcreated] at hmove
    generalize w.db.view taskId = v at hmove ⊢
    generalize w'.db.view taskId = v' at hmove
    cases hmove
    rfl
  · right
    refine (completing_request ?_ h hbefore hafter 0).2
    rintro task acceptance rfl
    cases reply with
    | ok answer =>
        simp only [moveOf] at hmoved
        split at hmoved <;> cases hmoved
    | error e => cases hmoved

/-! ## Steps -/

/-- An edge belongs to a request that writes the task's evidence, or to recovery. -/
theorem Edge.evidenceOf {before after : Option StepRecord}
    (h : Edge w taskId stepId r before after) :
    (r = .recoverExpired ∧ ∃ s, before = some s ∧ s.state = .started ∧
        after = some { s with state := .uncertain, error := some "lease_expired" }) ∨
      r.evidenceOf = some taskId ∧ .tasks ∉ r.writes := by
  cases h with
  | expired hstarted => exact .inl ⟨rfl, _, rfl, hstarted, rfl⟩
  | _ => exact .inr ⟨rfl, by simp [Request.writes]⟩

/-- Steps belong to tasks, and those of a completed task have succeeded. -/
def StepsFollow (taskId stepId : String) (db : Database) : Prop :=
  ∀ step, db.stepNamed taskId stepId = some step → ∃ status,
    (db.view taskId).status = some status ∧ (status = .completed → step.state = .succeeded)

theorem Evidenced.succeeded {db : Database} {fs : FileSystem} {row : AcceptanceRow}
    {step : StepRecord} (h : Evidenced fs db taskId row)
    (hstep : db.stepNamed taskId stepId = some step) : step.state = .succeeded := by
  refine (h.steps step ?_).succeeded
  have hnamed := named_of_find hstep
  simpa [Database.stepsOf, hnamed.1] using Table.mem_of_find hstep

theorem StepsFollow.perform (hw : StepsFollow taskId stepId w.db)
    (h : perform env r w = (reply, w')) : StepsFollow taskId stepId w'.db := by
  intro step hstep
  have hmove := perform_lifecycle h taskId
  -- a step that was there and is not the one to be changed
  have hkept {old : StepRecord} (hold : w.db.stepNamed taskId stepId = some old) :
      ∃ status', (w'.db.view taskId).status = some status' ∧
        (status' = .completed → old.state = .succeeded) := by
    obtain ⟨status, hstatus, hsucceeded⟩ := hw old hold
    obtain ⟨status', hstatus', -⟩ := hmove.status_stays hstatus
    refine ⟨status', hstatus', fun hdone => ?_⟩
    by_cases hbefore : status = .completed
    · exact hsucceeded hbefore
    · have hview : (w.db.view taskId).status ≠ some .completed := by simp [hstatus, hbefore]
      rcases completing_cases h hview (hdone ▸ hstatus') with hnone | ⟨row, hrow⟩
      · rw [hnone] at hstatus
        cases hstatus
      · exact hrow.succeeded hold
  rcases perform_edge h taskId stepId with hsame | ⟨⟨answer, rfl⟩, hedge⟩
  · exact hkept (hsame ▸ hstep)
  · rcases hedge.evidenceOf with ⟨rfl, s, hbefore, hstarted, hafter⟩ | ⟨hevidence, hwrites⟩
    · obtain ⟨status', hstatus', hsucceeded⟩ := hkept hbefore
      refine ⟨status', hstatus', fun hdone => ?_⟩
      rw [hsucceeded hdone] at hstarted
      cases hstarted
    · obtain ⟨hnew, -⟩ | ⟨row, hrow, hlive⟩ := active_of_evidence hevidence h
      · exact absurd hnew hwrites
      · have htasks : w'.db.tasks = w.db.tasks := perform_writes h .tasks hwrites
        refine ⟨row.payload.status, ?_, fun hdone => ?_⟩
        · simp [Database.view, htasks, hrow]
        · rw [hdone] at hlive
          cases hlive

/-! ## Whole runs -/

omit [Platform] in
theorem Database.SameEvidence.trans {a b c : Database} (h : a.SameEvidence b taskId)
    (h' : b.SameEvidence c taskId) : a.SameEvidence c taskId :=
  ⟨h'.1.trans h.1, h'.2.trans h.2⟩

theorem stepsFollow {s : System ledgerMachine} (h : Reachable anyRun s) (taskId stepId : String) :
    StepsFollow taskId stepId s.snap.state.db := by
  refine h.state_invariant (J := fun w : World => StepsFollow taskId stepId w.db) ?_ ?_ ?_
  · intro w hw step hstep
    have hempty : w.db = .empty := hw
    simp [Database.stepNamed, hempty, Database.empty] at hstep
  · intro env r w reply w' hw hperform
    exact hw.perform hperform
  · intro w w' hw hdrift step hstep
    have hsteps : w'.db.steps = w.db.steps := hdrift.agree (t := .steps) (by simp)
    rw [Database.stepNamed, hsteps] at hstep
    rw [hdrift.view_eq]
    exact hw step hstep

/-- The evidence of a task that has ended is as it was, but for steps that recovery doubts. -/
structure Database.Frozen (db db' : Database) (taskId : String) : Prop where
  status : (db'.view taskId).status = (db.view taskId).status
  evidence : db.SameEvidence db' taskId
  steps : ∀ stepId, Doubted (db.stepNamed taskId stepId) (db'.stepNamed taskId stepId)

omit [Platform] in
theorem Database.Frozen.trans {a b c : Database} (h : a.Frozen b taskId)
    (h' : b.Frozen c taskId) : a.Frozen c taskId where
  status := h'.status.trans h.status
  evidence := h.evidence.trans h'.evidence
  steps stepId := (h.steps stepId).trans (h'.steps stepId)

omit [Platform] in
theorem Database.Frozen.refl (db : Database) (taskId : String) : db.Frozen db taskId where
  status := rfl
  evidence := ⟨rfl, rfl⟩
  steps _ := .inl rfl

/-- A request finds nothing to write in the evidence of an ended task; only recovery may doubt
a step. -/
theorem perform_frozen {status : TaskStatus} (h : perform env r w = (reply, w'))
    (hstatus : (w.db.view taskId).status = some status) (hterm : status.terminal = true) :
    w.db.Frozen w'.db taskId ∧ ∀ stepId,
      w'.db.stepNamed taskId stepId = w.db.stepNamed taskId stepId ∨ r = .recoverExpired ∧
        ∃ answer, reply = .ok answer := by
  have hwriter (answer : r.Reply) (hreply : reply = .ok answer) : r.evidenceOf ≠ some taskId := by
    intro hevidence
    subst hreply
    rcases active_of_evidence hevidence h with ⟨-, hnone⟩ | ⟨row, hrow, hlive⟩
    · simp [Database.view, hnone] at hstatus
    · simp only [Database.view, hrow, Option.map_some, Option.some.injEq] at hstatus
      rw [hstatus, hterm] at hlive
      cases hlive
  have hsteps (stepId : String) : Doubted (w.db.stepNamed taskId stepId)
      (w'.db.stepNamed taskId stepId) ∧ (w'.db.stepNamed taskId stepId =
        w.db.stepNamed taskId stepId ∨ r = .recoverExpired ∧ ∃ answer, reply = .ok answer) := by
    rcases perform_edge h taskId stepId with hsame | ⟨⟨answer, hreply⟩, hedge⟩
    · exact ⟨.inl hsame, .inl hsame⟩
    · rcases hedge.evidenceOf with ⟨hr, hdoubted⟩ | ⟨hevidence, -⟩
      · exact ⟨.inr hdoubted, .inr ⟨hr, answer, hreply⟩⟩
      · exact absurd hevidence (hwriter answer hreply)
  obtain ⟨status', hstatus', hstays⟩ := (perform_lifecycle h taskId).status_stays hstatus
  refine ⟨⟨?_, ?_, fun stepId => (hsteps stepId).1⟩, fun stepId => (hsteps stepId).2⟩
  · rw [hstatus', hstays hterm, hstatus]
  · cases reply with
    | ok answer => exact perform_sameEvidence h (hwriter answer rfl)
    | error e =>
        rw [perform_failed h]
        exact ⟨rfl, rfl⟩

theorem frozen_step {s s' : System ledgerMachine} {status : TaskStatus} (h : Step anyRun s s')
    (hstatus : (s.snap.state.db.view taskId).status = some status)
    (hterm : status.terminal = true) :
    s.snap.state.db.Frozen s'.snap.state.db taskId ∧ ∀ stepId,
      s'.snap.state.db.stepNamed taskId stepId = s.snap.state.db.stepNamed taskId stepId ∨
        ∃ pid n, s'.snap.log = s.snap.log ++ [.call pid .recoverExpired (.ok n)] := by
  cases h with
  | spawn p hp => exact ⟨.refl _ _, fun _ => .inl rfl⟩
  | crash pid hpid => exact ⟨.refl _ _, fun _ => .inl rfl⟩
  | drift w hdrift =>
      have hsteps : w.db.steps = s.snap.state.db.steps := hdrift.agree (t := .steps) (by simp)
      have hnamed (stepId : String) : w.db.stepNamed taskId stepId =
          s.snap.state.db.stepNamed taskId stepId := by
        simp only [Database.stepNamed, hsteps]
      refine ⟨⟨congrArg View.status hdrift.view_eq, ?_, fun stepId => .inl (hnamed stepId)⟩,
        fun stepId => .inl (hnamed stepId)⟩
      exact sameEvidence_of_eq (hdrift.agree (t := .acceptance) (by simp))
        (hdrift.agree (t := .artifacts) (by simp))
  | call pid r next env reply w hthread hadmits hperform =>
      obtain ⟨hfrozen, hsteps⟩ := perform_frozen hperform hstatus hterm
      refine ⟨hfrozen, fun stepId => (hsteps stepId).imp_right ?_⟩
      rintro ⟨rfl, answer, rfl⟩
      exact ⟨pid, answer, rfl⟩

/-- Once a task has ended, no run changes its status, its acceptance row or its artifacts; a
step that changes was in flight when the task was cancelled or failed, and recovery doubts it. -/
theorem evidence_frozen {s s' : System ledgerMachine} {row : TaskRow} (h : Reachable anyRun s)
    (hrow : s.snap.state.db.tasks.get? taskId = some row)
    (hterm : row.payload.status.terminal = true) (hs : Steps anyRun s s') :
    (∃ row', s'.snap.state.db.tasks.get? taskId = some row' ∧
      row'.payload.status = row.payload.status) ∧
    s.snap.state.db.SameEvidence s'.snap.state.db taskId ∧
    (∀ stepId,
      Doubted (s.snap.state.db.stepNamed taskId stepId) (s'.snap.state.db.stepNamed taskId stepId) ∧
      (row.payload.status = .completed → s'.snap.state.db.stepNamed taskId stepId =
        s.snap.state.db.stepNamed taskId stepId)) ∧
    ∀ s'' stepId, Step anyRun s' s'' →
      s''.snap.state.db.stepNamed taskId stepId = s'.snap.state.db.stepNamed taskId stepId ∨
        ∃ pid n, s''.snap.log = s'.snap.log ++ [.call pid .recoverExpired (.ok n)] := by
  have hstatus : (s.snap.state.db.view taskId).status = some row.payload.status := by
    simp [Database.view, hrow]
  have hfrozen : s.snap.state.db.Frozen s'.snap.state.db taskId := by
    induction hs with
    | refl => exact .refl _ _
    | tail _ hstep ih => exact ih.trans (frozen_step hstep (ih.status.trans hstatus) hterm).1
  have hlater := hfrozen.status.trans hstatus
  refine ⟨?_, hfrozen.evidence, fun stepId => ⟨hfrozen.steps stepId, fun hcompleted => ?_⟩,
    fun s'' stepId hstep => (frozen_step hstep hlater hterm).2 stepId⟩
  · simpa [Database.view] using hlater
  · rcases hfrozen.steps stepId with hsame | ⟨step, hstep, hstarted, -⟩
    · exact hsame
    · -- completion has left no step in flight
      obtain ⟨status, hview, hsucceeded⟩ := stepsFollow h taskId stepId step hstep
      rw [hstatus, Option.some.injEq] at hview
      rw [hsucceeded (hview.symm.trans hcompleted)] at hstarted
      cases hstarted

end Runs

section Ended

local instance frozenEnded : Platform := .reference []

/-- The task is cancelled before anyone has claimed it. -/
def Sample.ended : List (Surroundings × Request) :=
  [(moment 0 "", .submit task plan), (moment 1 "", .cancel "task")]

theorem evidence_frozen_ended :
    ∃ row', ((((Sample.fresh []).script Sample.ended).asked (Sample.moment 2 "")
        (.bindAcceptance "task" .default)).snap.state.db.tasks.get? "task" = some row' ∧
      row'.payload.status = .cancelled) := by
  obtain ⟨s, hs⟩ : ∃ s, s = (Sample.fresh []).script Sample.ended := ⟨_, rfl⟩
  obtain ⟨row, hrow, hcancelled⟩ : ∃ row ∈ s.snap.state.db.tasks.get? "task",
      row.payload.status = .cancelled := by
    rw [hs]
    decide +kernel
  have hreach : Reachable anyRun s := hs ▸ Sample.reachable [] Sample.ended
  rw [← hs]
  obtain ⟨⟨row', hrow', hsame⟩, -⟩ := evidence_frozen hreach hrow (by rw [hcancelled]; rfl)
    (Steps.asked trivial (fun _ _ => trivial) s (Sample.moment 2 ""))
  exact ⟨row', hrow', hsame.trans hcancelled⟩

end Ended

end Dante
