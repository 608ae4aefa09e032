import Dante.Library.Agreement
import Dante.Model.Migrations
import Dante.Model.Reference

/-! # A migrated file is as good as a new one

The transaction of the migration ends at the newest version or changes nothing. The acceptance
rows it fills in are other texts than those of a new task, but no operation can tell. -/

namespace Dante

open Agreement JsonText Relational

section Calls

variable [Platform] [StoredModels]

/-! ## Rows that read alike -/

/-- The rows of one task in two databases: the contracts read alike, the rest is the same. -/
structure StoredAcceptance.Alike (r r' : StoredAcceptance) : Prop where
  contract : readContract r'.contract = readContract r.contract
  strict : r'.strict = r.strict
  locked : r'.locked = r.locked
  attestations : r'.attestations = r.attestations
  finalEvidence : r'.finalEvidence = r.finalEvidence

def StoredTask.SamePayload (r r' : StoredTask) : Prop :=
  r'.payload = r.payload

/-- Two databases that no acceptance operation can tell apart: they may differ in the texts of
contracts, in the revisions of tasks and in the events before `log` and `log'`. -/
structure Store.Alike (log log' : List TaskEvent) (s s' : Store) : Prop where
  tasks : ∀ id, Option.Rel StoredTask.SamePayload (s.tasks.at? id) (s'.tasks.at? id)
  acceptance : ∀ id, Option.Rel StoredAcceptance.Alike (s.acceptance.at? id) (s'.acceptance.at? id)
  artifacts : s'.artifacts = s.artifacts
  steps : s'.steps = s.steps
  queue : s'.queue = s.queue
  events : ∃ later, s.log = log ++ later ∧ s'.log = log' ++ later

/-- The answers are the same, and the databases stay alike. -/
def AnsweredAlike {α : Type} (log log' : List TaskEvent) (r r' : α × Store) : Prop :=
  r'.1 = r.1 ∧ r.2.Alike log log' r'.2

variable {log log' : List TaskEvent} {s s' : Store} {taskId : String} {α : Type}

omit [Platform] [StoredModels] in
theorem agree_orRaise {β β' : Type} {P : β → β' → Prop} {o : Option β} {o' : Option β'} {e : Exn}
    (h : Option.Rel P o o') : Agree P (orRaise o e) (orRaise o' e) := by
  cases h with
  | none => rfl
  | some h => exact h

theorem StoredAcceptance.Alike.observed {r r' : StoredAcceptance} (h : r.Alike r') :
    r'.observed = r.observed := by
  rw [StoredAcceptance.observed, StoredAcceptance.observed, h.strict, h.attestations]

theorem StoredAcceptance.Alike.references {r r' : StoredAcceptance} (h : r.Alike r') :
    r'.references = r.references := by
  rw [StoredAcceptance.references, StoredAcceptance.references, h.finalEvidence]

theorem StoredAcceptance.Alike.mayBind {r r' : StoredAcceptance} (h : r.Alike r')
    (contract : AcceptanceContract) : r'.mayBind contract = r.mayBind contract := by
  rw [StoredAcceptance.mayBind, StoredAcceptance.mayBind, h.locked, h.contract]

theorem StoredAcceptance.Alike.hardenedContract {r r' : StoredAcceptance} (h : r.Alike r')
    (toolId : String) : r'.hardenedContract toolId = r.hardenedContract toolId := by
  rw [StoredAcceptance.hardenedContract, StoredAcceptance.hardenedContract, h.locked, h.contract]

namespace Store.Alike

/-! ## What is read -/

theorem leases (h : s.Alike log log' s') : s'.leases = s.leases := by
  rw [Store.leases, Store.leases, h.queue]

theorem activeTask (h : s.Alike log log' s') (taskId : String) :
    s'.activeTask taskId = s.activeTask taskId := by
  unfold Store.activeTask
  rcases rel_cases (h.tasks taskId) with ⟨hs, hs'⟩ | ⟨row, row', hs, hs', hrow⟩
  · rw [hs, hs']
  · rw [hs, hs']
    change (modelValidated (StoredModels.task row'.payload) >>= _) =
      modelValidated (StoredModels.task row.payload) >>= _
    rw [show row'.payload = row.payload from hrow]

theorem checkedArtifact (h : s.Alike log log' s') : s'.checkedArtifact = s.checkedArtifact := by
  funext fs taskId artifactId
  rw [Store.checkedArtifact, Store.checkedArtifact, h.artifacts]

theorem gatherStep (h : s.Alike log log' s') : s'.gatherStep = s.gatherStep := by
  funext fs taskId acc step
  rw [Store.gatherStep, Store.gatherStep, Store.verifiedStep, Store.verifiedStep,
    h.checkedArtifact]

theorem gatherArtifact (h : s.Alike log log' s') : s'.gatherArtifact = s.gatherArtifact := by
  funext fs taskId acc item
  rw [Store.gatherArtifact, Store.gatherArtifact, h.checkedArtifact]

theorem gatherField (h : s.Alike log log' s') : s'.gatherField = s.gatherField := by
  have hvalue : s'.finalFieldValue = s.finalFieldValue := by
    funext fs taskId field artifactId
    rw [Store.finalFieldValue, Store.finalFieldValue, h.checkedArtifact]
  funext fs taskId fields ref
  rw [Store.gatherField, Store.gatherField, hvalue]

theorem acceptanceResult (h : s.Alike log log' s') (fs : FileSystem) (taskId : String) :
    s'.acceptanceResult fs taskId = s.acceptanceResult fs taskId := by
  unfold Store.acceptanceResult
  rw [h.steps, h.artifacts, h.gatherStep, h.gatherArtifact, h.gatherField]
  rcases rel_cases (h.acceptance taskId) with ⟨hs, hs'⟩ | ⟨row, row', hs, hs', hrow⟩
  · rw [hs, hs']
  · rw [hs, hs']
    simp only
    rw [hrow.contract, hrow.observed, hrow.references]

/-! ## What is written -/

theorem updateTask (h : s.Alike log log' s') (task : Task) :
    (s.updateTask taskId task).Alike log log' (s'.updateTask taskId task) where
  tasks id := by
    rw [Store.updateTask, Store.updateTask, Table.at?_amend, Table.at?_amend]
    by_cases hid : id = taskId
    · rw [if_pos hid, if_pos hid]
      rcases rel_cases (h.tasks id) with ⟨hs, hs'⟩ | ⟨row, row', hs, hs', hrow⟩
      · rw [hs, hs']
        exact .none
      · rw [hs, hs']
        exact .some (congrArg (StoredModels.redumpTask · task) hrow)
    · rw [if_neg hid, if_neg hid]
      exact h.tasks id
  acceptance := h.acceptance
  artifacts := h.artifacts
  steps := h.steps
  queue := h.queue
  events := h.events

/-- Columns of an acceptance row that are written without a look at the contract before. -/
theorem updateAcceptance (h : s.Alike log log' s') {f : StoredAcceptance → StoredAcceptance}
    {hf : ∀ r, (f r).taskId = r.taskId} (hrows : ∀ r r', r.Alike r' → (f r).Alike (f r')) :
    (s.updateAcceptance taskId f hf).Alike log log' (s'.updateAcceptance taskId f hf) where
  tasks := h.tasks
  acceptance id := by
    rw [Store.updateAcceptance, Store.updateAcceptance, Table.at?_amend, Table.at?_amend]
    by_cases hid : id = taskId
    · rw [if_pos hid, if_pos hid]
      rcases rel_cases (h.acceptance id) with ⟨hs, hs'⟩ | ⟨row, row', hs, hs', hrow⟩
      · rw [hs, hs']
        exact .none
      · rw [hs, hs']
        exact .some (hrows _ _ hrow)
    · rw [if_neg hid, if_neg hid]
      exact h.acceptance id
  artifacts := h.artifacts
  steps := h.steps
  queue := h.queue
  events := h.events

theorem event (h : s.Alike log log' s') (task : Task) (name : String)
    (previous : Option TaskStatus) (metadata : Dict Json) :
    Agree (Store.Alike log log') (s.event task name previous metadata)
      (s'.event task name previous metadata) := by
  apply Agree.bind (agree_orRaise (h.tasks task.taskId))
  intro row row' _
  obtain ⟨later, hlog, hlog'⟩ := h.events
  refine ⟨h.tasks, h.acceptance, h.artifacts, h.steps, h.queue,
    later ++ [⟨task.taskId, name, previous, task.status, metadata⟩], ?_⟩
  simp only [hlog, hlog', List.append_assoc, and_self]

/-! ## The operations -/

theorem bindAcceptance (h : s.Alike log log' s') (contract : AcceptanceContract) :
    Agree (AnsweredAlike log log') (s.bindAcceptance taskId contract)
      (s'.bindAcceptance taskId contract) := by
  apply Agree.same (h.activeTask taskId)
  intro task _
  apply Agree.bind (agree_orRaise (h.acceptance taskId))
  intro row row' hrow
  apply Agree.same (hrow.mayBind contract)
  intro _ _
  refine ⟨rfl, h.updateAcceptance ?_⟩
  exact fun r r' hr => ⟨rfl, hr.strict, rfl, hr.attestations, hr.finalEvidence⟩

theorem recordObservations (h : s.Alike log log' s') (observed : ObservedAcceptance) :
    Agree (AnsweredAlike log log') (s.recordObservations taskId observed)
      (s'.recordObservations taskId observed) := by
  apply Agree.same rfl
  intro _ _
  apply Agree.same (h.activeTask taskId)
  intro task _
  apply Agree.bind (agree_orRaise (h.acceptance taskId))
  intro row row' hrow
  rw [hrow.strict, hrow.attestations]
  by_cases hstrict : row.strict ≠ 0
  · rw [if_pos hstrict, if_pos hstrict]
    exact ⟨rfl, h⟩
  · rw [if_neg hstrict, if_neg hstrict]
    apply Agree.same rfl
    intro prior _
    have hupdated : Store.Alike log log'
        (s.updateAcceptance taskId (.attesting (prior.merged observed)) (fun _ => rfl))
        (s'.updateAcceptance taskId (.attesting (prior.merged observed)) (fun _ => rfl)) :=
      h.updateAcceptance fun r r' hr =>
        ⟨hr.contract, hr.strict, hr.locked, rfl, hr.finalEvidence⟩
    apply Agree.bind (hupdated.event task _ _ _)
    exact fun t t' ht => ⟨rfl, ht⟩

theorem prepareStep (h : s.Alike log log' s') {owner : Option Lease} {toolId toolVersion : String}
    {arguments : Dict Json} {idempotencyKey : Option String} {clock : ℕ → ℚ} {newId : String} :
    Agree (AnsweredAlike log log')
      (s.prepareStep owner taskId toolId toolVersion arguments idempotencyKey clock newId)
      (s'.prepareStep owner taskId toolId toolVersion arguments idempotencyKey clock newId) := by
  apply Agree.same rfl
  intro argsDigest _
  apply Agree.same rfl
  intro key _
  apply Agree.same (by rw [h.leases])
  intro _ _
  apply Agree.same (h.activeTask taskId)
  intro task _
  rw [h.steps]
  cases s.steps.find (StepRecord.keyed taskId key) with
  | some step =>
      apply Agree.same rfl
      exact fun _ _ => ⟨rfl, h⟩
  | none =>
      apply Agree.bind (agree_orRaise (h.acceptance taskId))
      intro row row' hrow
      apply Agree.same (hrow.hardenedContract toolId)
      intro contract _
      apply Agree.same rfl
      intro steps _
      have hupdated : Store.Alike log log'
          (s.updateAcceptance taskId (.hardened contract) (fun _ => rfl))
          (s'.updateAcceptance taskId (.hardened contract) (fun _ => rfl)) :=
        h.updateAcceptance fun r r' hr => ⟨rfl, rfl, hr.locked, rfl, hr.finalEvidence⟩
      have hprepared : Store.Alike log log'
          { s.updateAcceptance taskId (.hardened contract) (fun _ => rfl) with steps := steps }
          { s'.updateAcceptance taskId (.hardened contract) (fun _ => rfl) with steps := steps } :=
        { hupdated with steps := rfl }
      apply Agree.bind (hprepared.event task _ _ _)
      exact fun t t' ht => ⟨rfl, ht⟩

theorem transition (h : s.Alike log log' s') {owner : Option Lease} {target : TaskStatus}
    {currentStep : Option String} {metadata : Dict Json} {clock : ℕ → ℚ} {fs : FileSystem} :
    Agree (AnsweredAlike log log')
      (s.transition owner taskId target currentStep metadata clock fs)
      (s'.transition owner taskId target currentStep metadata clock fs) := by
  apply Agree.same (by rw [h.leases])
  intro _ _
  apply Agree.same (by rw [h.leases])
  intro _ _
  rcases rel_cases (h.tasks taskId) with ⟨hs, hs'⟩ | ⟨row, row', hs, hs', hrow⟩
  · rw [hs, hs']
    rfl
  · rw [hs, hs']
    have hpayload : row'.payload = row.payload := hrow
    apply Agree.same (x := modelValidated (StoredModels.task row.payload)) (by rw [hpayload])
    intro task _
    by_cases hdone : task.status = target
    · rw [if_pos hdone, if_pos hdone]
      exact ⟨rfl, h⟩
    · rw [if_neg hdone, if_neg hdone]
      apply Agree.same rfl
      intro _ _
      apply Agree.same (by rw [Store.requireAccepted, Store.requireAccepted, h.acceptanceResult])
      intro _ _
      rw [Table.count_at? hs, Table.count_at? hs', if_pos (beq_self_eq_true _),
        if_pos (beq_self_eq_true _)]
      apply Agree.same rfl
      intro _ _
      apply Agree.bind ((h.updateTask _).event _ _ _ _)
      exact fun t t' ht => ⟨rfl, ht⟩

end Store.Alike

/-- A call is answered alike, and leaves the databases alike. -/
theorem AcceptanceCall.run_alike (call : AcceptanceCall) (h : s.Alike log log' s') :
    Agree (AnsweredAlike log log') (call.run s) (call.run s') := by
  cases call with
  | bindAcceptance taskId contract =>
      exact (h.bindAcceptance contract).map fun a a' ha => ⟨rfl, ha.2⟩
  | recordObservations taskId observed =>
      exact (h.recordObservations observed).map fun a a' ha => ⟨rfl, ha.2⟩
  | prepareStep =>
      exact h.prepareStep.map fun a a' ha => ⟨congrArg AcceptanceAnswer.prepared ha.1, ha.2⟩
  | transition =>
      exact h.transition.map fun a a' ha => ⟨congrArg AcceptanceAnswer.moved ha.1, ha.2⟩

/-- Calls one after the other are answered alike. -/
theorem Store.answers_alike (calls : List AcceptanceCall) (h : s.Alike log log' s') :
    (Store.answers calls s').1 = (Store.answers calls s).1 ∧
      (Store.answers calls s).2.Alike log log' (Store.answers calls s').2 := by
  induction calls generalizing s s' with
  | nil => exact ⟨rfl, h⟩
  | cons call calls ih =>
      have hcall := call.run_alike h
      unfold Store.answers
      cases hrun : call.run s with
      | error e =>
          cases hrun' : call.run s' with
          | error e' =>
              rw [hrun, hrun'] at hcall
              obtain rfl : e = e' := hcall
              exact ⟨congrArg (.error e :: ·) (ih h).1, (ih h).2⟩
          | ok r' =>
              rw [hrun, hrun'] at hcall
              exact hcall.elim
      | ok r =>
          cases hrun' : call.run s' with
          | error e' =>
              rw [hrun, hrun'] at hcall
              exact hcall.elim
          | ok r' =>
              rw [hrun, hrun'] at hcall
              obtain ⟨hanswer, halike⟩ := hcall
              exact ⟨congrArg₂ (.ok · :: ·) hanswer (ih halike).1, (ih halike).2⟩

end Calls

/-! ## Statements -/

section Files

variable {faults : Faults} {file later latest : DatabaseFile} {statements others : List Statement}
  {version : ℕ}

/-- Statements that nothing from outside disturbs. -/
def undisturbedRun (statements : List Statement) (file : DatabaseFile) : Except Exn DatabaseFile :=
  statements.foldlM (fun file statement => statement file) file

theorem undisturbedRun_of_ok {n : ℕ} (h : runStatements faults n statements file = .ok later) :
    undisturbedRun statements file = .ok later := by
  induction statements generalizing file n with
  | nil => exact h
  | cons statement rest ih =>
      unfold runStatements at h
      split at h
      · cases h
      · obtain ⟨next, hnext, hrest⟩ := Except.bind_eq_ok.mp h
        rw [undisturbedRun, List.foldlM_cons, hnext]
        exact ih hrest

theorem runStatements_quiet (hquiet : ∀ n, faults n = none) (n : ℕ) :
    runStatements faults n statements file = undisturbedRun statements file := by
  induction statements generalizing file n with
  | nil => rfl
  | cons statement rest ih =>
      unfold runStatements
      rw [hquiet n, undisturbedRun, List.foldlM_cons]
      apply congrArg (statement file >>= ·)
      funext next
      exact ih (n + 1)

theorem undisturbedRun_append :
    undisturbedRun (statements ++ others) file =
      undisturbedRun statements file >>= undisturbedRun others :=
  List.foldlM_append

namespace DatabaseFile

theorem Keeps.refl (file : DatabaseFile) : file.Keeps file where
  tasks := rfl
  taskEvents := rfl
  routes := rfl
  artifacts := rfl
  approvals := rfl
  taskAcceptance _ h := h
  executionSteps _ h := h
  taskQueue _ h := h
  backendObservations _ h := h
  taskContinuity _ h := h
  nodeProfiles _ h := h
  modelQualifications _ h := h

theorem Keeps.trans (h : file.Keeps later) (h' : later.Keeps latest) : file.Keeps latest where
  tasks := h'.tasks.trans h.tasks
  taskEvents := h'.taskEvents.trans h.taskEvents
  routes := h'.routes.trans h.routes
  artifacts := h'.artifacts.trans h.artifacts
  approvals := h'.approvals.trans h.approvals
  taskAcceptance t ht := h'.taskAcceptance t (h.taskAcceptance t ht)
  executionSteps t ht := h'.executionSteps t (h.executionSteps t ht)
  taskQueue t ht := h'.taskQueue t (h.taskQueue t ht)
  backendObservations t ht := h'.backendObservations t (h.backendObservations t ht)
  taskContinuity t ht := h'.taskContinuity t (h.taskContinuity t ht)
  nodeProfiles t ht := h'.nodeProfiles t (h.nodeProfiles t ht)
  modelQualifications t ht := h'.modelQualifications t (h.modelQualifications t ht)

end DatabaseFile

/-! ## One version after the other -/

/-- The file has become one of the version, and has lost nothing. -/
structure Upgraded (file later : DatabaseFile) (version : ℕ) : Prop where
  tables : later.HasTables version
  keeps : file.Keeps later
  userVersion : later.userVersion = version

theorem acceptance_upgraded (h : file.HasTables 0) :
    ∃ later, undisturbedRun acceptanceStatements file = .ok later ∧ Upgraded file later 1 ∧
      later.executionSteps = some [] ∧
      ∃ t, later.taskAcceptance = some t ∧ t.rows = file.tasks.rows.map StoredTask.backfilled := by
  have hacceptance : file.taskAcceptance = none := by simpa using h.taskAcceptance
  have hsteps : file.executionSteps = none := by simpa using h.executionSteps
  have hunique : ((Table.empty : Table StoredAcceptance).rows ++
      file.tasks.rows.map StoredTask.backfilled).Pairwise (fun a b => clashes a b = false) := by
    rw [Table.rows_empty, List.nil_append, List.pairwise_map]
    exact file.tasks.unique
  have hrun : undisturbedRun acceptanceStatements file =
      .ok { file with
        taskAcceptance := some ⟨_, hunique⟩, executionSteps := some [], userVersion := 1 } := by
    simp [undisturbedRun, acceptanceStatements, createTaskAcceptance, insertTaskAcceptance,
      createExecutionSteps, setUserVersion, createNew, hacceptance, hsteps, orRaise,
      Table.insertAll_of_unique hunique, bind, Except.bind, pure, Except.pure]
  refine ⟨_, hrun, ⟨?_, ?_, rfl⟩, rfl, _, rfl, by simp⟩
  · exact { h with taskAcceptance := rfl, executionSteps := rfl }
  · exact { DatabaseFile.Keeps.refl file with
      taskAcceptance := fun t ht => by simp [hacceptance] at ht
      executionSteps := fun t ht => by simp [hsteps] at ht }

theorem queue_upgraded (h : file.HasTables 1) :
    ∃ later, undisturbedRun queueStatements file = .ok later ∧ Upgraded file later 2 ∧
      later.taskQueue = some [] := by
  have hqueue : file.taskQueue = none := by simpa using h.taskQueue
  have hindex : file.taskQueueRunnable = none := by simpa using h.taskQueueRunnable
  have hrun : undisturbedRun queueStatements file =
      .ok { file with taskQueue := some [], taskQueueRunnable := some (), userVersion := 2 } := by
    simp [undisturbedRun, queueStatements, createTaskQueue, createTaskQueueRunnable,
      setUserVersion, createNew, hqueue, hindex, bind, Except.bind, pure, Except.pure]
  refine ⟨_, hrun, ⟨?_, ?_, rfl⟩, rfl⟩
  · exact { h with taskQueue := rfl, taskQueueRunnable := rfl }
  · exact { DatabaseFile.Keeps.refl file with
      taskQueue := fun t ht => by simp [hqueue] at ht }

theorem continuity_upgraded (h : file.HasTables 2) :
    ∃ later, undisturbedRun continuityStatements file = .ok later ∧ Upgraded file later 3 := by
  have hbackends : file.backendObservations = none := by simpa using h.backendObservations
  have hcontinuity : file.taskContinuity = none := by simpa using h.taskContinuity
  have hrun : undisturbedRun continuityStatements file =
      .ok { file with
        backendObservations := some [], taskContinuity := some [], userVersion := 3 } := by
    simp [undisturbedRun, continuityStatements, createBackendObservations, createTaskContinuity,
      setUserVersion, createNew, hbackends, hcontinuity, bind, Except.bind, pure, Except.pure]
  refine ⟨_, hrun, ?_, ?_, rfl⟩
  · exact { h with backendObservations := rfl, taskContinuity := rfl }
  · exact { DatabaseFile.Keeps.refl file with
      backendObservations := fun t ht => by simp [hbackends] at ht
      taskContinuity := fun t ht => by simp [hcontinuity] at ht }

theorem qualification_upgraded (h : file.HasTables 3) :
    ∃ later, undisturbedRun qualificationStatements file = .ok later ∧ Upgraded file later 4 := by
  have hprofiles : file.nodeProfiles = none := by simpa using h.nodeProfiles
  have hqualifications : file.modelQualifications = none := by simpa using h.modelQualifications
  refine ⟨_, rfl, ?_, ?_, rfl⟩
  · exact { h with nodeProfiles := rfl, modelQualifications := rfl, qualificationScope := rfl }
  · exact { DatabaseFile.Keeps.refl file with
      nodeProfiles := fun t ht => by simp [hprofiles] at ht
      modelQualifications := fun t ht => by simp [hqualifications] at ht }

theorem undisturbedRun_bracket : undisturbedRun [bracket] file = .ok file := rfl

theorem undisturbedRun_begin (h : file.userVersion ≤ 4) :
    undisturbedRun [bracket, checkVersion] file = .ok file := by
  simp [undisturbedRun, bracket, checkVersion, not_lt.mpr h, bind, Except.bind, pure, Except.pure]

/-- Two upgrades make one. -/
theorem Upgraded.followed {n m : ℕ} (h : Upgraded file later n)
    (hrun : undisturbedRun statements file = .ok later)
    (hnext : ∃ latest, undisturbedRun others later = .ok latest ∧ Upgraded later latest m) :
    ∃ latest, undisturbedRun (statements ++ others) file = .ok latest ∧ Upgraded file latest m ∧
      later.Keeps latest := by
  obtain ⟨latest, hlater, hlatest⟩ := hnext
  refine ⟨latest, ?_, ⟨hlatest.tables, h.keeps.trans hlatest.keeps, hlatest.userVersion⟩,
    hlatest.keeps⟩
  rw [undisturbedRun_append, hrun]
  exact hlater

theorem upgraded_of_two (h : file.HasTables 2) :
    ∃ later, undisturbedRun (continuityStatements ++ qualificationStatements) file = .ok later ∧
      Upgraded file later 4 := by
  obtain ⟨next, hrun, hnext⟩ := continuity_upgraded h
  obtain ⟨later, hlater, hupgraded, -⟩ := hnext.followed hrun (qualification_upgraded hnext.tables)
  exact ⟨later, hlater, hupgraded⟩

theorem upgraded_of_one (h : file.HasTables 1) :
    ∃ later, undisturbedRun (queueStatements ++ (continuityStatements ++ qualificationStatements))
        file = .ok later ∧ Upgraded file later 4 ∧ later.taskQueue = some [] := by
  obtain ⟨next, hrun, hnext, hqueue⟩ := queue_upgraded h
  obtain ⟨later, hlater, hupgraded, hkeeps⟩ := hnext.followed hrun (upgraded_of_two hnext.tables)
  exact ⟨later, hlater, hupgraded, hkeeps.taskQueue _ hqueue⟩

/-- What a file of the foundation becomes. -/
structure Modernized (file later : DatabaseFile) : Prop where
  executionSteps : later.executionSteps = some []
  taskQueue : later.taskQueue = some []
  taskAcceptance : ∃ t, later.taskAcceptance = some t ∧
    t.rows = file.tasks.rows.map StoredTask.backfilled

theorem upgraded_of_foundation (h : file.HasTables 0) :
    ∃ later, undisturbedRun (acceptanceStatements ++ (queueStatements ++
        (continuityStatements ++ qualificationStatements))) file = .ok later ∧
      Upgraded file later 4 ∧ Modernized file later := by
  obtain ⟨next, hrun, hnext, hsteps, t, ht, hrows⟩ := acceptance_upgraded h
  obtain ⟨later, hlater, hupgraded, hqueue⟩ := upgraded_of_one hnext.tables
  obtain ⟨latest, hlatest, hlast, hkeeps⟩ := hnext.followed hrun ⟨later, hlater, hupgraded⟩
  have hsame : later = latest := by
    rw [undisturbedRun_append, hrun] at hlatest
    exact Except.ok.inj (hlater.symm.trans hlatest)
  subst hsame
  exact ⟨later, hlatest, hlast, hkeeps.executionSteps _ hsteps, hqueue, t,
    hkeeps.taskAcceptance t ht, hrows⟩

/-- Undisturbed, the migration upgrades every file. -/
theorem migration_upgraded (hversion : file.userVersion ≤ 4)
    (htables : file.HasTables file.userVersion) :
    ∃ later, undisturbedRun (migrationStatements file.userVersion) file = .ok later ∧
      Upgraded file later 4 ∧ (file.userVersion = 0 → Modernized file later) := by
  obtain ⟨statements, hstatements, later, hrun, hupgraded, hmodern⟩ : ∃ statements,
      migrationStatements file.userVersion = [bracket, checkVersion] ++ (statements ++ [bracket]) ∧
        ∃ later, undisturbedRun statements file = .ok later ∧ Upgraded file later 4 ∧
          (file.userVersion = 0 → Modernized file later) := by
    generalize hv : file.userVersion = version at hversion htables
    interval_cases version
    · obtain ⟨later, hrun, hupgraded, hmodern⟩ := upgraded_of_foundation htables
      exact ⟨_, rfl, later, hrun, hupgraded, fun _ => hmodern⟩
    · obtain ⟨later, hrun, hupgraded, -⟩ := upgraded_of_one htables
      exact ⟨_, rfl, later, hrun, hupgraded, nofun⟩
    · obtain ⟨later, hrun, hupgraded⟩ := upgraded_of_two htables
      exact ⟨_, rfl, later, hrun, hupgraded, nofun⟩
    · obtain ⟨later, hrun, hupgraded⟩ := qualification_upgraded htables
      exact ⟨_, rfl, later, hrun, hupgraded, nofun⟩
    · exact ⟨[], rfl, file, rfl, ⟨htables, .refl file, hv⟩, nofun⟩
  refine ⟨later, ?_, hupgraded, hmodern⟩
  rw [hstatements, undisturbedRun_append, undisturbedRun_begin hversion]
  change undisturbedRun (statements ++ [bracket]) file = .ok later
  rw [undisturbedRun_append, hrun]
  rfl

/-- Whatever disturbs it, the migration upgrades the file or leaves it as it was. -/
theorem migrate_cases (hversion : file.userVersion ≤ 4)
    (htables : file.HasTables file.userVersion) (faults : Faults) :
    (∃ e, migrate faults file = (.error e, file)) ∨
      ∃ later, migrate faults file = (.ok (), later) ∧ Upgraded file later 4 ∧
        (file.userVersion = 0 → Modernized file later) := by
  unfold migrate
  cases hrun : runStatements faults 0 (migrationStatements file.userVersion) file with
  | error e => exact .inl ⟨e, rfl⟩
  | ok latest =>
      obtain ⟨later, hlater, hupgraded, hmodern⟩ := migration_upgraded hversion htables
      obtain rfl : latest = later :=
        Except.ok.inj ((undisturbedRun_of_ok hrun).symm.trans hlater)
      exact .inr ⟨latest, rfl, hupgraded, hmodern⟩

theorem migrate_quiet (hversion : file.userVersion ≤ 4)
    (htables : file.HasTables file.userVersion) (hquiet : ∀ n, faults n = none) :
    (migrate faults file).1 = .ok () := by
  obtain ⟨later, hlater, -⟩ := migration_upgraded hversion htables
  rw [migrate, runStatements_quiet hquiet, hlater]

/-- A file of the newest version is left alone. -/
theorem migrate_newest (hversion : file.userVersion = 4) (faults : Faults) :
    (migrate faults file).2 = file := by
  unfold migrate
  cases hrun : runStatements faults 0 (migrationStatements file.userVersion) file with
  | error e => rfl
  | ok later =>
      have hlater := undisturbedRun_of_ok hrun
      rw [hversion] at hlater
      have hnothing : undisturbedRun (migrationStatements 4) file = .ok file :=
        undisturbedRun_begin hversion.le
      exact Except.ok.inj (hlater.symm.trans hnothing)

end Files

/-! ## A task from before and a new one -/

section Tasks

variable [Platform] [StoredModels] {file later : DatabaseFile} {task : Task} {revision : ℤ}

omit [StoredModels] in
theorem dumpSet_empty : dumpSet ∅ = .arr [] := by
  have hempty : Platform.setOrder ∅ = [] := by
    rw [List.eq_nil_iff_forall_not_mem]
    intro x hx
    exact absurd ((Platform.mem_setOrder ∅ x).mp hx) (Finset.notMem_empty x)
  rw [dumpSet, hempty]
  rfl

theorem readContract_empty : readContract "{}" = .ok .default := by
  rw [readContract, StoredModels.json_empty]
  rfl

/-- The two texts of the open contract read alike. -/
theorem readContract_default :
    readContract (modelText AcceptanceContract.default.dump) = .ok .default := by
  rw [readContract, StoredModels.json_default, AcceptanceContract.dump]
  simp only [AcceptanceContract.default, dumpSet_empty]
  rfl

/-- The row that a new task without a contract gets. -/
def StoredAcceptance.fresh (taskId : String) : StoredAcceptance :=
  ⟨some taskId, modelText AcceptanceContract.default.dump, 0, 0, "{}", "{}"⟩

theorem backfilled_alike (taskId payload : String) (revision : ℤ) :
    (StoredTask.backfilled ⟨some taskId, payload, revision⟩).Alike (.fresh taskId) where
  contract := readContract_default.trans readContract_empty.symm
  strict := rfl
  locked := rfl
  attestations := rfl
  finalEvidence := rfl

omit [Platform] [StoredModels] in
theorem at?_backfilled (h : Modernized file later) (id : String) :
    later.store.acceptance.at? id = (file.tasks.at? id).map StoredTask.backfilled := by
  obtain ⟨t, ht, hrows⟩ := h.taskAcceptance
  change (later.taskAcceptance.getD .empty).at? id = _
  rw [ht, Option.getD_some, Table.at?, Table.find, hrows, List.find?_map]
  rfl

theorem backfilled_rel (h : Modernized file later) (id : String) :
    Option.Rel StoredAcceptance.Alike (later.store.acceptance.at? id)
      (later.store.acceptance.at? id) := by
  rw [at?_backfilled h]
  cases file.tasks.at? id with
  | none => exact .none
  | some row => exact .some ⟨rfl, rfl, rfl, rfl, rfl⟩

omit [Platform] [StoredModels] in
theorem hasKey_task (id taskId payload : String) (revision : ℤ) :
    Table.hasKey id (⟨some taskId, payload, revision⟩ : StoredTask) = decide (id = taskId) := by
  change (some taskId == some id) = _
  rw [Option.some_beq_some, Bool.beq_eq_decide_eq]
  exact decide_eq_decide.mpr eq_comm

omit [StoredModels] in
theorem hasKey_fresh (id taskId : String) :
    Table.hasKey id (StoredAcceptance.fresh taskId) = decide (id = taskId) := by
  change (some taskId == some id) = _
  rw [Option.some_beq_some, Bool.beq_eq_decide_eq]
  exact decide_eq_decide.mpr eq_comm

/-- A task that was there before, and the same task made anew in its place. -/
theorem created_alike (h : Modernized file later) (hkeeps : file.Keeps later)
    (htask : file.tasks.at? task.taskId =
      some ⟨some task.taskId, StoredModels.dumpTask task, revision⟩) :
    ∃ created, (later.store.without task.taskId).createTask task none = .ok (task, created) ∧
      later.store.Alike [] created.log created := by
  obtain ⟨tasks, htasks⟩ := Table.insert_erase (t := later.store.tasks) (k := task.taskId)
    (r := ⟨some task.taskId, StoredModels.dumpTask task, 0⟩) rfl
  obtain ⟨accepted, haccepted⟩ := Table.insert_erase (t := later.store.acceptance)
    (k := task.taskId) (r := StoredAcceptance.fresh task.taskId) rfl
  have hsame : later.store.tasks = file.tasks := hkeeps.tasks
  have hrow : tasks.at? task.taskId =
      some ⟨some task.taskId, StoredModels.dumpTask task, 0⟩ := by
    rw [Table.at?_insert htasks, Table.at?_erase, if_pos rfl, hasKey_task]
    simp
  let created : Store := { later.store with
    tasks := tasks, acceptance := accepted,
    log := [⟨task.taskId, "task.created", none, task.status, []⟩] }
  have hcreated : (later.store.without task.taskId).createTask task none =
      .ok (task, created) := by
    unfold Store.createTask
    rw [Store.without, htasks]
    change (orRaise ((later.store.acceptance.erase task.taskId).insert
      (StoredAcceptance.fresh task.taskId)) _ >>= _) = _
    rw [haccepted]
    change (Store.event _ _ _ _ _ >>= _) = _
    unfold Store.event
    rw [hrow]
    rfl
  refine ⟨created, hcreated, ?_, ?_, rfl, rfl, rfl, [], rfl, (List.append_nil _).symm⟩
  · intro id
    change Option.Rel _ (later.store.tasks.at? id) (tasks.at? id)
    rw [Table.at?_insert htasks, Table.at?_erase, hasKey_task, hsame]
    by_cases hid : id = task.taskId
    · subst hid
      rw [htask]
      simp only [if_true, decide_true, Option.none_or]
      exact .some rfl
    · rw [if_neg hid, if_neg (by simpa using hid), Option.or_none]
      cases file.tasks.at? id with
      | none => exact .none
      | some row => exact .some rfl
  · intro id
    change Option.Rel _ (later.store.acceptance.at? id) (accepted.at? id)
    rw [Table.at?_insert haccepted, Table.at?_erase, hasKey_fresh]
    by_cases hid : id = task.taskId
    · subst hid
      rw [at?_backfilled h, htask]
      simp only [if_true, decide_true, Option.none_or]
      exact .some (backfilled_alike _ _ _)
    · rw [if_neg hid, if_neg (by simpa using hid), Option.or_none]
      exact backfilled_rel h id

/-- A migration leaves the file alone or makes it one of the newest version, which further
migrations leave alone. A task of an unversioned file answers all calls as if it was new. -/
theorem migration_as_fresh (hversion : file.userVersion ≤ 4)
    (htables : file.HasTables file.userVersion) (faults : Faults) :
    ((∃ e, migrate faults file = (.error e, file)) ∨
      ∃ later, migrate faults file = (.ok (), later) ∧
        later.userVersion = 4 ∧ later.HasTables 4 ∧ file.Keeps later ∧
        (∀ again, (migrate again later).2 = later) ∧
        (file.userVersion = 0 → later.executionSteps = some [] ∧ later.taskQueue = some [] ∧
          ∀ (task : Task) (revision : ℤ),
            file.tasks.at? task.taskId =
                some ⟨some task.taskId, StoredModels.dumpTask task, revision⟩ →
              ∃ created,
                (later.store.without task.taskId).createTask task none = .ok (task, created) ∧
                  ∀ calls, (Store.answers calls later.store).1 = (Store.answers calls created).1 ∧
                    (Store.answers calls later.store).2.Alike [] created.log
                      (Store.answers calls created).2)) ∧
      ((∀ n, faults n = none) → (migrate faults file).1 = .ok ()) := by
  constructor
  · rcases migrate_cases hversion htables faults with herror | ⟨later, hrun, hupgraded, hmodern⟩
    · exact .inl herror
    · refine .inr ⟨later, hrun, hupgraded.userVersion, hupgraded.tables, hupgraded.keeps,
        migrate_newest hupgraded.userVersion, ?_⟩
      intro hzero
      refine ⟨(hmodern hzero).executionSteps, (hmodern hzero).taskQueue, ?_⟩
      intro task revision htask
      obtain ⟨created, hcreated, halike⟩ := created_alike (hmodern hzero) hupgraded.keeps htask
      refine ⟨created, hcreated, ?_⟩
      intro calls
      obtain ⟨hanswers, hlast⟩ := Store.answers_alike calls halike
      exact ⟨hanswers.symm, hlast⟩
  · exact migrate_quiet hversion htables

end Tasks

/-! ## An old file -/

namespace Sample

/-- The contract of a task without one, as the current code writes it. -/
def openContract : String :=
  "\x7b\"required_tools\":[],\"required_artifacts\":[],\"required_final_fields\":[],\"instructions\":\x7b\x7d\x7d"

/-- The part of the sample task's payload that the model has. -/
def payload : String :=
  "\x7b\"task_id\":\"task\",\"goal\":\"report\",\"status\":\"created\"\x7d"

theorem modelText_open [Platform] :
    modelText AcceptanceContract.default.dump = openContract := by
  rw [AcceptanceContract.dump]
  simp only [AcceptanceContract.default, dumpSet_empty]
  rfl

/-- Reads the open contracts of both versions and the sample task. -/
@[reducible] def stored [Platform] : StoredModels where
  json column :=
    if column = "{}" then some (.obj [])
    else if column = openContract then some AcceptanceContract.default.dump
    else none
  json_empty := rfl
  json_default := by
    rw [modelText_open]
    rfl
  task column := if column = payload then some task else none
  dumpTask _ := payload
  redumpTask _ _ := payload
  artifact _ := none

/-- A file of the foundation with the sample task. -/
def foundation : DatabaseFile where
  userVersion := 0
  tasks := ⟨[⟨some "task", payload, 3⟩], List.pairwise_singleton _ _⟩
  taskEvents := []
  routes := []
  artifacts := .empty
  approvals := []
  taskAcceptance := none
  executionSteps := none
  taskQueue := none
  taskQueueRunnable := none
  backendObservations := none
  taskContinuity := none
  nodeProfiles := none
  modelQualifications := none
  qualificationScope := none

end Sample

/-- `migration_as_fresh` for a file with the sample task. -/
theorem migration_as_fresh_foundation :
    (migrate (fun _ => none) Sample.foundation).1 = .ok () :=
  letI : Platform := .reference []
  letI : StoredModels := Sample.stored
  (migration_as_fresh (by decide) ⟨rfl, rfl, rfl, rfl, rfl, rfl, rfl, rfl, rfl⟩
    fun _ => none).2 fun _ => rfl

end Dante
