import Dante.Model.StoredLedger

/-! # Database files and their migration

A file has the tables of its version. The migration runs its statements in one transaction,
which is rolled back when any of them fails. -/

namespace Dante

open Relational

/-! ## Files -/

/-- A value in a column that no modelled operation looks into. -/
inductive Cell where
  | null
  | integer (n : ℤ)
  | real (x : ℚ)
  | text (s : String)
  | blob (data : ByteArray)

abbrev Rows := List (List Cell)

/-- A table or an index of a later version may be missing. -/
structure DatabaseFile where
  userVersion : ℕ
  tasks : Table StoredTask
  taskEvents : Rows
  routes : Rows
  artifacts : Table StoredArtifact
  approvals : Rows
  taskAcceptance : Option (Table StoredAcceptance)
  executionSteps : Option Rows
  taskQueue : Option Rows
  taskQueueRunnable : Option Unit
  backendObservations : Option Rows
  taskContinuity : Option Rows
  nodeProfiles : Option Rows
  modelQualifications : Option Rows
  qualificationScope : Option Unit

/-! ## Statements -/

abbrev Statement := DatabaseFile → Except Exn DatabaseFile

/-- `CREATE TABLE` and `CREATE INDEX`. -/
def createNew {α : Type} (name : String) (old : Option α) (new : α) : Except Exn (Option α) :=
  match old with
  | none => .ok (some new)
  | some _ => .error (.foreign ("OperationalError: " ++ name ++ " already exists"))

/-- `CREATE ... IF NOT EXISTS`. -/
def ensured {α : Type} (old : Option α) (new : α) : Option α :=
  some (old.getD new)

def createTaskAcceptance : Statement := fun file => do
  let table ← createNew "table task_acceptance" file.taskAcceptance .empty
  pure { file with taskAcceptance := table }

/-- The row of a task that was there before. The other columns have their defaults. -/
def StoredTask.backfilled (r : StoredTask) : StoredAcceptance :=
  ⟨r.taskId, "{}", 0, 0, "{}", "{}"⟩

/-- `INSERT INTO task_acceptance(...) SELECT task_id, '{}', 0, 0 FROM tasks`. -/
def insertTaskAcceptance : Statement := fun file => do
  let table ← orRaise file.taskAcceptance (.foreign "OperationalError: no such table")
  let filled ← orRaise (table.insertAll (file.tasks.rows.map StoredTask.backfilled))
    .integrityError
  pure { file with taskAcceptance := some filled }

def createExecutionSteps : Statement := fun file => do
  let table ← createNew "table execution_steps" file.executionSteps []
  pure { file with executionSteps := table }

def createTaskQueue : Statement := fun file => do
  let table ← createNew "table task_queue" file.taskQueue []
  pure { file with taskQueue := table }

def createTaskQueueRunnable : Statement := fun file => do
  let index ← createNew "index task_queue_runnable" file.taskQueueRunnable ()
  pure { file with taskQueueRunnable := index }

def createBackendObservations : Statement := fun file => do
  let table ← createNew "table backend_observations" file.backendObservations []
  pure { file with backendObservations := table }

def createTaskContinuity : Statement := fun file => do
  let table ← createNew "table task_continuity" file.taskContinuity []
  pure { file with taskContinuity := table }

def ensureNodeProfiles : Statement := fun file =>
  .ok { file with nodeProfiles := ensured file.nodeProfiles [] }

def ensureModelQualifications : Statement := fun file =>
  .ok { file with modelQualifications := ensured file.modelQualifications [] }

def ensureQualificationScope : Statement := fun file =>
  .ok { file with qualificationScope := ensured file.qualificationScope () }

/-- `PRAGMA user_version=`. -/
def setUserVersion (version : ℕ) : Statement := fun file =>
  .ok { file with userVersion := version }

/-- `BEGIN IMMEDIATE` and `COMMIT`. -/
def bracket : Statement := .ok

/-- A file of a later version is refused. -/
def checkVersion : Statement := fun file =>
  if 4 < file.userVersion then .error (.runtimeError "Unsupported DANTE database schema")
  else .ok file

def acceptanceStatements : List Statement :=
  [createTaskAcceptance, insertTaskAcceptance, createExecutionSteps, setUserVersion 1]

def queueStatements : List Statement :=
  [createTaskQueue, createTaskQueueRunnable, setUserVersion 2]

def continuityStatements : List Statement :=
  [createBackendObservations, createTaskContinuity, setUserVersion 3]

def qualificationStatements : List Statement :=
  [ensureNodeProfiles, ensureModelQualifications, ensureQualificationScope, setUserVersion 4]

/-- The statements of the transaction, by the version that it reads. -/
def migrationStatements (version : ℕ) : List Statement :=
  [bracket, checkVersion] ++ (if version = 0 then acceptanceStatements else []) ++
    (if version < 2 then queueStatements else []) ++
      (if version < 3 then continuityStatements else []) ++
        (if version < 4 then qualificationStatements else []) ++ [bracket]

/-- The exceptions that come from outside, by the number of the statement they strike. -/
abbrev Faults := ℕ → Option Exn

def runStatements (faults : Faults) : ℕ → List Statement → DatabaseFile → Except Exn DatabaseFile
  | _, [], file => .ok file
  | n, statement :: rest, file =>
      match faults n with
      | some e => .error e
      | none => do
          let file ← statement file
          runStatements faults (n + 1) rest file

/-- `migrate`: what it answers, and the file afterwards. -/
def migrate (faults : Faults) (file : DatabaseFile) : Except Exn Unit × DatabaseFile :=
  match runStatements faults 0 (migrationStatements file.userVersion) file with
  | .ok migrated => (.ok (), migrated)
  | .error e => (.error e, file)

/-! ## Files of a version -/

/-- The file has the tables and the indexes of a version. -/
structure DatabaseFile.HasTables (file : DatabaseFile) (version : ℕ) : Prop where
  taskAcceptance : file.taskAcceptance.isSome = decide (1 ≤ version)
  executionSteps : file.executionSteps.isSome = decide (1 ≤ version)
  taskQueue : file.taskQueue.isSome = decide (2 ≤ version)
  taskQueueRunnable : file.taskQueueRunnable.isSome = decide (2 ≤ version)
  backendObservations : file.backendObservations.isSome = decide (3 ≤ version)
  taskContinuity : file.taskContinuity.isSome = decide (3 ≤ version)
  nodeProfiles : file.nodeProfiles.isSome = decide (4 ≤ version)
  modelQualifications : file.modelQualifications.isSome = decide (4 ≤ version)
  qualificationScope : file.qualificationScope.isSome = decide (4 ≤ version)

/-- Every table that was there is still there, row for row. -/
structure DatabaseFile.Keeps (file later : DatabaseFile) : Prop where
  tasks : later.tasks = file.tasks
  taskEvents : later.taskEvents = file.taskEvents
  routes : later.routes = file.routes
  artifacts : later.artifacts = file.artifacts
  approvals : later.approvals = file.approvals
  taskAcceptance : ∀ t, file.taskAcceptance = some t → later.taskAcceptance = some t
  executionSteps : ∀ t, file.executionSteps = some t → later.executionSteps = some t
  taskQueue : ∀ t, file.taskQueue = some t → later.taskQueue = some t
  backendObservations :
    ∀ t, file.backendObservations = some t → later.backendObservations = some t
  taskContinuity : ∀ t, file.taskContinuity = some t → later.taskContinuity = some t
  nodeProfiles : ∀ t, file.nodeProfiles = some t → later.nodeProfiles = some t
  modelQualifications :
    ∀ t, file.modelQualifications = some t → later.modelQualifications = some t

/-- The tables of a file that records no step and has queued nothing. -/
def DatabaseFile.store (file : DatabaseFile) : Store where
  tasks := file.tasks
  acceptance := file.taskAcceptance.getD .empty
  artifacts := file.artifacts
  steps := .empty
  queue := .empty
  log := []

/-- The tables without a task. -/
def Store.without (s : Store) (taskId : String) : Store :=
  { s with tasks := s.tasks.erase taskId, acceptance := s.acceptance.erase taskId }

end Dante
