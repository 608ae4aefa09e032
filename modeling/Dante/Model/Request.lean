import Dante.Library.RelyGuarantee
import Dante.Model.Approvals
import Dante.Model.Ledger
import Dante.Model.Preflight

/-! # The atomic steps of a run

Every connection scope of the source is one request: a `BEGIN IMMEDIATE` block, a single
`SELECT`, one look at the file system, one handler start. A failed block is rolled back. -/

namespace Dante

open JsonText Relational Concurrent

variable [Platform]

/-! ## The world -/

/-- The database, the file system, and the workers whose `stop` event is set. -/
structure World where
  db : Database
  fs : FileSystem
  stopped : List String

/-- A handler about to start. The step and the plan hash are those of the invocation it
serves; the handler itself is only given the arguments. -/
structure ToolCall where
  toolId : String
  taskId : String
  workspace : String
  stepId : String
  idempotencyKey : Option String
  manifest : ToolManifest
  arguments : Dict Json
  planHash : String

/-- What a request finds outside of the world: the successive clock readings, a fresh id
and token, and what the handler does. -/
structure Surroundings where
  clock : ℕ → ℚ
  newId : String
  token : String
  handler : ToolCall → FileSystem → HandlerOutcome × FileSystem

/-! ## Requests -/

inductive Request where
  | createTask (task : Task) (acceptance : Option AcceptanceContract)
  | getTask (taskId : String)
  | transition (owner : Option Lease) (taskId : String) (target : TaskStatus)
      (currentStep : Option String) (metadata : Dict Json)
  | checkpoint (owner : Option Lease) (taskId step : String) (state : Dict Json)
  | setRoute (owner : Option Lease) (decision : RouteDecision)
  | addArtifact (artifact : Artifact)
  | bindAcceptance (taskId : String) (contract : AcceptanceContract)
  | recordObservations (taskId : String) (observed : ObservedAcceptance)
  | recordFinalEvidence (taskId artifactId : String)
  | verifyPersistentAcceptance (taskId : String)
  | recordToolOutcome (taskId toolDigest status : String) (stepId : Option String)
  | lookupStep (taskId toolId toolVersion : String) (arguments : Dict Json)
      (idempotencyKey : Option String)
  | prepareStep (owner : Option Lease) (taskId toolId toolVersion : String)
      (arguments : Dict Json) (idempotencyKey : Option String)
  | getStep (taskId stepId : String)
  | steps (taskId : String)
  | verifiedReceipt (step : StepRecord)
  | checkedArtifact (taskId artifactId : String)
  | claimStep (owner : Option Lease) (taskId stepId : String)
  | receipt (result : Dict Json) (workspace : String)
  | finishStep (owner : Option Lease) (taskId stepId : String) (safe : Dict Json)
  | markUncertain (owner : Option Lease) (taskId stepId errorType : String)
  | reconcileStep (taskId stepId artifactId actor : String)
  | submit (task : Task) (plan : ExecutionPlan)
  | queueRow (taskId : String)
  | recoverExpired
  | claim (workerId : String) (leaseS : ℚ)
  | heartbeat (lease : Lease) (leaseS : ℚ)
  | boundary (lease : Lease)
  | advance (lease : Lease) (index : ℕ)
  | release (lease : Lease) (blocked : Option String) (retryAt : Option ℚ)
  | cancel (taskId : String)
  | retry (taskId : String) (delayS : ℚ)
  | requestApproval (taskId action target planHash : String)
  | decideApproval (approvalId token planHash actor : String) (approve : Bool)
  | consumeAction (approvalId taskId actionHash : String)
  | preflight (broker : ToolBroker) (task : Task) (toolId : String) (arguments : Dict Json)
  | runTool (call : ToolCall)
  | isStopped (workerId : String)
  | setStop (workerId : String)

/-- What each request answers. -/
def Request.Reply : Request → Type
  | .createTask .. | .getTask .. | .transition .. | .checkpoint .. | .setRoute ..
  | .addArtifact .. | .submit .. => Task
  | .verifyPersistentAcceptance .. => AcceptanceResult
  | .lookupStep .. => Option StepRecord
  | .prepareStep .. => Prepared
  | .getStep .. => StepRecord
  | .steps .. => List StepRecord
  | .verifiedReceipt .. | .receipt .. => Dict Json
  | .checkedArtifact .. => Artifact
  | .reconcileStep .. => Outcome
  | .queueRow .. => QueueRow
  | .recoverExpired => ℕ
  | .claim .. => Option Lease
  | .requestApproval .. => Approval × String
  | .decideApproval .. => Approval
  | .preflight .. => Option ToolResult
  | .runTool .. => ToolResult
  | .isStopped .. => Bool
  | _ => Unit

/-! ## Performing a request -/

/-- Commit the database of a transaction that succeeded. -/
def World.commit {α : Type} (w : World) (x : Except Exn (α × Database)) : Except Exn α × World :=
  match x with
  | .ok (a, db) => (.ok a, { w with db := db })
  | .error e => (.error e, w)

def perform (env : Surroundings) (r : Request) (w : World) : Except Exn r.Reply × World :=
  match r with
  | .createTask task acceptance => w.commit (createTask task acceptance w.db)
  | .getTask taskId => (getTask taskId w.db, w)
  | .transition owner taskId target currentStep metadata =>
      w.commit (transition owner taskId target currentStep metadata env.clock w.fs w.db)
  | .checkpoint owner taskId step state =>
      w.commit (checkpoint owner taskId step state (env.clock 0) w.db)
  | .setRoute owner decision => w.commit (setRoute owner decision (env.clock 0) w.db)
  | .addArtifact artifact => w.commit (addArtifact artifact w.db)
  | .bindAcceptance taskId contract => w.commit (bindAcceptance taskId contract w.db)
  | .recordObservations taskId observed => w.commit (recordObservations taskId observed w.db)
  | .recordFinalEvidence taskId artifactId =>
      w.commit (recordFinalEvidence taskId artifactId w.fs w.db)
  | .verifyPersistentAcceptance taskId =>
      w.commit (verifyPersistentAcceptance taskId w.fs w.db)
  | .recordToolOutcome taskId toolDigest status stepId =>
      w.commit (recordToolOutcome taskId toolDigest status stepId w.db)
  | .lookupStep taskId toolId toolVersion arguments idempotencyKey =>
      (lookupStep taskId toolId toolVersion arguments idempotencyKey w.db, w)
  | .prepareStep owner taskId toolId toolVersion arguments idempotencyKey =>
      w.commit (prepareStep owner taskId toolId toolVersion arguments idempotencyKey env.clock
        env.newId w.db)
  | .getStep taskId stepId => (getStep taskId stepId w.db, w)
  | .steps taskId => (.ok (steps taskId w.db), w)
  | .verifiedReceipt step => (verifiedReceipt w.fs step, w)
  | .checkedArtifact taskId artifactId => (checkedArtifact w.fs w.db taskId artifactId, w)
  | .claimStep owner taskId stepId =>
      w.commit (claimStep owner taskId stepId (env.clock 0) w.fs w.db)
  | .receipt result workspace => (receipt w.fs result workspace, w)
  | .finishStep owner taskId stepId safe =>
      w.commit (finishStep owner taskId stepId safe (env.clock 0) w.db)
  | .markUncertain owner taskId stepId errorType =>
      w.commit (markUncertain owner taskId stepId errorType (env.clock 0) w.db)
  | .reconcileStep taskId stepId artifactId actor =>
      w.commit (reconcileStep taskId stepId artifactId actor w.fs w.db)
  | .submit task plan => w.commit (submit task plan w.db)
  | .queueRow taskId => (orRaise (w.db.queue.get? taskId) (.keyError taskId), w)
  | .recoverExpired => w.commit (recoverExpired (env.clock 0) w.db)
  | .claim workerId leaseS => w.commit (claim workerId leaseS (env.clock 0) w.db)
  | .heartbeat lease leaseS => w.commit (heartbeat lease leaseS env.clock w.db)
  | .boundary lease => (boundary lease (env.clock 0) w.db, w)
  | .advance lease index => w.commit (advance lease index (env.clock 0) w.db)
  | .release lease blocked retryAt =>
      w.commit (release lease blocked retryAt (env.clock 0) w.db)
  | .cancel taskId => w.commit (cancel taskId (env.clock 0) w.db)
  | .retry taskId delayS => w.commit (retry taskId delayS (env.clock 0) w.db)
  | .requestApproval taskId action target planHash =>
      w.commit (requestApproval taskId action target planHash env.newId env.token w.db)
  | .decideApproval approvalId token planHash actor approve =>
      w.commit (decideApproval approvalId token planHash actor approve w.db)
  | .consumeAction approvalId taskId actionHash =>
      w.commit (consumeAction approvalId taskId actionHash w.db)
  | .preflight broker task toolId arguments =>
      (preflight w.fs broker task toolId arguments, w)
  | .runTool call =>
      let (outcome, fs) := env.handler call w.fs
      (.ok (runOutcome call.manifest outcome), { w with fs := fs })
  | .isStopped workerId => (.ok (w.stopped.contains workerId), w)
  | .setStop workerId => (.ok (), { w with stopped := workerId :: w.stopped })

/-! ## The machine -/

/-- What others than the modelled programs may do at any time: change files, request a stop,
and, on the continuity manager's part, keep its own table and log its own events. -/
structure World.Drift (w w' : World) : Prop where
  continuity : ∃ rows logged, w'.db = { w.db with
    continuity := rows, events := w.db.events ++ logged } ∧
    ∀ e ∈ logged, ∃ name, e.event = "continuity." ++ name
  stopped : ∀ workerId ∈ w.stopped, workerId ∈ w'.stopped

omit [Platform] in
/-- The files are others. -/
theorem World.Drift.files (w : World) (fs : FileSystem) : w.Drift { w with fs := fs } :=
  ⟨⟨w.db.continuity, [], by simp⟩, fun _ h => h⟩

/-- The ledger, shared by any number of processes. -/
abbrev ledgerMachine : Machine Request.Reply Exn where
  State := World
  Env := Surroundings
  perform := perform
  drift := World.Drift

/-- A program of the source, seen as its sequence of atomic steps. -/
abbrev Prog (α : Type) : Type :=
  Program Request.Reply Exn α

/-- One atomic step; an exception of it is raised. -/
abbrev ask (r : Request) : Prog r.Reply :=
  Program.call r

/-- A ledger as `_initialize` creates it; any files may already exist. -/
def World.Fresh (w : World) : Prop :=
  w.db = .empty

end Dante
