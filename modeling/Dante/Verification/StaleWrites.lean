import Dante.Library.Evaluation
import Dante.Model.Reference
import Dante.Verification.Cancellation

/-! # Ledger writes under a lost lease -/

namespace Dante

open JsonText Relational Concurrent

section Writes

variable [Platform] {w w' : World} {taskId : String} {owner : Option Lease} {lease : Lease}

/-! ## The writes -/

/-- The write operations of the ledger on one task, with their other arguments. -/
inductive LedgerWrite where
  | transition (target : TaskStatus) (currentStep : Option String) (metadata : Dict Json)
  | checkpoint (step : String) (state : Dict Json)
  | setRoute (routeId selectedModel : String)
  | prepareStep (toolId toolVersion : String) (arguments : Dict Json)
      (idempotencyKey : Option String)
  | claimStep (stepId : String)
  | finishStep (stepId : String) (result : Dict Json)
  | markUncertain (stepId errorType : String)
  | addArtifact (artifact : Artifact)
  | bindAcceptance (contract : AcceptanceContract)
  | recordObservations (observed : ObservedAcceptance)
  | recordFinalEvidence (artifactId : String)

/-- The call, made with `owner` as the lease of its context. -/
def LedgerWrite.program (taskId : String) (owner : Option Lease) : LedgerWrite → Prog Unit
  | .transition target currentStep metadata =>
      (ask (.transition owner taskId target currentStep metadata)).bind fun _ => .ret ()
  | .checkpoint step state => (ask (.checkpoint owner taskId step state)).bind fun _ => .ret ()
  | .setRoute routeId selectedModel =>
      (ask (.setRoute owner ⟨routeId, taskId, selectedModel⟩)).bind fun _ => .ret ()
  | .prepareStep toolId toolVersion arguments idempotencyKey =>
      (Programs.prepareStep owner taskId toolId toolVersion arguments idempotencyKey).bind
        fun _ => .ret ()
  | .claimStep stepId => (ask (.claimStep owner taskId stepId)).bind fun _ => .ret ()
  | .finishStep stepId result =>
      (Programs.finishStep owner taskId stepId result).bind fun _ => .ret ()
  | .markUncertain stepId errorType =>
      (ask (.markUncertain owner taskId stepId errorType)).bind fun _ => .ret ()
  | .addArtifact artifact =>
      (ask (.addArtifact { artifact with taskId := taskId })).bind fun _ => .ret ()
  | .bindAcceptance contract => (ask (.bindAcceptance taskId contract)).bind fun _ => .ret ()
  | .recordObservations observed =>
      (ask (.recordObservations taskId observed)).bind fun _ => .ret ()
  | .recordFinalEvidence artifactId =>
      (ask (.recordFinalEvidence taskId artifactId)).bind fun _ => .ret ()

/-- The payload, acceptance row, steps, routes and artifacts of a task are the same. -/
structure Database.SameRecord (db db' : Database) (taskId : String) : Prop where
  task : db'.tasks.get? taskId = db.tasks.get? taskId
  acceptance : db'.acceptance.get? taskId = db.acceptance.get? taskId
  steps : db'.stepsOf taskId = db.stepsOf taskId
  routes : db'.routesOf taskId = db.routesOf taskId
  artifacts : db'.artifactsOf taskId = db.artifactsOf taskId

omit [Platform] in
theorem Database.SameRecord.refl (db : Database) (taskId : String) : db.SameRecord db taskId :=
  ⟨rfl, rfl, rfl, rfl, rfl⟩

variable {db : Database} {fs : FileSystem}

end Writes

section TakeOver

local instance staleWritesTakeOver : Platform := .reference []

/-- A file that some process registers for the task. -/
def Sample.artifact : Artifact where
  artifactId := "artifact"
  taskId := "task"
  mediaType := "text/plain"
  path := "/work/report"
  checksumSha256 := ""
  producer := "first"
  provenance := []

end TakeOver

end Dante
