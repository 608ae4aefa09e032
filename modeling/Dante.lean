import Dante.Library.JsonText
import Dante.Library.RelyGuarantee
import Dante.Library.Evaluation
import Dante.Library.Credit
import Dante.Model.Worker
import Dante.Model.Reference
import Dante.Verification.Gates
import Dante.Verification.Budget
import Dante.Verification.Cooldown
import Dante.Verification.Rounds
import Dante.Verification.Completion
import Dante.Verification.StaleWrites
import Dante.Verification.Authorization
import Dante.Verification.Frozen
import Dante.Verification.Reconciliation
import Dante.Library.Replay
import Dante.Verification.Audit
import Dante.Verification.StepTrail
import Dante.Verification.Runnable
import Dante.Verification.Consistency
import Dante.Library.JsonCompare
import Dante.Model.Qualification
import Dante.Verification.Qualified
import Dante.Model.ArtifactStore
import Dante.Verification.Blobs
import Dante.Library.Regex
import Dante.Model.SecretPattern
import Dante.Verification.Secrets
import Dante.Library.Within
import Dante.Verification.Terminal
import Dante.Verification.Digest
import Dante.Verification.StepIdentity
import Dante.Verification.SchemaDialect
import Dante.Library.StableSort
import Dante.Verification.Routers
import Dante.Library.Ends
import Dante.Library.Cleaning
import Dante.Library.JsonDocument
import Dante.Library.JsonSize
import Dante.Library.PyPlaces
import Dante.Library.PyRepr
import Dante.Library.Uuid
import Dante.Model.Adapters
import Dante.Model.NodeIdentity
import Dante.Model.Telemetry
import Dante.Model.WorkspaceTools
import Dante.Verification.Answers
import Dante.Verification.Attempt
import Dante.Verification.Conversations
import Dante.Verification.Dispositions
import Dante.Verification.Merging
import Dante.Verification.NullFields
import Dante.Verification.OneIdentity
import Dante.Verification.Outcomes
import Dante.Verification.OutputLimit
import Dante.Verification.Redaction
import Dante.Verification.RoundTrip
import Dante.Verification.Staleness
import Dante.Verification.TouchedPath
import Dante.Verification.Translation
import Dante.Library.Agreement
import Dante.Model.Migrations
import Dante.Verification.Migration
import Dante.Verification.AtWork
import Dante.Verification.PlannedAction
import Dante.Verification.WorkerRuns
import Dante.Verification.PlanOrder
import Dante.Verification.Takeover
