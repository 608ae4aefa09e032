import Dante.Library.RelyGuarantee
import Dante.Model.QualificationRecords
import Dante.Model.Registry

/-! # Node qualification

Evidence accounting: the assessment of a record, the append-only store, and the runner. -/

namespace Dante

open JsonText Relational Concurrent

/-- `changed_inputs`. -/
def changedInputs (before current : QualificationIdentity) : List String :=
  differences "" before.identityData current.identityData

/-! ## Assessment -/

inductive QualificationState where
  | unknown
  | qualified
  | failed
  | stale
  deriving DecidableEq, Repr

structure QualificationAssessment where
  state : QualificationState
  reasons : List String
  measuredCapabilities : List Check

/-- The checks with a passed result. -/
def passedChecks (checks : List CheckEvidence) : List Check :=
  (checks.filter (fun e => e.outcome = .passed)).map CheckEvidence.check

/-- `sorted(passed)`. -/
def sortedChecks (checks : List Check) : List Check :=
  checks.insertionSort (fun a b => a.value ≤ b.value)

/-- What failed in a run. -/
def QualificationFields.failures (f : QualificationFields) : List String :=
  (f.checks.filter (fun e => e.outcome = .failed)).map (fun e => "failed:" ++ e.check.value) ++
    if f.interrupted then ["probe_interrupted"] else []

section Assess

variable [Platform]

/-- What a run that did not fail leaves open for the current identity. -/
def QualificationFields.doubts (f : QualificationFields) (current : QualificationIdentity) :
    List String :=
  (requiredChecks.filter (· ∉ passedChecks f.checks)).map (fun c => "missing:" ++ c.value) ++
    current.missingFacts.map (fun name => "identity_unknown:" ++ name) ++
    (if f.completedAt.isNone then ["run_incomplete"] else []) ++
    (if current.suiteVersion ≠ suiteVersion then ["unsupported_suite"] else []) ++
    if f.source ≠ .hardware then ["synthetic_evidence_only"] else []

/-- `assess`. -/
def assess (record : ModelQualification) (current : QualificationIdentity) :
    QualificationAssessment :=
  let changed := changedInputs record.identity current
  if changed ≠ [] then ⟨.stale, changed.map (fun key => "changed:" ++ key), []⟩
  else if record.failures ≠ [] then ⟨.failed, record.failures, []⟩
  else
    let doubts := record.doubts current
    ⟨if doubts ≠ [] then .unknown else .qualified, doubts,
      sortedChecks (passedChecks record.checks)⟩

end Assess

/-! ## The store -/

/-- A row of `model_qualifications`, in the order of `sequence`. -/
structure QualificationRow where
  qualificationId : String
  nodeId : String
  scope : String
  payload : ModelQualification
  payloadDigest : String

instance : Keyed QualificationRow String := ⟨QualificationRow.qualificationId⟩

/-- The table `model_qualifications`. -/
structure QualificationStore where
  rows : Table QualificationRow

section Store

variable [Platform]

/-- `QualificationStore.append`. A valid record reads back as it is. -/
def QualificationStore.append (record : ModelQualification) (store : QualificationStore) :
    Except Exn (Unit × QualificationStore) := do
  let scope ← record.identity.scope
  let payloadDigest ← digest record.dump
  let rows ← orRaise (store.rows.insert
    ⟨record.qualificationId, record.identity.machine.nodeId, scope, record, payloadDigest⟩)
    .integrityError
  pure ((), ⟨rows⟩)

/-- `_read`. -/
def QualificationRow.read (row : QualificationRow) : Except Exn ModelQualification := do
  let actual ← digest row.payload.dump
  let scope ← row.payload.identity.scope
  require (actual == row.payloadDigest && row.payload.qualificationId == row.qualificationId &&
      row.payload.identity.machine.nodeId == row.nodeId && scope == row.scope)
    (.valueError "Qualification evidence integrity failed")
  pure row.payload

/-- `latest`: `WHERE scope=? ORDER BY sequence DESC LIMIT 1`. -/
def QualificationStore.latest (store : QualificationStore) (current : QualificationIdentity) :
    Except Exn (Option ModelQualification) := do
  let scope ← current.scope
  match (store.rows.rows.filter (fun row => row.scope == scope)).getLast? with
  | none => pure none
  | some row => do
      let record ← row.read
      pure (some record)

/-- `status`. -/
def QualificationStore.status (store : QualificationStore) (current : QualificationIdentity) :
    Except Exn QualificationAssessment := do
  let latest ← store.latest current
  match latest with
  | some record => pure (assess record current)
  | none => pure ⟨.unknown, ["no_evidence"], []⟩

/-- `require_qualified`. -/
def QualificationStore.requireQualified (store : QualificationStore)
    (current : QualificationIdentity) (toolUse : Bool) : Except Exn Unit := do
  let result ← store.status current
  require (result.state = .qualified &&
      !(toolUse && !result.measuredCapabilities.contains .toolCalling))
    (.valueError "Current node/model tuple is not qualified")

/-- The gate of a registry that asks the store; `current` observes the node of a model. -/
structure NodeQualificationGate where
  store : QualificationStore
  current : ModelRef → Except Exn QualificationIdentity

/-- The artifact that the metadata of a model names. -/
def LocalModelMetadata.artifact (metadata : LocalModelMetadata) (artifactKind : String) :
    Option String :=
  if artifactKind == "file" then metadata.sha256 else metadata.runtimeDigest

/-- The identity is that of the model. -/
def QualificationIdentity.describes (identity : QualificationIdentity) (model : ModelRef) : Bool :=
  model.localMetadata.any fun metadata =>
    identity.modelId == model.modelId && identity.runtime.runtimeId == model.providerId &&
      identity.runtime.runtime == model.runtime &&
      (metadata.artifact identity.artifactKind).isSome &&
      identity.artifactSha256 == metadata.artifact identity.artifactKind &&
      identity.quantization == metadata.quantization &&
      identity.contextTokens == metadata.contextTokens.map Int.ofNat

/-- `__call__`. -/
def NodeQualificationGate.check (gate : NodeQualificationGate) (model : ModelRef) (toolUse : Bool) :
    Except Exn Unit := do
  let identity ← gate.current model
  require (identity.describes model) (.valueError "Qualification identity does not match model")
  gate.store.requireQualified identity toolUse

end Store

/-! ## The runner -/

/-- What a run asks of its probe, of the clock and of the store. Whatever the probe raises as an
`Exception` is an error reply; anything worse ends the process. -/
inductive QualificationStep where
  | observe
  | source
  | run (check : Check)
  | performance
  | utcNow
  | uuid4
  | append (record : ModelQualification)

def QualificationStep.Reply : QualificationStep → Type
  | .observe => QualificationIdentity
  | .source | .uuid4 => String
  | .run _ => CheckEvidence
  | .performance => PerformanceEvidence
  | .utcNow => AwareDatetime
  | .append _ => Unit

/-- How the probe behaves in one request, the clock, and the next random id. -/
structure ProbeBehaviour where
  observe : Except Exn QualificationIdentity
  source : Except Exn String
  run : Check → Except Exn CheckEvidence
  performance : Except Exn PerformanceEvidence
  utcNow : AwareDatetime
  uuid4 : String

section Runner

variable [Platform]

/-- Commit the store of an insertion that succeeded. -/
def QualificationStore.commit {α : Type} (store : QualificationStore)
    (x : Except Exn (α × QualificationStore)) : Except Exn α × QualificationStore :=
  match x with
  | .ok (a, store') => (.ok a, store')
  | .error e => (.error e, store)

def qualify (env : ProbeBehaviour) (r : QualificationStep) (store : QualificationStore) :
    Except Exn r.Reply × QualificationStore :=
  match r with
  | .observe => (env.observe, store)
  | .source => (env.source, store)
  | .run check => (env.run check, store)
  | .performance => (env.performance, store)
  | .utcNow => (.ok env.utcNow, store)
  | .uuid4 => (.ok env.uuid4, store)
  | .append record => store.commit (store.append record)

/-- The store, shared by any number of runs. -/
abbrev qualificationMachine : Machine QualificationStep.Reply Exn where
  State := QualificationStore
  Env := ProbeBehaviour
  perform := qualify
  drift := fun _ _ => False

abbrev QualificationProg (α : Type) : Type :=
  Program QualificationStep.Reply Exn α

/-- One step of a run. -/
abbrev inquire (r : QualificationStep) : QualificationProg r.Reply :=
  Program.call r

/-- Validation of a model that the probe handed over. -/
def validated {α : Type} (valid : α → Bool) (a : α) : Except Exn {a : α // valid a = true} :=
  if h : valid a = true then .ok ⟨a, h⟩ else .error (.valueError "validation error")

namespace QualificationRunner

/-- The outcome of a part of a run, whether it returned or raised an `Exception`. -/
def attempt {α : Type} (p : QualificationProg α) : QualificationProg (Except Exn α) :=
  (p.bind fun a => .ret (.ok a)).except fun e => .ret (.error e)

/-- The evidence of one check. -/
def evidence (check : Check) : QualificationProg {e : CheckEvidence // e.valid = true} := do
  let raw ← inquire (.run check)
  let e ← Program.ofExcept (validated CheckEvidence.valid raw)
  if e.1.check = check then pure e else .raise (.valueError "Mismatched check evidence")

/-- Evidence that has been validated. -/
abbrev Checked := List {e : CheckEvidence // e.valid = true}

/-- `for check in Check`: what was gathered, and whether the loop went to its end. -/
def runChecks : List Check → Checked → QualificationProg (Checked × Bool)
  | [], gathered => .ret (gathered, true)
  | check :: rest, gathered => do
      match ← attempt (evidence check) with
      | .ok e => runChecks rest (gathered ++ [e])
      | .error _ => pure (gathered, false)

/-- What the `try` block leaves behind. -/
structure Measured where
  checks : Checked
  performance : {p : PerformanceEvidence // p.valid = true}
  interrupted : Bool

/-- The `try` block of `run`. -/
def measure (identity : QualificationIdentity) : QualificationProg Measured := do
  let (checks, ended) ← runChecks Check.all []
  if ended then
    match ← attempt (do
      let raw ← inquire .performance
      Program.ofExcept (validated PerformanceEvidence.valid raw)) with
    | .error _ => pure ⟨checks, ⟨{}, rfl⟩, true⟩
    | .ok performance =>
        match ← attempt (inquire .observe) with
        | .error _ => pure ⟨checks, performance, true⟩
        | .ok observed => pure ⟨checks, performance, changedInputs identity observed ≠ []⟩
  else pure ⟨checks, ⟨{}, rfl⟩, true⟩

/-- `ModelQualification(...)`. -/
def build (f : QualificationFields) (hidentity : f.identity.valid = true)
    (hchecks : f.checks.all CheckEvidence.valid = true)
    (hperformance : f.performance.valid = true) : Except Exn ModelQualification :=
  if h : f.coherentRun = true then .ok ⟨f, hidentity, hchecks, hperformance, h⟩
  else .error (.valueError "validation error")

/-- The intent that a run appends first. -/
def intentFields (qualificationId attemptId : String)
    (identity : {i : QualificationIdentity // i.valid = true}) (source : EvidenceSource)
    (started : AwareDatetime) : QualificationFields where
  qualificationId := qualificationId
  attemptId := some attemptId
  phase := .intent
  identity := identity.1
  source := source
  checks := []
  performance := {}
  startedAt := started
  completedAt := none
  interrupted := false

/-- The record that a run appends last. -/
def completedFields (qualificationId : String) (intent : ModelQualification) (measured : Measured)
    (completed : AwareDatetime) : QualificationFields where
  qualificationId := qualificationId
  attemptId := intent.attemptId
  phase := .completed
  identity := intent.identity
  source := intent.source
  checks := measured.checks.map Subtype.val
  performance := measured.performance.1
  startedAt := intent.startedAt
  completedAt := some completed
  interrupted := measured.interrupted

omit [Platform] in
theorem checks_valid (checks : Checked) :
    (checks.map Subtype.val).all CheckEvidence.valid = true := by
  rw [List.all_map, List.all_eq_true]
  exact fun e _ => e.2

/-- The part of `run` up to the intent. -/
def begin : QualificationProg ModelQualification := do
  let raw ← inquire .observe
  let identity ← Program.ofExcept (validated QualificationIdentity.valid raw)
  let started ← inquire .utcNow
  let attemptId ← inquire .uuid4
  let qualificationId ← inquire .uuid4
  let text ← inquire .source
  let source ← Program.ofExcept
    (orRaise (EvidenceSource.ofText text) (.valueError "validation error"))
  let intent ← Program.ofExcept
    (build (intentFields qualificationId attemptId identity source started) identity.2 rfl rfl)
  inquire (.append intent)
  pure intent

/-- The part of `run` after the `try` block. -/
def conclude (intent : ModelQualification) (measured : Measured) :
    QualificationProg ModelQualification := do
  let qualificationId ← inquire .uuid4
  let completed ← inquire .utcNow
  let record ← Program.ofExcept
    (build (completedFields qualificationId intent measured completed) intent.identityValid
      (checks_valid measured.checks) measured.performance.2)
  inquire (.append record)
  pure record

/-- `QualificationRunner.run`. -/
def run : QualificationProg ModelQualification := do
  let intent ← begin
  let measured ← measure intent.identity
  conclude intent measured

end QualificationRunner

end Runner

end Dante
