import Dante.Library.Json
import Mathlib.Data.Finset.Sort
import Mathlib.Data.Rat.Defs
import Mathlib.Algebra.Order.Ring.Unbundled.Rat

/-! # The records that tasks, tools and workers exchange -/

namespace Dante

open JsonText

/-! ## What Python's library provides -/

/-- The parts of the standard library that the ledger relies on without describing them.
SHA-256 is taken to be collision free. -/
class Platform where
  /-- `hashlib.sha256(data).hexdigest()`. -/
  sha256 : ByteArray → String
  sha256_injective : Function.Injective sha256
  /-- `json.loads` of UTF-8 text; `none` is a `ValueError`. -/
  loads : ByteArray → Option Json
  /-- `float(text)`. -/
  floatValue : FloatText → ℚ
  /-- The text `json.dumps` writes for a float. -/
  floatText : ℚ → FloatText
  /-- `text.lower()`. -/
  lower : String → String
  /-- The order in which a set is written. -/
  setOrder : Finset String → List String
  mem_setOrder : ∀ s x, x ∈ setOrder s ↔ x ∈ s
  /-- `Path(path).relative_to(root)` does not raise. -/
  isRelativeTo : String → String → Bool
  /-- `str(Path(path))`. -/
  pathText : String → String
  /-- `Path(path).parts`. -/
  parts : String → List String
  /-- `Path(path).name`. -/
  name : String → String
  /-- `Path(path).is_absolute()`. -/
  isAbsolute : String → Bool
  /-- `str(Path(root) / path)`. -/
  join : String → String → String
  /-- `Path(path).parents`, as strings. -/
  parents : String → List String
  /-- `PureWindowsPath(path).parts`. -/
  windowsParts : String → List String
  /-- `PureWindowsPath(path).drive`. -/
  windowsDrive : String → String
  /-- The number of UTF-8 bytes `JSONEncoder.iterencode` yields before it meets an
  infinite or undefined float. -/
  encodedBefore : Json → ℕ
  /-- `_SECRET.search(content)`. -/
  searchSecret : String → Bool
  /-- `_CONFIDENTIAL.search(content)`. -/
  searchConfidential : String → Bool

/-- A Python dictionary with string keys, in insertion order. -/
abbrev Dict (α : Type) := List (String × α)

namespace Dict

variable {α : Type}

/-- `d[key] = value`. -/
def set : Dict α → String → α → Dict α
  | [], key, value => [(key, value)]
  | (k, v) :: rest, key, value =>
      if k = key then (k, value) :: rest else (k, v) :: set rest key value

/-- `d.pop(key, None)`. -/
def pop (d : Dict α) (key : String) : Dict α :=
  d.filter (fun f => f.1 ≠ key)

/-- `d.update(other)`. -/
def update (d other : Dict α) : Dict α :=
  other.foldl (fun d f => d.set f.1 f.2) d

/-- `==`: the same keys with the same values. -/
def same (a b : Dict String) : Bool :=
  a.all (fun f => b.lookup f.1 == some f.2) && b.all (fun f => a.lookup f.1 == some f.2)

end Dict

/-! ## Tasks -/

inductive PrivacyClass where
  | publicClass
  | internal
  | confidential
  | secret
  deriving DecidableEq, Repr

/-- `_RANK`. -/
def PrivacyClass.rank : PrivacyClass → ℕ
  | .publicClass => 0
  | .internal => 1
  | .confidential => 2
  | .secret => 3

inductive TaskStatus where
  | created
  | planned
  | running
  | waitingTool
  | waitingApproval
  | verifying
  | completed
  | failedRetryable
  | failedTerminal
  | cancelled
  deriving DecidableEq, Repr

def TaskStatus.value : TaskStatus → String
  | .created => "created"
  | .planned => "planned"
  | .running => "running"
  | .waitingTool => "waiting_tool"
  | .waitingApproval => "waiting_approval"
  | .verifying => "verifying"
  | .completed => "completed"
  | .failedRetryable => "failed_retryable"
  | .failedTerminal => "failed_terminal"
  | .cancelled => "cancelled"

/-- `TERMINAL`. -/
def TaskStatus.terminal : TaskStatus → Bool
  | .completed | .cancelled | .failedTerminal => true
  | _ => false

/-- `TRANSITIONS`. -/
def transitions : TaskStatus → List TaskStatus
  | .created => [.planned, .cancelled]
  | .planned => [.running, .cancelled]
  | .running =>
      [.waitingTool, .waitingApproval, .verifying, .failedRetryable, .failedTerminal, .cancelled]
  | .waitingTool => [.running, .failedRetryable, .failedTerminal, .cancelled]
  | .waitingApproval => [.running, .failedTerminal, .cancelled]
  | .verifying => [.cancelled, .completed, .failedRetryable, .failedTerminal]
  | .failedRetryable => [.running, .cancelled]
  | .completed => []
  | .failedTerminal => []
  | .cancelled => []

structure Task where
  taskId : String
  status : TaskStatus
  goal : String
  privacyClass : PrivacyClass
  selectedRoute : Option String
  workspace : String
  attempts : ℕ
  currentStep : Option String
  artifacts : List String
  checkpoint : Dict Json

structure Artifact where
  artifactId : String
  taskId : String
  mediaType : String
  path : String
  checksumSha256 : String
  producer : String
  provenance : Dict Json

/-- The chosen route. Of the selected model only its name reaches the ledger. -/
structure RouteDecision where
  routeId : String
  taskId : String
  selectedModel : String

/-! ## Acceptance -/

structure AcceptanceContract where
  requiredTools : Finset String
  requiredArtifacts : Finset String
  requiredFinalFields : Finset String
  instructions : Dict String
  deriving DecidableEq

/-- `AcceptanceContract()`. -/
def AcceptanceContract.default : AcceptanceContract where
  requiredTools := ∅
  requiredArtifacts := ∅
  requiredFinalFields := ∅
  instructions := []

structure ObservedAcceptance where
  tools : Finset String
  artifacts : Finset String
  finalFields : Dict String

/-- `ObservedAcceptance()`. -/
def ObservedAcceptance.default : ObservedAcceptance where
  tools := ∅
  artifacts := ∅
  finalFields := []

structure AcceptanceResult where
  acceptanceComplete : Bool
  missingChecks : List String
  missingArtifacts : List String
  missingFinalFields : List String

/-! ## Queued plans -/

structure Action where
  toolId : String
  named : toolId ≠ ""
  version : String
  arguments : Dict Json
  approvalId : Option String
  planHash : String

/-- A plan has between one and a thousand actions. -/
structure ExecutionPlan where
  actions : List Action
  acceptance : AcceptanceContract
  nonempty : 1 ≤ actions.length
  bounded : actions.length ≤ 1000

structure Lease where
  taskId : String
  workerId : String
  generation : ℕ
  deriving DecidableEq, Repr

/-! ## Tools -/

structure ToolManifest where
  toolId : String
  version : String
  permissions : Finset String
  risk : String
  filesystemScope : String
  networkScope : String
  secretAccess : String
  approvalPolicy : String
  timeoutS : ℕ
  outputLimitBytes : ℕ
  argumentsSchema : Option Json
  pathPermissions : Dict String

inductive ToolStatus where
  | success
  | validationDenied
  | policyDenied
  | approvalRequired
  | approvalInvalid
  | timeout
  | executionFailure
  | outputLimit
  | uncertain
  deriving DecidableEq, Repr

def ToolStatus.value : ToolStatus → String
  | .success => "success"
  | .validationDenied => "validation_denied"
  | .policyDenied => "policy_denied"
  | .approvalRequired => "approval_required"
  | .approvalInvalid => "approval_invalid"
  | .timeout => "timeout"
  | .executionFailure => "execution_failure"
  | .outputLimit => "output_limit_violation"
  | .uncertain => "reconciliation_required"

structure ToolResult where
  status : ToolStatus
  data : Option (Dict Json) := none
  effectUncertain : Bool := false
  errorType : Option String := none
  stepId : Option String := none

/-! ## Continuation outcomes and exceptions -/

inductive Disposition where
  | continueNow
  | retryLater
  | terminal
  deriving DecidableEq, Repr

structure ContinuityOutcome where
  disposition : Disposition
  reason : String
  nextAttemptAt : Option ℚ

/-- The exceptions of the modelled code. `valueError` includes pydantic's
`ValidationError` and `JSONDecodeError`, which are value errors in Python. -/
inductive Exn where
  | keyError (key : String)
  | valueError (message : String)
  | typeError (message : String)
  | attributeError (message : String)
  | runtimeError (message : String)
  | osError
  | integrityError
  | invalidTransition (message : String)
  | leaseLost
  | cancellationRequested
  | reconciliationRequired (message : String)
  | permissionError (message : String)
  | toolDenied (result : ToolResult)
  | continuitySignal (outcome : ContinuityOutcome)
  | foreign (name : String)

/-- Raise `e` unless `c` holds. -/
def require (c : Bool) (e : Exn) : Except Exn Unit :=
  if c then .ok () else .error e

@[simp] theorem require_eq_ok {c : Bool} {e : Exn} {u : Unit} :
    require c e = .ok u ↔ c = true := by
  cases c <;> simp [require]

/-- Run a check only under a condition. -/
def whenever (c : Bool) (x : Except Exn Unit) : Except Exn Unit :=
  if c then x else .ok ()

@[simp] theorem whenever_eq_ok {c : Bool} {x : Except Exn Unit} {u : Unit} :
    whenever c x = .ok u ↔ (c = true → x = .ok u) := by
  cases c <;> simp [whenever]

@[simp] theorem Except.pure_eq_ok {ε α : Type} {a b : α} :
    (pure a : Except ε α) = .ok b ↔ a = b := by
  simp [pure, Except.pure]

theorem Except.bind_eq_ok {ε α β : Type} {x : Except ε α} {f : α → Except ε β} {b : β} :
    (x >>= f) = .ok b ↔ ∃ a, x = .ok a ∧ f a = .ok b := by
  cases x with
  | error e => simp [bind, Except.bind]
  | ok a => simp [bind, Except.bind]

theorem Except.exists_of_isOk {ε α : Type} {x : Except ε α} (h : x.isOk = true) :
    ∃ a, x = .ok a := by
  cases x with
  | error e => cases h
  | ok a => exact ⟨a, rfl⟩

theorem Except.bind_eq_error {ε α β : Type} {x : Except ε α} {f : α → Except ε β} {e : ε} :
    (x >>= f) = .error e ↔ x = .error e ∨ ∃ a, x = .ok a ∧ f a = .error e := by
  cases x with
  | error e => simp [bind, Except.bind]
  | ok a => simp [bind, Except.bind]

@[simp] theorem require_eq_error {c : Bool} {e e' : Exn} :
    require c e = .error e' ↔ c = false ∧ e = e' := by
  cases c <;> simp [require]

/-- The value of an optional lookup, or an exception. -/
def orRaise {α : Type} (x : Option α) (e : Exn) : Except Exn α :=
  match x with
  | some a => .ok a
  | none => .error e

@[simp] theorem orRaise_eq_ok {α : Type} {x : Option α} {e : Exn} {a : α} :
    orRaise x e = .ok a ↔ x = some a := by
  cases x <;> simp [orRaise]

@[simp] theorem orRaise_eq_error {α : Type} {x : Option α} {e e' : Exn} :
    orRaise x e = .error e' ↔ x = none ∧ e = e' := by
  cases x <;> simp [orRaise]

end Dante
