import Dante.Library.JsonCompare
import Dante.Model.TaskQueue

/-! # Node evidence

Observations of a machine, a runtime and a model, and the evidence of a qualification run.
Unknown observations are `none`, never a default. -/

namespace Dante

open JsonText

/-! ## Field types -/

/-- `[A-Za-z0-9 ._()+-]`. -/
def isLabelChar (c : Char) : Bool :=
  c.isAlphanum || c ∈ [' ', '.', '_', '(', ')', '+', '-']

/-- `Label`. -/
def isLabel (s : String) : Bool :=
  match s.toList with
  | [] => false
  | c :: rest => c.isAlphanum && rest.all isLabelChar && rest.length < 160

/-- `Sha256`. -/
def isSha256 (s : String) : Bool :=
  s.length == 64 && s.toList.all fun c => c.isDigit || ('a' ≤ c && c ≤ 'f')

/-- `PositiveInt`. -/
def isPositive (n : ℤ) : Bool :=
  0 < n

/-- A field that may be `None`. -/
def optionally {α : Type} (valid : α → Bool) : Option α → Bool
  | none => true
  | some a => valid a

def dumpInt : Option ℤ → Json
  | none => .null
  | some n => .int n

/-- An aware datetime, with its ISO text. -/
structure AwareDatetime where
  instant : ℚ
  text : String

/-! ## The identity that is qualified -/

structure GPUProfile where
  slot : String
  vendor : String
  name : String
  vramBytes : Option ℤ
  computeCapability : Option String
  driverVersion : Option String

def GPUProfile.valid (gpu : GPUProfile) : Bool :=
  isLabel gpu.slot && isLabel gpu.vendor && isLabel gpu.name &&
    optionally isPositive gpu.vramBytes && optionally isLabel gpu.computeCapability &&
    optionally isLabel gpu.driverVersion

def GPUProfile.dump (gpu : GPUProfile) : Json :=
  .obj [("slot", .str gpu.slot), ("vendor", .str gpu.vendor), ("name", .str gpu.name),
    ("vram_bytes", dumpInt gpu.vramBytes),
    ("compute_capability", dumpOption gpu.computeCapability),
    ("driver_version", dumpOption gpu.driverVersion)]

/-- `gpus` is `none` when unprobed and `[]` when no GPU was found. -/
structure MachineProfile where
  nodeId : String
  os : String
  osVersion : String
  architecture : String
  cpu : Option String
  logicalCpus : Option ℤ
  physicalCores : Option ℤ
  ramBytes : Option ℤ
  gpus : Option (List GPUProfile)
  cudaRuntime : Option String
  cudaToolkit : Option String
  storageClass : Option String
  storageCapacityBytes : Option ℤ
  storageFreeBytes : Option ℤ
  observedAt : AwareDatetime
  probeVersion : String

/-- `consistent_inventory`. -/
def MachineProfile.consistentInventory (m : MachineProfile) : Bool :=
  (match m.physicalCores, m.logicalCpus with
    | some physical, some logical => physical ≤ logical
    | _, _ => true) &&
  optionally (fun gpus => decide (gpus.map GPUProfile.slot).Nodup) m.gpus &&
  (match m.storageFreeBytes, m.storageCapacityBytes with
    | some free, some capacity => free ≤ capacity
    | _, _ => true)

def MachineProfile.valid (m : MachineProfile) : Bool :=
  isLabel m.os && isLabel m.osVersion && isLabel m.architecture && optionally isLabel m.cpu &&
    optionally isPositive m.logicalCpus && optionally isPositive m.physicalCores &&
    optionally isPositive m.ramBytes && optionally (·.all GPUProfile.valid) m.gpus &&
    optionally isLabel m.cudaRuntime && optionally isLabel m.cudaToolkit &&
    optionally isLabel m.storageClass && optionally isPositive m.storageCapacityBytes &&
    optionally (fun free => decide (0 ≤ free)) m.storageFreeBytes && isLabel m.probeVersion &&
    m.consistentInventory

/-- The fields of the dump up to `cuda_toolkit`, with the GPUs in the given order. -/
def MachineProfile.dumpWith (m : MachineProfile) (gpus : Option (List GPUProfile)) : Dict Json :=
  [("node_id", .str m.nodeId), ("os", .str m.os), ("os_version", .str m.osVersion),
    ("architecture", .str m.architecture), ("cpu", dumpOption m.cpu),
    ("logical_cpus", dumpInt m.logicalCpus), ("physical_cores", dumpInt m.physicalCores),
    ("ram_bytes", dumpInt m.ramBytes),
    ("gpus", match gpus with
      | none => .null
      | some gpus => .arr (gpus.map GPUProfile.dump)),
    ("cuda_runtime", dumpOption m.cudaRuntime), ("cuda_toolkit", dumpOption m.cudaToolkit),
    ("storage_class", dumpOption m.storageClass),
    ("storage_capacity_bytes", dumpInt m.storageCapacityBytes)]

/-- `sorted(gpus, key=lambda gpu: gpu['slot'])`. -/
def sortedGPUs (gpus : List GPUProfile) : List GPUProfile :=
  gpus.insertionSort (fun a b => a.slot ≤ b.slot)

/-- `MachineProfile.identity_data`. -/
def MachineProfile.identityData (m : MachineProfile) : Dict Json :=
  m.dumpWith (m.gpus.map sortedGPUs) ++ [("probe_version", .str m.probeVersion)]

def MachineProfile.dump (m : MachineProfile) : Json :=
  .obj (m.dumpWith m.gpus ++
    [("storage_free_bytes", dumpInt m.storageFreeBytes),
      ("observed_at", .str m.observedAt.text), ("probe_version", .str m.probeVersion)])

structure RuntimeObservation where
  runtimeId : String
  runtime : String
  version : Option String
  backend : Option String
  binarySha256 : Option String
  configurationSha256 : Option String
  capabilities : List String
  modelInventory : List String
  observedAt : AwareDatetime
  probeVersion : String

def RuntimeObservation.valid (r : RuntimeObservation) : Bool :=
  isLabel r.runtimeId && isLabel r.runtime && optionally isLabel r.version &&
    optionally isLabel r.backend && optionally isSha256 r.binarySha256 &&
    optionally isSha256 r.configurationSha256 && r.capabilities.all isLabel &&
    r.modelInventory.all isLabel && isLabel r.probeVersion

/-- The fields of the dump up to `configuration_sha256`. -/
def RuntimeObservation.reported (r : RuntimeObservation) : Dict Json :=
  [("runtime_id", .str r.runtimeId), ("runtime", .str r.runtime), ("version", dumpOption r.version),
    ("backend", dumpOption r.backend), ("binary_sha256", dumpOption r.binarySha256),
    ("configuration_sha256", dumpOption r.configurationSha256)]

/-- `RuntimeObservation.identity_data`. -/
def RuntimeObservation.identityData (r : RuntimeObservation) : Dict Json :=
  r.reported ++ [("probe_version", .str r.probeVersion)]

def RuntimeObservation.dump (r : RuntimeObservation) : Json :=
  .obj (r.reported ++
    [("capabilities", .arr (r.capabilities.map .str)),
      ("model_inventory", .arr (r.modelInventory.map .str)),
      ("observed_at", .str r.observedAt.text), ("probe_version", .str r.probeVersion)])

/-- `SUITE_VERSION`. -/
def suiteVersion : String := "node0-v1"

structure QualificationIdentity where
  schemaVersion : ℤ
  suiteVersion : String
  machine : MachineProfile
  runtime : RuntimeObservation
  modelId : String
  artifactSha256 : Option String
  artifactKind : String
  quantization : Option String
  contextTokens : Option ℤ
  configurationSha256 : Option String

def QualificationIdentity.valid (i : QualificationIdentity) : Bool :=
  i.schemaVersion == 1 && isLabel i.suiteVersion && i.machine.valid && i.runtime.valid &&
    isLabel i.modelId && optionally isSha256 i.artifactSha256 &&
    (i.artifactKind == "file" || i.artifactKind == "runtime_manifest") &&
    optionally isLabel i.quantization && optionally isPositive i.contextTokens &&
    optionally isSha256 i.configurationSha256

/-- The versions that an identity was recorded under. -/
def QualificationIdentity.versions (i : QualificationIdentity) : Dict Json :=
  [("schema_version", .int i.schemaVersion), ("suite_version", .str i.suiteVersion)]

/-- What an identity says of the model. -/
def QualificationIdentity.modelFacts (i : QualificationIdentity) : Dict Json :=
  [("model_id", .str i.modelId), ("artifact_sha256", dumpOption i.artifactSha256),
    ("artifact_kind", .str i.artifactKind), ("quantization", dumpOption i.quantization),
    ("context_tokens", dumpInt i.contextTokens),
    ("configuration_sha256", dumpOption i.configurationSha256)]

/-- `QualificationIdentity.identity_data`. -/
def QualificationIdentity.identityData (i : QualificationIdentity) : Dict Json :=
  i.versions ++ i.modelFacts ++
    [("machine", .obj i.machine.identityData), ("runtime", .obj i.runtime.identityData)]

def QualificationIdentity.dump (i : QualificationIdentity) : Json :=
  .obj (i.versions ++ [("machine", i.machine.dump), ("runtime", i.runtime.dump)] ++ i.modelFacts)

/-- The values that stand for an unknown fact. -/
def isUnknownText (lower : String → String) : Option String → Bool
  | none => true
  | some s => lower s ∈ ["unknown", "unverified", "unqualified"]

section Facts

variable [Platform]

/-- `QualificationIdentity.fingerprint`. -/
def QualificationIdentity.fingerprint (i : QualificationIdentity) : Except Exn String :=
  digest (.obj i.identityData)

/-- `QualificationIdentity.scope`. -/
def QualificationIdentity.scope (i : QualificationIdentity) : Except Exn String :=
  digest (.arr [.str i.machine.nodeId, .str i.runtime.runtimeId, dumpOption i.runtime.backend,
    .str i.modelId])

/-- The names whose value is unknown, in order. -/
def unknownNames (facts : List (String × Bool)) : List String :=
  (facts.filter Prod.snd).map Prod.fst

/-- `QualificationIdentity.missing_facts`. -/
def QualificationIdentity.missingFacts (i : QualificationIdentity) : List String :=
  let unknown := isUnknownText Platform.lower
  unknownNames
    [("artifact_sha256", unknown i.artifactSha256), ("quantization", unknown i.quantization),
      ("context_tokens", i.contextTokens.isNone),
      ("configuration_sha256", unknown i.configurationSha256),
      ("runtime.version", unknown i.runtime.version),
      ("runtime.backend", unknown i.runtime.backend),
      ("runtime.configuration_sha256", unknown i.runtime.configurationSha256),
      ("machine.os", unknown (some i.machine.os)),
      ("machine.os_version", unknown (some i.machine.osVersion)),
      ("machine.architecture", unknown (some i.machine.architecture)),
      ("machine.cpu", unknown i.machine.cpu), ("machine.logical_cpus", i.machine.logicalCpus.isNone),
      ("machine.ram_bytes", i.machine.ramBytes.isNone), ("machine.gpus", i.machine.gpus.isNone)] ++
    unknownNames ((i.machine.gpus.getD []).map fun gpu =>
      ("gpu." ++ gpu.slot, gpu.vramBytes.isNone || unknown gpu.driverVersion)) ++
    unknownNames [("machine.cuda_runtime",
      i.runtime.backend == some "cuda" && unknown i.machine.cudaRuntime)]

end Facts

/-! ## The evidence of a run -/

inductive Check where
  | load
  | generation
  | structuredOutput
  | toolCalling
  | context
  | cancellation
  | timeout
  | runtimeFailure
  | recovery
  | stability
  deriving DecidableEq, Repr

def Check.value : Check → String
  | .load => "load"
  | .generation => "generation"
  | .structuredOutput => "structured_output"
  | .toolCalling => "tool_calling"
  | .context => "context"
  | .cancellation => "cancellation"
  | .timeout => "timeout"
  | .runtimeFailure => "runtime_failure"
  | .recovery => "recovery"
  | .stability => "stability"

/-- `Check`, in the order of its definition. -/
def Check.all : List Check :=
  [.load, .generation, .structuredOutput, .toolCalling, .context, .cancellation, .timeout,
    .runtimeFailure, .recovery, .stability]

/-- `REQUIRED_CHECKS`, in the order that `sorted` gives them. -/
def requiredChecks : List Check :=
  [.cancellation, .context, .generation, .load, .recovery, .runtimeFailure, .stability, .timeout]

inductive CheckOutcome where
  | passed
  | failed
  | unknown
  | unsupported
  deriving DecidableEq, Repr

def CheckOutcome.value : CheckOutcome → String
  | .passed => "passed"
  | .failed => "failed"
  | .unknown => "unknown"
  | .unsupported => "unsupported"

inductive CheckFailure where
  | assertionFailed
  | timeout
  | unavailable
  | invalidResponse
  | probeError
  deriving DecidableEq, Repr

def CheckFailure.value : CheckFailure → String
  | .assertionFailed => "assertion_failed"
  | .timeout => "timeout"
  | .unavailable => "unavailable"
  | .invalidResponse => "invalid_response"
  | .probeError => "probe_error"

structure CheckEvidence where
  check : Check
  outcome : CheckOutcome
  evidenceSha256 : Option String
  failure : Option CheckFailure
  durationS : Option ℚ

/-- `Measurement`: finite by its type. -/
def isMeasurement (x : ℚ) : Bool :=
  0 ≤ x

/-- The field checks of `CheckEvidence`, and `coherent_outcome`. -/
def CheckEvidence.valid (e : CheckEvidence) : Bool :=
  optionally isSha256 e.evidenceSha256 && optionally isMeasurement e.durationS &&
    (match e.outcome with
      | .passed => e.evidenceSha256.isSome && e.failure.isNone
      | .failed => e.failure.isSome
      | _ => true)

structure PerformanceEvidence where
  peakRamBytes : Option ℤ := none
  peakVramBytes : Option ℤ := none
  loadTimeS : Option ℚ := none
  promptTokensPerS : Option ℚ := none
  generationTokensPerS : Option ℚ := none
  peakTemperatureC : Option ℚ := none

def PerformanceEvidence.valid (p : PerformanceEvidence) : Bool :=
  optionally isPositive p.peakRamBytes && optionally isPositive p.peakVramBytes &&
    optionally isMeasurement p.loadTimeS && optionally isMeasurement p.promptTokensPerS &&
    optionally isMeasurement p.generationTokensPerS && optionally isMeasurement p.peakTemperatureC

inductive Phase where
  | intent
  | completed
  deriving DecidableEq, Repr

def Phase.value : Phase → String
  | .intent => "intent"
  | .completed => "completed"

inductive EvidenceSource where
  | synthetic
  | hardware
  deriving DecidableEq, Repr

def EvidenceSource.value : EvidenceSource → String
  | .synthetic => "synthetic"
  | .hardware => "hardware"

/-- `Literal['synthetic', 'hardware']`. -/
def EvidenceSource.ofText (s : String) : Option EvidenceSource :=
  if s = "synthetic" then some .synthetic else if s = "hardware" then some .hardware else none

/-- The fields of a qualification record. -/
structure QualificationFields where
  qualificationId : String
  attemptId : Option String
  phase : Phase
  identity : QualificationIdentity
  source : EvidenceSource
  checks : List CheckEvidence
  performance : PerformanceEvidence
  startedAt : AwareDatetime
  completedAt : Option AwareDatetime
  interrupted : Bool

/-- `coherent_run`. -/
def QualificationFields.coherentRun (f : QualificationFields) : Bool :=
  decide (f.checks.map CheckEvidence.check).Nodup &&
    optionally (fun t => decide (f.startedAt.instant ≤ t.instant)) f.completedAt &&
    !(f.phase == .intent && (f.completedAt.isSome || !f.checks.isEmpty))

/-! ## Dumps -/

section Dumps

variable [Platform]

/-- A measurement or a duration. -/
def dumpFloat : Option ℚ → Json
  | none => .null
  | some x => .float (Platform.floatText x)

def CheckEvidence.dump (e : CheckEvidence) : Json :=
  .obj [("check", .str e.check.value), ("outcome", .str e.outcome.value),
    ("evidence_sha256", dumpOption e.evidenceSha256),
    ("failure", dumpOption (e.failure.map CheckFailure.value)), ("duration_s", dumpFloat e.durationS)]

def PerformanceEvidence.dump (p : PerformanceEvidence) : Json :=
  .obj [("peak_ram_bytes", dumpInt p.peakRamBytes), ("peak_vram_bytes", dumpInt p.peakVramBytes),
    ("load_time_s", dumpFloat p.loadTimeS), ("prompt_tokens_per_s", dumpFloat p.promptTokensPerS),
    ("generation_tokens_per_s", dumpFloat p.generationTokensPerS),
    ("peak_temperature_c", dumpFloat p.peakTemperatureC)]

def QualificationFields.dump (f : QualificationFields) : Json :=
  .obj [("qualification_id", .str f.qualificationId), ("attempt_id", dumpOption f.attemptId),
    ("phase", .str f.phase.value), ("identity", f.identity.dump), ("source", .str f.source.value),
    ("checks", .arr (f.checks.map CheckEvidence.dump)), ("performance", f.performance.dump),
    ("started_at", .str f.startedAt.text),
    ("completed_at", dumpOption (f.completedAt.map AwareDatetime.text)),
    ("interrupted", .bool f.interrupted)]

end Dumps

/-- A validated record: an incoherent one cannot be built. -/
structure ModelQualification extends QualificationFields where
  identityValid : identity.valid = true
  checksValid : checks.all CheckEvidence.valid = true
  performanceValid : performance.valid = true
  coherent : toQualificationFields.coherentRun = true

end Dante
