import Dante.Model.Evidence

/-! # Models, their qualification, and the privacy gate -/

namespace Dante

open Relational

/-! ## Models -/

inductive CostClass where
  | zero
  | paid
  | localCompute
  | costUnverified
  deriving DecidableEq, Repr

inductive LifecycleState where
  | candidate
  | imported
  | verified
  | evaluated
  | tested
  | approved
  | production
  | retired
  deriving DecidableEq, Repr

/-- `lifecycle in {APPROVED, PRODUCTION}`. -/
def LifecycleState.qualified (state : LifecycleState) : Bool :=
  state == .approved || state == .production

inductive LicenseStatus where
  | unknown
  | unverified
  | verified
  | rejected
  deriving DecidableEq, Repr

inductive Qualification where
  | unverified
  | qualified
  | rejected
  deriving DecidableEq, Repr

inductive CostVerification where
  | costUnverified
  | verifiedZero
  deriving DecidableEq, Repr

structure LocalModelMetadata where
  exactIdentity : Option String
  runtimeReference : Option String
  localPath : Option String
  sha256 : Option String
  runtimeDigest : Option String
  format : Option String
  quantization : Option String
  contextTokens : Option ℕ
  toolUse : Option Bool
  licenseId : Option String
  licenseStatus : LicenseStatus
  machineProfiles : Finset String
  qualification : Qualification
  identityVerified : Bool
  identityLimitations : List String
  evalRefs : List String
  benchmarkRefs : List String
  deriving DecidableEq

structure ModelRef where
  modelId : String
  providerId : String
  logicalAlias : String
  version : String
  capabilities : Finset String
  costClass : CostClass
  privacyEligibility : Finset PrivacyClass
  available : Bool
  lifecycle : LifecycleState
  runtime : String
  isLocal : Bool
  localMetadata : Option LocalModelMetadata
  contextTokens : Option ℕ
  costVerification : CostVerification
  deriving DecidableEq

instance : Keyed ModelRef String := ⟨ModelRef.modelId⟩

/-! ## The registry -/

/-- The capital letters of a character, as far as `UNKNOWN` and `UNVERIFIED` are made of them:
besides the ASCII letters only two characters have such capitals. -/
def capitals (c : Char) : List Char :=
  if c = 'ı' then ['I'] else if c = 'ﬁ' then ['F', 'I'] else [c.toUpper]

/-- `text.upper() in {'UNKNOWN','UNVERIFIED'}`. -/
def namesNothing (text : String) : Bool :=
  let upper := text.toList.flatMap capitals
  upper == "UNKNOWN".toList || upper == "UNVERIFIED".toList

/-- `not value`, for an optional text. -/
def absent (value : Option String) : Bool :=
  value.all (· == "")

/-- The models by id, in the order they were given. The files are those the local models are
stored in, as they are while the registry is used. -/
structure ModelRegistry where
  machineProfile : String
  qualificationGate : Option (ModelRef → Bool → Except Exn Unit)
  models : Table ModelRef
  files : FileSystem

/-- The metadata of a model that `require_automatic` accepts. -/
def LocalModelMetadata.admissible (metadata : LocalModelMetadata) (model : ModelRef)
    (machineProfile : String) (toolUse : Bool) : Bool :=
  metadata.qualification == .qualified && model.lifecycle.qualified && model.available &&
    metadata.identityVerified && !absent metadata.exactIdentity &&
    !metadata.exactIdentity.any namesNothing && !absent metadata.runtimeReference &&
    !metadata.evalRefs.isEmpty && metadata.licenseStatus == .verified &&
    !absent metadata.licenseId && !metadata.licenseId.any namesNothing &&
    metadata.contextTokens.isSome && machineProfile ∈ metadata.machineProfiles &&
    !(toolUse && (metadata.toolUse != some true || "tool_calling" ∉ model.capabilities))

variable [Platform]

namespace ModelRegistry

/-- `candidates`. -/
def candidates (registry : ModelRegistry) : List ModelRef :=
  registry.models.rows

/-- `get`. -/
def get (registry : ModelRegistry) (modelId : String) : Except Exn ModelRef :=
  orRaise (registry.models.get? modelId) (.keyError modelId)

/-- A stored model has the recorded digest. -/
def verifyFile (registry : ModelRegistry) (path : String) (sha256 : Option String) :
    Except Exn Unit :=
  match given sha256 with
  | none => .error (.valueError "Local model digest mismatch")
  | some expected =>
      match fileDigest registry.files path with
      | .ok actual => require (actual == expected) (.valueError "Local model digest mismatch")
      | .error .osError => .error (.valueError "Local model artifact unavailable")
      | .error e => .error e

/-- `verify_identity`. -/
def verifyIdentity (registry : ModelRegistry) (model : ModelRef) : Except Exn Unit := do
  let metadata ← orRaise model.localMetadata (.valueError "Missing local model identity")
  require (!absent metadata.exactIdentity && !absent metadata.runtimeReference)
    (.valueError "Missing local model identity")
  match metadata.localPath with
  | some path => registry.verifyFile path metadata.sha256
  | none =>
      require (!metadata.identityLimitations.isEmpty && metadata.identityVerified)
        (.valueError "Runtime-managed identity needs verification and explicit limitations")

/-- `require_automatic`. -/
def requireAutomatic (registry : ModelRegistry) (model : ModelRef) (toolUse : Bool) :
    Except Exn Unit :=
  if !model.isLocal then .ok ()
  else do
    require (model.localMetadata.any
        (fun metadata => metadata.admissible model registry.machineProfile toolUse))
      (.valueError "Local model is not qualified for automatic use")
    match registry.qualificationGate with
    | some gate => gate model toolUse
    | none => pure ()
    registry.verifyIdentity model

end ModelRegistry

/-! ## The privacy gate -/

structure PrivacyDecision where
  classification : PrivacyClass
  cloudAllowed : Bool
  modelAllowed : Bool
  reasons : List String

structure PrivacyGate where
  allowInternalCloud : Bool

/-- `PrivacyGate.classify`. -/
def PrivacyGate.classify (gate : PrivacyGate) (content : String) (declared : PrivacyClass) :
    PrivacyDecision :=
  match Dante.classify content declared with
  | .secret => ⟨.secret, false, false, ["secret_model_access_denied", "cloud_denied"]⟩
  | .confidential => ⟨.confidential, false, true, ["confidential_cloud_denied"]⟩
  | .internal => ⟨.internal, gate.allowInternalCloud, true, ["local_preferred",
      if gate.allowInternalCloud then "cloud_policy_allowed" else "cloud_denied"]⟩
  | .publicClass => ⟨.publicClass, true, true, ["public_cloud_allowed"]⟩

@[simp] theorem PrivacyGate.classify_classification (gate : PrivacyGate) (content : String)
    (declared : PrivacyClass) :
    (gate.classify content declared).classification = Dante.classify content declared := by
  unfold PrivacyGate.classify
  split <;> simp_all

/-- Only secrets are kept from every model. -/
theorem PrivacyGate.classify_modelAllowed (gate : PrivacyGate) (content : String)
    (declared : PrivacyClass) : (gate.classify content declared).modelAllowed = true ↔
      Dante.classify content declared ≠ .secret := by
  unfold PrivacyGate.classify
  split <;> simp_all

end Dante
