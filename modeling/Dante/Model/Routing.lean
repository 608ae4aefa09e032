import Dante.Model.Registry

/-! # Choosing among the registered models -/

namespace Dante

open Relational

/-! ## Policies -/

inductive ExecutionPolicy where
  | localOnly
  | localPreferred
  | cloudPreferred
  | cloudOnly
  | localFirst
  | cloudFirstWithLocalFallback
  | specificAllowedBackends
  deriving DecidableEq, Repr

structure ContinuityPolicy where
  mode : ExecutionPolicy
  allowedBackends : Finset String
  baseBackoffS : ℚ
  maxBackoffS : ℚ
  observationTtlS : ℚ
  windowS : ℚ
  maxRouteAttempts : ℕ
  base_pos : 0 < baseBackoffS
  ttl_pos : 0 < observationTtlS
  window_pos : 0 < windowS
  attempts_pos : 1 ≤ maxRouteAttempts
  attempts_le : maxRouteAttempts ≤ 100
  bounded_backoff : baseBackoffS ≤ maxBackoffS

/-! ## Routes -/

/-- A `RouteDecision` as the gateway receives it. -/
structure Route where
  taskId : String
  selectedModel : ModelRef
  candidates : List String
  reasons : List String
  policyVersion : String
  automaticCost : ℚ

/-- The decision as the ledger keeps it. -/
def Route.recorded (route : Route) (routeId : String) : RouteDecision :=
  ⟨routeId, route.taskId, route.selectedModel.modelId⟩

/-- `(first, logical_alias, model_id)`, compared lexicographically. -/
def routeOrder (first : ModelRef → Bool) (a b : ModelRef) : Prop :=
  first a < first b ∨ first a = first b ∧ (a.logicalAlias < b.logicalAlias ∨
    a.logicalAlias = b.logicalAlias ∧ a.modelId ≤ b.modelId)

instance (first : ModelRef → Bool) : DecidableRel (routeOrder first) :=
  fun _ _ => inferInstanceAs (Decidable (_ ∨ _ ∧ (_ ∨ _ ∧ _)))

structure RuleBasedRouter where
  registry : ModelRegistry
  policyVersion : String

variable [Platform]

/-- `except ValueError`: whether a check passed. -/
def passes (check : Except Exn Unit) : Except Exn Bool :=
  match check with
  | .ok () => .ok true
  | .error (.valueError _) => .ok false
  | .error e => .error e

/-- The tests of `decide` that come before `require_automatic`. -/
def ModelRef.eligible (model : ModelRef) (privacy : PrivacyDecision)
    (capabilities : Finset String) : Bool :=
  model.available && model.lifecycle.qualified &&
    (model.costClass == .zero || model.costClass == .localCompute && model.isLocal) &&
    capabilities ⊆ model.capabilities && privacy.classification ∈ model.privacyEligibility &&
    (privacy.cloudAllowed || model.isLocal)

/-- The policy excludes the model. -/
def ContinuityPolicy.refuses (policy : ContinuityPolicy) (model : ModelRef) : Bool :=
  policy.mode == .localOnly && !model.isLocal ||
    policy.mode == .cloudOnly && model.isLocal ||
    (policy.allowedBackends != ∅ && model.providerId ∉ policy.allowedBackends) ||
    policy.mode == .specificAllowedBackends && policy.allowedBackends == ∅

/-- `mode in {CLOUD_PREFERRED, CLOUD_FIRST_WITH_LOCAL_FALLBACK}`. -/
def ContinuityPolicy.cloudFirst (policy : ContinuityPolicy) : Bool :=
  policy.mode == .cloudPreferred || policy.mode == .cloudFirstWithLocalFallback

/-- `model.local_metadata.context_tokens if model.local_metadata else model.context_tokens`. -/
def ModelRef.capacity (model : ModelRef) : Option ℕ :=
  match model.localMetadata with
  | some metadata => metadata.contextTokens
  | none => model.contextTokens

/-- The model cannot hold the context that is asked for. -/
def ModelRef.tooSmall (model : ModelRef) (contextTokens : Option ℤ) : Bool :=
  contextTokens.any fun needed => model.capacity.all fun capacity => (capacity : ℤ) < needed

namespace RuleBasedRouter

/-- One round of the loop of `decide`. -/
def admits (router : RuleBasedRouter) (privacy : PrivacyDecision) (capabilities : Finset String)
    (model : ModelRef) : Except Exn Bool :=
  if model.eligible privacy capabilities then
    passes (router.registry.requireAutomatic model ("tool_calling" ∈ capabilities))
  else .ok false

/-- The loop of `decide`. -/
def survivors (router : RuleBasedRouter) (privacy : PrivacyDecision)
    (capabilities : Finset String) : List ModelRef → Except Exn (List ModelRef)
  | [] => .ok []
  | model :: rest => do
      let admitted ← router.admits privacy capabilities model
      let eligible ← survivors router privacy capabilities rest
      pure (if admitted then model :: eligible else eligible)

/-- `decide`. -/
def decide (router : RuleBasedRouter) (taskId : String) (privacy : PrivacyDecision)
    (capabilities : Finset String) : Except Exn Route := do
  require privacy.modelAllowed (.runtimeError "Privacy policy denies model access")
  let eligible ← router.survivors privacy capabilities router.registry.candidates
  match eligible.insertionSort (routeOrder fun model => !model.isLocal) with
  | [] => .error (.runtimeError "No zero-cost privacy-eligible model is available")
  | selected :: rest =>
      pure {
        taskId := taskId
        selectedModel := selected
        candidates := ((selected :: rest).filter (·.isLocal == selected.isLocal)).map (·.modelId)
        reasons := privacy.reasons ++ ["automatic_cost_zero",
          if selected.isLocal then "local_selected" else "cloud_free_selected"]
        policyVersion := router.policyVersion
        automaticCost := 0 }

/-- Why `continuity_candidates` denies a model; the static gates only. -/
def denial (router : RuleBasedRouter) (privacy : PrivacyDecision) (capabilities : Finset String)
    (policy : ContinuityPolicy) (contextTokens : Option ℤ) (model : ModelRef) :
    Except Exn (Option String) :=
  if !privacy.modelAllowed || privacy.classification ∉ model.privacyEligibility ||
      (!privacy.cloudAllowed && !model.isLocal) then .ok (some "privacy")
  else if policy.refuses model then .ok (some "user_policy")
  else if !(model.costClass == .zero || model.costClass == .localCompute) ||
      (!model.isLocal && (model.costClass != .zero || model.costVerification != .verifiedZero)) then
    .ok (some "cost_unverified_or_paid")
  else if !model.lifecycle.qualified then .ok (some "qualification")
  else if ¬capabilities ⊆ model.capabilities then .ok (some "capability")
  else if model.tooSmall contextTokens then .ok (some "context_capacity")
  else do
    -- Qualification does not depend on whether the model is switched on.
    let qualified ← passes (router.registry.requireAutomatic { model with available := true }
      ("tool_calling" ∈ capabilities))
    pure (if qualified then none else some "qualification_or_machine")

/-- The loop of `continuity_candidates`. -/
def sift (router : RuleBasedRouter) (privacy : PrivacyDecision) (capabilities : Finset String)
    (policy : ContinuityPolicy) (contextTokens : Option ℤ) :
    List ModelRef → Except Exn (List ModelRef × Dict String)
  | [] => .ok ([], [])
  | model :: rest => do
      let reason ← router.denial privacy capabilities policy contextTokens model
      let (eligible, denied) ← sift router privacy capabilities policy contextTokens rest
      match reason with
      | some reason => pure (eligible, (model.modelId, reason) :: denied)
      | none => pure (model :: eligible, denied)

/-- `continuity_candidates`. -/
def continuityCandidates (router : RuleBasedRouter) (privacy : PrivacyDecision)
    (capabilities : Finset String) (policy : ContinuityPolicy) (contextTokens : Option ℤ) :
    Except Exn (List ModelRef × Dict String) := do
  let (eligible, denied) ← router.sift privacy capabilities policy contextTokens
    router.registry.candidates
  pure (eligible.insertionSort (routeOrder fun model =>
    if policy.cloudFirst then model.isLocal else !model.isLocal), denied)

end RuleBasedRouter

end Dante
