import Dante.Model.Continuity

/-! # The gateway, the continuity manager, and a host's call of them -/

namespace Dante

open JsonText Relational Concurrent Program
open Inference (Message)

variable [Platform]

/-! ## Records -/

structure InferenceGateway where
  registry : ModelRegistry
  adapters : Table Adapter

structure ContinuityManager where
  router : RuleBasedRouter
  gateway : InferenceGateway
  policy : ContinuityPolicy

/-- The parts of `AgentHostFoundation` that `infer` uses. -/
structure InferenceHost where
  privacy : PrivacyGate
  router : RuleBasedRouter
  gateway : InferenceGateway
  continuity : Option ContinuityManager

/-- The arguments of `ContinuityManager.infer`. -/
structure InferenceCall where
  task : Task
  privacy : PrivacyDecision
  messages : List Message
  capabilities : Finset String
  tools : List ToolDefinition
  contextTokens : Option ℤ

/-- `ContinuityOutcome`, with its response. -/
structure InferenceOutcome where
  disposition : Disposition
  reason : String
  response : Option InferenceResponse
  nextAttemptAt : Option ℚ

/-- `capabilities | ({'tool_calling'} if tools else set())`. -/
def requested (capabilities : Finset String) (tools : List ToolDefinition) : Finset String :=
  if tools.isEmpty then capabilities else insert "tool_calling" capabilities

/-- The provider's adapter, if it is there and free of charge. -/
def InferenceGateway.freeAdapter (gateway : InferenceGateway) (model : ModelRef) : Option Adapter :=
  (gateway.adapters.get? model.providerId).filter (·.automaticCost = 0)

/-- The adapter `infer` tries a candidate with, unless it passes the candidate over. -/
def InferenceGateway.adapterFor (gateway : InferenceGateway) (route : Route) (model : ModelRef) :
    Option Adapter :=
  if model.isLocal != route.selectedModel.isLocal then none
  else if !(model.costClass == .zero || model.costClass == .localCompute && model.isLocal) then none
  else gateway.freeAdapter model

/-- What the gateway demands of a reply. -/
def checkReply (model : ModelRef) (response : InferenceResponse) : Except Fault Unit :=
  if response.model ≠ model then
    .error (.inference
      { cls := .invalidResponse, message := "Inference adapter returned a mismatched model" })
  else if response.cost.any (· ≠ 0) then
    .error (.inference { cls := .policyDenied, message := "Non-zero inference cost rejected" })
  else .ok ()

/-! ## Errors -/

/-- The table of `classify`: reason, operational state, retryable. -/
def classifications : List (ErrorClass × String × Option BackendState × Bool) :=
  [(.quotaExhausted, "quota_exhausted", some .quotaExhausted, true),
    (.rateQuotaUnavailable, "rate_limit", some .rateLimited, true),
    (.inferenceTimeout, "timeout", some .degraded, true),
    (.adapterUnavailable, "unavailable", some .unavailable, true),
    (.contextExceeded, "context_exceeded", none, false),
    (.invalidRequest, "invalid_request", none, false),
    (.invalidResponse, "invalid_response", some .degraded, true),
    (.qualificationDenied, "qualification_denied", none, false),
    (.configurationDenied, "configuration_denied", none, false),
    (.policyDenied, "policy_denied", none, false)]

/-- `classify`. -/
def classifyError (error : InferenceError) : String × Option BackendState × Bool :=
  match classifications.find? (fun row => error.cls.isA row.1) with
  | some row => row.2
  | none => ("unclassified_inference_error", none, false)

/-- The delay after a failure that followed `failures` others. -/
def ContinuityPolicy.backoff (policy : ContinuityPolicy) (failures : ℕ) : ℚ :=
  min policy.maxBackoffS (policy.baseBackoffS * 2 ^ min failures 30)

/-- How long a backend rests after a failure at `now`. -/
def ContinuityPolicy.restsUntil (policy : ContinuityPolicy) (failures : ℕ) (error : InferenceError)
    (now : ℚ) : ℚ :=
  let resumes := now + max (policy.backoff failures) (error.retryAfter.getD 0)
  error.retryAt.elim resumes (max resumes)

/-- The reasons `observe` accepts. -/
def backendReasons : List String :=
  ["available", "degraded", "rate_limit", "rate_limited", "quota_exhausted", "unavailable",
    "cooldown", "unknown", "timeout", "invalid_response"]

/-! ## Health -/

/-- What the health of a backend means for a candidate. -/
inductive Health where
  | usable
  | denied (reason : String) (retryAt : ℚ) (cooldown : Option String)

/-- The tests of a candidate's observation. -/
def health (policy : ContinuityPolicy) (now : ℚ) (model : ModelRef) :
    Option BackendObservation → Health
  | none =>
      if model.available then .denied "health_unknown" (now + policy.baseBackoffS) none
      else .denied "administratively_unavailable" (now + policy.baseBackoffS) none
  | some row =>
      if !model.available then
        .denied "administratively_unavailable" (now + policy.baseBackoffS) none
      else if row.state = .unknown then
        .denied "health_unknown" (now + policy.baseBackoffS) none
      else
        match row.cooldownUntil with
        | some resumes =>
            if now < resumes then .denied "cooldown" resumes (some row.reason) else .usable
        | none =>
            if !(row.state == .available || row.state == .degraded) ||
                policy.observationTtlS < now - row.observedAt then
              .denied "health_unavailable_or_stale" (now + policy.baseBackoffS) none
            else .usable

/-- What one look at the candidates has found. -/
structure Scan where
  usable : List ModelRef
  retryDates : List ℚ
  cooldownReasons : List String
  denied : Dict String

def Scan.deny (found : Scan) (model : ModelRef) (reason : String) : Scan :=
  { found with denied := found.denied.set model.modelId reason }

def Scan.judge (found : Scan) (model : ModelRef) : Health → Scan
  | .usable => { found with usable := found.usable ++ [model] }
  | .denied reason retryAt cooldown =>
      { found.deny model reason with
        retryDates := found.retryDates ++ [retryAt]
        cooldownReasons := found.cooldownReasons ++ cooldown.toList }

/-- Why no route is usable now, although some may be later. -/
def Scan.waiting (found : Scan) : String :=
  if found.cooldownReasons.toFinset = {"quota_exhausted"} then "provider_quota_cooldown"
  else if found.cooldownReasons.toFinset = {"rate_limit"} then "provider_rate_limit_cooldown"
  else "routes_temporarily_unavailable"

/-! ## Programs -/

/-- The state of the loop of `ContinuityManager.infer`: it returns, or goes round again. -/
inductive Round where
  | done (outcome : InferenceOutcome)
  | again (excluded : Dict String) (previous : Option String)

namespace Programs

/-- A computation of the code around inference. -/
def attempt {α : Type} (x : Except Exn α) : InferenceProg α :=
  ofExcept (faulty x)

/-- The loop of `InferenceGateway.infer`. -/
def tryCandidates (gateway : InferenceGateway) (route : Route) (request : InferenceRequest) :
    List String → ℕ → Option InferenceError → InferenceProg InferenceResponse
  | [], _, some lastError => .raise (.inference lastError)
  | [], _, none => .raise (.inference
      { cls := .policyDenied, message := "No eligible inference adapter" })
  | modelId :: rest, index, lastError => do
      let model ← attempt (gateway.registry.get modelId)
      match gateway.adapterFor route model with
      | none => tryCandidates gateway route request rest (index + 1) lastError
      | some adapter => do
          let qualified ← attempt
            (passes (gateway.registry.requireAutomatic model (!request.tools.isEmpty)))
          if !qualified then
            .raise (.inference
              { cls := .qualificationDenied, message := "Local model qualification failed" })
          else
            .request (.complete adapter { request with model := model }) fun
              | .ok response => do
                  let _ ← ofExcept (checkReply model response)
                  pure { response with fallback := 0 < index }
              | .error (.inference error) =>
                  if error.cls.isA .adapterUnavailable then
                    tryCandidates gateway route request rest (index + 1) (some error)
                  else .raise (.inference error)
              | .error e => .raise e

/-- `InferenceGateway.infer`. -/
def gatewayInfer (gateway : InferenceGateway) (route : Route) (request : InferenceRequest) :
    InferenceProg InferenceResponse :=
  if request.model ≠ route.selectedModel then
    .raise (.inference { cls := .policyDenied, message := "Request model does not match route" })
  else if request.taskId.any (· ≠ route.taskId) then
    .raise (.inference { cls := .policyDenied, message := "Request metadata does not match route" })
  else tryCandidates gateway route request route.candidates 0 none

/-- `infer_once`. -/
def inferOnce (gateway : InferenceGateway) (route : Route) (request : InferenceRequest) :
    InferenceProg InferenceResponse :=
  if route.candidates ≠ [route.selectedModel.modelId] then
    .raise (.inference
      { cls := .configurationDenied, message := "Single-route decision required" })
  else gatewayInfer gateway route request

/-- `observe`. -/
def observe (owner : Option Lease) (taskId : Option String) (backendId : String)
    (state : BackendState) (cooldownUntil : Option ℚ) (reason : Option String) :
    InferenceProg Unit := do
  let now : ℚ ← send (.clock .observation)
  let reason := (given reason).getD state.value
  if backendReasons.contains reason then
    send (.observe owner taskId backendId state reason now cooldownUntil)
  else .raise (.exn (.valueError "Invalid backend reason"))

/-- `_reserve`. -/
def reserve (policy : ContinuityPolicy) (owner : Option Lease) (taskId : String) :
    InferenceProg (Option ℚ) := do
  let now : ℚ ← send (.clock .reservation)
  send (.reserve owner taskId now policy)

/-- `_outcome`. -/
def outcome (owner : Option Lease) (task : Task) (disposition : Disposition) (reason : String)
    (response : Option InferenceResponse) (retryAt : Option ℚ) :
    InferenceProg InferenceOutcome := do
  let _ : Unit ← send (.outcome owner task disposition reason retryAt)
  pure ⟨disposition, reason, response, retryAt⟩

/-- The loop over the candidates. -/
def scan (manager : ContinuityManager) (excluded : Dict String) (now : ℚ) :
    List ModelRef → Scan → InferenceProg Scan
  | [], found => pure found
  | model :: rest, found =>
      match excluded.lookup model.modelId with
      | some reason => scan manager excluded now rest (found.deny model reason)
      | none =>
          match manager.gateway.freeAdapter model with
          | none => scan manager excluded now rest
              (found.deny model "adapter_configuration_or_cost")
          | some _ => do
              let observation : Option BackendObservation ← send (.observation model.providerId)
              scan manager excluded now rest
                (found.judge model (health manager.policy now model observation))

/-- The end of a round that found no usable route. -/
def noRoute (manager : ContinuityManager) (owner : Option Lease) (task : Task) (now : ℚ)
    (found : Scan) : InferenceProg InferenceOutcome :=
  match found.retryDates with
  | [] => outcome owner task .terminal "no_eligible_route" none none
  | date :: dates => outcome owner task .retryLater found.waiting none
      (some (max (now + manager.policy.baseBackoffS) (dates.foldl min date)))

/-- The route of a single model. -/
def ContinuityManager.route (manager : ContinuityManager) (taskId : String) (selected : ModelRef) :
    Route where
  taskId := taskId
  selectedModel := selected
  candidates := [selected.modelId]
  reasons := ["continuity_eligible"]
  policyVersion := manager.router.policyVersion
  automaticCost := 0

/-- One call of the selected model; `except InferenceError` catches its failure. -/
def callSelected (manager : ContinuityManager) (call : InferenceCall) (selected : ModelRef) :
    InferenceProg (Except InferenceError InferenceResponse) :=
  Program.except (do
      let request ← attempt (InferenceRequest.make selected call.messages call.tools
        (some call.task.taskId))
      let response ← inferOnce manager.gateway
        (ContinuityManager.route manager call.task.taskId selected) request
      pure (.ok response))
    fun
    | .inference error => pure (.error error)
    | e => .raise e

/-- What follows a failure of the selected model. -/
def onInferenceError (manager : ContinuityManager) (owner : Option Lease) (call : InferenceCall)
    (excluded : Dict String) (selected : ModelRef) (error : InferenceError) :
    InferenceProg Round := do
  let (reason, state, retry) := classifyError error
  let _ : Unit ← send (.event owner call.task
    (.failure selected.modelId selected.providerId reason))
  if retry then
    let observation : Option BackendObservation ← send (.observation selected.providerId)
    let failures := observation.elim 0 (·.consecutiveFailures)
    let now : ℚ ← send (.clock .backoff)
    let state ← attempt (orRaise state (.valueError "None is not a valid BackendState"))
    observe owner (some call.task.taskId) selected.providerId state
      (some (manager.policy.restsUntil failures error now)) (some reason)
    pure (.again excluded (some selected.modelId))
  else if reason = "invalid_request" || reason = "unclassified_inference_error" then
    let ended ← outcome owner call.task .terminal reason none none
    pure (.done ended)
  else pure (.again (excluded.set selected.modelId reason) (some selected.modelId))

/-- What follows a response. -/
def onResponse (owner : Option Lease) (call : InferenceCall) (previous : Option String)
    (selected : ModelRef) (response : InferenceResponse) : InferenceProg Round := do
  observe owner (some call.task.taskId) selected.providerId .available none none
  let ended ← outcome owner call.task .continueNow "inference_succeeded"
    (some { response with fallback := previous.isSome }) none
  pure (.done ended)

/-- The second half of a round, once a route is selected and its attempt reserved. -/
def useRoute (manager : ContinuityManager) (owner : Option Lease) (call : InferenceCall)
    (excluded : Dict String) (previous : Option String) (selected : ModelRef) :
    InferenceProg Round := do
  let _ : Unit ← send (.event owner call.task
    (.selected selected.modelId selected.providerId previous))
  let _ : Task ← send (.setRoute owner
    (ContinuityManager.route manager call.task.taskId selected))
  let answer ← callSelected manager call selected
  match answer with
  | .ok response => onResponse owner call previous selected response
  | .error error => onInferenceError manager owner call excluded selected error

/-- One round of the loop of `ContinuityManager.infer`. -/
def inferRound (manager : ContinuityManager) (owner : Option Lease) (call : InferenceCall)
    (excluded : Dict String) (previous : Option String) : InferenceProg Round := do
  let now : ℚ ← send (.clock .iteration)
  let (candidates, denied) ← attempt (manager.router.continuityCandidates call.privacy
    (requested call.capabilities call.tools) manager.policy call.contextTokens)
  let found ← scan manager excluded now candidates ⟨[], [], [], denied⟩
  let _ : Unit ← send (.event owner call.task
    (.candidates (found.usable.map ModelRef.modelId) found.denied))
  match found.usable with
  | [] => do
      let ended ← noRoute manager owner call.task now found
      pure (.done ended)
  | selected :: _ => do
      let retryAt ← reserve manager.policy owner call.task.taskId
      match retryAt with
      | some time => do
          let ended ← outcome owner call.task .retryLater "route_attempt_budget" none (some time)
          pure (.done ended)
      | none => useRoute manager owner call excluded previous selected

/-- At most `n` rounds of the loop; `none` while it goes on. -/
def inferRounds (manager : ContinuityManager) (owner : Option Lease) (call : InferenceCall) :
    ℕ → Dict String → Option String → InferenceProg (Option InferenceOutcome)
  | 0, _, _ => pure none
  | n + 1, excluded, previous => do
      let round ← inferRound manager owner call excluded previous
      match round with
      | .done ended => pure (some ended)
      | .again excluded previous => inferRounds manager owner call n excluded previous

/-- `ContinuityManager.infer`, for at most `rounds` rounds. -/
def continuityInfer (manager : ContinuityManager) (owner : Option Lease) (call : InferenceCall)
    (rounds : ℕ) : InferenceProg (Option InferenceOutcome) :=
  if call.contextTokens.any (· ≤ 0) then do
    let ended ← outcome owner call.task .terminal "invalid_request" none none
    pure (some ended)
  else inferRounds manager owner call rounds [] none

/-- The text `infer` classifies: the content and the tool definitions. -/
def privacyContent (content : String) (tools : List ToolDefinition) : String :=
  content ++ "\n" ++ "\n".intercalate (tools.map fun tool => dumpJson tool.dump)

/-- `infer` with a continuity manager. -/
def inferContinued (manager : ContinuityManager) (owner : Option Lease) (call : InferenceCall)
    (rounds : ℕ) : InferenceProg (Option InferenceResponse) := do
  let ended ← continuityInfer manager owner call rounds
  match ended with
  | none => pure none
  | some ended =>
      if ended.disposition ≠ .continueNow then
        .raise (.exn (.continuitySignal ⟨ended.disposition, ended.reason, ended.nextAttemptAt⟩))
      else pure ended.response

/-- `infer` without one. -/
def inferRouted (host : InferenceHost) (owner : Option Lease) (call : InferenceCall) :
    InferenceProg (Option InferenceResponse) := do
  let route ← attempt (host.router.decide call.task.taskId call.privacy
    (requested call.capabilities call.tools))
  let _ : Task ← send (.setRoute owner route)
  let request ← attempt (InferenceRequest.make route.selectedModel call.messages call.tools
    (some call.task.taskId))
  let response ← gatewayInfer host.gateway route request
  pure (some response)

/-- `AgentHostFoundation.infer`; `none` while the loop of the continuity manager goes on. -/
def hostInfer (host : InferenceHost) (owner : Option Lease) (taskId content : String)
    (capabilities : Finset String) (tools : List ToolDefinition)
    (requiredContextTokens : Option ℤ) (rounds : ℕ) :
    InferenceProg (Option InferenceResponse) := do
  let task : Task ← send (.getTask taskId)
  let call : InferenceCall := {
    task := task
    privacy := host.privacy.classify (privacyContent content tools) task.privacyClass
    messages := [.text .user content]
    capabilities := capabilities
    tools := tools
    contextTokens := requiredContextTokens }
  match host.continuity with
  | some manager => inferContinued manager owner call rounds
  | none => inferRouted host owner call

end Programs

end Dante
