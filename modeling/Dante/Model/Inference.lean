import Dante.Model.Routing

/-! # Inference messages, replies and failures -/

namespace Dante

open JsonText Relational

/-! ## Messages -/

namespace Inference

structure ToolCall where
  callId : String
  name : String
  arguments : Dict Json
  identified : callId ≠ ""
  named : name ≠ ""
  finiteArguments : finite (.obj arguments) = true

structure AssistantMessage where
  content : Option String
  toolCalls : List ToolCall
  uniqueCalls : (toolCalls.map ToolCall.callId).Nodup

structure ToolResult where
  callId : String
  content : String
  identified : callId ≠ ""

inductive Role where
  | system
  | user
  deriving DecidableEq, Repr

inductive Message where
  | text (role : Role) (content : String)
  | assistant (message : AssistantMessage)
  | toolResult (result : ToolResult)

/-- The call ids seen so far, and those whose results are still to come. -/
structure Pending where
  seen : List String
  pending : List String

/-- One call of an assistant message. -/
def Pending.call (ids : Pending) (call : ToolCall) : Except Exn Pending := do
  require (!ids.seen.contains call.callId) (.valueError "Reused tool call ID")
  pure ⟨call.callId :: ids.seen, call.callId :: ids.pending⟩

/-- One round of the loop of `continuation_ids`. -/
def Pending.next (ids : Pending) : Message → Except Exn Pending
  | .toolResult result => do
      require (ids.pending.contains result.callId) (.valueError "Unmatched or repeated tool result")
      pure { ids with pending := ids.pending.erase result.callId }
  | .text _ _ => do
      require ids.pending.isEmpty (.valueError "Missing tool results before next message")
      pure ids
  | .assistant message => do
      require ids.pending.isEmpty (.valueError "Missing tool results before next message")
      message.toolCalls.foldlM Pending.call ids

end Inference

open Inference (Message AssistantMessage)

/-! ## Requests -/

structure ToolDefinition where
  name : String
  description : String
  parameters : Dict Json
  named : name ≠ ""
  finiteParameters : finite (.obj parameters) = true
  isObject : parameters.lookup "type" = some (.str "object")

/-- `model_dump`. -/
def ToolDefinition.dump (tool : ToolDefinition) : Json :=
  .obj [("name", .str tool.name), ("description", .str tool.description),
    ("parameters", .obj tool.parameters)]

/-- `continuation_ids`. -/
def continuationIds (messages : List Message) (tools : List ToolDefinition) : Except Exn Unit := do
  let ids ← messages.foldlM Inference.Pending.next ⟨[], []⟩
  require ids.pending.isEmpty (.valueError "Missing tool results")
  require (decide (tools.map ToolDefinition.name).Nodup)
    (.valueError "Duplicate tool definitions")

structure InferenceRequest where
  model : ModelRef
  messages : List Message
  tools : List ToolDefinition
  taskId : Option String
  nonempty : messages ≠ []
  valid : continuationIds messages tools = .ok ()

/-- `InferenceRequest(...)`. -/
def InferenceRequest.make (model : ModelRef) (messages : List Message)
    (tools : List ToolDefinition) (taskId : Option String) : Except Exn InferenceRequest :=
  if hne : messages = [] then .error (.valueError "Tuple should have at least 1 item")
  else
    match hvalid : continuationIds messages tools with
    | .ok () => .ok ⟨model, messages, tools, taskId, hne, hvalid⟩
    | .error e => .error e

theorem InferenceRequest.make_ok {model : ModelRef} {messages : List Message}
    {tools : List ToolDefinition} {taskId : Option String} {request : InferenceRequest}
    (h : InferenceRequest.make model messages tools taskId = .ok request) :
    request.model = model ∧ request.messages = messages ∧ request.tools = tools ∧
      request.taskId = taskId := by
  unfold make at h
  split at h
  · cases h
  · split at h
    · cases h
      exact ⟨rfl, rfl, rfl, rfl⟩
    · cases h

/-! ## Responses -/

inductive FinishReason where
  | stop
  | toolCalls
  | length
  | contentFilter
  | unknown
  deriving DecidableEq, Repr

structure Usage where
  inputTokens : Option ℕ
  outputTokens : Option ℕ
  totalTokens : Option ℕ

structure InferenceResponse where
  model : ModelRef
  assistantMessage : AssistantMessage
  finishReason : FinishReason
  usage : Usage
  cost : Option ℚ
  fallback : Bool

/-! ## Failures -/

inductive ErrorClass where
  | inferenceError
  | adapterUnavailable
  | inferenceTimeout
  | rateQuotaUnavailable
  | rateLimitUnavailable
  | quotaExhausted
  | invalidResponse
  | invalidRequest
  | contextExceeded
  | policyDenied
  | qualificationDenied
  | configurationDenied
  deriving DecidableEq, Repr

/-- The class and its bases, up to `InferenceError`. -/
def ErrorClass.bases : ErrorClass → List ErrorClass
  | .inferenceError => [.inferenceError]
  | .adapterUnavailable => [.adapterUnavailable, .inferenceError]
  | .inferenceTimeout => [.inferenceTimeout, .adapterUnavailable, .inferenceError]
  | .rateQuotaUnavailable => [.rateQuotaUnavailable, .adapterUnavailable, .inferenceError]
  | .rateLimitUnavailable =>
      [.rateLimitUnavailable, .rateQuotaUnavailable, .adapterUnavailable, .inferenceError]
  | .quotaExhausted =>
      [.quotaExhausted, .rateQuotaUnavailable, .adapterUnavailable, .inferenceError]
  | .invalidResponse => [.invalidResponse, .inferenceError]
  | .invalidRequest => [.invalidRequest, .invalidResponse, .inferenceError]
  | .contextExceeded => [.contextExceeded, .inferenceError]
  | .policyDenied => [.policyDenied, .inferenceError]
  | .qualificationDenied => [.qualificationDenied, .policyDenied, .inferenceError]
  | .configurationDenied => [.configurationDenied, .policyDenied, .inferenceError]

/-- `isinstance`. -/
def ErrorClass.isA (cls base : ErrorClass) : Bool :=
  cls.bases.contains base

theorem noHint_nonneg : ∀ t ∈ (none : Option ℚ), 0 ≤ t := by simp

/-- Hints that are negative or not finite are dropped when the error is made. -/
structure InferenceError where
  cls : ErrorClass
  message : String
  retryAfter : Option ℚ := none
  retryAt : Option ℚ := none
  retryAfter_nonneg : ∀ t ∈ retryAfter, 0 ≤ t := by first | exact Dante.noHint_nonneg | simp
  retryAt_nonneg : ∀ t ∈ retryAt, 0 ≤ t := by first | exact Dante.noHint_nonneg | simp

/-- What inference may raise: its own errors, and those of the code around it. -/
inductive Fault where
  | inference (error : InferenceError)
  | exn (e : Exn)

/-- An exception of the code around inference. -/
def faulty {α : Type} (x : Except Exn α) : Except Fault α :=
  x.mapError Fault.exn

@[simp] theorem faulty_eq_ok {α : Type} {x : Except Exn α} {a : α} :
    faulty x = .ok a ↔ x = .ok a := by
  cases x <;> simp [faulty, Except.mapError]

/-! ## Adapters -/

structure Adapter where
  providerId : String
  automaticCost : ℚ
  deriving DecidableEq

instance : Keyed Adapter String := ⟨Adapter.providerId⟩

end Dante
