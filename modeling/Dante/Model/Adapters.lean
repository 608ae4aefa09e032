import Dante.Library.JsonDocument
import Dante.Model.Evidence
import Dante.Model.Inference

/-! # The wire formats of the adapters

How requests are translated for a provider, and how its replies are read. -/

namespace Dante

open JsonText
open Inference (Message AssistantMessage)

/-! ## Conversations as they are given -/

namespace Inference

/-- `AssistantMessage(...)`: `unique_calls`. -/
def AssistantMessage.make (content : Option String) (toolCalls : List ToolCall) :
    Except Exn AssistantMessage :=
  if h : (toolCalls.map ToolCall.callId).Nodup then .ok ⟨content, toolCalls, h⟩
  else .error (.valueError "Duplicate tool call IDs")

/-- `ToolCall(...)`: the bounds of its fields, and `finite_arguments`. -/
def ToolCall.make (callId name : String) (arguments : Dict Json) : Except Exn ToolCall :=
  if hid : callId = "" then .error (.valueError "String should have at least 1 character")
  else if hname : name = "" then .error (.valueError "String should have at least 1 character")
  else if h : finite (.obj arguments) = true then .ok ⟨callId, name, arguments, hid, hname, h⟩
  else .error (.valueError "Out of range float values are not JSON compliant")

/-- A message before it is validated. -/
inductive Draft where
  | text (role : Role) (content : String)
  | assistant (content : Option String) (toolCalls : List ToolCall)
  | toolResult (result : ToolResult)

/-- The message, once it is validated. -/
def Draft.message : Draft → Except Exn Message
  | .text role content => .ok (.text role content)
  | .assistant content toolCalls => do
      let message ← AssistantMessage.make content toolCalls
      pure (.assistant message)
  | .toolResult result => .ok (.toolResult result)

def Role.value : Role → String
  | .system => "system"
  | .user => "user"

end Inference

/-- `InferenceRequest(...)`, with the messages as they are given. -/
def InferenceRequest.validate (model : ModelRef) (drafts : List Inference.Draft)
    (tools : List ToolDefinition) (taskId : Option String) : Except Exn InferenceRequest := do
  let messages ← drafts.mapM Inference.Draft.message
  InferenceRequest.make model messages tools taskId

/-! ## What the adapters take from the library -/

class Codec where
  /-- `json.dumps(value, allow_nan=False)`, of a finite value. -/
  dumps : Json → String
  /-- The document of a text; `none` is a `ValueError`. -/
  document : String → Option Document
  /-- `float(text)`, where that is a finite number. -/
  number : String → Option ℚ

/-- A codec for runs, which reads only the texts of `documents`, and only whole numbers. -/
@[reducible] def Codec.reference (documents : List (String × Document)) : Codec where
  dumps value := String.ofList (text [' '] value)
  document text := documents.lookup text
  number text := text.toInt?.map (↑)

variable [Codec]

/-- `_loads`: `_object` refuses a repeated key, `_invalid_constant` every constant. -/
def strictLoads (text : String) : Option Json := do
  let document ← Codec.document text
  if document.constants then none
  else if distinctKeys document.value then some document.value
  else none

/-! ## Requests on the wire -/

/-- A call as it is sent; the arguments are a text of their own. -/
def encodeCall (call : Inference.ToolCall) : Json :=
  .obj [("id", .str call.callId), ("type", .str "function"),
    ("function", .obj [("name", .str call.name),
      ("arguments", .str (Codec.dumps (.obj call.arguments)))])]

/-- The message of a chat completion. -/
def encodeMessage : Message → Json
  | .toolResult result => .obj [("role", .str "tool"), ("tool_call_id", .str result.callId),
      ("content", .str result.content)]
  | .text role content => .obj [("role", .str role.value), ("content", .str content)]
  | .assistant message =>
      .obj ([("role", .str "assistant"), ("content", dumpOption message.content)] ++
        if message.toolCalls.isEmpty then []
        else [("tool_calls", .arr (message.toolCalls.map encodeCall))])

namespace Adapters

/-- `AICloudLiteLLMAdapter._message`. -/
def aiCloudMessage : Message → Json :=
  encodeMessage

/-- The message translation of `LlamaCppAdapter.complete`. -/
def llamaCppMessage : Message → Json :=
  encodeMessage

omit [Codec] in
/-- The calls of an assistant message, as Ollama takes them. -/
def ollamaCall (call : Inference.ToolCall) : Json :=
  .obj [("function", .obj [("name", .str call.name), ("arguments", .obj call.arguments)])]

omit [Codec] in
/-- One round of the message loop of `OllamaAdapter.complete`: the name of every call so far,
and the message. -/
def ollamaMessage (names : Dict String) : Message → Except Exn (Dict String × Json)
  | .toolResult result => do
      let name ← orRaise (names.lookup result.callId) (.keyError result.callId)
      pure (names, .obj [("role", .str "tool"), ("tool_name", .str name),
        ("content", .str result.content)])
  | .text role content => .ok (names, .obj [("role", .str role.value), ("content", .str content)])
  | .assistant message =>
      let item := [("role", .str "assistant"), ("content", .str (message.content.getD ""))]
      if message.toolCalls.isEmpty then .ok (names, .obj item)
      else .ok (names.update (message.toolCalls.map fun call => (call.callId, call.name)),
        .obj (item ++ [("tool_calls", .arr (message.toolCalls.map ollamaCall))]))

omit [Codec] in
/-- The message translation of `OllamaAdapter.complete`. -/
def ollamaMessages (names : Dict String) : List Message → Except Exn (List Json)
  | [] => .ok []
  | message :: rest => do
      let (names, item) ← ollamaMessage names message
      let items ← ollamaMessages names rest
      pure (item :: items)

end Adapters

/-! ## Replies on the wire

Whatever is wrong with a reply is one and the same `InvalidResponse`, so the readers of its parts
do not say what it was. -/

section Parts

omit [Codec]

/-- A count of `Usage`. -/
def readCount : Option Json → Option (Option ℕ)
  | none => some none
  | some .null => some none
  | some (.int n) => if 0 ≤ n then some (some n.toNat) else none
  | some _ => none

def readUsage : Option Json → Option Usage
  | none => some ⟨none, none, none⟩
  | some .null => some ⟨none, none, none⟩
  | some (.obj usage) => do
      let input ← readCount (usage.lookup "prompt_tokens")
      let output ← readCount (usage.lookup "completion_tokens")
      let total ← readCount (usage.lookup "total_tokens")
      pure ⟨input, output, total⟩
  | some _ => none

/-- `reason if reason in {...} else 'unknown'`; only what can be hashed is looked up in a set. -/
def readReason : Option Json → Option FinishReason
  | none => some .unknown
  | some (.str reason) => some
      (if reason = "stop" then .stop else if reason = "tool_calls" then .toolCalls
      else if reason = "length" then .length else if reason = "content_filter" then .contentFilter
      else .unknown)
  | some v => if hashable v then some .unknown else none

/-- The content of an `AssistantMessage`. -/
def readContent : Option Json → Option (Option String)
  | none => some none
  | some .null => some none
  | some (.str content) => some (some content)
  | some _ => none

/-- An assistant message that says something or calls a tool. -/
def readAssistant (content : Option Json) (calls : List Inference.ToolCall) :
    Option AssistantMessage := do
  let content ← readContent content
  let message ← (AssistantMessage.make content calls).toOption
  if calls.isEmpty && content.all isBlank then none else some message

/-- What both adapters make of a reply with the calls `calls`. -/
def readReply (model : ModelRef) (payload choice message : Json) (calls : List Inference.ToolCall)
    (cost : Option ℚ) : Option InferenceResponse := do
  let content ← message.get "content"
  let assistant ← readAssistant content calls
  let usage ← payload.get "usage"
  let usage ← readUsage usage
  let reason ← choice.get "finish_reason"
  let reason ← readReason reason
  if reason = .toolCalls && calls.isEmpty then none
  else some ⟨model, assistant, reason, usage, cost, false⟩

/-- The choice of a payload that has one. -/
def onlyChoice (payload : Json) : Option Json := do
  let choices ← payload.item "choices"
  match choices with
  | .arr [choice] => some choice
  | _ => none

def invalidResponse (message : String) : Fault :=
  .inference { cls := .invalidResponse, message := message }

end Parts

/-- One of the calls of a reply. -/
def readCall (call : Json) : Option Inference.ToolCall := do
  let kind ← call.item "type"
  if kind.asText ≠ some "function" then none
  else
    let function ← call.item "function"
    let encoded ← function.item "arguments"
    let text ← encoded.asText
    let decoded ← strictLoads text
    let arguments ← decoded.asObject
    let callId ← call.item "id"
    let callId ← callId.asText
    let name ← function.item "name"
    let name ← name.asText
    (Inference.ToolCall.make callId name arguments).toOption

namespace Adapters

/-- `message.get('tool_calls', [])`, as a list to go through. -/
def aiCloudCalls (message : Json) : Option (List Inference.ToolCall) := do
  let calls ← message.get "tool_calls"
  let calls ← calls.elim (some []) Json.elements
  calls.mapM readCall

/-- The cost that a header states. -/
def readCost : Option String → Option (Option ℚ)
  | none => some none
  | some header => do
      let cost ← Codec.number header
      if 0 ≤ cost then some (some cost) else none

/-- The reading of a payload in `AICloudLiteLLMAdapter.complete`. -/
def aiCloudResult (model : ModelRef) (payload : Json) (costHeader : Option String) :
    Option InferenceResponse := do
  let choice ← onlyChoice payload
  let message ← choice.item "message"
  let role ← message.get "role"
  if role.any (·.asText ≠ some "assistant") then none
  else
    let calls ← aiCloudCalls message
    let cost ← readCost costHeader
    readReply model payload choice message calls cost

/-- `AICloudLiteLLMAdapter.complete`, once the payload has arrived. -/
def aiCloudComplete (model : ModelRef) (payload : Json) (costHeader : Option String) :
    Except Fault InferenceResponse :=
  match aiCloudResult model payload costHeader with
  | none => .error (invalidResponse "Invalid inference response")
  | some result =>
      if result.cost.any (· ≠ 0) then
        .error (.inference { cls := .policyDenied, message := "Non-zero inference cost rejected" })
      else .ok result

/-- `message.get('tool_calls', [])`, which has to be a list. -/
def llamaCppCalls (message : Json) : Option (List Inference.ToolCall) := do
  let calls ← message.get "tool_calls"
  let calls ← calls.elim (some []) Json.asList
  calls.mapM readCall

/-- The reading of a payload in `LlamaCppAdapter.complete`. -/
def llamaCppResult (model : ModelRef) (ref : String) (payload : Json) : Option InferenceResponse := do
  let choice ← onlyChoice payload
  let message ← choice.item "message"
  let role ← message.item "role"
  let served ← payload.get "model"
  if role.asText ≠ some "assistant" || served.any (·.asText ≠ some ref) then none
  else
    let calls ← llamaCppCalls message
    readReply model payload choice message calls none

omit [Codec] in
/-- The envelope that `_json` demands. -/
def enveloped : Json → Bool
  | .obj payload => (payload.lookup "error").isNone
  | _ => false

/-- `LlamaCppAdapter.complete`, once the payload has arrived. -/
def llamaCppComplete (model : ModelRef) (ref : String) (payload : Json) :
    Except Fault InferenceResponse :=
  if !enveloped payload then .error (invalidResponse "Invalid runtime envelope")
  else
    match llamaCppResult model ref payload with
    | none => .error (invalidResponse "Invalid llama.cpp response")
    | some result => .ok result

end Adapters

end Dante
