import Mathlib
import Dante.Verification.NullFields

/-! # Assistant turns on the wire

What an adapter sends of an assistant message is read back as that message. -/

namespace Dante

open JsonText Adapters
open Inference (Message AssistantMessage)

section Wire

variable [Codec] {message : AssistantMessage} {calls : List Inference.ToolCall}
  {payload choice : Json} {model : ModelRef} {ref : String} {header : Option String}

/-- The arguments are a dictionary, which has every key once, and their text is read back. -/
structure Readable (call : Inference.ToolCall) : Prop where
  distinct : distinctKeys (.obj call.arguments) = true
  inverse : Codec.document (Codec.dumps (.obj call.arguments)) = some ⟨.obj call.arguments, false⟩

/-! ## Calls -/

theorem Readable.strictLoads {call : Inference.ToolCall} (h : Readable call) :
    strictLoads (Codec.dumps (.obj call.arguments)) = some (.obj call.arguments) := by
  simp [Dante.strictLoads, h.inverse, h.distinct]

omit [Codec] in
theorem make_call (call : Inference.ToolCall) :
    Inference.ToolCall.make call.callId call.name call.arguments = .ok call := by
  unfold Inference.ToolCall.make
  rw [dif_neg call.identified, dif_neg call.named, dif_pos call.finiteArguments]

theorem readCall_encodeCall {call : Inference.ToolCall} (h : Readable call) :
    readCall (encodeCall call) = some call := by
  simp [readCall, encodeCall, h.strictLoads, make_call, Json.asText, Json.asObject, List.lookup,
    Except.toOption]

theorem mapM_readCall (h : ∀ call ∈ calls, Readable call) :
    (calls.map encodeCall).mapM readCall = some calls := by
  induction calls with
  | nil => rfl
  | cons call rest ih =>
      have hrest := ih fun other hother => h other (List.mem_cons_of_mem _ hother)
      rw [List.map_cons, List.mapM_cons, readCall_encodeCall (h call List.mem_cons_self), hrest]
      rfl

/-! ## Messages -/

theorem get_role (message : AssistantMessage) :
    (encodeMessage (.assistant message)).get "role" = some (some (.str "assistant")) := rfl

theorem get_content (message : AssistantMessage) :
    (encodeMessage (.assistant message)).get "content" = some (some (dumpOption message.content)) :=
  rfl

/-- The calls are left out where there are none. -/
theorem get_toolCalls (message : AssistantMessage) :
    (encodeMessage (.assistant message)).get "tool_calls" =
      some (if message.toolCalls.isEmpty then none else some (.arr (message.toolCalls.map encodeCall))) := by
  cases hcalls : message.toolCalls.isEmpty <;> simp [encodeMessage, hcalls, List.lookup]

theorem aiCloudCalls_encodeMessage (h : ∀ call ∈ message.toolCalls, Readable call) :
    aiCloudCalls (encodeMessage (.assistant message)) = some message.toolCalls := by
  unfold aiCloudCalls
  rw [get_toolCalls]
  cases hcalls : message.toolCalls with
  | nil => rfl
  | cons call rest =>
      rw [hcalls] at h
      exact mapM_readCall h

theorem llamaCppCalls_encodeMessage (h : ∀ call ∈ message.toolCalls, Readable call) :
    llamaCppCalls (encodeMessage (.assistant message)) = some message.toolCalls := by
  unfold llamaCppCalls
  rw [get_toolCalls]
  cases hcalls : message.toolCalls with
  | nil => rfl
  | cons call rest =>
      rw [hcalls] at h
      exact mapM_readCall h

omit [Codec] in
theorem readContent_dumpOption (content : Option String) :
    readContent (some (dumpOption content)) = some content := by
  cases content <;> rfl

/-- The message calls a tool or says something. -/
def Speaks (message : AssistantMessage) : Prop :=
  message.toolCalls ≠ [] ∨ ∃ text, message.content = some text ∧ isBlank text = false

omit [Codec] in
theorem readAssistant_dumpOption (h : Speaks message) :
    readAssistant (some (dumpOption message.content)) message.toolCalls = some message := by
  have hmake : AssistantMessage.make message.content message.toolCalls = .ok message := by
    unfold AssistantMessage.make
    rw [dif_pos message.uniqueCalls]
  have hspeaks : (message.toolCalls.isEmpty && message.content.all isBlank) = false := by
    rcases h with hcalls | ⟨text, hcontent, htext⟩
    · simp [hcalls]
    · simp [hcontent, htext]
  simp only [readAssistant, readContent_dumpOption, hmake, hspeaks, Except.toOption,
    Option.bind_eq_bind, Option.bind_some]
  rfl

/-! ## Replies -/

/-- The reason of a reply with the calls. -/
def ReasonFits (calls : List Inference.ToolCall) (reason : Option Json) : Prop :=
  ∀ v, reason = some v → hashable v = true ∧ (v = .str "tool_calls" → calls ≠ [])

omit [Codec] in
theorem readReason_fits {reason : Option Json} (h : ReasonFits calls reason) :
    ∃ r, readReason reason = some r ∧ (r = .toolCalls → calls ≠ []) := by
  by_cases hcalls : calls = []
  · have hshape : ReasonShape reason := by
      intro v hv
      refine ⟨(h v hv).1, ?_⟩
      intro hcalled
      exact (h v hv).2 hcalled hcalls
    obtain ⟨r, hread, hr⟩ := readReason_some.mpr hshape
    exact ⟨r, hread, fun hcalled => absurd hcalled hr⟩
  · obtain ⟨r, hread⟩ : ∃ r, readReason reason = some r := by
      rcases reason with - | (_ | b | n | x | text | items | fields)
      all_goals first
        | exact ⟨_, rfl⟩
        | exact absurd (h _ rfl).1 (by simp [hashable])
    exact ⟨r, hread, fun _ => hcalls⟩

theorem readReply_encodeMessage (model : ModelRef) (cost : Option ℚ) (hspeaks : Speaks message)
    (honly : payload.item "choices" = some (.arr [choice]))
    (hmessage : choice.item "message" = some (encodeMessage (.assistant message))) :
    (∀ result, readReply model payload choice (encodeMessage (.assistant message)) message.toolCalls
      cost = some result → result.assistantMessage = message ∧ result.cost = cost) ∧
    (UsageShape (payload.item "usage") →
      ReasonFits message.toolCalls (choice.item "finish_reason") →
      (readReply model payload choice (encodeMessage (.assistant message)) message.toolCalls
        cost).isSome) := by
  unfold readReply
  simp only [get_of_item honly, get_of_item hmessage, get_content, Option.bind_eq_bind,
    Option.bind_some, readAssistant_dumpOption hspeaks]
  constructor
  · intro result hresult
    obtain ⟨usage, husage, hresult⟩ := Option.bind_eq_some_iff.mp hresult
    obtain ⟨reason, hreason, hresult⟩ := Option.bind_eq_some_iff.mp hresult
    split at hresult
    · cases hresult
    · cases hresult
      exact ⟨rfl, rfl⟩
  · intro husage hreason
    obtain ⟨usage, husage⟩ := Option.isSome_iff_exists.mp (readUsage_isSome.mpr husage)
    obtain ⟨reason, hreason, hcalled⟩ := readReason_fits hreason
    simp only [husage, hreason, Option.bind_some]
    rw [if_neg]
    · rfl
    · simpa using hcalled

/-- The reply with the message is read as `readReply` reads it. -/
theorem aiCloudResult_encodeMessage (hreadable : ∀ call ∈ message.toolCalls, Readable call)
    (honly : payload.item "choices" = some (.arr [choice]))
    (hmessage : choice.item "message" = some (aiCloudMessage (.assistant message))) :
    aiCloudResult model payload header = (readCost header).bind fun cost =>
      readReply model payload choice (encodeMessage (.assistant message)) message.toolCalls cost := by
  unfold aiCloudResult
  rw [onlyChoice_eq_some.mpr honly]
  simp [hmessage, aiCloudMessage, get_role, aiCloudCalls_encodeMessage hreadable, Json.asText]

theorem llamaCppResult_encodeMessage (hreadable : ∀ call ∈ message.toolCalls, Readable call)
    (honly : payload.item "choices" = some (.arr [choice]))
    (hmessage : choice.item "message" = some (llamaCppMessage (.assistant message))) :
    llamaCppResult model ref payload =
      if (payload.item "model").any (·.asText ≠ some ref) then none
      else readReply model payload choice (encodeMessage (.assistant message)) message.toolCalls
        none := by
  have hrole : (encodeMessage (.assistant message)).item "role" = some (.str "assistant") := rfl
  have htext : (Json.str "assistant").asText = some "assistant" := rfl
  unfold llamaCppResult
  rw [onlyChoice_eq_some.mpr honly]
  simp [hmessage, llamaCppMessage, hrole, htext, get_of_item honly,
    llamaCppCalls_encodeMessage hreadable]

theorem aiCloudComplete_encodeMessage (hreadable : ∀ call ∈ message.toolCalls, Readable call)
    (hspeaks : Speaks message) (honly : payload.item "choices" = some (.arr [choice]))
    (hmessage : choice.item "message" = some (aiCloudMessage (.assistant message))) :
    (∀ result, aiCloudComplete model payload header = .ok result →
      result.assistantMessage = message) ∧
    (UsageShape (payload.item "usage") →
      ReasonFits message.toolCalls (choice.item "finish_reason") →
      (∀ text, header = some text → Codec.number text = some 0) →
      ∃ result, aiCloudComplete model payload header = .ok result ∧
        result.assistantMessage = message) := by
  have hread (cost : Option ℚ) := readReply_encodeMessage model cost hspeaks honly hmessage
  unfold aiCloudComplete
  rw [aiCloudResult_encodeMessage hreadable honly hmessage]
  constructor
  · intro result hresult
    split at hresult
    · cases hresult
    next hsome =>
      obtain ⟨cost, -, hreply⟩ := Option.bind_eq_some_iff.mp hsome
      split at hresult
      · cases hresult
      · cases hresult
        exact ((hread cost).1 _ hreply).1
  · intro husage hreason hheader
    obtain ⟨cost, hcost, hzero⟩ : ∃ cost, readCost header = some cost ∧ cost.any (· ≠ 0) = false := by
      cases header with
      | none => exact ⟨none, rfl, rfl⟩
      | some text => exact ⟨some 0, by simp [readCost, hheader text rfl], by simp⟩
    obtain ⟨result, hreply⟩ := Option.isSome_iff_exists.mp ((hread cost).2 husage hreason)
    obtain ⟨hsame, hstated⟩ := (hread cost).1 _ hreply
    refine ⟨result, ?_, hsame⟩
    rw [hcost, Option.bind_some, hreply]
    simp only [hstated, hzero]
    rfl

theorem llamaCppComplete_encodeMessage (hreadable : ∀ call ∈ message.toolCalls, Readable call)
    (hspeaks : Speaks message) (honly : payload.item "choices" = some (.arr [choice]))
    (hmessage : choice.item "message" = some (llamaCppMessage (.assistant message))) :
    (∀ result, llamaCppComplete model ref payload = .ok result →
      result.assistantMessage = message) ∧
    (UsageShape (payload.item "usage") →
      ReasonFits message.toolCalls (choice.item "finish_reason") →
      (payload.item "model" = none ∨ payload.item "model" = some (.str ref)) →
      payload.item "error" = none →
      ∃ result, llamaCppComplete model ref payload = .ok result ∧
        result.assistantMessage = message) := by
  have hread := readReply_encodeMessage model none hspeaks honly hmessage
  unfold llamaCppComplete
  rw [llamaCppResult_encodeMessage hreadable honly hmessage]
  constructor
  · intro result hresult
    split at hresult
    · cases hresult
    · split at hresult
      · cases hresult
      next hsome =>
        cases hresult
        split at hsome
        · cases hsome
        · exact (hread.1 _ hsome).1
  · intro husage hreason hserved herror
    obtain ⟨result, hreply⟩ := Option.isSome_iff_exists.mp (hread.2 husage hreason)
    have hserves : (payload.item "model").any (·.asText ≠ some ref) = false := by
      rcases hserved with hserved | hserved <;> simp [hserved]
    have henvelope : enveloped payload = true := by
      cases payload with
      | obj fields => simpa [enveloped] using herror
      | _ => cases honly
    refine ⟨result, ?_, (hread.1 _ hreply).1⟩
    simp only [henvelope, hserves, hreply]
    rfl

/-- A reply whose only choice carries what was sent of the message is read as the message, and
it is read if the rest of it is well formed. -/
theorem assistant_round_trip (model : ModelRef) (ref : String) (header : Option String)
    (hreadable : ∀ call ∈ message.toolCalls, Readable call) (hspeaks : Speaks message)
    (honly : payload.item "choices" = some (.arr [choice])) :
    (choice.item "message" = some (aiCloudMessage (.assistant message)) →
      (∀ result, aiCloudComplete model payload header = .ok result →
        result.assistantMessage = message) ∧
      (UsageShape (payload.item "usage") →
        ReasonFits message.toolCalls (choice.item "finish_reason") →
        (∀ text, header = some text → Codec.number text = some 0) →
        ∃ result, aiCloudComplete model payload header = .ok result ∧
          result.assistantMessage = message)) ∧
    (choice.item "message" = some (llamaCppMessage (.assistant message)) →
      (∀ result, llamaCppComplete model ref payload = .ok result →
        result.assistantMessage = message) ∧
      (UsageShape (payload.item "usage") →
        ReasonFits message.toolCalls (choice.item "finish_reason") →
        (payload.item "model" = none ∨ payload.item "model" = some (.str ref)) →
        payload.item "error" = none →
        ∃ result, llamaCppComplete model ref payload = .ok result ∧
          result.assistantMessage = message)) :=
  ⟨aiCloudComplete_encodeMessage hreadable hspeaks honly,
    llamaCppComplete_encodeMessage hreadable hspeaks honly⟩

end Wire

/-! ## A message with nested arguments -/

namespace Sample

def nested : Dict Json :=
  [("path", .str "a.txt"), ("ranges", .arr [.obj [("from", .int 1), ("to", .null)]])]

def turn : AssistantMessage where
  content := none
  toolCalls := [⟨"1", "read", nested, by decide, read_named, rfl⟩, ⟨"2", "list", [], by decide,
    by decide, finite_nothing⟩]
  uniqueCalls := by decide

/-- A reply with the message. -/
def carrying (message : Json) : Json :=
  .obj [("choices", .arr [.obj [("message", message), ("finish_reason", .str "tool_calls")]])]

end Sample

section Turn

open Sample

local instance turnCodec : Codec :=
  .reference [("\x7b\"path\": \"a.txt\", \"ranges\": [\x7b\"from\": 1, \"to\": null\x7d]\x7d",
    ⟨.obj nested, false⟩), ("\x7b\x7d", ⟨.obj [], false⟩)]

theorem assistant_round_trip_turn :
    (∃ result, aiCloudComplete (cloudModel "model") (carrying (aiCloudMessage (.assistant turn)))
      none = .ok result ∧ result.assistantMessage = turn) ∧
    ∃ result, llamaCppComplete (cloudModel "model") "model"
      (carrying (llamaCppMessage (.assistant turn))) = .ok result ∧ result.assistantMessage = turn := by
  have hreadable : ∀ call ∈ turn.toolCalls, Readable call := by
    intro call hcall
    simp only [turn, List.mem_cons, List.not_mem_nil, or_false] at hcall
    rcases hcall with rfl | rfl
    · exact ⟨rfl, rfl⟩
    · exact ⟨rfl, rfl⟩
  have hfits : ReasonFits turn.toolCalls (some (.str "tool_calls")) := by
    intro v hv
    cases hv
    exact ⟨rfl, fun _ => List.cons_ne_nil _ _⟩
  have hspeaks : Speaks turn := .inl (List.cons_ne_nil _ _)
  have hplain (text : String) (htext : none = some text) : Codec.number text = some 0 := by
    cases htext
  have honly : (carrying (encodeMessage (.assistant turn))).item "choices" = some (.arr [_]) := rfl
  have hwire := assistant_round_trip (cloudModel "model") "model" none hreadable hspeaks honly
  exact ⟨(hwire.1 rfl).2 (.inl rfl) hfits hplain, (hwire.2 rfl).2 (.inl rfl) hfits (.inl rfl) rfl⟩

end Turn

end Dante
