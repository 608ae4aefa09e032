import Dante.Model.Reference
import Dante.Verification.Conversations

/-! # The translation of a conversation for Ollama

On this wire a tool result carries the name of its call and not the id. Every conversation has
a translation; two that attach a result to different calls have the same one if the calls have
the same name. -/

namespace Dante

open JsonText Inference Adapters

namespace Inference

/-- The message as it was given. -/
def Message.draft : Message → Draft
  | .text role content => .text role content
  | .assistant message => .assistant message.content message.toolCalls
  | .toolResult result => .toolResult result

/-- The calls that a message makes. -/
def Message.calls : Message → List ToolCall
  | .assistant message => message.toolCalls
  | _ => []

def callsOf (messages : List Message) : List ToolCall :=
  messages.flatMap Message.calls

variable {messages before rest : List Message} {calls : List ToolCall} {names : Dict String}

theorem message_draft (message : Message) : message.draft.message = .ok message := by
  cases message with
  | text role content => rfl
  | assistant message => exact Draft.message_assistant message.uniqueCalls
  | toolResult result => rfl

theorem mapM_draft (messages : List Message) :
    (messages.map Message.draft).mapM Draft.message = .ok messages := by
  induction messages with
  | nil => rfl
  | cons message rest ih =>
      rw [List.map_cons, List.mapM_cons, message_draft, ih]
      rfl

theorem callIds_draft (message : Message) :
    message.draft.callIds = message.calls.map ToolCall.callId := by
  cases message <;> rfl

theorem callIds_drafts (messages : List Message) :
    (messages.map Message.draft).flatMap Draft.callIds = (callsOf messages).map ToolCall.callId := by
  induction messages with
  | nil => rfl
  | cons message rest ih =>
      rw [List.map_cons, List.flatMap_cons, ih, callIds_draft, callsOf, callsOf, List.flatMap_cons,
        List.map_append]

/-- The messages of a request are a conversation. -/
theorem conversation_of_valid {tools : List ToolDefinition}
    (h : continuationIds messages tools = .ok ()) : Conversation (messages.map Message.draft) := by
  obtain ⟨haccepted, -⟩ := continuationIds_ok.mp h
  exact accepts_iff_conversation.mp ⟨messages, mapM_draft messages, haccepted⟩

/-- What answers a call of the nearest message answers a call of an earlier one. -/
theorem mem_callsOf_of_nearest {content : Option String} {toolCalls : List ToolCall}
    (h : nearest (before.map Message.draft) = some (.assistant content toolCalls)) :
    toolCalls ⊆ callsOf before := by
  have hmem := List.mem_of_find?_eq_some h
  rw [List.mem_reverse, List.mem_map] at hmem
  obtain ⟨message, hmessage, hdraft⟩ := hmem
  intro call hcall
  refine List.mem_flatMap.mpr ⟨message, hmessage, ?_⟩
  cases message with
  | assistant message =>
      cases hdraft
      exact hcall
  | text role content => cases hdraft
  | toolResult result => cases hdraft

/-! ## The names of the calls -/

/-- The name of the call with the id. -/
def callName (calls : List ToolCall) (id : String) : String :=
  ((calls.find? (·.callId = id)).map ToolCall.name).getD ""

theorem callName_of_mem (hdistinct : (calls.map ToolCall.callId).Nodup) {call : ToolCall}
    (hcall : call ∈ calls) : callName calls call.callId = call.name := by
  have hfind : calls.find? (·.callId = call.callId) = some call := by
    obtain ⟨other, hother⟩ : ∃ other, calls.find? (·.callId = call.callId) = some other := by
      rw [← Option.isSome_iff_exists, List.find?_isSome]
      exact ⟨call, hcall, by simp⟩
    have hid := List.find?_some hother
    have hsame := List.inj_on_of_nodup_map hdistinct (List.mem_of_find?_eq_some hother) hcall
      (of_decide_eq_true hid)
    rw [hother, hsame]
  rw [callName, hfind]
  rfl

/-- The dictionary holds the names of the calls. -/
def Names (names : Dict String) (calls : List ToolCall) : Prop :=
  ∀ call ∈ calls, names.lookup call.callId = some call.name

theorem Names.update (h : Names names calls) {toolCalls : List ToolCall}
    (hdistinct : ((calls ++ toolCalls).map ToolCall.callId).Nodup) :
    Names (names.update (toolCalls.map fun call => (call.callId, call.name))) (calls ++ toolCalls) := by
  rw [List.map_append, List.nodup_append] at hdistinct
  obtain ⟨-, hnew, hapart⟩ := hdistinct
  have hentries : Dict.Distinct (toolCalls.map fun call => (call.callId, call.name)) := by
    rw [Dict.Distinct, List.map_map]
    exact hnew
  intro call hcall
  rw [Dict.lookup_update hentries]
  rcases List.mem_append.mp hcall with hold | hlast
  · have hnone : List.lookup call.callId (toolCalls.map fun call => (call.callId, call.name)) = none := by
      rw [List.lookup_eq_none_iff]
      intro entry hentry
      obtain ⟨other, hother, rfl⟩ := List.mem_map.mp hentry
      rw [bne_iff_ne]
      exact hapart _ (List.mem_map_of_mem hold) _ (List.mem_map_of_mem hother)
    rw [hnone]
    exact h call hold
  · rw [hentries.lookup.mpr (List.mem_map.mpr ⟨call, hlast, rfl⟩)]
    rfl

end Inference

/-! ## The translation -/

/-- A message on the wire, given all the calls of its conversation. -/
def labelled (calls : List Inference.ToolCall) : Message → Json
  | .toolResult result => .obj [("role", .str "tool"),
      ("tool_name", .str (callName calls result.callId)), ("content", .str result.content)]
  | .text role content => .obj [("role", .str role.value), ("content", .str content)]
  | .assistant message =>
      .obj ([("role", .str "assistant"), ("content", .str (message.content.getD ""))] ++
        if message.toolCalls.isEmpty then []
        else [("tool_calls", .arr (message.toolCalls.map ollamaCall))])

variable {messages before rest : List Message} {calls : List Inference.ToolCall}
  {names : Dict String}

theorem ollamaMessage_labelled {message : Message} (hnames : Names names (callsOf before))
    (hdistinct : ((callsOf before ++ message.calls).map Inference.ToolCall.callId).Nodup)
    (hcalls : (calls.map Inference.ToolCall.callId).Nodup) (hbefore : callsOf before ⊆ calls)
    (hcalled : ∀ result, message = .toolResult result →
      ∃ call ∈ callsOf before, call.callId = result.callId) :
    ∃ next, ollamaMessage names message = .ok (next, labelled calls message) ∧
      Names next (callsOf before ++ message.calls) := by
  cases message with
  | text role content =>
      refine ⟨names, rfl, ?_⟩
      change Names names (callsOf before ++ [])
      rw [List.append_nil]
      exact hnames
  | toolResult result =>
      obtain ⟨call, hcall, hid⟩ := hcalled result rfl
      refine ⟨names, ?_, ?_⟩
      · rw [ollamaMessage, labelled, ← hid, hnames call hcall, callName_of_mem hcalls (hbefore hcall)]
        rfl
      · change Names names (callsOf before ++ [])
        rw [List.append_nil]
        exact hnames
  | assistant message =>
      refine ⟨_, ?_, hnames.update hdistinct⟩
      cases hempty : message.toolCalls with
      | nil => simp [ollamaMessage, labelled, hempty, Dict.update, Message.calls]
      | cons call others => simp [ollamaMessage, labelled, hempty, Message.calls]

theorem ollamaMessages_labelled (hmessages : messages = before ++ rest)
    (hdistinct : ((callsOf messages).map Inference.ToolCall.callId).Nodup)
    (hcalled : ∀ earlier result later, messages = earlier ++ .toolResult result :: later →
      ∃ call ∈ callsOf earlier, call.callId = result.callId)
    (hnames : Names names (callsOf before)) :
    ollamaMessages names rest = .ok (rest.map (labelled (callsOf messages))) := by
  induction rest generalizing before names with
  | nil => rfl
  | cons message rest ih =>
      have hsplit : messages = (before ++ [message]) ++ rest := by
        rw [hmessages, List.append_assoc]
        rfl
      have hcalls : callsOf (before ++ [message]) = callsOf before ++ message.calls := by
        simp [callsOf]
      have hall : callsOf messages = (callsOf before ++ message.calls) ++ callsOf rest := by
        rw [hsplit, callsOf, List.flatMap_append]
        exact congrArg (· ++ _) hcalls
      have hfront : ((callsOf before ++ message.calls).map Inference.ToolCall.callId).Nodup := by
        rw [hall, List.map_append] at hdistinct
        exact (List.nodup_append.mp hdistinct).1
      have hbefore : callsOf before ⊆ callsOf messages := by
        intro call hcall
        rw [hall]
        exact List.mem_append_left _ (List.mem_append_left _ hcall)
      obtain ⟨next, hmessage, hnext⟩ := ollamaMessage_labelled hnames hfront hdistinct hbefore
        fun result hresult => hcalled before result rest (by rw [hmessages, hresult])
      rw [ollamaMessages, hmessage]
      change (ollamaMessages next rest).bind _ = _
      rw [ih hsplit (by rw [hcalls]; exact hnext)]
      rfl

theorem called_of_conversation (h : Conversation (messages.map Message.draft)) :
    ∀ earlier result later, messages = earlier ++ .toolResult result :: later →
      ∃ call ∈ callsOf earlier, call.callId = result.callId := by
  rintro earlier result later rfl
  obtain ⟨content, toolCalls, hnearest, hid⟩ := h.called (earlier.map Message.draft) result
    (later.map Message.draft) (by rw [List.map_append]; rfl)
  obtain ⟨call, hcall, hsame⟩ := List.mem_map.mp hid
  exact ⟨call, mem_callsOf_of_nearest hnearest hcall, hsame⟩

/-- Every request has a translation. -/
theorem ollamaMessages_valid (request : InferenceRequest) : ollamaMessages [] request.messages =
    .ok (request.messages.map (labelled (callsOf request.messages))) := by
  have hconversation := conversation_of_valid request.valid
  have hsplit : request.messages = [] ++ request.messages := rfl
  refine ollamaMessages_labelled hsplit ?_ (called_of_conversation hconversation) ?_
  · rw [← callIds_drafts]
    exact hconversation.distinct
  · exact fun call hcall => by cases hcall

/-! ## Requests that attach results differently -/

/-- The messages are the same, but for the ids of the calls that the results answer. -/
inductive Reattached : Message → Message → Prop where
  | same (message : Message) : Reattached message message
  | result {one other : Inference.ToolResult} (h : one.content = other.content) :
      Reattached (.toolResult one) (.toolResult other)

/-- The same content is the result of a call of one tool here, and of another tool there. -/
def Renamed (calls : List Inference.ToolCall) (here there : Message) : Prop :=
  ∃ one other, here = .toolResult one ∧ there = .toolResult other ∧
    ∃ call ∈ calls, ∃ call' ∈ calls, call.callId = one.callId ∧ call'.callId = other.callId ∧
      call.name ≠ call'.name

theorem callsOf_reattached {others : List Message} (h : List.Forall₂ Reattached messages others) :
    callsOf others = callsOf messages := by
  induction h with
  | nil => rfl
  | cons hfirst _ ih =>
      rw [callsOf, callsOf, List.flatMap_cons, List.flatMap_cons]
      refine congrArg₂ (· ++ ·) ?_ ih
      cases hfirst <;> rfl

/-- What the answered call is named, a result says on the wire. -/
theorem labelled_eq_iff {here there : Message} (h : Reattached here there)
    (hdistinct : (calls.map Inference.ToolCall.callId).Nodup)
    (hhere : ∀ result, here = .toolResult result → ∃ call ∈ calls, call.callId = result.callId)
    (hthere : ∀ result, there = .toolResult result → ∃ call ∈ calls, call.callId = result.callId) :
    labelled calls here = labelled calls there ↔ ¬Renamed calls here there := by
  cases h with
  | same =>
      refine iff_of_true rfl ?_
      rintro ⟨one, other, rfl, hother, call, hcall, call', hcall', hid, hid', hname⟩
      cases hother
      exact hname (congrArg _ (List.inj_on_of_nodup_map hdistinct hcall hcall' (hid.trans hid'.symm)))
  | @result one other hcontent =>
      obtain ⟨call, hcall, hid⟩ := hhere one rfl
      obtain ⟨call', hcall', hid'⟩ := hthere other rfl
      have hname := callName_of_mem hdistinct hcall
      have hname' := callName_of_mem hdistinct hcall'
      rw [hid] at hname
      rw [hid'] at hname'
      have heq : labelled calls (.toolResult one) = labelled calls (.toolResult other) ↔
          call.name = call'.name := by
        simp [labelled, hname, hname', hcontent]
      rw [heq]
      constructor
      · rintro hsame ⟨one', other', hone, hother, made, hmade, made', hmade', hmid, hmid', hne⟩
        cases hone
        cases hother
        rw [← callName_of_mem hdistinct hmade, ← callName_of_mem hdistinct hmade', hmid, hmid', hname,
          hname'] at hne
        exact hne hsame
      · intro hnot
        by_contra hne
        exact hnot ⟨one, other, rfl, rfl, call, hcall, call', hcall', hid, hid', hne⟩

theorem distinct_of_valid (request : InferenceRequest) :
    ((callsOf request.messages).map Inference.ToolCall.callId).Nodup := by
  rw [← callIds_drafts]
  exact (conversation_of_valid request.valid).distinct

theorem called_of_mem (request : InferenceRequest) {message : Message}
    (hmessage : message ∈ request.messages) (result : Inference.ToolResult)
    (hresult : message = .toolResult result) :
    ∃ call ∈ callsOf request.messages, call.callId = result.callId := by
  obtain ⟨before, after, hsplit⟩ := List.append_of_mem hmessage
  rw [hresult] at hsplit
  obtain ⟨call, hcall, hid⟩ :=
    called_of_conversation (conversation_of_valid request.valid) before result after hsplit
  refine ⟨call, ?_, hid⟩
  rw [hsplit, callsOf, List.flatMap_append]
  exact List.mem_append_left _ hcall

/-- The place of a result on the wire names the call that the result answers. -/
theorem ollamaMessages_result (request : InferenceRequest) {before after : List Message}
    {result : Inference.ToolResult}
    (hsplit : request.messages = before ++ .toolResult result :: after) :
    ∃ content toolCalls, nearest (before.map Message.draft) = some (.assistant content toolCalls) ∧
      ∃ call ∈ toolCalls, call.callId = result.callId ∧
        (request.messages.map (labelled (callsOf request.messages)))[before.length]? =
          some (.obj [("role", .str "tool"), ("tool_name", .str call.name),
            ("content", .str result.content)]) := by
  obtain ⟨content, toolCalls, hnearest, hid⟩ := (conversation_of_valid request.valid).called
    (before.map Message.draft) result (after.map Message.draft) (by rw [hsplit, List.map_append]; rfl)
  obtain ⟨call, hcall, hsame⟩ := List.mem_map.mp hid
  refine ⟨content, toolCalls, hnearest, call, hcall, hsame, ?_⟩
  have hmem : call ∈ callsOf request.messages := by
    rw [hsplit, callsOf, List.flatMap_append]
    exact List.mem_append_left _ (mem_callsOf_of_nearest hnearest hcall)
  have hname := callName_of_mem (distinct_of_valid request) hmem
  have hplace : request.messages[before.length]? = some (.toolResult result) := by
    rw [hsplit, List.getElem?_append_right (le_refl _), Nat.sub_self]
    rfl
  rw [List.getElem?_map, hplace, Option.map_some, labelled, ← hsame, hname]

theorem map_labelled_ne {one other : List Message} (h : List.Forall₂ Reattached one other)
    (hdistinct : (calls.map Inference.ToolCall.callId).Nodup)
    (hone : ∀ message ∈ one, ∀ result, message = .toolResult result →
      ∃ call ∈ calls, call.callId = result.callId)
    (hother : ∀ message ∈ other, ∀ result, message = .toolResult result →
      ∃ call ∈ calls, call.callId = result.callId) :
    one.map (labelled calls) ≠ other.map (labelled calls) ↔
      ∃ (i : ℕ) (here there : Message), one[i]? = some here ∧ other[i]? = some there ∧ Renamed calls here there := by
  induction h with
  | nil => simp
  | @cons here there rest rest' hfirst hrest ih =>
      have hlater := ih (fun m hm => hone m (.tail _ hm)) fun m hm => hother m (.tail _ hm)
      have hhead := labelled_eq_iff hfirst hdistinct (hone here (.head _)) (hother there (.head _))
      rw [List.map_cons, List.map_cons, ne_eq, List.cons.injEq, not_and_or, hhead, not_not, ← ne_eq,
        hlater]
      constructor
      · rintro (hrenamed | ⟨i, m, m', hm, hm', hrenamed⟩)
        · exact ⟨0, here, there, rfl, rfl, hrenamed⟩
        · exact ⟨i + 1, m, m', hm, hm', hrenamed⟩
      · rintro ⟨i, m, m', hm, hm', hrenamed⟩
        cases i with
        | zero =>
            cases hm
            cases hm'
            exact .inl hrenamed
        | succ i => exact .inr ⟨i, m, m', hm, hm', hrenamed⟩

/-- Every request is translated, with each result under the name of the call it answers. Two
requests that attach results to different calls are told apart on the wire exactly if some
result is attached to calls of different names. -/
theorem ollama_translation (one : InferenceRequest) :
    (∃ wire, ollamaMessages [] one.messages = .ok wire ∧ wire.length = one.messages.length ∧
      ∀ before result after, one.messages = before ++ .toolResult result :: after →
        ∃ content toolCalls,
          nearest (before.map Message.draft) = some (.assistant content toolCalls) ∧
          ∃ call ∈ toolCalls, call.callId = result.callId ∧ wire[before.length]? =
            some (.obj [("role", .str "tool"), ("tool_name", .str call.name),
              ("content", .str result.content)])) ∧
    ∀ other : InferenceRequest, List.Forall₂ Reattached one.messages other.messages →
      (ollamaMessages [] one.messages ≠ ollamaMessages [] other.messages ↔
        ∃ (i : ℕ) (here there : Message),
          one.messages[i]? = some here ∧ other.messages[i]? = some there ∧
            Renamed (callsOf one.messages) here there) := by
  refine ⟨⟨_, ollamaMessages_valid one, List.length_map _, ?_⟩, ?_⟩
  · exact fun before result after hsplit => ollamaMessages_result one hsplit
  · intro other hreattached
    have hcalls := callsOf_reattached hreattached
    rw [ollamaMessages_valid one, ollamaMessages_valid other, hcalls, ne_eq, Except.ok.injEq, ← ne_eq]
    refine map_labelled_ne hreattached (distinct_of_valid one) ?_ ?_
    · exact fun message hmessage => called_of_mem one hmessage
    · intro message hmessage result hresult
      rw [← hcalls]
      exact called_of_mem other hmessage result hresult

/-! ## Two calls at once -/

/-- A call of a tool without arguments. -/
def Sample.toolCall (callId name : String) (hid : callId ≠ "") (hname : name ≠ "") :
    Inference.ToolCall :=
  ⟨callId, name, [], hid, hname, finite_nothing⟩

/-- The model reads a file and calls another tool at once. -/
def Sample.pairOfCalls (second : String) (hsecond : second ≠ "") : AssistantMessage where
  content := none
  toolCalls := [toolCall "c1" "read" (by decide) read_named,
    toolCall "c2" second (by decide) hsecond]
  uniqueCalls := by simp [toolCall]

/-- The answers `A` and `B` to the calls with the given ids. -/
def Sample.replying (second : String) (hsecond : second ≠ "") (one other : String)
    (hone : one ≠ "") (hother : other ≠ "") : List Message :=
  [.assistant (pairOfCalls second hsecond), .toolResult ⟨one, "A", hone⟩,
    .toolResult ⟨other, "B", hother⟩]

/-- A request that goes on with the conversation. -/
def Sample.asks (messages : List Message) (hnonempty : messages ≠ [])
    (hvalid : continuationIds messages [] = .ok ()) : InferenceRequest :=
  ⟨cloudModel "local", messages, [], none, hnonempty, hvalid⟩

/-- Both calls are answered, in their order. -/
def Sample.inOrder (second : String) (hsecond : second ≠ "") : InferenceRequest :=
  asks (replying second hsecond "c1" "c2" (by decide) (by decide)) (by simp [replying]) rfl

/-- Both calls are answered, the second one first. -/
def Sample.crossed (second : String) (hsecond : second ≠ "") : InferenceRequest :=
  asks (replying second hsecond "c2" "c1" (by decide) (by decide)) (by simp [replying]) rfl

theorem Sample.crossed_reattached (second : String) (hsecond : second ≠ "") :
    List.Forall₂ Reattached (inOrder second hsecond).messages (crossed second hsecond).messages :=
  .cons (.same _) (.cons (.result rfl) (.cons (.result rfl) .nil))

theorem ollama_translation_named :
    ollamaMessages [] (Sample.inOrder "list" (by decide)).messages ≠
      ollamaMessages [] (Sample.crossed "list" (by decide)).messages := by
  refine ((ollama_translation _).2 _ (Sample.crossed_reattached "list" (by decide))).mpr ?_
  refine ⟨1, _, _, rfl, rfl, _, _, rfl, rfl, Sample.toolCall "c1" "read" (by decide) (by decide), ?_,
    Sample.toolCall "c2" "list" (by decide) (by decide), ?_, rfl, rfl, by decide⟩
  · exact .head _
  · exact .tail _ (.head _)

/-- Two calls of one tool: nothing on the wire says which answer is which. -/
theorem ollama_translation_crossed :
    (Sample.inOrder "read" (by decide)).messages ≠ (Sample.crossed "read" (by decide)).messages ∧
      ollamaMessages [] (Sample.inOrder "read" (by decide)).messages =
        ollamaMessages [] (Sample.crossed "read" (by decide)).messages ∧
      ¬∀ one other : InferenceRequest, List.Forall₂ Reattached one.messages other.messages →
        one.messages ≠ other.messages →
          ollamaMessages [] one.messages ≠ ollamaMessages [] other.messages := by
  have hother : (Sample.inOrder "read" (by decide)).messages ≠
      (Sample.crossed "read" (by decide)).messages := by
    simp [Sample.inOrder, Sample.crossed, Sample.asks, Sample.replying]
  refine ⟨hother, rfl, fun h => ?_⟩
  exact h _ _ (Sample.crossed_reattached "read" (by decide)) hother rfl

end Dante
