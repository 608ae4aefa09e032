import Dante.Model.Adapters
import Dante.Verification.Dictionaries

/-! # Conversations

A request takes a list of messages exactly if it is a conversation: every tool call is answered
by the tool results that follow its message, each of them once, and nothing else is. -/

namespace Dante

open JsonText

namespace Inference

/-! ## What a conversation is -/

/-- The ids of the calls that a message makes. -/
def Draft.callIds : Draft → List String
  | .assistant _ toolCalls => toolCalls.map ToolCall.callId
  | _ => []

/-- The id that a tool result answers. -/
def Draft.resultId : Draft → Option String
  | .toolResult result => some result.callId
  | _ => none

def Draft.isResult (draft : Draft) : Bool :=
  draft.resultId.isSome

/-- The last message that is no tool result. -/
def nearest (before : List Draft) : Option Draft :=
  before.reverse.find? fun draft => !draft.isResult

/-- The ids that are answered before the next message that is no tool result. -/
def answers (after : List Draft) : List String :=
  (after.takeWhile Draft.isResult).filterMap Draft.resultId

structure Conversation (drafts : List Draft) : Prop where
  distinct : (drafts.flatMap Draft.callIds).Nodup
  /-- A tool result answers a call of the last message before it that is no tool result. -/
  called : ∀ before result after, drafts = before ++ .toolResult result :: after →
    ∃ content toolCalls, nearest before = some (.assistant content toolCalls) ∧
      result.callId ∈ toolCalls.map ToolCall.callId
  /-- A call is answered once before the next message that is no tool result, or before the
  end. -/
  answered : ∀ before content toolCalls after, drafts = before ++ .assistant content toolCalls :: after →
    ∀ call ∈ toolCalls, (answers after).count call.callId = 1

variable {drafts rest before : List Draft} {draft : Draft} {ids ids' : Pending} {pool : List String}

@[simp] theorem answers_nil : answers [] = [] := rfl

@[simp] theorem answers_toolResult (result : ToolResult) (rest : List Draft) :
    answers (.toolResult result :: rest) = result.callId :: answers rest := rfl

@[simp] theorem answers_text (role : Role) (content : String) (rest : List Draft) :
    answers (.text role content :: rest) = [] := rfl

@[simp] theorem answers_assistant (content : Option String) (toolCalls : List ToolCall)
    (rest : List Draft) : answers (.assistant content toolCalls :: rest) = [] := rfl

/-! ## The loop -/

theorem require_then {α : Type} {c : Bool} {e : Exn} {x : Except Exn α} {a : α} :
    (require c e).bind (fun _ => x) = .ok a ↔ c = true ∧ x = .ok a := by
  cases c <;> simp [require, Except.bind]

theorem Pending.next_toolResult {result : ToolResult} :
    ids.next (.toolResult result) = .ok ids' ↔ result.callId ∈ ids.pending ∧
      { ids with pending := ids.pending.erase result.callId } = ids' := by
  refine require_then.trans ?_
  rw [List.contains_iff_mem, Except.pure_eq_ok]

theorem Pending.next_text {role : Role} {content : String} :
    ids.next (.text role content) = .ok ids' ↔ ids.pending = [] ∧ ids = ids' := by
  refine require_then.trans ?_
  rw [List.isEmpty_iff, Except.pure_eq_ok]

theorem Pending.call_ok {call : ToolCall} : ids.call call = .ok ids' ↔
    call.callId ∉ ids.seen ∧ ⟨call.callId :: ids.seen, call.callId :: ids.pending⟩ = ids' := by
  refine require_then.trans ?_
  rw [Bool.not_eq_true', List.contains_eq_mem, decide_eq_false_iff_not, Except.pure_eq_ok]

/-- The calls of one message are new, and differ from each other. -/
theorem Pending.calls_ok {toolCalls : List ToolCall} :
    toolCalls.foldlM Pending.call ids = .ok ids' ↔
      (toolCalls.map ToolCall.callId).Nodup ∧
        (∀ id ∈ toolCalls.map ToolCall.callId, id ∉ ids.seen) ∧
        ⟨(toolCalls.map ToolCall.callId).reverse ++ ids.seen,
          (toolCalls.map ToolCall.callId).reverse ++ ids.pending⟩ = ids' := by
  induction toolCalls generalizing ids with
  | nil => simp
  | cons call rest ih =>
      rw [List.foldlM_cons, Except.bind_eq_ok]
      constructor
      · rintro ⟨next, hcall, hrest⟩
        obtain ⟨hnew, rfl⟩ := Pending.call_ok.mp hcall
        obtain ⟨hnodup, hothers, rfl⟩ := ih.mp hrest
        refine ⟨?_, ?_, by simp⟩
        · rw [List.map_cons, List.nodup_cons]
          exact ⟨fun hmem => hothers _ hmem (.head _), hnodup⟩
        · intro id hid
          rcases List.mem_cons.mp hid with rfl | htail
          · exact hnew
          · exact fun hseen => hothers id htail (.tail _ hseen)
      · rintro ⟨hnodup, hnew, rfl⟩
        obtain ⟨hfirst, hnodup⟩ := List.nodup_cons.mp hnodup
        refine ⟨_, Pending.call_ok.mpr ⟨hnew _ (.head _), rfl⟩, ih.mpr ⟨hnodup, ?_, by simp⟩⟩
        intro id hid hseen
        rcases List.mem_cons.mp hseen with rfl | hold
        · exact hfirst hid
        · exact hnew id (.tail _ hid) hold

theorem Pending.next_assistant {message : AssistantMessage} :
    ids.next (.assistant message) = .ok ids' ↔
      ids.pending = [] ∧ message.toolCalls.foldlM Pending.call ids = .ok ids' := by
  refine require_then.trans ?_
  rw [List.isEmpty_iff]

/-- From these ids on, the messages are valid and leave no call unanswered. -/
def Accepts (ids : Pending) (drafts : List Draft) : Prop :=
  ∃ messages, drafts.mapM Draft.message = .ok messages ∧
    ∃ ids', messages.foldlM Pending.next ids = .ok ids' ∧ ids'.pending = []

theorem accepts_nil : Accepts ids [] ↔ ids.pending = [] := by
  constructor
  · rintro ⟨messages, hmessages, ids', hids, hpending⟩
    cases hmessages
    cases hids
    exact hpending
  · exact fun h => ⟨[], rfl, ids, rfl, h⟩

theorem accepts_cons : Accepts ids (draft :: rest) ↔
    ∃ message, draft.message = .ok message ∧ ∃ next, ids.next message = .ok next ∧ Accepts next rest := by
  constructor
  · rintro ⟨messages, hmessages, ids', hids, hpending⟩
    rw [List.mapM_cons, Except.bind_eq_ok] at hmessages
    obtain ⟨message, hmessage, others⟩ := hmessages
    rw [Except.bind_eq_ok] at others
    obtain ⟨others, hothers, h⟩ := others
    cases h
    rw [List.foldlM_cons, Except.bind_eq_ok] at hids
    obtain ⟨next, hnext, hrest⟩ := hids
    exact ⟨message, hmessage, next, hnext, others, hothers, ids', hrest, hpending⟩
  · rintro ⟨message, hmessage, next, hnext, others, hothers, ids', hrest, hpending⟩
    refine ⟨message :: others, ?_, ids', ?_, hpending⟩
    · rw [List.mapM_cons, hmessage, hothers]
      rfl
    · rw [List.foldlM_cons, hnext]
      exact hrest

theorem AssistantMessage.make_ok {content : Option String} {toolCalls : List ToolCall}
    {message : AssistantMessage} : AssistantMessage.make content toolCalls = .ok message ↔
      (toolCalls.map ToolCall.callId).Nodup ∧ message.content = content ∧
        message.toolCalls = toolCalls := by
  unfold AssistantMessage.make
  split
  next h =>
    constructor
    · intro heq
      cases heq
      exact ⟨h, rfl, rfl⟩
    · rintro ⟨-, rfl, rfl⟩
      rfl
  next h => simp [h]

theorem Draft.message_assistant {content : Option String} {toolCalls : List ToolCall}
    (h : (toolCalls.map ToolCall.callId).Nodup) :
    (Draft.assistant content toolCalls).message = .ok (.assistant ⟨content, toolCalls, h⟩) := by
  have hmake : AssistantMessage.make content toolCalls = .ok ⟨content, toolCalls, h⟩ := dif_pos h
  rw [Draft.message, hmake]
  rfl

/-! ## What the loop accepts -/

/-- Behind every message come the answers to its calls, in any order. -/
def Answered : List Draft → Prop
  | [] => True
  | .toolResult _ :: rest => Answered rest
  | draft :: rest => (answers rest).Perm draft.callIds ∧ Answered rest

theorem accepts_iff : Accepts ids drafts ↔ (answers drafts).Perm ids.pending ∧ Answered drafts ∧
    (drafts.flatMap Draft.callIds).Nodup ∧ ∀ id ∈ drafts.flatMap Draft.callIds, id ∉ ids.seen := by
  induction drafts generalizing ids with
  | nil =>
      rw [accepts_nil, answers_nil, List.nil_perm]
      simp [Answered]
  | cons draft rest ih =>
      rw [accepts_cons]
      cases draft with
      | toolResult result =>
          rw [answers_toolResult, List.cons_perm_iff_perm_erase]
          constructor
          · rintro ⟨message, hmessage, next, hnext, hrest⟩
            cases hmessage
            obtain ⟨hpending, rfl⟩ := Pending.next_toolResult.mp hnext
            obtain ⟨hanswers, hothers⟩ := ih.mp hrest
            exact ⟨⟨hpending, hanswers⟩, hothers⟩
          · rintro ⟨⟨hpending, hanswers⟩, hothers⟩
            exact ⟨_, rfl, _, Pending.next_toolResult.mpr ⟨hpending, rfl⟩, ih.mpr ⟨hanswers, hothers⟩⟩
      | text role content =>
          rw [answers_text, List.nil_perm]
          constructor
          · rintro ⟨message, hmessage, next, hnext, hrest⟩
            cases hmessage
            obtain ⟨hpending, rfl⟩ := Pending.next_text.mp hnext
            obtain ⟨hanswers, hothers, hids⟩ := ih.mp hrest
            rw [hpending] at hanswers
            exact ⟨hpending, ⟨hanswers, hothers⟩, hids⟩
          · rintro ⟨hpending, ⟨hanswers, hothers⟩, hids⟩
            refine ⟨_, rfl, _, Pending.next_text.mpr ⟨hpending, rfl⟩, ih.mpr ⟨?_, hothers, hids⟩⟩
            rw [hpending]
            exact hanswers
      | assistant content toolCalls =>
          rw [answers_assistant, List.nil_perm, List.flatMap_cons, List.nodup_append]
          constructor
          · rintro ⟨message, hmessage, next, hnext, hrest⟩
            simp only [Draft.message, Except.bind_eq_ok, Except.pure_eq_ok] at hmessage
            obtain ⟨made, hmade, rfl⟩ := hmessage
            obtain ⟨-, -, rfl⟩ := AssistantMessage.make_ok.mp hmade
            obtain ⟨hpending, hcalls⟩ := Pending.next_assistant.mp hnext
            obtain ⟨hnodup, hnew, rfl⟩ := Pending.calls_ok.mp hcalls
            obtain ⟨hanswers, hothers, hdistinct, hunseen⟩ := ih.mp hrest
            rw [hpending, List.append_nil] at hanswers
            refine ⟨hpending, ⟨hanswers.trans (List.reverse_perm _), hothers⟩, ⟨hnodup, hdistinct, ?_⟩, ?_⟩
            · rintro id hid other hother rfl
              exact hunseen id hother (List.mem_append_left _ (List.mem_reverse.mpr hid))
            · intro id hid
              rcases List.mem_append.mp hid with hcall | hlater
              · exact hnew id hcall
              · exact fun hseen => hunseen id hlater (List.mem_append_right _ hseen)
          · rintro ⟨hpending, ⟨hanswers, hothers⟩, ⟨hnodup, hdistinct, hapart⟩, hunseen⟩
            refine ⟨_, Draft.message_assistant hnodup, _, Pending.next_assistant.mpr
              ⟨hpending, Pending.calls_ok.mpr ⟨hnodup, ?_, rfl⟩⟩, ih.mpr ⟨?_, hothers, hdistinct, ?_⟩⟩
            · exact fun id hid => hunseen id (List.mem_append_left _ hid)
            · rw [hpending, List.append_nil]
              exact hanswers.trans (List.reverse_perm _).symm
            · intro id hid hseen
              rcases List.mem_append.mp hseen with hcall | hold
              · exact hapart id (List.mem_reverse.mp hcall) id hid rfl
              · exact hunseen id (List.mem_append_right _ hid) hold

/-! ## The conditions one by one -/

/-- The calls that a tool result behind these messages may answer. -/
def owner (before : List Draft) : List String :=
  match nearest before with
  | some draft => draft.callIds
  | none => []

theorem nearest_append (before : List Draft) (draft : Draft) :
    nearest (before ++ [draft]) = if draft.isResult then nearest before else some draft := by
  unfold nearest
  rw [List.reverse_append, List.reverse_singleton, List.singleton_append, List.find?_cons]
  cases draft.isResult <;> rfl

theorem mem_owner {id : String} : id ∈ owner before ↔ ∃ content toolCalls,
    nearest before = some (.assistant content toolCalls) ∧ id ∈ toolCalls.map ToolCall.callId := by
  unfold owner
  cases nearest before with
  | none => simp
  | some draft =>
      cases draft with
      | assistant content toolCalls => simp [Draft.callIds]
      | text role content => simp [Draft.callIds]
      | toolResult result => simp [Draft.callIds]

/-- The tool results answer calls of the last message that is none, which begins as the one with
the calls `pool`. -/
def Called (pool : List String) : List Draft → Prop
  | [] => True
  | .toolResult result :: rest => result.callId ∈ pool ∧ Called pool rest
  | draft :: rest => Called draft.callIds rest

theorem called_iff : Called (owner before) drafts ↔ ∀ between result after,
    drafts = between ++ .toolResult result :: after → result.callId ∈ owner (before ++ between) := by
  induction drafts generalizing before with
  | nil => simp [Called]
  | cons draft rest ih =>
      have hstep : (∀ between result after, draft :: rest = between ++ .toolResult result :: after →
          result.callId ∈ owner (before ++ between)) ↔
          (∀ result, draft = .toolResult result → result.callId ∈ owner before) ∧
            Called (owner (before ++ [draft])) rest := by
        rw [ih]
        constructor
        · intro h
          refine ⟨fun result hresult => ?_, fun between result after hrest => ?_⟩
          · have hfirst := h [] result rest (by rw [hresult]; rfl)
            rwa [List.append_nil] at hfirst
          · have hlater := h (draft :: between) result after (by rw [hrest]; rfl)
            rwa [List.append_cons] at hlater
        · rintro ⟨hfirst, hlater⟩ between result after heq
          cases between with
          | nil =>
              cases heq
              rw [List.append_nil]
              exact hfirst result rfl
          | cons first between =>
              cases heq
              rw [List.append_cons]
              exact hlater between result after rfl
      rw [hstep]
      unfold owner
      rw [nearest_append]
      cases draft with
      | toolResult result => simp [Called, Draft.isResult, Draft.resultId]
      | text role content => simp [Called, Draft.isResult, Draft.resultId]
      | assistant content toolCalls => simp [Called, Draft.isResult, Draft.resultId]

/-- Every call is answered once. -/
def Once : List Draft → Prop
  | [] => True
  | draft :: rest => (∀ id ∈ draft.callIds, (answers rest).count id = 1) ∧ Once rest

theorem once_iff : Once drafts ↔ ∀ before content toolCalls after,
    drafts = before ++ .assistant content toolCalls :: after →
      ∀ call ∈ toolCalls, (answers after).count call.callId = 1 := by
  induction drafts with
  | nil => simp [Once]
  | cons draft rest ih =>
      rw [Once, ih]
      constructor
      · rintro ⟨hfirst, hlater⟩ before content toolCalls after heq call hcall
        cases before with
        | nil =>
            cases heq
            exact hfirst call.callId (List.mem_map_of_mem hcall)
        | cons first before =>
            cases heq
            exact hlater before content toolCalls after rfl call hcall
      · intro h
        refine ⟨fun id hid => ?_, fun before content toolCalls after heq => ?_⟩
        · cases draft with
          | assistant content toolCalls =>
              obtain ⟨call, hcall, rfl⟩ := List.mem_map.mp hid
              exact h [] content toolCalls rest rfl call hcall
          | text role content => cases hid
          | toolResult result => cases hid
        · exact h (draft :: before) content toolCalls after (by rw [heq]; rfl)

/-- The answers are those to the calls, each once. -/
theorem perm_iff_once {found calls : List String} (hnodup : calls.Nodup) :
    found.Perm calls ↔ found ⊆ calls ∧ ∀ id ∈ calls, found.count id = 1 := by
  constructor
  · intro h
    refine ⟨h.subset, fun id hid => ?_⟩
    rw [h.count_eq, List.count_eq_one_of_mem hnodup hid]
  · rintro ⟨hsubset, hcount⟩
    rw [List.perm_iff_count]
    intro id
    by_cases hid : id ∈ calls
    · rw [hcount id hid, List.count_eq_one_of_mem hnodup hid]
    · rw [List.count_eq_zero_of_not_mem hid, List.count_eq_zero_of_not_mem fun h => hid (hsubset h)]

theorem answered_iff (hdistinct : (drafts.flatMap Draft.callIds).Nodup) :
    Called pool drafts ∧ Once drafts ↔ answers drafts ⊆ pool ∧ Answered drafts := by
  induction drafts generalizing pool with
  | nil => simp [Called, Once, Answered]
  | cons draft rest ih =>
      rw [List.flatMap_cons, List.nodup_append] at hdistinct
      obtain ⟨hnodup, hrest, -⟩ := hdistinct
      have hblock : Called draft.callIds rest ∧ Once (draft :: rest) ↔
          (answers rest).Perm draft.callIds ∧ Answered rest := by
        rw [Once, and_left_comm, ih hrest, ← and_assoc, perm_iff_once hnodup]
        exact and_congr_left' and_comm
      cases draft with
      | toolResult result =>
          simp only [Called, Once, Answered, Draft.callIds, answers_toolResult, List.cons_subset,
            List.not_mem_nil, false_implies, implies_true, true_and, and_assoc, ih hrest]
      | text role content =>
          rw [answers_text]
          exact hblock.trans (and_iff_right (List.nil_subset _)).symm
      | assistant content toolCalls =>
          rw [answers_assistant]
          exact hblock.trans (and_iff_right (List.nil_subset _)).symm

theorem conversation_iff : Conversation drafts ↔
    (drafts.flatMap Draft.callIds).Nodup ∧ answers drafts = [] ∧ Answered drafts := by
  have hstart : owner [] = [] := rfl
  constructor
  · intro h
    have hboth : Called (owner []) drafts ∧ Once drafts := by
      refine ⟨called_iff.mpr fun between result after heq => ?_, once_iff.mpr h.answered⟩
      exact mem_owner.mpr (h.called between result after heq)
    obtain ⟨hanswers, hanswered⟩ := (answered_iff h.distinct).mp hboth
    rw [hstart, List.subset_nil] at hanswers
    exact ⟨h.distinct, hanswers, hanswered⟩
  · rintro ⟨hdistinct, hanswers, hanswered⟩
    have hboth : Called (owner []) drafts ∧ Once drafts :=
      (answered_iff hdistinct).mpr ⟨by rw [hanswers]; exact List.nil_subset _, hanswered⟩
    refine ⟨hdistinct, fun between result after heq => ?_, once_iff.mp hboth.2⟩
    exact mem_owner.mp (called_iff.mp hboth.1 between result after heq)

theorem accepts_iff_conversation : Accepts ⟨[], []⟩ drafts ↔ Conversation drafts := by
  rw [accepts_iff, conversation_iff, List.perm_nil]
  simp only [List.not_mem_nil, not_false_eq_true, implies_true, and_true]
  tauto

end Inference

open Inference

theorem continuationIds_ok {messages : List Message} {tools : List ToolDefinition} :
    continuationIds messages tools = .ok () ↔
      (∃ ids, messages.foldlM Pending.next ⟨[], []⟩ = .ok ids ∧ ids.pending = []) ∧
        (tools.map ToolDefinition.name).Nodup := by
  simp only [continuationIds, Except.bind_eq_ok, require_eq_ok, List.isEmpty_iff,
    decide_eq_true_eq, exists_const]
  constructor
  · rintro ⟨ids, hids, hpending, hnodup⟩
    exact ⟨⟨ids, hids, hpending⟩, hnodup⟩
  · rintro ⟨⟨ids, hids, hpending⟩, hnodup⟩
    exact ⟨ids, hids, hpending, hnodup⟩

theorem make_isOk {model : ModelRef} {messages : List Message} {tools : List ToolDefinition}
    {taskId : Option String} :
    (∃ request, InferenceRequest.make model messages tools taskId = .ok request) ↔
      messages ≠ [] ∧ continuationIds messages tools = .ok () := by
  unfold InferenceRequest.make
  by_cases hne : messages = []
  · simp [hne]
  · rw [dif_neg hne]
    split
    next hvalid => simp [hne, hvalid]
    next e herror => simp [herror]

/-- A request is accepted exactly if its messages are a conversation, and its tools have
names of their own. -/
theorem validate_iff_conversation (model : ModelRef) (drafts : List Draft)
    (tools : List ToolDefinition) (taskId : Option String) :
    (∃ request, InferenceRequest.validate model drafts tools taskId = .ok request) ↔
      drafts ≠ [] ∧ Conversation drafts ∧ (tools.map ToolDefinition.name).Nodup := by
  have hempty {messages : List Message} (h : drafts.mapM Draft.message = .ok messages) :
      messages = [] ↔ drafts = [] := by
    cases drafts with
    | nil =>
        cases h
        simp
    | cons draft rest =>
        simp only [List.mapM_cons, Except.bind_eq_ok, Except.pure_eq_ok] at h
        obtain ⟨message, -, others, -, rfl⟩ := h
        simp
  rw [← accepts_iff_conversation]
  simp only [InferenceRequest.validate, Except.bind_eq_ok]
  constructor
  · rintro ⟨request, messages, hmessages, hmake⟩
    obtain ⟨hne, hvalid⟩ := make_isOk.mp ⟨request, hmake⟩
    obtain ⟨haccepted, hnodup⟩ := continuationIds_ok.mp hvalid
    exact ⟨fun h => hne ((hempty hmessages).mpr h), ⟨messages, hmessages, haccepted⟩, hnodup⟩
  · rintro ⟨hne, ⟨messages, hmessages, haccepted⟩, hnodup⟩
    have hvalid := continuationIds_ok.mpr ⟨haccepted, hnodup⟩
    obtain ⟨request, hmake⟩ := make_isOk.mpr ⟨fun h => hne ((hempty hmessages).mp h), hvalid⟩
    exact ⟨request, messages, hmessages, hmake⟩

end Dante
