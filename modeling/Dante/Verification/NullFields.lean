import Dante.Model.Reference
import Dante.Model.Adapters
import Dante.Verification.Dictionaries

/-! # Replies with null fields

A provider may leave an optional field of its reply out, or send null. The adapters take the two
for the same, except for the list of tool calls. -/

namespace Dante

open JsonText Adapters

/-! ## Setting a field to null -/

/-- The optional fields of a chat completion. -/
inductive OptionalField where
  | content
  | toolCalls
  | finishReason
  | usage
  deriving DecidableEq, Repr

/-- `value[key] = None`, where the key is absent. -/
def addNull (key : String) : Json → Option Json
  | .obj fields =>
      if (fields.lookup key).isSome then none else some (.obj (Dict.set fields key .null))
  | _ => none

/-- `value[key] = f(value[key])`. -/
def changeItem (key : String) (f : Json → Option Json) : Json → Option Json
  | .obj fields => do
      let v ← fields.lookup key
      let v' ← f v
      pure (.obj (Dict.set fields key v'))
  | _ => none

/-- `value[0] = f(value[0])`. -/
def changeFirst (f : Json → Option Json) : Json → Option Json
  | .arr (v :: rest) => do
      let v' ← f v
      pure (.arr (v' :: rest))
  | _ => none

/-- The payload with the absent field set to null. -/
def OptionalField.nullified : OptionalField → Json → Option Json
  | .usage => addNull "usage"
  | .finishReason => changeItem "choices" (changeFirst (addNull "finish_reason"))
  | .content => changeItem "choices" (changeFirst (changeItem "message" (addNull "content")))
  | .toolCalls => changeItem "choices" (changeFirst (changeItem "message" (addNull "tool_calls")))

variable {v v' w w' : Json} {key other : String} {f : Json → Option Json}

theorem addNull_eq_some (h : addNull key v = some v') :
    ∃ fields, v = .obj fields ∧ fields.lookup key = none ∧ v' = .obj (Dict.set fields key .null) := by
  cases v with
  | obj fields =>
      simp only [addNull, Option.ite_none_left_eq_some, Option.some.injEq] at h
      obtain ⟨habsent, rfl⟩ := h
      exact ⟨fields, rfl, Option.not_isSome_iff_eq_none.mp habsent, rfl⟩
  | _ => cases h

theorem addNull_get (h : addNull key v = some v') :
    v.get key = some none ∧ v'.get key = some (some .null) := by
  obtain ⟨fields, rfl, habsent, rfl⟩ := addNull_eq_some h
  simp [habsent, Dict.lookup_set]

theorem addNull_other (h : addNull key v = some v') (hne : key ≠ other) :
    v'.get other = v.get other ∧ v'.item other = v.item other := by
  obtain ⟨fields, rfl, -, rfl⟩ := addNull_eq_some h
  simp [Dict.lookup_set, hne]

theorem changeItem_item (h : changeItem key f v = some v') :
    ∃ x x', v.item key = some x ∧ f x = some x' ∧ v'.item key = some x' := by
  cases v with
  | obj fields =>
      simp only [changeItem, Option.bind_eq_bind, Option.bind_eq_some_iff, Option.pure_def,
        Option.some.injEq] at h
      obtain ⟨x, hx, x', hx', rfl⟩ := h
      exact ⟨x, x', hx, hx', by simp [Dict.lookup_set]⟩
  | _ => cases h

theorem changeItem_other (h : changeItem key f v = some v') (hne : key ≠ other) :
    v'.get other = v.get other ∧ v'.item other = v.item other := by
  cases v with
  | obj fields =>
      simp only [changeItem, Option.bind_eq_bind, Option.bind_eq_some_iff, Option.pure_def,
        Option.some.injEq] at h
      obtain ⟨x, hx, x', hx', rfl⟩ := h
      simp [Dict.lookup_set, hne]
  | _ => cases h

theorem item_of_get (h : v'.get key = v.get key) : v'.item key = v.item key := by
  cases v with
  | obj fields =>
      cases v' with
      | obj others => simpa using h
      | _ => cases h
  | _ =>
      cases v' with
      | obj others => cases h
      | _ => rfl

/-- A change of the first choice is one of the only choice, or there are several before and
after. -/
theorem onlyChoice_change (h : changeItem "choices" (changeFirst f) v = some v') :
    onlyChoice v = none ∧ onlyChoice v' = none ∨
      ∃ choice choice', onlyChoice v = some choice ∧ onlyChoice v' = some choice' ∧
        f choice = some choice' := by
  obtain ⟨x, x', hx, hfirst, hx'⟩ := changeItem_item h
  unfold onlyChoice
  rw [hx, hx']
  cases x with
  | arr items =>
      cases items with
      | nil => cases hfirst
      | cons choice rest =>
          simp only [changeFirst, Option.bind_eq_bind, Option.bind_eq_some_iff, Option.pure_def,
            Option.some.injEq] at hfirst
          obtain ⟨choice', hchoice, rfl⟩ := hfirst
          cases rest with
          | nil => exact .inr ⟨choice, choice', rfl, rfl, hchoice⟩
          | cons second rest => exact .inl ⟨rfl, rfl⟩
  | _ => cases hfirst

theorem onlyChoice_congr (h : v'.item "choices" = v.item "choices") : onlyChoice v' = onlyChoice v := by
  unfold onlyChoice
  rw [h]

/-! ## Readers that do not tell null from absent -/

theorem bind_congr_map {α β γ : Type} {x x' : Option α} {g : α → Option β} {k : β → Option γ}
    (hsame : x'.map g = x.map g) : (x'.bind fun a => (g a).bind k) = x.bind fun a => (g a).bind k := by
  have hbind (y : Option α) : (y.bind fun a => (g a).bind k) = (y.map g).bind (·.bind k) := by
    cases y <;> rfl
  rw [hbind, hbind, hsame]

theorem readReply_congr {model : ModelRef} {payload payload' choice choice' message message' : Json}
    {calls : List Inference.ToolCall} {cost : Option ℚ}
    (hcontent : (message'.get "content").map readContent = (message.get "content").map readContent)
    (husage : (payload'.get "usage").map readUsage = (payload.get "usage").map readUsage)
    (hreason : (choice'.get "finish_reason").map readReason =
      (choice.get "finish_reason").map readReason) :
    readReply model payload' choice' message' calls cost =
      readReply model payload choice message calls cost := by
  simp only [readReply, readAssistant, Option.bind_eq_bind, Option.bind_assoc]
  rw [bind_congr_map hcontent]
  simp only [bind_congr_map husage, bind_congr_map hreason]

/-- Payloads that the adapters read alike. -/
structure Alike (payload payload' : Json) : Prop where
  usage : (payload'.get "usage").map readUsage = (payload.get "usage").map readUsage
  served : payload'.get "model" = payload.get "model"
  envelope : payload'.get "error" = payload.get "error"
  choice : onlyChoice payload = none ∧ onlyChoice payload' = none ∨
    ∃ choice choice', onlyChoice payload = some choice ∧ onlyChoice payload' = some choice' ∧
      (choice'.get "finish_reason").map readReason = (choice.get "finish_reason").map readReason ∧
      (choice.item "message" = none ∧ choice'.item "message" = none ∨
        ∃ message message', choice.item "message" = some message ∧
          choice'.item "message" = some message' ∧
          (message'.get "content").map readContent = (message.get "content").map readContent ∧
          message'.get "role" = message.get "role" ∧
          message'.get "tool_calls" = message.get "tool_calls")

variable {payload payload' : Json}

/-- A choice that stays the same. -/
theorem Alike.of_same (husage : (payload'.get "usage").map readUsage =
      (payload.get "usage").map readUsage) (hserved : payload'.get "model" = payload.get "model")
    (henvelope : payload'.get "error" = payload.get "error")
    (hchoice : onlyChoice payload' = onlyChoice payload) : Alike payload payload' := by
  refine ⟨husage, hserved, henvelope, ?_⟩
  cases hfound : onlyChoice payload with
  | none => exact .inl ⟨rfl, hchoice.trans hfound⟩
  | some choice =>
      refine .inr ⟨choice, choice, rfl, hchoice.trans hfound, rfl, ?_⟩
      cases hmessage : choice.item "message" with
      | none => exact .inl ⟨rfl, rfl⟩
      | some message => exact .inr ⟨message, message, rfl, rfl, rfl, rfl, rfl⟩

/-- A field that is no tool calls may be null. -/
theorem alike_of_nullified {field : OptionalField} (h : field.nullified payload = some payload')
    (hfield : field ≠ .toolCalls) : Alike payload payload' := by
  cases field with
  | toolCalls => exact absurd rfl hfield
  | usage =>
      obtain ⟨habsent, hnull⟩ := addNull_get h
      refine .of_same ?_ (addNull_other h (by decide)).1 (addNull_other h (by decide)).1
        (onlyChoice_congr (addNull_other h (by decide)).2)
      rw [habsent, hnull]
      rfl
  | finishReason =>
      refine ⟨congrArg _ (changeItem_other h (by decide)).1, (changeItem_other h (by decide)).1,
        (changeItem_other h (by decide)).1, ?_⟩
      rcases onlyChoice_change h with hnone | ⟨choice, choice', hchoice, hchoice', hnull⟩
      · exact .inl hnone
      · obtain ⟨habsent, hset⟩ := addNull_get hnull
        have hmessage : choice'.item "message" = choice.item "message" :=
          (addNull_other hnull (by decide)).2
        refine .inr ⟨choice, choice', hchoice, hchoice', by rw [habsent, hset]; rfl, ?_⟩
        cases hfound : choice.item "message" with
        | none => exact .inl ⟨rfl, hmessage.trans hfound⟩
        | some message =>
            exact .inr ⟨message, message, rfl, hmessage.trans hfound, rfl, rfl, rfl⟩
  | content =>
      refine ⟨congrArg _ (changeItem_other h (by decide)).1, (changeItem_other h (by decide)).1,
        (changeItem_other h (by decide)).1, ?_⟩
      rcases onlyChoice_change h with hnone | ⟨choice, choice', hchoice, hchoice', hchange⟩
      · exact .inl hnone
      · obtain ⟨message, message', hmessage, hnull, hmessage'⟩ := changeItem_item hchange
        obtain ⟨habsent, hset⟩ := addNull_get hnull
        have hreason : choice'.get "finish_reason" = choice.get "finish_reason" :=
          (changeItem_other hchange (by decide)).1
        exact .inr ⟨choice, choice', hchoice, hchoice', congrArg _ hreason, .inr ⟨message, message',
          hmessage, hmessage', by rw [habsent, hset]; rfl, (addNull_other hnull (by decide)).1,
          (addNull_other hnull (by decide)).1⟩⟩

section Readings

variable [Codec] {model : ModelRef} {ref : String} {header : Option String}

theorem aiCloudResult_congr (h : Alike payload payload') :
    aiCloudResult model payload' header = aiCloudResult model payload header := by
  unfold aiCloudResult
  rcases h.choice with ⟨hnone, hnone'⟩ | ⟨choice, choice', hchoice, hchoice', hreason, hmessage⟩
  · rw [hnone, hnone']
    rfl
  · rw [hchoice, hchoice']
    rcases hmessage with ⟨hnone, hnone'⟩ | ⟨message, message', hmessage, hmessage', hcontent, hrole,
      hcalls⟩
    · simp [hnone, hnone']
    · have hread : aiCloudCalls message' = aiCloudCalls message := by
        unfold aiCloudCalls
        rw [hcalls]
      simp only [Option.bind_eq_bind, Option.bind_some, hmessage, hmessage', hrole, hread,
        readReply_congr hcontent h.usage hreason]

theorem llamaCppResult_congr (h : Alike payload payload') :
    llamaCppResult model ref payload' = llamaCppResult model ref payload := by
  unfold llamaCppResult
  rcases h.choice with ⟨hnone, hnone'⟩ | ⟨choice, choice', hchoice, hchoice', hreason, hmessage⟩
  · rw [hnone, hnone']
    rfl
  · rw [hchoice, hchoice']
    rcases hmessage with ⟨hnone, hnone'⟩ | ⟨message, message', hmessage, hmessage', hcontent, hrole,
      hcalls⟩
    · simp [hnone, hnone']
    · have hread : llamaCppCalls message' = llamaCppCalls message := by
        unfold llamaCppCalls
        rw [hcalls]
      simp only [Option.bind_eq_bind, Option.bind_some, hmessage, hmessage', item_of_get hrole,
        h.served, hread, readReply_congr hcontent h.usage hreason]

omit [Codec] in
theorem enveloped_congr (h : payload'.get "error" = payload.get "error") :
    enveloped payload' = enveloped payload := by
  cases payload with
  | obj fields =>
      cases payload' with
      | obj others =>
          simp only [Json.get_obj, Option.some.injEq] at h
          simp only [enveloped, h]
      | _ => cases h
  | _ =>
      cases payload' with
      | obj others => cases h
      | _ => rfl

omit [Codec] in
/-- With null for the calls, the message is that of the only choice. -/
theorem OptionalField.nullified_toolCalls (h : toolCalls.nullified payload = some payload') :
    onlyChoice payload = none ∧ onlyChoice payload' = none ∨
      ∃ choice choice' message message', onlyChoice payload = some choice ∧
        onlyChoice payload' = some choice' ∧ choice.item "message" = some message ∧
        choice'.item "message" = some message' ∧ message.get "tool_calls" = some none ∧
        message'.get "tool_calls" = some (some .null) := by
  rcases onlyChoice_change h with hnone | ⟨choice, choice', hchoice, hchoice', hchange⟩
  · exact .inl hnone
  · obtain ⟨message, message', hmessage, hnull, hmessage'⟩ := changeItem_item hchange
    obtain ⟨habsent, hset⟩ := addNull_get hnull
    exact .inr ⟨choice, choice', message, message', hchoice, hchoice', hmessage, hmessage', habsent,
      hset⟩

theorem aiCloudResult_null (h : OptionalField.toolCalls.nullified payload = some payload') :
    aiCloudResult model payload' header = none := by
  unfold aiCloudResult
  rcases OptionalField.nullified_toolCalls h with ⟨-, hnone⟩ | ⟨-, choice, -, message, -, hchoice, -,
    hmessage, -, hnull⟩
  · rw [hnone]
    rfl
  · have hcalls : aiCloudCalls message = none := by
      unfold aiCloudCalls
      rw [hnull]
      rfl
    simp [hchoice, hmessage, hcalls]

theorem llamaCppResult_null (h : OptionalField.toolCalls.nullified payload = some payload') :
    llamaCppResult model ref payload' = none := by
  unfold llamaCppResult
  rcases OptionalField.nullified_toolCalls h with ⟨-, hnone⟩ | ⟨-, choice, -, message, -, hchoice, -,
    hmessage, -, hnull⟩
  · rw [hnone]
    rfl
  · have hcalls : llamaCppCalls message = none := by
      unfold llamaCppCalls
      rw [hnull]
      rfl
    simp [hchoice, hmessage, hcalls]

end Readings

/-! ## Replies that only say something -/

def CountShape (count : Option Json) : Prop :=
  count = none ∨ count = some .null ∨ ∃ n : ℤ, count = some (.int n) ∧ 0 ≤ n

def UsageShape (usage : Option Json) : Prop :=
  usage = none ∨ usage = some .null ∨ ∃ fields, usage = some (.obj fields) ∧
    ∀ key ∈ ["prompt_tokens", "completion_tokens", "total_tokens"], CountShape (fields.lookup key)

/-- Any reason but that of a call. -/
def ReasonShape (reason : Option Json) : Prop :=
  ∀ v, reason = some v → hashable v = true ∧ v ≠ .str "tool_calls"

/-- The message of the only choice says something, in a reply that is well formed. -/
structure Says (payload choice message : Json) : Prop where
  only : payload.item "choices" = some (.arr [choice])
  chosen : choice.item "message" = some message
  text : ∃ content, message.item "content" = some (.str content) ∧ isBlank content = false
  usage : UsageShape (payload.item "usage")
  reason : ReasonShape (choice.item "finish_reason")

/-- A text reply for `AICloudLiteLLMAdapter`, with the cost header. -/
def AICloudText [Codec] (payload : Json) (header : Option String) : Prop :=
  ∃ choice message, Says payload choice message ∧
    (message.item "role" = none ∨ message.item "role" = some (.str "assistant")) ∧
    ∀ text, header = some text → ∃ cost, Codec.number text = some cost ∧ 0 ≤ cost

/-- A text reply for `LlamaCppAdapter`, of the model `ref`. -/
def LlamaCppText (ref : String) (payload : Json) : Prop :=
  ∃ choice message, Says payload choice message ∧ message.item "role" = some (.str "assistant") ∧
    (payload.item "model" = none ∨ payload.item "model" = some (.str ref)) ∧
    payload.item "error" = none

theorem readCount_isSome {count : Option Json} : (readCount count).isSome ↔ CountShape count := by
  unfold CountShape
  rcases count with - | (_ | b | n | r | text | items | fields)
  case some.int => by_cases hn : 0 ≤ n <;> simp [readCount, hn]
  all_goals simp [readCount]

theorem readUsage_isSome {usage : Option Json} : (readUsage usage).isSome ↔ UsageShape usage := by
  unfold UsageShape
  rcases usage with - | (_ | b | n | r | text | items | fields)
  case some.obj =>
    simp only [readUsage, Option.bind_eq_bind, Option.pure_def, Option.isSome_bind, Option.isSome_some,
      Option.any_eq_true, List.forall_mem_cons, ← readCount_isSome]
    simp [Option.isSome_iff_exists]
  all_goals simp [readUsage]

theorem readReason_some {reason : Option Json} :
    (∃ r, readReason reason = some r ∧ r ≠ .toolCalls) ↔ ReasonShape reason := by
  unfold ReasonShape
  rcases reason with - | (_ | b | n | r | text | items | fields)
  case some.str =>
    simp [readReason, hashable]
    split_ifs <;> simp_all
  all_goals simp [readReason, hashable]

/-- Only an object has a `get`. -/
theorem get_of_get {x : Option Json} (h : v.get key = some x) :
    v.get other = some (v.item other) := by
  cases v with
  | obj fields => rfl
  | _ => cases h

theorem get_of_item {x : Json} (h : v.item key = some x) : v.get other = some (v.item other) := by
  cases v with
  | obj fields => rfl
  | _ => cases h

theorem onlyChoice_eq_some {choice : Json} :
    onlyChoice payload = some choice ↔ payload.item "choices" = some (.arr [choice]) := by
  unfold onlyChoice
  cases hfound : payload.item "choices" with
  | none => simp
  | some choices =>
      cases choices with
      | arr items => rcases items with - | ⟨first, - | ⟨second, rest⟩⟩ <;> simp
      | _ => simp

theorem readAssistant_text {content : Option Json} :
    (readAssistant content []).isSome ↔
      ∃ text, content = some (.str text) ∧ isBlank text = false := by
  have hmake (content : Option String) :
      (Inference.AssistantMessage.make content []).toOption = some ⟨content, [], List.nodup_nil⟩ := rfl
  rcases content with - | (_ | b | n | r | text | items | fields)
  all_goals simp [readAssistant, readContent, hmake]

theorem readReply_isSome {model : ModelRef} {choice message : Json} {cost : Option ℚ}
    (honly : payload.item "choices" = some (.arr [choice]))
    (hchosen : choice.item "message" = some message) (hobject : message.get "tool_calls" = some none) :
    (readReply model payload choice message [] cost).isSome ↔ Says payload choice message := by
  unfold readReply
  rw [get_of_item honly, get_of_item hchosen, get_of_get hobject]
  constructor
  · intro h
    simp only [Option.bind_eq_bind, Option.bind_some, Option.isSome_bind, Option.any_eq_true] at h
    obtain ⟨assistant, hassistant, usage, husage, reason, hreason, hcalled⟩ := h
    refine ⟨honly, hchosen, readAssistant_text.mp (Option.isSome_of_mem hassistant),
      readUsage_isSome.mp (Option.isSome_of_mem husage), readReason_some.mp ⟨reason, hreason, ?_⟩⟩
    rintro rfl
    simp at hcalled
  · intro h
    obtain ⟨assistant, hassistant⟩ := Option.isSome_iff_exists.mp (readAssistant_text.mpr h.text)
    obtain ⟨usage, husage⟩ := Option.isSome_iff_exists.mp (readUsage_isSome.mpr h.usage)
    obtain ⟨reason, hreason, hcalled⟩ := readReason_some.mpr h.reason
    simp [hassistant, husage, hreason, hcalled]

section Readings

variable [Codec] {model : ModelRef} {ref : String} {header : Option String} {field : OptionalField}

theorem readCost_isSome : (readCost header).isSome ↔
    ∀ text, header = some text → ∃ cost, Codec.number text = some cost ∧ 0 ≤ cost := by
  cases header with
  | none => simp [readCost]
  | some text =>
      cases hnumber : Codec.number text with
      | none => simp [readCost, hnumber]
      | some cost => by_cases hcost : 0 ≤ cost <;> simp [readCost, hnumber, hcost]

omit [Codec] in
theorem says_unique {choice message choice' message' : Json} (honly : onlyChoice payload = some choice)
    (hmessage : choice.item "message" = some message) (h : Says payload choice' message') :
    choice' = choice ∧ message' = message := by
  have hchoice : choice' = choice := by
    rw [onlyChoice_eq_some.mpr h.only] at honly
    exact Option.some.inj honly
  subst hchoice
  exact ⟨rfl, Option.some.inj (h.chosen.symm.trans hmessage)⟩

theorem aiCloudResult_isSome (h : OptionalField.toolCalls.nullified payload = some payload') :
    (aiCloudResult model payload header).isSome ↔ AICloudText payload header := by
  unfold aiCloudResult AICloudText
  rcases OptionalField.nullified_toolCalls h with ⟨hnone, -⟩ | ⟨choice, -, message, -, hchoice, -,
    hmessage, -, habsent, -⟩
  · rw [hnone]
    constructor
    · intro h
      cases h
    · rintro ⟨choice, message, hsays, -⟩
      rw [onlyChoice_eq_some.mpr hsays.only] at hnone
      cases hnone
  · have hcalls : aiCloudCalls message = some [] := by
      unfold aiCloudCalls
      rw [habsent]
      rfl
    have hreply (cost : Option ℚ) : (readReply model payload choice message [] cost).isSome ↔
        Says payload choice message :=
      readReply_isSome (onlyChoice_eq_some.mp hchoice) hmessage habsent
    simp only [Option.bind_eq_bind, Option.bind_some, hchoice, hmessage, get_of_get habsent, hcalls]
    rw [← readCost_isSome]
    constructor
    · intro hsome
      split at hsome
      · cases hsome
      next hrole =>
        obtain ⟨reply, hread⟩ := Option.isSome_iff_exists.mp hsome
        obtain ⟨cost, hcost, hread⟩ := Option.bind_eq_some_iff.mp hread
        refine ⟨choice, message, (hreply cost).mp (Option.isSome_of_mem hread), ?_,
          Option.isSome_of_mem hcost⟩
        cases hfound : message.item "role" with
        | none => exact .inl rfl
        | some role => simpa [hfound] using hrole
    · rintro ⟨choice', message', hsays, hrole, hheader⟩
      obtain ⟨rfl, rfl⟩ := says_unique hchoice hmessage hsays
      obtain ⟨cost, hcost⟩ := Option.isSome_iff_exists.mp hheader
      rw [if_neg (by rcases hrole with hrole | hrole <;> simp [hrole]), hcost]
      exact (hreply cost).mpr hsays

theorem llamaCppResult_isSome (h : OptionalField.toolCalls.nullified payload = some payload')
    (henvelope : enveloped payload = true) :
    (llamaCppResult model ref payload).isSome ↔ LlamaCppText ref payload := by
  unfold llamaCppResult LlamaCppText
  rcases OptionalField.nullified_toolCalls h with ⟨hnone, -⟩ | ⟨choice, -, message, -, hchoice, -,
    hmessage, -, habsent, -⟩
  · rw [hnone]
    constructor
    · intro h
      cases h
    · rintro ⟨choice, message, hsays, -⟩
      rw [onlyChoice_eq_some.mpr hsays.only] at hnone
      cases hnone
  · have hcalls : llamaCppCalls message = some [] := by
      unfold llamaCppCalls
      rw [habsent]
      rfl
    have honly := onlyChoice_eq_some.mp hchoice
    have hreply : (readReply model payload choice message [] none).isSome ↔
        Says payload choice message :=
      readReply_isSome honly hmessage habsent
    have herror : payload.item "error" = none := by
      cases payload with
      | obj fields => simpa [enveloped] using henvelope
      | _ => rfl
    simp only [Option.bind_eq_bind, Option.bind_some, hchoice, hmessage, get_of_item honly, hcalls]
    constructor
    · intro hsome
      obtain ⟨reply, hread⟩ := Option.isSome_iff_exists.mp hsome
      obtain ⟨role, hrole, hread⟩ := Option.bind_eq_some_iff.mp hread
      split at hread
      · cases hread
      next hserved =>
        simp at hserved
        refine ⟨choice, message, hreply.mp (Option.isSome_of_mem hread), ?_, ?_, herror⟩
        · rw [hrole, hserved.1]
        · cases hfound : payload.item "model" with
          | none => exact .inl rfl
          | some served => simpa [hfound] using hserved.2
    · rintro ⟨choice', message', hsays, hrole, hserved, -⟩
      obtain ⟨rfl, rfl⟩ := says_unique hchoice hmessage hsays
      rw [hrole]
      have hserves : ((payload.item "model").any (·.asText ≠ some ref)) = false := by
        rcases hserved with hserved | hserved <;> simp [hserved]
      simp only [Option.bind_some, hserves]
      simpa using hreply.mpr hsays

omit [Codec] in
theorem LlamaCppText.enveloped (h : LlamaCppText ref payload) : enveloped payload = true := by
  obtain ⟨choice, message, hsays, -, -, herror⟩ := h
  have honly := hsays.only
  cases payload with
  | obj fields => simpa [Adapters.enveloped] using herror
  | _ => cases honly

/-- Setting an absent field to null changes the result only if the field is that of the calls
and the reply only says something. -/
theorem null_as_absent_iff (model : ModelRef) (ref : String) (header : Option String)
    (h : field.nullified payload = some payload') :
    (aiCloudComplete model payload' header = aiCloudComplete model payload header ↔
      (field = .toolCalls → ¬ AICloudText payload header)) ∧
    (llamaCppComplete model ref payload' = llamaCppComplete model ref payload ↔
      (field = .toolCalls → ¬ LlamaCppText ref payload)) := by
  by_cases hfield : field = .toolCalls
  · subst hfield
    have henvelope : enveloped payload' = enveloped payload :=
      enveloped_congr (changeItem_other h (by decide)).1
    simp only [forall_const]
    constructor
    · have htext : (aiCloudResult model payload header).isSome ↔ AICloudText payload header :=
        aiCloudResult_isSome h
      unfold aiCloudComplete
      rw [← htext, aiCloudResult_null h]
      cases aiCloudResult model payload header with
      | none => simp
      | some result =>
          simp only [Option.isSome_some, not_true_eq_false, iff_false]
          split
          · simp [invalidResponse]
          · simp
    · unfold llamaCppComplete
      rw [henvelope, llamaCppResult_null h]
      cases henveloped : enveloped payload with
      | false =>
          simp only [Bool.not_false, if_true, true_iff]
          intro htext
          rw [LlamaCppText.enveloped htext] at henveloped
          cases henveloped
      | true =>
          have htext : (llamaCppResult model ref payload).isSome ↔ LlamaCppText ref payload :=
            llamaCppResult_isSome h henveloped
          rw [← htext]
          cases llamaCppResult model ref payload <;> simp
  · have halike := alike_of_nullified h hfield
    simp only [hfield, false_implies, iff_true]
    constructor
    · unfold aiCloudComplete
      rw [aiCloudResult_congr halike]
    · unfold llamaCppComplete
      rw [llamaCppResult_congr halike, enveloped_congr halike.envelope]

end Readings

/-! ## A reply without calls -/

namespace Sample

/-- A reply that says hello; `fields` are more of its message, and `rest` more of the payload. -/
def reply (fields rest : List (String × Json)) : Json :=
  .obj ([("choices", .arr [.obj [("message", .obj ([("role", .str "assistant"),
    ("content", .str "Hello")] ++ fields)), ("finish_reason", .str "stop")]])] ++ rest)

end Sample

section Hello

open Sample

local instance plainCodec : Codec := .reference []

/-- Without calls the reply is taken, and with null for the calls it is refused. -/
theorem null_calls_refused :
    OptionalField.toolCalls.nullified (reply [] []) = some (reply [("tool_calls", .null)] []) ∧
      (aiCloudComplete (cloudModel "model") (reply [] []) none).toOption.isSome ∧
      aiCloudComplete (cloudModel "model") (reply [("tool_calls", .null)] []) none =
        .error (invalidResponse "Invalid inference response") ∧
      (llamaCppComplete (cloudModel "model") "model" (reply [] [])).toOption.isSome ∧
      llamaCppComplete (cloudModel "model") "model" (reply [("tool_calls", .null)] []) =
        .error (invalidResponse "Invalid llama.cpp response") :=
  ⟨rfl, rfl, rfl, rfl, rfl⟩

theorem null_as_absent_iff_usage :
    OptionalField.usage.nullified (reply [] []) = some (reply [] [("usage", .null)]) ∧
      aiCloudComplete (cloudModel "model") (reply [] [("usage", .null)]) none =
        aiCloudComplete (cloudModel "model") (reply [] []) none ∧
      llamaCppComplete (cloudModel "model") "model" (reply [] [("usage", .null)]) =
        llamaCppComplete (cloudModel "model") "model" (reply [] []) := by
  have hnull : OptionalField.usage.nullified (reply [] []) = some (reply [] [("usage", .null)]) := rfl
  have hfield (text : Prop) : OptionalField.usage = .toolCalls → ¬ text := by
    intro h
    cases h
  have hsame := null_as_absent_iff (cloudModel "model") "model" none hnull
  exact ⟨hnull, hsame.1.mpr (hfield _), hsame.2.mpr (hfield _)⟩

end Hello

end Dante
