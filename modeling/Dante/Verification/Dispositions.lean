import Dante.Library.Ends
import Dante.Model.Reference
import Dante.Verification.Answers
import Dante.Verification.Dictionaries
import Dante.Verification.Gates
import Dante.Verification.Windows

/-! # What the dispositions of a continuity manager mean

A call of `infer` goes on with a response, is put off, or ends for good. Each outcome is traced
back to the exchanges that it rests on, whatever happens to the state between them. -/

namespace Dante

open Relational Concurrent Program

section Sound

variable [Platform] {manager : ContinuityManager} {call : InferenceCall} {excluded : Dict String}
  {previous : Option String} {l l' : List (Exchange InferenceStep.Reply Fault)}

/-- The request calls no provider. -/
def InferenceStep.uncalling : InferenceStep → Bool
  | .complete _ _ => false
  | _ => true

abbrev Uncalling (r : InferenceStep) : Prop :=
  r.uncalling = true

/-- The request neither calls a provider nor reads the clock. -/
def InferenceStep.silent : InferenceStep → Bool
  | .complete _ _ | .clock _ => false
  | _ => true

abbrev Silent (r : InferenceStep) : Prop :=
  r.silent = true

/-- A call of a provider has failed. -/
def Failing (l : List (Exchange InferenceStep.Reply Fault)) : Prop :=
  ∃ x ∈ l, (failureOf x).isSome = true

/-- The exchange is a call of the model that failed for good. -/
def Refuses (model : ModelRef) (x : Exchange InferenceStep.Reply Fault) : Prop :=
  ∃ adapter asked reply error, x = ⟨.complete adapter asked, reply⟩ ∧ asked.model = model ∧
    failureOf x = some error ∧ (classifyError error).2.2 = false

/-- The error ends the inference: an invalid request, or one that is in no class. -/
def Ending (error : InferenceError) : Prop :=
  error.cls.isA .invalidRequest = true ∨
    classifications.find? (fun row => error.cls.isA row.1) = none

/-- The model is not for this request: a static gate denies it, its provider has no free adapter,
or it has refused the request. -/
inductive Barred (manager : ContinuityManager) (call : InferenceCall)
    (l : List (Exchange InferenceStep.Reply Fault)) (model : ModelRef) : Prop where
  | denied (reason : String) (h : manager.router.denial call.privacy
      (requested call.capabilities call.tools) manager.policy call.contextTokens model =
        .ok (some reason))
  | unadapted (h : manager.gateway.freeAdapter model = none)
  | refused (h : ∃ x ∈ l, Refuses model x)

/-- The outcome is what the exchanges of the call say. -/
structure Sound (manager : ContinuityManager) (call : InferenceCall) (ended : InferenceOutcome)
    (l : List (Exchange InferenceStep.Reply Fault)) : Prop where
  /-- The response is that of the last call, and a fallback if and only if a call before it has
  failed. -/
  continueNow : ended.disposition = .continueNow → ∃ before adapter asked response after fallback,
    l = before ++ ⟨.complete adapter asked, .ok response⟩ :: after ∧
      (∀ x ∈ after, Uncalling x.1) ∧ ended.response = some { response with fallback := fallback } ∧
      (fallback = true ↔ Failing before)
  terminal : ended.disposition = .terminal → call.contextTokens.any (· ≤ 0) = true ∨
    (∃ x ∈ l, ∃ error, failureOf x = some error ∧ Ending error) ∨
      ∀ model ∈ manager.router.registry.candidates, Barred manager call l model
  /-- The time is later than the last reading of the clock before the decision. -/
  retryLater : ended.disposition = .retryLater → ∃ before purpose after, ∃ now time : ℚ,
    l = before ++ ⟨.clock purpose, .ok now⟩ :: after ∧ (∀ x ∈ after, Silent x.1) ∧
      ended.nextAttemptAt = some time ∧ now < time

/-! ## The exchanges of a round -/

/-- What a look at the candidates has found: usable models that have an adapter, or a time to try
again, or nothing but excluded models and models without adapters. -/
structure Looked (manager : ContinuityManager) (excluded : Dict String) (models : List ModelRef)
    (found : Scan) : Prop where
  usable : ∀ model ∈ found.usable, model ∈ models ∧ model.available = true ∧
    (manager.gateway.freeAdapter model).isSome = true
  none : found.usable = [] → found.retryDates = [] → ∀ model ∈ models,
    (excluded.lookup model.modelId).isSome = true ∨ manager.gateway.freeAdapter model = .none

omit [Platform] in
theorem Looked.denied {models : List ModelRef} {found : Scan} {model : ModelRef} {reason : String}
    (h : Looked manager excluded models found)
    (hdenied : (excluded.lookup model.modelId).isSome = true ∨
      manager.gateway.freeAdapter model = .none) :
    Looked manager excluded (models ++ [model]) (found.deny model reason) := by
  refine ⟨fun m hm => ?_, fun husable hdates m hm => ?_⟩
  · obtain ⟨hmem, hrest⟩ := h.usable m hm
    exact ⟨List.mem_append_left _ hmem, hrest⟩
  · rcases List.mem_append.mp hm with hold | hnew
    · exact h.none husable hdates m hold
    · rw [List.mem_singleton.mp hnew]
      exact hdenied

omit [Platform] in
theorem Looked.judged {models : List ModelRef} {found : Scan} {model : ModelRef} {adapter : Adapter}
    {policy : ContinuityPolicy} {now : ℚ} {observation : Option BackendObservation}
    (h : Looked manager excluded models found)
    (hadapter : manager.gateway.freeAdapter model = some adapter) :
    Looked manager excluded (models ++ [model])
      (found.judge model (health policy now model observation)) := by
  cases hhealth : health policy now model observation with
  | usable =>
      refine ⟨fun m hm => ?_, fun husable => by simp [Scan.judge] at husable⟩
      rcases List.mem_append.mp hm with hold | hnew
      · obtain ⟨hmem, hrest⟩ := h.usable m hold
        exact ⟨List.mem_append_left _ hmem, hrest⟩
      · rw [List.mem_singleton.mp hnew]
        exact ⟨List.mem_append_right _ (.head _), Programs.health_usable hhealth, by rw [hadapter]; rfl⟩
  | denied reason retryAt cooldown =>
      refine ⟨fun m hm => ?_, fun _ hdates => by simp [Scan.judge] at hdates⟩
      obtain ⟨hmem, hrest⟩ := h.usable m hm
      exact ⟨List.mem_append_left _ hmem, hrest⟩

namespace Programs

variable {owner : Option Lease} {w : InferenceWorld}

end Programs

open Programs

end Sound

section Witness

local instance dispositionPlatform : Platform := .reference []

open Programs

end Witness

end Dante
