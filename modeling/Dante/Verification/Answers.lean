import Dante.Model.Qualification
import Dante.Verification.RoundParts

/-! # What a selected route answers

A route of one model leads to one call of the model's provider, unless the gateway refuses the
model. Whatever comes back is the response of that call, or an error that says why there is
none. -/

namespace Dante

open Relational Concurrent Program

variable [Platform] {l : List (Exchange InferenceStep.Reply Fault)}

/-- Why a call of a provider failed: the provider's error, or what the gateway finds wrong with
the response. -/
def failureOf : Exchange InferenceStep.Reply Fault → Option InferenceError
  | ⟨.complete _ _, .error (.inference error)⟩ => some error
  | ⟨.complete _ asked, .ok response⟩ =>
      match checkReply asked.model response with
      | .error (.inference error) => some error
      | _ => none
  | _ => none

/-- The gateway lets the model pass and has a free adapter of its provider. -/
structure Ready (gateway : InferenceGateway) (tools : List ToolDefinition) (model : ModelRef) :
    Prop where
  adapter : (gateway.freeAdapter model).isSome = true
  cost : model.costClass = .zero ∨ model.costClass = .localCompute ∧ model.isLocal = true
  automatic : gateway.registry.requireAutomatic model (!tools.isEmpty) = .ok ()

/-! ## Qualification with and without tools -/

/-- A gate that lets a model use tools also lets it do without. -/
def ModelRegistry.Lenient (registry : ModelRegistry) : Prop :=
  ∀ gate ∈ registry.qualificationGate, ∀ model, gate model true = .ok () → gate model false = .ok ()

theorem NodeQualificationGate.check_plain {gate : NodeQualificationGate} {model : ModelRef}
    (h : gate.check model true = .ok ()) : gate.check model false = .ok () := by
  simp only [check, QualificationStore.requireQualified, Except.bind_eq_ok, require_eq_ok,
    Bool.and_eq_true, decide_eq_true_eq] at h ⊢
  obtain ⟨identity, hidentity, u, hdescribes, result, hresult, hstate, -⟩ := h
  exact ⟨identity, hidentity, u, hdescribes, result, hresult, hstate, rfl⟩

/-- The gate that asks for the evidence of the node is lenient. -/
theorem ModelRegistry.lenient_of_node {registry : ModelRegistry} {gate : NodeQualificationGate}
    (h : registry.qualificationGate = some gate.check) : registry.Lenient := by
  intro other hother model hmodel
  rw [h] at hother
  cases hother
  exact NodeQualificationGate.check_plain hmodel

omit [Platform] in
theorem LocalModelMetadata.admissible_plain {metadata : LocalModelMetadata} {model : ModelRef}
    {machineProfile : String} (h : metadata.admissible model machineProfile true = true) :
    metadata.admissible model machineProfile false = true := by
  unfold admissible at h ⊢
  simp only [Bool.and_eq_true] at h ⊢
  exact ⟨h.1, rfl⟩

theorem ModelRegistry.Lenient.requireAutomatic {registry : ModelRegistry} {model : ModelRef}
    (hlenient : registry.Lenient) (h : registry.requireAutomatic model true = .ok ()) :
    registry.requireAutomatic model false = .ok () := by
  unfold ModelRegistry.requireAutomatic at h ⊢
  by_cases hlocal : model.isLocal
  · simp only [hlocal, Bool.not_true, Bool.false_eq_true, if_false, Except.bind_eq_ok,
      require_eq_ok] at h ⊢
    obtain ⟨u, hmetadata, hrest⟩ := h
    refine ⟨u, ?_, ?_⟩
    · cases hsome : model.localMetadata with
      | none => simp [hsome] at hmetadata
      | some metadata =>
          rw [hsome] at hmetadata
          exact metadata.admissible_plain hmetadata
    · cases hsome : registry.qualificationGate with
      | none =>
          rw [hsome] at hrest
          exact hrest
      | some gate =>
          simp only [hsome, Except.bind_eq_ok] at hrest ⊢
          obtain ⟨v, hgate, hidentity⟩ := hrest
          exact ⟨v, hlenient gate hsome model hgate, hidentity⟩
  · simp [hlocal]

/-- What a selected model answers, and the exchanges that led there. -/
inductive Answered (gateway : InferenceGateway) (tools : List ToolDefinition) (selected : ModelRef)
    (l : List (Exchange InferenceStep.Reply Fault)) :
    Except InferenceError InferenceResponse → List (Exchange InferenceStep.Reply Fault) → Prop where
  /-- The gateway refuses the model. -/
  | refused {error : InferenceError} (hready : ¬Ready gateway tools selected)
      (hclass : error.cls = .policyDenied ∨ error.cls = .qualificationDenied) :
      Answered gateway tools selected l (.error error) l
  /-- The call fails. -/
  | failed {adapter : Adapter} {request : InferenceRequest}
      {reply : Except Fault InferenceResponse} {error : InferenceError}
      (hprovider : adapter.providerId = selected.providerId) (hmodel : request.model = selected)
      (hfailure : failureOf ⟨.complete adapter request, reply⟩ = some error) :
      Answered gateway tools selected l (.error error) (l ++ [⟨.complete adapter request, reply⟩])
  | answered {adapter : Adapter} {request : InferenceRequest} {response : InferenceResponse}
      (hprovider : adapter.providerId = selected.providerId) (hmodel : request.model = selected)
      (hcheck : checkReply request.model response = .ok ()) :
      Answered gateway tools selected l (.ok { response with fallback := false })
        (l ++ [⟨.complete adapter request, .ok response⟩])

/-- The gateway passes a ready model on to its adapter. -/
theorem Ready.adapterFor {gateway : InferenceGateway} {tools : List ToolDefinition} {route : Route}
    (h : Ready gateway tools route.selectedModel) :
    (gateway.adapterFor route route.selectedModel).isSome = true := by
  have hcost : (route.selectedModel.costClass == .zero ||
      route.selectedModel.costClass == .localCompute && route.selectedModel.isLocal) = true := by
    simpa using h.cost
  simp only [InferenceGateway.adapterFor, bne_self_eq_false, Bool.false_eq_true, if_false, hcost,
    Bool.not_true]
  exact h.adapter

namespace Programs

end Programs

end Dante
