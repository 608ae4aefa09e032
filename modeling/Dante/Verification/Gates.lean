import Dante.Verification.RoundParts

/-! # The gates in front of every provider call

A model reaches a provider by one of two ways: through `decide` and the gateway's own loop, or
round by round through the continuity manager. Both are followed from the router's tests to
the call; what the replies are on the way does not matter. -/

namespace Dante

open Relational Concurrent Program

section Runs

variable [Platform] {privacy : PrivacyDecision} {capabilities : Finset String} {model : ModelRef}

/-! ## What the routers have tested -/

omit [Platform] in
theorem LifecycleState.qualified_iff {state : LifecycleState} :
    state.qualified = true ↔ state = .approved ∨ state = .production := by
  simp [qualified]

/-- What both routers demand of a model. -/
structure Admissible (registry : ModelRegistry) (privacy : PrivacyDecision)
    (capabilities : Finset String) (model : ModelRef) : Prop where
  allowed : privacy.modelAllowed = true
  eligible : privacy.classification ∈ model.privacyEligibility
  placed : model.isLocal = true ∨ privacy.cloudAllowed = true
  cost : model.costClass = .zero ∨ model.costClass = .localCompute ∧ model.isLocal = true
  lifecycle : model.lifecycle = .approved ∨ model.lifecycle = .production
  capable : capabilities ⊆ model.capabilities
  automatic : registry.requireAutomatic model ("tool_calling" ∈ capabilities) = .ok ()

theorem admits_true {router : RuleBasedRouter} (hallowed : privacy.modelAllowed = true)
    (h : router.admits privacy capabilities model = .ok true) :
    Admissible router.registry privacy capabilities model := by
  unfold RuleBasedRouter.admits at h
  split at h
  next heligible =>
    simp only [ModelRef.eligible, Bool.and_eq_true, Bool.or_eq_true, beq_iff_eq,
      decide_eq_true_eq, LifecycleState.qualified_iff] at heligible
    obtain ⟨⟨⟨⟨⟨-, hlifecycle⟩, hcost⟩, hcapable⟩, hprivacy⟩, hplaced⟩ := heligible
    exact ⟨hallowed, hprivacy, hplaced.symm, hcost, hlifecycle, hcapable, passes_true.mp h⟩
  next => cases h

theorem survivors_mem {router : RuleBasedRouter} {models eligible : List ModelRef}
    (h : router.survivors privacy capabilities models = .ok eligible) :
    ∀ model ∈ eligible, model ∈ models ∧ router.admits privacy capabilities model = .ok true := by
  induction models generalizing eligible with
  | nil =>
      cases h
      simp
  | cons first rest ih =>
      simp only [RuleBasedRouter.survivors, Except.bind_eq_ok, Except.pure_eq_ok] at h
      obtain ⟨admitted, hadmitted, others, hothers, rfl⟩ := h
      intro model hmodel
      cases admitted with
      | false => exact ⟨.tail _ (ih hothers model hmodel).1, (ih hothers model hmodel).2⟩
      | true =>
          rcases List.mem_cons.mp hmodel with rfl | hrest
          · exact ⟨.head _, hadmitted⟩
          · exact ⟨.tail _ (ih hothers model hrest).1, (ih hothers model hrest).2⟩

/-- The candidates of a decision are admissible models of the selected one's locality. -/
theorem decide_candidates {router : RuleBasedRouter} {taskId : String} {route : Route}
    (h : router.decide taskId privacy capabilities = .ok route) :
    ∀ modelId ∈ route.candidates, ∀ model, router.registry.get modelId = .ok model →
      Admissible router.registry privacy capabilities model ∧
        model.isLocal = route.selectedModel.isLocal := by
  simp only [RuleBasedRouter.decide, Except.bind_eq_ok, require_eq_ok] at h
  obtain ⟨-, hallowed, eligible, heligible, h⟩ := h
  cases hsorted : eligible.insertionSort (routeOrder fun model => !model.isLocal) with
  | nil =>
      rw [hsorted] at h
      cases h
  | cons selected rest =>
      rw [hsorted] at h
      cases h
      intro modelId hid model hget
      simp only [List.mem_map, List.mem_filter, beq_iff_eq] at hid
      obtain ⟨other, ⟨hother, hlocal⟩, rfl⟩ := hid
      have hmem : other ∈ eligible := by
        rwa [← hsorted, List.mem_insertionSort] at hother
      obtain ⟨hregistered, hadmits⟩ := survivors_mem heligible other hmem
      obtain rfl := ModelRegistry.get_of_mem hregistered hget
      exact ⟨admits_true hallowed hadmits, hlocal⟩

/-- What a continuity policy demands of a model. -/
structure PolicyAdmits (policy : ContinuityPolicy) (contextTokens : Option ℤ) (model : ModelRef) :
    Prop where
  localOnly : policy.mode = .localOnly → model.isLocal = true
  cloudOnly : policy.mode = .cloudOnly → model.isLocal = false
  backend : policy.allowedBackends ≠ ∅ → model.providerId ∈ policy.allowedBackends
  specific : policy.mode = .specificAllowedBackends → policy.allowedBackends ≠ ∅
  verified : model.isLocal = false → model.costClass = .zero ∧ model.costVerification = .verifiedZero
  capacity : model.tooSmall contextTokens = false

theorem denial_none {router : RuleBasedRouter} {policy : ContinuityPolicy}
    {contextTokens : Option ℤ}
    (h : router.denial privacy capabilities policy contextTokens model = .ok none)
    (havailable : model.available = true) :
    Admissible router.registry privacy capabilities model ∧
      PolicyAdmits policy contextTokens model := by
  unfold RuleBasedRouter.denial at h
  split at h
  · cases h
  next hprivacy =>
  split at h
  · cases h
  next hpolicy =>
  split at h
  · cases h
  next hcost =>
  split at h
  · cases h
  next hlifecycle =>
  split at h
  · cases h
  next hcapable =>
  split at h
  · cases h
  next hcapacity =>
  simp only [Except.bind_eq_ok, Except.pure_eq_ok, ite_eq_left_iff, reduceCtorEq,
    imp_false, Bool.not_eq_true, Bool.not_eq_false] at h
  obtain ⟨qualified, hqualified, rfl⟩ := h
  have hsame : { model with available := true } = model := by rw [← havailable]
  rw [hsame] at hqualified
  simp only [Bool.or_eq_true, Bool.and_eq_true, Bool.not_eq_true', not_or, not_and,
    decide_eq_true_eq, Bool.not_eq_true, Bool.not_eq_false, bne_iff_ne, beq_iff_eq,
    ne_eq, not_not, ContinuityPolicy.refuses] at hprivacy hpolicy hcost hlifecycle hcapable hcapacity
  obtain ⟨⟨hallowed, heligible⟩, hplaced⟩ := hprivacy
  obtain ⟨⟨⟨hlocalOnly, hcloudOnly⟩, hbackend⟩, hspecific⟩ := hpolicy
  obtain ⟨hclass, hcloud⟩ := hcost
  refine ⟨⟨hallowed, heligible, ?_, ?_, LifecycleState.qualified_iff.mp hlifecycle, hcapable,
    passes_true.mp hqualified⟩, ⟨hlocalOnly, hcloudOnly, hbackend, hspecific, hcloud, hcapacity⟩⟩
  · cases hcloudAllowed : privacy.cloudAllowed with
    | true => exact .inr rfl
    | false => exact .inl (hplaced hcloudAllowed)
  · cases hlocal : model.isLocal with
    | true => exact hclass.imp_right fun h => ⟨h, rfl⟩
    | false => exact .inl (hcloud hlocal).1

theorem sift_mem {router : RuleBasedRouter} {policy : ContinuityPolicy} {contextTokens : Option ℤ}
    {models eligible : List ModelRef} {denied : Dict String}
    (h : router.sift privacy capabilities policy contextTokens models = .ok (eligible, denied)) :
    ∀ model ∈ eligible, model ∈ models ∧
      router.denial privacy capabilities policy contextTokens model = .ok none := by
  induction models generalizing eligible denied with
  | nil =>
      cases h
      simp
  | cons first rest ih =>
      simp only [RuleBasedRouter.sift, Except.bind_eq_ok, Prod.exists] at h
      obtain ⟨reason, hreason, others, otherDenied, hothers, h⟩ := h
      intro model hmodel
      cases reason with
      | some reason =>
          cases h
          exact ⟨.tail _ (ih hothers model hmodel).1, (ih hothers model hmodel).2⟩
      | none =>
          cases h
          rcases List.mem_cons.mp hmodel with rfl | hrest
          · exact ⟨.head _, hreason⟩
          · exact ⟨.tail _ (ih hothers model hrest).1, (ih hothers model hrest).2⟩

theorem continuityCandidates_mem {router : RuleBasedRouter} {policy : ContinuityPolicy}
    {contextTokens : Option ℤ} {eligible : List ModelRef} {denied : Dict String}
    (h : router.continuityCandidates privacy capabilities policy contextTokens =
      .ok (eligible, denied)) :
    ∀ model ∈ eligible, model ∈ router.registry.candidates ∧
      router.denial privacy capabilities policy contextTokens model = .ok none := by
  simp only [RuleBasedRouter.continuityCandidates, Except.bind_eq_ok, Prod.exists] at h
  obtain ⟨found, otherDenied, hsift, h⟩ := h
  cases h
  intro model hmodel
  exact sift_mem hsift model ((List.mem_insertionSort _).mp hmodel)

namespace Programs

variable {owner : Option Lease}

/-- What holds of every call that a continuity manager makes. -/
structure ManagerCalls (manager : ContinuityManager) (call : InferenceCall) (adapter : Adapter)
    (request : InferenceRequest) : Prop where
  admissible : Admissible manager.router.registry call.privacy
    (requested call.capabilities call.tools) request.model
  policy : PolicyAdmits manager.policy call.contextTokens request.model
  callable : Callable manager.gateway call.tools adapter request.model

theorem useRoute_uses {manager : ContinuityManager} {call : InferenceCall}
    {excluded : Dict String} {previous : Option String} {selected : ModelRef}
    (hselected : selected ∈ manager.gateway.registry.candidates)
    (hadmissible : Admissible manager.router.registry call.privacy
      (requested call.capabilities call.tools) selected)
    (hpolicy : PolicyAdmits manager.policy call.contextTokens selected) :
    (useRoute manager owner call excluded previous selected).Uses
      (Calls (ManagerCalls manager call)) := by
  refine (Uses.call (by simp [Calls])).bind fun _ => (Uses.call (by simp [Calls])).bind fun _ => ?_
  refine Uses.bind ((callSelected_uses hselected).mono ?_) fun answer => ?_
  · rintro r ⟨adapter, request, rfl, hmodel, hcallable⟩
    exact IsCall.calls ⟨adapter, request, rfl, hmodel ▸ hadmissible, hmodel ▸ hpolicy, hcallable⟩
  · exact (afterCall_bookkeeping answer).mono calls_of_bookkeeping

/-- The selected model passed the router's gates in this very round. -/
theorem inferRound_uses {manager : ContinuityManager} {call : InferenceCall}
    (hshared : manager.router.registry = manager.gateway.registry) {excluded : Dict String}
    {previous : Option String} :
    (inferRound manager owner call excluded previous).Uses (Calls (ManagerCalls manager call)) := by
  refine (Uses.call (by simp [Calls])).bind fun now => attempt_bind_uses fun found hfound => ?_
  obtain ⟨candidates, denied⟩ := found
  have hcandidates := continuityCandidates_mem hfound
  have hyields : (scan manager excluded now candidates ⟨[], [], [], denied⟩).Yields fun found =>
      ∀ model ∈ found.usable, model ∈ candidates ∧ model.available = true :=
    scan_yields (by simp) fun model hmodel havailable => ⟨hmodel, havailable⟩
  refine Uses.bind_of_yields (scan_bookkeeping.mono calls_of_bookkeeping) hyields
    fun found husable => ?_
  refine (Uses.call (by simp [Calls])).bind fun _ => ?_
  split
  next => exact (noRoute_bookkeeping.mono calls_of_bookkeeping).bind fun _ => trivial
  next selected rest hfound =>
    obtain ⟨hmem, havailable⟩ := husable selected (by simp [hfound])
    obtain ⟨hregistered, hdenial⟩ := hcandidates selected hmem
    obtain ⟨hadmissible, hpolicy⟩ := denial_none hdenial havailable
    refine reserve_calls.bind fun retryAt => ?_
    cases retryAt with
    | some time => exact (outcome_bookkeeping.mono calls_of_bookkeeping).bind fun _ => trivial
    | none => exact useRoute_uses (hshared ▸ hregistered) hadmissible hpolicy

theorem inferRounds_uses {manager : ContinuityManager} {call : InferenceCall}
    (hshared : manager.router.registry = manager.gateway.registry) (n : ℕ)
    (excluded : Dict String) (previous : Option String) :
    (inferRounds manager owner call n excluded previous).Uses
      (Calls (ManagerCalls manager call)) := by
  induction n generalizing excluded previous with
  | zero => trivial
  | succ n ih =>
      refine (inferRound_uses hshared).bind fun round => ?_
      cases round with
      | done ended => trivial
      | again excluded previous => exact ih excluded previous

theorem inferContinued_uses {manager : ContinuityManager} {call : InferenceCall}
    (hshared : manager.router.registry = manager.gateway.registry) (rounds : ℕ) :
    (inferContinued manager owner call rounds).Uses (Calls (ManagerCalls manager call)) := by
  refine Uses.bind ?_ fun ended => ?_
  · unfold continuityInfer
    split
    · exact (outcome_bookkeeping.mono calls_of_bookkeeping).bind fun _ => trivial
    · exact inferRounds_uses hshared rounds [] none
  · cases ended with
    | none => trivial
    | some ended =>
        simp only
        split <;> trivial

end Programs

open Programs

/-! ## A host's call -/

/-- The registry that both the router and the gateway of a host's call consult. -/
def InferenceHost.registry (host : InferenceHost) : ModelRegistry :=
  (host.continuity.elim host.gateway (·.gateway)).registry

/-- Every gate that a call of a provider has passed. -/
structure Gated (host : InferenceHost) (privacy : PrivacyDecision) (capabilities : Finset String)
    (tools : List ToolDefinition) (contextTokens : Option ℤ) (adapter : Adapter)
    (model : ModelRef) : Prop where
  notSecret : privacy.classification ≠ .secret
  eligible : privacy.classification ∈ model.privacyEligibility
  placed : model.isLocal = true ∨ privacy.cloudAllowed = true
  cost : model.costClass = .zero ∨ model.costClass = .localCompute ∧ model.isLocal = true
  provider : adapter.providerId = model.providerId
  free : adapter.automaticCost = 0
  lifecycle : model.lifecycle = .approved ∨ model.lifecycle = .production
  capable : requested capabilities tools ⊆ model.capabilities
  automatic : host.registry.requireAutomatic model
    ("tool_calling" ∈ requested capabilities tools) = .ok ()
  policy : ∀ manager ∈ host.continuity, PolicyAdmits manager.policy contextTokens model

/-- The decision of the privacy gate on a task's content and tools. -/
def InferenceHost.decision (host : InferenceHost) (task : Task) (content : String)
    (tools : List ToolDefinition) : PrivacyDecision :=
  host.privacy.classify (privacyContent content tools) task.privacyClass

theorem Gated.of_admissible {host : InferenceHost} {task : Task} {content : String}
    {tools : List ToolDefinition} {contextTokens : Option ℤ} {adapter : Adapter}
    {gateway : InferenceGateway} (hadmissible : Admissible host.registry
      (host.decision task content tools) (requested capabilities tools) model)
    (hcallable : Callable gateway tools adapter model)
    (hpolicy : ∀ manager ∈ host.continuity, PolicyAdmits manager.policy contextTokens model) :
    Gated host (host.decision task content tools) capabilities tools contextTokens adapter model where
  notSecret := by
    rw [InferenceHost.decision, PrivacyGate.classify_classification]
    exact (PrivacyGate.classify_modelAllowed ..).mp hadmissible.allowed
  eligible := hadmissible.eligible
  placed := hadmissible.placed
  cost := hadmissible.cost
  provider := hcallable.provider
  free := hcallable.free
  lifecycle := hadmissible.lifecycle
  capable := hadmissible.capable
  automatic := hadmissible.automatic
  policy := hpolicy

section Host

variable {host : InferenceHost} {owner : Option Lease} {taskId content : String}
  {tools : List ToolDefinition} {contextTokens : Option ℤ}

/-- The host has read its task, and, without a continuity manager, chosen a route; a call then
passes every gate, and stays on the chosen side of the boundary. -/
def HostCalls (host : InferenceHost) (owner : Option Lease) (taskId content : String)
    (capabilities : Finset String) (tools : List ToolDefinition) (contextTokens : Option ℤ)
    (l : List (Exchange InferenceStep.Reply Fault)) : InferenceStep → Prop :=
  Calls fun adapter request => ∃ task : Task, ⟨.getTask taskId, .ok task⟩ ∈ l ∧
    Gated host (host.decision task content tools) capabilities tools contextTokens adapter
      request.model ∧
    (host.continuity = none → ∃ (route : Route) (routed : Task),
      ⟨.setRoute owner route, .ok routed⟩ ∈ l ∧
        request.model.isLocal = route.selectedModel.isLocal)

theorem inferRouted_traced (hshared : host.router.registry = host.gateway.registry)
    (hcontinuity : host.continuity = none) {task : Task}
    {messages : List Inference.Message} {l : List (Exchange InferenceStep.Reply Fault)}
    (htask : ⟨.getTask taskId, .ok task⟩ ∈ l) :
    Traced (HostCalls host owner taskId content capabilities tools contextTokens)
      (inferRouted host owner ⟨task, host.decision task content tools, messages, capabilities,
        tools, contextTokens⟩) (fun _ _ => True) (fun _ _ => True) l := by
  refine .bind (.ofExcept (fun route hroute => .bind (.call (by simp [HostCalls, Calls])
    (fun routed => .bind (.ofExcept (fun request hrequest => .bind ?_) fun _ _ => trivial))
    fun _ => trivial)) fun _ _ => trivial)
  have hcandidates := decide_candidates (faulty_eq_ok.mp hroute)
  have hmade := InferenceRequest.make_ok (faulty_eq_ok.mp hrequest)
  have huses : (gatewayInfer host.gateway route request).Uses _ := gatewayInfer_uses
    fun modelId hid model hget => hcandidates modelId hid model (hshared ▸ hget)
  refine Traced.mono (Traced.of_uses (K := fun l => ⟨.getTask taskId, .ok task⟩ ∈ l ∧
    ⟨.setRoute owner route, .ok routed⟩ ∈ l) ?_ ?_ huses ?_) (fun _ _ _ => trivial)
    fun _ _ _ => trivial
  · rintro l r ⟨htask, hrouted⟩ hr adapter request' hrequest'
    obtain ⟨⟨hadmissible, hlocal⟩, hcallable⟩ := hr.calls adapter request' hrequest'
    rw [hmade.2.2.1] at hcallable
    have hregistry : host.registry = host.router.registry := by
      simp [InferenceHost.registry, hcontinuity, hshared]
    exact ⟨task, htask, .of_admissible (hregistry ▸ hadmissible) hcallable (by simp [hcontinuity]),
      fun _ => ⟨route, routed, hrouted, hlocal⟩⟩
  · rintro l r reply ⟨htask, hrouted⟩ -
    exact ⟨List.mem_append_left _ htask, List.mem_append_left _ hrouted⟩
  · exact ⟨List.mem_append_left _ htask, by simp⟩

theorem inferContinued_traced {manager : ContinuityManager}
    (hshared : manager.router.registry = manager.gateway.registry)
    (hcontinuity : host.continuity = some manager) {task : Task}
    {messages : List Inference.Message} {l : List (Exchange InferenceStep.Reply Fault)}
    (htask : ⟨.getTask taskId, .ok task⟩ ∈ l) (rounds : ℕ) :
    Traced (HostCalls host owner taskId content capabilities tools contextTokens)
      (inferContinued manager owner ⟨task, host.decision task content tools, messages,
        capabilities, tools, contextTokens⟩ rounds) (fun _ _ => True) (fun _ _ => True) l := by
  refine Traced.mono (Traced.of_uses (K := fun l => ⟨.getTask taskId, .ok task⟩ ∈ l) ?_ ?_
    (inferContinued_uses hshared rounds) htask) (fun _ _ _ => trivial) fun _ _ _ => trivial
  · intro l r htask hr adapter request hrequest
    obtain ⟨hadmissible, hpolicy, hcallable⟩ := hr adapter request hrequest
    have hregistry : host.registry = manager.router.registry := by
      simp [InferenceHost.registry, hcontinuity, hshared]
    refine ⟨task, htask, .of_admissible (hregistry ▸ hadmissible) hcallable ?_, ?_⟩
    · intro other hother
      rw [hcontinuity] at hother
      cases hother
      exact hpolicy
    · rw [hcontinuity]
      intro h
      cases h
  · exact fun l r reply htask _ => List.mem_append_left _ htask

theorem hostInfer_traced (hshared : host.router.registry = host.gateway.registry)
    (hcontinuity : ∀ manager ∈ host.continuity,
      manager.router.registry = manager.gateway.registry) (rounds : ℕ) :
    Traced (HostCalls host owner taskId content capabilities tools contextTokens)
      (hostInfer host owner taskId content capabilities tools contextTokens rounds)
      (fun _ _ => True) (fun _ _ => True) [] := by
  refine .bind (.call (by simp [HostCalls, Calls]) (fun task => ?_) fun _ => trivial)
  cases hmanager : host.continuity with
  | none => exact inferRouted_traced hshared hmanager (by simp)
  | some manager =>
      exact inferContinued_traced (hcontinuity manager hmanager) hmanager (by simp) rounds

/-- Whatever the ledger, the clock and the providers answer: when a host's `infer` calls a
provider, it has read its task, and the model of the call has passed every gate for the task's
privacy class, the content and the tools. Without a continuity manager the model is on the
same side of the boundary as the selected one; with one, its policy admits the model. -/
theorem inference_gated {rounds : ℕ} (hshared : host.router.registry = host.gateway.registry)
    (hcontinuity : ∀ manager ∈ host.continuity,
      manager.router.registry = manager.gateway.registry)
    {asked before after : List (Exchange InferenceStep.Reply Fault)}
    {rest : InferenceProg (Option InferenceResponse)} (hpath : Path
      (hostInfer host owner taskId content capabilities tools contextTokens rounds) asked rest)
    {adapter : Adapter} {request : InferenceRequest} {reply : Except Fault InferenceResponse}
    (hasked : asked = before ++ ⟨.complete adapter request, reply⟩ :: after) :
    ∃ task : Task, ⟨.getTask taskId, .ok task⟩ ∈ before ∧
      Gated host (host.privacy.classify (privacyContent content tools) task.privacyClass)
        capabilities tools contextTokens adapter request.model ∧
      (host.continuity = none → ∃ (route : Route) (routed : Task),
        ⟨.setRoute owner route, .ok routed⟩ ∈ before ∧
          request.model.isLocal = route.selectedModel.isLocal) :=
  (hostInfer_traced hshared hcontinuity rounds).path hpath hasked adapter request rfl

end Host

end Runs

section Asked

open Programs

local instance gatesPlatform : Platform := .reference []

/-- The task is on record, and every provider answers. -/
def Sample.answer : (r : InferenceStep) → Except Fault r.Reply
  | .getTask _ => .ok Sample.task
  | .setRoute _ _ => .ok Sample.task
  | .complete _ asked => .ok (Sample.response asked)
  | .clock _ => .ok (0 : ℚ)
  | .observation _ => .ok none
  | .reserve _ _ _ _ => .ok none
  | .observe .. | .event .. | .outcome .. => .ok ()

/-- A host without continuity manager asks the provider of its only model. -/
def Sample.asked : List (Exchange InferenceStep.Reply Fault) :=
  ((hostInfer (Sample.host ["cloud"] none) none "task" "hello" ∅ [] none 0).answered
    Sample.answer 3).1

def Sample.calls : Exchange InferenceStep.Reply Fault → Bool
  | ⟨.complete _ _, _⟩ => true
  | _ => false

theorem inference_gated_asked :
    ∃ (adapter : Adapter) (request : InferenceRequest) (task : Task),
      ⟨.getTask "task", .ok task⟩ ∈ Sample.asked ∧
        Gated (Sample.host ["cloud"] none) ((Sample.host ["cloud"] none).privacy.classify
          (privacyContent "hello" []) task.privacyClass) ∅ [] none adapter request.model := by
  have hcalls : Sample.asked.any Sample.calls = true := by decide +kernel
  obtain ⟨⟨r, reply⟩, hmem, hcall⟩ := List.any_eq_true.mp hcalls
  cases r with
  | complete adapter request =>
      obtain ⟨before, after, hasked⟩ := List.append_of_mem hmem
      have hshared : (Sample.host ["cloud"] none).router.registry =
          (Sample.host ["cloud"] none).gateway.registry := rfl
      obtain ⟨task, htask, hgated, -⟩ := inference_gated hshared (by simp [Sample.host])
        (Path.answered Sample.answer 3 _) hasked
      exact ⟨adapter, request, task, hasked ▸ List.mem_append_left _ htask, hgated⟩
  | _ => cases hcall

end Asked

end Dante
