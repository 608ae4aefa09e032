import Dante.Library.Trace
import Dante.Model.Reference

/-! # The parts of a round, and what each of them asks

A round of the continuity manager begins with a look at the candidates, reserves an attempt,
selects and calls. Here is what the gateway's loop may call, and that everything else a round
does is bookkeeping. -/

namespace Dante

open Relational Concurrent Program

variable [Platform] {model : ModelRef}

omit [Platform] in
theorem passes_true {x : Except Exn Unit} : passes x = .ok true ↔ x = .ok () := by
  cases x with
  | ok u => simp [passes]
  | error e => cases e <;> simp [passes]

omit [Platform] in
/-- A registered model is the one its id names. -/
theorem ModelRegistry.get_of_mem {registry : ModelRegistry} {other : ModelRef}
    (hmem : model ∈ registry.candidates) (h : registry.get model.modelId = .ok other) :
    other = model := by
  have hrow : registry.models.get? model.modelId = some model :=
    Table.get?_eq_some_iff.mpr ⟨hmem, rfl⟩
  have hother := orRaise_eq_ok.mp h
  rw [hrow] at hother
  exact (Option.some.inj hother).symm

/-! ## What the gateway tests -/

/-- The gateway calls a model only through a free adapter of its provider, and after
`require_automatic`. -/
structure Callable (gateway : InferenceGateway) (tools : List ToolDefinition) (adapter : Adapter)
    (model : ModelRef) : Prop where
  provider : adapter.providerId = model.providerId
  free : adapter.automaticCost = 0
  automatic : gateway.registry.requireAutomatic model (!tools.isEmpty) = .ok ()

/-- The request is a call that `P` holds of. -/
def IsCall (P : Adapter → InferenceRequest → Prop) (r : InferenceStep) : Prop :=
  ∃ adapter request, r = .complete adapter request ∧ P adapter request

omit [Platform] in
theorem freeAdapter_some {gateway : InferenceGateway} {adapter : Adapter}
    (h : gateway.freeAdapter model = some adapter) :
    adapter.providerId = model.providerId ∧ adapter.automaticCost = 0 := by
  simp only [InferenceGateway.freeAdapter, Option.filter_eq_some_iff, decide_eq_true_eq] at h
  exact ⟨Table.primary_of_get? h.1, h.2⟩

omit [Platform] in
theorem adapterFor_some {gateway : InferenceGateway} {route : Route} {adapter : Adapter}
    (h : gateway.adapterFor route model = some adapter) :
    gateway.freeAdapter model = some adapter ∧ model.isLocal = route.selectedModel.isLocal := by
  unfold InferenceGateway.adapterFor at h
  split_ifs at h with hlocal hcost
  exact ⟨h, by simpa using hlocal⟩

namespace Programs

omit [Platform] in
theorem attempt_bind_uses {α β : Type} {asked : InferenceStep → Prop} {x : Except Exn α}
    {f : α → InferenceProg β} (h : ∀ a, x = .ok a → (f a).Uses asked) :
    ((attempt x).bind f).Uses asked := by
  cases x with
  | ok a => exact h a rfl
  | error e => trivial

/-- The gateway's loop calls only models that its candidates name. -/
theorem tryCandidates_uses {gateway : InferenceGateway} {route : Route}
    {request : InferenceRequest} {Good : ModelRef → Prop} {modelIds : List String}
    (hgood : ∀ modelId ∈ modelIds, ∀ model, gateway.registry.get modelId = .ok model → Good model)
    (index : ℕ) (lastError : Option InferenceError) :
    (tryCandidates gateway route request modelIds index lastError).Uses
      (IsCall fun adapter r => Good r.model ∧ Callable gateway request.tools adapter r.model) := by
  induction modelIds generalizing index lastError with
  | nil => cases lastError <;> trivial
  | cons modelId rest ih =>
      have hrest := fun index lastError =>
        ih (fun id hid => hgood id (.tail _ hid)) index lastError
      refine attempt_bind_uses fun model hmodel => ?_
      cases hadapter : gateway.adapterFor route model with
      | none => exact hrest _ _
      | some adapter =>
          obtain ⟨hprovider, hfree⟩ := freeAdapter_some (adapterFor_some hadapter).1
          refine attempt_bind_uses fun qualified hqualified => ?_
          cases qualified with
          | false => trivial
          | true =>
              refine ⟨?_, fun reply => ?_⟩
              · exact ⟨_, _, rfl, hgood modelId (.head _) model hmodel, hprovider, hfree,
                  passes_true.mp hqualified⟩
              · cases reply with
                | ok response => exact (Uses.ofExcept _).bind fun _ => trivial
                | error fault =>
                    cases fault with
                    | exn e => trivial
                    | inference error =>
                        simp only
                        split
                        · exact hrest _ _
                        · trivial

theorem gatewayInfer_uses {gateway : InferenceGateway} {route : Route}
    {request : InferenceRequest} {Good : ModelRef → Prop}
    (hgood : ∀ modelId ∈ route.candidates, ∀ model,
      gateway.registry.get modelId = .ok model → Good model) :
    (gatewayInfer gateway route request).Uses
      (IsCall fun adapter r => Good r.model ∧ Callable gateway request.tools adapter r.model) := by
  unfold gatewayInfer
  split
  · trivial
  · split
    · trivial
    · exact tryCandidates_uses hgood 0 none

/-- The way of a single route ends in a call of the selected model, or in none. -/
theorem callSelected_uses {manager : ContinuityManager} {call : InferenceCall}
    {selected : ModelRef} (hselected : selected ∈ manager.gateway.registry.candidates) :
    (callSelected manager call selected).Uses
      (IsCall fun adapter r => r.model = selected ∧
        Callable manager.gateway call.tools adapter r.model) := by
  refine Uses.except (attempt_bind_uses fun request hrequest => Uses.bind ?_ fun _ => trivial)
    fun e => by cases e <;> trivial
  have hgood : ∀ modelId ∈ (ContinuityManager.route manager call.task.taskId selected).candidates,
      ∀ model, manager.gateway.registry.get modelId = .ok model → model = selected := by
    intro modelId hid model hget
    obtain rfl := List.mem_singleton.mp hid
    exact ModelRegistry.get_of_mem hselected hget
  unfold inferOnce
  rw [if_neg (by simp [ContinuityManager.route])]
  rw [← (InferenceRequest.make_ok hrequest).2.2.1]
  exact gatewayInfer_uses hgood

/-- Of the selected model or not, a route makes calls and nothing else. -/
theorem callSelected_isCall {manager : ContinuityManager} {call : InferenceCall}
    {selected : ModelRef} :
    (callSelected manager call selected).Uses (IsCall fun _ _ => True) := by
  refine Uses.except (attempt_bind_uses fun request _ => Uses.bind ?_ fun _ => trivial)
    fun e => by cases e <;> trivial
  refine Uses.ite (fun _ => trivial) fun _ => Uses.mono
    (gatewayInfer_uses fun _ _ model _ => (trivial : (fun _ : ModelRef => True) model)) ?_
  rintro r ⟨adapter, request, hr, -⟩
  exact ⟨adapter, request, hr, trivial⟩

/-- A route of one candidate leads to one call at most. -/
theorem tryCandidates_traced {allowed : List (Exchange InferenceStep.Reply Fault) →
    InferenceStep → Prop} {Q : List (Exchange InferenceStep.Reply Fault) → Prop}
    {l : List (Exchange InferenceStep.Reply Fault)} {gateway : InferenceGateway} {route : Route}
    {request : InferenceRequest} {modelId : String} {index : ℕ} {lastError : Option InferenceError}
    (hallowed : ∀ adapter model, allowed l (.complete adapter { request with model := model }))
    (hnone : Q l) (hcall : ∀ adapter model reply,
      Q (l ++ [⟨.complete adapter { request with model := model }, reply⟩])) :
    Traced allowed (tryCandidates gateway route request [modelId] index lastError)
      (fun _ => Q) (fun _ => Q) l := by
  have hend (lastError : Option InferenceError) (index : ℕ)
      {l : List (Exchange InferenceStep.Reply Fault)} (hl : Q l) :
      Traced allowed (tryCandidates gateway route request [] index lastError)
        (fun _ => Q) (fun _ => Q) l := by
    cases lastError <;> exact hl
  refine .bind (.ofExcept (fun model _ => ?_) fun _ _ => hnone)
  cases gateway.adapterFor route model with
  | none => exact hend _ _ hnone
  | some adapter =>
      refine .bind (.ofExcept (fun qualified _ => .ite (fun _ => hnone) fun _ => ?_)
        fun _ _ => hnone)
      refine ⟨hallowed adapter model, fun reply => ?_⟩
      have hlast := hcall adapter model reply
      cases reply with
      | ok response => exact .bind (.ofExcept (fun _ _ => hlast) fun _ _ => hlast)
      | error fault =>
          cases fault with
          | exn e => exact hlast
          | inference error => exact .ite (fun _ => hend _ _ hlast) fun _ => hlast

/-- The selected model is called once at most, and for the task of the call. -/
theorem callSelected_traced {allowed : List (Exchange InferenceStep.Reply Fault) →
    InferenceStep → Prop} {Q : List (Exchange InferenceStep.Reply Fault) → Prop}
    {l : List (Exchange InferenceStep.Reply Fault)} {manager : ContinuityManager}
    {call : InferenceCall} {selected : ModelRef}
    (hallowed : ∀ adapter request, request.taskId = some call.task.taskId →
      allowed l (.complete adapter request))
    (hnone : Q l) (hcall : ∀ adapter request reply, Q (l ++ [⟨.complete adapter request, reply⟩])) :
    Traced allowed (callSelected manager call selected) (fun _ => Q) (fun _ => Q) l := by
  refine .except (.bind (.ofExcept (fun request hrequest => .bind ?_) ?_))
  rotate_left
  · intro e _
    cases e <;> exact hnone
  have hmade := (InferenceRequest.make_ok (faulty_eq_ok.mp hrequest)).2.2.2
  have honce : Traced allowed (inferOnce manager.gateway
      (ContinuityManager.route manager call.task.taskId selected) request)
      (fun _ => Q) (fun _ => Q) l := by
    refine .ite (fun _ => hnone) fun _ => .ite (fun _ => hnone) fun _ =>
      .ite (fun _ => hnone) fun _ => ?_
    exact tryCandidates_traced (fun adapter model => hallowed adapter _ hmade) hnone
      fun adapter model reply => hcall adapter _ reply
  refine .mono honce (fun _ _ hl => hl) ?_
  intro e _ hl
  cases e <;> exact hl

/-! ## The look at the candidates -/

omit [Platform] in
theorem health_usable {policy : ContinuityPolicy} {now : ℚ}
    {observation : Option BackendObservation} (h : health policy now model observation = .usable) :
    model.available = true := by
  unfold health at h
  cases observation with
  | none => split_ifs at h
  | some row =>
      cases havailable : model.available with
      | true => rfl
      | false => simp [havailable] at h

omit [Platform] in
/-- Only candidates that are switched on are usable. -/
theorem scan_yields {manager : ContinuityManager} {excluded : Dict String} {now : ℚ}
    {models : List ModelRef} {found : Scan} {P : ModelRef → Prop}
    (hfound : ∀ model ∈ found.usable, P model)
    (hmodels : ∀ model ∈ models, model.available = true → P model) :
    (scan manager excluded now models found).Yields
      (fun found => ∀ model ∈ found.usable, P model) := by
  induction models generalizing found with
  | nil => exact hfound
  | cons model rest ih =>
      have hrest := fun m hm => hmodels m (List.mem_cons_of_mem _ hm)
      unfold scan
      split
      next => exact ih hfound hrest
      next =>
        split
        next => exact ih hfound hrest
        next =>
          intro reply
          cases reply with
          | error e => trivial
          | ok observation =>
              refine ih ?_ hrest
              intro m hm
              cases hhealth : health manager.policy now model observation with
              | denied reason retryAt cooldown =>
                  rw [hhealth] at hm
                  exact hfound m hm
              | usable =>
                  rw [hhealth] at hm
                  rcases List.mem_append.mp hm with hold | hnew
                  · exact hfound m hold
                  · obtain rfl := List.mem_singleton.mp hnew
                    exact hmodels m (.head _) (health_usable hhealth)

end Programs

/-! ## Requests that only read and write what is known of tasks and backends -/

/-- The request neither begins a round, nor reserves, selects or makes a call. -/
def InferenceStep.bookkeeping : InferenceStep → Bool
  | .clock .observation | .clock .backoff | .observation _ | .observe .. | .outcome .. => true
  | .event _ _ (.candidates _ _) | .event _ _ (.failure _ _ _) => true
  | _ => false

abbrev Bookkeeping (r : InferenceStep) : Prop :=
  r.bookkeeping = true

/-- The request records how the inference ends. -/
def InferenceStep.concludes : InferenceStep → Bool
  | .outcome .. => true
  | _ => false

/-- Bookkeeping after which the inference goes on. -/
abbrev Quiet (r : InferenceStep) : Prop :=
  (r.bookkeeping && !r.concludes) = true

omit [Platform] in
theorem bookkeeping_of_quiet (r : InferenceStep) (h : Quiet r) : Bookkeeping r :=
  (Bool.and_eq_true_iff.mp h).1

/-- The request is no call, or a call that `P` holds of. -/
def Calls (P : Adapter → InferenceRequest → Prop) (r : InferenceStep) : Prop :=
  ∀ adapter request, r = .complete adapter request → P adapter request

omit [Platform] in
theorem IsCall.calls {P : Adapter → InferenceRequest → Prop} {r : InferenceStep}
    (h : IsCall P r) : Calls P r := by
  obtain ⟨adapter, request, rfl, hP⟩ := h
  intro adapter' request' heq
  cases heq
  exact hP

omit [Platform] in
theorem calls_of_bookkeeping {P : Adapter → InferenceRequest → Prop} (r : InferenceStep)
    (h : r.bookkeeping = true) : Calls P r := by
  rintro adapter request rfl
  cases h

namespace Programs

variable {owner : Option Lease}

omit [Platform] in
theorem send_bookkeeping {r : InferenceStep} (h : r.bookkeeping = true) :
    (send r).Uses Bookkeeping :=
  Uses.call h

omit [Platform] in
theorem outcome_bookkeeping {task : Task} {disposition : Disposition} {reason : String}
    {response : Option InferenceResponse} {retryAt : Option ℚ} :
    (outcome owner task disposition reason response retryAt).Uses Bookkeeping :=
  (send_bookkeeping rfl).bind fun _ => trivial

omit [Platform] in
theorem send_quiet {r : InferenceStep} (h : Quiet r) : (send r).Uses Quiet :=
  Uses.call h

omit [Platform] in
theorem observe_quiet {taskId : Option String} {backendId : String} {state : BackendState}
    {cooldownUntil : Option ℚ} {reason : Option String} :
    (observe owner taskId backendId state cooldownUntil reason).Uses Quiet :=
  (send_quiet rfl).bind fun _ => Uses.ite (fun _ => send_quiet rfl) fun _ => trivial

omit [Platform] in
theorem observe_bookkeeping {taskId : Option String} {backendId : String} {state : BackendState}
    {cooldownUntil : Option ℚ} {reason : Option String} :
    (observe owner taskId backendId state cooldownUntil reason).Uses Bookkeeping :=
  observe_quiet.mono bookkeeping_of_quiet

omit [Platform] in
theorem scan_quiet {manager : ContinuityManager} {excluded : Dict String} {now : ℚ}
    {models : List ModelRef} {found : Scan} :
    (scan manager excluded now models found).Uses Quiet := by
  induction models generalizing found with
  | nil => trivial
  | cons model rest ih =>
      unfold scan
      split
      next => exact ih
      next =>
        split
        next => exact ih
        next => exact (send_quiet rfl).bind fun observation => ih

omit [Platform] in
theorem scan_bookkeeping {manager : ContinuityManager} {excluded : Dict String} {now : ℚ}
    {models : List ModelRef} {found : Scan} :
    (scan manager excluded now models found).Uses Bookkeeping :=
  scan_quiet.mono bookkeeping_of_quiet

omit [Platform] in
theorem noRoute_bookkeeping {manager : ContinuityManager} {task : Task} {now : ℚ} {found : Scan} :
    (noRoute manager owner task now found).Uses Bookkeeping := by
  unfold noRoute
  split
  · exact outcome_bookkeeping
  · exact outcome_bookkeeping

omit [Platform] in
theorem onInferenceError_bookkeeping {manager : ContinuityManager} {call : InferenceCall}
    {excluded : Dict String} {selected : ModelRef} {error : InferenceError} :
    (onInferenceError manager owner call excluded selected error).Uses Bookkeeping := by
  unfold onInferenceError
  generalize classifyError error = verdict
  obtain ⟨reason, state, retry⟩ := verdict
  refine (send_bookkeeping rfl).bind fun _ => Uses.ite (fun _ => ?_) fun _ => Uses.ite ?_ ?_
  · refine (send_bookkeeping rfl).bind fun _ => (send_bookkeeping rfl).bind fun _ => ?_
    exact attempt_bind_uses fun _ _ => observe_bookkeeping.bind fun _ => trivial
  · exact fun _ => outcome_bookkeeping.bind fun _ => trivial
  · exact fun _ => trivial

omit [Platform] in
theorem onResponse_bookkeeping {call : InferenceCall} {previous : Option String}
    {selected : ModelRef} {response : InferenceResponse} :
    (onResponse owner call previous selected response).Uses Bookkeeping :=
  observe_bookkeeping.bind fun _ => outcome_bookkeeping.bind fun _ => trivial

omit [Platform] in
/-- What follows the answer of a call. -/
theorem afterCall_bookkeeping {manager : ContinuityManager} {call : InferenceCall}
    {excluded : Dict String} {previous : Option String} {selected : ModelRef}
    (answer : Except InferenceError InferenceResponse) :
    (match answer with
      | .ok response => onResponse owner call previous selected response
      | .error error => onInferenceError manager owner call excluded selected error).Uses Bookkeeping := by
  cases answer with
  | ok response => exact onResponse_bookkeeping
  | error error => exact onInferenceError_bookkeeping

omit [Platform] in
theorem reserve_calls {P : Adapter → InferenceRequest → Prop} {policy : ContinuityPolicy}
    {taskId : String} : (reserve policy owner taskId).Uses (Calls P) :=
  (Uses.call fun _ _ h => by cases h).bind fun _ => Uses.call fun _ _ h => by cases h

end Programs

end Dante
