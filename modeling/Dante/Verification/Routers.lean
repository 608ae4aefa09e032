import Dante.Library.StableSort
import Dante.Verification.Gates
import Mathlib.Data.Prod.Lex

/-! # The two routers agree

`decide` and `continuity_candidates` write the same gates in different order and form. For a
policy that adds none of its own they admit the same available models, in the same order, but
for the cloud models whose cost is not verified. -/

namespace Dante

/-! ## The order of candidates -/

/-- What `routeOrder` compares. -/
def routeKey (first : ModelRef → Bool) (model : ModelRef) : Bool ×ₗ (String ×ₗ String) :=
  toLex (first model, toLex (model.logicalAlias, model.modelId))

theorem routeOrder_iff {first : ModelRef → Bool} {a b : ModelRef} :
    routeOrder first a b ↔ routeKey first a ≤ routeKey first b := by
  rw [routeOrder, routeKey, routeKey, Prod.Lex.toLex_le_toLex, Prod.Lex.toLex_le_toLex]

instance (first : ModelRef → Bool) : IsTrans ModelRef (routeOrder first) where
  trans a b c hab hbc := by
    rw [routeOrder_iff] at hab hbc ⊢
    exact le_trans hab hbc

instance (first : ModelRef → Bool) : Std.Total (routeOrder first) where
  total a b := by
    rw [routeOrder_iff, routeOrder_iff]
    exact le_total _ _

section Routers

variable [Platform] {privacy : PrivacyDecision} {capabilities : Finset String}
  {policy : ContinuityPolicy} {router : RuleBasedRouter}

/-! ## One model -/

/-- A cloud model counts only if its cost is verified to be zero. -/
def ModelRef.verifiedZero (model : ModelRef) : Bool :=
  model.isLocal || model.costVerification == .verifiedZero

/-- A policy that prefers local models and excludes none. -/
structure ContinuityPolicy.LocalFirst (policy : ContinuityPolicy) : Prop where
  mode : policy.mode = .localFirst ∨ policy.mode = .localPreferred
  backends : policy.allowedBackends = ∅

omit [Platform] in
theorem ContinuityPolicy.LocalFirst.refuses (h : policy.LocalFirst) (model : ModelRef) :
    policy.refuses model = false := by
  cases h.mode with
  | inl hmode => simp [ContinuityPolicy.refuses, hmode, h.backends]
  | inr hmode => simp [ContinuityPolicy.refuses, hmode, h.backends]

omit [Platform] in
theorem ContinuityPolicy.LocalFirst.cloudFirst (h : policy.LocalFirst) :
    policy.cloudFirst = false := by
  cases h.mode with
  | inl hmode => simp [ContinuityPolicy.cloudFirst, hmode]
  | inr hmode => simp [ContinuityPolicy.cloudFirst, hmode]

theorem requireAutomatic_cloud {registry : ModelRegistry} {model : ModelRef} {toolUse : Bool}
    (h : model.isLocal = false) : registry.requireAutomatic model toolUse = .ok () := by
  simp [ModelRegistry.requireAutomatic, h]

/-- What the tests of `decide` say, without those on the registry. -/
structure Eligible (privacy : PrivacyDecision) (capabilities : Finset String) (model : ModelRef) :
    Prop where
  available : model.available = true
  lifecycle : model.lifecycle.qualified = true
  cost : model.costClass = .zero ∨ model.costClass = .localCompute ∧ model.isLocal = true
  capable : capabilities ⊆ model.capabilities
  classified : privacy.classification ∈ model.privacyEligibility
  placed : privacy.cloudAllowed = true ∨ model.isLocal = true

omit [Platform] in
theorem eligible_iff {model : ModelRef} :
    model.eligible privacy capabilities = true ↔ Eligible privacy capabilities model := by
  simp only [ModelRef.eligible, Bool.and_eq_true, Bool.or_eq_true, beq_iff_eq, decide_eq_true_eq]
  constructor
  · intro ⟨⟨⟨⟨⟨havailable, hlifecycle⟩, hcost⟩, hcapable⟩, hclass⟩, hplaced⟩
    exact ⟨havailable, hlifecycle, hcost, hcapable, hclass, hplaced⟩
  · intro h
    exact ⟨⟨⟨⟨⟨h.available, h.lifecycle⟩, h.cost⟩, h.capable⟩, h.classified⟩, h.placed⟩

/-- On an eligible model `continuity_candidates` has only two questions left. -/
theorem denial_eligible (hpolicy : policy.LocalFirst) {model : ModelRef}
    (hallowed : privacy.modelAllowed = true) (h : Eligible privacy capabilities model) :
    router.denial privacy capabilities policy none model =
      if model.verifiedZero then do
        let qualified ← passes (router.registry.requireAutomatic model
          ("tool_calling" ∈ capabilities))
        pure (if qualified then none else some "qualification_or_machine")
      else .ok (some "cost_unverified_or_paid") := by
  have hprivacy : (!privacy.modelAllowed || decide (privacy.classification ∉ model.privacyEligibility)
      || (!privacy.cloudAllowed && !model.isLocal)) = false := by
    cases h.placed with
    | inl hcloud => simp [hallowed, h.classified, hcloud]
    | inr hlocal => simp [hallowed, h.classified, hlocal]
  have hcost : (!(model.costClass == .zero || model.costClass == .localCompute) ||
      (!model.isLocal && (model.costClass != .zero || model.costVerification != .verifiedZero))) =
        !model.verifiedZero := by
    cases hlocal : model.isLocal with
    | true =>
        cases h.cost with
        | inl hzero => simp [ModelRef.verifiedZero, hlocal, hzero]
        | inr hcompute => simp [ModelRef.verifiedZero, hlocal, hcompute.1]
    | false =>
        cases h.cost with
        | inl hzero => simp [ModelRef.verifiedZero, hlocal, hzero, bne]
        | inr hcompute => simp [hlocal] at hcompute
  have hsame : { model with available := true } = model := by rw [← h.available]
  rw [RuleBasedRouter.denial, hprivacy, hpolicy.refuses, hcost, h.lifecycle, hsame]
  cases model.verifiedZero <;> simp [h.capable, ModelRef.tooSmall]

/-- The gates of `decide` and of `continuity_candidates` agree on a model that is available
and, if it is a cloud model, verified to be free. -/
theorem gates_agree (hpolicy : policy.LocalFirst) {model : ModelRef} {reason : Option String}
    (hallowed : privacy.modelAllowed = true)
    (h : router.denial privacy capabilities policy none model = .ok reason) :
    ∃ admitted, router.admits privacy capabilities model = .ok admitted ∧
      (reason.isNone && model.available) = (admitted && model.verifiedZero) := by
  by_cases heligible : model.eligible privacy capabilities = true
  · have hfacts := eligible_iff.mp heligible
    rw [denial_eligible hpolicy hallowed hfacts] at h
    simp only [RuleBasedRouter.admits, heligible, if_true]
    cases hverified : model.verifiedZero with
    | true =>
        simp only [hverified, if_true, Except.bind_eq_ok, Except.pure_eq_ok] at h
        obtain ⟨qualified, hqualified, rfl⟩ := h
        refine ⟨qualified, hqualified, ?_⟩
        cases qualified <;> simp [hfacts.available]
    | false =>
        simp only [hverified, Bool.false_eq_true, if_false, Except.ok.injEq] at h
        subst h
        have hcloud : model.isLocal = false := by
          simp only [ModelRef.verifiedZero, Bool.or_eq_false_iff] at hverified
          exact hverified.1
        exact ⟨true, by rw [requireAutomatic_cloud hcloud]; rfl, by simp⟩
  · refine ⟨false, by rw [RuleBasedRouter.admits, if_neg heligible], ?_⟩
    cases reason with
    | some reason => simp
    | none =>
        cases havailable : model.available with
        | false => simp
        | true =>
            obtain ⟨hadmissible, hplaced⟩ := denial_none h havailable
            refine absurd (eligible_iff.mpr ?_) heligible
            exact ⟨havailable, LifecycleState.qualified_iff.mpr hadmissible.lifecycle,
              hadmissible.cost, hadmissible.capable, hadmissible.eligible,
              hadmissible.placed.symm⟩

/-! ## The lists -/

/-- What one loop keeps of the available models, the other keeps of the verified ones. -/
theorem loops_agree (hpolicy : policy.LocalFirst) (hallowed : privacy.modelAllowed = true)
    {models eligible : List ModelRef} {denied : Dict String}
    (h : router.sift privacy capabilities policy none models = .ok (eligible, denied)) :
    ∃ survivors, router.survivors privacy capabilities models = .ok survivors ∧
      eligible.filter (·.available) = survivors.filter (·.verifiedZero) := by
  induction models generalizing eligible denied with
  | nil =>
      cases h
      exact ⟨[], rfl, rfl⟩
  | cons model rest ih =>
      simp only [RuleBasedRouter.sift, Except.bind_eq_ok] at h
      obtain ⟨reason, hreason, ⟨others, refused⟩, hothers, h⟩ := h
      obtain ⟨survivors, hsurvivors, hsame⟩ := ih hothers
      obtain ⟨admitted, hadmitted, hagree⟩ := gates_agree hpolicy hallowed hreason
      have heligible : eligible = if reason.isNone then model :: others else others := by
        cases reason with
        | some reason =>
            cases h
            rfl
        | none =>
            cases h
            rfl
      have hkeep (kept : Bool) (p : ModelRef → Bool) (l : List ModelRef) :
          (if kept then model :: l else l).filter p =
            if kept && p model then model :: l.filter p else l.filter p := by
        cases kept <;> simp [List.filter_cons]
      refine ⟨if admitted then model :: survivors else survivors, ?_, ?_⟩
      · simp only [RuleBasedRouter.survivors, hadmitted, hsurvivors, bind, Except.bind, pure,
          Except.pure]
      · rw [heligible, hkeep, hkeep, hagree, hsame]

/-- Every model is denied where the privacy gate keeps the task from all of them. -/
theorem sift_private (hallowed : privacy.modelAllowed = false) {models eligible : List ModelRef}
    {contextTokens : Option ℤ} {denied : Dict String}
    (h : router.sift privacy capabilities policy contextTokens models = .ok (eligible, denied)) :
    eligible = [] := by
  induction models generalizing eligible denied with
  | nil =>
      cases h
      rfl
  | cons model rest ih =>
      simp only [RuleBasedRouter.sift, Except.bind_eq_ok] at h
      obtain ⟨reason, hreason, ⟨others, refused⟩, hothers, h⟩ := h
      simp only [RuleBasedRouter.denial, hallowed, Bool.not_false, Bool.true_or, if_true,
        Except.ok.injEq] at hreason
      subst hreason
      cases h
      exact ih hothers

/-- What `decide` finds eligible, in the order in which it prefers it. -/
def RuleBasedRouter.eligibleList (router : RuleBasedRouter) (privacy : PrivacyDecision)
    (capabilities : Finset String) : Except Exn (List ModelRef) := do
  let eligible ← router.survivors privacy capabilities router.registry.candidates
  pure (eligible.insertionSort (routeOrder fun model => !model.isLocal))

/-- The outcome of a choice among `models`: none is there, and the route is denied, or the
head is selected, with the models of its locality as candidates. -/
def Chosen (outcome : Except Exn Route) : List ModelRef → Prop
  | [] => ∃ m, outcome = .error (.runtimeError m)
  | selected :: rest => ∃ route, outcome = .ok route ∧ route.selectedModel = selected ∧
      route.candidates = ((selected :: rest).filter
        (·.isLocal == selected.isLocal)).map (·.modelId)

theorem decide_chosen {taskId : String} {eligible : List ModelRef}
    (hallowed : privacy.modelAllowed = true)
    (h : router.eligibleList privacy capabilities = .ok eligible) :
    Chosen (router.decide taskId privacy capabilities) eligible := by
  simp only [RuleBasedRouter.eligibleList, Except.bind_eq_ok, Except.pure_eq_ok] at h
  obtain ⟨survivors, hsurvivors, rfl⟩ := h
  simp only [RuleBasedRouter.decide, hallowed, hsurvivors, require, bind, Except.bind, if_true]
  cases survivors.insertionSort (routeOrder fun model => !model.isLocal) with
  | nil => exact ⟨_, rfl⟩
  | cons selected rest => exact ⟨_, rfl, rfl, rfl⟩

/-- For a policy that prefers local models and excludes none, the available models of
`continuity_candidates` are those that `decide` finds eligible, in the same order, without the
cloud models that are not verified to be free. Where there are none of these, `decide` raises
`RouteDenied` exactly if the list is empty, and otherwise selects its head. -/
theorem routers_agree (hpolicy : policy.LocalFirst) {models : List ModelRef}
    {denied : Dict String}
    (h : router.continuityCandidates privacy capabilities policy none = .ok (models, denied)) :
    (privacy.modelAllowed = false → models = []) ∧
    (privacy.modelAllowed = true → ∃ eligible,
      router.eligibleList privacy capabilities = .ok eligible ∧
        models.filter (·.available) = eligible.filter (·.verifiedZero)) ∧
    ((∀ model ∈ router.registry.candidates, model.verifiedZero = true) → ∀ taskId,
      Chosen (router.decide taskId privacy capabilities) (models.filter (·.available))) := by
  simp only [RuleBasedRouter.continuityCandidates, Except.bind_eq_ok] at h
  obtain ⟨⟨kept, refused⟩, hsift, h⟩ := h
  simp only [hpolicy.cloudFirst, Bool.false_eq_true, if_false, Except.pure_eq_ok,
    Prod.mk.injEq] at h
  obtain ⟨rfl, rfl⟩ := h
  have hlists (hallowed : privacy.modelAllowed = true) : ∃ eligible,
      router.eligibleList privacy capabilities = .ok eligible ∧
        (kept.insertionSort (routeOrder fun model => !model.isLocal)).filter (·.available) =
          eligible.filter (·.verifiedZero) ∧
        ∀ model ∈ eligible, model ∈ router.registry.candidates := by
    obtain ⟨survivors, hsurvivors, hsame⟩ := loops_agree hpolicy hallowed hsift
    refine ⟨_, by rw [RuleBasedRouter.eligibleList, hsurvivors]; rfl, ?_, fun model hmodel => ?_⟩
    · rw [StableSort.filter_insertionSort, StableSort.filter_insertionSort, hsame]
    · exact (survivors_mem hsurvivors model ((List.mem_insertionSort _).mp hmodel)).1
  refine ⟨fun hallowed => ?_, fun hallowed => ?_, fun hverified taskId => ?_⟩
  · rw [sift_private hallowed hsift]
    rfl
  · obtain ⟨eligible, heligible, hsame, -⟩ := hlists hallowed
    exact ⟨eligible, heligible, hsame⟩
  · cases hallowed : privacy.modelAllowed with
    | false =>
        rw [sift_private hallowed hsift]
        exact ⟨_, by simp only [RuleBasedRouter.decide, hallowed, require, bind, Except.bind]; rfl⟩
    | true =>
        obtain ⟨eligible, heligible, hsame, hregistered⟩ := hlists hallowed
        have hall : eligible.filter (·.verifiedZero) = eligible :=
          List.filter_eq_self.mpr fun model hmodel => hverified model (hregistered model hmodel)
        rw [hsame, hall]
        exact decide_chosen hallowed heligible

end Routers

section Example

local instance routersPlatform : Platform := .reference []

theorem routers_agree_sample :
    ∃ models denied, (RuleBasedRouter.mk (Sample.registry ["a", "b"]) "v1").continuityCandidates
        ⟨.publicClass, true, true, []⟩ ∅ { Sample.policy with mode := .localFirst } none =
          .ok (models, denied) ∧
      Chosen ((RuleBasedRouter.mk (Sample.registry ["a", "b"]) "v1").decide "task"
        ⟨.publicClass, true, true, []⟩ ∅) (models.filter (·.available)) := by
  obtain ⟨⟨models, denied⟩, hok⟩ := Except.exists_of_isOk
    (x := (RuleBasedRouter.mk (Sample.registry ["a", "b"]) "v1").continuityCandidates
      ⟨.publicClass, true, true, []⟩ ∅ { Sample.policy with mode := .localFirst } none)
    (by decide +kernel)
  exact ⟨models, denied, hok,
    (routers_agree ⟨.inl rfl, rfl⟩ hok).2.2 (by decide +kernel) "task"⟩

end Example

end Dante
