import Dante.Library.System

/-! # Whole runs of one program

The big-step view of a program: from one state to its outcome, with whatever the setting
lets happen between its requests. -/

namespace Concurrent

variable {ι : Type} {ρ : ι → Type} {ε α β : Type}

/-- Where a program runs: what may happen before each of its requests, and what a request
may find outside of the state. -/
structure Setting (M : Machine ρ ε) where
  between : M.State → M.State → Prop
  admits : M.Env → M.State → Prop

/-- Nothing else happens, and a request may find anything. -/
def Setting.alone (M : Machine ρ ε) : Setting M :=
  ⟨Eq, fun _ _ => True⟩

variable {M : Machine ρ ε}

inductive Runs (S : Setting M) : Program ρ ε α → M.State → Except ε α → M.State → Prop where
  | ret (a : α) (s : M.State) : Runs S (.ret a) s (.ok a) s
  | raise (e : ε) (s : M.State) : Runs S (.raise e) s (.error e) s
  | request {r : ι} {next : Except ε (ρ r) → Program ρ ε α} {s s₀ s₁ s₂ : M.State}
      {env : M.Env} {reply : Except ε (ρ r)} {outcome : Except ε α}
      (hbetween : S.between s s₀) (hadmits : S.admits env s₀)
      (hperform : M.perform env r s₀ = (reply, s₁)) (hnext : Runs S (next reply) s₁ outcome s₂) :
      Runs S (.request r next) s outcome s₂

variable {S : Setting M} {s s' : M.State} {p : Program ρ ε α}

@[simp] theorem runs_ret {a : α} {outcome : Except ε α} :
    Runs S (.ret a) s outcome s' ↔ outcome = .ok a ∧ s' = s := by
  constructor
  · intro h
    cases h
    exact ⟨rfl, rfl⟩
  · rintro ⟨rfl, rfl⟩
    exact .ret a _

@[simp] theorem runs_raise {e : ε} {outcome : Except ε α} :
    Runs S (.raise e) s outcome s' ↔ outcome = .error e ∧ s' = s := by
  constructor
  · intro h
    cases h
    exact ⟨rfl, rfl⟩
  · rintro ⟨rfl, rfl⟩
    exact .raise e _

theorem runs_request {r : ι} {next : Except ε (ρ r) → Program ρ ε α} {outcome : Except ε α} :
    Runs S (.request r next) s outcome s' ↔ ∃ s₀ s₁ env reply, S.between s s₀ ∧
      S.admits env s₀ ∧ M.perform env r s₀ = (reply, s₁) ∧ Runs S (next reply) s₁ outcome s' := by
  constructor
  · intro h
    cases h with
    | request hbetween hadmits hperform hnext =>
        exact ⟨_, _, _, _, hbetween, hadmits, hperform, hnext⟩
  · rintro ⟨s₀, s₁, env, reply, hbetween, hadmits, hperform, hnext⟩
    exact .request hbetween hadmits hperform hnext

theorem runs_call {r : ι} {outcome : Except ε (ρ r)} :
    Runs S (Program.call r) s outcome s' ↔ ∃ s₀ env, S.between s s₀ ∧ S.admits env s₀ ∧
      M.perform env r s₀ = (outcome, s') := by
  rw [Program.call, runs_request]
  constructor
  · rintro ⟨s₀, s₁, env, reply, hbetween, hadmits, hperform, hnext⟩
    refine ⟨s₀, env, hbetween, hadmits, ?_⟩
    cases reply <;> simp only [runs_ret, runs_raise] at hnext <;>
      rw [hperform, hnext.1, hnext.2]
  · rintro ⟨s₀, env, hbetween, hadmits, hperform⟩
    refine ⟨s₀, s', env, outcome, hbetween, hadmits, hperform, ?_⟩
    cases outcome <;> simp

/-- A sequence runs its first part to the end, and its second part unless that raised. -/
theorem runs_bind {f : α → Program ρ ε β} {outcome : Except ε β} :
    Runs S (p.bind f) s outcome s' ↔
      (∃ a mid, Runs S p s (.ok a) mid ∧ Runs S (f a) mid outcome s') ∨
        ∃ e, Runs S p s (.error e) s' ∧ outcome = .error e := by
  induction p generalizing s with
  | ret a => simp
  | raise e =>
      simp only [Program.raise_bind, runs_raise, reduceCtorEq, false_and, exists_false, false_or,
        Except.error.injEq]
      constructor
      · rintro ⟨rfl, rfl⟩
        exact ⟨e, ⟨rfl, rfl⟩, rfl⟩
      · rintro ⟨_, ⟨rfl, rfl⟩, rfl⟩
        exact ⟨rfl, rfl⟩
  | request r next ih =>
      simp only [Program.request_bind, runs_request, ih]
      constructor
      · rintro ⟨s₀, s₁, env, reply, hb, ha, hp, ⟨a, mid, h₁, h₂⟩ | ⟨e, h₁, h₂⟩⟩
        · exact .inl ⟨a, mid, ⟨s₀, s₁, env, reply, hb, ha, hp, h₁⟩, h₂⟩
        · exact .inr ⟨e, ⟨s₀, s₁, env, reply, hb, ha, hp, h₁⟩, h₂⟩
      · rintro (⟨a, mid, ⟨s₀, s₁, env, reply, hb, ha, hp, h₁⟩, h₂⟩ |
          ⟨e, ⟨s₀, s₁, env, reply, hb, ha, hp, h₁⟩, h₂⟩)
        · exact ⟨s₀, s₁, env, reply, hb, ha, hp, .inl ⟨a, mid, h₁, h₂⟩⟩
        · exact ⟨s₀, s₁, env, reply, hb, ha, hp, .inr ⟨e, h₁, h₂⟩⟩

/-- Every program has a run, where something can always happen. -/
theorem Runs.exists (hbetween : ∀ s, S.between s s) (hadmits : ∀ s, ∃ env, S.admits env s)
    (p : Program ρ ε α) (s : M.State) : ∃ outcome s', Runs S p s outcome s' := by
  induction p generalizing s with
  | ret a => exact ⟨_, _, .ret a s⟩
  | raise e => exact ⟨_, _, .raise e s⟩
  | request r next ih =>
      obtain ⟨env, henv⟩ := hadmits s
      obtain ⟨outcome, s', h⟩ := ih (M.perform env r s).1 (M.perform env r s).2
      exact ⟨outcome, s', .request (hbetween s) henv rfl h⟩

/-! ## Failing alone -/

/-- Alone, the program raises `e` and leaves the state as it was. -/
def Fails (M : Machine ρ ε) (p : Program ρ ε α) (s : M.State) (e : ε) : Prop :=
  ∀ outcome s', Runs (.alone M) p s outcome s' → outcome = .error e ∧ s' = s

variable {r : ι} {e : ε}

theorem Fails.call (h : ∀ env, M.perform env r s = (.error e, s)) :
    Fails M (Program.call r) s e := by
  intro outcome s' hrun
  obtain ⟨s₀, env, rfl, -, hperform⟩ := runs_call.mp hrun
  cases (h env).symm.trans hperform
  exact ⟨rfl, rfl⟩

theorem Fails.bind {f : α → Program ρ ε β} (h : Fails M p s e) : Fails M (p.bind f) s e := by
  intro outcome s' hrun
  rcases runs_bind.mp hrun with ⟨a, mid, hp, -⟩ | ⟨e', hp, rfl⟩
  · cases (h _ _ hp).1
  · obtain ⟨he, hs⟩ := h _ _ hp
    cases he
    exact ⟨rfl, hs⟩

/-- A request that changes nothing, and then a failure. -/
theorem Fails.after {a : ρ r} {f : ρ r → Program ρ ε β}
    (hcall : ∀ env, M.perform env r s = (.ok a, s)) (h : Fails M (f a) s e) :
    Fails M ((Program.call r).bind f) s e := by
  intro outcome s' hrun
  rcases runs_bind.mp hrun with ⟨b, mid, hp, hf⟩ | ⟨e', hp, -⟩ <;>
    obtain ⟨s₀, env, rfl, -, hperform⟩ := runs_call.mp hp <;>
    cases (hcall env).symm.trans hperform
  exact h outcome s' hf

end Concurrent
