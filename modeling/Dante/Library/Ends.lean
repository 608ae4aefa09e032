import Dante.Library.Trace

/-! # What a run of one program ends in

A postcondition of a program sees the state and the exchanges that led there. The rules follow
the structure of programs, one for each way to build one. -/

namespace Concurrent

variable {ι : Type} {ρ : ι → Type} {ε α β : Type} {M : Machine ρ ε} {S : Setting M}

/-- A property of an outcome, the exchanges made and the state reached. -/
abbrev Post (M : Machine ρ ε) (α : Type) := α → List (Exchange ρ ε) → M.State → Prop

/-- From the state `s`, with the exchanges `l` behind it, every run of the program that ends
returns in `Q` or raises in `E`. -/
def Ends (S : Setting M) : Program ρ ε α → Post M α → Post M ε → List (Exchange ρ ε) →
    M.State → Prop
  | .ret a, Q, _, l, s => Q a l s
  | .raise e, _, E, l, s => E e l s
  | .request r next, Q, E, l, s => ∀ s₀ env reply s₁, S.between s s₀ → S.admits env s₀ →
      M.perform env r s₀ = (reply, s₁) → Ends S (next reply) Q E (l ++ [⟨r, reply⟩]) s₁

variable {p : Program ρ ε α} {l : List (Exchange ρ ε)} {s : M.State}

theorem Ends.mono {Q Q' : Post M α} {E E' : Post M ε} (h : Ends S p Q E l s)
    (hQ : ∀ a l s, Q a l s → Q' a l s) (hE : ∀ e l s, E e l s → E' e l s) :
    Ends S p Q' E' l s := by
  induction p generalizing l s with
  | ret a => exact hQ a l s h
  | raise e => exact hE e l s h
  | request r next ih =>
      intro s₀ env reply s₁ hbetween hadmits hperform
      exact ih reply (h s₀ env reply s₁ hbetween hadmits hperform)

theorem Ends.bind {f : α → Program ρ ε β} {Q : Post M β} {E : Post M ε}
    (h : Ends S p (fun a l s => Ends S (f a) Q E l s) E l s) : Ends S (p.bind f) Q E l s := by
  induction p generalizing l s with
  | ret a => exact h
  | raise e => exact h
  | request r next ih =>
      intro s₀ env reply s₁ hbetween hadmits hperform
      exact ih reply (h s₀ env reply s₁ hbetween hadmits hperform)

theorem Ends.except {handler : ε → Program ρ ε α} {Q : Post M α} {E : Post M ε}
    (h : Ends S p Q (fun e l s => Ends S (handler e) Q E l s) l s) :
    Ends S (p.except handler) Q E l s := by
  induction p generalizing l s with
  | ret a => exact h
  | raise e => exact h
  | request r next ih =>
      intro s₀ env reply s₁ hbetween hadmits hperform
      exact ih reply (h s₀ env reply s₁ hbetween hadmits hperform)

/-- One request, and what both kinds of reply leave. -/
theorem Ends.call {r : ι} {Q : Post M (ρ r)} {E : Post M ε}
    (hok : ∀ s₀ env a s₁, S.between s s₀ → S.admits env s₀ → M.perform env r s₀ = (.ok a, s₁) →
      Q a (l ++ [⟨r, .ok a⟩]) s₁)
    (herror : ∀ s₀ env e s₁, S.between s s₀ → S.admits env s₀ →
      M.perform env r s₀ = (.error e, s₁) → E e (l ++ [⟨r, .error e⟩]) s₁) :
    Ends S (Program.call r) Q E l s := by
  intro s₀ env reply s₁ hbetween hadmits hperform
  cases reply with
  | ok a => exact hok s₀ env a s₁ hbetween hadmits hperform
  | error e => exact herror s₀ env e s₁ hbetween hadmits hperform

theorem Ends.ofExcept {x : Except ε α} {Q : Post M α} {E : Post M ε}
    (hok : ∀ a, x = .ok a → Q a l s) (herror : ∀ e, x = .error e → E e l s) :
    Ends S (Program.ofExcept x) Q E l s := by
  cases x with
  | ok a => exact hok a rfl
  | error e => exact herror e rfl

theorem Ends.ite {c : Prop} [Decidable c] {p q : Program ρ ε α} {Q : Post M α} {E : Post M ε}
    (hp : c → Ends S p Q E l s) (hq : ¬c → Ends S q Q E l s) :
    Ends S (if c then p else q) Q E l s := by
  by_cases hc : c
  · rw [if_pos hc]
    exact hp hc
  · rw [if_neg hc]
    exact hq hc

/-- Two things that are true of how a program ends are true together. -/
theorem Ends.and {Q Q' : Post M α} {E E' : Post M ε} (h : Ends S p Q E l s)
    (h' : Ends S p Q' E' l s) :
    Ends S p (fun a l s => Q a l s ∧ Q' a l s) (fun e l s => E e l s ∧ E' e l s) l s := by
  induction p generalizing l s with
  | ret a => exact ⟨h, h'⟩
  | raise e => exact ⟨h, h'⟩
  | request r next ih =>
      intro s₀ env reply s₁ hbetween hadmits hperform
      exact ih reply (h s₀ env reply s₁ hbetween hadmits hperform)
        (h' s₀ env reply s₁ hbetween hadmits hperform)

/-- What each request of a program preserves holds wherever the program ends. -/
theorem Ends.of_uses {allowed : ι → Prop} {K : M.State → Prop}
    (hbetween : ∀ s s', S.between s s' → K s → K s')
    (hcall : ∀ r env s reply s', allowed r → M.perform env r s = (reply, s') → K s → K s')
    (hp : p.Uses allowed) (hs : K s) : Ends S p (fun _ _ => K) (fun _ _ => K) l s := by
  induction p generalizing l s with
  | ret a => exact hs
  | raise e => exact hs
  | request r next ih =>
      intro s₀ env reply s₁ hmoved _ hperform
      have hs₀ := hbetween s s₀ hmoved hs
      exact ih reply (hp.2 reply) (hcall r env s₀ reply s₁ hp.1 hperform hs₀)

/-- Since the exchanges `l` only what is allowed was asked. -/
def Since (allowed : ι → Prop) (l l' : List (Exchange ρ ε)) : Prop :=
  ∃ new, l' = l ++ new ∧ ∀ x ∈ new, allowed x.1

theorem Since.refl (allowed : ι → Prop) (l : List (Exchange ρ ε)) : Since allowed l l :=
  ⟨[], (List.append_nil l).symm, fun _ hx => absurd hx List.not_mem_nil⟩

theorem Since.mono {allowed allowed' : ι → Prop} {l' : List (Exchange ρ ε)}
    (h : Since allowed l l') (hallowed : ∀ r, allowed r → allowed' r) : Since allowed' l l' := by
  obtain ⟨new, rfl, hnew⟩ := h
  exact ⟨new, rfl, fun x hx => hallowed _ (hnew x hx)⟩

theorem Since.snoc {allowed : ι → Prop} {l' : List (Exchange ρ ε)} (h : Since allowed l l') {r : ι}
    (hr : allowed r) (reply : Except ε (ρ r)) : Since allowed l (l' ++ [⟨r, reply⟩]) := by
  obtain ⟨new, rfl, hnew⟩ := h
  refine ⟨new ++ [⟨r, reply⟩], List.append_assoc .., ?_⟩
  intro x hx
  rcases List.mem_append.mp hx with hold | hlast
  · exact hnew x hold
  · rw [List.mem_singleton.mp hlast]
    exact hr

theorem Since.trans {allowed : ι → Prop} {l' l'' : List (Exchange ρ ε)} (h : Since allowed l l')
    (h' : Since allowed l' l'') : Since allowed l l'' := by
  obtain ⟨new, rfl, hnew⟩ := h
  obtain ⟨later, rfl, hlater⟩ := h'
  refine ⟨new ++ later, List.append_assoc .., ?_⟩
  intro x hx
  rcases List.mem_append.mp hx with hold | hlast
  · exact hnew x hold
  · exact hlater x hlast

/-- A trail stays on the runs that the triple is about. -/
theorem Ends.trail {q : Program ρ ε α} {Q : Post M α} {E : Post M ε} {asked : List (Exchange ρ ε)}
    {s' : M.State} (h : Ends S p Q E l s) (htrail : Trail S p s asked q s') :
    Ends S q Q E (l ++ asked) s' := by
  induction htrail generalizing l with
  | nil p s =>
      rw [List.append_nil]
      exact h
  | cons hbetween hadmits hperform _ ih =>
      have hrest := ih (h _ _ _ _ hbetween hadmits hperform)
      rwa [List.append_assoc] at hrest

theorem Ends.returned {a : α} {Q : Post M α} {E : Post M ε} {asked : List (Exchange ρ ε)}
    {s' : M.State} (h : Ends S p Q E [] s) (htrail : Trail S p s asked (.ret a) s') :
    Q a asked s' :=
  h.trail htrail

theorem Ends.raised {e : ε} {Q : Post M α} {E : Post M ε} {asked : List (Exchange ρ ε)}
    {s' : M.State} (h : Ends S p Q E [] s) (htrail : Trail S p s asked (.raise e) s') :
    E e asked s' :=
  h.trail htrail

/-! ## One run -/

/-- What a program has come to after `n` requests, each of which finds `env`. -/
def Program.performed (M : Machine ρ ε) (env : M.Env) :
    ℕ → Program ρ ε α → M.State → List (Exchange ρ ε) × Program ρ ε α × M.State
  | n + 1, .request r next, s =>
      let answer := M.perform env r s
      let rest := Program.performed M env n (next answer.1) answer.2
      (⟨r, answer.1⟩ :: rest.1, rest.2)
  | _, p, s => ([], p, s)

theorem Trail.performed {env : M.Env} (hbetween : ∀ s, S.between s s)
    (hadmits : ∀ s, S.admits env s) (n : ℕ) (p : Program ρ ε α) (s : M.State) :
    Trail S p s (p.performed M env n s).1 (p.performed M env n s).2.1
      (p.performed M env n s).2.2 := by
  induction n generalizing p s with
  | zero => cases p <;> exact .nil _ _
  | succ n ih =>
      cases p with
      | ret a => exact .nil _ _
      | raise e => exact .nil _ _
      | request r next => exact .cons (hbetween s) (hadmits s) rfl (ih _ _)

/-- The value that a program has returned. -/
def Program.result? : Program ρ ε α → Option α
  | .ret a => some a
  | _ => none

theorem Program.eq_ret {q : Program ρ ε α} {a : α} (h : q.result? = some a) : q = .ret a := by
  cases q with
  | ret b => rw [Option.some.inj h]
  | _ => cases h

end Concurrent
