import Dante.Library.Trace

/-! # Programs among the replies that can come

What a program asks next depends on the replies. Where only some replies can come, only the
requests behind these count. -/

namespace Concurrent

variable {ι : Type} {ρ : ι → Type} {ε α β : Type}

/-- Behind replies that can come, each request is allowed, and the program ends in `Q` or `E`. -/
def Program.Within (comes : (r : ι) → Except ε (ρ r) → Prop) (allowed : ι → Prop) :
    Program ρ ε α → (α → Prop) → (ε → Prop) → Prop
  | .ret a, Q, _ => Q a
  | .raise e, _, E => E e
  | .request r next, Q, E =>
      allowed r ∧ ∀ reply, comes r reply → (next reply).Within comes allowed Q E

namespace Program

variable {comes : (r : ι) → Except ε (ρ r) → Prop} {allowed : ι → Prop} {Q : α → Prop}
  {E : ε → Prop}

theorem Within.mono {Q' : α → Prop} {E' : ε → Prop} {p : Program ρ ε α}
    (h : p.Within comes allowed Q E) (hQ : ∀ a, Q a → Q' a) (hE : ∀ e, E e → E' e) :
    p.Within comes allowed Q' E' := by
  induction p with
  | ret a => exact hQ a h
  | raise e => exact hE e h
  | request r next ih => exact ⟨h.1, fun reply hreply => ih reply (h.2 reply hreply)⟩

theorem Within.bind {p : Program ρ ε β} {f : β → Program ρ ε α}
    (h : p.Within comes allowed (fun b => (f b).Within comes allowed Q E) E) :
    (p.bind f).Within comes allowed Q E := by
  induction p with
  | ret b => exact h
  | raise e => exact h
  | request r next ih => exact ⟨h.1, fun reply hreply => ih reply (h.2 reply hreply)⟩

theorem Within.except {p : Program ρ ε α} {handler : ε → Program ρ ε α}
    (h : p.Within comes allowed Q (fun e => (handler e).Within comes allowed Q E)) :
    (p.except handler).Within comes allowed Q E := by
  induction p with
  | ret a => exact h
  | raise e => exact h
  | request r next ih => exact ⟨h.1, fun reply hreply => ih reply (h.2 reply hreply)⟩

/-- One request, and the replies of both kinds that can come. -/
theorem Within.call {r : ι} {Q : ρ r → Prop} (hallowed : allowed r)
    (hok : ∀ a, comes r (.ok a) → Q a) (herror : ∀ e, comes r (.error e) → E e) :
    (Program.call r : Program ρ ε (ρ r)).Within comes allowed Q E := by
  refine ⟨hallowed, fun reply hreply => ?_⟩
  cases reply with
  | ok a => exact hok a hreply
  | error e => exact herror e hreply

/-- A program that asks only what is allowed does so behind any replies. -/
theorem Within.of_uses {p : Program ρ ε α} (h : p.Uses allowed) :
    p.Within comes allowed (fun _ => True) (fun _ => True) := by
  induction p with
  | ret a => trivial
  | raise e => trivial
  | request r next ih => exact ⟨h.1, fun reply _ => ih reply (h.2 reply)⟩

theorem Within.ofExcept {x : Except ε α} (hok : ∀ a, x = .ok a → Q a)
    (herror : ∀ e, x = .error e → E e) : (ofExcept x).Within comes allowed Q E := by
  cases x with
  | ok a => exact hok a rfl
  | error e => exact herror e rfl

theorem Within.ite {c : Prop} [Decidable c] {p q : Program ρ ε α}
    (hp : c → p.Within comes allowed Q E) (hq : ¬c → q.Within comes allowed Q E) :
    (if c then p else q).Within comes allowed Q E := by
  split
  next hc => exact hp hc
  next hc => exact hq hc

/-- What remains of a program that was given such replies. -/
theorem Within.path {p q : Program ρ ε α} {asked : List (Exchange ρ ε)} (hpath : Path p asked q)
    (h : p.Within comes allowed Q E) (hcomes : ∀ x ∈ asked, comes x.1 x.2) :
    (∀ x ∈ asked, allowed x.1) ∧ q.Within comes allowed Q E := by
  induction hpath with
  | nil p => exact ⟨by simp, h⟩
  | cons _ ih =>
      rw [List.forall_mem_cons] at hcomes
      obtain ⟨hallowed, hrest⟩ := ih (h.2 _ hcomes.1) hcomes.2
      exact ⟨List.forall_mem_cons.mpr ⟨h.1, hallowed⟩, hrest⟩

end Program

/-! ## Runs -/

variable {M : Machine ρ ε} {R : Rules M} {allowed : ι → Prop}

/-- Where every move of a kind keeps `J`, and a request made while `J` holds is given a reply
that can come, a program started while `J` holds asks only what it may ask behind these. -/
theorem Reachable.within (comes : (r : ι) → Except ε (ρ r) → Prop)
    {T : System M → System M → Prop} {J : M.State → Prop}
    (hT : ∀ s s', T s s' → Step R s s')
    (hJ : ∀ s s', T s s' → J s.snap.state → J s'.snap.state)
    (hcomes : ∀ s s' pid r reply, T s s' → J s.snap.state →
      s'.snap.log = s.snap.log ++ [.call pid r reply] → comes r reply)
    {p : Program ρ ε Unit}
    (hp : p.Within comes allowed (fun _ => True) (fun _ => True)) {s s' : System M}
    (h : Reachable R s) (hs : J s.snap.state)
    (hruns : Relation.ReflTransGen T (s.started p) s') :
    J s'.snap.state ∧
      ∀ r reply, .call s.threads.length r reply ∈ s'.snap.log → allowed r := by
  suffices hinv : J s'.snap.state ∧ s'.On s.threads.length p ∧
      ∀ x ∈ exchanges s.threads.length s'.snap.log, comes x.1 x.2 by
    obtain ⟨hstate, ⟨-, q, hpath, -⟩, hgiven⟩ := hinv
    refine ⟨hstate, fun r reply hmem => ?_⟩
    exact (hp.path hpath hgiven).1 ⟨r, reply⟩ (mem_exchanges.mpr hmem)
  induction hruns with
  | refl =>
      refine ⟨hs, System.on_started h.traces.known p, ?_⟩
      have hnone : exchanges s.threads.length s.snap.log = [] :=
        exchanges_of_unknown fun e he => Nat.ne_of_lt (h.traces.known e he)
      simp [System.started, hnone]
  | tail _ hstep ih =>
      obtain ⟨hstate, hon, hgiven⟩ := ih
      refine ⟨hJ _ _ hstep hstate, (hT _ _ hstep).on hon, ?_⟩
      rcases (hT _ _ hstep).log_cases with hsame | ⟨e, hlog⟩
      · rwa [hsame]
      · intro x hx
        rw [hlog, exchanges_append, List.mem_append] at hx
        rcases hx with hold | hnew
        · exact hgiven x hold
        · cases e with
          | call pid r reply =>
              by_cases hpid : pid = s.threads.length
              · subst hpid
                rw [exchanges_call, List.mem_singleton] at hnew
                subst hnew
                exact hcomes _ _ _ r reply hstep hstate hlog
              · rw [exchanges_of_ne (e := .call pid r reply) hpid] at hnew
                cases hnew
          | spawn pid => simp at hnew
          | crash pid => simp at hnew

end Concurrent
