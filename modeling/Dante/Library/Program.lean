import Mathlib.Tactic.Common

/-! # Programs over atomic requests

A program is a tree: it ends with a value or an exception, or issues one atomic request
and continues on the reply. Sequencing and exception handling graft trees. -/

namespace Concurrent

inductive Program {ι : Type} (ρ : ι → Type) (ε α : Type) where
  | ret (value : α)
  | raise (exn : ε)
  | request (r : ι) (next : Except ε (ρ r) → Program ρ ε α)

namespace Program

variable {ι : Type} {ρ : ι → Type} {ε α β γ : Type}

def bind : Program ρ ε α → (α → Program ρ ε β) → Program ρ ε β
  | .ret a, f => f a
  | .raise e, _ => .raise e
  | .request r next, f => .request r (fun reply => (next reply).bind f)

/-- `try p except e: handler e`. -/
def except : Program ρ ε α → (ε → Program ρ ε α) → Program ρ ε α
  | .ret a, _ => .ret a
  | .raise e, handler => handler e
  | .request r next, handler => .request r (fun reply => (next reply).except handler)

/-- `try: p finally: cleanup`. What the cleanup raises takes the place of the outcome of `p`. -/
def andFinally (p : Program ρ ε α) (cleanup : Program ρ ε Unit) : Program ρ ε α :=
  ((p.bind fun a => .ret (.ok a)).except fun e => .ret (.error e)).bind
    fun outcome : Except ε α => cleanup.bind fun _ =>
      match outcome with
      | .ok a => .ret a
      | .error e => .raise e

instance : Monad (Program ρ ε) where
  pure := .ret
  bind := .bind

/-- Issue one request; a failed request raises. -/
def call (r : ι) : Program ρ ε (ρ r) :=
  .request r fun
    | .ok a => .ret a
    | .error e => .raise e

@[simp] theorem pure_eq (a : α) : (pure a : Program ρ ε α) = .ret a := rfl

@[simp] theorem bind_eq (p : Program ρ ε α) (f : α → Program ρ ε β) : p >>= f = p.bind f := rfl

@[simp] theorem ret_bind (a : α) (f : α → Program ρ ε β) : (ret a : Program ρ ε α).bind f = f a :=
  rfl

@[simp] theorem raise_bind (e : ε) (f : α → Program ρ ε β) :
    (raise e : Program ρ ε α).bind f = .raise e := rfl

@[simp] theorem request_bind (r : ι) (next : Except ε (ρ r) → Program ρ ε α)
    (f : α → Program ρ ε β) :
    (request r next).bind f = .request r (fun reply => (next reply).bind f) := rfl

theorem bind_assoc (p : Program ρ ε α) (f : α → Program ρ ε β) (g : β → Program ρ ε γ) :
    (p.bind f).bind g = p.bind (fun a => (f a).bind g) := by
  induction p with
  | ret a => rfl
  | raise e => rfl
  | request r next ih => simp only [request_bind, ih]

/-- The outcome of a computation that asks nothing. -/
def ofExcept : Except ε α → Program ρ ε α
  | .ok a => .ret a
  | .error e => .raise e

/-- Every request of the tree satisfies `allowed`. -/
def Uses (allowed : ι → Prop) : Program ρ ε α → Prop
  | .ret _ => True
  | .raise _ => True
  | .request r next => allowed r ∧ ∀ reply, (next reply).Uses allowed

variable {allowed : ι → Prop}

theorem Uses.bind {p : Program ρ ε α} {f : α → Program ρ ε β} (hp : p.Uses allowed)
    (hf : ∀ a, (f a).Uses allowed) : (p.bind f).Uses allowed := by
  induction p with
  | ret a => exact hf a
  | raise e => trivial
  | request r next ih => exact ⟨hp.1, fun reply => ih reply (hp.2 reply)⟩

theorem Uses.except {p : Program ρ ε α} {handler : ε → Program ρ ε α} (hp : p.Uses allowed)
    (hh : ∀ e, (handler e).Uses allowed) : (p.except handler).Uses allowed := by
  induction p with
  | ret a => trivial
  | raise e => exact hh e
  | request r next ih => exact ⟨hp.1, fun reply => ih reply (hp.2 reply)⟩

theorem Uses.call {r : ι} (h : allowed r) : (call r : Program ρ ε (ρ r)).Uses allowed := by
  refine ⟨h, fun reply => ?_⟩
  cases reply <;> trivial

theorem Uses.ofExcept (x : Except ε α) : (ofExcept x : Program ρ ε α).Uses allowed := by
  cases x <;> trivial

theorem Uses.ite {c : Prop} [Decidable c] {p q : Program ρ ε α} (hp : c → p.Uses allowed)
    (hq : ¬c → q.Uses allowed) : (if c then p else q).Uses allowed := by
  split
  next hc => exact hp hc
  next hc => exact hq hc

theorem Uses.mono {other : ι → Prop} {p : Program ρ ε α} (hp : p.Uses allowed)
    (h : ∀ r, allowed r → other r) : p.Uses other := by
  induction p with
  | ret a => trivial
  | raise e => trivial
  | request r next ih => exact ⟨h r hp.1, fun reply => ih reply (hp.2 reply)⟩

/-- Whatever the replies, only values of `Q` are returned. -/
def Yields (Q : α → Prop) : Program ρ ε α → Prop
  | .ret a => Q a
  | .raise _ => True
  | .request _ next => ∀ reply, (next reply).Yields Q

theorem Yields.bind {Q : α → Prop} {Q' : β → Prop} {p : Program ρ ε α} {f : α → Program ρ ε β}
    (hp : p.Yields Q) (hf : ∀ a, Q a → (f a).Yields Q') : (p.bind f).Yields Q' := by
  induction p with
  | ret a => exact hf a hp
  | raise e => trivial
  | request r next ih => exact fun reply => ih reply (hp reply)

/-- The second part need only behave on the values that the first can return. -/
theorem Uses.bind_of_yields {Q : α → Prop} {p : Program ρ ε α} {f : α → Program ρ ε β}
    (hp : p.Uses allowed) (hy : p.Yields Q) (hf : ∀ a, Q a → (f a).Uses allowed) :
    (p.bind f).Uses allowed := by
  induction p with
  | ret a => exact hf a hy
  | raise e => trivial
  | request r next ih => exact ⟨hp.1, fun reply => ih reply (hp.2 reply) (hy reply)⟩

end Program

end Concurrent
