import Mathlib.Data.Option.Basic
import Mathlib.Tactic.Common

/-! # Results that agree

Two computations agree when both raise the same exception, or both return and their results
are related. -/

namespace Agreement

variable {ε α α' β β' : Type} {P : α → α' → Prop} {Q : β → β' → Prop}

def Agree (P : α → α' → Prop) : Except ε α → Except ε α' → Prop
  | .ok a, .ok a' => P a a'
  | .error e, .error e' => e = e'
  | _, _ => False

@[simp] theorem agree_ok {a : α} {a' : α'} :
    Agree P (.ok a : Except ε α) (.ok a') ↔ P a a' := Iff.rfl

@[simp] theorem agree_error {e e' : ε} :
    Agree P (.error e : Except ε α) (.error e') ↔ e = e' := Iff.rfl

theorem Agree.pure {a : α} {a' : α'} (h : P a a') :
    Agree P (Pure.pure a : Except ε α) (Pure.pure a') := h

/-- What is computed alike may be followed by what agrees on it. -/
theorem Agree.bind {x : Except ε α} {x' : Except ε α'} {k : α → Except ε β} {k' : α' → Except ε β'}
    (hx : Agree P x x') (hk : ∀ a a', P a a' → Agree Q (k a) (k' a')) :
    Agree Q (x >>= k) (x' >>= k') := by
  cases x with
  | error e =>
      cases x' with
      | error e' => exact hx
      | ok a' => exact hx.elim
  | ok a =>
      cases x' with
      | error e' => exact hx.elim
      | ok a' => exact hk a a' hx

/-- A step that both computations share. -/
theorem Agree.same {x x' : Except ε α} {k : α → Except ε β} {k' : α → Except ε β'} (hx : x' = x)
    (hk : ∀ a, x = .ok a → Agree Q (k a) (k' a)) : Agree Q (x >>= k) (x' >>= k') := by
  subst hx
  cases x' with
  | error e => rfl
  | ok a => exact hk a rfl

theorem Agree.map {x : Except ε α} {x' : Except ε α'} {f : α → β} {f' : α' → β'}
    (hx : Agree P x x') (hf : ∀ a a', P a a' → Q (f a) (f' a')) :
    Agree Q (x.map f) (x'.map f') := by
  cases x with
  | error e =>
      cases x' with
      | error e' => exact hx
      | ok a' => exact hx.elim
  | ok a =>
      cases x' with
      | error e' => exact hx.elim
      | ok a' => exact hf a a' hx

/-- Both options are empty, or both have values, and these are related. -/
theorem rel_cases {o : Option α} {o' : Option α'} (h : Option.Rel P o o') :
    o = none ∧ o' = none ∨ ∃ a a', o = some a ∧ o' = some a' ∧ P a a' := by
  cases h with
  | none => exact .inl ⟨rfl, rfl⟩
  | some h => exact .inr ⟨_, _, rfl, rfl, h⟩

end Agreement
