import Mathlib.Tactic.Common

/-! # Replaying a log

A log explains a state when its entries, taken in order, are edges that lead to it. -/

namespace Audit

variable {σ ε : Type} {edge : σ → ε → σ → Prop} {s m s' : σ} {e : ε} {log log' late new : List ε}

/-- The entries lead from the first state to the second. -/
inductive Replay (edge : σ → ε → σ → Prop) : σ → List ε → σ → Prop where
  | nil (s : σ) : Replay edge s [] s
  | cons {s m s' : σ} {e : ε} {rest : List ε} (h : edge s e m) (hrest : Replay edge m rest s') :
      Replay edge s (e :: rest) s'

theorem Replay.single (h : edge s e s') : Replay edge s [e] s' :=
  .cons h (.nil s')

theorem Replay.append (h : Replay edge s log m) (h' : Replay edge m new s') :
    Replay edge s (log ++ new) s' := by
  induction h with
  | nil s => exact h'
  | cons hedge _ ih => exact .cons hedge (ih h')

/-- Every entry of the log was an edge when it was written. -/
theorem Replay.split (h : Replay edge s (log ++ new) s') :
    ∃ m, Replay edge s log m ∧ Replay edge m new s' := by
  induction log generalizing s with
  | nil => exact ⟨s, .nil s, h⟩
  | cons e rest ih =>
      cases h with
      | cons hedge hrest =>
          obtain ⟨m, hbefore, hafter⟩ := ih hrest
          exact ⟨m, .cons hedge hbefore, hafter⟩

/-- Where the entry determines the next state, replaying is a fold. -/
theorem Replay.foldl_eq {f : σ → ε → σ} (hf : ∀ {s e s'}, edge s e s' → f s e = s')
    (h : Replay edge s log s') : log.foldl f s = s' := by
  induction h with
  | nil s => rfl
  | cons hedge _ ih => rw [List.foldl_cons, hf hedge, ih]

/-- A property that every edge preserves holds at the end. -/
theorem Replay.invariant {P : σ → Prop} (hP : ∀ {s e s'}, edge s e s' → P s → P s')
    (h : Replay edge s log s') (hs : P s) : P s' := by
  induction h with
  | nil s => exact hs
  | cons hedge _ ih => exact ih (hP hedge hs)

/-! ## A state beside its log -/

/-- What the second log adds to the first leads from the one state to the other. -/
def Extends (edge : σ → ε → σ → Prop) (log log' : List ε) (s s' : σ) : Prop :=
  ∃ new, log' = log ++ new ∧ Replay edge s new s'

theorem Extends.refl (log : List ε) (s : σ) : Extends edge log log s s :=
  ⟨[], by simp, .nil s⟩

theorem Extends.of_eq (hlog : log' = log) (hs : s' = s) : Extends edge log log' s s' := by
  rw [hlog, hs]
  exact .refl log s

theorem Extends.single (hlog : log' = log ++ [e]) (h : edge s e s') :
    Extends edge log log' s s' :=
  ⟨[e], hlog, .single h⟩

theorem Extends.trans (h : Extends edge log log' s m) (h' : Extends edge log' late m s') :
    Extends edge log late s s' := by
  obtain ⟨new, hnew, hpath⟩ := h
  obtain ⟨later, hlater, hpath'⟩ := h'
  exact ⟨new ++ later, by rw [hlater, hnew, List.append_assoc], hpath.append hpath'⟩

/-- A log that explained the old state explains the new one. -/
theorem Extends.replay {start : σ} (h : Extends edge log log' s s')
    (hlog : Replay edge start log s) : Replay edge start log' s' := by
  obtain ⟨new, rfl, hpath⟩ := h
  exact hlog.append hpath

end Audit
