import Mathlib.Data.List.Chain
import Mathlib.Data.List.DropRight
import Mathlib.Data.List.Infix
import Mathlib.Data.List.TakeWhile
import Mathlib.Tactic.Common

/-! # Cleaning up a text

Stripping both ends, and writing each run of some characters as one character. What is clean
already is left alone. -/

namespace Cleaning

variable {α : Type} {p : α → Bool} {x : α} {l l' : List α}

/-! ## Both ends -/

/-- The list without the elements at its ends that satisfy `p`. -/
def strip (p : α → Bool) (l : List α) : List α :=
  (l.dropWhile p).rdropWhile p

/-- Neither end satisfies `p`. -/
structure Trimmed (p : α → Bool) (l : List α) : Prop where
  head : ∀ h : l ≠ [], p (l.head h) = false
  last : ∀ h : l ≠ [], p (l.getLast h) = false

theorem rdropWhile_front (p : α → Bool) (l : List α) : l.rdropWhile p <+: l :=
  List.rdropWhile_prefix p l

theorem strip_inside (p : α → Bool) (l : List α) : strip p l <:+: l :=
  (rdropWhile_front p _).isInfix.trans (List.dropWhile_suffix p).isInfix

theorem mem_of_mem_strip {a : α} (h : a ∈ strip p l) : a ∈ l :=
  (strip_inside p l).subset h

theorem head_of_front (hfront : l' <+: l) (h : l' ≠ []) :
    l'.head h = l.head (List.ne_nil_of_mem (hfront.subset (List.head_mem h))) := by
  obtain ⟨rest, rfl⟩ := hfront
  exact (List.head_append_of_ne_nil h).symm

theorem strip_trimmed (p : α → Bool) (l : List α) : Trimmed p (strip p l) where
  head h := by
    have hnonempty : l.dropWhile p ≠ [] := by
      intro hnil
      rw [strip, hnil] at h
      exact h rfl
    change p (((l.dropWhile p).rdropWhile p).head h) = false
    rw [head_of_front (rdropWhile_front p _) h]
    exact List.head_dropWhile_not p hnonempty
  last h := by
    have hlast := List.rdropWhile_last_not p (l.dropWhile p) h
    exact Bool.eq_false_iff.mpr hlast

/-- Where the first element stays, stripping is a matter of the end. -/
theorem strip_of_head (h : ∀ hl : l ≠ [], p (l.head hl) = false) :
    strip p l = l.rdropWhile p := by
  cases l with
  | nil => rfl
  | cons a l =>
      have ha : p a = false := h (List.cons_ne_nil a l)
      rw [strip, List.dropWhile_cons_of_neg (by simp [ha])]

/-- An element that stays keeps all before it. -/
theorem rdropWhile_cons_of_neg {a : α} (h : p a = false) :
    (a :: l).rdropWhile p = a :: l.rdropWhile p := by
  induction l using List.reverseRecOn with
  | nil => rw [List.rdropWhile_singleton, h, List.rdropWhile_nil, if_neg Bool.false_ne_true]
  | append_singleton l b ih =>
      rw [← List.cons_append, List.rdropWhile_concat, List.rdropWhile_concat]
      split
      · exact ih
      · rfl

theorem strip_cons_of_neg {a : α} (h : p a = false) :
    strip p (a :: l) = a :: l.rdropWhile p := by
  rw [strip_of_head (fun _ => h), rdropWhile_cons_of_neg h]

theorem strip_eq_self_iff : strip p l = l ↔ Trimmed p l := by
  constructor
  · intro h
    rw [← h]
    exact strip_trimmed p l
  · intro h
    rw [strip_of_head h.head, List.rdropWhile_eq_self_iff]
    intro hl
    rw [h.last hl]
    decide

/-! ## Runs -/

/-- Each run of elements that satisfy `p` is written as one `x`. -/
def squeeze (p : α → Bool) (x : α) : List α → List α
  | [] => []
  | a :: l =>
      if p a then
        match l with
        | [] => [x]
        | b :: _ => if p b then squeeze p x l else x :: squeeze p x l
      else a :: squeeze p x l

theorem mem_squeeze {a : α} (h : a ∈ squeeze p x l) : a = x ∨ a ∈ l ∧ p a = false := by
  fun_induction squeeze p x l with
  | case1 => cases h
  | case2 b hb => exact .inl (List.mem_singleton.mp h)
  | case3 b hb c l hc ih =>
      rcases ih h with heq | hmem
      · exact .inl heq
      · exact .inr ⟨List.mem_cons_of_mem _ hmem.1, hmem.2⟩
  | case4 b hb c l hc ih =>
      rcases List.mem_cons.mp h with heq | hmem
      · exact .inl heq
      · rcases ih hmem with heq | hmem
        · exact .inl heq
        · exact .inr ⟨List.mem_cons_of_mem _ hmem.1, hmem.2⟩
  | case5 b l hb ih =>
      rcases List.mem_cons.mp h with rfl | hmem
      · exact .inr ⟨List.mem_cons_self, by simpa using hb⟩
      · rcases ih hmem with heq | hmem
        · exact .inl heq
        · exact .inr ⟨List.mem_cons_of_mem _ hmem.1, hmem.2⟩

/-- No two neighbours both satisfy `p`. -/
abbrev Sparse (p : α → Bool) (l : List α) : Prop :=
  l.IsChain fun a b => ¬(p a = true ∧ p b = true)

theorem squeeze_sparse (p : α → Bool) (x : α) (l : List α) : Sparse p (squeeze p x l) := by
  fun_induction squeeze p x l with
  | case1 => exact .nil
  | case2 b hb => exact .singleton _
  | case3 b hb c l hc ih => exact ih
  | case4 b hb c l hc ih =>
      have hc' : p c = false := by simpa using hc
      have hcons : squeeze p x (c :: l) = c :: squeeze p x l := by
        rw [squeeze.eq_def]
        simp [hc']
      rw [hcons] at ih ⊢
      exact .cons_cons (by simp [hc']) ih
  | case5 b l hb ih =>
      have hb' : p b = false := by simpa using hb
      cases hrest : squeeze p x l with
      | nil => exact .singleton _
      | cons c rest => exact .cons_cons (by simp [hb']) (hrest ▸ ih)

/-- A list is left alone if its runs have one element each, and that is `x`. -/
theorem squeeze_eq_self (hsparse : Sparse p l) (hx : ∀ a ∈ l, p a = true → a = x) :
    squeeze p x l = l := by
  fun_induction squeeze p x l with
  | case1 => rfl
  | case2 b hb => rw [hx b List.mem_cons_self hb]
  | case3 b hb c l hc ih => exact absurd ⟨hb, hc⟩ (List.isChain_cons_cons.mp hsparse).1
  | case4 b hb c l hc ih =>
      rw [ih hsparse.tail fun a ha => hx a (List.mem_cons_of_mem _ ha),
        hx b List.mem_cons_self hb]
  | case5 b l hb ih =>
      rw [ih hsparse.tail fun a ha => hx a (List.mem_cons_of_mem _ ha)]

theorem length_squeeze_le (p : α → Bool) (x : α) (l : List α) :
    (squeeze p x l).length ≤ l.length := by
  fun_induction squeeze p x l with
  | case1 => exact Nat.le_refl _
  | case2 b hb => exact Nat.le_refl _
  | case3 b hb c l hc ih => exact Nat.le_succ_of_le ih
  | case4 b hb c l hc ih => exact Nat.succ_le_succ ih
  | case5 b l hb ih => exact Nat.succ_le_succ ih

end Cleaning
