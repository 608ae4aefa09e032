import Mathlib.Algebra.BigOperators.Group.Finset.Basic
import Mathlib.Algebra.BigOperators.Group.Finset.Piecewise
import Mathlib.Algebra.Order.BigOperators.Group.Finset

/-! # Credits

Events of several parties, some of which earn or spend credit of a kind. When every party
only spends what it has earned itself, no more is spent overall than was earned. -/

namespace Credit

variable {E K : Type} {party : E → ℕ} {log : List E} {e : E} {pid : ℕ}

/-- The events of one party, in order. -/
def own (party : E → ℕ) (pid : ℕ) (log : List E) : List E :=
  log.filter (fun e => party e == pid)

@[simp] theorem own_nil : own party pid [] = [] := rfl

theorem own_append_self (log : List E) (e : E) :
    own party (party e) (log ++ [e]) = own party (party e) log ++ [e] := by
  simp [own]

theorem own_append_of_ne (h : party e ≠ pid) (log : List E) :
    own party pid (log ++ [e]) = own party pid log := by
  simp [own, h]

/-- The last event of a party is followed by events of others only. -/
theorem own_getLast {last : E} (h : (own party pid log).getLast? = some last) :
    ∃ before after, log = before ++ last :: after ∧ ∀ e ∈ after, party e ≠ pid := by
  induction log using List.reverseRecOn with
  | nil => cases h
  | append_singleton log e ih =>
      by_cases hpid : party e = pid
      · subst hpid
        rw [own_append_self, List.getLast?_append, List.getLast?_singleton, Option.some_or] at h
        cases h
        exact ⟨log, [], rfl, by simp⟩
      · rw [own_append_of_ne hpid] at h
        obtain ⟨before, after, rfl, hafter⟩ := ih h
        refine ⟨before, after ++ [e], by simp, fun e' he' => ?_⟩
        rcases List.mem_append.mp he' with hold | hnew
        · exact hafter e' hold
        · rw [List.mem_singleton.mp hnew]
          exact hpid

/-- Counting all events is counting the events of each party. -/
theorem countP_eq_sum_own (p : E → Bool) (log : List E) (parties : Finset ℕ)
    (hparties : ∀ e ∈ log, party e ∈ parties) :
    log.countP p = ∑ pid ∈ parties, (own party pid log).countP p := by
  induction log with
  | nil => simp
  | cons e rest ih =>
      have hrest := ih fun e' he' => hparties e' (List.mem_cons_of_mem _ he')
      have hown (pid : ℕ) : (own party pid (e :: rest)).countP p =
          (own party pid rest).countP p + if party e = pid then (if p e then 1 else 0) else 0 := by
        by_cases hpid : party e = pid
        · simp [own, hpid, List.countP_cons]
        · simp [own, hpid]
      simp only [hown, Finset.sum_add_distrib, Finset.sum_ite_eq,
        hparties e List.mem_cons_self, if_true, ← hrest, List.countP_cons]

variable (party) in
/-- No party has spent more credit of any kind than it earned. -/
def Solvent (earns spends : K → E → Bool) (log : List E) : Prop :=
  ∀ pid k, (own party pid log).countP (spends k) ≤ (own party pid log).countP (earns k)

variable {earns spends : K → E → Bool}

theorem Solvent.nil : Solvent party earns spends [] := by
  simp [Solvent]

/-- An event keeps its party solvent when the party has credit for what the event spends. -/
theorem Solvent.append (h : Solvent party earns spends log)
    (hspend : ∀ k, spends k e = true → (own party (party e) log).countP (spends k) <
      (own party (party e) log).countP (earns k)) :
    Solvent party earns spends (log ++ [e]) := by
  intro pid k
  have hbefore := h pid k
  by_cases hpid : party e = pid
  · subst hpid
    rw [own_append_self, List.countP_append, List.countP_append]
    cases hspends : spends k e with
    | true =>
        have hcredit := hspend k hspends
        simp only [List.countP_singleton, hspends, if_true]
        omega
    | false =>
        simp only [List.countP_singleton, hspends, Bool.false_eq_true, if_false]
        omega
  · rw [own_append_of_ne hpid]
    exact hbefore

/-- Overall, no more is spent than was earned. -/
theorem Solvent.total (h : Solvent party earns spends log) (k : K) :
    log.countP (spends k) ≤ log.countP (earns k) := by
  have hparties : ∀ e ∈ log, party e ∈ (log.map party).toFinset := by
    intro e he
    exact List.mem_toFinset.mpr (List.mem_map_of_mem he)
  rw [countP_eq_sum_own (spends k) log _ hparties, countP_eq_sum_own (earns k) log _ hparties]
  exact Finset.sum_le_sum fun pid _ => h pid k

/-! ## One credit at a time -/

/-- Of the events that earn or spend, the last one earned. -/
def holding (earns spends : E → Bool) (log : List E) : Bool :=
  log.foldl (fun held e => if earns e then true else if spends e then false else held) false

@[simp] theorem holding_nil (earns spends : E → Bool) : holding earns spends [] = false := rfl

theorem holding_append_singleton (earns spends : E → Bool) (log : List E) (e : E) :
    holding earns spends (log ++ [e]) =
      if earns e then true else if spends e then false else holding earns spends log := by
  simp [holding]

variable (party) in
/-- Every event that spends is made by a party that holds a credit. -/
def Covered (earns spends : E → Bool) (log : List E) : Prop :=
  ∀ before e, before ++ [e] <+: log → spends e = true →
    holding earns spends (own party (party e) before) = true

variable {earn spend : E → Bool} {before log' : List E}

theorem Covered.left (h : Covered party earn spend (log ++ log')) : Covered party earn spend log :=
  fun before e hinit => h before e (hinit.trans (List.prefix_append log log'))

/-- One party spends no more than it has earned since, and what it held before. -/
theorem Covered.own_le (h : Covered party earn spend (before ++ log))
    (hdisjoint : ∀ e, earn e = true → spend e = false) (pid : ℕ) :
    (own party pid log).countP spend +
        (if holding earn spend (own party pid (before ++ log)) then 1 else 0) ≤
      (own party pid log).countP earn +
        (if holding earn spend (own party pid before) then 1 else 0) := by
  induction log using List.reverseRecOn with
  | nil => simp
  | append_singleton log e ih =>
      rw [← List.append_assoc] at h ⊢
      have hlog := ih h.left
      by_cases hpid : party e = pid
      · subst hpid
        have hcovered := h (before ++ log) e (List.prefix_refl _)
        rw [own_append_self, own_append_self, holding_append_singleton, List.countP_append,
          List.countP_append, List.countP_singleton, List.countP_singleton]
        cases hearn : earn e with
        | true =>
            have hspend := hdisjoint e hearn
            simp only [hspend, if_true, Bool.false_eq_true, if_false]
            split_ifs at hlog ⊢ <;> omega
        | false =>
            cases hspend : spend e with
            | true =>
                rw [hcovered hspend] at hlog
                simp only [Bool.false_eq_true, if_false, if_true] at hlog ⊢
                omega
            | false =>
                simp only [Bool.false_eq_true, if_false]
                omega
      · rw [own_append_of_ne hpid, own_append_of_ne hpid]
        exact hlog

/-- Who spends only what he holds spends no more than he earned. -/
theorem countP_le_of_held (h : ∀ before e after, log = before ++ e :: after → spend e = true →
    holding earn spend before = true) (hdisjoint : ∀ e, earn e = true → spend e = false) :
    log.countP spend ≤ log.countP earn := by
  have hown (l : List E) : own (fun _ => 0) 0 l = l := by
    simp [own]
  have hcovered : Covered (fun _ => 0) earn spend ([] ++ log) := by
    rintro before e ⟨after, hlog⟩ he
    rw [hown]
    exact h before e after (by simpa using hlog.symm) he
  have hle := hcovered.own_le hdisjoint 0
  simp only [hown, List.nil_append, holding_nil, Bool.false_eq_true, if_false] at hle
  omega

/-- No more is spent than was earned since, besides one credit of each party that held one. -/
theorem Covered.countP_le (h : Covered party earn spend (before ++ log))
    (hdisjoint : ∀ e, earn e = true → spend e = false) (parties : Finset ℕ)
    (hparties : ∀ e ∈ log, party e ∈ parties) :
    log.countP spend ≤ log.countP earn +
      (parties.filter fun pid => holding earn spend (own party pid before) = true).card := by
  rw [countP_eq_sum_own spend log parties hparties, countP_eq_sum_own earn log parties hparties,
    Finset.card_filter, ← Finset.sum_add_distrib]
  refine Finset.sum_le_sum fun pid _ => ?_
  have hown := h.own_le hdisjoint pid
  omega

end Credit
