import Dante.Model.Gateway

/-! # What each request does to the attempt windows and the backends -/

namespace Dante

open Relational Concurrent

section Windows

variable [Platform] {w w' : InferenceWorld} {owner : Option Lease} {taskId : String} {now time : ℚ}
  {policy : ContinuityPolicy}

/-- The row of a task's window, as it is or as it is about to be inserted. -/
def InferenceWorld.window (w : InferenceWorld) (taskId : String) (start : ℚ) : AttemptWindow :=
  (w.windows.get? taskId).getD ⟨taskId, start, 0, none, none⟩

omit [Platform] in
theorem InferenceWorld.opened_get? (w : InferenceWorld) (taskId k : String) (start : ℚ) :
    (w.opened taskId start).windows.get? k =
      if k = taskId then some (w.window taskId start) else w.windows.get? k := by
  simp only [opened, window, Table.get?_ensure, Keyed.primary]
  by_cases hk : taskId = k
  · subst hk
    simp
  · simp [hk, Ne.symm hk]

omit [Platform] in
theorem InferenceWorld.restarted_get? (w : InferenceWorld) (taskId k : String) (start : ℚ) :
    (w.restarted taskId start).windows.get? k = if k = taskId then (w.windows.get? k).map
      fun r => { r with windowStart := start, attempts := 0 } else w.windows.get? k := by
  simp only [restarted, Table.get?_modify]

omit [Platform] in
theorem InferenceWorld.counted_get? (w : InferenceWorld) (taskId k : String) :
    (w.counted taskId).windows.get? k = if k = taskId then (w.windows.get? k).map
      fun r => { r with attempts := r.attempts + 1 } else w.windows.get? k := by
  simp only [counted, Table.get?_modify]

omit [Platform] in
theorem InferenceWorld.concluded_get? (w : InferenceWorld) (taskId k : String)
    (disposition : Disposition) (reason : String) (retryAt : Option ℚ) :
    (w.concluded taskId disposition reason retryAt).windows.get? k = if k = taskId then
      (w.windows.get? k).map fun r =>
        { r with lastReason := some reason, disposition := some disposition }
      else w.windows.get? k := by
  simp only [concluded, Table.get?_modify]

/-- What a reservation answers, and what becomes of the window. -/
inductive Reservation (policy : ContinuityPolicy) (now : ℚ) (row : AttemptWindow) :
    Option ℚ → AttemptWindow → Prop where
  | restarted (h : row.windowStart + policy.windowS ≤ now) :
      Reservation policy now row none { row with windowStart := now, attempts := 1 }
  | denied (h : now < row.windowStart + policy.windowS)
      (hspent : policy.maxRouteAttempts ≤ row.attempts) :
      Reservation policy now row (some (row.windowStart + policy.windowS)) row
  | counted (h : now < row.windowStart + policy.windowS)
      (hleft : row.attempts < policy.maxRouteAttempts) :
      Reservation policy now row none { row with attempts := row.attempts + 1 }

omit [Platform] in
theorem reserve_ok {reply : Option ℚ}
    (h : reserve owner taskId now policy time w = .ok (reply, w')) :
    ∃ row, Reservation policy now (w.window taskId now) reply row ∧
      (∀ k, w'.windows.get? k = if k = taskId then some row else w.windows.get? k) ∧
      w'.backends = w.backends ∧ w'.now = w.now := by
  have hopened := w.opened_get? taskId taskId now
  rw [if_pos rfl] at hopened
  simp only [reserve, Except.bind_eq_ok, orRaise_eq_ok, hopened, Option.some.injEq] at h
  obtain ⟨-, -, -, -, row, rfl, h⟩ := h
  split_ifs at h with hover hspent
  · cases h
    refine ⟨_, .restarted hover, fun k => ?_, rfl, rfl⟩
    rw [InferenceWorld.counted_get?, InferenceWorld.restarted_get?, InferenceWorld.opened_get?]
    by_cases hk : k = taskId <;> simp [hk]
  · cases h
    exact ⟨_, .denied (not_le.mp hover) hspent, fun k => w.opened_get? taskId k now, rfl, rfl⟩
  · cases h
    refine ⟨_, .counted (not_le.mp hover) (not_le.mp hspent), fun k => ?_, rfl, rfl⟩
    rw [InferenceWorld.counted_get?, InferenceWorld.opened_get?]
    by_cases hk : k = taskId <;> simp [hk]

theorem outcome_ok {task : Task} {disposition : Disposition} {reason : String}
    {retryAt : Option ℚ} {clock : ℕ → ℚ} {u : Unit}
    (h : outcome owner task disposition reason retryAt clock time w = .ok (u, w')) :
    ∃ start row, (∀ k, w'.windows.get? k =
        if k = task.taskId then some row else w.windows.get? k) ∧
      (disposition = .continueNow → row.attempts = 0) ∧
      (disposition ≠ .continueNow →
        row.attempts = (w.window task.taskId start).attempts ∧
          row.windowStart = (w.window task.taskId start).windowStart) ∧
      w'.backends = w.backends ∧ w.now ≤ start ∧ start ≤ w'.now := by
  simp only [outcome, Except.bind_eq_ok, Except.pure_eq_ok] at h
  obtain ⟨-, -, -, -, h⟩ := h
  cases h
  have hconcluded (k : String) : (((w.tick (clock 0)).opened task.taskId (w.tick (clock 0)).now
      ).concluded task.taskId disposition reason retryAt).windows.get? k =
      if k = task.taskId then some { w.window task.taskId (max w.now (clock 0)) with
        lastReason := some reason, disposition := some disposition } else w.windows.get? k := by
    rw [InferenceWorld.concluded_get?, InferenceWorld.opened_get?]
    by_cases hk : k = task.taskId
    · subst hk
      simp [InferenceWorld.tick, InferenceWorld.window]
    · simp [hk, InferenceWorld.tick]
  refine ⟨max w.now (clock 0), ?_⟩
  by_cases hcontinue : disposition = .continueNow
  · rw [if_pos hcontinue]
    refine ⟨{ w.window task.taskId (max w.now (clock 0)) with
      windowStart := max (max w.now (clock 0)) (clock 1), attempts := 0,
      lastReason := some reason, disposition := some disposition }, fun k => ?_, fun _ => rfl,
      fun h => absurd hcontinue h, rfl, le_max_left _ _, le_max_left _ _⟩
    refine (InferenceWorld.restarted_get? ..).trans ?_
    have hk := hconcluded k
    simp only [InferenceWorld.tick] at hk ⊢
    rw [hk]
    by_cases hk : k = task.taskId
    · simp [hk, InferenceWorld.concluded, InferenceWorld.opened]
    · simp [hk]
  · rw [if_neg hcontinue]
    exact ⟨_, hconcluded, fun h => absurd h hcontinue, fun _ => ⟨rfl, rfl⟩, rfl, le_max_left _ _,
      le_refl _⟩

omit [Platform] in
theorem observe_ok {guarded : Option String} {backendId : String} {state : BackendState}
    {reason : String} {observedAt : ℚ} {cooldownUntil : Option ℚ} {u : Unit}
    (h : observe owner guarded backendId state reason observedAt cooldownUntil time w =
      .ok (u, w')) :
    (∀ k, w'.backends.get? k = if k = backendId then some (.following (w.backends.get? backendId)
        backendId state reason observedAt cooldownUntil) else w.backends.get? k) ∧
      w'.windows = w.windows ∧ w'.now = w.now := by
  simp only [observe, Except.bind_eq_ok, Except.pure_eq_ok] at h
  obtain ⟨-, -, h⟩ := h
  cases h
  refine ⟨fun k => ?_, rfl, rfl⟩
  simp only [Table.get?_put, Keyed.primary, BackendObservation.following]
  by_cases hk : backendId = k
  · simp [hk]
  · simp [hk, Ne.symm hk]

/-! ## Requests -/

omit [Platform] in
theorem InferenceWorld.commit_ok {α : Type} {x : Except Exn (α × InferenceWorld)} {a : α}
    (h : w.commit x = (.ok a, w')) : x = .ok (a, w') := by
  cases x with
  | error e => cases h
  | ok y =>
      obtain ⟨b, w''⟩ := y
      cases h
      rfl

omit [Platform] in
theorem InferenceWorld.commit_error {α : Type} {x : Except Exn (α × InferenceWorld)} {e : Fault}
    (h : w.commit x = (.error e, w')) : w' = w := by
  cases x with
  | error e => exact (Prod.mk.inj h).2.symm
  | ok y =>
      obtain ⟨b, w''⟩ := y
      cases h

omit [Platform] in
/-- A transaction of the ledger has no part in the continuity manager's tables. -/
theorem InferenceWorld.commitDb_drift {α : Type} {x : Except Exn (α × Database)}
    {reply : Except Fault α} (h : w.commitDb x = (reply, w')) : w.Drift w' := by
  cases x with
  | error e =>
      cases h
      exact ⟨rfl, rfl, rfl⟩
  | ok y =>
      obtain ⟨a, db⟩ := y
      cases h
      exact ⟨rfl, rfl, rfl⟩

variable {env : Providers}

omit [Platform] in
theorem noteEvent_drift {task : Task} {note : Note} {u : Unit}
    (h : noteEvent owner task note time w = .ok (u, w')) : w.Drift w' := by
  simp only [noteEvent, Except.bind_eq_ok, Except.pure_eq_ok] at h
  obtain ⟨-, -, -, -, h⟩ := h
  cases h
  exact ⟨rfl, rfl, rfl⟩

/-- A transaction on the continuity manager's tables, apart from its events. -/
def InferenceStep.writes : InferenceStep → Bool
  | .observe .. | .reserve .. | .outcome .. => true
  | _ => false

/-- What a request does to the state beside the rest of the database. -/
inductive Effect (w w' : InferenceWorld) : (r : InferenceStep) → Except Fault r.Reply → Prop where
  /-- Nothing, except that the clock may have moved on. -/
  | none {r : InferenceStep} {reply : Except Fault r.Reply}
      (hfailed : r.writes = true → ∃ e, reply = .error e) (hbackends : w'.backends = w.backends)
      (hwindows : w'.windows = w.windows) (hnow : w.now ≤ w'.now) : Effect w w' r reply
  | observed {owner : Option Lease} {guarded : Option String} {backendId : String}
      {state : BackendState} {reason : String} {observedAt : ℚ} {cooldownUntil : Option ℚ}
      (hbackends : ∀ k, w'.backends.get? k = if k = backendId then
        some (.following (w.backends.get? backendId) backendId state reason observedAt
          cooldownUntil) else w.backends.get? k)
      (hwindows : w'.windows = w.windows) (hnow : w'.now = w.now) :
      Effect w w' (.observe owner guarded backendId state reason observedAt cooldownUntil) (.ok ())
  | reserved {owner : Option Lease} {taskId : String} {now : ℚ} {policy : ContinuityPolicy}
      {reply : Option ℚ} {row : AttemptWindow}
      (hrow : Reservation policy now (w.window taskId now) reply row)
      (hwindows : ∀ k, w'.windows.get? k = if k = taskId then some row else w.windows.get? k)
      (hbackends : w'.backends = w.backends) (hnow : w'.now = w.now) :
      Effect w w' (.reserve owner taskId now policy) (.ok reply)
  | concluded {owner : Option Lease} {task : Task} {disposition : Disposition} {reason : String}
      {retryAt : Option ℚ} {start : ℚ} {row : AttemptWindow}
      (hwindows : ∀ k, w'.windows.get? k = if k = task.taskId then some row else w.windows.get? k)
      (hreset : disposition = .continueNow → row.attempts = 0)
      (hkept : disposition ≠ .continueNow →
        row.attempts = (w.window task.taskId start).attempts ∧
          row.windowStart = (w.window task.taskId start).windowStart)
      (hbackends : w'.backends = w.backends) (hstart : w.now ≤ start) (hnow : start ≤ w'.now) :
      Effect w w' (.outcome owner task disposition reason retryAt) (.ok ())

omit [Platform] in
theorem Effect.of_drift {r : InferenceStep} {reply : Except Fault r.Reply} (h : w.Drift w')
    (hr : r.writes = false) : Effect w w' r reply :=
  .none (fun hwrites => by rw [hr] at hwrites; cases hwrites) h.backends h.windows
    (le_of_eq h.now.symm)

omit [Platform] in
theorem Effect.of_eq {r : InferenceStep} {reply : Except Fault r.Reply} (h : w' = w)
    (hfailed : r.writes = true → ∃ e, reply = .error e) : Effect w w' r reply :=
  .none hfailed (by rw [h]) (by rw [h]) (by rw [h])

theorem perform_effect {r : InferenceStep} {reply : Except Fault r.Reply}
    (h : r.perform env w = (reply, w')) : Effect w w' r reply := by
  cases r with
  | getTask taskId => exact .of_eq (Prod.mk.inj h).2.symm (by simp [InferenceStep.writes])
  | setRoute owner route => exact .of_drift (InferenceWorld.commitDb_drift h) rfl
  | clock purpose =>
      cases h
      exact .none (by simp [InferenceStep.writes]) rfl rfl (le_max_left _ _)
  | observation backendId => exact .of_eq (Prod.mk.inj h).2.symm (by simp [InferenceStep.writes])
  | observe owner taskId backendId state reason observedAt cooldownUntil =>
      cases reply with
      | error e => exact .of_eq (InferenceWorld.commit_error h) fun _ => ⟨e, rfl⟩
      | ok u =>
          obtain ⟨hbackends, hwindows, hnow⟩ := observe_ok (InferenceWorld.commit_ok h)
          exact .observed hbackends hwindows hnow
  | event owner task note =>
      cases reply with
      | error e => exact .of_eq (InferenceWorld.commit_error h) fun _ => ⟨e, rfl⟩
      | ok u => exact .of_drift (noteEvent_drift (InferenceWorld.commit_ok h)) rfl
  | reserve owner taskId now policy =>
      cases reply with
      | error e => exact .of_eq (InferenceWorld.commit_error h) fun _ => ⟨e, rfl⟩
      | ok answer =>
          obtain ⟨row, hrow, hwindows, hbackends, hnow⟩ :=
            reserve_ok (InferenceWorld.commit_ok h)
          exact .reserved hrow hwindows hbackends hnow
  | outcome owner task disposition reason retryAt =>
      cases reply with
      | error e => exact .of_eq (InferenceWorld.commit_error h) fun _ => ⟨e, rfl⟩
      | ok u =>
          obtain ⟨start, row, hwindows, hreset, hkept, hbackends, hstart, hnow⟩ :=
            outcome_ok (InferenceWorld.commit_ok h)
          exact .concluded hwindows hreset hkept hbackends hstart hnow
  | complete adapter request => exact .of_eq (Prod.mk.inj h).2.symm (by simp [InferenceStep.writes])

omit [Platform] in
theorem Effect.now_le {r : InferenceStep} {reply : Except Fault r.Reply}
    (h : Effect w w' r reply) : w.now ≤ w'.now := by
  cases h with
  | none _ _ _ hnow => exact hnow
  | observed _ _ hnow => exact le_of_eq hnow.symm
  | reserved _ _ _ hnow => exact le_of_eq hnow.symm
  | concluded _ _ _ _ hstart hnow => exact hstart.trans hnow

end Windows

end Dante
