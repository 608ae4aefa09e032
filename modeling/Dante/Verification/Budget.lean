import Dante.Verification.RoundParts
import Dante.Verification.Windows

/-! # The route-attempt budget

Attempts are reserved before they are made. A reservation is a transaction on the task's
window, so between two resets no more than the policy's number can be granted, whoever asks;
and every call of a provider uses up a reservation that its own process holds. -/

namespace Dante

open Relational Concurrent Program Programs

section Runs

variable [Platform] {taskId : String} {policy : ContinuityPolicy}

/-! ## What a process reserves and uses -/

/-- An attempt for the task was reserved. -/
def reserves (taskId : String) : Exchange InferenceStep.Reply Fault → Bool
  | ⟨.reserve _ reserved _ _, .ok none⟩ => reserved == taskId
  | _ => false

/-- A provider was called for the task. -/
def attempts (taskId : String) : Exchange InferenceStep.Reply Fault → Bool
  | ⟨.complete _ asked, _⟩ => asked.taskId == some taskId
  | _ => false

/-- Any number of calls of `infer`, by managers that satisfy `P`, on a ledger that has no
attempt window yet. -/
def inferenceRun (P : ContinuityManager → Prop) : Rules inferenceMachine where
  start w := w.windows = .empty
  program p := ∃ manager owner call rounds, P manager ∧
    p = (continuityInfer manager owner call rounds).bind fun _ => .ret ()
  admits _ _ _ := True

/-- A process reserves under the given policy, and calls a provider only with a reservation for
the task that it has not used. -/
structure Reserved (policy : ContinuityPolicy) (l : List (Exchange InferenceStep.Reply Fault))
    (r : InferenceStep) : Prop where
  held : Calls (fun _ request => ∀ taskId, request.taskId = some taskId →
    Credit.holding (reserves taskId) (attempts taskId) l = true) r
  policy : ∀ owner taskId now other, r = .reserve owner taskId now other → other = policy

omit [Platform] in
theorem Reserved.of_other {l : List (Exchange InferenceStep.Reply Fault)} {r : InferenceStep}
    (hcomplete : ∀ adapter request, r ≠ .complete adapter request)
    (hreserve : ∀ owner taskId now other, r ≠ .reserve owner taskId now other) :
    Reserved policy l r :=
  ⟨fun adapter request h => absurd h (hcomplete adapter request),
    fun owner taskId now other h => absurd h (hreserve owner taskId now other)⟩

namespace Programs

variable {owner : Option Lease} {manager : ContinuityManager} {call : InferenceCall}
  {l : List (Exchange InferenceStep.Reply Fault)}

omit [Platform] in
theorem bookkeeping_reserved {α : Type} {p : InferenceProg α} (hp : p.Uses Bookkeeping) :
    Traced (Reserved policy) p (fun _ _ => True) (fun _ _ => True) l :=
  Traced.of_uses (K := fun _ => True) (fun _ r _ hr => .of_other (by rintro _ _ rfl; cases hr) (by rintro _ _ _ _ rfl; cases hr))
    (fun _ _ _ _ _ => trivial) hp trivial

theorem callSelected_reserved {selected : ModelRef}
    (hheld : Credit.holding (reserves call.task.taskId) (attempts call.task.taskId) l = true) :
    Traced (Reserved manager.policy) (callSelected manager call selected) (fun _ _ => True)
      (fun _ _ => True) l := by
  refine callSelected_traced (fun adapter request hrequest => ⟨fun adapter' request' heq => ?_, by simp⟩)
    trivial fun _ _ _ => trivial
  cases heq
  intro taskId htask
  rw [hrequest, Option.some.injEq] at htask
  exact htask ▸ hheld

theorem useRoute_reserved {excluded : Dict String} {previous : Option String} {selected : ModelRef}
    (hheld : Credit.holding (reserves call.task.taskId) (attempts call.task.taskId) l = true) :
    Traced (Reserved manager.policy) (useRoute manager owner call excluded previous selected)
      (fun _ _ => True) (fun _ _ => True) l := by
  refine .bind (.call (.of_other (by simp) (by simp)) (fun _ => ?_) fun _ => trivial)
  refine .bind (.call (.of_other (by simp) (by simp)) (fun _ => ?_) fun _ => trivial)
  refine .bind (.mono (callSelected_reserved ?_) (fun answer _ _ => ?_) fun _ _ _ => trivial)
  · simp only [Credit.holding_append_singleton, reserves, attempts, hheld]
    rfl
  · exact bookkeeping_reserved (afterCall_bookkeeping answer)

theorem inferRound_reserved {excluded : Dict String} {previous : Option String} :
    Traced (Reserved manager.policy) (inferRound manager owner call excluded previous)
      (fun _ _ => True) (fun _ _ => True) l := by
  refine .bind (.call (.of_other (by simp) (by simp)) (fun now => ?_) fun _ => trivial)
  refine .bind (.ofExcept (fun found _ => ?_) fun _ _ => trivial)
  refine .bind (.mono (bookkeeping_reserved scan_bookkeeping) (fun found l _ => ?_)
    fun _ _ _ => trivial)
  refine .bind (.call (.of_other (by simp) (by simp)) (fun _ => ?_) fun _ => trivial)
  cases found.usable with
  | nil =>
      exact .bind (.mono (bookkeeping_reserved noRoute_bookkeeping) (fun _ _ _ => trivial)
        fun _ _ _ => trivial)
  | cons selected rest =>
      refine .bind (.bind (.call (.of_other (by simp) (by simp)) (fun now => ?_) fun _ => trivial))
      refine .call ⟨fun _ _ h => (by cases h), fun _ _ _ _ h => (by cases h; rfl)⟩
        (fun retryAt => ?_) fun _ => trivial
      cases retryAt with
      | some time =>
          exact .bind (.mono (bookkeeping_reserved outcome_bookkeeping) (fun _ _ _ => trivial)
            fun _ _ _ => trivial)
      | none =>
          refine useRoute_reserved ?_
          rw [Credit.holding_append_singleton]
          simp [reserves]

theorem inferRounds_reserved (n : ℕ) (excluded : Dict String) (previous : Option String)
    (l : List (Exchange InferenceStep.Reply Fault)) :
    Traced (Reserved manager.policy) (inferRounds manager owner call n excluded previous)
      (fun _ _ => True) (fun _ _ => True) l := by
  induction n generalizing excluded previous l with
  | zero => trivial
  | succ n ih =>
      refine .bind (.mono inferRound_reserved (fun round l _ => ?_) fun _ _ _ => trivial)
      cases round with
      | done ended => trivial
      | again excluded previous => exact ih excluded previous l

theorem continuityInfer_reserved (rounds : ℕ) :
    Traced (Reserved manager.policy) (continuityInfer manager owner call rounds)
      (fun _ _ => True) (fun _ _ => True) l := by
  refine .ite (fun _ => ?_) fun _ => inferRounds_reserved rounds [] none l
  exact .bind (.mono (bookkeeping_reserved outcome_bookkeeping) (fun _ _ _ => trivial)
    fun _ _ _ => trivial)

end Programs

theorem inferenceRun_traced {p : InferenceProg Unit}
    (hp : (inferenceRun fun manager => manager.policy = policy).program p) :
    Traced (Reserved policy) p (fun _ _ => True) (fun _ _ => True) [] := by
  obtain ⟨manager, owner, call, rounds, rfl, rfl⟩ := hp
  exact .bind (.mono (continuityInfer_reserved rounds) (fun _ _ _ => trivial) fun _ _ _ => trivial)

/-! ## Every call has its reservation -/

theorem covered {s : System inferenceMachine}
    (h : Reachable (inferenceRun fun manager => manager.policy = policy) s) (taskId : String) :
    Credit.Covered Event.pid (Event.made (reserves taskId)) (Event.made (attempts taskId))
      s.snap.log := by
  rintro before e ⟨after, hlog⟩ he
  rw [List.append_assoc] at hlog
  cases e with
  | call pid r reply =>
      cases r with
      | complete adapter request =>
          have hreserved := h.traced (fun p hp => inferenceRun_traced hp) hlog.symm
          rw [holding_own]
          exact hreserved.held adapter request rfl taskId (beq_iff_eq.mp he)
      | _ => cases he
  | _ => cases he

/-! ## A window's attempts -/

/-- The attempts that the task's current window has used. -/
def InferenceWorld.spent (w : InferenceWorld) (taskId : String) : ℕ :=
  (w.windows.get? taskId).elim 0 (·.attempts)

omit [Platform] in
theorem InferenceWorld.window_attempts (w : InferenceWorld) (taskId : String) (start : ℚ) :
    (w.window taskId start).attempts = w.spent taskId := by
  unfold window spent
  cases w.windows.get? taskId <;> rfl

omit [Platform] in
theorem InferenceWorld.spent_of_windows {w w' : InferenceWorld} (h : w'.windows = w.windows)
    (taskId : String) : w'.spent taskId = w.spent taskId := by
  rw [spent, spent, h]

omit [Platform] in
theorem InferenceWorld.spent_of_row {w w' : InferenceWorld} {other : String} {row : AttemptWindow}
    (h : ∀ k, w'.windows.get? k = if k = other then some row else w.windows.get? k)
    (taskId : String) :
    w'.spent taskId = if taskId = other then row.attempts else w.spent taskId := by
  rw [spent, h]
  split <;> rfl

/-- The request resets the task's window: it records a success, or reserves after the window's
end. -/
def resetBy (taskId : String) (w : InferenceWorld) :
    (r : InferenceStep) → Except Fault r.Reply → Bool
  | .outcome _ task .continueNow _ _, .ok _ => task.taskId == taskId
  | .reserve _ other now policy, .ok _ => other == taskId &&
      (w.windows.get? taskId).any fun row => row.windowStart + policy.windowS ≤ now
  | _, _ => false

/-- The attempts reserved by one exchange. -/
def reservedBy (taskId : String) (x : Exchange InferenceStep.Reply Fault) : ℕ :=
  if reserves taskId x then 1 else 0

omit [Platform] in
theorem Reservation.spent {now : ℚ} {row row' : AttemptWindow} {reply : Option ℚ}
    (h : Reservation policy now row reply row') (hle : row.attempts ≤ policy.maxRouteAttempts) :
    row'.attempts ≤ policy.maxRouteAttempts ∧ (reply = none → 1 ≤ row'.attempts) ∧
      (now < row.windowStart + policy.windowS →
        row'.attempts = row.attempts + if reply = none then 1 else 0) := by
  cases h with
  | restarted hover =>
      exact ⟨policy.attempts_pos, fun _ => le_refl _, fun h => absurd hover (not_le.mpr h)⟩
  | denied hnow hspent => exact ⟨hle, fun h => (by cases h), fun _ => rfl⟩
  | counted hnow hleft => exact ⟨hleft, fun _ => Nat.le_add_left _ _, fun _ => rfl⟩

omit [Platform] in
theorem reservedBy_reserve {owner : Option Lease} {other : String} {now : ℚ} {reply : Option ℚ} :
    reservedBy taskId ⟨.reserve owner other now policy, .ok reply⟩ =
      if taskId = other ∧ reply = none then 1 else 0 := by
  unfold reservedBy
  cases reply with
  | none =>
      simp only [reserves, beq_iff_eq, and_true]
      by_cases h : other = taskId
      · simp [h]
      · simp [h, Ne.symm h]
  | some t => simp [reserves]

omit [Platform] in
/-- One request: the attempts it reserves are in the window afterwards, the window is not
overdrawn, and unless it is reset nothing leaves it. -/
theorem Effect.spent {w w' : InferenceWorld} {r : InferenceStep} {reply : Except Fault r.Reply}
    (h : Effect w w' r reply)
    (hpolicy : ∀ owner taskId now other, r = .reserve owner taskId now other → other = policy)
    (hle : w.spent taskId ≤ policy.maxRouteAttempts) :
    w'.spent taskId ≤ policy.maxRouteAttempts ∧ reservedBy taskId ⟨r, reply⟩ ≤ w'.spent taskId ∧
      (resetBy taskId w r reply = false →
        w'.spent taskId = w.spent taskId + reservedBy taskId ⟨r, reply⟩) := by
  cases h with
  | none hfailed _ hwindows _ =>
      have hnothing : reservedBy taskId ⟨r, reply⟩ = 0 := by
        cases r with
        | reserve owner other now policy =>
            obtain ⟨e, rfl⟩ := hfailed rfl
            rfl
        | _ => rfl
      rw [InferenceWorld.spent_of_windows hwindows, hnothing]
      exact ⟨hle, Nat.zero_le _, fun _ => rfl⟩
  | observed _ hwindows _ =>
      rw [InferenceWorld.spent_of_windows hwindows]
      exact ⟨hle, Nat.zero_le _, fun _ => rfl⟩
  | @reserved owner other now policy' reply row hrow hwindows _ _ =>
      obtain rfl := hpolicy _ _ _ _ rfl
      rw [InferenceWorld.spent_of_row hwindows, reservedBy_reserve]
      by_cases htask : taskId = other
      · subst htask
        have hspent := hrow.spent (by rwa [InferenceWorld.window_attempts])
        simp only [true_and, if_true]
        refine ⟨hspent.1, ?_, fun hreset => ?_⟩
        · split
          next hreply => exact hspent.2.1 hreply
          next => exact Nat.zero_le _
        · rw [← InferenceWorld.window_attempts w taskId now]
          refine hspent.2.2 (not_le.mp fun hover => ?_)
          cases hstored : w.windows.get? taskId with
          | none =>
              rw [InferenceWorld.window, hstored] at hover
              exact absurd hover (not_le.mpr (lt_add_of_pos_right now policy'.window_pos))
          | some stored =>
              rw [InferenceWorld.window, hstored] at hover
              simp [resetBy, hstored, show stored.windowStart + policy'.windowS ≤ now from hover]
                at hreset
      · simp only [htask, if_false, false_and]
        exact ⟨hle, Nat.zero_le _, fun _ => rfl⟩
  | @concluded owner task disposition reason retryAt start row hwindows hreset hkept _ _ _ =>
      rw [InferenceWorld.spent_of_row hwindows]
      by_cases htask : taskId = task.taskId
      · rw [if_pos htask]
        by_cases hcontinue : disposition = .continueNow
        · subst hcontinue
          rw [hreset rfl]
          exact ⟨Nat.zero_le _, le_refl _, fun h => by simp [resetBy, htask] at h⟩
        · rw [(hkept hcontinue).1, InferenceWorld.window_attempts, ← htask]
          exact ⟨hle, Nat.zero_le _, fun _ => rfl⟩
      · rw [if_neg htask]
        exact ⟨hle, Nat.zero_le _, fun _ => rfl⟩

/-! ## Runs between two resets -/

/-- The step resets the task's window. -/
def Resets (taskId : String) (s s' : System inferenceMachine) : Prop :=
  ∃ pid r reply, s'.snap.log = s.snap.log ++ [.call pid r reply] ∧
    resetBy taskId s.snap.state r reply = true

/-- The attempts reserved for the task in a run. -/
def reservedIn (taskId : String) (s : System inferenceMachine) : ℕ :=
  s.snap.log.countP (Event.made (reserves taskId))

/-- Any number of steps that do not reset the task's window. -/
abbrev StepsWithin (P : ContinuityManager → Prop) (taskId : String) :
    System inferenceMachine → System inferenceMachine → Prop :=
  Relation.ReflTransGen fun s s' => Step (inferenceRun P) s s' ∧ ¬Resets taskId s s'

variable {s s' : System inferenceMachine}

theorem budget_step (h : Reachable (inferenceRun fun manager => manager.policy = policy) s)
    (hstep : Step (inferenceRun fun manager => manager.policy = policy) s s')
    (hle : s.snap.state.spent taskId ≤ policy.maxRouteAttempts) :
    s'.snap.state.spent taskId ≤ policy.maxRouteAttempts ∧
      reservedIn taskId s' ≤ reservedIn taskId s + s'.snap.state.spent taskId ∧
      (¬Resets taskId s s' → s'.snap.state.spent taskId + reservedIn taskId s =
        s.snap.state.spent taskId + reservedIn taskId s') := by
  have hreach := h.step hstep
  cases hstep with
  | spawn p hp => exact ⟨hle, by simp [reservedIn, Event.made], fun _ => by
      simp [reservedIn, Event.made]⟩
  | crash pid hpid => exact ⟨hle, by simp [reservedIn, Event.made], fun _ => by
      simp [reservedIn, Event.made]⟩
  | drift state hdrift =>
      have hsame := InferenceWorld.spent_of_windows hdrift.windows taskId
      exact ⟨hsame ▸ hle, Nat.le_add_right _ _, fun _ => by simp only [hsame]; rfl⟩
  | call pid r next env reply state hthread hadmits hperform =>
      have hlog : (s.snap.after state (.call pid r reply)).log =
          s.snap.log ++ .call pid r reply :: [] := rfl
      have hallowed := hreach.traced (fun p hp => inferenceRun_traced hp) hlog
      obtain ⟨hbound, hgranted, hsame⟩ := (perform_effect hperform).spent hallowed.policy hle
      have hcount : reservedIn taskId ⟨s.snap.after state (.call pid r reply),
          s.threads.set pid (some (next reply))⟩ =
          reservedIn taskId s + reservedBy taskId ⟨r, reply⟩ := by
        simp only [reservedIn, Snapshot.after_log, List.countP_append, List.countP_singleton]
        rfl
      rw [hcount]
      refine ⟨hbound, Nat.add_le_add_left hgranted _, fun hreset => ?_⟩
      have hspent := hsame (Bool.eq_false_iff.mpr fun hby => hreset ⟨pid, r, reply, rfl, hby⟩)
      simp only [Snapshot.after_state]
      omega

theorem budget_inv (h : Reachable (inferenceRun fun manager => manager.policy = policy) s) :
    s.snap.state.spent taskId ≤ policy.maxRouteAttempts := by
  induction h with
  | start w hw =>
      have hempty : w.windows = .empty := hw
      simp [InferenceWorld.spent, hempty]
  | step hr hstep ih => exact (budget_step hr hstep ih).1

/-- While nothing is reset, the window has used what was reserved. -/
theorem StepsWithin.spent (h : Reachable (inferenceRun fun manager => manager.policy = policy) s)
    (hsteps : StepsWithin (fun manager => manager.policy = policy) taskId s s') :
    Reachable (inferenceRun fun manager => manager.policy = policy) s' ∧
      s'.snap.state.spent taskId + reservedIn taskId s =
        s.snap.state.spent taskId + reservedIn taskId s' := by
  induction hsteps with
  | refl => exact ⟨h, rfl⟩
  | tail _ hstep ih =>
      obtain ⟨hreach, hspent⟩ := ih
      have hlast := (budget_step hreach hstep.1 (budget_inv hreach)).2.2 hstep.2
      exact ⟨hreach.step hstep.1, by omega⟩

theorem StepsWithin.log_grows {P : ContinuityManager → Prop} (h : StepsWithin P taskId s s') :
    s.snap.log <+: s'.snap.log := by
  induction h with
  | refl => exact List.prefix_refl _
  | tail _ hstep ih => exact ih.trans hstep.1.log_grows

/-! ## Denials -/

/-- A reservation was denied until `t`. -/
def DeniedIn (t : ℚ) (l : List (Exchange InferenceStep.Reply Fault)) : Prop :=
  ∃ owner taskId now policy, ⟨.reserve owner taskId now policy, .ok (some t)⟩ ∈ l

/-- After a denial there is only its outcome to record. -/
def ConcludesDenial (owner : Option Lease) (task : Task)
    (l : List (Exchange InferenceStep.Reply Fault)) (r : InferenceStep) : Prop :=
  ∀ t, DeniedIn t l → r = .outcome owner task .retryLater "route_attempt_budget" (some t)

/-- The request reserves nothing. -/
def ReservesNothing (r : InferenceStep) : Prop :=
  ∀ owner taskId now policy, r ≠ .reserve owner taskId now policy

omit [Platform] in
theorem DeniedIn.append {t : ℚ} {l : List (Exchange InferenceStep.Reply Fault)}
    {r : InferenceStep} {reply : Except Fault r.Reply} (h : DeniedIn t (l ++ [⟨r, reply⟩]))
    (hr : ReservesNothing r) : DeniedIn t l := by
  obtain ⟨owner, taskId, now, policy, hmem⟩ := h
  rcases List.mem_append.mp hmem with hold | hnew
  · exact ⟨owner, taskId, now, policy, hold⟩
  · cases List.mem_singleton.mp hnew
    exact absurd rfl (hr owner taskId now policy)

namespace Programs

variable {owner : Option Lease} {manager : ContinuityManager} {call : InferenceCall}
  {l : List (Exchange InferenceStep.Reply Fault)}

omit [Platform] in
theorem undenied {α : Type} {p : InferenceProg α} {task : Task} (hp : p.Uses ReservesNothing)
    (hl : ∀ t, ¬DeniedIn t l) :
    Traced (ConcludesDenial owner task) p (fun _ l => ∀ t, ¬DeniedIn t l) (fun _ _ => True) l :=
  .mono (Traced.of_uses (K := fun l => ∀ t, ¬DeniedIn t l)
    (fun _ _ hl _ t ht => absurd ht (hl t)) (fun _ _ _ hl hr t ht => hl t (ht.append hr)) hp hl)
    (fun _ _ h => h) fun _ _ _ => trivial

omit [Platform] in
theorem bookkeeping_reservesNothing (r : InferenceStep) (h : Bookkeeping r) :
    ReservesNothing r := by
  rintro owner taskId now policy rfl
  cases h

theorem useRoute_reservesNothing {excluded : Dict String} {previous : Option String}
    {selected : ModelRef} :
    (useRoute manager owner call excluded previous selected).Uses ReservesNothing := by
  refine (Uses.call fun _ _ _ _ h => (by cases h)).bind fun _ => ?_
  refine (Uses.call fun _ _ _ _ h => (by cases h)).bind fun _ => ?_
  refine Uses.bind (callSelected_isCall.mono ?_) fun answer =>
    (afterCall_bookkeeping answer).mono bookkeeping_reservesNothing
  rintro r ⟨adapter, request, rfl, -⟩ owner taskId now policy h
  cases h

theorem inferRound_denied {excluded : Dict String} {previous : Option String}
    (hl : ∀ t, ¬DeniedIn t l) :
    Traced (ConcludesDenial owner call.task) (inferRound manager owner call excluded previous)
      (fun round l => ∀ t, DeniedIn t l →
        round = .done ⟨.retryLater, "route_attempt_budget", none, some t⟩)
      (fun _ _ => True) l := by
  refine .bind (.mono (undenied (Uses.call fun _ _ _ _ h => (by cases h)) hl) (fun now l hl => ?_)
    fun _ _ _ => trivial)
  refine .bind (.ofExcept (fun found _ => ?_) fun _ _ => trivial)
  refine .bind (.mono (undenied (scan_bookkeeping.mono bookkeeping_reservesNothing) hl)
    (fun found l hl => ?_) fun _ _ _ => trivial)
  refine .bind (.mono (undenied (Uses.call fun _ _ _ _ h => (by cases h)) hl) (fun _ l hl => ?_)
    fun _ _ _ => trivial)
  cases found.usable with
  | nil =>
      exact .bind (.mono (undenied (noRoute_bookkeeping.mono bookkeeping_reservesNothing) hl)
        (fun _ l hl t ht => absurd ht (hl t)) fun _ _ _ => trivial)
  | cons selected rest =>
      refine .bind (.bind (.mono (undenied (Uses.call fun _ _ _ _ h => (by cases h)) hl)
        (fun now l hl => ?_) fun _ _ _ => trivial))
      refine .call (fun t ht => absurd ht (hl t)) (fun retryAt => ?_) fun _ => trivial
      cases retryAt with
      | none =>
          have hfree : ∀ t, ¬DeniedIn t (l ++ [⟨.reserve owner call.task.taskId now
              manager.policy, .ok none⟩]) := by
            rintro t ⟨owner', taskId', now', policy', hmem⟩
            rcases List.mem_append.mp hmem with hold | hnew
            · exact hl t ⟨owner', taskId', now', policy', hold⟩
            · cases List.mem_singleton.mp hnew
          exact .mono (undenied useRoute_reservesNothing hfree)
            (fun _ l hl t ht => absurd ht (hl t)) fun _ _ _ => trivial
      | some time =>
          have honly {t : ℚ} (ht : DeniedIn t (l ++ [⟨.reserve owner call.task.taskId now
              manager.policy, .ok (some time)⟩])) : t = time := by
            obtain ⟨owner', taskId', now', policy', hmem⟩ := ht
            rcases List.mem_append.mp hmem with hold | hnew
            · exact absurd ⟨owner', taskId', now', policy', hold⟩ (hl t)
            · cases List.mem_singleton.mp hnew
              rfl
          refine .bind (.bind (.call (fun t ht => by rw [honly ht]) (fun _ t ht => ?_)
            fun _ => trivial))
          rw [honly (ht.append fun _ _ _ _ h => by cases h)]

theorem inferRounds_denied (n : ℕ) (excluded : Dict String) (previous : Option String)
    (hl : ∀ t, ¬DeniedIn t l) :
    Traced (ConcludesDenial owner call.task) (inferRounds manager owner call n excluded previous)
      (fun ended l => ∀ t, DeniedIn t l →
        ended = some ⟨.retryLater, "route_attempt_budget", none, some t⟩)
      (fun _ _ => True) l := by
  induction n generalizing excluded previous l with
  | zero => exact fun t ht => absurd ht (hl t)
  | succ n ih =>
      refine .bind (.mono (inferRound_denied hl) (fun round l hround => ?_) fun _ _ _ => trivial)
      cases round with
      | done ended =>
          intro t ht
          cases hround t ht
          rfl
      | again excluded previous => exact ih excluded previous fun t ht => by cases hround t ht

theorem continuityInfer_denied (rounds : ℕ) :
    Traced (ConcludesDenial owner call.task) (continuityInfer manager owner call rounds)
      (fun ended l => ∀ t, DeniedIn t l →
        ended = some ⟨.retryLater, "route_attempt_budget", none, some t⟩)
      (fun _ _ => True) [] := by
  have hnone : ∀ t, ¬DeniedIn t [] := by
    rintro t ⟨owner, taskId, now, policy, hmem⟩
    cases hmem
  refine .ite (fun _ => ?_) fun _ => inferRounds_denied rounds [] none hnone
  exact .bind (.mono (undenied (outcome_bookkeeping.mono bookkeeping_reservesNothing) hnone)
    (fun _ l hl t ht => absurd ht (hl t)) fun _ _ _ => trivial)

end Programs

omit [Platform] in
/-- A denial names the end of the window, which is later than the reading that was denied. -/
theorem Reservation.denial {now t : ℚ} {row row' : AttemptWindow}
    (h : Reservation policy now row (some t) row') :
    row' = row ∧ t = row.windowStart + policy.windowS ∧ now < t := by
  cases h with
  | denied hnow _ => exact ⟨rfl, rfl, hnow⟩

omit [Platform] in
/-- From the end of a window on, the window denies nothing. -/
theorem reserve_granted {w w' : InferenceWorld} {owner : Option Lease} {now time : ℚ}
    {reply : Option ℚ} {row : AttemptWindow} (hrow : w.windows.get? taskId = some row)
    (hnow : row.windowStart + policy.windowS ≤ now)
    (h : reserve owner taskId now policy time w = .ok (reply, w')) : reply = none := by
  obtain ⟨row', hreservation, -⟩ := reserve_ok h
  rw [InferenceWorld.window, hrow, Option.getD_some] at hreservation
  cases reply with
  | none => rfl
  | some t =>
      obtain ⟨-, rfl, hlt⟩ := hreservation.denial
      exact absurd hnow (not_le.mpr hlt)

/-! ## The law -/

/-- The calls of providers for the task in a run. -/
def attemptedIn (taskId : String) (s : System inferenceMachine) : ℕ :=
  s.snap.log.countP (Event.made (attempts taskId))

/-- The processes that hold a reservation for the task which they have not used. -/
def holders (taskId : String) (s : System inferenceMachine) : Finset ℕ :=
  (Finset.range s.threads.length).filter fun pid =>
    Credit.holding (reserves taskId) (attempts taskId) (exchanges pid s.snap.log) = true

theorem calls_within (hs : Reachable (inferenceRun fun manager => manager.policy = policy) s)
    (h : Reachable (inferenceRun fun manager => manager.policy = policy) s')
    (hinit : s.snap.log <+: s'.snap.log) :
    attemptedIn taskId s' + reservedIn taskId s ≤
      attemptedIn taskId s + reservedIn taskId s' + (holders taskId s).card := by
  obtain ⟨segment, hsegment⟩ := hinit
  have hcovered := covered h taskId
  rw [← hsegment] at hcovered
  have hcount := hcovered.countP_le (fun e he => ?_) (Finset.range s'.threads.length)
    (fun e he => Finset.mem_range.mpr (h.traces.known e ?_))
  · simp only [holding_own] at hcount
    have hholders : ((Finset.range s'.threads.length).filter fun pid =>
        Credit.holding (reserves taskId) (attempts taskId) (exchanges pid s.snap.log) = true) ⊆
        holders taskId s := by
      intro pid hpid
      have hholds := (Finset.mem_filter.mp hpid).2
      refine Finset.mem_filter.mpr ⟨Finset.mem_range.mpr ?_, hholds⟩
      by_contra hunknown
      have hnone : exchanges pid s.snap.log = [] := exchanges_of_unknown fun e he =>
        Nat.ne_of_lt (lt_of_lt_of_le (hs.traces.known e he) (not_lt.mp hunknown))
      rw [hnone] at hholds
      cases hholds
    have hcard := Finset.card_le_card hholders
    simp only [attemptedIn, reservedIn, ← hsegment, List.countP_append]
    omega
  · cases e with
    | call pid r reply =>
        cases r with
        | reserve owner other now policy => rfl
        | _ => cases he
    | _ => cases he
  · rw [← hsegment]
    exact List.mem_append_right _ he

/-- A reservation that was denied found a full window that has not ended. -/
theorem denied_step {pid : ℕ} {owner : Option Lease} {now t : ℚ}
    (hstep : Step (inferenceRun fun manager => manager.policy = policy) s s')
    (hlog : s'.snap.log =
      s.snap.log ++ [.call pid (.reserve owner taskId now policy) (.ok (some t))]) :
    ∃ row, s.snap.state.windows.get? taskId = some row ∧
      t = row.windowStart + policy.windowS ∧ now < t := by
  obtain ⟨env, hperform⟩ := hstep.performed hlog
  obtain ⟨row, hrow, -⟩ := reserve_ok (InferenceWorld.commit_ok hperform)
  have hdenial := hrow.denial
  cases hstored : s.snap.state.windows.get? taskId with
  | some stored =>
      rw [InferenceWorld.window, hstored] at hdenial
      exact ⟨stored, rfl, hdenial.2⟩
  | none =>
      rw [InferenceWorld.window, hstored] at hrow
      cases hrow with
      | denied hnow hspent => exact absurd hspent (not_le.mpr policy.attempts_pos)

/-- Any number of calls of `infer` under one policy, crashes included. From any step on, as
long as the task's window is not reset again, at most the policy's number of attempts is
reserved; every call is made by a process that holds a reservation for the task, and uses it
up, so no more calls are made than that, besides one by each process that held a reservation
before. A denied reservation found the window full; it names the window's end, which is later
than its clock reading, and from which on that window denies nothing; what is asked after it
is only to record that the task is to be retried then, and this is what `infer` returns. -/
theorem attempt_budget (h : Reachable (inferenceRun fun manager => manager.policy = policy) s) :
    (∀ taskId s₁ s₂, Step (inferenceRun fun manager => manager.policy = policy) s s₁ →
      StepsWithin (fun manager => manager.policy = policy) taskId s₁ s₂ →
        reservedIn taskId s₂ ≤ reservedIn taskId s + policy.maxRouteAttempts ∧
        attemptedIn taskId s₂ ≤
          attemptedIn taskId s + policy.maxRouteAttempts + (holders taskId s).card) ∧
    (∀ taskId, Credit.Covered Event.pid (Event.made (reserves taskId))
      (Event.made (attempts taskId)) s.snap.log) ∧
    (∀ taskId s' pid owner now t,
      Step (inferenceRun fun manager => manager.policy = policy) s s' → s'.snap.log =
        s.snap.log ++ [.call pid (.reserve owner taskId now policy) (.ok (some t))] →
      ∃ row, s.snap.state.windows.get? taskId = some row ∧
        t = row.windowStart + policy.windowS ∧ now < t ∧
        ∀ w w' later row' owner' time reply, w.windows.get? taskId = some row' →
          row'.windowStart = row.windowStart → t ≤ later →
          reserve owner' taskId later policy time w = .ok (reply, w') → reply = none) ∧
    ∀ manager owner call rounds asked rest,
      Path (continuityInfer manager owner call rounds) asked rest →
      (∀ before after r reply t, asked = before ++ ⟨r, reply⟩ :: after → DeniedIn t before →
        r = .outcome owner call.task .retryLater "route_attempt_budget" (some t)) ∧
      ∀ ended t, rest = .ret ended → DeniedIn t asked →
        ended = some ⟨.retryLater, "route_attempt_budget", none, some t⟩ := by
  refine ⟨fun taskId s₁ s₂ hfirst hrest => ?_, covered h, ?_, ?_⟩
  · have h₁ := h.step hfirst
    obtain ⟨h₂, hspent⟩ := hrest.spent h₁
    have hbefore : s.snap.state.spent taskId ≤ policy.maxRouteAttempts := budget_inv h
    have hgranted := (budget_step h hfirst hbefore).2.1
    have hbound : s₂.snap.state.spent taskId ≤ policy.maxRouteAttempts := budget_inv h₂
    have hcalls : attemptedIn taskId s₂ + reservedIn taskId s ≤
        attemptedIn taskId s + reservedIn taskId s₂ + (holders taskId s).card :=
      calls_within h h₂ (hfirst.log_grows.trans hrest.log_grows)
    omega
  · intro taskId s' pid owner now t hstep hlog
    obtain ⟨row, hrow, ht, hlt⟩ := denied_step hstep hlog
    refine ⟨row, hrow, ht, hlt, ?_⟩
    intro w w' later row' owner' time reply hrow' hstart hlater hreserve
    exact reserve_granted hrow' (by rw [hstart, ← ht]; exact hlater) hreserve
  · intro manager owner call rounds asked rest hpath
    have htraced : Traced (ConcludesDenial owner call.task)
      (continuityInfer manager owner call rounds) _ _ [] := continuityInfer_denied rounds
    refine ⟨fun before after r reply t hasked ht => htraced.path hpath hasked t ht, ?_⟩
    rintro ended t rfl ht
    exact htraced.returned hpath t ht

end Runs

section Overdrawn

local instance budgetPlatform : Platform := .reference []

/-- The managers under the sample policy, which allows two attempts a minute. -/
abbrev Sample.shared (manager : ContinuityManager) : Prop :=
  manager.policy = Sample.policy

theorem Sample.started_step (s : System inferenceMachine) :
    Step (inferenceRun Sample.shared) s (s.started (Sample.infer ["cloud"] 1)) :=
  .spawn s _ ⟨Sample.manager ["cloud"], none, Sample.call, 1, rfl, rfl⟩

theorem Sample.driven_steps (s : System inferenceMachine) (pid n : ℕ) :
    Steps (inferenceRun Sample.shared) s (s.driven pid (List.replicate n (Sample.answers 0))) :=
  .driven (fun _ _ _ => trivial) s pid _

/-- Two processes have reserved, and the first has been answered. -/
def Sample.answered : System inferenceMachine :=
  (((((Sample.quiet ["cloud"]).started (Sample.infer ["cloud"] 1)).driven 0
    (List.replicate 5 (Sample.answers 0))).started (Sample.infer ["cloud"] 1)).driven 1
    (List.replicate 5 (Sample.answers 0))).driven 0 (List.replicate 5 (Sample.answers 0))

/-- It records its success. -/
def Sample.reset : System inferenceMachine :=
  Sample.answered.driven 0 [Sample.answers 0]

/-- The second process calls, and two new ones reserve and call. -/
def Sample.overdrawn : System inferenceMachine :=
  ((((Sample.reset.driven 1 (List.replicate 3 (Sample.answers 0))).started
    (Sample.infer ["cloud"] 1)).driven 2 (List.replicate 8 (Sample.answers 0))).started
    (Sample.infer ["cloud"] 1)).driven 3 (List.replicate 8 (Sample.answers 0))

theorem Sample.answered_reachable : Reachable (inferenceRun Sample.shared) Sample.answered :=
  ((((((Reachable.start _ rfl).step (Sample.started_step _)).steps
    (Sample.driven_steps _ 0 5)).step (Sample.started_step _)).steps
    (Sample.driven_steps _ 1 5)).steps (Sample.driven_steps _ 0 5))

/-- The process is about to record a success of the task. -/
def Sample.concluding : Option (Option (InferenceProg Unit)) → Bool
  | some (some (.request (.outcome _ task .continueNow _ _) _)) => task.taskId == "task"
  | _ => false

/-- The success of the task was recorded. -/
def Sample.concluded : Event InferenceStep.Reply Fault → Bool
  | .call _ (.outcome _ task .continueNow _ _) (.ok _) => task.taskId == "task"
  | _ => false

theorem Sample.reset_step : Step (inferenceRun Sample.shared) Sample.answered Sample.reset ∧
    Resets "task" Sample.answered Sample.reset := by
  have hthread : Sample.concluding Sample.answered.threads[0]? = true := by decide +kernel
  have hlast : Sample.reset.snap.log.getLast?.any Sample.concluded = true := by decide +kernel
  obtain ⟨s, hs⟩ : ∃ s, s = Sample.answered := ⟨_, rfl⟩
  simp only [Sample.reset, ← hs] at hthread hlast ⊢
  unfold Sample.concluding at hthread
  split at hthread
  next owner task reason retryAt next hrequest =>
    have hdriven := System.driven_request hrequest (Sample.answers 0)
    rw [hdriven] at hlast ⊢
    refine ⟨.call s 0 _ next (Sample.answers 0) _ _ hrequest trivial rfl, 0, _, _, rfl, ?_⟩
    simp only [Snapshot.after_log, List.getLast?_append, List.getLast?_singleton, Option.some_or,
      Option.any_some] at hlast
    cases hreply : (inferenceMachine.perform (Sample.answers 0)
        (.outcome owner task .continueNow reason retryAt) s.snap.state).1 with
    | ok u => exact hthread
    | error e =>
        rw [hreply] at hlast
        cases hlast
  next => cases hthread

/-- The request leaves the window alone. -/
abbrev Sample.within (w : InferenceWorld) (r : InferenceStep) (reply : Except Fault r.Reply) :
    Bool :=
  !resetBy "task" w r reply

theorem Sample.within_steps {s : System inferenceMachine} {pid n : ℕ}
    (h : s.drivenPasses Sample.within pid (List.replicate n (Sample.answers 0)) = true) :
    StepsWithin Sample.shared "task" s (s.driven pid (List.replicate n (Sample.answers 0))) := by
  refine Relation.ReflTransGen.mono ?_ _ _
    (Steps.drivenPasses (R := inferenceRun Sample.shared) (fun _ _ _ => trivial) h)
  rintro s s' ⟨hstep, hpasses⟩
  refine ⟨hstep, ?_⟩
  rintro ⟨pid, r, reply, hlog, hreset⟩
  have hwithin := hpasses pid r reply hlog
  rw [Sample.within, hreset] at hwithin
  cases hwithin

theorem Sample.within_started (s : System inferenceMachine) :
    StepsWithin Sample.shared "task" s (s.started (Sample.infer ["cloud"] 1)) := by
  refine .single ⟨Sample.started_step s, ?_⟩
  rintro ⟨pid, r, reply, hlog, hreset⟩
  have hevent := List.append_cancel_left hlog
  simp at hevent

theorem Sample.overdrawn_steps : StepsWithin Sample.shared "task" Sample.reset Sample.overdrawn :=
  .trans (.trans (.trans (.trans (Sample.within_steps (by decide +kernel))
    (Sample.within_started _)) (Sample.within_steps (by decide +kernel)))
    (Sample.within_started _)) (Sample.within_steps (by decide +kernel))

theorem attempt_budget_reset :
    reservedIn "task" Sample.overdrawn ≤ reservedIn "task" Sample.answered + 2 ∧
      attemptedIn "task" Sample.overdrawn ≤
        attemptedIn "task" Sample.answered + 2 + (holders "task" Sample.answered).card :=
  (attempt_budget Sample.answered_reachable).1 "task" Sample.reset Sample.overdrawn
    Sample.reset_step.1 Sample.overdrawn_steps

/-- A process that reserved before the window was reset calls after it: three calls follow the
reset, although the policy allows two. -/
theorem budget_overdrawn :
    ∃ s s₁ s₂, Reachable (inferenceRun Sample.shared) s ∧
      Step (inferenceRun Sample.shared) s s₁ ∧ Resets "task" s s₁ ∧
      StepsWithin Sample.shared "task" s₁ s₂ ∧
      attemptedIn "task" s₁ + Sample.policy.maxRouteAttempts < attemptedIn "task" s₂ := by
  refine ⟨Sample.answered, Sample.reset, Sample.overdrawn, Sample.answered_reachable,
    Sample.reset_step.1, Sample.reset_step.2, Sample.overdrawn_steps, ?_⟩
  decide +kernel

end Overdrawn

end Dante
