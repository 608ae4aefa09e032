import Dante.Verification.Budget
import Dante.Verification.Operations

/-! # How many rounds one call of `infer` takes

Each round but the last reserves an attempt, and an attempt pays for one call of a provider. A
window grants no more attempts than the policy's number, and a window is restarted only after it
has ended; so the calls of one `infer` are bounded by the time that passes, and by nothing
else. -/

namespace Dante

open Relational Concurrent Program Programs

section Bounded

variable [Platform] {taskId : String} {policy : ContinuityPolicy}
  {l : List (Exchange InferenceStep.Reply Fault)}

/-! ## What one call of `infer` asks -/

/-- A provider was called. -/
def called : Exchange InferenceStep.Reply Fault → Bool
  | ⟨.complete _ _, _⟩ => true
  | _ => false

/-- The inference goes on after `n` reservations or more. -/
structure Going (taskId : String) (n : ℕ) (l : List (Exchange InferenceStep.Reply Fault)) :
    Prop where
  unconcluded : ∀ x ∈ l, x.1.concludes = false
  reserved : n ≤ l.countP (reserves taskId)

/-- Nothing is asked once the end is recorded; a provider is called with a reservation that was
not used; and attempts are reserved for the one task, under the one policy, with a reading of
the clock that was made for it. -/
structure Asks (policy : ContinuityPolicy) (taskId : String)
    (l : List (Exchange InferenceStep.Reply Fault)) (r : InferenceStep) : Prop where
  unconcluded : ∀ x ∈ l, x.1.concludes = false
  held : ∀ adapter request, r = .complete adapter request →
    Credit.holding (reserves taskId) called l = true
  reserve : ∀ owner other now used, r = .reserve owner other now used →
    other = taskId ∧ used = policy ∧ ⟨.clock .reservation, .ok now⟩ ∈ l

/-- The request neither concludes, nor reserves, nor calls a provider. -/
def InferenceStep.plain : InferenceStep → Bool
  | .outcome .. | .reserve .. | .complete .. => false
  | _ => true

abbrev Plain (r : InferenceStep) : Prop :=
  r.plain = true

variable {n : ℕ}

omit [Platform] in
theorem Plain.asks {r : InferenceStep} (hr : Plain r) (h : Going taskId n l) :
    Asks policy taskId l r := by
  refine ⟨h.unconcluded, ?_, ?_⟩
  · rintro adapter request rfl
    cases hr
  · rintro owner other now used rfl
    cases hr

omit [Platform] in
/-- Whatever is asked but the end, the inference goes on. -/
theorem Going.append {r : InferenceStep} (h : Going taskId n l) (hr : r.concludes = false)
    (reply : Except Fault r.Reply) : Going taskId n (l ++ [⟨r, reply⟩]) := by
  refine ⟨fun x hx => ?_, ?_⟩
  · rcases List.mem_append.mp hx with hold | hnew
    · exact h.unconcluded x hold
    · rw [List.mem_singleton.mp hnew]
      exact hr
  · rw [List.countP_append]
    exact Nat.le_add_right_of_le h.reserved

omit [Platform] in
theorem Plain.unconcluding {r : InferenceStep} (h : Plain r) : r.concludes = false := by
  cases r with
  | outcome owner task disposition reason retryAt => cases h
  | _ => rfl

omit [Platform] in
theorem plain_of_quiet (r : InferenceStep) (h : Quiet r) : Plain r := by
  cases r with
  | outcome owner task disposition reason retryAt => cases h
  | reserve owner taskId now policy => cases h
  | complete adapter request => cases h
  | _ => rfl

/-- A round that does not end the inference has reserved once more. -/
def GoesOn (taskId : String) (n : ℕ) : Round → List (Exchange InferenceStep.Reply Fault) → Prop
  | .done _, _ => True
  | .again _ _, l => Going taskId (n + 1) l

namespace Programs

variable {owner : Option Lease} {manager : ContinuityManager} {call : InferenceCall}

omit [Platform] in
theorem plain_going {α : Type} {p : InferenceProg α} (hp : p.Uses Plain) (h : Going taskId n l) :
    Traced (Asks policy taskId) p (fun _ l => Going taskId n l) (fun _ _ => True) l := by
  have hall := Traced.of_uses (K := Going taskId n)
    (fun l r h (hr : Plain r) => (hr.asks h : Asks policy taskId l r))
    (fun _ _ reply h hr => h.append (Plain.unconcluding hr) reply) hp h
  exact .mono hall (fun _ _ h => h) fun _ _ _ => trivial

omit [Platform] in
theorem send_going {r : InferenceStep} (hr : Plain r) (h : Going taskId n l) :
    Traced (Asks policy taskId) (send r) (fun _ l => Going taskId n l) (fun _ _ => True) l :=
  plain_going (Uses.call hr) h

omit [Platform] in
theorem outcome_asks {task : Task} {disposition : Disposition} {reason : String}
    {response : Option InferenceResponse} {retryAt : Option ℚ} (h : Going taskId n l) :
    Traced (Asks policy taskId) (outcome owner task disposition reason response retryAt)
      (fun _ _ => True) (fun _ _ => True) l :=
  .bind (.call ⟨h.unconcluded, fun _ _ h => (by cases h), fun _ _ _ _ h => (by cases h)⟩
    (fun _ => trivial) fun _ => trivial)

omit [Platform] in
/-- A round that ends by recording how. -/
theorem done_asks {task : Task} {disposition : Disposition} {reason : String}
    {response : Option InferenceResponse} {retryAt : Option ℚ} (h : Going taskId n l) :
    Traced (Asks policy taskId)
      ((outcome owner task disposition reason response retryAt).bind fun ended =>
        .ret (Round.done ended)) (GoesOn taskId n) (fun _ _ => True) l :=
  .bind (.mono (outcome_asks h) (fun _ _ _ => trivial) fun _ _ _ => trivial)

omit [Platform] in
theorem onResponse_going {previous : Option String} {selected : ModelRef}
    {response : InferenceResponse} (h : Going taskId n l) :
    Traced (Asks policy taskId) (onResponse owner call previous selected response)
      (GoesOn taskId n) (fun _ _ => True) l :=
  .bind (.mono (plain_going (observe_quiet.mono plain_of_quiet) h) (fun _ _ h => done_asks h)
    fun _ _ _ => trivial)

omit [Platform] in
theorem onInferenceError_going {excluded : Dict String} {selected : ModelRef}
    {error : InferenceError} (h : Going taskId (n + 1) l) :
    Traced (Asks policy taskId) (onInferenceError manager owner call excluded selected error)
      (GoesOn taskId n) (fun _ _ => True) l := by
  unfold onInferenceError
  generalize classifyError error = verdict
  obtain ⟨reason, state, retry⟩ := verdict
  refine .bind (.mono (send_going rfl h) (fun _ l h => ?_) fun _ _ _ => trivial)
  refine .ite (fun _ => ?_) fun _ => .ite (fun _ => done_asks ⟨h.unconcluded, ?_⟩) fun _ => h
  · refine .bind (.mono (send_going rfl h) (fun _ l h => ?_) fun _ _ _ => trivial)
    refine .bind (.mono (send_going rfl h) (fun _ l h => ?_) fun _ _ _ => trivial)
    refine .bind (.ofExcept (fun _ _ => ?_) fun _ _ => trivial)
    exact .bind (.mono (plain_going (observe_quiet.mono plain_of_quiet) h) (fun _ _ h => h)
      fun _ _ _ => trivial)
  · exact Nat.le_of_succ_le h.reserved

theorem useRoute_going {excluded : Dict String} {previous : Option String} {selected : ModelRef}
    (h : Going call.task.taskId (n + 1) l)
    (hheld : Credit.holding (reserves call.task.taskId) called l = true) :
    Traced (Asks policy call.task.taskId)
      (useRoute manager owner call excluded previous selected) (GoesOn call.task.taskId n)
      (fun _ _ => True) l := by
  refine .bind (.call (Plain.asks rfl h) (fun _ => ?_) fun _ => trivial)
  have hevent := h.append (r := .event owner call.task
    (.selected selected.modelId selected.providerId previous)) rfl (.ok ())
  refine .bind (.call (Plain.asks rfl hevent) (fun task => ?_) fun _ => trivial)
  have hrouted := hevent.append (r := .setRoute owner
    (ContinuityManager.route manager call.task.taskId selected)) rfl (.ok task)
  refine .bind (.mono (callSelected_traced (fun adapter request _ => ⟨hrouted.unconcluded, ?_, ?_⟩)
    hrouted fun adapter request reply => hrouted.append rfl reply) (fun answer l h => ?_)
    fun _ _ _ => trivial)
  · intro _ _ _
    simp only [Credit.holding_append_singleton, reserves, called, hheld]
    rfl
  · intro _ _ _ _ h
    cases h
  · cases answer with
    | ok response => exact onResponse_going ⟨h.unconcluded, Nat.le_of_succ_le h.reserved⟩
    | error error => exact onInferenceError_going h

theorem inferRound_going {excluded : Dict String} {previous : Option String}
    (h : Going call.task.taskId n l) :
    Traced (Asks manager.policy call.task.taskId)
      (inferRound manager owner call excluded previous) (GoesOn call.task.taskId n)
      (fun _ _ => True) l := by
  refine .bind (.mono (send_going rfl h) (fun now l h => ?_) fun _ _ _ => trivial)
  refine .bind (.ofExcept (fun candidates _ => ?_) fun _ _ => trivial)
  refine .bind (.mono (plain_going (scan_quiet.mono plain_of_quiet) h) (fun found l h => ?_)
    fun _ _ _ => trivial)
  refine .bind (.mono (send_going rfl h) (fun _ l h => ?_) fun _ _ _ => trivial)
  cases found.usable with
  | nil =>
      refine .bind ?_
      unfold noRoute
      split
      · exact .mono (outcome_asks h) (fun _ _ _ => trivial) fun _ _ _ => trivial
      · exact .mono (outcome_asks h) (fun _ _ _ => trivial) fun _ _ _ => trivial
  | cons selected rest =>
      refine .bind (.bind (.call (Plain.asks rfl h) (fun time => ?_) fun _ => trivial))
      have hread := h.append (r := .clock .reservation) rfl (.ok time)
      refine .call ⟨hread.unconcluded, fun _ _ h => (by cases h), fun _ _ _ _ h => ?_⟩
        (fun retryAt => ?_) fun _ => trivial
      · cases h
        exact ⟨rfl, rfl, List.mem_append_right _ List.mem_cons_self⟩
      · have hasked := hread.append (r := .reserve owner call.task.taskId time manager.policy) rfl
          (.ok retryAt)
        cases retryAt with
        | some t => exact done_asks hasked
        | none =>
            refine useRoute_going ⟨hasked.unconcluded, ?_⟩ ?_
            · rw [List.countP_append]
              have hgranted : [(⟨.reserve owner call.task.taskId time manager.policy, .ok none⟩ :
                  Exchange InferenceStep.Reply Fault)].countP (reserves call.task.taskId) = 1 := by
                simp [reserves]
              rw [hgranted]
              exact Nat.succ_le_succ hread.reserved
            · rw [Credit.holding_append_singleton]
              simp [reserves]

/-- As long as the loop has not ended, every round has reserved an attempt. -/
theorem inferRounds_going (rounds : ℕ) (excluded : Dict String) (previous : Option String)
    (h : Going call.task.taskId n l) :
    Traced (Asks manager.policy call.task.taskId)
      (inferRounds manager owner call rounds excluded previous)
      (fun ended l => ended = none → n + rounds ≤ l.countP (reserves call.task.taskId))
      (fun _ _ => True) l := by
  induction rounds generalizing excluded previous n l with
  | zero => exact fun _ => h.reserved
  | succ rounds ih =>
      refine .bind (.mono (inferRound_going h) (fun round l hround => ?_) fun _ _ _ => trivial)
      cases round with
      | done ended => exact fun h => by cases h
      | again excluded previous =>
          refine .mono (ih excluded previous hround) (fun ended l hended hnone => ?_)
            fun _ _ _ => trivial
          have hreserved := hended hnone
          omega

theorem continuityInfer_going (rounds : ℕ) :
    Traced (Asks manager.policy call.task.taskId) (continuityInfer manager owner call rounds)
      (fun ended l => ended = none → rounds ≤ l.countP (reserves call.task.taskId))
      (fun _ _ => True) [] := by
  have hstart : Going call.task.taskId 0 [] := ⟨by simp, Nat.zero_le _⟩
  refine .ite (fun _ => ?_) fun _ => ?_
  · refine .bind (.mono (outcome_asks hstart) (fun ended _ _ => ?_) fun _ _ _ => trivial)
    exact fun h => by cases h
  · refine .mono (inferRounds_going rounds [] none hstart) (fun ended l hended hnone => ?_)
      fun _ _ _ => trivial
    have hreserved := hended hnone
    omega

end Programs

/-! ## What a window can still grant -/

/-- One call of `infer` where the clock stays below `limit` and nobody else touches the window of
its task. Anything else may happen between its steps. -/
def undisturbed (taskId : String) (limit : ℚ) : Setting inferenceMachine where
  between w w' := w'.windows.get? taskId = w.windows.get? taskId ∧ w.now ≤ w'.now
  admits env w := w.now < limit ∧ ∀ i, env.clock i < limit

/-- Before this time the window is not restarted. -/
def InferenceWorld.windowEnd (w : InferenceWorld) (taskId : String) (policy : ContinuityPolicy)
    (start : ℚ) : ℚ :=
  (w.windows.get? taskId).elim start fun row => max start (row.windowStart + policy.windowS)

/-- The attempts granted so far, those left in the window, and those of all the windows that fit
between its end and `limit`, are no more than `k + 1` windows grant. -/
structure WithinWindows (policy : ContinuityPolicy) (taskId : String) (start limit : ℚ) (k : ℕ)
    (w : InferenceWorld) (l : List (Exchange InferenceStep.Reply Fault)) : Prop where
  granted : l.countP (reserves taskId) ≤ policy.maxRouteAttempts * (k + 1)
  left : (∀ x ∈ l, x.1.concludes = false) → ∃ m : ℕ,
    limit ≤ w.windowEnd taskId policy start + m * policy.windowS ∧
    l.countP (reserves taskId) + (policy.maxRouteAttempts - w.spent taskId) +
      policy.maxRouteAttempts * m ≤ policy.maxRouteAttempts * (k + 1)

structure Affords (policy : ContinuityPolicy) (taskId : String) (start limit : ℚ) (k : ℕ)
    (w : InferenceWorld) (l : List (Exchange InferenceStep.Reply Fault)) : Prop where
  now : start ≤ w.now
  readings : ∀ time : ℚ, ⟨.clock .reservation, .ok time⟩ ∈ l → start ≤ time ∧ time < limit
  budget : WithinWindows policy taskId start limit k w l

variable {start limit : ℚ} {k : ℕ} {w w' : InferenceWorld}

omit [Platform] in
theorem Affords.initial (w : InferenceWorld)
    (hlimit : limit ≤ w.now + k * policy.windowS) : Affords policy taskId w.now limit k w [] := by
  refine ⟨le_refl _, by simp, Nat.zero_le _, fun _ => ⟨k, hlimit.trans ?_, ?_⟩⟩
  · refine add_le_add_left ?_ _
    unfold InferenceWorld.windowEnd
    cases w.windows.get? taskId with
    | none => exact le_refl _
    | some row => exact le_max_left _ _
  · simp only [List.countP_nil, Nat.zero_add, Nat.mul_succ]
    omega

theorem Affords.between (h : Affords policy taskId start limit k w l)
    (hbetween : (undisturbed taskId limit).between w w') :
    Affords policy taskId start limit k w' l := by
  obtain ⟨hwindow, hnow⟩ := hbetween
  refine ⟨h.now.trans hnow, h.readings, h.budget.granted, fun hl => ?_⟩
  unfold InferenceWorld.windowEnd InferenceWorld.spent
  rw [hwindow]
  exact h.budget.left hl

omit [Platform] in
theorem InferenceWorld.windowEnd_of_row {row : AttemptWindow}
    (h : w.windows.get? taskId = some row) :
    w.windowEnd taskId policy start = max start (row.windowStart + policy.windowS) := by
  rw [windowEnd, h]
  rfl

omit [Platform] in
theorem InferenceWorld.windowEnd_le (w : InferenceWorld) (time : ℚ) : w.windowEnd taskId policy start ≤
    max start ((w.window taskId time).windowStart + policy.windowS) := by
  unfold windowEnd window
  cases w.windows.get? taskId with
  | none => exact le_max_left _ _
  | some row => exact le_refl _

omit [Platform] in
/-- A window that is restarted had a row, and has ended. -/
theorem InferenceWorld.windowEnd_over {time : ℚ} (hstart : start ≤ time)
    (hover : (w.window taskId time).windowStart + policy.windowS ≤ time) :
    w.windowEnd taskId policy start ≤ time :=
  (w.windowEnd_le time).trans (max_le hstart hover)

omit [Platform] in
theorem countP_reserves (x : Exchange InferenceStep.Reply Fault) :
    (l ++ [x]).countP (reserves taskId) = l.countP (reserves taskId) + reservedBy taskId x := by
  rw [List.countP_append, List.countP_singleton]
  rfl

omit [Platform] in
/-- A request that grants nothing and leaves the window alone. -/
theorem WithinWindows.quiet {x : Exchange InferenceStep.Reply Fault}
    (h : WithinWindows policy taskId start limit k w l) (hwindows : w'.windows = w.windows)
    (hx : reservedBy taskId x = 0) : WithinWindows policy taskId start limit k w' (l ++ [x]) := by
  constructor
  · rw [countP_reserves, hx]
    exact h.granted
  · rw [countP_reserves, hx, InferenceWorld.spent_of_windows hwindows, InferenceWorld.windowEnd,
      hwindows]
    exact fun hopen => h.left fun y hy => hopen y (List.mem_append_left _ hy)

omit [Platform] in
/-- A reservation takes from its window, or from the windows that follow. -/
theorem WithinWindows.reserve {time : ℚ} {reply : Option ℚ} {row : AttemptWindow}
    (hrow : Reservation policy time (w.window taskId time) reply row)
    (hwindow : w'.windows.get? taskId = some row) (hstart : start ≤ time) (hlimit : time < limit)
    {m granted : ℕ} (hend : limit ≤ w.windowEnd taskId policy start + m * policy.windowS)
    (hleft : granted + (policy.maxRouteAttempts - w.spent taskId) + policy.maxRouteAttempts * m ≤
      policy.maxRouteAttempts * (k + 1)) :
    ∃ m : ℕ, limit ≤ w'.windowEnd taskId policy start + m * policy.windowS ∧
      granted + (if reply = none then 1 else 0) + (policy.maxRouteAttempts - row.attempts) +
        policy.maxRouteAttempts * m ≤ policy.maxRouteAttempts * (k + 1) := by
  have hpos := policy.attempts_pos
  rw [InferenceWorld.windowEnd_of_row hwindow]
  rw [← InferenceWorld.window_attempts w taskId time] at hleft
  cases hrow with
  | restarted hover =>
      have hended : w.windowEnd taskId policy start ≤ time :=
        InferenceWorld.windowEnd_over hstart hover
      cases m with
      | zero =>
          simp only [Nat.cast_zero, zero_mul, add_zero] at hend
          exact absurd (hend.trans hended) (not_le.mpr hlimit)
      | succ m =>
          have hnext : time + policy.windowS ≤ max start (time + policy.windowS) :=
            le_max_right _ _
          refine ⟨m, ?_, ?_⟩
          · push_cast at hend
            simp only
            linarith
          · rw [Nat.mul_succ] at hleft
            rw [if_pos rfl]
            simp only
            omega
  | denied hnow hspent =>
      refine ⟨m, hend.trans (add_le_add_left (w.windowEnd_le time) _), ?_⟩
      rw [if_neg (by simp)]
      omega
  | counted hnow hunspent =>
      refine ⟨m, hend.trans (add_le_add_left (w.windowEnd_le time) _), ?_⟩
      rw [if_pos rfl]
      simp only
      omega

omit [Platform] in
theorem WithinWindows.perform {r : InferenceStep} {reply : Except Fault r.Reply}
    (h : WithinWindows policy taskId start limit k w l)
    (hreadings : ∀ time : ℚ, ⟨.clock .reservation, .ok time⟩ ∈ l → start ≤ time ∧ time < limit)
    (hasks : Asks policy taskId l r) (heffect : Effect w w' r reply) :
    WithinWindows policy taskId start limit k w' (l ++ [⟨r, reply⟩]) := by
  cases heffect with
  | none hfailed _ hwindows _ =>
      refine h.quiet hwindows ?_
      cases r with
      | reserve owner other time used =>
          obtain ⟨e, rfl⟩ := hfailed rfl
          rfl
      | _ => rfl
  | observed _ hwindows _ =>
      refine h.quiet hwindows ?_
      rfl
  | concluded =>
      refine ⟨?_, fun hopen => ?_⟩
      · rw [countP_reserves]
        exact h.granted
      · cases hopen _ (List.mem_append_right _ List.mem_cons_self)
  | reserved hrow hwindows _ _ =>
      obtain ⟨rfl, rfl, hread⟩ := hasks.reserve _ _ _ _ rfl
      obtain ⟨hstart, hlimit⟩ := hreadings _ hread
      obtain ⟨m, hend, hleft⟩ := h.left hasks.unconcluded
      obtain ⟨m, hend, hleft⟩ := WithinWindows.reserve hrow ((hwindows _).trans (if_pos rfl))
        hstart hlimit hend hleft
      constructor
      · rw [countP_reserves, reservedBy_reserve]
        simp only [true_and]
        omega
      · rw [countP_reserves, reservedBy_reserve, InferenceWorld.spent_of_row hwindows, if_pos rfl]
        simp only [true_and]
        exact fun _ => ⟨m, hend, hleft⟩

theorem Affords.perform {env : Providers} {r : InferenceStep} {reply : Except Fault r.Reply}
    (h : Affords policy taskId start limit k w l) (hasks : Asks policy taskId l r)
    (hadmits : (undisturbed taskId limit).admits env w) (hperform : r.perform env w = (reply, w')) :
    Affords policy taskId start limit k w' (l ++ [⟨r, reply⟩]) := by
  have heffect := perform_effect hperform
  refine ⟨h.now.trans heffect.now_le, fun time hmem => ?_,
    h.budget.perform h.readings hasks heffect⟩
  rcases List.mem_append.mp hmem with hold | hnew
  · exact h.readings time hold
  · cases List.mem_singleton.mp hnew
    cases hperform
    exact ⟨h.now.trans (le_max_left _ _), max_lt hadmits.1 (hadmits.2 0)⟩

/-! ## The law -/

/-- One call of `infer`, whatever the providers answer and however long they take. While the
clock stays below `k` windows after the start and nobody else touches the task's window, at most
`k + 1` times the policy's number of attempts are made; and after that many rounds the call has
ended. -/
theorem calls_bounded {manager : ContinuityManager} {owner : Option Lease} {call : InferenceCall}
    {rounds : ℕ} {w w' : InferenceWorld} {asked : List (Exchange InferenceStep.Reply Fault)}
    {rest : InferenceProg (Option InferenceOutcome)}
    (hlimit : limit ≤ w.now + k * manager.policy.windowS)
    (h : Trail (undisturbed call.task.taskId limit) (continuityInfer manager owner call rounds) w
      asked rest w') :
    asked.countP called ≤ manager.policy.maxRouteAttempts * (k + 1) ∧
      (manager.policy.maxRouteAttempts * (k + 1) < rounds → rest ≠ .ret none) := by
  have htraced : Traced (Asks manager.policy call.task.taskId)
      (continuityInfer manager owner call rounds) _ _ [] := continuityInfer_going rounds
  have haffords := h.invariant (fun h hb => h.between hb)
    (fun h hasks hadmits hperform => h.perform hasks hadmits hperform) htraced
    (Affords.initial w hlimit)
  have hcalls : asked.countP called ≤ asked.countP (reserves call.task.taskId) := by
    refine Credit.countP_le_of_held ?_ ?_
    · rintro before ⟨r, reply⟩ after hasked hcalled
      cases r with
      | complete adapter request => exact (htraced.path h.path hasked).held adapter request rfl
      | _ => cases hcalled
    · rintro ⟨r, reply⟩ hreserves
      cases r with
      | complete adapter request => cases hreserves
      | _ => rfl
  refine ⟨hcalls.trans haffords.budget.granted, fun hrounds hrest => ?_⟩
  subst hrest
  exact absurd (htraced.returned h.path rfl) (not_le.mpr (haffords.budget.granted.trans_lt hrounds))

end Bounded

section Slow

local instance slowPlatform : Platform := .reference []

variable {α β : Type} {S : Setting inferenceMachine} {w w₁ w' : InferenceWorld} {t limit : ℚ}

/-- Where nothing but the calls takes time, and the clock stays below `limit`. -/
structure Sample.Patient (S : Setting inferenceMachine) (limit : ℚ) : Prop where
  between : ∀ w, S.between w w
  admits : ∀ env w, w.now < limit → (∀ i, env.clock i < limit) → S.admits env w

/-- The program returns `a` after `n` calls of providers. -/
def Sample.Goes (S : Setting inferenceMachine) (p : InferenceProg α) (w : InferenceWorld) (n : ℕ)
    (a : α) (w' : InferenceWorld) : Prop :=
  ∃ asked, Trail S p w asked (.ret a) w' ∧ asked.countP called = n

theorem Sample.Goes.ret (a : α) (w : InferenceWorld) : Sample.Goes S (.ret a) w 0 a w :=
  ⟨[], .nil _ _, rfl⟩

theorem Sample.Goes.bind {p : InferenceProg β} {f : β → InferenceProg α} {n m : ℕ} {a : α} {b : β}
    (hp : Sample.Goes S p w n b w₁) (hf : Sample.Goes S (f b) w₁ m a w') :
    Sample.Goes S (p.bind f) w (n + m) a w' := by
  obtain ⟨asked, hp, rfl⟩ := hp
  obtain ⟨later, hf, rfl⟩ := hf
  exact ⟨asked ++ later, hp.bind hf, List.countP_append⟩

/-- What calls nobody, and then the rest. -/
theorem Sample.Goes.then {p : InferenceProg β} {f : β → InferenceProg α} {n : ℕ} {a : α} {b : β}
    (hp : Sample.Goes S p w 0 b w₁) (hf : Sample.Goes S (f b) w₁ n a w') :
    Sample.Goes S (p.bind f) w n a w' := by
  have hall := hp.bind hf
  rwa [Nat.zero_add] at hall

/-- A request that is no call, made while the clock of the providers shows `time`. -/
theorem Sample.Goes.send (hS : Sample.Patient S limit) {r : InferenceStep} {a : r.Reply} {time : ℚ}
    (hplain : ∀ adapter request, r ≠ .complete adapter request) (hnow : w.now < limit)
    (htime : time < limit) (h : r.perform (Sample.refuses time) w = (.ok a, w')) :
    Sample.Goes S (Dante.send r) w 0 a w' := by
  refine ⟨_, .call (hS.between w) (hS.admits _ w hnow fun _ => htime) h, ?_⟩
  cases r with
  | complete adapter request => exact absurd rfl (hplain adapter request)
  | _ => rfl

/-- The two backends of the slow providers. -/
abbrev Sample.pair : List String := ["east", "west"]

/-- What an unavailable adapter raises. -/
abbrev Sample.unavailable : InferenceError :=
  { cls := .adapterUnavailable, message := "" }

theorem Sample.call_fails (hS : Sample.Patient S limit) {name : String} (hname : name ∈ Sample.pair)
    (hnow : w.now < limit) : Sample.Goes S (callSelected (Sample.manager Sample.pair) Sample.call
      (Sample.cloudModel name)) w 1 (.error Sample.unavailable) w := by
  have hadmits : S.admits (Sample.refuses w.now) w := hS.admits _ w hnow fun _ => hnow
  simp only [Sample.pair, List.mem_cons, List.not_mem_nil, or_false] at hname
  rcases hname with rfl | rfl
  · exact ⟨_, .cons (hS.between w) hadmits rfl (.nil _ _), rfl⟩
  · exact ⟨_, .cons (hS.between w) hadmits rfl (.nil _ _), rfl⟩

/-! ### The ledger -/

/-- The sample task is on record and in no queue. -/
structure Sample.Unqueued (db : Database) : Prop where
  queue : db.queue.get? "task" = none
  task : (db.tasks.get? "task").isSome = true

theorem Sample.Unqueued.requireLease {db : Database} (h : Sample.Unqueued db) (now : ℚ)
    (beforeEffect : Bool) : requireLease db now "task" beforeEffect none = .ok () := by
  simp [Dante.requireLease, assertLease, h.queue]

theorem Sample.Unqueued.referenced {db : Database} (h : Sample.Unqueued db) :
    referenced db "task" = .ok () := by
  simp [Dante.referenced, require, h.task]

theorem Sample.noted (hS : Sample.Patient S limit) (h : Sample.Unqueued w.db) (hnow : w.now < limit)
    (note : Note) : ∃ db, Sample.Unqueued db ∧
      Sample.Goes S (Dante.send (.event none Sample.task note)) w 0 () { w with db := db } := by
  refine ⟨w.db.event Sample.task note.event (some Sample.task.status) note.metadata,
    ⟨h.queue, h.task⟩, .send hS (by simp) hnow hnow ?_⟩
  have hlease := h.requireLease w.now false
  have hreferenced := h.referenced
  simp only [InferenceStep.perform, noteEvent, Sample.task, Sample.refuses, Sample.providers, hlease,
    hreferenced]
  rfl

theorem Sample.Unqueued.setRoute {db : Database} (h : Sample.Unqueued db) {decision : RouteDecision}
    (hdecision : decision.taskId = "task") (now : ℚ) :
    ∃ task db', Sample.Unqueued db' ∧ setRoute none decision now db = .ok (task, db') := by
  obtain ⟨row, hrow⟩ := Option.isSome_iff_exists.mp h.task
  have hlease := h.requireLease now true
  cases hresult : Dante.setRoute none decision now db with
  | ok result =>
      obtain ⟨task, db'⟩ := result
      obtain ⟨row', -, -, hdb⟩ := setRoute_ok hresult
      refine ⟨task, db', ?_, rfl⟩
      rw [hdb]
      exact ⟨h.queue, by simp [Table.get?_modify, hdecision, hrow]⟩
  | error e =>
      simp only [Dante.setRoute, hdecision, hlease, getTask, hrow] at hresult
      cases hresult

theorem Sample.routed (hS : Sample.Patient S limit) (h : Sample.Unqueued w.db) (hnow : w.now < limit)
    (selected : ModelRef) : ∃ task db, Sample.Unqueued db ∧
      Sample.Goes S (Dante.send (.setRoute none
        (ContinuityManager.route (Sample.manager Sample.pair) "task" selected))) w 0 task
        { w with db := db } := by
  have hdecision : (Route.recorded (ContinuityManager.route (Sample.manager Sample.pair) "task"
      selected) "route").taskId = "task" := rfl
  obtain ⟨task, db, hdb, hroute⟩ := h.setRoute hdecision w.now
  refine ⟨task, db, hdb, .send hS (by simp) hnow hnow ?_⟩
  simp only [InferenceStep.perform, Sample.refuses, Sample.providers, hroute]
  rfl

/-- A window that has ended, or that is not there yet, grants an attempt. -/
theorem Sample.reserved (hS : Sample.Patient S limit) (h : Sample.Unqueued w.db)
    (hnow : w.now < limit)
    (hwindow : ∀ row, w.windows.get? "task" = some row → row.windowStart + 60 ≤ t) :
    ∃ w', Sample.Goes S (Dante.send (.reserve none "task" t Sample.policy)) w 0 none w' ∧
      Sample.Unqueued w'.db ∧ w'.backends = w.backends ∧ w'.now = w.now ∧
      ∀ row, w'.windows.get? "task" = some row → row.windowStart = t := by
  have hlease := h.requireLease w.now true
  have hreferenced := h.referenced
  have hopened := w.opened_get? "task" "task" t
  have hreserve : reserve none "task" t Sample.policy w.now w =
      if (w.window "task" t).windowStart + 60 ≤ t then
        .ok (none, ((w.opened "task" t).restarted "task" t).counted "task")
      else if 2 ≤ (w.window "task" t).attempts then
        .ok (some ((w.window "task" t).windowStart + 60), w.opened "task" t)
      else .ok (none, (w.opened "task" t).counted "task") := by
    simp only [reserve, hlease, hreferenced, orRaise, hopened, if_true]
    rfl
  cases hstored : w.windows.get? "task" with
  | none =>
      have hfresh : w.window "task" t = ⟨"task", t, 0, none, none⟩ := by
        simp [InferenceWorld.window, hstored]
      rw [hfresh, if_neg (by simp), if_neg (by simp)] at hreserve
      refine ⟨(w.opened "task" t).counted "task", .send hS (by simp) hnow hnow ?_,
        ⟨h.queue, h.task⟩, rfl, rfl, fun row hrow => ?_⟩
      · simp only [InferenceStep.perform, Sample.refuses, Sample.providers, hreserve]
        rfl
      · rw [InferenceWorld.counted_get?, hopened, hfresh] at hrow
        simp only [if_true, Option.map_some, Option.some.injEq] at hrow
        rw [← hrow]
  | some row =>
      have hover : (w.window "task" t).windowStart + 60 ≤ t := by
        simpa [InferenceWorld.window, hstored] using hwindow row hstored
      rw [if_pos hover] at hreserve
      refine ⟨((w.opened "task" t).restarted "task" t).counted "task",
        .send hS (by simp) hnow hnow ?_, ⟨h.queue, h.task⟩, rfl, rfl, fun row hrow => ?_⟩
      · simp only [InferenceStep.perform, Sample.refuses, Sample.providers, hreserve]
        rfl
      · rw [InferenceWorld.counted_get?, InferenceWorld.restarted_get?, hopened] at hrow
        simp only [if_true, Option.map_some, Option.some.injEq] at hrow
        rw [← hrow]

/-! ### One round -/

/-- A reading of the clock, when it shows `t`. -/
theorem Sample.read (hS : Sample.Patient S limit) (hnow : w.now ≤ t) (ht : t < limit)
    (purpose : Purpose) :
    Sample.Goes S (Dante.send (.clock purpose)) w 0 t { w with now := t } := by
  refine .send hS (by simp) (hnow.trans_lt ht) ht ?_
  have hreading : max w.now t = t := max_eq_right hnow
  simp only [InferenceStep.perform, InferenceWorld.tick, Sample.refuses, Sample.providers, hreading]

/-- The backend is down, with a cooldown that ends at `time` at the latest. -/
def Sample.Rests (w : InferenceWorld) (time : ℚ) (name : String) : Prop :=
  ∃ row resumes, w.backends.get? name = some row ∧ row.state = .unavailable ∧
    row.cooldownUntil = some resumes ∧ resumes ≤ time

/-- One of the backends may be tried at `t`, and both from `t + 400` on; the window has ended. -/
structure Sample.Stalled (t : ℚ) (w : InferenceWorld) : Prop where
  now : w.now ≤ t
  unqueued : Sample.Unqueued w.db
  window : ∀ row, w.windows.get? "task" = some row → row.windowStart + 60 ≤ t
  rests : ∀ name ∈ Sample.pair, Sample.Rests w (t + 400) name
  ready : ∃ name ∈ Sample.pair, Sample.Rests w t name

theorem Sample.health_down {row : BackendObservation} {resumes : ℚ} (name : String)
    (hstate : row.state = .unavailable) (hcooldown : row.cooldownUntil = some resumes) :
    health Sample.policy t (Sample.cloudModel name) (some row) =
      if t < resumes then .denied "cooldown" resumes (some row.reason) else .usable := by
  simp [health, Sample.cloudModel, hstate, hcooldown]

/-- The look at the candidates finds a backend that may be tried. -/
theorem Sample.scanned (hS : Sample.Patient S limit) (hlimit : w.now < limit)
    (h : Sample.Stalled t w) : ∃ found name rest, Sample.Goes S (scan (Sample.manager Sample.pair) [] t
      (Sample.pair.map Sample.cloudModel) ⟨[], [], [], []⟩) w 0 found w ∧
      name ∈ Sample.pair ∧ Sample.Rests w t name ∧
      found.usable = Sample.cloudModel name :: rest := by
  obtain ⟨east, eastEnd, heast, heastState, heastEnd, -⟩ := h.rests "east" (by simp)
  obtain ⟨west, westEnd, hwest, hwestState, hwestEnd, -⟩ := h.rests "west" (by simp)
  have hread (name : String) (row : BackendObservation) (hrow : w.backends.get? name = some row) :
      Sample.Goes S (Dante.send (.observation name)) w 0 (some row) w :=
    .send hS (by simp) hlimit hlimit (by rw [← hrow]; rfl)
  have hscan : Sample.Goes S (scan (Sample.manager Sample.pair) [] t
      (Sample.pair.map Sample.cloudModel) ⟨[], [], [], []⟩) w (0 + (0 + 0))
      ((Scan.judge ⟨[], [], [], []⟩ (Sample.cloudModel "east")
        (health Sample.policy t (Sample.cloudModel "east") (some east))).judge
        (Sample.cloudModel "west") (health Sample.policy t (Sample.cloudModel "west") (some west)))
      w := (hread "east" east heast).bind ((hread "west" west hwest).bind (.ret _ _))
  rw [Sample.health_down "east" heastState heastEnd, Sample.health_down "west" hwestState hwestEnd]
    at hscan
  by_cases hdue : t < eastEnd
  · have hready : westEnd ≤ t := by
      obtain ⟨name, hname, row, resumes, hrow, -, hresumes, hle⟩ := h.ready
      simp only [Sample.pair, List.mem_cons, List.not_mem_nil, or_false] at hname
      rcases hname with rfl | rfl
      · rw [heast, Option.some.injEq] at hrow
        subst hrow
        rw [heastEnd, Option.some.injEq] at hresumes
        exact absurd (hresumes ▸ hle) (not_le.mpr hdue)
      · rw [hwest, Option.some.injEq] at hrow
        subst hrow
        rw [hwestEnd, Option.some.injEq] at hresumes
        exact hresumes ▸ hle
    rw [if_pos hdue, if_neg (not_lt.mpr hready)] at hscan
    exact ⟨_, "west", [], hscan, by simp, ⟨west, westEnd, hwest, hwestState, hwestEnd, hready⟩, rfl⟩
  · rw [if_neg hdue] at hscan
    refine ⟨_, "east", ?_, hscan, by simp,
      ⟨east, eastEnd, heast, heastState, heastEnd, not_lt.mp hdue⟩, ?_⟩
    case refine_1 => exact if t < westEnd then [] else [Sample.cloudModel "west"]
    case refine_2 => split <;> rfl

/-- The provider is asked for 400 seconds, and is not available: it is to rest for 300 more at
most, and the round is followed by another. -/
theorem Sample.failed (hS : Sample.Patient S limit) (hlimit : t + 400 < limit) (hnow : w.now ≤ t)
    (hunqueued : Sample.Unqueued w.db) {name : String} {row : BackendObservation} (hrow : w.backends.get? name = some row) :
    ∃ w' row', Sample.Goes S (onInferenceError (Sample.manager Sample.pair) none Sample.call []
        (Sample.cloudModel name) Sample.unavailable) w 0 (.again [] (some name)) w' ∧
      Sample.Unqueued w'.db ∧ w'.windows = w.windows ∧ w'.now = t + 400 ∧
      (∀ k, w'.backends.get? k = if k = name then some row' else w.backends.get? k) ∧
      row'.state = .unavailable ∧ ∃ resumes, row'.cooldownUntil = some resumes ∧
        resumes ≤ t + 400 + 400 := by
  have hbefore : w.now < limit := by linarith
  obtain ⟨db, hdb, hfailure⟩ := Sample.noted hS hunqueued hbefore
    (.failure name name "unavailable")
  have hread : Sample.Goes S (Dante.send (.observation name)) { w with db := db } 0 (some row)
      { w with db := db } := .send hS (by simp) hbefore hbefore (by rw [← hrow]; rfl)
  have hrest : Sample.policy.restsUntil row.consecutiveFailures Sample.unavailable (t + 400) ≤
      t + 400 + 400 := by
    have hdelay : Sample.policy.backoff row.consecutiveFailures ≤ 300 := min_le_left _ _
    simp only [ContinuityPolicy.restsUntil, Option.elim_none, Option.getD_none]
    rcases max_cases (Sample.policy.backoff row.consecutiveFailures) 0 with h | h <;>
      rw [h.1] <;> linarith
  have hlease := hdb.requireLease (t + 400) false
  obtain ⟨row', hrow'⟩ : ∃ row', row' = BackendObservation.following (w.backends.get? name) name
    .unavailable "unavailable" (t + 400) (some (Sample.policy.restsUntil row.consecutiveFailures
      Sample.unavailable (t + 400))) := ⟨_, rfl⟩
  have hobserve : Sample.Goes S (Dante.send (.observe none (some "task") name .unavailable
        "unavailable" (t + 400)
        (some (Sample.policy.restsUntil row.consecutiveFailures Sample.unavailable (t + 400)))))
      ⟨db, w.backends, w.windows, t + 400⟩ 0 () ⟨db, w.backends.put row', w.windows, t + 400⟩ := by
    refine .send hS (by simp) hlimit hlimit ?_
    simp only [InferenceStep.perform, Dante.observe, requireLeaseGiven, Sample.refuses,
      Sample.providers, hlease, hrow']
    rfl
  have hclass : classifyError Sample.unavailable = ("unavailable", some .unavailable, true) := rfl
  have hlater : ({ w with db := db } : InferenceWorld).now ≤ t + 400 := by
    simp only
    linarith
  refine ⟨⟨db, w.backends.put row', w.windows, t + 400⟩, row', ?_, hdb, rfl, rfl, fun k => ?_,
    by rw [hrow']; rfl, _, by rw [hrow']; rfl, hrest⟩
  · simp only [onInferenceError, hclass, bind_eq, if_true]
    exact hfailure.then (hread.then ((Sample.read hS hlater hlimit .backoff).then
      ((Sample.Goes.ret _ _).then (((Sample.read hS (le_refl _) hlimit .observation).then
        hobserve).then (.ret _ _)))))
  · have hname' : Keyed.primary row' = name := by rw [hrow']; rfl
    rw [Table.get?_put, hname']
    by_cases hk : name = k
    · rw [if_pos hk, if_pos hk.symm]
    · rw [if_neg hk, if_neg (Ne.symm hk)]

/-- A stalled state leads through one call to a stalled state, 400 seconds later. -/
theorem Sample.round (hS : Sample.Patient S limit) (hlimit : t + 400 < limit)
    (h : Sample.Stalled t w) (previous : Option String) :
    ∃ w' selected, Sample.Goes S (inferRound (Sample.manager Sample.pair) none Sample.call []
      previous) w 1 (.again [] (some selected)) w' ∧ Sample.Stalled (t + 400) w' := by
  have ht : t < limit := by linarith
  have hclock := Sample.read hS h.now ht .iteration
  have hread : Sample.Stalled t { w with now := t } :=
    ⟨le_refl _, h.unqueued, h.window, h.rests, h.ready⟩
  obtain ⟨found, name, rest, hscan, hname, hready, husable⟩ := Sample.scanned hS ht hread
  obtain ⟨db₁, hdb₁, hcandidates⟩ := Sample.noted hS hread.unqueued ht
    (.candidates (found.usable.map ModelRef.modelId) found.denied)
  have hagain : Sample.Goes S (Dante.send (.clock .reservation))
      ⟨db₁, w.backends, w.windows, t⟩ 0 t ⟨db₁, w.backends, w.windows, t⟩ :=
    Sample.read hS (le_refl t) ht .reservation
  obtain ⟨w₂, hreserve, hdb₂, hbackends₂, hnow₂, hwindow₂⟩ := Sample.reserved (t := t)
    (w := ⟨db₁, w.backends, w.windows, t⟩) hS hdb₁ ht h.window
  have hnow₂' : w₂.now < limit := by
    rw [hnow₂]
    exact ht
  obtain ⟨db₃, hdb₃, hselected⟩ := Sample.noted hS hdb₂ hnow₂' (.selected name name previous)
  obtain ⟨task, db₄, hdb₄, hroute⟩ := Sample.routed (w := { w₂ with db := db₃ }) hS hdb₃ hnow₂'
    (Sample.cloudModel name)
  have hcall : Sample.Goes S (callSelected (Sample.manager Sample.pair) Sample.call
      (Sample.cloudModel name)) { w₂ with db := db₄ } 1 (.error Sample.unavailable)
      { w₂ with db := db₄ } := Sample.call_fails hS hname hnow₂'
  obtain ⟨row, resumes, hrow, -, -, -⟩ := hready
  have hrow₂ : w₂.backends.get? name = some row := by
    rw [hbackends₂]
    exact hrow
  obtain ⟨w', row', hfail, hdb', hwindows', hnow', hbackends', hstate', resumes', hresumes', hle'⟩ :=
    Sample.failed (w := { w₂ with db := db₄ }) hS hlimit (le_of_eq hnow₂) hdb₄ hrow₂
  have hcandidates' : (Sample.manager Sample.pair).router.continuityCandidates Sample.call.privacy
      (requested Sample.call.capabilities Sample.call.tools) (Sample.manager Sample.pair).policy
      Sample.call.contextTokens = .ok (Sample.pair.map Sample.cloudModel, []) := rfl
  refine ⟨w', name, ?_, le_of_eq hnow', hdb', ?_, ?_, ?_⟩
  · have huse : Sample.Goes S (useRoute (Sample.manager Sample.pair) none Sample.call [] previous
        (Sample.cloudModel name)) w₂ (1 + 0) (.again [] (some name)) w' := by
      refine hselected.then (hroute.then ?_)
      exact hcall.bind hfail
    simp only [inferRound, hcandidates', bind_eq]
    refine hclock.then ((Sample.Goes.ret _ _).then (hscan.then (hcandidates.then ?_)))
    rw [husable]
    have hgranted : Sample.Goes S (Programs.reserve Sample.policy none "task")
        ⟨db₁, w.backends, w.windows, t⟩ 0 none w₂ := by
      refine hagain.then ?_
      exact hreserve
    exact hgranted.then huse
  · intro row hrow
    rw [hwindows'] at hrow
    rw [hwindow₂ row hrow]
    linarith
  · intro other hother
    by_cases hsame : other = name
    · exact ⟨row', resumes', (hbackends' other).trans (if_pos hsame), hstate', hresumes', hle'⟩
    · obtain ⟨row, resumes, hrow, hstate, hresumes, hle⟩ := h.rests other hother
      refine ⟨row, resumes, ?_, hstate, hresumes, by linarith⟩
      rw [hbackends', if_neg hsame]
      simp only [hbackends₂, hrow]
  · obtain ⟨other, hother, hne⟩ : ∃ other ∈ Sample.pair, other ≠ name := by
      simp only [Sample.pair, List.mem_cons, List.not_mem_nil, or_false] at hname
      rcases hname with rfl | rfl
      · exact ⟨"west", by simp, by simp⟩
      · exact ⟨"east", by simp, by simp⟩
    obtain ⟨row, resumes, hrow, hstate, hresumes, hle⟩ := h.rests other hother
    refine ⟨other, hother, row, resumes, ?_, hstate, hresumes, hle⟩
    rw [hbackends', if_neg hne]
    simp only [hbackends₂, hrow]

theorem Sample.rounds (n : ℕ) (hS : Sample.Patient S limit) (hlimit : t + 400 * n < limit)
    (h : Sample.Stalled t w) (previous : Option String) :
    ∃ w', Sample.Goes S (inferRounds (Sample.manager Sample.pair) none Sample.call n [] previous) w n
      none w' := by
  induction n generalizing t w previous with
  | zero => exact ⟨w, .ret none w⟩
  | succ n ih =>
      push_cast at hlimit
      have hfirst : t + 400 < limit := by
        have hrest : (0 : ℚ) ≤ 400 * n := by positivity
        linarith
      obtain ⟨w₁, selected, hround, hstalled⟩ := Sample.round hS hfirst h previous
      obtain ⟨w', hrest⟩ := ih (by linarith) hstalled (some selected)
      refine ⟨w', ?_⟩
      have hall : Sample.Goes S (inferRounds (Sample.manager Sample.pair) none Sample.call (n + 1) []
          previous) w (1 + n) none w' := by
        refine hround.bind ?_
        exact hrest
      rwa [Nat.add_comm 1 n] at hall

/-- Both backends are at the end of a cooldown. -/
def Sample.stalled : InferenceWorld :=
  { Sample.healthy 0 Sample.pair with
    backends := Sample.pair.foldl (fun backends name =>
      backends.put ⟨name, .unavailable, "unavailable", 0, some 0, 1, none⟩) .empty }

theorem Sample.stalled_stalled : Sample.Stalled 0 Sample.stalled := by
  have hrests (name : String) (hname : name ∈ Sample.pair) : Sample.Rests Sample.stalled 0 name := by
    simp only [Sample.pair, List.mem_cons, List.not_mem_nil, or_false] at hname
    rcases hname with rfl | rfl
    · exact ⟨_, 0, rfl, rfl, rfl, le_refl 0⟩
    · exact ⟨_, 0, rfl, rfl, rfl, le_refl 0⟩
  refine ⟨le_refl 0, ⟨rfl, rfl⟩, fun row hrow => (by cases hrow), fun name hname => ?_,
    "east", by simp, hrests "east" (by simp)⟩
  obtain ⟨row, resumes, hrow, hstate, hresumes, hle⟩ := hrests name hname
  exact ⟨row, resumes, hrow, hstate, hresumes, by linarith⟩

/-- One call of `infer` over two backends that are slow to refuse: each outlives the cooldown of
the other, and the window. -/
theorem Sample.slow (n : ℕ) (hS : Sample.Patient S limit) (hlimit : (400 : ℚ) * n < limit) :
    ∃ asked w', Trail S (continuityInfer (Sample.manager Sample.pair) none Sample.call n)
      Sample.stalled asked (.ret none) w' ∧ asked.countP called = n := by
  obtain ⟨w', asked, htrail, hcount⟩ :=
    Sample.rounds n hS (by linarith) Sample.stalled_stalled none
  exact ⟨asked, w', htrail, hcount⟩

theorem calls_bounded_slow : ∃ asked rest w', asked.countP called = 2 ∧
    Trail (undisturbed "task" 1000) (continuityInfer (Sample.manager Sample.pair) none Sample.call 2)
      Sample.stalled asked rest w' ∧
    asked.countP called ≤ Sample.policy.maxRouteAttempts * (17 + 1) := by
  have hS : Sample.Patient (undisturbed "task" 1000) 1000 :=
    ⟨fun w => ⟨rfl, le_refl _⟩, fun env w hnow hclock => ⟨hnow, hclock⟩⟩
  obtain ⟨asked, w', htrail, hcount⟩ := Sample.slow 2 hS (by norm_num)
  have hlimit : (1000 : ℚ) ≤
      Sample.stalled.now + (17 : ℕ) * (Sample.manager Sample.pair).policy.windowS := by
    norm_num [Sample.stalled, Sample.healthy, Sample.manager, Sample.policy]
  have htask : Trail (undisturbed Sample.call.task.taskId 1000)
      (continuityInfer (Sample.manager Sample.pair) none Sample.call 2) Sample.stalled asked
      (.ret none) w' := htrail
  exact ⟨asked, _, w', hcount, htrail, (calls_bounded hlimit htask).1⟩

/-- The policy and the number of models bound nothing. -/
theorem calls_unbounded : ¬∃ bound : ContinuityPolicy → ℕ → ℕ,
    ∀ (manager : ContinuityManager) (owner : Option Lease) (call : InferenceCall) (rounds : ℕ)
      (w w' : InferenceWorld) (asked : List (Exchange InferenceStep.Reply Fault))
      (rest : InferenceProg (Option InferenceOutcome)),
      Trail (.alone inferenceMachine) (continuityInfer manager owner call rounds) w asked rest w' →
      asked.countP called ≤ bound manager.policy manager.gateway.registry.candidates.length := by
  rintro ⟨bound, h⟩
  have hS (limit : ℚ) : Sample.Patient (.alone inferenceMachine) limit :=
    ⟨fun w => rfl, fun env w _ _ => trivial⟩
  obtain ⟨asked, w', htrail, hcount⟩ := Sample.slow (bound Sample.policy 2 + 1)
    (hS (400 * (bound Sample.policy 2 + 1 : ℕ) + 1)) (by linarith)
  have hbound := h _ _ _ _ _ _ _ _ htrail
  rw [hcount] at hbound
  exact absurd hbound (Nat.not_le.mpr (Nat.lt_succ_self _))

end Slow

end Dante
