import Dante.Verification.AtMostOnce
import Dante.Verification.WorkerRuns

/-! # The order of a plan

Workers that take over from one another claim the actions of a plan in its order. Where nobody
certifies steps, the handlers that they start are the actions of the plan, each of them once. -/

namespace Dante

open JsonText Relational Concurrent Program Programs

section Runs

variable [Platform] {α : Type} {env : Surroundings} {r : Request} {w : World}
  {s : Snapshot ledgerMachine} {pid : ℕ} {taskId stepId : String} {lease : Lease}
  {row : QueueRow} {index : ℕ} {worker : Worker} {broker : ToolBroker}

/-! ## Workers start handlers through the broker -/

omit [Platform] in
theorem Request.Harmless.quiet (hr : r.Harmless lease) : r.Quiet := by
  rintro c rfl
  exact hr

omit [Platform] in
theorem Request.Bystander.quiet (hr : r.Bystander) : r.Quiet := by
  rintro c rfl
  exact hr

theorem brokered_harmless (lease : Lease) {p : Prog α} (hp : p.Uses (Request.Harmless lease)) :
    Brokered p :=
  .quiet (hp.mono fun _ hr => hr.quiet)

theorem brokered_ask (hr : r.Quiet) : Brokered (ask r) :=
  .quiet (.call hr)

theorem brokered_ite {c : Prop} [Decidable c] {p q : Prog α} (hp : Brokered p) (hq : Brokered q) :
    Brokered (if c then p else q) := by
  split
  · exact hp
  · exact hq

theorem brokered_ofExcept (x : Except Exn α) : Brokered (ofExcept x) :=
  .quiet (.ofExcept x)

theorem Brokered.ret (a : α) : Brokered (.ret a) :=
  .quiet trivial

theorem Brokered.raise (e : Exn) : Brokered (.raise e : Prog α) :=
  .quiet trivial

theorem toolRun_brokered (task : Task) (request : ToolRequest) :
    Brokered (Programs.runTool broker (some lease) task request) := by
  apply Brokered.bind (brokered_harmless lease (resumeFailed_harmless task))
  intro _
  refine .bind (brokered_ask (by nofun)) fun waiting => ?_
  apply Brokered.bind (.invoke ..)
  intro outcome
  apply brokered_ite (.raise _)
  apply brokered_ite (.raise _)
  have hresult (stepId : String) : Brokered (verifiedStepResult waiting.taskId stepId) :=
    brokered_harmless lease (verifiedStepResult_harmless _ _)
  refine .bind (hresult _) fun result => ?_
  refine .bind (brokered_ask (by nofun)) fun _ => ?_
  apply brokered_ite (.ret _)
  exact .bind (brokered_ask (by nofun)) fun _ => .ret _

theorem executeToolAndCheckpoint_brokered (request : ToolRequest) :
    Brokered (executeToolAndCheckpoint broker (some lease) taskId request) := by
  refine .bind (brokered_ask (by nofun)) fun task => ?_
  apply Brokered.except (toolRun_brokered task request)
  intro e
  refine .bind (brokered_ask (by nofun)) fun current => ?_
  apply brokered_ite
  · exact .bind (brokered_ask (by nofun)) fun _ => .raise _
  · exact .raise _

theorem runAction_brokered (action : Action) (index : ℕ) :
    Brokered (runAction broker lease action index) := by
  apply Brokered.bind (brokered_ofExcept _)
  intro manifest
  apply brokered_ite (.raise _)
  exact .bind (executeToolAndCheckpoint_brokered _) fun _ => brokered_ask (by nofun)

theorem continues_brokered : Brokered (continues worker lease) := by
  refine .bind (brokered_ask (by nofun)) fun _ => ?_
  refine .bind (brokered_ask (by nofun)) fun (stopped : Bool) => ?_
  apply brokered_ite
  · exact .bind (brokered_ask (by nofun)) fun _ => .ret _
  · exact .ret _

theorem runActions_brokered (rest : List Action) (index : ℕ) :
    Brokered (runActions worker broker lease rest index) := by
  induction rest generalizing index with
  | nil => exact .ret _
  | cons action rest ih =>
      apply Brokered.bind continues_brokered
      intro goesOn
      apply brokered_ite
      · exact .bind (runAction_brokered action index) fun _ => ih (index + 1)
      · exact .ret _

theorem complete_brokered : Brokered (complete (some lease) taskId none none) := by
  refine .bind (brokered_ask (by nofun)) fun task => ?_
  apply brokered_ite
  · exact brokered_ask (by nofun)
  · apply Brokered.bind (brokered_harmless lease (verifyAcceptance_harmless taskId))
    intro result
    apply brokered_ite
    · exact brokered_ask (by nofun)
    · exact brokered_ask (by nofun)

theorem finishPlan_brokered : Brokered (finishPlan worker lease) := by
  apply Brokered.bind continues_brokered
  intro goesOn
  apply brokered_ite
  · exact .bind complete_brokered fun _ => brokered_ask (by nofun)
  · exact .ret _

theorem moveFrom_brokered (task : Task) (source target : TaskStatus) :
    Brokered (moveFrom lease task source target) := by
  apply brokered_ite
  · exact brokered_ask (by nofun)
  · exact .ret _

theorem begin_brokered : Brokered (begin lease) := by
  refine .bind (brokered_ask (by nofun)) fun task => ?_
  apply Brokered.bind (moveFrom_brokered _ _ _)
  intro planned
  exact moveFrom_brokered _ _ _

theorem executePlan_brokered : Brokered (executePlan worker lease) := by
  refine .bind (brokered_ask (by nofun)) fun _ => ?_
  apply Brokered.bind begin_brokered
  intro task
  refine .bind (brokered_ask (by nofun)) fun (steps : List StepRecord) => ?_
  apply Brokered.bind (brokered_harmless lease (inspectEffects_harmless lease.taskId steps))
  intro _
  apply Brokered.bind (brokered_ofExcept _)
  intro broker
  apply Brokered.bind (brokered_harmless lease (resume_harmless lease.taskId))
  intro _
  refine .bind (brokered_ask (by nofun)) fun (planned : QueueRow) => ?_
  refine .bind (brokered_ask (by nofun)) fun (current : QueueRow) => ?_
  refine .bind (brokered_ask (by nofun)) fun _ => ?_
  apply Brokered.bind (runActions_brokered _ _)
  intro goesOn
  exact brokered_ite finishPlan_brokered (.ret _)

theorem fail_brokered : Brokered (fail lease) := by
  refine .bind (brokered_ask (by nofun)) fun task => ?_
  apply brokered_ite
  · exact .bind (brokered_ask (by nofun)) fun _ => .ret _
  · exact .ret _

theorem stopWhenLost_brokered {body : Prog Unit} (hbody : Brokered body) :
    Brokered (stopWhenLost worker body) := by
  apply Brokered.except hbody
  intro e
  cases e with
  | leaseLost => exact brokered_ask (by nofun)
  | _ => exact .raise _

theorem releaseAfterFailure_brokered (reason : Option String) :
    Brokered (releaseAfterFailure worker lease reason) := by
  apply stopWhenLost_brokered
  cases reason with
  | none => exact .bind (.ret _) fun _ => brokered_ask (by nofun)
  | some reason => exact .bind fail_brokered fun _ => brokered_ask (by nofun)

theorem onContinuitySignal_brokered (outcome : ContinuityOutcome) :
    Brokered (onContinuitySignal worker lease outcome) := by
  unfold onContinuitySignal
  apply stopWhenLost_brokered
  cases outcome.disposition with
  | retryLater => exact .bind fail_brokered fun _ => brokered_ask (by nofun)
  | terminal =>
      refine .bind (brokered_ask (by nofun)) fun current => ?_
      apply Brokered.bind (moveFrom_brokered _ _ _)
      intro _
      exact .bind (brokered_ask (by nofun)) fun _ => brokered_ask (by nofun)
  | continueNow => exact releaseAfterFailure_brokered _

theorem onFailure_brokered (e : Exn) : Brokered (onFailure worker lease e) := by
  cases e with
  | continuitySignal outcome => exact onContinuitySignal_brokered outcome
  | leaseLost => exact brokered_ask (by nofun)
  | _ => exact releaseAfterFailure_brokered _

theorem runOnce_brokered : Brokered (runOnce worker) := by
  refine .bind (brokered_ask (by nofun)) fun (stopped : Bool) => ?_
  apply brokered_ite (.ret _)
  refine .bind (brokered_ask (by nofun)) fun _ => ?_
  refine .bind (brokered_ask (by nofun)) fun (claimed : Option Lease) => ?_
  cases claimed with
  | none => exact .ret _
  | some lease =>
      exact .bind (.except executePlan_brokered fun e => onFailure_brokered e) fun _ => .ret _

theorem worker_brokered (rounds : ℕ) : Brokered (run worker rounds) := by
  induction rounds with
  | zero => exact .ret _
  | succ n ih =>
      refine .bind (brokered_ask (by nofun)) fun (stopped : Bool) => ?_
      apply brokered_ite (.ret _)
      exact .bind runOnce_brokered fun _ => ih

/-! ## Runs without certificates -/

/-- Any request but the use of a certificate. -/
def Request.Plain (r : Request) : Prop :=
  ∀ taskId stepId artifactId actor, r ≠ .reconcileStep taskId stepId artifactId actor

/-- Any number of workers, among processes that reconcile no step. -/
def plannedRun : Rules ledgerMachine where
  start := World.Fresh
  program := queueRun.program
  admits _ r _ := r.Plain

theorem Request.Plain.timely (hr : r.Plain) (w : World) : Timely w r := by
  cases r with
  | reconcileStep taskId stepId artifactId actor => exact absurd rfl (hr _ _ _ _)
  | _ => trivial

theorem planned_queueRun {s : System ledgerMachine} (h : Reachable plannedRun s) :
    Reachable queueRun s := by
  apply h.mono
  · exact fun _ hstart => hstart
  · exact fun _ hp => hp
  · exact fun _ _ s hr => hr.timely s.state

theorem planned_brokeredRun {s : System ledgerMachine} (h : Reachable plannedRun s) :
    Reachable brokeredRun s := by
  apply h.mono
  · exact fun _ hstart => hstart
  · rintro p (⟨worker, rounds, rfl⟩ | hp)
    · exact worker_brokered rounds
    · exact .quiet (hp.mono fun _ hr => hr.quiet)
  · exact fun _ _ _ _ => trivial

/-- Nothing is taken back. -/
theorem unreconciled {s : System ledgerMachine} (h : Reachable plannedRun s) (k : String × String) :
    s.snap.log.countP (reopens k) = 0 := by
  refine h.snapshot_invariant (J := fun s : Snapshot ledgerMachine => s.log.countP (reopens k) = 0)
    (fun _ _ => rfl) ?_ ?_ ?_ (fun hs _ => hs)
  · intro s pid r env reply w hs hadmits _
    rw [Snapshot.after_log, countP_after, hs]
    cases r with
    | reconcileStep taskId stepId artifactId actor => exact absurd rfl (hadmits _ _ _ _)
    | _ => rfl
  · intro s pid hs
    rw [Snapshot.after_log, countP_after, hs]
    rfl
  · intro s pid hs
    rw [Snapshot.after_log, countP_after, hs]
    rfl

/-! ## Starts in the order of the plan -/

/-- The call of a handler that was started for the task. -/
def startedFor (taskId : String) : Event Request.Reply Exn → Option ToolCall
  | .call _ (.runTool c) _ => if c.taskId = taskId then some c else none
  | _ => none

/-- The handlers that were started for the task, in their order. -/
def startsOf (taskId : String) (log : List (Event Request.Reply Exn)) : List ToolCall :=
  log.filterMap (startedFor taskId)

/-- What a plan asks for at one place. -/
def ToolCall.part (c : ToolCall) : Option String × String × Dict Json :=
  (c.idempotencyKey, c.toolId, c.arguments)

/-- The calls that a plan asks for, one for each action. -/
def ExecutionPlan.parts (plan : ExecutionPlan) : List (Option String × String × Dict Json) :=
  plan.actions.mapIdx fun index action => (some (actionKey index), action.toolId, action.arguments)

omit [Platform] in
theorem ToolCall.Follows.part {c : ToolCall} {plan : ExecutionPlan} (h : c.Follows plan index) :
    plan.parts[index]? = some c.part := by
  obtain ⟨action, haction, hkey, htool, harguments⟩ := h
  simp [ExecutionPlan.parts, ToolCall.part, haction, hkey, htool, harguments]

omit [Platform] in
theorem startsOf_quiet {e : Event Request.Reply Exn} (h : startedFor taskId e = none)
    (log : List (Event Request.Reply Exn)) : startsOf taskId (log ++ [e]) = startsOf taskId log := by
  simp [startsOf, h]

omit [Platform] in
theorem startsOf_start {e : Event Request.Reply Exn} {c : ToolCall} (h : startedFor taskId e = some c)
    (log : List (Event Request.Reply Exn)) :
    startsOf taskId (log ++ [e]) = startsOf taskId log ++ [c] := by
  simp [startsOf, h]

omit [Platform] in
theorem mem_startsOf {log : List (Event Request.Reply Exn)} {c : ToolCall} :
    c ∈ startsOf taskId log ↔ c.taskId = taskId ∧ ∃ pid reply, Event.call pid (.runTool c) reply ∈ log := by
  simp only [startsOf, List.mem_filterMap]
  constructor
  · rintro ⟨e, he, hstarted⟩
    cases e with
    | call pid r reply =>
        cases r with
        | runTool other =>
            simp only [startedFor] at hstarted
            split at hstarted
            next htask =>
              cases hstarted
              exact ⟨htask, pid, reply, he⟩
            next => cases hstarted
        | _ => cases hstarted
    | _ => cases hstarted
  · rintro ⟨htask, pid, reply, hmem⟩
    exact ⟨_, hmem, by simp [startedFor, htask]⟩

/-- Handlers are started in the order of the plan, and what has succeeded was started. -/
structure InOrder (s : Snapshot ledgerMachine) : Prop where
  ran : ∀ taskId stepId step, s.state.db.stepNamed taskId stepId = some step →
    step.state = .succeeded → Ran taskId stepId s
  claimed : ∀ taskId row index step, s.state.db.queue.get? taskId = some row →
    s.state.db.actionStep taskId index = some step → step.state ≠ .intent →
      ∀ earlier < index, s.state.db.Done taskId earlier
  started : ∀ taskId row index c, s.state.db.queue.get? taskId = some row →
    (startsOf taskId s.log)[index]? = some c →
      c.Follows row.plan index ∧ s.state.db.Records taskId index c.stepId
  completed : ∀ taskId row, s.state.db.queue.get? taskId = some row →
    (s.state.db.view taskId).status = some .completed →
      ∀ index < row.plan.actions.length, s.state.db.Done taskId index

variable {reply : Except Exn r.Reply} {row' : QueueRow}

/-- Without certificates, what is done stays done. -/
theorem done_stays (hr : r.Plain) (hperform : perform env r s.state = (reply, w))
    (hdone : s.state.db.Done taskId index) : w.db.Done taskId index := by
  rcases done_perform hperform hdone with hkept | ⟨step, -, -, hreopens⟩
  · exact hkept
  · cases r with
    | reconcileStep taskId stepId artifactId actor => exact absurd rfl (hr _ _ _ _)
    | _ => cases hreopens

theorem ran_kept (hs : InOrder s) (hr : r.Plain) (hpermit : r.PermittedTo pid s)
    (hperform : perform env r s.state = (reply, w)) {step : StepRecord}
    (hstep : w.db.stepNamed taskId stepId = some step) (hstate : step.state = .succeeded) :
    Ran taskId stepId (s.after w (.call pid r reply)) := by
  have hgrows (h : Ran taskId stepId s) : Ran taskId stepId (s.after w (.call pid r reply)) :=
    h.mono fun _ he => List.mem_append_left _ he
  rcases perform_edge hperform taskId stepId with hsame | ⟨-, hedge⟩
  · exact hgrows (hs.ran taskId stepId step (hsame ▸ hstep) hstate)
  · rw [hstep] at hedge
    generalize s.state.db.stepNamed taskId stepId = before at hedge
    cases hedge with
    | finished => exact hgrows hpermit
    | applied artifactId actor => exact absurd rfl (hr _ _ _ _)
    | _ => cases hstate

theorem records_unique {db : Database} {i j : ℕ} {step : StepRecord}
    (hi : db.Records taskId i stepId) (hj : db.actionStep taskId j = some step)
    (hid : step.stepId = stepId) : i = j := by
  obtain ⟨other, hother, hsame⟩ := hi
  apply actionStep_unique hother
  have hnamed := (actionStep_iff.mp hother).2
  have hnamed' := (actionStep_iff.mp hj).2
  rw [hsame] at hnamed
  rw [hid, hnamed] at hnamed'
  cases hnamed'
  exact hj

theorem claimed_kept (hinv : Checkpointed s) (hs : InOrder s) (hr : r.Plain)
    (hpermit : r.PermittedTo pid s) (hperform : perform env r s.state = (reply, w))
    {step : StepRecord} (hrow' : w.db.queue.get? taskId = some row')
    (hstep : w.db.actionStep taskId index = some step) (hstate : step.state ≠ .intent)
    {earlier : ℕ} (hearlier : earlier < index) : w.db.Done taskId earlier := by
  apply done_stays hr hperform
  obtain ⟨hkey, hnamed⟩ := actionStep_iff.mp hstep
  rcases queued_cases hperform hrow' with ⟨row, hrow, -⟩ | ⟨htask, -⟩
  · rcases perform_edge hperform taskId step.stepId with hsame | ⟨⟨answer, rfl⟩, hedge⟩
    · have hbefore := actionStep_iff.mpr ⟨hkey, hsame ▸ hnamed⟩
      exact hs.claimed taskId row index step hrow hbefore hstate earlier hearlier
    · rw [hnamed] at hedge
      generalize hlabel : step.stepId = label at hedge
      cases hbefore : s.state.db.stepNamed taskId label with
      | none =>
          rw [hbefore] at hedge
          cases hedge
          exact absurd rfl hstate
      | some before =>
          have hid := (named_of_find hbefore).2
          have hold : before.idempotencyKey = step.idempotencyKey →
              s.state.db.actionStep taskId index = some before := by
            intro hsame
            exact actionStep_iff.mpr ⟨hsame ▸ hkey, hid.symm ▸ hbefore⟩
          rw [hbefore] at hedge
          cases hedge with
          | claimed owner hintent =>
              obtain ⟨lease, other, rfl, -, hrecords, hdone⟩ := hpermit
              obtain ⟨held, howner, hheld⟩ := claim_held hperform hrow
              cases howner
              obtain rfl := records_unique hrecords (hold rfl) hid
              exact hdone (Database.leased_of_heldBy hrow hheld).2 earlier hearlier
          | finished owner safe safeDigest hstarted | marked owner error hstarted
          | expired hstarted =>
              apply hs.claimed taskId row index before hrow (hold rfl) _ earlier hearlier
              simp [hstarted]
          | applied artifactId actor | reopened artifactId actor => exact absurd rfl (hr _ _ _ _)
  · exact absurd hnamed (unrecorded hinv hperform htask step)

/-- A queued task is completed by a transition only. -/
theorem completed_kept (hknown : LeasesKnown s) (hs : InOrder s)
    (hr : r.Plain) (hpermit : r.PermittedTo pid s) (hperform : perform env r s.state = (reply, w))
    (hrow' : w.db.queue.get? taskId = some row')
    (hstatus : (w.db.view taskId).status = some .completed) (hindex : index < row'.plan.actions.length) :
    w.db.Done taskId index := by
  apply done_stays hr hperform
  have hmove := perform_lifecycle hperform taskId
  rcases hmove.status_reached (hknown.numbered taskId).consistent hrow' hstatus (by decide)
    (by decide) with ⟨⟨row, hrow⟩, hbefore⟩ | hmoved
  · obtain ⟨after, hafter, hplan⟩ := queued_stays hperform hrow
    cases hafter.symm.trans hrow'
    exact hs.completed taskId row hrow hbefore index (hplan ▸ hindex)
  · obtain ⟨owner, currentStep, metadata, rfl⟩ := transition_of_move hmoved
    rcases queued_cases hperform hrow' with ⟨row, hrow, hplan, -⟩ | ⟨htask, -⟩
    · rw [hplan] at hindex
      rcases commit_cases hperform with ⟨_, db', hx, -, -⟩ | ⟨_, -, herror, -⟩
      · obtain ⟨taskRow, htask, ⟨hsame, -⟩ | ⟨-, hmoved⟩⟩ := transition_ok hx
        · have hbefore : (s.state.db.view taskId).status = some .completed := by
            simp [Database.view, htask, hsame]
          exact hs.completed taskId row hrow hbefore index hindex
        · obtain ⟨-, lease, rfl, -, hdone⟩ := hpermit
          obtain ⟨held, howner, -, hheld⟩ := hmoved.permitted.leased hrow
          cases howner
          exact hdone rfl (Database.leased_of_heldBy hrow hheld).2 row hrow index hindex
      · subst herror
        cases hmoved
    · rcases commit_cases hperform with ⟨_, db', hx, -, -⟩ | ⟨_, -, herror, -⟩
      · obtain ⟨taskRow, hfound, -⟩ := transition_ok hx
        cases hfound.symm.trans htask
      · subst herror
        cases hmoved

/-! ### One more start -/

/-- The step of an action was started under its key. -/
theorem started_under (hrecorded : StartsRecorded s) {pid : ℕ} {c : ToolCall}
    {answer : Except Exn (Request.Reply (.runTool c))} {step : StepRecord}
    (hmem : Event.call pid (.runTool c) answer ∈ s.log)
    (hstep : s.state.db.stepNamed c.taskId c.stepId = some step) :
    startsUnder c.taskId step.idempotencyKey (.call pid (.runTool c) answer) = true := by
  obtain ⟨key, row, hkey, hrow, hsame⟩ := hrecorded pid c answer hmem
  cases hrow.symm.trans hstep
  simp [startsUnder, hkey, hsame]

/-- The next handler that is started is the one of the next action. -/
theorem next_start (hs : InOrder s) (hrecorded : StartsRecorded s)
    {c : ToolCall} {answer : Except Exn (Request.Reply (.runTool c))} {step : StepRecord}
    (hstep : s.state.db.actionStep c.taskId index = some step)
    (hkey : c.stepKey = .ok step.idempotencyKey) (hclaimed : step.state ≠ .intent)
    (honce : (s.log ++ [Event.call pid (Request.runTool c) answer]).countP
      (startsUnder c.taskId step.idempotencyKey) ≤ 1)
    (hrow : s.state.db.queue.get? c.taskId = some row) :
    index = (startsOf c.taskId s.log).length := by
  have hnamed := (actionStep_iff.mp hstep).2
  apply Nat.le_antisymm
  · -- the action before was done, and so started
    rcases Nat.eq_zero_or_pos index with rfl | hpos
    · exact Nat.zero_le _
    · obtain ⟨done, hdone, hstate⟩ := hs.claimed c.taskId row index step hrow hstep hclaimed
        (index - 1) (by omega)
      obtain ⟨other, c', answer', hmem, htask, hsame⟩ := hs.ran c.taskId done.stepId done
        (actionStep_iff.mp hdone).2 hstate
      obtain ⟨i, hi⟩ := List.mem_iff_getElem?.mp (mem_startsOf.mpr ⟨htask, other, answer', hmem⟩)
      have hplace := records_unique (hs.started c.taskId row i c' hrow hi).2 hdone hsame.symm
      have hbound := (List.getElem?_eq_some_iff.mp hi).1
      omega
  · -- no step is started twice
    by_contra hlt
    obtain ⟨c', hc'⟩ : ∃ c', (startsOf c.taskId s.log)[index]? = some c' :=
      ⟨_, List.getElem?_eq_getElem (by omega)⟩
    obtain ⟨htask, other, answer', hmem⟩ := mem_startsOf.mp (List.mem_of_getElem? hc')
    obtain ⟨step', hstep', hid'⟩ := (hs.started c.taskId row index c' hrow hc').2
    cases hstep'.symm.trans hstep
    have hunder : startsUnder c.taskId step.idempotencyKey (.call other (.runTool c') answer') = true := by
      rw [← htask]
      exact started_under hrecorded hmem (by rw [htask, ← hid', hnamed])
    have hbefore : 0 < s.log.countP (startsUnder c.taskId step.idempotencyKey) :=
      List.countP_pos_iff.mpr ⟨_, hmem, hunder⟩
    have hnow : startsUnder c.taskId step.idempotencyKey (.call pid (.runTool c) answer) = true := by
      simp [startsUnder, hkey]
    rw [countP_after, if_pos hnow] at honce
    omega

omit [Platform] in
/-- A start is an earlier one, or the one that the request makes. -/
theorem startsOf_cases {log : List (Event Request.Reply Exn)} {c : ToolCall}
    (h : (startsOf taskId (log ++ [.call pid r reply]))[index]? = some c) :
    (startsOf taskId log)[index]? = some c ∨
      r = .runTool c ∧ c.taskId = taskId ∧ index = (startsOf taskId log).length := by
  cases hnew : startedFor taskId (.call pid r reply) with
  | none =>
      rw [startsOf_quiet hnew] at h
      exact .inl h
  | some other =>
      rw [startsOf_start hnew, List.getElem?_append] at h
      split at h
      next => exact .inl h
      next hlast =>
        obtain ⟨hplace, hother⟩ := List.getElem?_eq_some_iff.mp h
        simp only [List.length_singleton] at hplace
        simp only [List.getElem_singleton] at hother
        subst hother
        right
        cases r with
        | runTool c' =>
            simp only [startedFor] at hnew
            split at hnew
            next htask =>
              cases hnew
              exact ⟨rfl, htask, by omega⟩
            next => cases hnew
        | _ => cases hnew

/-- What a process that starts a handler knows of its step. -/
def Startable (s : Snapshot ledgerMachine) (c : ToolCall) : Prop :=
  ∃ step, s.state.db.stepNamed c.taskId c.stepId = some step ∧
    c.stepKey = .ok step.idempotencyKey ∧ step.state ≠ .intent

theorem started_kept (hinv : Checkpointed s) (hs : InOrder s) (hrecorded : StartsRecorded s)
    (hpermit : r.PermittedTo pid s) (hstartable : ∀ c, r = .runTool c → Startable s c)
    (honce : ∀ taskId key, (s.log ++ [Event.call pid r reply]).countP (startsUnder taskId key) ≤ 1)
    (hperform : perform env r s.state = (reply, w)) {c : ToolCall}
    (hrow' : w.db.queue.get? taskId = some row')
    (hc : (startsOf taskId (s.log ++ [Event.call pid r reply]))[index]? = some c) :
    c.Follows row'.plan index ∧ w.db.Records taskId index c.stepId := by
  rcases queued_cases hperform hrow' with ⟨row, hrow, hplan, -⟩ | ⟨hnone, -⟩
  · rw [hplan]
    rcases startsOf_cases hc with hold | ⟨rfl, rfl, hlast⟩
    · obtain ⟨hfollows, hrecords⟩ := hs.started taskId row index c hrow hold
      exact ⟨hfollows, records_perform hperform hrecords⟩
    · obtain ⟨place, hfollows, hrecords⟩ := hpermit row hrow
      obtain ⟨known, hknown, hkey, hclaimed⟩ := hstartable c rfl
      obtain ⟨step, hstep, hid⟩ := id hrecords
      have hnamed := (actionStep_iff.mp hstep).2
      rw [hid] at hnamed
      cases hnamed.symm.trans hknown
      have hplace := next_start hs hrecorded hstep hkey hclaimed (honce _ _) hrow
      rw [hlast, ← hplace]
      exact ⟨hfollows, records_perform hperform hrecords⟩
  · -- nothing can have been started for a task that does not exist
    exfalso
    have hnothing : s.state.db.stepNamed taskId c.stepId = none := by
      cases hstep : s.state.db.stepNamed taskId c.stepId with
      | none => rfl
      | some step =>
          have hexists := hinv.known taskId c.stepId step hstep
          rw [hnone] at hexists
          cases hexists
    rcases startsOf_cases hc with hold | ⟨rfl, rfl, -⟩
    · obtain ⟨rfl, other, answer, hmem⟩ := mem_startsOf.mp (List.mem_of_getElem? hold)
      obtain ⟨_, _, -, hstep, -⟩ := hrecorded other c answer hmem
      cases hnothing.symm.trans hstep
    · obtain ⟨_, hstep, -⟩ := hstartable c rfl
      cases hnothing.symm.trans hstep

theorem InOrder.call (hinv : Checkpointed s) (hknown : LeasesKnown s) (hs : InOrder s)
    (hrecorded : StartsRecorded s) (hr : r.Plain) (hpermit : r.PermittedTo pid s)
    (hstartable : ∀ c, r = .runTool c → Startable s c)
    (honce : ∀ taskId key, (s.log ++ [Event.call pid r reply]).countP (startsUnder taskId key) ≤ 1)
    (hperform : perform env r s.state = (reply, w)) : InOrder (s.after w (.call pid r reply)) where
  ran _ _ _ hstep hstate := ran_kept hs hr hpermit hperform hstep hstate
  claimed _ _ _ _ hrow hstep hstate _ hearlier :=
    claimed_kept hinv hs hr hpermit hperform hrow hstep hstate hearlier
  started _ _ _ _ hrow hc :=
    started_kept hinv hs hrecorded hpermit hstartable honce hperform hrow hc
  completed _ _ hrow hstatus _ hindex :=
    completed_kept hknown hs hr hpermit hperform hrow hstatus hindex

/-- Events that are no requests start nothing. -/
theorem InOrder.of_state {e : Event Request.Reply Exn} (hs : InOrder s)
    (he : ∀ taskId, startedFor taskId e = none) : InOrder (s.after s.state e) where
  ran taskId stepId step hstep hstate :=
    (hs.ran taskId stepId step hstep hstate).mono fun _ hmem => List.mem_append_left _ hmem
  claimed := hs.claimed
  started taskId row index c hrow hc := by
    rw [Snapshot.after_log, startsOf_quiet (he taskId)] at hc
    exact hs.started taskId row index c hrow hc
  completed := hs.completed

theorem InOrder.drift (hs : InOrder s) (hdrift : World.Drift s.state w) : InOrder ⟨w, s.log⟩ := by
  have hsteps : w.db.steps = s.state.db.steps := hdrift.agree (t := .steps) (by simp)
  have hqueue : w.db.queue = s.state.db.queue := hdrift.agree (t := .queue) (by simp)
  constructor
  · intro taskId stepId step hstep hstate
    rw [stepNamed_congr hsteps] at hstep
    exact hs.ran taskId stepId step hstep hstate
  · intro taskId row index step hrow hstep hstate earlier hearlier
    rw [hqueue] at hrow
    rw [actionStep_congr hsteps] at hstep
    exact (done_congr hsteps).mpr (hs.claimed taskId row index step hrow hstep hstate earlier hearlier)
  · intro taskId row index c hrow hc
    rw [hqueue] at hrow
    obtain ⟨hfollows, hrecords⟩ := hs.started taskId row index c hrow hc
    exact ⟨hfollows, (records_congr hsteps).mpr hrecords⟩
  · intro taskId row hrow hstatus index hindex
    rw [hqueue] at hrow
    rw [hdrift.view_eq] at hstatus
    exact (done_congr hsteps).mpr (hs.completed taskId row hrow hstatus index hindex)

/-! ## Whole runs -/

variable {s : System ledgerMachine}

/-- No operation is started twice. -/
theorem started_once (h : Reachable plannedRun s) (taskId key : String) :
    s.snap.log.countP (startsUnder taskId key) ≤ 1 := by
  have hbrokered := planned_brokeredRun h
  obtain ⟨-, hrecorded⟩ := starts_accounted hbrokered
  cases hfind : s.snap.state.db.steps.find (StepRecord.keyed taskId key) with
  | none =>
      have hnothing : s.snap.log.countP (startsUnder taskId key) = 0 := by
        apply List.countP_eq_zero.mpr
        intro e he hunder
        obtain ⟨row, hrow, -⟩ := hrecorded.under he hunder
        cases hfind.symm.trans hrow
      omega
  | some row =>
      have hkeeps := hbrokered.keeps brokerProtocol_sound fun p hp pid s _ _ => brokered_safe hp _
      have hstarts := startsUnder_le hrecorded hkeeps.inv.1 hfind
      have hjournaled : Journaled s.snap.log (taskId, row.stepId)
          (s.snap.state.db.stepNamed taskId row.stepId) := journaled (fun _ hw => hw) h _
      rw [(stepNamed_of_keyed hfind).1] at hjournaled
      have hclaims := hjournaled.2
      rw [unreconciled h] at hclaims
      omega

theorem startable {c : ToolCall} (h : Reachable plannedRun s) (hmay : MayStart pid c s.snap) :
    Startable s.snap c := by
  obtain ⟨key, step, hkey, hnamed, rfl⟩ := hmay.keyed
  refine ⟨step, hnamed, hkey, fun hintent => ?_⟩
  have hjournaled : Journaled s.snap.log (c.taskId, c.stepId)
      (s.snap.state.db.stepNamed c.taskId c.stepId) := journaled (fun _ hw => hw) h _
  rw [hnamed] at hjournaled
  have hbound := hjournaled.2
  rw [unreconciled h, if_pos hintent] at hbound
  obtain ⟨owner, hlast⟩ := hmay.claimed
  have hmem := List.mem_of_mem_filter (List.mem_of_getLast? hlast)
  have hclaim : 0 < s.snap.log.countP (claims (c.taskId, c.stepId)) :=
    List.countP_pos_iff.mpr ⟨_, hmem, by simp [claims]⟩
  omega

theorem in_order (h : Reachable plannedRun s) : InOrder s.snap := by
  induction h with
  | start w hw =>
      have hempty : w.db = .empty := hw
      constructor
      · intro taskId stepId step hstep
        simp [Database.stepNamed, hempty, Database.empty] at hstep
      · intro taskId row index step hrow
        simp [hempty, Database.empty] at hrow
      · intro taskId row index c hrow
        simp [hempty, Database.empty] at hrow
      · intro taskId row hrow
        simp [hempty, Database.empty] at hrow
  | step hr hstep ih =>
      have hnext := hr.step hstep
      cases hstep with
      | spawn p hp => exact ih.of_state fun _ => rfl
      | crash pid hpid => exact ih.of_state fun _ => rfl
      | drift w hdrift => exact ih.drift hdrift
      | call pid r next env reply w hthread hadmits hperform =>
          have hknown := queue_leases (planned_queueRun hr)
          have hqueue := keeps_queueProtocol (planned_queueRun hr)
          have hbroker := (planned_brokeredRun hr).keeps brokerProtocol_sound
            fun p hp pid s _ _ => brokered_safe hp _
          apply ih.call hqueue.inv hknown (starts_accounted (planned_brokeredRun hr)).2 hadmits
          · exact hqueue.permitted queueProtocol_sound hthread ⟨hadmits.timely _, hknown⟩
          · intro c hc
            exact startable hr (hbroker.permitted brokerProtocol_sound hthread trivial c hc)
          · exact started_once hnext
          · exact hperform

/-- Where nobody certifies steps, any number of workers, crashing at any point and taking over
from one another, start the handlers of a queued task in the order of its plan, each of them at
most once; all of them, if the task has been completed. -/
theorem plan_exactly_once (h : Reachable plannedRun s)
    (hrow : s.snap.state.db.queue.get? taskId = some row) :
    (startsOf taskId s.snap.log).map ToolCall.part <+: row.plan.parts ∧
      ((s.snap.state.db.view taskId).status = some .completed →
        (startsOf taskId s.snap.log).map ToolCall.part = row.plan.parts) := by
  have hs := in_order h
  have hlength : row.plan.parts.length = row.plan.actions.length := List.length_mapIdx
  have hpart {index : ℕ} {c : ToolCall} (hc : (startsOf taskId s.snap.log)[index]? = some c) :
      row.plan.parts[index]? = some c.part :=
    (hs.started taskId row index c hrow hc).1.part
  have hbegins : (startsOf taskId s.snap.log).map ToolCall.part <+: row.plan.parts := by
    apply List.prefix_iff_getElem?.mpr
    intro index hindex
    rw [List.length_map] at hindex
    rw [List.getElem_map]
    exact hpart (List.getElem?_eq_getElem hindex)
  refine ⟨hbegins, fun hcompleted => hbegins.eq_of_length_le ?_⟩
  rw [hlength, List.length_map]
  -- the last action was done, so it was started
  rcases Nat.eq_zero_or_pos row.plan.actions.length with hzero | hpos
  · omega
  · obtain ⟨step, hstep, hstate⟩ := hs.completed taskId row hrow hcompleted
      (row.plan.actions.length - 1) (by omega)
    obtain ⟨pid, c, reply, hmem, htask, hsame⟩ := hs.ran taskId step.stepId step
      (actionStep_iff.mp hstep).2 hstate
    obtain ⟨i, hi⟩ := List.mem_iff_getElem?.mp (mem_startsOf.mpr ⟨htask, pid, reply, hmem⟩)
    have hplace := records_unique (hs.started taskId row i c hrow hi).2 hstep hsame.symm
    have hbound := (List.getElem?_eq_some_iff.mp hi).1
    omega

end Runs

/-- Whether the request is any but the use of a certificate. -/
def Request.isPlain : Request → Bool
  | .reconcileStep .. => false
  | _ => true

theorem Request.plain_of_isPlain {r : Request} (h : r.isPlain = true) : r.Plain := by
  rintro taskId stepId artifactId actor rfl
  cases h

section Overtaken

local instance overtakenPlatform : Platform := .reference []

namespace Sample

/-- Two actions that write alike. -/
def twice : ExecutionPlan where
  actions := [action "write" write_named, action "write" write_named]
  acceptance := .default
  nonempty := by decide
  bounded := by decide

def worker (id : String) : Worker :=
  ⟨id, 10, fun _ => .ok (broker "never")⟩

/-- A worker dies after the first action of two. -/
def halfway : System ledgerMachine :=
  ((((fresh []).script [(moment 0 "", .submit task twice)]).started (run (worker "first") 1)).driven 1
    (List.replicate 34 (answering 0 "one" [("ok", .bool true)]))).crashed 1

/-- Another one takes over when its lease has run out. -/
def overtaken : System ledgerMachine :=
  (halfway.started (run (worker "second") 1)).driven 2
    (List.replicate 80 (answering 20 "other" [("ok", .bool true)]))

theorem driven_plainly {s : System ledgerMachine} {pid : ℕ} {envs : List Surroundings}
    (h : s.drivenPasses (fun _ r _ => r.isPlain) pid envs = true) :
    Steps plannedRun s (s.driven pid envs) :=
  Steps.drivenAdmitted (fun _ _ _ _ h => Request.plain_of_isPlain h) h

theorem length_driven (s : System ledgerMachine) (pid : ℕ) (envs : List Surroundings) :
    (s.driven pid envs).threads.length = s.threads.length := by
  induction envs generalizing s with
  | nil => rfl
  | cons env rest ih =>
      unfold System.driven
      split
      · rw [ih, List.length_set]
      · rfl

theorem submitted_reachable :
    Reachable plannedRun ((fresh []).script [(moment 0 "", .submit task twice)]) := by
  have hstart : Reachable plannedRun (fresh []) := .start _ rfl
  apply hstart.steps
  apply Steps.script
  · simp only [List.forall_mem_singleton]
    exact .inr ⟨trivial, fun _ => trivial⟩
  · simp only [List.forall_mem_singleton]
    exact fun _ _ _ _ _ _ => by simp

/-- What can be read off these runs. -/
theorem takeover_observed :
    (((fresh []).script [(moment 0 "", .submit task twice)]).started
        (run (worker "first") 1)).drivenPasses (fun _ r _ => r.isPlain) 1
      (List.replicate 34 (answering 0 "one" [("ok", .bool true)])) = true ∧
    (halfway.started (run (worker "second") 1)).drivenPasses (fun _ r _ => r.isPlain) 2
      (List.replicate 80 (answering 20 "other" [("ok", .bool true)])) = true ∧
    (overtaken.snap.state.db.queue.get? "task").isSome = true ∧
    (overtaken.snap.state.db.view "task").status = some .completed ∧
    (startsOf "task" overtaken.snap.log).length = 2 := by
  decide +kernel

theorem halfway_reachable : Reachable plannedRun halfway := by
  have hworker := submitted_reachable.step (.spawn _ (run (worker "first") 1) (.inl ⟨worker "first", 1, rfl⟩))
  unfold halfway
  refine Reachable.step (hworker.steps (driven_plainly takeover_observed.1)) (.crashed ?_)
  rw [length_driven]
  exact Nat.lt_of_sub_eq_succ rfl

theorem overtaken_reachable : Reachable plannedRun overtaken := by
  have hworker := halfway_reachable.step
    (.spawn _ (run (worker "second") 1) (.inl ⟨worker "second", 1, rfl⟩))
  unfold overtaken
  exact hworker.steps (driven_plainly takeover_observed.2.1)

end Sample

/-- A second worker runs the second action and no other. -/
theorem plan_exactly_once_overtaken :
    ∃ row, Sample.overtaken.snap.state.db.queue.get? "task" = some row ∧
      (startsOf "task" Sample.overtaken.snap.log).map ToolCall.part = row.plan.parts ∧
      (startsOf "task" Sample.overtaken.snap.log).length = 2 := by
  obtain ⟨-, -, hqueued, hcompleted, hlength⟩ := Sample.takeover_observed
  obtain ⟨row, hrow⟩ := Option.isSome_iff_exists.mp hqueued
  exact ⟨row, hrow, (plan_exactly_once Sample.overtaken_reachable hrow).2 hcompleted, hlength⟩

end Overtaken

end Dante
