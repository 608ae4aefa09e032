import Mathlib
import Dante.Verification.Audit
import Dante.Verification.Journal

/-! # When the audit trail explains step states

Every change of a step is logged in the commit that makes it. `mark_uncertain` also logs when
it changed nothing, and only then does the trail tell another story than the journal. -/

namespace Dante

open JsonText Relational Concurrent Audit

/-! ## Replaying the events of one step -/

/-- A metadata field that holds a text. -/
def TaskEvent.text (e : TaskEvent) (key : String) : Option String :=
  match e.metadata.lookup key with
  | some (.str s) => some s
  | _ => none

/-- The state of a step after an event of its task. -/
def replayStep (stepId : String) (state : Option StepState) (e : TaskEvent) : Option StepState :=
  if e.event = "worker.recovered" then
    state.map (fun s => if s = .started then .uncertain else s)
  else if e.text "step_id" = some stepId then
    if e.event = "step.intent" then some .intent
    else if e.event = "step.started" then some .started
    else if e.event = "step.succeeded" then some .succeeded
    else if e.event = "step.uncertain" then some .uncertain
    else if e.event = "step.reconciled" then
      if e.text "outcome" = some "applied" then some .succeeded else some .intent
    else state
  else state

/-- The events of a task, in order of their ids. -/
def Database.taskEvents (db : Database) (taskId : String) : List TaskEvent :=
  db.events.filter (fun e => e.taskId == taskId)

/-- The stored state of a step. -/
def Database.stepState (db : Database) (taskId stepId : String) : Option StepState :=
  (db.stepNamed taskId stepId).map StepRecord.state

/-- The event doubts the step. -/
def TaskEvent.Doubts (stepId : String) (e : TaskEvent) : Prop :=
  e.event = "step.uncertain" ∧ e.text "step_id" = some stepId

/-- An event that does to a step what it says: doubt is cast on started steps only. -/
def StepMove (stepId : String) (state : Option StepState) (e : TaskEvent)
    (state' : Option StepState) : Prop :=
  replayStep stepId state e = state' ∧ (e.Doubts stepId → state = some .started)

/-- Replaying a task's events yields the stored state of its steps, and no step was doubted that
had not been started. -/
def Database.StepsAudited (db : Database) : Prop :=
  ∀ taskId stepId, (db.taskEvents taskId).foldl (replayStep stepId) none =
      db.stepState taskId stepId ∧
    ∀ before e after, db.taskEvents taskId = before ++ e :: after → e.Doubts stepId →
      before.foldl (replayStep stepId) none = some .started

variable {db db' mid : Database} {taskId stepId : String} {w w' : World}

/-- The events that `db'` has beyond `db` account for the change of one step. -/
def Database.StepAccounts (db : Database) (taskId stepId : String) (db' : Database) : Prop :=
  Extends (StepMove stepId) (db.taskEvents taskId) (db'.taskEvents taskId)
    (db.stepState taskId stepId) (db'.stepState taskId stepId)

/-- A trail all of whose events are true to the step is an audit of it, and conversely. -/
theorem stepsAudited_iff : db.StepsAudited ↔ ∀ taskId stepId,
    Replay (StepMove stepId) none (db.taskEvents taskId) (db.stepState taskId stepId) := by
  constructor
  · intro h taskId stepId
    obtain ⟨hfold, hdoubts⟩ := h taskId stepId
    rw [← hfold]
    generalize db.taskEvents taskId = events at hdoubts
    clear hfold h
    induction events using List.reverseRecOn with
    | nil => exact .nil none
    | append_singleton before e ih =>
        have hbefore := ih fun b x after hsplit =>
          hdoubts b x (after ++ [e]) (by rw [hsplit]; simp)
        refine hbefore.append (.single ⟨by simp, hdoubts before e [] rfl⟩)
  · intro h taskId stepId
    have hpath := h taskId stepId
    refine ⟨hpath.foldl_eq fun hmove => hmove.1, fun before e after hsplit hdoubt => ?_⟩
    rw [hsplit] at hpath
    obtain ⟨m, hbefore, hrest⟩ := hpath.split
    cases hrest with
    | cons hmove _ =>
        rw [hbefore.foldl_eq fun hmove => hmove.1]
        exact hmove.2 hdoubt

/-! ## Events that leave a step alone -/

/-- The names of the events that speak of steps. -/
def stepReports : List String :=
  ["worker.recovered", "step.intent", "step.started", "step.succeeded", "step.uncertain",
    "step.reconciled"]

theorem stepMove_quiet {e : TaskEvent} (h : e.event ∉ stepReports) (state : Option StepState) :
    StepMove stepId state e state := by
  simp only [stepReports, List.mem_cons, List.not_mem_nil, or_false, not_or] at h
  obtain ⟨h₁, h₂, h₃, h₄, h₅, h₆⟩ := h
  refine ⟨?_, fun hdoubt => absurd hdoubt.1 h₅⟩
  simp only [replayStep, if_neg h₁, if_neg h₂, if_neg h₃, if_neg h₄, if_neg h₅, if_neg h₆,
    ite_self]

/-- An event about another step of the task. -/
theorem stepMove_other {e : TaskEvent} (hname : e.event ≠ "worker.recovered")
    (h : e.text "step_id" ≠ some stepId) (state : Option StepState) :
    StepMove stepId state e state :=
  ⟨by rw [replayStep, if_neg hname, if_neg h], fun hdoubt => absurd hdoubt.2 h⟩

theorem replay_quiet {new : List TaskEvent} (h : ∀ e ∈ new, e.event ∉ stepReports)
    (state : Option StepState) : Replay (StepMove stepId) state new state := by
  induction new with
  | nil => exact .nil state
  | cons e rest ih =>
      rw [List.forall_mem_cons] at h
      exact .cons (stepMove_quiet h.1 state) (ih h.2)

theorem taskEvents_append {new : List TaskEvent} (h : db'.events = db.events ++ new) :
    db'.taskEvents taskId = db.taskEvents taskId ++ new.filter (fun e => e.taskId == taskId) := by
  rw [Database.taskEvents, h, List.filter_append, Database.taskEvents]

/-- Commits that keep the steps and log other events. -/
theorem stepAccounts_quiet (names : List String) (hquiet : ∀ name ∈ names, name ∉ stepReports)
    (hlogs : db.LogsOnly names db')
    (hsame : db'.stepState taskId stepId = db.stepState taskId stepId) :
    db.StepAccounts taskId stepId db' := by
  obtain ⟨new, hnew, hnames⟩ := hlogs
  refine ⟨_, taskEvents_append hnew, ?_⟩
  rw [hsame]
  apply replay_quiet
  intro e he
  exact hquiet _ (hnames e (List.mem_of_mem_filter he))

/-- One event, of another task or true to the step. -/
theorem stepAccounts_event {e : TaskEvent} (hevents : db'.events = db.events ++ [e])
    (hother : e.taskId ≠ taskId → db'.stepState taskId stepId = db.stepState taskId stepId)
    (hmove : e.taskId = taskId →
      StepMove stepId (db.stepState taskId stepId) e (db'.stepState taskId stepId)) :
    db.StepAccounts taskId stepId db' := by
  by_cases hid : e.taskId = taskId
  · exact ⟨[e], by simp [taskEvents_append hevents, hid], .single (hmove hid)⟩
  · refine Extends.of_eq ?_ (hother hid)
    simp [taskEvents_append hevents, hid]

/-! ## Updates of the journal -/

theorem stepState_updateSteps (p : StepRecord → Bool) (f : StepRecord → StepRecord)
    (hf : KeepsKey f) :
    (db.updateSteps p f hf).stepState taskId stepId =
      (db.stepNamed taskId stepId).map (fun s => if p s then (f s).state else s.state) := by
  rw [Database.stepState, Database.stepNamed, find_updateSteps, Option.map_map,
    Database.stepNamed]
  congr 1
  funext s
  simp only [Function.comp_apply]
  split <;> rfl

/-- An update under a state test of one step moves that step, if it is in the state. -/
theorem stepState_updateSteps_namedIn {task step : String} {state target : StepState}
    {f : StepRecord → StepRecord} (hf : KeepsKey f) (hstate : ∀ s, (f s).state = target) :
    (db.updateSteps (StepRecord.namedIn task step state) f hf).stepState taskId stepId =
      if task = taskId ∧ step = stepId ∧ db.stepState taskId stepId = some state then some target
      else db.stepState taskId stepId := by
  rw [stepState_updateSteps, Database.stepState]
  cases hfind : db.stepNamed taskId stepId with
  | none => simp
  | some s =>
      simp only [Option.map_some, Option.some.injEq]
      by_cases hp : s.namedIn task step state = true
      · obtain ⟨hsame, hs⟩ := (namedIn_eq (named_of_find hfind)).mp hp
        rw [if_pos hp, if_pos ⟨hsame.1, hsame.2, hs⟩, hstate]
      · rw [if_neg hp, if_neg]
        rintro ⟨rfl, rfl, hs⟩
        exact hp ((namedIn_eq (named_of_find hfind)).mpr ⟨⟨rfl, rfl⟩, hs⟩)

theorem stepState_expireSteps (id : String) :
    (db.expireSteps id).stepState taskId stepId =
      if id = taskId then
        (db.stepState taskId stepId).map (fun s => if s = .started then .uncertain else s)
      else db.stepState taskId stepId := by
  rw [Database.expireSteps, stepState_updateSteps, Database.stepState]
  cases hfind : db.stepNamed taskId stepId with
  | none => simp
  | some s =>
      have hid := (named_of_find hfind).1
      by_cases hsame : id = taskId
      · simp [hid, hsame]
      · simp [hid, hsame, Ne.symm hsame]

theorem stepState_congr (h : db'.steps = db.steps) :
    db'.stepState taskId stepId = db.stepState taskId stepId := by
  rw [Database.stepState, Database.stepNamed, h, Database.stepState, Database.stepNamed]

/-! ## Each operation -/

/-- `worker.recovered` says what recovery did to the started steps of the task. -/
theorem recoverRow_stepAccounts {queued : QueueRow} (h : recoverRow queued db = .ok db') :
    db.StepAccounts taskId stepId db' := by
  have hsteps := recoverRow_steps h
  obtain ⟨row, task, mid, logged, -, hcancel, hlogged, rfl⟩ := recoverRow_ok h
  obtain ⟨new, hnew, hnames⟩ := hcancel.logs (List.mem_singleton.mpr rfl)
  have hevents : mid.events = db.events ++ new := hnew
  have hstate : ((mid.updateQueue queued.taskId (fun r => { r with
        state := if task.status.terminal then .done else .ready
        leaseExpiresAt := none
        nextAttemptAt := max r.nextAttemptAt (db.resumeAt queued.taskId) })
      (fun _ => rfl)).log logged).stepState
          taskId stepId = (db.expireSteps queued.taskId).stepState taskId stepId :=
    stepState_congr hsteps
  have hmid : db.StepAccounts taskId stepId
      { mid with steps := db.steps } := by
    apply stepAccounts_quiet ["task.transition"]
    · simp [stepReports]
    · exact ⟨new, hevents, hnames⟩
    · rfl
  refine Extends.trans hmid (stepAccounts_event (e := logged) rfl ?_ ?_)
  · intro hother
    rw [hlogged.1] at hother
    rw [hstate, stepState_expireSteps, if_neg hother]
    rfl
  · intro hid
    rw [hlogged.1] at hid
    rw [hstate, stepState_expireSteps, if_pos hid]
    refine ⟨by rw [replayStep, if_pos hlogged.2]; rfl, fun hdoubt => ?_⟩
    have hname := hdoubt.1
    rw [hlogged.2] at hname
    simp at hname

theorem recoverRows_stepAccounts {rows : List QueueRow}
    (h : rows.foldlM (fun db row => recoverRow row db) db = .ok db') :
    db.StepAccounts taskId stepId db' := by
  induction rows generalizing db with
  | nil =>
      cases h
      exact Extends.refl _ _
  | cons row rest ih =>
      simp only [List.foldlM_cons, Except.bind_eq_ok] at h
      obtain ⟨next, hnext, hrest⟩ := h
      exact Extends.trans (recoverRow_stepAccounts hnext) (ih hrest)

/-- A commit that moved one step from a tested state, and logged it. -/
theorem moved_stepAccounts {task step : String} (state target : StepState)
    {f : StepRecord → StepRecord} (hf : KeepsKey f) (hstate : ∀ s, (f s).state = target)
    {e : TaskEvent} (hid : e.taskId = task) (hstep : e.text "step_id" = some step)
    (hfound : db.stepState task step = some state)
    (hreplay : replayStep step (some state) e = some target)
    (hdoubt : e.event = "step.uncertain" → state = .started)
    (hname : e.event ≠ "worker.recovered") :
    db.StepAccounts taskId stepId
      ((db.updateSteps (StepRecord.namedIn task step state) f hf).log e) := by
  have hafter : ((db.updateSteps (StepRecord.namedIn task step state) f hf).log e).stepState
      taskId stepId = _ := stepState_updateSteps_namedIn hf hstate
  apply stepAccounts_event (e := e) rfl
  · intro hother
    rw [hid] at hother
    rw [hafter, if_neg fun hsame => hother hsame.1]
  · intro hsame
    rw [hid] at hsame
    subst hsame
    rw [hafter]
    by_cases hone : step = stepId
    · subst hone
      rw [if_pos ⟨rfl, rfl, hfound⟩, hfound]
      exact ⟨hreplay, fun h => congrArg some (hdoubt h.1)⟩
    · rw [if_neg fun hsame => hone hsame.2.1]
      apply stepMove_other hname
      rw [hstep]
      simpa using hone

theorem stepState_of_namedIn {task step : String} {state : StepState} {s : StepRecord}
    (h : db.steps.find (StepRecord.namedIn task step state) = some s) :
    db.stepState task step = some state := by
  have hp := Table.pred_of_find h
  simp only [StepRecord.namedIn, Bool.and_eq_true, beq_iff_eq] at hp
  have hrow : db.stepNamed task step = some s :=
    (Table.find_eq_some_iff (StepRecord.named_determines task step)).mpr
      ⟨Table.mem_of_find h, hp.1⟩
  rw [Database.stepState, hrow, Option.map_some, hp.2]

section Runs

variable [Platform]

theorem claimStep_stepAccounts {owner : Option Lease} {task step : String} {now : ℚ}
    {fs : FileSystem} {u : Unit} (h : claimStep owner task step now fs db = .ok (u, db')) :
    db.StepAccounts taskId stepId db' := by
  obtain ⟨row, found, hrow, -, -, hfound, -, rfl⟩ := claimStep_ok h
  have hid : row.payload.taskId = task := Table.primary_of_get? hrow
  refine moved_stepAccounts .intent .started ?_ (fun _ => rfl) hid rfl
    (stepState_of_namedIn hfound) ?_ ?_ ?_
  · simp [replayStep, TaskEvent.text]
  · simp
  · simp

theorem finishStep_stepAccounts {owner : Option Lease} {task step : String} {safe : Dict Json}
    {now : ℚ} {u : Unit} (h : finishStep owner task step safe now db = .ok (u, db')) :
    db.StepAccounts taskId stepId db' := by
  obtain ⟨row, found, safeDigest, hrow, -, -, -, hfound, rfl⟩ := finishStep_ok h
  have hid : row.payload.taskId = task := Table.primary_of_get? hrow
  refine moved_stepAccounts .started .succeeded ?_ (fun _ => rfl) hid rfl
    (stepState_of_namedIn hfound) ?_ ?_ ?_
  · simp [replayStep, TaskEvent.text]
  · simp
  · simp

omit [Platform] in
/-- `mark_uncertain` tells the truth of a step that was started. -/
theorem markUncertain_stepAccounts {owner : Option Lease} {task step errorType : String} {now : ℚ}
    {u : Unit} (h : markUncertain owner task step errorType now db = .ok (u, db'))
    (hstarted : db.stepState task step = some .started) : db.StepAccounts taskId stepId db' := by
  obtain ⟨row, hrow, -, -, rfl⟩ := markUncertain_ok h
  have hid : row.payload.taskId = task := Table.primary_of_get? hrow
  refine moved_stepAccounts .started .uncertain ?_ (fun _ => rfl) hid rfl
    hstarted ?_ ?_ ?_
  · simp [replayStep, TaskEvent.text]
  · simp
  · simp

theorem prepareStep_stepAccounts {owner : Option Lease} {task toolId toolVersion newId : String}
    {arguments : Dict Json} {idempotencyKey : Option String} {clock : ℕ → ℚ} {answer : Prepared}
    (h : prepareStep owner task toolId toolVersion arguments idempotencyKey clock newId db
      = .ok (answer, db')) : db.StepAccounts taskId stepId db' := by
  obtain ⟨argsDigest, key, row, -, -, hrow, -, -, ⟨_, -, rfl, -⟩ | ⟨-, hnew⟩⟩ := prepareStep_ok h
  · exact Extends.refl _ _
  · obtain ⟨steps, hinsert, rfl⟩ := hnew.inserted
    have hid : row.payload.taskId = task := Table.primary_of_get? hrow
    have hfind : steps.find (StepRecord.named taskId stepId) =
        (db.steps.find (StepRecord.named taskId stepId)).or
          (if task = taskId ∧ newId = stepId then
            some (.prepared newId task toolId toolVersion argsDigest key (clock 1)) else none) := by
      rw [Table.find_insert hinsert]
      simp [StepRecord.named, StepRecord.prepared]
    refine stepAccounts_event rfl (fun hother => ?_) fun hsame => ?_
    · have hne : task ≠ taskId := fun heq => hother (hid.trans heq)
      rw [if_neg fun hsame => hne hsame.1, Option.or_none] at hfind
      exact congrArg (Option.map StepRecord.state) hfind
    · have htask : task = taskId := hid.symm.trans hsame
      by_cases hstep : newId = stepId
      · have hfree : db.steps.find (StepRecord.named taskId stepId) = none := by
          rw [Table.find_eq_none_iff]
          intro a ha
          have hclash := (Table.insert_eq_some_iff.mp hinsert).1 a ha
          by_contra hnamed
          simp only [Bool.not_eq_false, StepRecord.named, Bool.and_eq_true, beq_iff_eq] at hnamed
          simp [clashes, Row.clash, Row.key, StepRecord.prepared, hnamed.2, hstep] at hclash
        rw [hfree, if_pos ⟨htask, hstep⟩, Option.none_or] at hfind
        refine ⟨?_, fun hdoubt => ?_⟩
        · have hafter := congrArg (Option.map StepRecord.state) hfind
          refine Eq.trans ?_ hafter.symm
          simp [replayStep, TaskEvent.text, hstep, StepRecord.prepared]
        · have hname := hdoubt.1
          simp at hname
      · rw [if_neg fun hsame => hstep hsame.2, Option.or_none] at hfind
        have hafter := congrArg (Option.map StepRecord.state) hfind
        refine ⟨?_, fun hdoubt => ?_⟩
        · refine Eq.trans ?_ hafter.symm
          simp [replayStep, TaskEvent.text, hstep, Database.stepState, Database.stepNamed]
        · have hname := hdoubt.1
          simp at hname

theorem reconcileStep_stepAccounts {task step artifactId actor : String} {outcome : Outcome}
    {fs : FileSystem} (h : reconcileStep task step artifactId actor fs db = .ok (outcome, db')) :
    db.StepAccounts taskId stepId db' := by
  obtain ⟨row, found, evidence, f, hf, hrow, -, hfound, -, -, rfl⟩ := reconcileStep_ok h
  have hid : row.payload.taskId = task := Table.primary_of_get? hrow
  have hnamed := named_of_find hfound
  have hafter : ((db.updateSteps (fun s => s.stepId == step) f hf.keepsKey).event row.payload
      "step.reconciled" (some row.payload.status) [("step_id", .str step),
        ("artifact_id", .str artifactId), ("actor", .str actor),
        ("outcome", .str outcome.value)]).stepState taskId stepId = _ :=
    stepState_updateSteps _ f hf.keepsKey
  -- a step with the same id is the same row
  have hkept (hother : ¬(task = taskId ∧ step = stepId)) :
      (db.stepNamed taskId stepId).map (fun s => if s.stepId == step then (f s).state else s.state)
        = db.stepState taskId stepId := by
    rw [Database.stepState]
    cases hrow' : db.stepNamed taskId stepId with
    | none => rfl
    | some s =>
        have hs := named_of_find hrow'
        rw [Option.map_some, if_neg, Option.map_some]
        intro hp
        have heq := Table.eq_of_determines (sameId_determines step) (Table.mem_of_find hfound)
          (Table.mem_of_find hrow') (by simp [hnamed.2]) hp
        subst heq
        exact hother ⟨hnamed.1.symm.trans hs.1, hnamed.2.symm.trans hs.2⟩
  refine stepAccounts_event rfl (fun hother => ?_) fun hsame => ?_
  · rw [hafter, hkept fun hboth => hother (hid.trans hboth.1)]
  · have htask : task = taskId := hid.symm.trans hsame
    rw [hafter]
    by_cases hstep : step = stepId
    · subst htask hstep
      have hrow' : db.stepNamed task step = some found := hfound
      rw [Database.stepState, hrow', Option.map_some, Option.map_some, if_pos (by simp [hnamed.2])]
      refine ⟨?_, fun hdoubt => ?_⟩
      · cases hf <;> simp [replayStep, TaskEvent.text, Outcome.value, List.lookup]
      · have hname := hdoubt.1
        simp at hname
    · rw [hkept fun hboth => hstep hboth.2]
      apply stepMove_other
      · simp
      · simpa [TaskEvent.text] using hstep

/-! ## Every request -/

omit [Platform] in
theorem commit_stepAccounts {α : Type} {x : Except Exn (α × Database)} {reply : Except Exn α}
    (h : w.commit x = (reply, w'))
    (hx : ∀ a db', x = .ok (a, db') → reply = .ok a → w.db.StepAccounts taskId stepId db') :
    w.db.StepAccounts taskId stepId w'.db := by
  rcases commit_cases h with ⟨a, db', ha, hreply, rfl⟩ | ⟨-, -, -, rfl⟩
  · exact hx a db' ha hreply
  · exact Extends.refl _ _

/-- A doubt that was recorded is one about a started step. -/
def Database.Honest (db : Database) : (r : Request) → Except Exn r.Reply → Prop
  | .markUncertain _ taskId stepId _, .ok _ => db.stepState taskId stepId = some .started
  | _, _ => True

/-- Every request accounts for what it does to a step, unless it records a doubt without one. -/
theorem perform_stepAccounts {env : Surroundings} {r : Request} {reply : Except Exn r.Reply}
    (h : perform env r w = (reply, w')) (hhonest : w.db.Honest r reply)
    (taskId stepId : String) : w.db.StepAccounts taskId stepId w'.db := by
  have hlogs := perform_logs h
  cases r with
  | prepareStep => exact commit_stepAccounts h fun _ _ hx _ => prepareStep_stepAccounts hx
  | claimStep => exact commit_stepAccounts h fun _ _ hx _ => claimStep_stepAccounts hx
  | finishStep => exact commit_stepAccounts h fun _ _ hx _ => finishStep_stepAccounts hx
  | markUncertain =>
      refine commit_stepAccounts h fun _ _ hx hreply => ?_
      subst hreply
      exact markUncertain_stepAccounts hx hhonest
  | reconcileStep => exact commit_stepAccounts h fun _ _ hx _ => reconcileStep_stepAccounts hx
  | recoverExpired =>
      exact commit_stepAccounts h fun _ _ hx _ => recoverRows_stepAccounts (recoverExpired_ok hx)
  | _ =>
      refine stepAccounts_quiet _ ?_ hlogs (stepState_congr ?_)
      · simp [stepReports, Request.reports]
      · exact perform_writes h .steps (by simp [Request.writes])

omit [Platform] in
theorem World.Drift.stepAccounts (h : w.Drift w') (taskId stepId : String) :
    w.db.StepAccounts taskId stepId w'.db := by
  obtain ⟨rows, logged, hdb, hnames⟩ := h.continuity
  rw [hdb]
  refine ⟨_, taskEvents_append rfl, replay_quiet ?_ _⟩
  intro e he
  obtain ⟨suffix, hname⟩ := hnames e (List.mem_of_mem_filter he)
  have hne (name : String) (hhead : name.toList.head? ≠ some 'c') : e.event ≠ name :=
    hname ▸ continuity_ne hhead
  simp only [stepReports, List.mem_cons, List.not_mem_nil, or_false, not_or]
  refine ⟨hne _ ?_, hne _ ?_, hne _ ?_, hne _ ?_, hne _ ?_, hne _ ?_⟩
  all_goals decide

omit [Platform] in
theorem stepsAudited_of_accounts (h : db.StepsAudited)
    (haccounts : ∀ taskId stepId, db.StepAccounts taskId stepId db') : db'.StepsAudited := by
  rw [stepsAudited_iff] at h ⊢
  intro taskId stepId
  exact (haccounts taskId stepId).replay (h taskId stepId)

omit [Platform] in
/-- A doubt recorded without a started step is never forgotten by the trail. -/
theorem doubted_started {task step : String} {e : TaskEvent}
    (hevents : db'.events = db.events ++ [e]) (hid : e.taskId = task) (hdoubt : e.Doubts step)
    (hdb : db.StepsAudited) (hdb' : db'.StepsAudited) :
    db.stepState task step = some .started := by
  rw [← (hdb task step).1]
  refine (hdb' task step).2 _ e [] ?_ hdoubt
  simp [taskEvents_append hevents, hid]

/-- One request keeps the trail true exactly when it is honest. -/
theorem perform_stepsAudited {env : Surroundings} {r : Request} {reply : Except Exn r.Reply}
    (h : perform env r w = (reply, w')) (hw : w.db.StepsAudited) :
    w'.db.StepsAudited ↔ w.db.Honest r reply := by
  constructor
  · intro hw'
    unfold Database.Honest
    split
    next heq =>
      obtain ⟨db', hx, rfl⟩ := commit_ok h
      obtain ⟨row, hrow, -, -, rfl⟩ := markUncertain_ok hx
      exact doubted_started rfl (Table.primary_of_get? hrow) ⟨rfl, rfl⟩ hw hw'
    next => trivial
  · exact fun hhonest => stepsAudited_of_accounts hw (perform_stepAccounts h hhonest)

/-! ## Whole runs -/

/-- The step records no doubt about a step that is not started. -/
def Honest (s s' : System ledgerMachine) : Prop :=
  ∀ pid r reply, s'.snap.log = s.snap.log ++ [.call pid r reply] →
    s.snap.state.db.Honest r reply

/-- Runs of any programs that record no such doubt. -/
abbrev HonestSteps : System ledgerMachine → System ledgerMachine → Prop :=
  Relation.ReflTransGen (fun s s' => Step anyRun s s' ∧ Honest s s')

theorem step_audited {s s' : System ledgerMachine} (h : Step anyRun s s')
    (hs : s.snap.state.db.StepsAudited) : s'.snap.state.db.StepsAudited ↔ Honest s s' := by
  have hquiet (e : Event Request.Reply Exn) (he : ∀ pid r reply, e ≠ .call pid r reply)
      (hlog : s'.snap.log = s.snap.log ++ [e]) : Honest s s' := by
    intro pid r reply hcall
    have hevent := List.append_cancel_left (hlog.symm.trans hcall)
    exact absurd (List.singleton_inj.mp hevent) (he pid r reply)
  cases h with
  | spawn p hp =>
      exact iff_of_true hs (hquiet _ (fun _ _ _ he => by cases he) rfl)
  | crash pid hpid =>
      exact iff_of_true hs (hquiet _ (fun _ _ _ he => by cases he) rfl)
  | drift state hdrift =>
      refine iff_of_true (stepsAudited_of_accounts hs hdrift.stepAccounts) ?_
      intro pid r reply hcall
      have hlength := congrArg List.length hcall
      simp at hlength
  | call pid r next env reply state hthread ha hperform =>
      have hiff := perform_stepsAudited hperform hs
      constructor
      · intro haudited pid' r' reply' hcall
        have hevent := List.append_cancel_left hcall
        simp only [List.cons.injEq, Event.call.injEq, and_true] at hevent
        obtain ⟨-, rfl, hreply⟩ := hevent
        cases hreply
        exact hiff.mp haudited
      · exact fun hhonest => hiff.mpr (hhonest pid r reply rfl)

/-- In every run that records no doubt about a step that is not started, the trail of a task
reconstructs the state of each of its steps; and the first step of a run that records one
leaves a trail that does not. -/
theorem steps_audited {w : World} (hw : w.Fresh) {s : System ledgerMachine}
    (h : HonestSteps ⟨⟨w, []⟩, []⟩ s) :
    s.snap.state.db.StepsAudited ∧
      ∀ s', Step anyRun s s' → (s'.snap.state.db.StepsAudited ↔ Honest s s') := by
  have haudited : s.snap.state.db.StepsAudited := by
    induction h with
    | refl =>
        have hempty : w.db = .empty := hw
        rw [hempty]
        intro taskId stepId
        refine ⟨rfl, fun before e after hsplit => ?_⟩
        simp [Database.taskEvents, Database.empty] at hsplit
    | tail _ hstep ih => exact (step_audited hstep.1 ih).mpr hstep.2
  exact ⟨haudited, fun s' hstep => step_audited hstep haudited⟩

end Runs

section Interrupted

local instance stepTrailInterrupted : Platform := .reference []

/-- The owner of the first lease runs one tool. -/
def Sample.leasedInvocation : Prog Unit :=
  (Programs.invoke (broker "never") (some ⟨"task", "first", 1⟩) task "write" [] none "plan"
    none).bind fun _ => .ret ()

/-- Until the tool's step is prepared. -/
def Sample.preparing : System ledgerMachine :=
  (((Sample.fresh []).script claimed).started leasedInvocation).driven 2
    (List.replicate 5 (moment 1 "step"))

/-- The cancellation comes just before the step is claimed: `claim_step` raises, and `invoke`
marks the step that it has prepared. -/
def Sample.interrupted : System ledgerMachine :=
  (preparing.asked (moment 2 "") (.cancel "task")).driven 2 (List.replicate 2 (moment 3 ""))

theorem Sample.preparing_reachable : Reachable anyRun Sample.preparing :=
  ((Sample.reachable [] _).step (.spawn _ _ trivial)).steps
    (Steps.driven (fun _ _ _ => trivial) _ _ _)

theorem Sample.interrupted_reachable : Reachable anyRun Sample.interrupted :=
  (Sample.preparing_reachable.steps (.asked trivial (fun _ _ => trivial) _ _)).steps
    (Steps.driven (fun _ _ _ => trivial) _ _ _)

/-- The trail says that the step is uncertain; it is an intent. -/
theorem steps_misaudited :
    Reachable anyRun Sample.interrupted ∧ ¬Sample.interrupted.snap.state.db.StepsAudited := by
  refine ⟨Sample.interrupted_reachable, fun haudited => ?_⟩
  have hstored : Sample.interrupted.snap.state.db.stepState "task" "step" = some .intent := by
    decide +kernel
  have htrail : (Sample.interrupted.snap.state.db.taskEvents "task").foldl (replayStep "step")
      none = some .uncertain := by
    decide +kernel
  have hsame := (haudited "task" "step").1
  rw [hstored, htrail] at hsame
  cases hsame

end Interrupted

section Doubted

local instance stepTrailDoubted : Platform := .reference []

/-- A request that records no doubt, or one about a started step. -/
def Sample.sincere (w : World) : Request → Bool
  | .markUncertain _ taskId stepId _ => w.db.stepState taskId stepId == some .started
  | _ => true

theorem Sample.sincere_honest {s s' : System ledgerMachine}
    (h : Passes (fun w r _ => Sample.sincere w r) s s') : Honest s s' := by
  intro pid r reply hlog
  have htest := h pid r reply hlog
  unfold Database.Honest
  split
  next => simpa [Sample.sincere] using htest
  next => trivial

/-- A task is created, and runs one tool. -/
def Sample.attempt : Prog Unit := do
  let _ : Task ← ask (.createTask task none)
  let _ ← Programs.invoke (broker "never") none task "write" [] none "plan" none
  .ret ()

/-- The tool does not answer in time. -/
def Sample.late : System ledgerMachine :=
  ((Sample.fresh []).started attempt).driven 0 (List.replicate 12 (moment 0 "step"))

theorem steps_audited_late :
    (Sample.late.snap.state.db.taskEvents "task").foldl (replayStep "step") none =
      some .uncertain := by
  have hdriven : ((Sample.fresh []).started Sample.attempt).drivenPasses
      (fun w r _ => Sample.sincere w r) 0 (List.replicate 12 (Sample.moment 0 "step")) = true := by
    decide +kernel
  have hsteps : HonestSteps (Sample.fresh []) Sample.late := by
    refine .head ⟨.spawn _ Sample.attempt trivial, ?_⟩ ?_
    · exact Sample.sincere_honest (Passes.spawn _ _)
    · refine Relation.ReflTransGen.mono ?_ _ _
        (Steps.drivenPasses (R := anyRun) (fun _ _ _ => trivial) hdriven)
      exact fun s s' hstep => ⟨hstep.1, Sample.sincere_honest hstep.2⟩
  have hstored : Sample.late.snap.state.db.stepState "task" "step" = some .uncertain := by
    decide +kernel
  exact ((steps_audited (w := (Sample.fresh []).snap.state) rfl hsteps).1 "task" "step").1.trans hstored

end Doubted

end Dante
