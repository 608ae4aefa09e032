import Dante.Verification.PlannedAction

/-! # Workers over whole plans

Every program of a worker keeps the protocol of leases, whatever the others do. So does every
run of any number of workers. -/

namespace Dante

open JsonText Relational Concurrent Program Programs

variable [Platform] {α : Type} {s s' : Snapshot ledgerMachine} {pid : ℕ}
  {taskId stepId : String} {lease : Lease} {owner : Option Lease} {actions : List Action}
  {flying : String → Prop} {index : ℕ} {db : Database} {worker : Worker} {broker : ToolBroker}

/-! ## Programs that only look and move the status -/

omit [Platform] in
theorem stepVerifies_harmless (taskId stepId : String) :
    (stepVerifies taskId stepId).Uses (Request.Harmless lease) := by
  apply Uses.except
  · apply Uses.bind (verifiedStepResult_harmless taskId stepId)
    intro data
    trivial
  · intro e
    cases e <;> trivial

omit [Platform] in
theorem resumeScan_harmless (task : Task) (steps : List StepRecord) :
    (resumeScan (some lease) task steps).Uses (Request.Harmless lease) := by
  induction steps with
  | nil =>
      apply Uses.ite
      · exact fun _ => .call ⟨rfl, by decide, rfl⟩
      · exact fun _ => trivial
  | cons step rest ih =>
      apply Uses.ite
      · exact fun _ => ih
      · intro _
        apply Uses.bind (stepVerifies_harmless task.taskId step.stepId)
        intro verified
        apply Uses.ite
        · exact fun _ => ih
        · intro _
          apply Uses.ite
          · exact fun _ => .call ⟨rfl, by decide, rfl⟩
          · exact fun _ => trivial

omit [Platform] in
theorem resume_harmless (taskId : String) :
    (resume (some lease) taskId).Uses (Request.Harmless lease) := by
  apply Uses.bind (.call trivial)
  intro task
  apply Uses.bind (.call trivial)
  intro steps
  exact resumeScan_harmless task steps

omit [Platform] in
theorem resumeFailed_harmless (task : Task) :
    (resumeFailed (some lease) task).Uses (Request.Harmless lease) := by
  apply Uses.ite
  · intro _
    apply Uses.bind (resume_harmless task.taskId)
    intro resumed
    apply Uses.ite
    · exact fun _ => trivial
    · exact fun _ => trivial
  · exact fun _ => trivial

omit [Platform] in
theorem inspectEffects_harmless (taskId : String) (steps : List StepRecord) :
    (inspectEffects taskId steps).Uses (Request.Harmless lease) := by
  induction steps with
  | nil => trivial
  | cons step rest ih =>
      refine Uses.bind ?_ fun _ => ih
      apply Uses.ite
      · exact fun _ => trivial
      · intro _
        apply Uses.bind (verifiedStepResult_harmless taskId step.stepId)
        intro data
        trivial

omit [Platform] in
theorem verifyAcceptance_harmless (taskId : String) :
    (verifyAcceptance (some lease) taskId none none).Uses (Request.Harmless lease) := by
  have henter : (enterVerifying (some lease) taskId).Uses (Request.Harmless lease) := by
    apply Uses.bind (.call trivial)
    intro task
    apply Uses.ite
    · exact fun _ => trivial
    · intro _
      apply Uses.bind (.call ⟨rfl, by decide, rfl⟩)
      intro moved
      trivial
  apply Uses.bind henter
  intro _
  apply Uses.bind (.call trivial)
  intro result
  apply Uses.bind (.call trivial)
  intro task
  trivial

/-! ## The status under a lease -/

omit [Platform] in
theorem rowAt_determines (taskId : String) (revision : ℕ) :
    Determines fun row : TaskRow => row.payload.taskId == taskId && row.revision == revision := by
  intro a b ha hb
  simp only [Bool.and_eq_true] at ha hb
  exact Table.primary_determines taskId a b ha.1 hb.1

/-- A move that the status allows can only fail because the lease has run out. -/
theorem transition_lost {target : TaskStatus} {currentStep : Option String} {metadata : Dict Json}
    {clock : ℕ → ℚ} {fs : FileSystem} {row : TaskRow} {e : Exn} (hheld : db.HeldFor taskId owner)
    (hrow : db.tasks.get? taskId = some row) (hallowed : target ∈ transitions row.payload.status)
    (htarget : target ≠ .completed)
    (h : transition owner taskId target currentStep metadata clock fs db = .error e) :
    e = .leaseLost := by
  have hcount : db.tasks.count
      (fun r => r.payload.taskId == taskId && r.revision == row.revision) = 1 := by
    apply Table.count_of_find (rowAt_determines taskId row.revision) (r := row)
    apply (Table.find_eq_some_iff (rowAt_determines taskId row.revision)).mpr
    have hid : row.payload.taskId = taskId := Table.primary_of_get? hrow
    exact ⟨Table.mem_of_get? hrow, by simp [hid]⟩
  simp only [transition, whenever, htarget, decide_false, Bool.false_eq_true, if_false, hrow,
    orRaise, Except.bind_eq_error, reduceCtorEq, false_or] at h
  rcases h with h | ⟨_, -, _, -, _, hread, h⟩
  · exact requireLease_lost_held hheld h
  · cases hread
    split at h
    · cases h
    · simp only [List.contains_iff_mem.mpr hallowed, hcount, require, beq_self_eq_true, if_true] at h
      cases h

omit [Platform] in
theorem boundary_refused {now : ℚ} {e : Exn} (hheld : db.HeldFor taskId owner)
    (hqueued : ∃ row, db.queue.get? taskId = some row)
    (h : requireLease db now taskId true owner = .error e) :
    e = .leaseLost ∨ e = .cancellationRequested := by
  obtain ⟨row, hrow⟩ := hqueued
  obtain ⟨lease, expiresAt, howner, hrowheld, hexpiry⟩ := hheld row hrow
  have howned : row.ownedBy taskId owner = true :=
    (ownedBy_iff (taskId_of_get? hrow)).mpr ⟨lease, howner, hrowheld⟩
  simp only [requireLease, assertLease, hrow, howned, hexpiry, require, orRaise, if_true,
    Except.bind_eq_error, reduceCtorEq, false_or] at h
  rcases h with ⟨_, -, _, -, h | ⟨_, -, h | ⟨_, -, h⟩⟩⟩ | ⟨_, -, h⟩
  · split at h
    · cases h
    · cases h
      exact .inl rfl
  · split at h
    · cases h
    · cases h
      exact .inr rfl
  · cases h
  · cases h

theorem leased_queued (hleased : s.state.db.Leased lease) :
    ∃ row, s.state.db.queue.get? lease.taskId = some row := by
  obtain ⟨row, hrow, -⟩ := hleased
  exact ⟨row, hrow⟩

/-- The exception is a lost lease, if the lease is still current. -/
def Lost (lease : Lease) (e : Exn) (s : Snapshot ledgerMachine) : Prop :=
  s.state.db.Leased lease → e = .leaseLost

theorem AtWork.broken_of_lost {taken : Prop} {e : Exn}
    (h : AtWork pid lease actions taken flying index s) (hlost : Lost lease e s) :
    Broken pid lease actions e s where
  owns := h.owns
  queued := h.queued
  done _ _ hearlier := absurd hearlier (Nat.not_lt_zero _)
  begun hother hleased := absurd (hlost hleased) hother.1
  flights hleased _ _ := hlost hleased
  others := h.others

/-- The status that is read is that of the task, which has not been set to wait for approval. -/
theorem getTask_stands {taken : Prop} (hs : AtWork pid lease actions taken flying index s) :
    WorkSafe pid (ask (.getTask lease.taskId))
      (fun (task : Task) s => AtWork pid lease actions taken flying index s ∧
        Stands lease (· = task.status) s ∧ task.status ≠ .waitingApproval)
      (fun e s => AtWork pid lease actions taken flying index s ∧ Lost lease e s) s := by
  refine Safe.call fun s₀ hrely hinv hadmits => ?_
  have hwork := hs.rely hrely
  refine ⟨trivial, ?_, ?_⟩
  · intro env (task : Task) st hperform
    obtain ⟨row, hrow, hpayload⟩ := getTask_ok.mp (congrArg Prod.fst hperform)
    have hstatus : (s₀.state.db.view lease.taskId).status = some task.status := by
      simp [Database.view, hrow, hpayload]
    have hstands : Stands lease (· = task.status) s₀ := by
      intro _ status hother
      exact Option.some.inj (hother.symm.trans hstatus)
    refine ⟨hwork.call hadmits hperform trivial (by simp [Request.Onward]), ?_, ?_⟩
    · exact hstands.after hadmits hwork.owns hperform (by simp)
    · intro hwaiting
      obtain ⟨queued, hqueued, -⟩ := hwork.queued
      exact hinv.unapproved lease.taskId queued hqueued (hwaiting ▸ hstatus)
  · intro env e st hperform
    refine ⟨hwork.call hadmits hperform trivial (by simp [Request.Onward]), ?_⟩
    intro hleased
    have hsame : s₀.state = st := congrArg Prod.snd hperform
    rw [Snapshot.after_state, ← hsame] at hleased
    obtain ⟨row, hrow⟩ := task_of_leased hadmits.2 hleased
    have hfound : getTask lease.taskId s₀.state.db = .ok row.payload := getTask_ok.mpr ⟨row, hrow, rfl⟩
    cases hfound.symm.trans (congrArg Prod.fst hperform)

omit [Platform] in
theorem Lifecycle.moved_status {target : TaskStatus} {v v' : View}
    (h : Lifecycle (.moved target) v v') : v'.status = some target := by
  cases h with
  | already hstatus => exact hstatus
  | moved => rfl

/-- A transition, and what it leaves. Where the status allows it, only a lost lease prevents it. -/
theorem transition_stands {taken allowed : Prop} {target : TaskStatus} {currentStep : Option String}
    {metadata : Dict Json} (hs : AtWork pid lease actions taken flying index s)
    (hbegun : taken → target.begun = true) (htarget : target ≠ .waitingApproval)
    (hdone : target = .completed → actions.length ≤ index)
    (hallowed : allowed → target ≠ .completed ∧ Stands lease (fun status => target ∈ transitions status) s) :
    WorkSafe pid (ask (.transition (some lease) lease.taskId target currentStep metadata))
      (fun (task : Task) s => AtWork pid lease actions taken flying index s ∧
        Stands lease (· = task.status) s ∧ task.status = target)
      (fun e s => AtWork pid lease actions taken flying index s ∧ (allowed → Lost lease e s)) s := by
  refine Safe.call fun s₀ hrely _ hadmits => ?_
  have hwork := hs.rely hrely
  have honward (hup : taken) : (Request.transition (some lease) lease.taskId target currentStep
      metadata).Onward lease := by
    intro owner other step data h
    cases h
    exact hbegun hup
  refine ⟨⟨htarget, lease, rfl, hwork.owns, ?_⟩, ?_, ?_⟩
  · intro hcompleted hleased row hrow earlier hearlier
    rw [hwork.row hrow] at hearlier
    exact hwork.done hleased earlier (Nat.lt_of_lt_of_le hearlier (hdone hcompleted))
  · intro env (task : Task) st hperform
    have hnext := hwork.call hadmits hperform trivial honward
    rcases commit_cases hperform with ⟨_, db', hx, hanswer, rfl⟩ | ⟨_, -, herror, -⟩
    · cases hanswer
      have hanswered : task.status = target := by
        obtain ⟨row, -, ⟨hstatus, rfl, -⟩ | ⟨rfl, -⟩⟩ := transition_ok hx
        · exact hstatus
        · exact row.payload.moved_status target currentStep
      refine ⟨hnext, fun _ status hother => ?_, hanswered⟩
      have hmove : Lifecycle (if lease.taskId = lease.taskId then .moved target else .silent)
          (s₀.state.db.view lease.taskId) (db'.view lease.taskId) := transition_lifecycle hx
      rw [if_pos rfl] at hmove
      rw [hanswered]
      exact Option.some.inj (hother.symm.trans hmove.moved_status)
    · cases herror
  · intro env e st hperform
    refine ⟨hwork.call hadmits hperform trivial honward, fun hup => ?_⟩
    obtain ⟨hcompleted, hmoves⟩ := hallowed hup
    rcases commit_cases hperform with ⟨_, _, -, hanswer, -⟩ | ⟨_, hx, herror, rfl⟩
    · cases hanswer
    · cases herror
      intro hleased
      obtain ⟨row, hrow⟩ := task_of_leased hadmits.2 hleased
      have hmove := (hmoves.rely hs.owns hrely) hleased row.payload.status
        (by simp [Database.view, hrow])
      exact transition_lost (heldFor_of_leased hadmits.2 hleased) hrow hmove hcompleted hx

/-- A look at the task leaves what is known of its status. -/
theorem getTask_keeps {taken : Prop} {P : TaskStatus → Prop}
    (hs : AtWork pid lease actions taken flying index s) (hP : Stands lease P s) :
    WorkSafe pid (ask (.getTask lease.taskId))
      (fun _ s => AtWork pid lease actions taken flying index s ∧ Stands lease P s)
      (fun _ => AtWork pid lease actions taken flying index) s := by
  refine Safe.call fun s₀ hrely _ hadmits => ?_
  have hwork := hs.rely hrely
  refine ⟨trivial, ?_, ?_⟩
  · intro env task st hperform
    refine ⟨hwork.call hadmits hperform trivial (by simp [Request.Onward]), ?_⟩
    exact (hP.rely hs.owns hrely).after hadmits hwork.owns hperform (by simp)
  · intro env e st hperform
    exact hwork.call hadmits hperform trivial (by simp [Request.Onward])

/-! ### Taking the task up -/

/-- The process holds the lease, and has not begun. -/
abbrev Waiting (pid : ℕ) (lease : Lease) (actions : List Action) (s : Snapshot ledgerMachine) :
    Prop :=
  AtWork pid lease actions False (fun _ => False) 0 s

theorem AtWork.take {taken : Prop} (h : AtWork pid lease actions taken flying index s)
    (hbegun : Stands lease (fun status => status.begun = true) s) :
    AtWork pid lease actions True flying index s :=
  { h with begun := fun _ => hbegun }

theorem moveFrom_at_work {task : Task} {source target : TaskStatus}
    (hs : Waiting pid lease actions s) (hstands : Stands lease (· = task.status) s)
    (hallowed : target ∈ transitions source)
    (htarget : target ≠ .completed ∧ target ≠ .waitingApproval) :
    WorkSafe pid (moveFrom lease task source target)
      (fun moved s => Waiting pid lease actions s ∧ Stands lease (· = moved.status) s ∧
        moved.status = if task.status = source then target else task.status)
      (fun e s => Waiting pid lease actions s ∧ Lost lease e s) s := by
  unfold moveFrom
  by_cases hsource : task.status = source
  · simp only [hsource, beq_self_eq_true, if_true]
    have hmoves : True → target ≠ .completed ∧
        Stands lease (fun status => target ∈ transitions status) s := by
      refine fun _ => ⟨htarget.1, fun hleased status hstatus => ?_⟩
      rwa [hstands hleased status hstatus, hsource]
    refine (transition_stands hs False.elim htarget.2 (fun h => absurd h htarget.1) hmoves).mono
      (fun _ _ h => h) ?_
    exact fun _ _ h => ⟨h.1, h.2 trivial⟩
  · simp only [beq_eq_false_iff_ne.mpr hsource, Bool.false_eq_true, if_false, hsource]
    exact ⟨hs, hstands, rfl⟩

theorem begin_at_work (hs : Waiting pid lease actions s) :
    WorkSafe pid (begin lease) (fun _ => Quiesced pid lease actions 0) (Broken pid lease actions)
      s := by
  have hbroken (e : Exn) (s : Snapshot ledgerMachine)
      (h : Waiting pid lease actions s ∧ Lost lease e s) : Broken pid lease actions e s :=
    h.1.broken_of_lost h.2
  apply Safe.bind
  refine (getTask_stands hs).mono ?_ hbroken
  rintro (task : Task) s₁ ⟨hs₁, hstands₁, hnever⟩
  apply Safe.bind
  refine (moveFrom_at_work hs₁ hstands₁ (by decide) (by decide)).mono ?_ hbroken
  rintro planned s₂ ⟨hs₂, hstands₂, hplanned⟩
  refine (moveFrom_at_work hs₂ hstands₂ (by decide) (by decide)).mono ?_ hbroken
  rintro running s₃ ⟨hs₃, hstands₃, hrunning⟩
  apply hs₃.take
  intro hleased status hstatus
  rw [hstands₃ hleased status hstatus, hrunning, hplanned]
  revert hnever
  cases task.status <;> simp [TaskStatus.begun]

theorem boundary_at_work (hs : Waiting pid lease actions s) :
    WorkSafe pid (ask (.boundary lease)) (fun _ => Waiting pid lease actions)
      (Broken pid lease actions) s := by
  refine Safe.call fun s₀ hrely _ hadmits => ?_
  have hwork := hs.rely hrely
  refine ⟨trivial, ?_, ?_⟩
  · intro env a st hperform
    exact hwork.call hadmits hperform trivial (by simp [Request.Onward])
  · intro env e st hperform
    have hnext := hwork.call hadmits hperform trivial (by simp [Request.Onward])
    have hsame : s₀.state = st := congrArg Prod.snd hperform
    refine { hnext with begun := ?_, flights := ?_ }
    · intro hother hleased
      rw [Snapshot.after_state, ← hsame] at hleased
      rcases boundary_refused (heldFor_of_leased hadmits.2 hleased) (leased_queued hleased)
        (congrArg Prod.fst hperform) with hlost | hcancelled
      · exact absurd hlost hother.1
      · exact absurd hcancelled hother.2
    · exact fun hleased stepId hflight => (hnext.flights hleased stepId hflight).elim

/-! ## The action of a worker -/

theorem toolRun_at_work {action : Action} {task : Task} (hplan : actions[index]? = some action)
    (htask : task.taskId = lease.taskId) (hs : Quiesced pid lease actions index s) :
    WorkSafe pid (Programs.runTool broker (some lease) task (Action.request action index))
      (fun _ => Quiesced pid lease actions (index + 1)) (Broken pid lease actions) s := by
  have hbroken {i : ℕ} (e : Exn) (s : Snapshot ledgerMachine) (h : Quiesced pid lease actions i s) :
      Broken pid lease actions e s := h.broken e
  apply Safe.bind
  refine (uses_at_work (resumeFailed_harmless task) hs).mono ?_ hbroken
  intro _ s₁ hs₁
  apply Safe.bind
  refine (transition_at_work (by decide) rfl hs₁).mono ?_ hbroken
  rintro (waiting : Task) s₂ ⟨hwaiting, hs₂⟩
  apply Safe.bind
  refine (invoke_at_work hplan (hwaiting.trans htask) hs₂).mono ?_ fun _ _ h => h
  intro outcome s₃ hs₃
  by_cases huncertain : outcome.status = .uncertain
  · simp only [huncertain, beq_self_eq_true, if_true]
    exact hs₃.broken _
  by_cases hsuccess : outcome.status = .success
  · have hreached : Quiesced pid lease actions (index + 1) s₃ :=
      hs₃.mono id (fun _ h => h) (if_pos hsuccess).ge
    simp only [hsuccess, bne_self_eq_false, Bool.false_eq_true, if_false]
    apply Safe.bind
    refine (uses_at_work (verifiedStepResult_harmless _ _) hreached).mono ?_ hbroken
    intro result s₄ hs₄
    apply Safe.bind
    have hcheckpoint : (ask (.checkpoint (some lease) waiting.taskId
        ("tool:" ++ action.toolId ++ ":complete")
        [("step_id", .str (outcome.stepId.getD ""))])).Uses (Request.Harmless lease) := .call trivial
    refine (uses_at_work hcheckpoint hs₄).mono ?_ hbroken
    intro _ s₅ hs₅
    apply Safe.bind
    refine (transition_at_work (by decide) rfl hs₅).mono ?_ hbroken
    exact fun _ _ hkept => hkept.2
  · simp only [beq_eq_false_iff_ne.mpr huncertain, bne_iff_ne.mpr hsuccess, Bool.false_eq_true,
      if_false, if_true]
    exact hs₃.broken _

theorem rescue_at_work {e : Exn} {Q : α → Snapshot ledgerMachine → Prop}
    (hs : Broken pid lease actions e s) :
    WorkSafe pid (do
      let current : Task ← ask (.getTask lease.taskId)
      if current.status == .running || current.status == .waitingTool then
        let _ : Task ← ask (.transition (some lease) lease.taskId .failedRetryable
          (some "reconcile-or-retry") [])
        (.raise e : Prog α)
      else .raise e) Q (Broken pid lease actions) s := by
  apply Safe.bind
  refine (getTask_stands hs).mono ?_ fun other _ h => h.1.broken_of_lost h.2
  rintro (current : Task) s₁ ⟨hs₁, hstands, -⟩
  by_cases hrunning : (current.status == .running || current.status == .waitingTool) = true
  · simp only [hrunning, if_true]
    have hallowed : Stands lease (fun status => .failedRetryable ∈ transitions status) s₁ := by
      intro hleased status hstatus
      rw [hstands hleased status hstatus]
      simp only [Bool.or_eq_true, beq_iff_eq] at hrunning
      rcases hrunning with hrunning | hrunning <;> rw [hrunning] <;> decide
    apply Safe.bind
    have hnext : TaskStatus.failedRetryable ≠ .completed := by decide
    refine (transition_stands hs₁ (fun _ => rfl) (by decide) (fun h => absurd h hnext)
      fun _ : True => ⟨hnext, hallowed⟩).mono ?_ ?_
    · exact fun _ _ h => h.1
    · exact fun other _ h => h.1.broken_of_lost (h.2 trivial)
  · simp only [hrunning]
    exact hs₁

theorem executeToolAndCheckpoint_at_work {action : Action} (hplan : actions[index]? = some action)
    (hs : Quiesced pid lease actions index s) :
    WorkSafe pid (executeToolAndCheckpoint broker (some lease) lease.taskId (Action.request action index))
      (fun _ => Quiesced pid lease actions (index + 1)) (Broken pid lease actions) s := by
  apply Safe.bind
  refine (getTask_at_work hs).mono ?_ fun e _ h => h.broken e
  rintro (task : Task) s₁ ⟨htask, hs₁⟩
  apply Safe.except
  refine (toolRun_at_work hplan htask hs₁).mono (fun _ _ h => h) ?_
  exact fun e s₂ hs₂ => rescue_at_work hs₂

theorem advance_at_work (hs : Quiesced pid lease actions (index + 1) s)
    (hindex : index < actions.length) :
    WorkSafe pid (ask (.advance lease index)) (fun _ => Quiesced pid lease actions (index + 1))
      (fun _ => Quiesced pid lease actions (index + 1)) s := by
  refine Safe.call fun s₀ hrely _ hadmits => ?_
  have hwork := hs.rely hrely
  refine ⟨⟨hwork.owns, fun hleased => ⟨hwork.done hleased index (Nat.lt_succ_self index), ?_⟩⟩, ?_, ?_⟩
  · intro row hrow
    rwa [hwork.row hrow]
  · intro env a st hperform
    exact hwork.call hadmits hperform trivial (by simp [Request.Onward])
  · intro env e st hperform
    exact hwork.call hadmits hperform trivial (by simp [Request.Onward])

theorem runAction_at_work {action : Action} (hplan : actions[index]? = some action)
    (hs : Quiesced pid lease actions index s) :
    WorkSafe pid (runAction broker lease action index)
      (fun _ => Quiesced pid lease actions (index + 1)) (Broken pid lease actions) s := by
  apply Safe.bind
  apply Safe.ofExcept
  · intro manifest _
    by_cases hversion : (manifest.version != action.version) = true
    · simp only [hversion]
      exact hs.broken _
    · simp only [hversion]
      apply Safe.bind
      refine (executeToolAndCheckpoint_at_work hplan hs).mono ?_ fun _ _ h => h
      intro _ s₁ hs₁
      have hindex : index < actions.length := (List.getElem?_eq_some_iff.mp hplan).1
      exact (advance_at_work hs₁ hindex).mono (fun _ _ h => h) fun e _ h => h.broken e
  · exact fun e _ => hs.broken e

/-! ## The loop over the plan -/

/-- The lease may be released with a reason where the task can be retried or has ended. -/
abbrev StandsParked (lease : Lease) (s : Snapshot ledgerMachine) : Prop :=
  Stands lease (fun status => status = .failedRetryable ∨ status.terminal = true) s

/-- No lease of the process is current. -/
def Free (pid : ℕ) (s : Snapshot ledgerMachine) : Prop :=
  ∀ lease, OwnsLease pid lease s → ¬s.state.db.Leased lease

theorem AtWork.free {taken : Prop} (h : AtWork pid lease actions taken flying index s)
    (hover : ¬s.state.db.Leased lease) : Free pid s := by
  intro other hother
  rcases h.others other hother with rfl | hfree
  · exact hover
  · exact hfree

omit [Platform] in
theorem releasedState_ne_leased (status : TaskStatus) (blocked : Option String)
    (retryAt : Option ℚ) : releasedState status blocked retryAt ≠ .leased := by
  unfold releasedState
  split
  · simp
  · split <;> simp

/-- A release ends the lease. -/
theorem release_over {db' : Database} {blocked : Option String} {retryAt : Option ℚ} {now : ℚ}
    {u : Unit} (h : release lease blocked retryAt now db = .ok (u, db')) : ¬db'.Leased lease := by
  rintro ⟨row', hrow', hheld⟩
  obtain ⟨_, _, task, mid, late, logged, -, -, -, -, hlate, -, rfl⟩ := release_ok h
  obtain ⟨_, _, hview⟩ := scheduleRetry_view lease.taskId hlate
  have hrow := congrArg View.row hview
  rw [if_pos rfl, view_updateQueue_self] at hrow
  have hlast : (late.view lease.taskId).row = some row' := hrow'
  rw [hlast] at hrow
  obtain ⟨middle, hmiddle, rfl⟩ := Option.map_eq_some_iff.mp hrow.symm
  obtain ⟨before, -, rfl⟩ := Option.map_eq_some_iff.mp hmiddle
  exact releasedState_ne_leased _ _ _ hheld.2.1

theorem release_at_work {taken : Prop} {blocked : Option String} {retryAt : Option ℚ}
    (hs : AtWork pid lease actions taken (fun _ => False) index s)
    (hparked : blocked.isSome = true → StandsParked lease s) :
    WorkSafe pid (ask (.release lease blocked retryAt)) (fun _ => Free pid)
      (fun _ => AtWork pid lease actions taken (fun _ => False) index) s := by
  refine Safe.call fun s₀ hrely _ hadmits => ?_
  have hwork := hs.rely hrely
  refine ⟨⟨hwork.owns, fun hleased => ⟨hwork.flights hleased, fun hreason => ?_⟩⟩, ?_, ?_⟩
  · exact (hparked hreason).rely hs.owns hrely hleased
  · intro env a st hperform
    apply (hwork.call hadmits hperform trivial (by simp [Request.Onward])).free
    rcases commit_cases hperform with ⟨_, db', hx, -, rfl⟩ | ⟨_, -, herror, -⟩
    · exact release_over hx
    · cases herror
  · intro env e st hperform
    exact hwork.call hadmits hperform trivial (by simp [Request.Onward])

theorem continues_at_work (hs : Quiesced pid lease actions index s) :
    WorkSafe pid (continues worker lease)
      (fun goesOn s => if goesOn then Quiesced pid lease actions index s else Free pid s)
      (fun _ => Quiesced pid lease actions index) s := by
  have hlook {r : Request} (hr : r.Harmless lease) {s : Snapshot ledgerMachine}
      (hs : Quiesced pid lease actions index s) : WorkSafe pid (ask r)
        (fun _ => Quiesced pid lease actions index)
        (fun _ => Quiesced pid lease actions index) s := uses_at_work (.call hr) hs
  apply Safe.bind
  refine (hlook (r := .boundary lease) trivial hs).mono ?_ fun _ _ h => h
  intro _ s₁ hs₁
  apply Safe.bind
  refine (hlook (r := .isStopped worker.workerId) trivial hs₁).mono ?_ fun _ _ h => h
  intro (stopped : Bool) s₂ hs₂
  cases stopped with
  | true =>
      apply Safe.bind
      exact (release_at_work hs₂ (by simp)).mono (fun _ _ h => h) fun _ _ h => h
  | false => exact hs₂

theorem runActions_at_work {rest : List Action} (hrest : actions.drop index = rest)
    (hs : Quiesced pid lease actions index s) :
    WorkSafe pid (runActions worker broker lease rest index)
      (fun goesOn s => if goesOn then Quiesced pid lease actions actions.length s else Free pid s)
      (Broken pid lease actions) s := by
  induction rest generalizing index s with
  | nil => exact hs.mono id (fun _ h => h) (List.drop_eq_nil_iff.mp hrest)
  | cons action rest ih =>
      apply Safe.bind
      refine (continues_at_work hs).mono ?_ fun e _ h => h.broken e
      intro goesOn s₁ hs₁
      cases goesOn with
      | false => exact hs₁
      | true =>
          have hplan : actions[index]? = some action := by
            rw [← List.head?_drop, hrest]
            rfl
          have hnext : actions.drop (index + 1) = rest := by
            rw [← List.tail_drop, hrest]
            rfl
          apply Safe.bind
          refine (runAction_at_work hplan hs₁).mono ?_ fun _ _ h => h
          exact fun _ s₂ hs₂ => ih hnext hs₂

/-- Unless it completes, the task can be retried. -/
theorem complete_at_work (hs : Quiesced pid lease actions actions.length s) :
    WorkSafe pid (complete (some lease) lease.taskId none none)
      (fun finished s => Quiesced pid lease actions actions.length s ∧
        (finished.status ≠ .completed → StandsParked lease s))
      (Broken pid lease actions) s := by
  have hbroken (e : Exn) (s : Snapshot ledgerMachine)
      (h : Quiesced pid lease actions actions.length s) : Broken pid lease actions e s := h.broken e
  apply Safe.bind
  refine (getTask_stands hs).mono ?_ fun e _ h => h.1.broken e
  rintro (task : Task) s₁ ⟨hs₁, hstands, -⟩
  by_cases hcompleted : task.status = .completed
  · simp only [hcompleted, beq_self_eq_true]
    have hparked : StandsParked lease s₁ := by
      intro hleased status hstatus
      rw [hstands hleased status hstatus, hcompleted]
      exact .inr rfl
    exact (getTask_keeps hs₁ hparked).mono (fun _ _ h => ⟨h.1, fun _ => h.2⟩) hbroken
  · simp only [beq_eq_false_iff_ne.mpr hcompleted, Bool.false_eq_true]
    apply Safe.bind
    refine (uses_at_work (verifyAcceptance_harmless lease.taskId) hs₁).mono ?_ hbroken
    intro result s₂ hs₂
    by_cases haccepted : result.acceptanceComplete = true
    · simp only [haccepted]
      refine (transition_stands hs₂ (fun _ => rfl) (by decide) (fun _ => le_rfl) False.elim).mono ?_ ?_
      · exact fun finished _ h => ⟨h.1, fun hother => absurd h.2.2 hother⟩
      · exact fun e _ h => h.1.broken e
    · have hnext : TaskStatus.failedRetryable ≠ .completed := by decide
      simp only [haccepted]
      refine (transition_stands hs₂ (fun _ => rfl) (by decide) (fun h => absurd h hnext)
        False.elim).mono ?_ ?_
      · rintro finished s₃ ⟨hs₃, hstands₃, hretryable⟩
        refine ⟨hs₃, fun _ hleased status hstatus => ?_⟩
        rw [hstands₃ hleased status hstatus, hretryable]
        exact .inl rfl
      · exact fun e _ h => h.1.broken e

theorem finishPlan_at_work (hs : Quiesced pid lease actions actions.length s) :
    WorkSafe pid (finishPlan worker lease) (fun _ => Free pid) (Broken pid lease actions) s := by
  apply Safe.bind
  refine (continues_at_work hs).mono ?_ fun e _ h => h.broken e
  intro goesOn s₁ hs₁
  cases goesOn with
  | false => exact hs₁
  | true =>
      apply Safe.bind
      refine (complete_at_work hs₁).mono ?_ fun _ _ h => h
      rintro finished s₂ ⟨hs₂, hparked⟩
      refine (release_at_work hs₂ fun hreason => hparked ?_).mono (fun _ _ h => h)
        fun e _ h => h.broken e
      intro hcompleted
      simp [hcompleted] at hreason

/-! ## One lease -/

theorem planned_at_work (hs : Quiesced pid lease actions index s) :
    WorkSafe pid (ask (.queueRow lease.taskId))
      (fun (row : QueueRow) s => row.plan.actions = actions ∧ Quiesced pid lease actions index s)
      (fun _ => Quiesced pid lease actions index) s := by
  refine Safe.call fun s₀ hrely _ hadmits => ?_
  have hwork := hs.rely hrely
  refine ⟨trivial, ?_, ?_⟩
  · intro env row st hperform
    have hrow : s₀.state.db.queue.get? lease.taskId = some row :=
      orRaise_eq_ok.mp (congrArg Prod.fst hperform)
    exact ⟨hwork.row hrow, hwork.call hadmits hperform trivial (by simp [Request.Onward])⟩
  · intro env e st hperform
    exact hwork.call hadmits hperform trivial (by simp [Request.Onward])

/-- What lies behind the checkpoint is done. -/
theorem checkpoint_at_work (hs : Quiesced pid lease actions index s) :
    WorkSafe pid (ask (.queueRow lease.taskId))
      (fun (row : QueueRow) s => Quiesced pid lease actions row.nextAction s)
      (fun _ => Quiesced pid lease actions index) s := by
  refine Safe.call fun s₀ hrely hinv hadmits => ?_
  have hwork := hs.rely hrely
  refine ⟨trivial, ?_, ?_⟩
  · intro env row st hperform
    have hrow : s₀.state.db.queue.get? lease.taskId = some row :=
      orRaise_eq_ok.mp (congrArg Prod.fst hperform)
    have hreached : Quiesced pid lease actions row.nextAction s₀ :=
      { hwork with done := fun _ => hinv.done lease.taskId row hrow }
    exact hreached.call hadmits hperform trivial (by simp [Request.Onward])
  · intro env e st hperform
    exact hwork.call hadmits hperform trivial (by simp [Request.Onward])

theorem executePlan_at_work (hs : Waiting pid lease actions s) :
    WorkSafe pid (executePlan worker lease) (fun _ => Free pid) (Broken pid lease actions) s := by
  have hbroken (e : Exn) (s : Snapshot ledgerMachine) (h : Quiesced pid lease actions 0 s) :
      Broken pid lease actions e s := h.broken e
  have hlook {r : Request} (hr : r.Harmless lease) {s : Snapshot ledgerMachine}
      (hs : Quiesced pid lease actions 0 s) : WorkSafe pid (ask r)
        (fun _ => Quiesced pid lease actions 0) (Broken pid lease actions) s :=
    (uses_at_work (.call hr) hs).mono (fun _ _ h => h) hbroken
  apply Safe.bind
  refine (boundary_at_work hs).mono ?_ fun _ _ h => h
  intro _ s₁ hs₁
  apply Safe.bind
  refine (begin_at_work hs₁).mono ?_ fun _ _ h => h
  intro task s₂ hs₂
  apply Safe.bind
  refine (hlook (r := .steps lease.taskId) trivial hs₂).mono ?_ fun _ _ h => h
  intro (steps : List StepRecord) s₃ hs₃
  apply Safe.bind
  refine (uses_at_work (inspectEffects_harmless lease.taskId steps) hs₃).mono ?_ hbroken
  intro _ s₄ hs₄
  apply Safe.bind
  apply Safe.ofExcept
  · intro broker _
    apply Safe.bind
    refine (uses_at_work (resume_harmless lease.taskId) hs₄).mono ?_ hbroken
    intro _ s₅ hs₅
    apply Safe.bind
    refine (planned_at_work hs₅).mono ?_ hbroken
    rintro (planned : QueueRow) s₆ ⟨hplanned, hs₆⟩
    apply Safe.bind
    refine (checkpoint_at_work hs₆).mono ?_ hbroken
    intro (current : QueueRow) s₇ hs₇
    apply Safe.bind
    refine (getTask_at_work hs₇).mono ?_ fun e _ h => h.broken e
    rintro _ s₈ ⟨-, hs₈⟩
    apply Safe.bind
    refine (runActions_at_work (by rw [hplanned]) hs₈).mono ?_ fun _ _ h => h
    intro goesOn s₉ hs₉
    cases goesOn with
    | false => exact hs₉
    | true => exact finishPlan_at_work hs₉
  · exact fun e _ => hs₄.broken e

/-! ## What follows a failure -/

/-- Requests that speak for no lease are always permitted. -/
theorem bystander_safe {p : Prog α} (hp : p.Uses Request.Bystander) :
    WorkSafe pid p (fun _ _ => True) (fun _ _ => True) s := by
  refine Safe.of_uses ?_ ?_ ?_ hp trivial
  · intro r s hr
    cases r <;> first | exact hr.elim | trivial
  · exact fun _ _ _ _ => trivial
  · intros
    trivial

/-- The worker has been told to stop, or every lease that the process has claimed is over. -/
def Retired (worker : Worker) (pid : ℕ) (s : Snapshot ledgerMachine) : Prop :=
  worker.workerId ∈ s.state.stopped ∨ Free pid s

theorem setStop_retires : WorkSafe pid (ask (.setStop worker.workerId))
    (fun _ => Retired worker pid) (fun _ _ => True) s := by
  refine Safe.call fun s₀ _ _ _ => ⟨trivial, ?_, fun _ _ _ _ => trivial⟩
  intro env a st hperform
  cases hperform
  exact .inl (List.mem_cons_self ..)

theorem stopWhenLost_at_work {body : Prog Unit} {E : Exn → Snapshot ledgerMachine → Prop}
    (h : WorkSafe pid body (fun _ => Free pid) E s) :
    WorkSafe pid (stopWhenLost worker body) (fun _ => Retired worker pid) (fun _ _ => True) s := by
  apply Safe.except
  refine h.mono (fun _ _ hfree => .inr hfree) ?_
  intro e s₁ _
  cases e with
  | leaseLost => exact setStop_retires
  | _ => trivial

/-- After it the task can be retried, or has ended. -/
theorem fail_at_work (hs : Quiesced pid lease actions index s) :
    WorkSafe pid (fail lease)
      (fun _ s => Quiesced pid lease actions index s ∧ StandsParked lease s)
      (fun _ => Quiesced pid lease actions index) s := by
  apply Safe.bind
  refine (getTask_stands hs).mono ?_ fun _ _ h => h.1
  rintro (task : Task) s₁ ⟨hs₁, hstands, -⟩
  by_cases hexecuting : executing task.status = true
  · simp only [hexecuting, if_true]
    apply Safe.bind
    have hnext : TaskStatus.failedRetryable ≠ .completed := by decide
    refine (transition_stands hs₁ (fun _ => rfl) (by decide) (fun h => absurd h hnext)
      False.elim).mono ?_ fun _ _ h => h.1
    rintro (moved : Task) s₂ ⟨hs₂, hstands₂, hretryable⟩
    refine ⟨hs₂, fun hleased status hstatus => ?_⟩
    rw [hstands₂ hleased status hstatus, hretryable]
    exact .inl rfl
  · simp only [hexecuting]
    refine ⟨hs₁, fun hleased status hstatus => ?_⟩
    have hbegun := hs₁.begun trivial hleased status hstatus
    obtain rfl := hstands hleased status hstatus
    revert hexecuting hbegun
    cases task.status <;> simp [executing, TaskStatus.begun, TaskStatus.terminal]

theorem releaseAfterFailure_at_work {reason : Option String}
    (hs : Quiesced pid lease actions index s) :
    WorkSafe pid (releaseAfterFailure worker lease reason) (fun _ => Retired worker pid)
      (fun _ _ => True) s := by
  apply stopWhenLost_at_work (E := fun _ _ => True)
  apply Safe.bind
  cases reason with
  | none => exact (release_at_work hs (by simp)).mono (fun _ _ h => h) fun _ _ _ => trivial
  | some reason =>
      refine (fail_at_work hs).mono ?_ fun _ _ _ => trivial
      rintro _ s₁ ⟨hs₁, hparked⟩
      exact (release_at_work hs₁ fun _ => hparked).mono (fun _ _ h => h) fun _ _ _ => trivial

/-- A cancellation is carried out by the release. -/
theorem giveUp_at_work {taken : Prop} (hs : AtWork pid lease actions taken (fun _ => False) index s) :
    WorkSafe pid (releaseAfterFailure worker lease none) (fun _ => Retired worker pid)
      (fun _ _ => True) s := by
  apply stopWhenLost_at_work (E := fun _ _ => True)
  exact (release_at_work hs (by simp)).mono (fun _ _ h => h) fun _ _ _ => trivial

theorem onContinuitySignal_at_work {outcome : ContinuityOutcome}
    (hs : Quiesced pid lease actions index s) :
    WorkSafe pid (onContinuitySignal worker lease outcome) (fun _ => Retired worker pid)
      (fun _ _ => True) s := by
  unfold onContinuitySignal
  cases outcome.disposition with
  | retryLater =>
      apply stopWhenLost_at_work (E := fun _ _ => True)
      apply Safe.bind
      refine (fail_at_work hs).mono ?_ fun _ _ _ => trivial
      rintro _ s₁ ⟨hs₁, hparked⟩
      exact (release_at_work hs₁ fun _ => hparked).mono (fun _ _ h => h) fun _ _ _ => trivial
  | terminal =>
      apply stopWhenLost_at_work (E := fun _ _ => True)
      apply Safe.bind
      refine (getTask_at_work hs).mono ?_ fun _ _ _ => trivial
      rintro (current : Task) s₁ ⟨-, hs₁⟩
      apply Safe.bind
      have hmove : (moveFrom lease current .failedRetryable .running).Uses
          (Request.Harmless lease) := by
        apply Uses.ite
        · exact fun _ => .call ⟨rfl, by decide, rfl⟩
        · exact fun _ => trivial
      refine (uses_at_work hmove hs₁).mono ?_ fun _ _ _ => trivial
      intro _ s₂ hs₂
      apply Safe.bind
      refine (transition_at_work (by decide) rfl hs₂).mono ?_ fun _ _ _ => trivial
      rintro _ s₃ ⟨-, hs₃⟩
      exact (release_at_work hs₃ (by simp)).mono (fun _ _ h => h) fun _ _ _ => trivial
  | continueNow =>
      -- the inner handler has closed the lease, and the outer one finds nothing to do
      apply Safe.except
      refine (releaseAfterFailure_at_work hs).mono (fun _ _ h => h) ?_
      intro e s₁ _
      cases e with
      | leaseLost => exact setStop_retires
      | _ => trivial

theorem onFailure_at_work {e : Exn} (hs : Broken pid lease actions e s) :
    WorkSafe pid (onFailure worker lease e) (fun _ => Retired worker pid) (fun _ _ => True) s := by
  have hquiesced (hlost : e ≠ .leaseLost) (hcancelled : e ≠ .cancellationRequested) :
      Quiesced pid lease actions 0 s :=
    hs.mono (fun _ => ⟨hlost, hcancelled⟩) (fun _ => hlost) le_rfl
  cases e with
  | continuitySignal outcome => exact onContinuitySignal_at_work (hquiesced (by simp) (by simp))
  | leaseLost => exact setStop_retires
  | cancellationRequested =>
      exact giveUp_at_work (hs.mono False.elim (fun _ h => by cases h) le_rfl)
  | _ => exact releaseAfterFailure_at_work (hquiesced (by simp) (by simp))

/-! ## Whole runs -/

theorem Free.rely (h : Free pid s) (hrely : LeaseRely pid s s') : Free pid s' := by
  intro lease hown hleased
  have hbefore := hown.back hrely.own
  exact h lease hbefore (hrely.leased lease hbefore hleased)

theorem Free.call {r : Request} {env : Surroundings} {w : World} {reply : Except Exn r.Reply}
    (h : Free pid s) (hadmits : leaseRun.admits pid r s)
    (hperform : ledgerMachine.perform env r s.state = (reply, w)) (hcalm : r.Calm) :
    Free pid (s.after w (.call pid r reply)) := by
  intro lease hown hleased
  rcases hown.after_cases with hbefore | ⟨-, _, _, rfl, -⟩
  · exact h lease hbefore (leased_back hperform (hadmits.2.granted _ lease hbefore.granted) hleased)
  · exact hcalm

theorem recoverExpired_frees (hs : Free pid s) :
    WorkSafe pid (ask .recoverExpired) (fun _ => Free pid) (fun _ _ => True) s := by
  refine Safe.call fun s₀ hrely _ hadmits => ⟨trivial, ?_, fun _ _ _ _ => trivial⟩
  intro env n st hperform
  exact (hs.rely hrely).call hadmits hperform trivial

/-- Where the worker has not been told to stop, its leases are over. -/
theorem isStopped_retired (hs : Retired worker pid s) :
    WorkSafe pid (ask (.isStopped worker.workerId))
      (fun stopped s => Retired worker pid s ∧ (stopped = false → Free pid s))
      (fun _ _ => True) s := by
  refine Safe.call fun s₀ hrely _ hadmits => ⟨trivial, ?_, fun _ _ _ _ => trivial⟩
  intro env (stopped : Bool) st hperform
  have hanswer : s₀.state.stopped.contains worker.workerId = stopped :=
    Except.ok.inj (congrArg Prod.fst hperform)
  have hsame : s₀.state = st := congrArg Prod.snd hperform
  rcases hs with htold | hfree
  · have htold₀ := hrely.stopped _ htold
    refine ⟨.inl (by rwa [Snapshot.after_state, ← hsame]), fun hnot => ?_⟩
    rw [hnot, List.contains_iff_mem.mpr htold₀] at hanswer
    cases hanswer
  · have hnext := (hfree.rely hrely).call hadmits hperform trivial
    exact ⟨.inr hnext, fun _ => hnext⟩

/-- A claim finds nothing in flight. -/
theorem claim_at_work {leaseS : ℚ} (hs : Free pid s) :
    WorkSafe pid (ask (.claim worker.workerId leaseS))
      (fun (answer : Option Lease) s => match answer with
        | some lease => ∃ actions, Waiting pid lease actions s
        | none => Free pid s) (fun _ _ => True) s := by
  refine Safe.call fun s₀ hrely hinv hadmits => ?_
  have hfree := hs.rely hrely
  refine ⟨hfree, ?_, fun _ _ _ _ => trivial⟩
  intro env answer st hperform
  have hstep : perform env (.claim worker.workerId leaseS) s₀.state = (.ok answer, st) := hperform
  have hback {other : Lease} (hown : OwnsLease pid other s₀) : ¬st.db.Leased other := fun hleased =>
    hfree other hown (leased_back hstep (hadmits.2.granted _ other hown.granted) hleased)
  cases answer with
  | none =>
      intro other hown
      rcases hown.after_cases with hbefore | ⟨-, _, _, -, hreply⟩
      · exact hback hbefore
      · cases hreply
  | some lease =>
      have hmoves := perform_lifecycle hstep lease.taskId
      rcases commit_cases hperform with ⟨_, db', hx, hanswer, rfl⟩ | ⟨_, -, herror, -⟩
      · cases hanswer
        obtain ⟨-, ⟨hnone, -, -⟩ | ⟨row, taskRow, hgranted, hselected, -, -⟩⟩ := claim_ok hx
        · cases hnone
        · cases hgranted
          have hclaimable := List.mem_filter.mp (earliest_mem hselected)
          have hrow : s₀.state.db.queue.get? row.taskId = some row :=
            Table.get?_eq_some_iff.mpr ⟨hclaimable.1, rfl⟩
          have hready : row.state = .ready := by
            have hready := hclaimable.2
            simp only [QueueRow.claimable, Bool.and_eq_true, beq_iff_eq] at hready
            exact hready.1.1.1.1
          obtain ⟨row', hrow', hplan, -⟩ := hmoves.plan_stays hrow
          refine ⟨row'.plan.actions, ?_, ⟨row', hrow', rfl⟩, ?_, False.elim, ?_, ?_⟩
          · refine ⟨worker.workerId, leaseS, ?_⟩
            rw [Snapshot.after_log]
            exact List.mem_append_right _ (List.mem_singleton.mpr rfl)
          · intro _ earlier hearlier
            cases hearlier
          · intro _ stepId hflight
            rcases hinv.resting row.taskId row hrow (by simp [hready]) with hresting | hcalled
            · rcases inFlight_perform hstep hflight with hbefore | ⟨_, _, hclaim, -⟩
              · exact hresting stepId hbefore
              · cases hclaim
            · obtain ⟨closed, hclosed, hdone, -⟩ := hcalled
              cases hclosed.symm.trans hrow
              cases hready.symm.trans hdone
          · intro other hother
            rcases hother.after_cases with hbefore | ⟨-, _, _, -, hreply⟩
            · exact .inr (hback hbefore)
            · cases hreply
              exact .inl rfl
      · cases herror

theorem runOnce_at_work (hs : Retired worker pid s) :
    WorkSafe pid (runOnce worker) (fun _ => Retired worker pid) (fun _ _ => True) s := by
  apply Safe.bind
  refine (isStopped_retired hs).mono ?_ fun _ _ _ => trivial
  rintro (stopped : Bool) s₁ ⟨hs₁, hfree⟩
  cases stopped with
  | true => exact hs₁
  | false =>
      apply Safe.bind
      refine (recoverExpired_frees (hfree rfl)).mono ?_ fun _ _ _ => trivial
      intro (recovered : ℕ) s₂ hs₂
      apply Safe.bind
      refine (claim_at_work hs₂).mono ?_ fun _ _ _ => trivial
      intro (answer : Option Lease) s₃ hclaimed
      cases answer with
      | none => exact .inr hclaimed
      | some lease =>
          obtain ⟨actions, hs₃⟩ := hclaimed
          apply Safe.bind
          apply Safe.except
          refine (executePlan_at_work hs₃).mono (fun _ _ h => .inr h) ?_
          intro e s₄ hs₄
          exact (onFailure_at_work hs₄).mono (fun _ _ h => h) fun _ _ _ => trivial

/-- A worker that ends has closed its leases, or has been told to stop. -/
theorem worker_safe (rounds : ℕ) (hs : Retired worker pid s) :
    WorkSafe pid (run worker rounds) (fun _ => Retired worker pid) (fun _ _ => True) s := by
  induction rounds generalizing s with
  | zero => exact hs
  | succ n ih =>
      apply Safe.bind
      refine (isStopped_retired hs).mono ?_ fun _ _ _ => trivial
      rintro (stopped : Bool) s₁ ⟨hs₁, -⟩
      cases stopped with
      | true => exact hs₁
      | false =>
          apply Safe.bind
          refine (runOnce_at_work hs₁).mono ?_ fun _ _ _ => trivial
          exact fun _ _ hs₂ => ih hs₂

/-- A new process has claimed nothing. -/
theorem free_spawned {w : World} (h : ∀ e ∈ s.log, e.pid ≠ pid) :
    Free pid (s.after w (.spawn pid)) := by
  rintro lease ⟨_, _, hmem⟩
  rcases List.mem_append.mp hmem with hold | hnew
  · exact absurd rfl (h _ hold)
  · cases List.mem_singleton.mp hnew

theorem queue_leases {s : System ledgerMachine} (h : Reachable queueRun s) :
    LeasesKnown s.snap := by
  apply leases_known
  apply h.mono
  · exact fun _ hstart => hstart
  · exact fun _ _ => trivial
  · exact fun _ _ _ _ => trivial

theorem reachable_leaseRun {s : System ledgerMachine} (h : Reachable queueRun s) :
    Reachable leaseRun s :=
  h.knowing fun _ hs _ _ _ => queue_leases hs

theorem queue_program_safe {p : Prog Unit} (hp : queueRun.program p)
    (hnew : ∀ e ∈ s.log, e.pid ≠ pid) :
    WorkSafe pid p (fun _ _ => True) (fun _ _ => True) (s.after s.state (.spawn pid)) := by
  rcases hp with ⟨worker, rounds, rfl⟩ | hbystander
  · exact (worker_safe rounds (.inr (free_spawned hnew))).mono (fun _ _ _ => trivial)
      fun _ _ _ => trivial
  · exact bystander_safe hbystander

/-- Any number of workers keep the protocol among any bystanders. -/
theorem keeps_queueProtocol {s : System ledgerMachine} (h : Reachable queueRun s) :
    s.Keeps queueProtocol leaseRun :=
  (reachable_leaseRun h).keeps queueProtocol_sound fun _ hp _ _ _ hnew => queue_program_safe hp hnew

end Dante
