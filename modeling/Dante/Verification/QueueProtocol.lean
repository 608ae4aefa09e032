import Dante.Verification.Checkpoints

/-! # What the protocol of workers keeps

One request, permitted or made by others, leaves the checkpoints behind the journal and the
holder of a lease undisturbed. -/

namespace Dante

open JsonText Relational Concurrent

variable [Platform] {env : Surroundings} {r : Request} {reply : Except Exn r.Reply} {w w' : World}
  {s s' : Snapshot ledgerMachine} {pid other : ℕ} {taskId stepId : String} {lease : Lease}
  {row row' : QueueRow} {index : ℕ}

/-! ## The moves that requests stand for -/

omit [Platform] in
theorem advance_of_move (h : moveOf taskId r reply = .advanced) :
    ∃ lease index answer, r = .advance lease index ∧ reply = .ok answer ∧
      lease.taskId = taskId := by
  cases r with
  | advance lease index =>
      cases reply with
      | ok answer =>
          simp only [moveOf] at h
          split at h
          next hid => exact ⟨lease, index, answer, rfl, rfl, hid⟩
          next => cases h
      | error e => cases h
  | claim =>
      cases reply with
      | ok answer =>
          cases answer with
          | some lease =>
              simp only [moveOf, claimMove] at h
              split at h <;> cases h
          | none => cases h
      | error e => cases h
  | createTask | transition =>
      cases reply with
      | ok answer =>
          simp only [moveOf] at h
          split at h <;> cases h
      | error e => cases h
  | _ => cases h

omit [Platform] in
theorem transition_of_move {target : TaskStatus} (h : moveOf taskId r reply = .moved target) :
    ∃ owner currentStep metadata, r = .transition owner taskId target currentStep metadata := by
  cases r with
  | transition owner id other currentStep metadata =>
      cases reply with
      | ok answer =>
          simp only [moveOf] at h
          split at h
          next hid =>
            cases h
            exact ⟨owner, currentStep, metadata, hid ▸ rfl⟩
          next => cases h
      | error e => cases h
  | claim =>
      cases reply with
      | ok answer =>
          cases answer with
          | some lease =>
              simp only [moveOf, claimMove] at h
              split at h <;> cases h
          | none => cases h
      | error e => cases h
  | createTask | advance =>
      cases reply with
      | ok answer =>
          simp only [moveOf] at h
          split at h <;> cases h
      | error e => cases h
  | _ => cases h

omit [Platform] in
/-- Under a lease, only a transition changes the status of a task. -/
theorem Lifecycle.status_cases {move : Move} {v v' : View} (h : Lifecycle move v v') :
    v'.status = v.status ∨ (∃ target, move = .moved target ∧ v'.status = some target) ∨
      v.status = none ∨ ∃ row', v'.row = some row' ∧ row'.state ≠ .leased := by
  cases h with
  | moved => exact .inr (.inl ⟨_, rfl, rfl⟩)
  | created => exact .inr (.inr (.inl rfl))
  | submitted => exact .inr (.inr (.inl rfl))
  | ended _ _ _ _ _ hstate => exact .inr (.inr (.inr ⟨_, rfl, hstate.ne_leased⟩))
  | cancelled => exact .inr (.inr (.inr ⟨_, rfl, by simp⟩))
  | _ => exact .inl rfl

omit [Platform] in
theorem Lifecycle.status_isSome {move : Move} {v v' : View} (h : Lifecycle move v v')
    (hstatus : v.status.isSome = true) : v'.status.isSome = true := by
  cases h with
  | stay => exact hstatus
  | already => exact hstatus
  | created => cases hstatus
  | submitted => cases hstatus
  | renewed => exact hstatus
  | advanced => exact hstatus
  | _ => rfl

theorem task_stays (h : perform env r w = (reply, w'))
    (htask : (w.db.tasks.get? taskId).isSome = true) : (w'.db.tasks.get? taskId).isSome = true := by
  have hstatus := (perform_lifecycle h taskId).status_isSome (by simpa [Database.view] using htask)
  simpa [Database.view] using hstatus

/-! ## New steps -/

/-- A step that was not recorded before was prepared for a live task, under the key asked for. -/
theorem step_new {step : StepRecord} (h : perform env r w = (reply, w'))
    (hbefore : w.db.stepNamed taskId stepId = none)
    (hafter : w'.db.stepNamed taskId stepId = some step) :
    (w.db.tasks.get? taskId).isSome = true ∧
      ∃ owner toolId toolVersion arguments idempotencyKey argsDigest,
        r = .prepareStep owner taskId toolId toolVersion arguments idempotencyKey ∧
          stepKey toolId toolVersion argsDigest idempotencyKey = .ok step.idempotencyKey := by
  rcases perform_edge h taskId stepId with hsame | ⟨⟨answer, rfl⟩, hedge⟩
  · rw [hsame, hbefore] at hafter
    cases hafter
  · rw [hbefore, hafter] at hedge
    cases hedge with
    | prepared owner toolId toolVersion arguments idempotencyKey =>
        rcases commit_cases h with ⟨_, db', hx, -, rfl⟩ | ⟨_, -, herror, -⟩
        · obtain ⟨argsDigest, key, taskRow, -, hkey, htask, -, -, hfound⟩ := prepareStep_ok hx
          refine ⟨by rw [htask]; rfl, owner, toolId, toolVersion, arguments, idempotencyKey,
            argsDigest, rfl, ?_⟩
          rcases hfound with ⟨_, -, rfl, -⟩ | ⟨-, hnew⟩
          · cases hbefore.symm.trans hafter
          · obtain ⟨steps, hins, rfl⟩ := hnew.inserted
            rw [stepNamed_event, Database.stepNamed, Table.find_insert hins] at hafter
            rw [Database.stepNamed] at hbefore
            rw [hbefore, Option.none_or] at hafter
            split at hafter
            · cases hafter
              exact hkey
            · cases hafter
        · cases herror

/-! ## The checkpoints -/

/-- A success behind the checkpoint, or under a lease, stays. -/
theorem done_kept (htimely : Timely s.state r) (hperform : perform env r s.state = (reply, w))
    (hrow : s.state.db.queue.get? taskId = some row)
    (hplace : index < row.nextAction ∨ row.state = .leased)
    (hdone : s.state.db.Done taskId index) : w.db.Done taskId index := by
  rcases done_perform hperform hdone with hkept | ⟨step, hstep, hstate, hreopens⟩
  · exact hkept
  · exfalso
    cases r with
    | reconcileStep id stepId artifactId actor =>
        obtain ⟨rfl, rfl, evidence, hcertified⟩ := hreopens
        obtain ⟨hplaced, hfree⟩ := htimely row index step evidence hrow hstep rfl hstate hcertified
        rcases hplace with hbehind | hleased
        · omega
        · exact hfree hleased
    | _ => exact hreopens

/-- Nothing is recorded of a task that does not exist, nor by the request that creates it. -/
theorem unrecorded (hinv : Checkpointed s) (hperform : perform env r s.state = (reply, w))
    (htask : s.state.db.tasks.get? taskId = none) (step : StepRecord) :
    w.db.stepNamed taskId stepId ≠ some step := by
  intro hstep
  cases hbefore : s.state.db.stepNamed taskId stepId with
  | some before =>
      have hknown := hinv.known taskId stepId before hbefore
      rw [htask] at hknown
      cases hknown
  | none =>
      have hknown := (step_new hperform hbefore hstep).1
      rw [htask] at hknown
      cases hknown

/-- A queued task was queued before, with the same plan, or did not exist. -/
theorem queued_cases (hperform : perform env r w = (reply, w'))
    (hrow' : w'.db.queue.get? taskId = some row') :
    (∃ row, w.db.queue.get? taskId = some row ∧ row'.plan = row.plan ∧
      (row'.nextAction = row.nextAction ∨ ∃ lease answer, r = .advance lease row.nextAction ∧
        reply = .ok answer ∧ row.HeldBy lease ∧ row'.nextAction = row.nextAction + 1)) ∨
      w.db.tasks.get? taskId = none ∧ row'.nextAction = 0 := by
  have hmove := perform_lifecycle hperform taskId
  rcases hmove.queued_before (show _ = some row' from hrow') with ⟨row, hrow⟩ | ⟨hnone, hstart⟩
  · left
    obtain ⟨after, hafter, hplan, hnext⟩ := hmove.plan_stays hrow
    cases hafter.symm.trans hrow'
    refine ⟨row, hrow, hplan, ?_⟩
    rcases hnext with hsame | ⟨hadvanced, hnext⟩
    · exact .inl hsame
    · right
      obtain ⟨lease, index, answer, rfl, rfl, rfl⟩ := advance_of_move hadvanced
      rcases commit_cases hperform with ⟨_, db', hx, -, -⟩ | ⟨_, -, herror, -⟩
      · obtain ⟨before, _, hbefore, rfl, -, hpermit, -⟩ := advance_ok hx
        cases hbefore.symm.trans hrow
        obtain ⟨_, howner, -, hheld⟩ := hpermit.leased hrow
        cases howner
        exact ⟨lease, answer, rfl, rfl, hheld, hnext⟩
      · cases herror
  · right
    have hstatus := congrArg View.status hnone
    exact ⟨by simpa [Database.view] using hstatus, hstart⟩

theorem planned_kept (hinv : Checkpointed s) (hpermit : r.PermittedTo pid s)
    (hperform : perform env r s.state = (reply, w)) {step : StepRecord}
    (hrow' : w.db.queue.get? taskId = some row') (hstep : w.db.stepNamed taskId stepId = some step) :
    ∃ index < row'.plan.actions.length, w.db.actionStep taskId index = some step := by
  rcases queued_cases hperform hrow' with ⟨row, hrow, hplan, -⟩ | ⟨htask, -⟩
  · rw [hplan]
    have hid := (named_of_find hstep).2
    cases hbefore : s.state.db.stepNamed taskId stepId with
    | some before =>
        obtain ⟨index, hindex, haction⟩ := hinv.planned taskId row stepId before hrow hbefore
        obtain ⟨after, hafter, hsame, -⟩ := actionStep_perform hperform haction
        have hnamed := (actionStep_iff.mp hafter).2
        rw [hsame, (named_of_find hbefore).2, hstep] at hnamed
        cases hnamed
        exact ⟨index, hindex, hafter⟩
    | none =>
        obtain ⟨-, _, _, _, _, _, _, rfl, hkey⟩ := step_new hperform hbefore hstep
        obtain ⟨index, hindex, rfl⟩ := hpermit row hrow
        exact ⟨index, hindex, actionStep_iff.mpr ⟨hkey, hid.symm ▸ hstep⟩⟩
  · exact absurd hstep (unrecorded hinv hperform htask step)

omit [Platform] in
theorem Database.leased_of_heldBy {db : Database} (hrow : db.queue.get? taskId = some row)
    (hheld : row.HeldBy lease) : lease.taskId = taskId ∧ db.Leased lease := by
  have hid : lease.taskId = taskId := hheld.1.symm.trans (taskId_of_get? hrow)
  exact ⟨hid, row, hid.symm ▸ hrow, hheld⟩

theorem reached_kept (hinv : Checkpointed s) (hpermit : r.PermittedTo pid s)
    (hperform : perform env r s.state = (reply, w))
    (hrow' : w.db.queue.get? taskId = some row') : row'.nextAction ≤ row'.plan.actions.length := by
  rcases queued_cases hperform hrow' with ⟨row, hrow, hplan, hsame | hadvanced⟩ | ⟨-, hstart⟩
  · rw [hplan, hsame]
    exact hinv.reached taskId row hrow
  · obtain ⟨lease, answer, rfl, -, hheld, hnext⟩ := hadvanced
    obtain ⟨rfl, hleased⟩ := Database.leased_of_heldBy hrow hheld
    have hbound := (hpermit.2 hleased).2 row hrow
    rw [hplan, hnext]
    exact hbound
  · rw [hstart]
    exact Nat.zero_le _

theorem behind_kept (hinv : Checkpointed s) (htimely : Timely s.state r)
    (hpermit : r.PermittedTo pid s) (hperform : perform env r s.state = (reply, w))
    (hrow' : w.db.queue.get? taskId = some row') (hindex : index < row'.nextAction) :
    w.db.Done taskId index := by
  rcases queued_cases hperform hrow' with ⟨row, hrow, -, hsame | hadvanced⟩ | ⟨-, hstart⟩
  · rw [hsame] at hindex
    exact done_kept htimely hperform hrow (.inl hindex) (hinv.done taskId row hrow index hindex)
  · obtain ⟨lease, answer, rfl, -, hheld, hnext⟩ := hadvanced
    obtain ⟨rfl, hleased⟩ := Database.leased_of_heldBy hrow hheld
    rw [hnext] at hindex
    rcases Nat.lt_succ_iff_lt_or_eq.mp hindex with hbefore | rfl
    · exact done_kept htimely hperform hrow (.inl hbefore)
        (hinv.done _ row hrow index hbefore)
    · exact done_kept htimely hperform hrow (.inr hheld.2.1) (hpermit.2 hleased).1
  · omega

theorem known_kept (hinv : Checkpointed s) (hperform : perform env r s.state = (reply, w))
    {step : StepRecord} (hstep : w.db.stepNamed taskId stepId = some step) :
    (w.db.tasks.get? taskId).isSome = true := by
  apply task_stays hperform
  cases hbefore : s.state.db.stepNamed taskId stepId with
  | some before => exact hinv.known taskId stepId before hbefore
  | none => exact (step_new hperform hbefore hstep).1

/-- A committed claim was made under the current lease. -/
theorem claim_held {owner : Option Lease} {answer : Unit}
    (h : perform env (.claimStep owner taskId stepId) w = (.ok answer, w'))
    (hrow : w.db.queue.get? taskId = some row) : ∃ held, owner = some held ∧ row.HeldBy held := by
  rcases commit_cases h with ⟨_, db', hx, -, -⟩ | ⟨_, -, herror, -⟩
  · obtain ⟨_, _, -, -, hpermit, -⟩ := claimStep_ok hx
    obtain ⟨held, howner, -, hheld⟩ := hpermit.leased hrow
    exact ⟨held, howner, hheld⟩
  · cases herror

theorem resting_kept (hinv : Checkpointed s) (hpermit : r.PermittedTo pid s)
    (hperform : perform env r s.state = (reply, w))
    (hrow' : w.db.queue.get? taskId = some row') (hleased : row'.state ≠ .leased) :
    w.db.Resting taskId ∨ (w.db.view taskId).CalledOff := by
  rcases queued_cases hperform hrow' with ⟨row, hrow, -⟩ | ⟨htask, -⟩
  · by_cases hbefore : row.state = .leased
    · rcases lease_ended hperform hrow hbefore hrow' hleased with ⟨-, hrest⟩ | hreleased | hcalled
      · exact .inl hrest
      · obtain ⟨lease, blocked, retryAt, rfl, hheld⟩ := hreleased
        obtain ⟨rfl, hcurrent⟩ := Database.leased_of_heldBy hrow hheld
        left
        intro stepId hflight
        rcases inFlight_perform hperform hflight with hflying | ⟨_, _, hclaim, -⟩
        · exact (hpermit.2 hcurrent).1 stepId hflying
        · cases hclaim
      · exact .inr hcalled
    · rcases hinv.resting taskId row hrow hbefore with hrest | hcalled
      · left
        intro stepId hflight
        rcases inFlight_perform hperform hflight with hflying | ⟨owner, answer, rfl, rfl⟩
        · exact hrest stepId hflying
        · obtain ⟨_, -, hheld⟩ := claim_held hperform hrow
          exact hbefore hheld.2.1
      · exact .inr ((perform_lifecycle hperform taskId).calledOff_stays hcalled)
  · left
    rintro stepId ⟨step, hstep, -⟩
    exact unrecorded hinv hperform htask step hstep

/-! ### Blocked rows -/

omit [Platform] in
/-- A row is blocked at the end of a lease only. -/
theorem Lifecycle.blocked_cases {move : Move} {v v' : View} {n : ℕ} (h : Lifecycle move v v')
    (hv : v.Consistent n) (hrow' : v'.row = some row') (hblocked : row'.state = .blocked) :
    v' = v ∨ ∃ row, v.row = some row ∧ row.state = .leased ∧ v'.status = v.status ∧
      ∀ status, v.status = some status → status.terminal = false := by
  cases h with
  | stay => exact .inl rfl
  | already => exact .inl rfl
  | created status row =>
      cases hrow'
      obtain ⟨_, hstatus, -⟩ := hv
      cases hstatus
  | submitted =>
      cases hrow'
      cases hblocked
  | moved _ hpermitted =>
      obtain ⟨_, _, haccepts⟩ := hpermitted row' hrow'
      rw [haccepts.leased] at hblocked
      cases hblocked
  | renewed _ _ haccepts | advanced haccepts =>
      cases hrow'
      rw [haccepts.leased] at hblocked
      cases hblocked
  | flagged _ hleased =>
      cases hrow'
      rw [hleased] at hblocked
      cases hblocked
  | @ended status row state failure retries nextAttemptAt hleased hstate =>
      cases hrow'
      have hlive : (row.settled status).terminal = false := by
        rw [Bool.eq_false_iff]
        intro hterminal
        rw [QueueState.EndsWith, if_pos hterminal] at hstate
        cases hblocked.symm.trans hstate
      refine .inr ⟨_, rfl, hleased, ?_, ?_⟩
      · simp only [QueueRow.settled] at hlive ⊢
        split at hlive
        next => cases hlive
        next hkept => rw [if_neg hkept]
      · intro other hother
        cases hother
        rw [Bool.eq_false_iff]
        intro hterminal
        rw [QueueRow.settled_of_terminal hterminal, hterminal] at hlive
        cases hlive
  | granted | cancelled | retried =>
      cases hrow'
      cases hblocked

omit [Platform] in
theorem recoverRow_unblocked {db db' : Database} (h : recoverRow row db = .ok db')
    (hrow' : db'.queue.get? taskId = some row') (hblocked : row'.state = .blocked) :
    db.queue.get? taskId = some row' := by
  by_cases hid : taskId = row.taskId
  · obtain ⟨taskRow, task, mid, logged, -, -, -, rfl⟩ := recoverRow_ok h
    rw [Database.log_queue, Database.updateQueue_queue, Table.get?_modify, if_pos hid] at hrow'
    obtain ⟨before, -, rfl⟩ := Option.map_eq_some_iff.mp hrow'
    simp only at hblocked
    split at hblocked <;> cases hblocked
  · have hsame := congrArg View.row (recoverRow_view_ne h hid)
    exact hsame.symm.trans hrow'

omit [Platform] in
/-- Recovery blocks no row. -/
theorem recoverRows_unblocked {rows : List QueueRow} {db db' : Database}
    (h : rows.foldlM (fun db row => recoverRow row db) db = .ok db')
    (hrow' : db'.queue.get? taskId = some row') (hblocked : row'.state = .blocked) :
    db.queue.get? taskId = some row' := by
  induction rows generalizing db with
  | nil =>
      cases h
      exact hrow'
  | cons row rest ih =>
      simp only [List.foldlM_cons, Except.bind_eq_ok] at h
      obtain ⟨next, hnext, hrest⟩ := h
      exact recoverRow_unblocked hnext (ih hrest) hblocked

/-- A lease that ends in a blocked row was released with a reason. -/
theorem release_blocks {db db' : Database} {blocked : Option String} {retryAt : Option ℚ} {now : ℚ}
    {u : Unit} (h : release lease blocked retryAt now db = .ok (u, db'))
    (hrow' : db'.queue.get? lease.taskId = some row') (hblocked : row'.state = .blocked) :
    blocked.isSome = true := by
  obtain ⟨_, _, task, mid, late, logged, -, -, -, -, hlate, -, rfl⟩ := release_ok h
  obtain ⟨_, _, hview⟩ := scheduleRetry_view lease.taskId hlate
  have hrow := congrArg View.row hview
  rw [if_pos rfl, view_updateQueue_self] at hrow
  have hlast : (late.view lease.taskId).row = some row' := hrow'
  rw [hlast] at hrow
  obtain ⟨middle, hmiddle, rfl⟩ := Option.map_eq_some_iff.mp hrow.symm
  obtain ⟨before, -, rfl⟩ := Option.map_eq_some_iff.mp hmiddle
  cases blocked with
  | some reason => rfl
  | none =>
      simp only [releasedState, Option.any_none, Bool.false_and, Bool.false_eq_true, if_false] at hblocked
      split at hblocked <;> cases hblocked

theorem blocked_kept (hinv : Checkpointed s) (hknown : LeasesKnown s)
    (hpermit : r.PermittedTo pid s) (hperform : perform env r s.state = (reply, w))
    (hrow' : w.db.queue.get? taskId = some row') (hblocked : row'.state = .blocked) :
    (w.db.view taskId).status = some .failedRetryable := by
  have hmove := perform_lifecycle hperform taskId
  rcases hmove.blocked_cases (hknown.numbered taskId).consistent hrow' hblocked with
    hsame | ⟨row, hrow, hleased, hstatus, hlive⟩
  · rw [hsame]
    have hbefore : (s.state.db.view taskId).row = some row' := hsame ▸ hrow'
    exact hinv.blocked taskId row' hbefore hblocked
  · rcases lease_ended hperform hrow hleased hrow' (by simp [hblocked]) with
      ⟨rfl, -⟩ | ⟨lease, blocked, retryAt, rfl, hheld⟩ | ⟨closed, hclosed, hdone, -⟩
    · rcases commit_cases hperform with ⟨_, db', hx, -, rfl⟩ | ⟨_, -, -, rfl⟩
      · cases hrow.symm.trans (recoverRows_unblocked (recoverExpired_ok hx) hrow' hblocked)
        cases hleased.symm.trans hblocked
      · cases hrow.symm.trans hrow'
        cases hleased.symm.trans hblocked
    · obtain ⟨rfl, hcurrent⟩ := Database.leased_of_heldBy hrow hheld
      rcases commit_cases hperform with ⟨_, db', hx, -, rfl⟩ | ⟨_, -, -, rfl⟩
      · obtain ⟨taskRow, htask, -⟩ := (hknown.numbered lease.taskId).task hrow
        have hbefore : (s.state.db.view lease.taskId).status = some taskRow.payload.status := by
          simp [Database.view, htask]
        have hparked := (hpermit.2 hcurrent).2 (release_blocks hx hrow' hblocked)
        rcases hparked _ hbefore with hretryable | hterminal
        · rw [hstatus, hbefore, hretryable]
        · rw [hlive _ hbefore] at hterminal
          cases hterminal
      · cases hrow.symm.trans hrow'
        cases hleased.symm.trans hblocked
    · cases hclosed.symm.trans hrow'
      cases hdone.symm.trans hblocked

omit [Platform] in
/-- Where a status comes from that neither the queue nor a submission sets. -/
theorem Lifecycle.status_reached {move : Move} {v v' : View} {n : ℕ} {target : TaskStatus}
    (h : Lifecycle move v v') (hv : v.Consistent n) (hrow' : v'.row = some row')
    (hstatus : v'.status = some target) (hcreated : target ≠ .created)
    (hcancelled : target ≠ .cancelled) :
    (∃ row, v.row = some row) ∧ v.status = some target ∨ move = .moved target := by
  cases h with
  | stay => exact .inl ⟨⟨row', hrow'⟩, hstatus⟩
  | already => exact .inl ⟨⟨row', hrow'⟩, hstatus⟩
  | created status row =>
      cases hrow'
      obtain ⟨_, hnone, -⟩ := hv
      cases hnone
  | submitted =>
      cases hstatus
      exact absurd rfl hcreated
  | moved =>
      cases hstatus
      exact .inr rfl
  | ended state failure retries nextAttemptAt hleased hstate =>
      simp only [QueueRow.settled, Option.some.injEq] at hstatus
      split at hstatus
      · exact absurd hstatus.symm hcancelled
      · exact .inl ⟨⟨_, rfl⟩, congrArg some hstatus⟩
  | cancelled =>
      cases hstatus
      exact absurd rfl hcancelled
  | granted | renewed | advanced | flagged | retried => exact .inl ⟨⟨_, rfl⟩, hstatus⟩

theorem unapproved_kept (hinv : Checkpointed s) (hknown : LeasesKnown s)
    (hpermit : r.PermittedTo pid s) (hperform : perform env r s.state = (reply, w))
    (hrow' : w.db.queue.get? taskId = some row') :
    (w.db.view taskId).status ≠ some .waitingApproval := by
  intro hstatus
  have hmove := perform_lifecycle hperform taskId
  rcases hmove.status_reached (hknown.numbered taskId).consistent hrow' hstatus (by decide)
    (by decide) with
    ⟨⟨row, hrow⟩, hbefore⟩ | hmoved
  · exact hinv.unapproved taskId row hrow hbefore
  · obtain ⟨owner, currentStep, metadata, rfl⟩ := transition_of_move hmoved
    exact hpermit.1 rfl

/-- A lease is owned by what was owned before, or by the request itself. -/
theorem OwnsLease.after_cases (h : OwnsLease other lease (s.after w (.call pid r reply))) :
    OwnsLease other lease s ∨ other = pid ∧ ∃ workerId leaseS, r = .claim workerId leaseS ∧
      HEq reply (.ok (some lease) : Except Exn (Option Lease)) := by
  obtain ⟨workerId, leaseS, hmem⟩ := h
  rcases List.mem_append.mp hmem with hold | hnew
  · exact .inl ⟨workerId, leaseS, hold⟩
  · have hevent := List.mem_singleton.mp hnew
    simp only [Event.call.injEq] at hevent
    obtain ⟨rfl, rfl, hreply⟩ := hevent
    exact .inr ⟨rfl, workerId, leaseS, rfl, hreply.symm⟩

theorem OwnsLease.of_still {e : Event Request.Reply Exn} (h : OwnsLease other lease (s.after w e))
    (he : ∀ pid r reply, e ≠ .call pid r reply) : OwnsLease other lease s := by
  obtain ⟨workerId, leaseS, hmem⟩ := h
  rcases List.mem_append.mp hmem with hold | hnew
  · exact ⟨workerId, leaseS, hold⟩
  · exact absurd (List.mem_singleton.mp hnew).symm (he _ _ _)

theorem single_kept (hinv : Checkpointed s) (hknown : LeasesKnown s) (hpermit : r.PermittedTo pid s)
    (hperform : perform env r s.state = (reply, w)) {held : Lease}
    (hown : OwnsLease other lease (s.after w (.call pid r reply)))
    (hheld : OwnsLease other held (s.after w (.call pid r reply)))
    (hleased : w.db.Leased lease) (hcurrent : w.db.Leased held) : lease = held := by
  have hback {lease : Lease} (hown : OwnsLease other lease s) (hleased : w.db.Leased lease) :
      s.state.db.Leased lease :=
    leased_back hperform (hknown.granted _ lease hown.granted) hleased
  rcases hown.after_cases with hbefore | ⟨hpid, _, _, rfl, hnew⟩
  · rcases hheld.after_cases with hfirst | ⟨hpid, _, _, rfl, -⟩
    · exact hinv.single other lease held hbefore hfirst (hback hbefore hleased)
        (hback hfirst hcurrent)
    · exact absurd (hback hbefore hleased) (hpermit lease (hpid ▸ hbefore))
  · rcases hheld.after_cases with hfirst | ⟨-, _, _, -, hother⟩
    · exact absurd (hback hfirst hcurrent) (hpermit held (hpid ▸ hfirst))
    · have hsame := eq_of_heq (hnew.symm.trans hother)
      cases hsame
      rfl

theorem Checkpointed.call (hinv : Checkpointed s) (hknown : LeasesKnown s)
    (htimely : Timely s.state r) (hpermit : r.PermittedTo pid s)
    (hperform : perform env r s.state = (reply, w)) :
    Checkpointed (s.after w (.call pid r reply)) where
  planned _ _ _ _ hrow hstep := planned_kept hinv hpermit hperform hrow hstep
  reached _ _ hrow := reached_kept hinv hpermit hperform hrow
  done _ _ hrow _ hindex := behind_kept hinv htimely hpermit hperform hrow hindex
  known _ _ _ hstep := known_kept hinv hperform hstep
  resting _ _ hrow hleased := resting_kept hinv hpermit hperform hrow hleased
  blocked _ _ hrow hblocked := blocked_kept hinv hknown hpermit hperform hrow hblocked
  unapproved _ _ hrow := unapproved_kept hinv hknown hpermit hperform hrow
  single _ _ _ hown hother hleased hcurrent :=
    single_kept hinv hknown hpermit hperform hown hother hleased hcurrent

/-- Events that are no requests change nothing. -/
theorem Checkpointed.of_state {e : Event Request.Reply Exn} (hinv : Checkpointed s)
    (he : ∀ pid r reply, e ≠ .call pid r reply) : Checkpointed (s.after s.state e) :=
  ⟨hinv.planned, hinv.reached, hinv.done, hinv.known, hinv.resting, hinv.blocked, hinv.unapproved,
    fun _ _ _ hown hother => hinv.single _ _ _ (hown.of_still he) (hother.of_still he)⟩

/-! ## The holder of a lease -/

theorem LeaseRely.refl (pid : ℕ) (s : Snapshot ledgerMachine) : LeaseRely pid s s where
  own := rfl
  log _ h := h
  queued _ row h := ⟨row, h, rfl⟩
  recorded _ _ _ h := h
  leased _ _ h := h
  done _ _ _ _ h := h
  inFlight _ _ _ _ h := h
  status _ _ _ := rfl
  checkpoint _ _ _ := rfl
  stopped _ h := h

theorem OwnsLease.mono (h : OwnsLease pid lease s) (hlog : ∀ e ∈ s.log, e ∈ s'.log) :
    OwnsLease pid lease s' := by
  obtain ⟨workerId, leaseS, hmem⟩ := h
  exact ⟨workerId, leaseS, hlog _ hmem⟩

theorem LeaseRely.trans {a b c : Snapshot ledgerMachine} (h : LeaseRely pid a b)
    (h' : LeaseRely pid b c) : LeaseRely pid a c where
  own := h'.own.trans h.own
  log e he := h'.log e (h.log e he)
  queued taskId row hrow := by
    obtain ⟨next, hnext, hplan⟩ := h.queued taskId row hrow
    obtain ⟨last, hlast, hsame⟩ := h'.queued taskId next hnext
    exact ⟨last, hlast, hsame.trans hplan⟩
  recorded taskId index stepId hrecords :=
    h'.recorded taskId index stepId (h.recorded taskId index stepId hrecords)
  leased lease hown hc := h.leased lease hown (h'.leased lease (hown.mono h.log) hc)
  done lease hown hc index hdone := h'.done lease (hown.mono h.log) hc index
    (h.done lease hown (h'.leased lease (hown.mono h.log) hc) index hdone)
  inFlight lease hown hc stepId hflight := h.inFlight lease hown
    (h'.leased lease (hown.mono h.log) hc) stepId
    (h'.inFlight lease (hown.mono h.log) hc stepId hflight)
  status lease hown hc := (h'.status lease (hown.mono h.log) hc).trans
    (h.status lease hown (h'.leased lease (hown.mono h.log) hc))
  checkpoint lease hown hc := (h'.checkpoint lease (hown.mono h.log) hc).trans
    (h.checkpoint lease hown (h'.leased lease (hown.mono h.log) hc))
  stopped workerId hstopped := h'.stopped workerId (h.stopped workerId hstopped)

/-- What the state alone decides is kept where only the log grows by events of others. -/
theorem LeaseRely.of_state {e : Event Request.Reply Exn} (h : e.pid ≠ other) :
    LeaseRely other s (s.after s.state e) :=
  { LeaseRely.refl other s with
    own := Credit.own_append_of_ne h s.log
    log := fun _ he => List.mem_append_left _ he }

theorem queued_stays (hperform : perform env r w = (reply, w'))
    (hrow : w.db.queue.get? taskId = some row) :
    ∃ row', w'.db.queue.get? taskId = some row' ∧ row'.plan = row.plan := by
  obtain ⟨after, hafter, hplan, -⟩ := (perform_lifecycle hperform taskId).plan_stays hrow
  exact ⟨after, hafter, hplan⟩

/-- A process that speaks for a lease of its own does not hold the lease of another. -/
theorem lease_not_shared (hknown : LeasesKnown s) (hne : other ≠ pid)
    (hother : OwnsLease other lease s) {held : Lease} (hown : OwnsLease pid held s)
    (hlease : row.HeldBy lease) (hheld : row.HeldBy held) : False := by
  obtain rfl := hlease.unique hheld
  exact hne (hother.unique hknown hown)

theorem inFlight_kept (hknown : LeasesKnown s) (hpermit : r.PermittedTo pid s)
    (hperform : perform env r s.state = (reply, w)) (hne : other ≠ pid)
    (hown : OwnsLease other lease s) (hleased : s.state.db.Leased lease)
    (hflight : w.db.InFlight lease.taskId stepId) : s.state.db.InFlight lease.taskId stepId := by
  rcases inFlight_perform hperform hflight with hflying | ⟨owner, answer, rfl, rfl⟩
  · exact hflying
  · obtain ⟨row, hrow, hlease⟩ := hleased
    obtain ⟨held, rfl, hheld⟩ := claim_held hperform hrow
    obtain ⟨_, _, howner, howns, -⟩ := hpermit
    cases howner
    exact (lease_not_shared hknown hne hown howns hlease hheld).elim

theorem status_kept (hknown : LeasesKnown s) (hpermit : r.PermittedTo pid s)
    (hperform : perform env r s.state = (reply, w)) (hne : other ≠ pid)
    (hown : OwnsLease other lease s) (hbefore : s.state.db.Leased lease)
    (hafter : w.db.Leased lease) :
    (w.db.view lease.taskId).status = (s.state.db.view lease.taskId).status := by
  obtain ⟨row, hrow, hlease⟩ := hbefore
  obtain ⟨_, hrow', hlease'⟩ := hafter
  rcases (perform_lifecycle hperform lease.taskId).status_cases with
    hsame | ⟨target, hmoved, -⟩ | hnone | ⟨closed, hclosed, hfree⟩
  · exact hsame
  · obtain ⟨owner, currentStep, metadata, rfl⟩ := transition_of_move hmoved
    rcases commit_cases hperform with ⟨_, db', hx, -, rfl⟩ | ⟨_, -, -, rfl⟩
    · obtain ⟨taskRow, htask, ⟨-, -, rfl⟩ | ⟨-, hdone⟩⟩ := transition_ok hx
      · rfl
      · obtain ⟨held, rfl, -, hheld⟩ := hdone.permitted.leased hrow
        obtain ⟨-, _, howner, howns, -⟩ := hpermit
        cases howner
        exact (lease_not_shared hknown hne hown howns hlease hheld).elim
    · rfl
  · obtain ⟨taskRow, htask, -⟩ := (hknown.numbered lease.taskId).task hrow
    simp [Database.view, htask] at hnone
  · cases hrow'.symm.trans hclosed
    exact absurd hlease'.2.1 hfree

/-- Only the holder of a lease moves the checkpoint on. -/
theorem checkpoint_kept (hknown : LeasesKnown s) (hpermit : r.PermittedTo pid s)
    (hperform : perform env r s.state = (reply, w)) (hne : other ≠ pid)
    (hown : OwnsLease other lease s) (hbefore : s.state.db.Leased lease)
    (hafter : w.db.Leased lease) :
    (w.db.queue.get? lease.taskId).map QueueRow.nextAction =
      (s.state.db.queue.get? lease.taskId).map QueueRow.nextAction := by
  obtain ⟨row, hrow, hlease⟩ := hbefore
  obtain ⟨row', hrow', -⟩ := hafter
  obtain ⟨before, hfound, -, hmoves⟩ | ⟨hnone, -⟩ := queued_cases hperform hrow'
  · cases hfound.symm.trans hrow
    rw [hrow, hrow', Option.map_some, Option.map_some]
    rcases hmoves with hsame | ⟨held, answer, rfl, -, hheld, -⟩
    · rw [hsame]
    · exact (lease_not_shared hknown hne hown hpermit.1 hlease hheld).elim
  · obtain ⟨taskRow, htask, -⟩ := (hknown.numbered lease.taskId).task hrow
    cases hnone.symm.trans htask

omit [Platform] in
theorem commit_stopped {α : Type} {result : Except Exn (α × Database)} {workerId : String}
    (h : workerId ∈ w.stopped) : workerId ∈ (w.commit result).2.stopped := by
  cases result <;> exact h

/-- No request takes a stop flag back. -/
theorem stopped_stays {workerId : String} (h : perform env r w = (reply, w'))
    (hstopped : workerId ∈ w.stopped) : workerId ∈ w'.stopped := by
  have hafter : (perform env r w).2 = w' := by rw [h]
  rw [← hafter]
  cases r with
  | setStop other => exact List.mem_cons_of_mem _ hstopped
  | _ =>
      first
      | exact hstopped
      | exact commit_stopped hstopped

theorem LeaseRely.call (hknown : LeasesKnown s) (htimely : Timely s.state r)
    (hpermit : r.PermittedTo pid s) (hperform : perform env r s.state = (reply, w))
    (hne : other ≠ pid) : LeaseRely other s (s.after w (.call pid r reply)) := by
  have hback (lease : Lease) (hown : OwnsLease other lease s) (hleased : w.db.Leased lease) :
      s.state.db.Leased lease :=
    leased_back hperform (hknown.granted _ lease hown.granted) hleased
  exact
    { own := Credit.own_append_of_ne (Ne.symm hne) s.log
      log := fun _ he => List.mem_append_left _ he
      queued := fun _ _ hrow => queued_stays hperform hrow
      recorded := fun _ _ _ hrecords => records_perform hperform hrecords
      leased := hback
      done := by
        intro lease hown hleased index hdone
        obtain ⟨row, hrow, hheld⟩ := hback lease hown hleased
        exact done_kept htimely hperform hrow (.inr hheld.2.1) hdone
      inFlight := fun lease hown hleased _ hflight =>
        inFlight_kept hknown hpermit hperform hne hown (hback lease hown hleased) hflight
      status := fun lease hown hleased =>
        status_kept hknown hpermit hperform hne hown (hback lease hown hleased) hleased
      checkpoint := fun lease hown hleased =>
        checkpoint_kept hknown hpermit hperform hne hown (hback lease hown hleased) hleased
      stopped := fun _ hstopped => stopped_stays hperform hstopped }

/-! ## Soundness -/

section Congruence

variable {db db' : Database}

theorem actionStep_congr (hsteps : db'.steps = db.steps) :
    db'.actionStep taskId index = db.actionStep taskId index := by
  rw [Database.actionStep, Database.actionStep, hsteps]

theorem records_congr (hsteps : db'.steps = db.steps) :
    db'.Records taskId index stepId ↔ db.Records taskId index stepId := by
  rw [Database.Records, Database.Records, actionStep_congr hsteps]

theorem done_congr (hsteps : db'.steps = db.steps) : db'.Done taskId index ↔ db.Done taskId index := by
  rw [Database.Done, Database.Done, actionStep_congr hsteps]

omit [Platform] in
theorem stepNamed_congr (hsteps : db'.steps = db.steps) :
    db'.stepNamed taskId stepId = db.stepNamed taskId stepId := by
  rw [Database.stepNamed, Database.stepNamed, hsteps]

omit [Platform] in
theorem inFlight_congr (hsteps : db'.steps = db.steps) :
    db'.InFlight taskId stepId ↔ db.InFlight taskId stepId := by
  rw [Database.InFlight, Database.InFlight, stepNamed_congr hsteps]

end Congruence

theorem Checkpointed.drift (hinv : Checkpointed s) (hdrift : World.Drift s.state w) :
    Checkpointed ⟨w, s.log⟩ := by
  have hsteps : w.db.steps = s.state.db.steps := hdrift.agree (t := .steps) (by simp)
  have hqueue : w.db.queue = s.state.db.queue := hdrift.agree (t := .queue) (by simp)
  have htasks : w.db.tasks = s.state.db.tasks := hdrift.agree (t := .tasks) (by simp)
  constructor
  · intro taskId row stepId step hrow hstep
    rw [hqueue] at hrow
    rw [stepNamed_congr hsteps] at hstep
    obtain ⟨index, hindex, haction⟩ := hinv.planned taskId row stepId step hrow hstep
    exact ⟨index, hindex, (actionStep_congr hsteps).trans haction⟩
  · intro taskId row hrow
    rw [hqueue] at hrow
    exact hinv.reached taskId row hrow
  · intro taskId row hrow index hindex
    rw [hqueue] at hrow
    exact (done_congr hsteps).mpr (hinv.done taskId row hrow index hindex)
  · intro taskId stepId step hstep
    rw [stepNamed_congr hsteps] at hstep
    rw [htasks]
    exact hinv.known taskId stepId step hstep
  · intro taskId row hrow hleased
    rw [hqueue] at hrow
    rcases hinv.resting taskId row hrow hleased with hrest | hcalled
    · exact .inl fun stepId hflight => hrest stepId ((inFlight_congr hsteps).mp hflight)
    · right
      rwa [hdrift.view_eq]
  · intro taskId row hrow hblocked
    rw [hqueue] at hrow
    rw [hdrift.view_eq]
    exact hinv.blocked taskId row hrow hblocked
  · intro taskId row hrow
    rw [hqueue] at hrow
    rw [hdrift.view_eq]
    exact hinv.unapproved taskId row hrow
  · intro pid lease other hown hother hleased hcurrent
    rw [Database.Leased, hqueue] at hleased hcurrent
    exact hinv.single pid lease other hown hother hleased hcurrent

theorem LeaseRely.drift (hdrift : World.Drift s.state w) : LeaseRely other s ⟨w, s.log⟩ := by
  have hsteps : w.db.steps = s.state.db.steps := hdrift.agree (t := .steps) (by simp)
  have hqueue : w.db.queue = s.state.db.queue := hdrift.agree (t := .queue) (by simp)
  exact
    { LeaseRely.refl other s with
      queued := fun _ row hrow => ⟨row, by rwa [hqueue], rfl⟩
      recorded := fun _ _ _ hrecords => (records_congr hsteps).mpr hrecords
      leased := fun lease _ hleased => by rwa [Database.Leased, hqueue] at hleased
      done := fun _ _ _ _ hdone => (done_congr hsteps).mpr hdone
      inFlight := fun _ _ _ _ hflight => (inFlight_congr hsteps).mp hflight
      status := fun _ _ _ => congrArg View.status hdrift.view_eq
      checkpoint := fun lease _ _ => by rw [hqueue]
      stopped := hdrift.stopped }

theorem checkpointed_fresh (hw : w.Fresh) : Checkpointed ⟨w, []⟩ := by
  have hempty : w.db = .empty := hw
  constructor
  · intro taskId row stepId step hrow
    simp [hempty, Database.empty] at hrow
  · intro taskId row hrow
    simp [hempty, Database.empty] at hrow
  · intro taskId row hrow
    simp [hempty, Database.empty] at hrow
  · intro taskId stepId step hstep
    simp [Database.stepNamed, hempty, Database.empty] at hstep
  · intro taskId row hrow
    simp [hempty, Database.empty] at hrow
  · intro taskId row hrow
    simp [hempty, Database.empty] at hrow
  · intro taskId row hrow
    simp [hempty, Database.empty] at hrow
  · rintro pid lease other ⟨_, _, hmem⟩
    cases hmem

theorem queueProtocol_sound : queueProtocol.Sound leaseRun where
  refl := LeaseRely.refl
  trans := LeaseRely.trans
  start _ hw := checkpointed_fresh hw
  call hinv hadmits hpermit hperform :=
    ⟨hinv.call hadmits.2 hadmits.1 hpermit hperform,
      fun _ hne _ => .call hadmits.2 hadmits.1 hpermit hperform hne⟩
  spawn _ hinv := ⟨hinv.of_state (by simp), fun _ hne => .of_state (Ne.symm hne)⟩
  crash _ hinv := ⟨hinv.of_state (by simp), fun _ hne => .of_state (Ne.symm hne)⟩
  drift hinv hdrift := ⟨hinv.drift hdrift, fun _ => .drift hdrift⟩

end Dante
