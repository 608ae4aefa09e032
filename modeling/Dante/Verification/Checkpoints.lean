import Dante.Model.Worker
import Dante.Verification.Digest
import Dante.Verification.Fencing
import Dante.Verification.StepEdges
import Dante.Verification.Attempt

/-! # Checkpoints of a queued plan

The checkpoint of a plan stands in the queue row, the outcomes of its actions stand in the
journal. Workers that take over from one another keep the first behind the second: what a
process must do for that is a protocol of leases, and a lease holder may rely on the others. -/

namespace Dante

open JsonText Relational Concurrent

variable [Platform] {db db' : Database} {w w' : World} {env : Surroundings} {r : Request}
  {reply : Except Exn r.Reply} {taskId stepId : String} {index : ℕ} {lease : Lease}

/-! ## The steps of actions -/

/-- The step that is recorded for an action of the plan. -/
def Database.actionStep (db : Database) (taskId : String) (index : ℕ) : Option StepRecord :=
  match digest (.str (actionKey index)) with
  | .ok key => db.steps.find (StepRecord.keyed taskId key)
  | .error _ => none

/-- The step of the action has the id. -/
def Database.Records (db : Database) (taskId : String) (index : ℕ) (stepId : String) : Prop :=
  ∃ step, db.actionStep taskId index = some step ∧ step.stepId = stepId

/-- The action has succeeded. -/
def Database.Done (db : Database) (taskId : String) (index : ℕ) : Prop :=
  ∃ step, db.actionStep taskId index = some step ∧ step.state = .succeeded

/-- The step has been claimed, and nothing has come of it yet. -/
def Database.InFlight (db : Database) (taskId stepId : String) : Prop :=
  ∃ step, db.stepNamed taskId stepId = some step ∧ step.state = .started

def Database.Resting (db : Database) (taskId : String) : Prop :=
  ∀ stepId, ¬db.InFlight taskId stepId

theorem actionStep_of_key {key : String} (h : digest (.str (actionKey index)) = .ok key) :
    db.actionStep taskId index = db.steps.find (StepRecord.keyed taskId key) := by
  rw [Database.actionStep, h]

theorem actionStep_iff {step : StepRecord} : db.actionStep taskId index = some step ↔
    digest (.str (actionKey index)) = .ok step.idempotencyKey ∧
      db.stepNamed taskId step.stepId = some step := by
  obtain ⟨key, hkey⟩ := digest_str (actionKey index)
  rw [actionStep_of_key hkey, hkey]
  constructor
  · intro h
    obtain ⟨hnamed, hsame⟩ := stepNamed_of_keyed h
    exact ⟨by rw [hsame], hnamed⟩
  · rintro ⟨hsame, hnamed⟩
    cases hsame
    have htask := (named_of_find hnamed).1
    refine (Table.find_eq_some_iff (StepRecord.keyed_determines _ _)).mpr
      ⟨Table.mem_of_find hnamed, ?_⟩
    simp [StepRecord.keyed, htask]

omit [Platform] in
theorem actionKey_injective : Function.Injective actionKey := by
  intro i j h
  have htext := congrArg String.toList h
  simp only [actionKey, String.toList_append, List.append_cancel_left_eq] at htext
  exact Int.ofNat.inj (toString_int_injective (m := i) (n := j) htext)

/-- A step belongs to one action. -/
theorem actionStep_unique {i j : ℕ} {step : StepRecord}
    (hi : db.actionStep taskId i = some step) (hj : db.actionStep taskId j = some step) : i = j := by
  have hsame := digest_injective (actionStep_iff.mp hi).1 (actionStep_iff.mp hj).1
  simp only [canonical, Json.str.injEq] at hsame
  exact actionKey_injective hsame

/-- A recorded action stays recorded, and its row moves along the edges of the journal. -/
theorem actionStep_perform {step : StepRecord} (h : perform env r w = (reply, w'))
    (hstep : w.db.actionStep taskId index = some step) :
    ∃ after, w'.db.actionStep taskId index = some after ∧ after.stepId = step.stepId ∧
      (after = step ∨ Edge w taskId step.stepId r (some step) (some after)) := by
  obtain ⟨hkey, hnamed⟩ := actionStep_iff.mp hstep
  rcases perform_edge h taskId step.stepId with hsame | ⟨-, hedge⟩
  · exact ⟨step, actionStep_iff.mpr ⟨hkey, hsame.trans hnamed⟩, rfl, .inl rfl⟩
  · rw [hnamed] at hedge
    obtain ⟨after, hafter, -, hsame⟩ := hedge.identity
    have hid := (named_of_find hafter).2
    refine ⟨after, actionStep_iff.mpr ⟨hsame ▸ hkey, hid.symm ▸ hafter⟩, hid, .inr ?_⟩
    rwa [hafter] at hedge

theorem records_perform (h : perform env r w = (reply, w'))
    (hrecords : w.db.Records taskId index stepId) : w'.db.Records taskId index stepId := by
  obtain ⟨step, hstep, hid⟩ := hrecords
  obtain ⟨after, hafter, hsame, -⟩ := actionStep_perform h hstep
  exact ⟨after, hafter, hsame.trans hid⟩

/-- A certificate in hand says that a step was not applied. -/
def Reopens (w : World) (taskId : String) (step : StepRecord) : Request → Prop
  | .reconcileStep id stepId artifactId _ => id = taskId ∧ stepId = step.stepId ∧
      ∃ evidence, Certified w.fs w.db taskId artifactId step .notApplied evidence
  | _ => False

/-- Only a certificate takes a success back. -/
theorem done_perform (h : perform env r w = (reply, w')) (hdone : w.db.Done taskId index) :
    w'.db.Done taskId index ∨ ∃ step, w.db.actionStep taskId index = some step ∧
      step.state = .succeeded ∧ Reopens w taskId step r := by
  obtain ⟨step, hstep, hstate⟩ := hdone
  obtain ⟨after, hafter, -, rfl | hedge⟩ := actionStep_perform h hstep
  · exact .inl ⟨after, hafter, hstate⟩
  · cases hedge with
    | applied => exact .inl ⟨_, hafter, rfl⟩
    | reopened artifactId actor evidence _ _ hcertified =>
        exact .inr ⟨step, hstep, hstate, rfl, rfl, evidence, hcertified⟩
    | claimed _ hother | finished _ _ _ hother _ | marked _ _ hother | expired hother =>
        rw [hstate] at hother
        cases hother

/-- Only a claim puts a step in flight. -/
theorem inFlight_perform (h : perform env r w = (reply, w')) (hflight : w'.db.InFlight taskId stepId) :
    w.db.InFlight taskId stepId ∨
      ∃ owner answer, r = .claimStep owner taskId stepId ∧ reply = .ok answer := by
  obtain ⟨after, hafter, hstarted⟩ := hflight
  rcases perform_edge h taskId stepId with hsame | ⟨⟨answer, hanswer⟩, hedge⟩
  · exact .inl ⟨after, hsame ▸ hafter, hstarted⟩
  · right
    rw [hafter] at hedge
    generalize w.db.stepNamed taskId stepId = before at hedge
    cases hedge with
    | claimed owner => exact ⟨owner, answer, rfl, hanswer⟩
    | _ => simp [StepRecord.prepared] at hstarted

/-! ## Leases -/

/-- The lease is the current one of its task. -/
def Database.Leased (db : Database) (lease : Lease) : Prop :=
  ∃ row, db.queue.get? lease.taskId = some row ∧ row.HeldBy lease

/-- A claim of the process has granted it the lease. -/
def OwnsLease (pid : ℕ) (lease : Lease) (s : Snapshot ledgerMachine) : Prop :=
  ∃ workerId leaseS, .call pid (.claim workerId leaseS) (.ok (some lease)) ∈ s.log

/-- What is known of leases in every run: they are numbered, and each was the current one. -/
structure LeasesKnown (s : Snapshot ledgerMachine) : Prop where
  numbered : ∀ taskId, Numbered taskId s
  granted : ∀ taskId, ∀ lease ∈ grants taskId s.log, (s.state.db.view taskId).Granted lease

theorem OwnsLease.granted {pid : ℕ} {s : Snapshot ledgerMachine} (h : OwnsLease pid lease s) :
    lease ∈ grants lease.taskId s.log := by
  obtain ⟨workerId, leaseS, hmem⟩ := h
  refine List.mem_filterMap.mpr ⟨_, hmem, ?_⟩
  simp [grantIn, moveOf, claimMove]

omit [Platform] in
/-- Two members with one image are the same where no image is repeated. -/
theorem eq_of_filterMap {α β : Type} {f : α → Option β} {l : List α} {a b : α} {x : β}
    (h : (l.filterMap f).Nodup) (ha : a ∈ l) (hb : b ∈ l) (hfa : f a = some x)
    (hfb : f b = some x) : a = b := by
  induction l with
  | nil => cases ha
  | cons c rest ih =>
      have hmem {d : α} (hd : d ∈ rest) (hfd : f d = some x) : x ∈ rest.filterMap f :=
        List.mem_filterMap.mpr ⟨d, hd, hfd⟩
      rw [List.filterMap_cons] at h
      rcases List.mem_cons.mp ha with rfl | ha'
      · rcases List.mem_cons.mp hb with rfl | hb'
        · rfl
        · rw [hfa] at h
          exact absurd (hmem hb' hfb) (List.nodup_cons.mp h).1
      · rcases List.mem_cons.mp hb with rfl | hb'
        · rw [hfb] at h
          exact absurd (hmem ha' hfa) (List.nodup_cons.mp h).1
        · apply ih _ ha' hb'
          cases hc : f c with
          | none => rwa [hc] at h
          | some y =>
              rw [hc] at h
              exact (List.nodup_cons.mp h).2

/-- No lease is granted to two processes. -/
theorem OwnsLease.unique {pid other : ℕ} {s : Snapshot ledgerMachine} (hknown : LeasesKnown s)
    (h : OwnsLease pid lease s) (hother : OwnsLease other lease s) : pid = other := by
  obtain ⟨workerId, leaseS, hmem⟩ := h
  obtain ⟨workerId', leaseS', hmem'⟩ := hother
  have hnumbered := hknown.numbered lease.taskId
  have hnodup : (grants lease.taskId s.log).Nodup := by
    apply List.Nodup.of_map Lease.generation
    rw [hnumbered.generations]
    exact List.nodup_range'
  have hsame := eq_of_filterMap (x := lease) hnodup hmem hmem' (by simp [grantIn, moveOf, claimMove])
    (by simp [grantIn, moveOf, claimMove])
  cases hsame
  rfl

omit [Platform] in
/-- A lease that was just granted is the current one. -/
theorem Lifecycle.held_of_grant {move : Move} {v v' : View} (h : Lifecycle move v v')
    (hlease : move.lease = some lease) : v'.Granted lease := by
  cases h with
  | granted =>
      cases hlease
      exact .inl ⟨_, rfl, rfl, rfl, rfl, rfl⟩
  | _ => cases hlease

theorem leases_known {s : System ledgerMachine} (h : Reachable anyRun s) : LeasesKnown s.snap := by
  refine ⟨numbered h, fun taskId => ?_⟩
  refine h.snapshot_invariant (J := fun s : Snapshot ledgerMachine =>
    ∀ lease ∈ grants taskId s.log, (s.state.db.view taskId).Granted lease) ?_ ?_ ?_ ?_ ?_
  · intro w _ lease hlease
    cases hlease
  · intro s pid r env reply w hs _ hperform lease hlease
    have hmove := perform_lifecycle hperform taskId
    rw [Snapshot.after_log, grants_call, List.mem_append] at hlease
    rcases hlease with hold | hnew
    · exact hmove.granted_stays (hs lease hold)
    · exact hmove.held_of_grant (Option.mem_toList.mp hnew)
  · intro s pid hs lease hlease
    have hsame : grants taskId (s.after s.state (.spawn pid)).log = grants taskId s.log := by
      simp [grants, grantIn]
    exact hs lease (hsame ▸ hlease)
  · intro s pid hs lease hlease
    have hsame : grants taskId (s.after s.state (.crash pid)).log = grants taskId s.log := by
      simp [grants, grantIn]
    exact hs lease (hsame ▸ hlease)
  · intro s w hs hdrift lease hlease
    rw [hdrift.view_eq]
    exact hs lease hlease

/-- A lease that was granted is never regained. -/
theorem leased_back (h : perform env r w = (reply, w'))
    (hgranted : (w.db.view lease.taskId).Granted lease) (hleased : w'.db.Leased lease) :
    w.db.Leased lease := by
  rcases hgranted with hheld | hpast
  · exact hheld
  · obtain ⟨row, hrow, hheld⟩ := hleased
    obtain ⟨row', hrow', hpast'⟩ := (perform_lifecycle h lease.taskId).past hpast
    cases hrow.symm.trans hrow'
    exact absurd hheld hpast'.not_heldBy

omit [Platform] in
/-- A request that passes the check of a lease on a queued task holds the current lease. -/
theorem Database.Permits.leased {now : ℚ} {beforeEffect : Bool} {owner : Option Lease}
    {row : QueueRow} (h : db.Permits now taskId beforeEffect owner)
    (hrow : db.queue.get? taskId = some row) :
    ∃ held, owner = some held ∧ held.taskId = taskId ∧ row.HeldBy held := by
  obtain ⟨held, _, howner, hheld, -⟩ := h row hrow
  exact ⟨held, howner, hheld.1.symm.trans (taskId_of_get? hrow), hheld⟩

/-! ## Queue rows -/

omit [Platform] in
/-- The plan of a task is never changed, and its checkpoint only by an advance. -/
theorem Lifecycle.plan_stays {move : Move} {v v' : View} {row : QueueRow}
    (h : Lifecycle move v v') (hrow : v.row = some row) :
    ∃ row', v'.row = some row' ∧ row'.plan = row.plan ∧
      (row'.nextAction = row.nextAction ∨
        move = .advanced ∧ row'.nextAction = row.nextAction + 1) := by
  cases h with
  | submitted => cases hrow
  | advanced =>
      cases hrow
      exact ⟨_, rfl, rfl, .inr ⟨rfl, rfl⟩⟩
  | stay => exact ⟨row, hrow, rfl, .inl rfl⟩
  | already => exact ⟨row, hrow, rfl, .inl rfl⟩
  | created => exact ⟨row, hrow, rfl, .inl rfl⟩
  | moved => exact ⟨row, hrow, rfl, .inl rfl⟩
  | _ =>
      cases hrow
      exact ⟨_, rfl, rfl, .inl rfl⟩

omit [Platform] in
/-- A queued task was queued before, or is a new one. -/
theorem Lifecycle.queued_before {move : Move} {v v' : View} {row' : QueueRow}
    (h : Lifecycle move v v') (hrow' : v'.row = some row') :
    (∃ row, v.row = some row) ∨ v = ⟨none, none⟩ ∧ row'.nextAction = 0 := by
  cases h with
  | submitted =>
      cases hrow'
      exact .inr ⟨rfl, rfl⟩
  | stay => exact .inl ⟨row', hrow'⟩
  | already => exact .inl ⟨row', hrow'⟩
  | created => exact .inl ⟨row', hrow'⟩
  | moved => exact .inl ⟨row', hrow'⟩
  | _ => exact .inl ⟨_, rfl⟩

/-- The task was cancelled while nobody ran it. -/
def View.CalledOff (v : View) : Prop :=
  ∃ row, v.row = some row ∧ row.state = .done ∧ row.cancelRequested = true ∧
    v.status = some .cancelled

omit [Platform] in
theorem Lifecycle.calledOff_stays {move : Move} {v v' : View} (h : Lifecycle move v v')
    (hv : v.CalledOff) : v'.CalledOff := by
  obtain ⟨row, hrow, hdone, hrequested, hstatus⟩ := hv
  cases h with
  | stay => exact ⟨row, hrow, hdone, hrequested, hstatus⟩
  | already => exact ⟨row, hrow, hdone, hrequested, hstatus⟩
  | advanced =>
      cases hrow
      exact ⟨_, rfl, hdone, hrequested, hstatus⟩
  | created | submitted => cases hstatus
  | moved hallowed =>
      cases hstatus
      simp [transitions] at hallowed
  | granted _ _ _ hready =>
      cases hrow
      rw [hready] at hdone
      cases hdone
  | renewed _ _ haccepts =>
      cases hrow
      rw [haccepts.leased] at hdone
      cases hdone
  | ended _ _ _ _ hleased | flagged _ hleased =>
      cases hrow
      rw [hleased] at hdone
      cases hdone
  | cancelled hlive | retried _ _ _ hlive =>
      cases hstatus
      cases hlive

/-! ### The end of a lease -/

omit [Platform] in
theorem Doubted.inFlight {before after : Option StepRecord} {step : StepRecord}
    (h : Doubted before after) (hafter : after = some step) (hstarted : step.state = .started) :
    before = some step := by
  rcases h with rfl | ⟨s, -, -, rfl⟩
  · exact hafter
  · cases hafter
    cases hstarted

omit [Platform] in
theorem recoverRows_resting {rows : List QueueRow}
    (h : rows.foldlM (fun db row => recoverRow row db) db = .ok db')
    (hrest : db.Resting taskId ∨ ∃ row ∈ rows, row.taskId = taskId) : db'.Resting taskId := by
  induction rows generalizing db with
  | nil =>
      cases h
      rcases hrest with hrest | ⟨row, hrow, -⟩
      · exact hrest
      · cases hrow
  | cons row rest ih =>
      simp only [List.foldlM_cons, Except.bind_eq_ok] at h
      obtain ⟨next, hnext, hlast⟩ := h
      apply ih hlast
      by_cases hid : row.taskId = taskId
      · left
        rintro stepId ⟨step, hstep, hstarted⟩
        rw [Database.stepNamed, recoverRow_steps hnext, Database.expireSteps,
          find_updateSteps] at hstep
        obtain ⟨before, hbefore, rfl⟩ := Option.map_eq_some_iff.mp hstep
        have htask := (named_of_find hbefore).1
        split at hstarted
        next => cases hstarted
        next hp => simp [htask, hid, hstarted] at hp
      · rcases hrest with hrest | ⟨other, hother, hsame⟩
        · left
          rintro stepId ⟨step, hstep, hstarted⟩
          exact hrest stepId ⟨step, (recoverRow_doubts hnext).inFlight hstep hstarted, hstarted⟩
        · rcases List.mem_cons.mp hother with rfl | hother
          · exact absurd hsame hid
          · exact .inr ⟨other, hother, hsame⟩

omit [Platform] in
/-- Recovery resolves what was in flight under a lease that it ends. -/
theorem recoverExpired_resting {n : ℕ} {now : ℚ} (h : recoverExpired now db = .ok (n, db')) :
    db'.Resting taskId ∨ db'.queue.get? taskId = db.queue.get? taskId := by
  by_cases hvisited : ∃ row ∈ db.queue.rows.filter (QueueRow.expired now), row.taskId = taskId
  · exact .inl (recoverRows_resting (recoverExpired_ok h) (.inr hvisited))
  · right
    have hview : db'.view taskId = db.view taskId := recoverRows_view_ne
      (fun row hrow hid => hvisited ⟨row, hrow, hid.symm⟩) (recoverExpired_ok h)
    exact congrArg View.row hview

omit [Platform] in
/-- A row stays leased under an update that leaves leased rows so. -/
theorem leased_updateQueue {f : QueueRow → QueueRow} {hf : ∀ r, (f r).taskId = r.taskId}
    {id : String} {row row' : QueueRow} (hrow : db.queue.get? taskId = some row)
    (hrow' : (db.updateQueue id f hf).queue.get? taskId = some row')
    (hstate : db.queue.get? id = some row → (f row).state = .leased)
    (hleased : row.state = .leased) : row'.state = .leased := by
  rw [Database.updateQueue_queue, Table.get?_modify, hrow] at hrow'
  split at hrow'
  next hid =>
    cases hrow'
    exact hstate (hid ▸ hrow)
  next =>
    cases hrow'
    exact hleased

omit [Platform] in
/-- A cancellation leaves a lease alone, or closes the row. -/
theorem cancel_leased {id : String} {now : ℚ} {u : Unit} {row : QueueRow}
    (h : cancel id now db = .ok (u, db')) (hrow : db.queue.get? taskId = some row)
    (hleased : row.state = .leased) :
    (∃ row', (db'.view taskId).row = some row' ∧ row'.state = .leased) ∨
      (db'.view taskId).CalledOff := by
  obtain ⟨row₁, taskRow, hrow₁, htask, hcancel⟩ := cancel_ok h
  have hid := taskId_of_task htask
  by_cases hne : taskId = id
  · subst hne
    cases hrow.symm.trans hrow₁
    cases hcancel with
    | ended hterm => exact .inl ⟨row, hrow, hleased⟩
    | flagged logged hlogged hlive hstate hcurrent =>
        rw [view_log, view_updateQueue_self, view_of_get? htask hrow]
        exact .inl ⟨_, rfl, hleased⟩
    | closed logged hlogged hlive =>
        rw [view_log, view_updateQueue_self, cancelled_tasks, if_pos hid.symm,
          view_updateQueue_self, view_of_get? htask hrow]
        exact .inr ⟨_, rfl, rfl, rfl, rfl⟩
  · left
    refine ⟨row, ?_, hleased⟩
    cases hcancel with
    | ended hterm => exact hrow
    | flagged logged hlogged hlive hstate hcurrent =>
        rw [view_log, view_updateQueue_ne _ hne]
        exact hrow
    | closed logged hlogged hlive =>
        rw [view_log, view_updateQueue_ne _ hne, cancelled_tasks, if_neg (hid ▸ hne),
          view_updateQueue_ne _ hne]
        exact hrow

theorem release_elsewhere {lease : Lease} {blocked : Option String} {retryAt : Option ℚ} {now : ℚ}
    {u : Unit} (h : release lease blocked retryAt now db = .ok (u, db'))
    (hne : taskId ≠ lease.taskId) : db'.queue.get? taskId = db.queue.get? taskId := by
  obtain ⟨_, _, _, mid, late, _, -, htask, -, hcancel, hlate, -, rfl⟩ := release_ok h
  obtain ⟨_, _, hview⟩ := scheduleRetry_view taskId hlate
  have hid := taskId_of_task htask
  have hsame : (late.view taskId).row = (db.view taskId).row := by
    rw [hview, if_neg hne, view_updateQueue_ne _ hne, hcancel.view_ne (hid.symm ▸ hne)]
  exact hsame

/-- A lease ends with a release of its owner, or recovery resolves the steps in flight, or the
row is closed on request. -/
theorem lease_ended {row row' : QueueRow} (h : perform env r w = (reply, w'))
    (hrow : w.db.queue.get? taskId = some row) (hleased : row.state = .leased)
    (hrow' : w'.db.queue.get? taskId = some row') (hended : row'.state ≠ .leased) :
    r = .recoverExpired ∧ w'.db.Resting taskId ∨
      (∃ lease blocked retryAt, r = .release lease blocked retryAt ∧ row.HeldBy lease) ∨
      (w'.db.view taskId).CalledOff := by
  have hchanged : w'.db.queue.get? taskId ≠ w.db.queue.get? taskId := by
    intro hsame
    rw [hsame, hrow] at hrow'
    cases hrow'
    exact hended hleased
  cases r with
  | recoverExpired =>
      rcases commit_cases h with ⟨_, db', hx, -, rfl⟩ | ⟨-, -, -, rfl⟩
      · exact .inl ⟨rfl, (recoverExpired_resting hx).resolve_right hchanged⟩
      · exact absurd rfl hchanged
  | release lease blocked retryAt =>
      rcases commit_cases h with ⟨_, db', hx, -, rfl⟩ | ⟨-, -, -, rfl⟩
      · by_cases hid : taskId = lease.taskId
        · subst hid
          obtain ⟨_, _, _, _, _, _, -, -, hpermit, -⟩ := release_ok hx
          obtain ⟨_, howner, -, hheld⟩ := hpermit.leased hrow
          cases howner
          exact .inr (.inl ⟨lease, blocked, retryAt, rfl, hheld⟩)
        · exact absurd (release_elsewhere hx hid) hchanged
      · exact absurd rfl hchanged
  | submit =>
      rcases commit_cases h with ⟨_, db', hx, -, rfl⟩ | ⟨-, -, -, rfl⟩
      · obtain ⟨_, _, queue, _, -, -, -, -, -, hqueue, rfl⟩ := submit_ok hx
        rcases get?_insert_cases hqueue taskId with ⟨-, hfree, -⟩ | ⟨-, hold⟩
        · cases hfree.symm.trans hrow
        · exact absurd hold hchanged
      · exact absurd rfl hchanged
  | claim =>
      rcases commit_cases h with ⟨_, db', hx, -, rfl⟩ | ⟨-, -, -, rfl⟩
      · obtain ⟨-, ⟨-, rfl, -⟩ | ⟨_, _, -, -, -, rfl⟩⟩ := claim_ok hx
        · exact absurd rfl hchanged
        · rw [Database.event_queue] at hrow'
          exact absurd (leased_updateQueue hrow hrow' (fun _ => rfl) hleased) hended
      · exact absurd rfl hchanged
  | heartbeat =>
      rcases commit_cases h with ⟨_, db', hx, -, rfl⟩ | ⟨-, -, -, rfl⟩
      · obtain ⟨_, -, -, rfl⟩ := heartbeat_ok hx
        rw [Database.event_queue] at hrow'
        exact absurd (leased_updateQueue hrow hrow' (fun _ => hleased) hleased) hended
      · exact absurd rfl hchanged
  | advance =>
      rcases commit_cases h with ⟨_, db', hx, -, rfl⟩ | ⟨-, -, -, rfl⟩
      · obtain ⟨_, _, -, -, -, -, rfl⟩ := advance_ok hx
        rw [Database.event_queue] at hrow'
        exact absurd (leased_updateQueue hrow hrow' (fun _ => hleased) hleased) hended
      · exact absurd rfl hchanged
  | cancel =>
      rcases commit_cases h with ⟨_, db', hx, -, rfl⟩ | ⟨-, -, -, rfl⟩
      · rcases cancel_leased hx hrow hleased with ⟨kept, hkept, hstill⟩ | hclosed
        · cases hkept.symm.trans hrow'
          exact absurd hstill hended
        · exact .inr (.inr hclosed)
      · exact absurd rfl hchanged
  | retry =>
      rcases commit_cases h with ⟨_, db', hx, -, rfl⟩ | ⟨-, -, -, rfl⟩
      · obtain ⟨_, _, _, hrow₁, -, -, -, hfree, -, rfl⟩ := retry_ok hx
        rw [Database.log_queue] at hrow'
        refine absurd (leased_updateQueue hrow hrow' (fun hid => ?_) hleased) hended
        cases hrow₁.symm.trans hid
        exact absurd hleased hfree
      · exact absurd rfl hchanged
  -- the other requests leave the queue alone
  | _ =>
      have hqueue := perform_writes h .queue (by simp [Request.writes])
      exact absurd (congrArg (fun t : Table QueueRow => t.get? taskId) hqueue) hchanged

/-! ## The protocol -/

/-- The call is the one that the plan has at this place. -/
def ToolCall.Follows (c : ToolCall) (plan : ExecutionPlan) (index : ℕ) : Prop :=
  ∃ action, plan.actions[index]? = some action ∧ c.idempotencyKey = some (actionKey index) ∧
    c.toolId = action.toolId ∧ c.arguments = action.arguments

/-- The task can be retried, or has ended. -/
def Database.Parked (db : Database) (taskId : String) : Prop :=
  ∀ status, (db.view taskId).status = some status → status = .failedRetryable ∨ status.terminal = true

/-- A worker has taken the task up. -/
def TaskStatus.begun : TaskStatus → Bool
  | .created | .planned | .waitingApproval => false
  | _ => true

/-- What a process may ask of a queued task: with its only lease, in the order of the plan. -/
def Request.PermittedTo (pid : ℕ) (s : Snapshot ledgerMachine) : Request → Prop
  | .claim .. => ∀ lease, OwnsLease pid lease s → ¬s.state.db.Leased lease
  | .prepareStep _ taskId _ _ _ key => ∀ row, s.state.db.queue.get? taskId = some row →
      ∃ index < row.plan.actions.length, key = some (actionKey index)
  | .claimStep owner taskId stepId => ∃ lease index, owner = some lease ∧
      OwnsLease pid lease s ∧ s.state.db.Records taskId index stepId ∧
      (s.state.db.Leased lease → ∀ earlier < index, s.state.db.Done taskId earlier)
  | .runTool c => ∀ row, s.state.db.queue.get? c.taskId = some row →
      ∃ index, c.Follows row.plan index ∧ s.state.db.Records c.taskId index c.stepId
  | .finishStep _ taskId stepId _ => ∃ other c reply, .call other (.runTool c) reply ∈ s.log ∧
      c.taskId = taskId ∧ c.stepId = stepId
  | .advance lease index => OwnsLease pid lease s ∧ (s.state.db.Leased lease →
      s.state.db.Done lease.taskId index ∧ ∀ row, s.state.db.queue.get? lease.taskId = some row →
        index < row.plan.actions.length)
  | .transition owner taskId target _ _ => target ≠ .waitingApproval ∧
      ∃ lease, owner = some lease ∧ OwnsLease pid lease s ∧
        (target = .completed → s.state.db.Leased lease → ∀ row,
          s.state.db.queue.get? taskId = some row →
            ∀ index < row.plan.actions.length, s.state.db.Done taskId index)
  | .release lease blocked _ => OwnsLease pid lease s ∧ (s.state.db.Leased lease →
      s.state.db.Resting lease.taskId ∧ (blocked.isSome = true → s.state.db.Parked lease.taskId))
  | _ => True

/-- What the holder of a lease may rely on, for as long as it holds it. -/
structure LeaseRely (pid : ℕ) (s s' : Snapshot ledgerMachine) : Prop where
  own : ownLog pid s'.log = ownLog pid s.log
  log : ∀ e ∈ s.log, e ∈ s'.log
  queued : ∀ taskId row, s.state.db.queue.get? taskId = some row →
    ∃ row', s'.state.db.queue.get? taskId = some row' ∧ row'.plan = row.plan
  recorded : ∀ taskId index stepId, s.state.db.Records taskId index stepId →
    s'.state.db.Records taskId index stepId
  leased : ∀ lease, OwnsLease pid lease s → s'.state.db.Leased lease → s.state.db.Leased lease
  done : ∀ lease, OwnsLease pid lease s → s'.state.db.Leased lease → ∀ index,
    s.state.db.Done lease.taskId index → s'.state.db.Done lease.taskId index
  inFlight : ∀ lease, OwnsLease pid lease s → s'.state.db.Leased lease → ∀ stepId,
    s'.state.db.InFlight lease.taskId stepId → s.state.db.InFlight lease.taskId stepId
  status : ∀ lease, OwnsLease pid lease s → s'.state.db.Leased lease →
    (s'.state.db.view lease.taskId).status = (s.state.db.view lease.taskId).status
  checkpoint : ∀ lease, OwnsLease pid lease s → s'.state.db.Leased lease →
    (s'.state.db.queue.get? lease.taskId).map QueueRow.nextAction =
      (s.state.db.queue.get? lease.taskId).map QueueRow.nextAction
  stopped : ∀ workerId ∈ s.state.stopped, workerId ∈ s'.state.stopped

/-- The checkpoints of all queued tasks stand behind the journal. -/
structure Checkpointed (s : Snapshot ledgerMachine) : Prop where
  planned : ∀ taskId row stepId step, s.state.db.queue.get? taskId = some row →
    s.state.db.stepNamed taskId stepId = some step →
      ∃ index < row.plan.actions.length, s.state.db.actionStep taskId index = some step
  reached : ∀ taskId row, s.state.db.queue.get? taskId = some row →
    row.nextAction ≤ row.plan.actions.length
  done : ∀ taskId row, s.state.db.queue.get? taskId = some row →
    ∀ index < row.nextAction, s.state.db.Done taskId index
  known : ∀ taskId stepId step, s.state.db.stepNamed taskId stepId = some step →
    (s.state.db.tasks.get? taskId).isSome = true
  resting : ∀ taskId row, s.state.db.queue.get? taskId = some row → row.state ≠ .leased →
    s.state.db.Resting taskId ∨ (s.state.db.view taskId).CalledOff
  blocked : ∀ taskId row, s.state.db.queue.get? taskId = some row → row.state = .blocked →
    (s.state.db.view taskId).status = some .failedRetryable
  unapproved : ∀ taskId row, s.state.db.queue.get? taskId = some row →
    (s.state.db.view taskId).status ≠ some .waitingApproval
  single : ∀ pid lease other, OwnsLease pid lease s → OwnsLease pid other s →
    s.state.db.Leased lease → s.state.db.Leased other → lease = other

def queueProtocol : Protocol ledgerMachine where
  inv := Checkpointed
  rely := LeaseRely
  permit pid r s := r.PermittedTo pid s

/-! ## Workers among others -/

/-- Requests that run no tool, take no lease and speak for no worker. -/
def Request.Bystander : Request → Prop
  | .transition .. | .checkpoint .. | .setRoute .. | .prepareStep .. | .claimStep ..
  | .finishStep .. | .markUncertain .. | .claim .. | .advance .. | .release .. | .runTool .. => False
  | _ => True

/-- No success is certified as not applied behind the checkpoint, or under a lease. -/
def Timely (w : World) : Request → Prop
  | .reconcileStep taskId stepId artifactId _ => ∀ row index step evidence,
      w.db.queue.get? taskId = some row → w.db.actionStep taskId index = some step →
      step.stepId = stepId → step.state = .succeeded →
      Certified w.fs w.db taskId artifactId step .notApplied evidence →
        row.nextAction ≤ index ∧ row.state ≠ .leased
  | _ => True

/-- Any number of workers, and any processes that leave tools and leases to them. -/
def queueRun : Rules ledgerMachine where
  start := World.Fresh
  program p := (∃ worker rounds, p = Programs.run worker rounds) ∨ p.Uses Request.Bystander
  admits _ r s := Timely s.state r

/-- The same rules, with what is known of leases. -/
abbrev leaseRun : Rules ledgerMachine :=
  queueRun.knowing fun _ _ s => LeasesKnown s

end Dante
