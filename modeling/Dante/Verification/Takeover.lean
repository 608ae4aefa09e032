import Dante.Verification.PlanOrder

/-! # Workers that take over from one another

What any number of workers, among bystanders, keep in every run: the checkpoints of plans stand
behind the journal, steps are claimed in the order of the plan, and nobody disturbs the holder of
a lease. -/

namespace Dante

open JsonText Relational Concurrent Program Programs

section Runs

variable [Platform] {s s' : System ledgerMachine} {taskId stepId : String} {row : QueueRow}
  {lease other : Lease} {pid : ℕ} {worker : Worker}

/-! ## Checkpoints -/

/-- The checkpoint of a queued task never passes the end of its plan, all actions before it have
succeeded, and every step on record belongs to exactly one action of the plan. -/
theorem checkpoint_behind_journal (h : Reachable queueRun s)
    (hrow : s.snap.state.db.queue.get? taskId = some row) :
    row.nextAction ≤ row.plan.actions.length ∧
      (∀ index < row.nextAction, ∃ step,
        s.snap.state.db.actionStep taskId index = some step ∧ step.state = .succeeded) ∧
      ∀ stepId step, s.snap.state.db.stepNamed taskId stepId = some step →
        ∃! index, index < row.plan.actions.length ∧
          s.snap.state.db.actionStep taskId index = some step := by
  have hinv := (keeps_queueProtocol h).inv
  refine ⟨hinv.reached taskId row hrow, hinv.done taskId row hrow, fun stepId step hstep => ?_⟩
  obtain ⟨index, hindex, haction⟩ := hinv.planned taskId row stepId step hrow hstep
  refine ⟨index, ⟨hindex, haction⟩, ?_⟩
  rintro place ⟨-, hplace⟩
  exact actionStep_unique hplace haction

/-- A process whose claim of a step of a queued task goes through holds the task's lease, which it
was granted itself, and all earlier actions of the plan have succeeded. -/
theorem claimed_in_order {owner : Option Lease} {env : Surroundings} {answer : Unit} {w : World}
    {next : Except Exn Unit → Prog Unit} (h : Reachable queueRun s)
    (hthread : s.threads[pid]? = some (some (.request (.claimStep owner taskId stepId) next)))
    (hperform : perform env (.claimStep owner taskId stepId) s.snap.state = (.ok answer, w))
    (hrow : s.snap.state.db.queue.get? taskId = some row) :
    ∃ lease index, owner = some lease ∧ OwnsLease pid lease s.snap ∧ row.HeldBy lease ∧
      s.snap.state.db.Records taskId index stepId ∧
      ∀ earlier < index, s.snap.state.db.Done taskId earlier := by
  have hpermit := (keeps_queueProtocol h).permitted queueProtocol_sound hthread
    ⟨trivial, queue_leases h⟩
  obtain ⟨lease, index, rfl, howns, hrecords, hearlier⟩ := hpermit
  obtain ⟨held, howner, hheld⟩ := claim_held hperform hrow
  cases howner
  obtain ⟨rfl, hleased⟩ := Database.leased_of_heldBy hrow hheld
  exact ⟨lease, index, rfl, howns, hheld, hrecords, hearlier hleased⟩

/-! ## Rows at rest -/

/-- A step of a queued task is in flight under a lease only, or the task was cancelled after its
lease had run out. -/
theorem in_flight_leased {step : StepRecord} (h : Reachable queueRun s)
    (hrow : s.snap.state.db.queue.get? taskId = some row)
    (hstep : s.snap.state.db.stepNamed taskId stepId = some step) (hstate : step.state = .started) :
    row.state = .leased ∨ row.state = .done ∧ row.cancelRequested = true ∧
      (s.snap.state.db.view taskId).status = some .cancelled := by
  by_cases hleased : row.state = .leased
  · exact .inl hleased
  · rcases (keeps_queueProtocol h).inv.resting taskId row hrow hleased with hrest | hcalled
    · exact absurd ⟨step, hstep, hstate⟩ (hrest stepId)
    · obtain ⟨closed, hclosed, hdone, hrequested, hstatus⟩ := hcalled
      cases hclosed.symm.trans hrow
      exact .inr ⟨hdone, hrequested, hstatus⟩

/-- A retry that is due makes the row ready again. -/
theorem retry_of_blocked {db : Database} {taskRow : TaskRow} {delayS : ℚ} (now : ℚ)
    (hrow : db.queue.get? taskId = some row) (htask : db.tasks.get? taskId = some taskRow)
    (hstate : row.state = .blocked) (hrequested : row.cancelRequested = false)
    (hlive : taskRow.payload.status.terminal = false) (hdelay : 0 < delayS) :
    ∃ db', retry taskId delayS now db = .ok ((), db') ∧ db'.tasks = db.tasks ∧
      db'.continuity = db.continuity ∧
      db'.queue.get? taskId = some { row with
        state := .ready, retryCount := row.retryCount + 1, nextAttemptAt := now + delayS } := by
  have hsuccess : ∃ answer, retry taskId delayS now db = .ok answer := by
    simp [retry, positive, require, hdelay, hrow, htask, orRaise, hrequested, hlive, hstate, queueEvent,
      Bind.bind, Except.bind, Pure.pure, Except.pure]
  obtain ⟨⟨_, db'⟩, hretry⟩ := hsuccess
  obtain ⟨_, _, logged, -, -, -, -, -, -, rfl⟩ := retry_ok hretry
  refine ⟨_, hretry, rfl, rfl, ?_⟩
  rw [Database.log_queue, Database.updateQueue_queue, Table.get?_modify, if_pos rfl, hrow]
  rfl

/-- A blocked task is never lost: a retry succeeds, and once its delay is over the task is there
to be claimed, at the checkpoint where it stopped. -/
theorem blocked_resumes {delayS : ℚ} (h : Reachable queueRun s)
    (hrow : s.snap.state.db.queue.get? taskId = some row) (hblocked : row.state = .blocked)
    (hdelay : 0 < delayS) (env : Surroundings) :
    (s.snap.state.db.view taskId).status = some .failedRetryable ∧
      ∃ w row', perform env (.retry taskId delayS) s.snap.state = (.ok (), w) ∧
        w.db.queue.get? taskId = some row' ∧ row'.plan = row.plan ∧
        row'.nextAction = row.nextAction ∧
        ∀ now, env.clock 0 + delayS ≤ now →
          ((w.db.continuity.get? taskId).bind ContinuityRow.nextAttemptAt).getD 0 ≤ now →
            row'.claimable w.db now = true := by
  have hstatus := (keeps_queueProtocol h).inv.blocked taskId row hrow hblocked
  obtain ⟨taskRow, htask, hconsistent⟩ := ((queue_leases h).numbered taskId).task hrow
  have htaskStatus : taskRow.payload.status = .failedRetryable := by
    simpa [Database.view, htask] using hstatus
  have hrequested : row.cancelRequested = false := by
    by_contra hset
    rcases hconsistent.cancel_closed (by simpa using hset) with hleased | hdone
    · cases hblocked.symm.trans hleased
    · cases hblocked.symm.trans hdone
  have hlive : taskRow.payload.status.terminal = false := by rw [htaskStatus]; rfl
  obtain ⟨db', hretry, htasks, hcontinuity, hrow'⟩ :=
    retry_of_blocked (env.clock 0) hrow htask hblocked hrequested hlive hdelay
  refine ⟨hstatus, { s.snap.state with db := db' }, _, ?_, hrow', rfl, rfl, ?_⟩
  · simp only [perform, hretry]
    rfl
  · intro now hdue hresume
    have hid := taskId_of_get? hrow
    simp only [QueueRow.claimable, hid, htasks, htask, hrequested, Option.any_some, hlive]
    simp only [Bool.and_eq_true, decide_eq_true_eq]
    simp [hdue, hresume]

/-! ## The holder of a lease -/

/-- No process holds two current leases. -/
theorem one_lease_each (h : Reachable queueRun s) (hown : OwnsLease pid lease s.snap)
    (hother : OwnsLease pid other s.snap) (hleased : s.snap.state.db.Leased lease)
    (hcurrent : s.snap.state.db.Leased other) : lease = other :=
  (keeps_queueProtocol h).inv.single pid lease other hown hother hleased hcurrent

/-! ## Workers that have ended -/

theorem Retired.rely {s s' : Snapshot ledgerMachine} (h : Retired worker pid s)
    (hrely : LeaseRely pid s s') : Retired worker pid s' := by
  rcases h with hstopped | hfree
  · exact .inl (hrely.stopped _ hstopped)
  · exact .inr (hfree.rely hrely)

end Runs

/-! ## Runs of a worker or two -/

/-- The claim that the process is about to make, if the ledger accepts it. -/
def acceptedClaim [Platform] (env : Surroundings) (s : System ledgerMachine) (pid : ℕ) :
    Option (Option Lease × String × String) :=
  match s.threads[pid]? with
  | some (some (.request (.claimStep owner taskId stepId) _)) =>
      if (perform env (.claimStep owner taskId stepId) s.snap.state).1.isOk then
        some (owner, taskId, stepId)
      else none
  | _ => none

theorem acceptedClaim_eq_some [Platform] {env : Surroundings} {s : System ledgerMachine} {pid : ℕ}
    {owner : Option Lease} {taskId stepId : String}
    (h : acceptedClaim env s pid = some (owner, taskId, stepId)) : ∃ next answer w,
      s.threads[pid]? = some (some (.request (.claimStep owner taskId stepId) next)) ∧
        perform env (.claimStep owner taskId stepId) s.snap.state = (.ok answer, w) := by
  unfold acceptedClaim at h
  split at h
  next hthread =>
    split at h
    next hok =>
      cases h
      refine ⟨_, (), _, hthread, Prod.ext ?_ rfl⟩
      cases hx : (perform env (.claimStep owner taskId stepId) s.snap.state).1 with
      | ok answer => rfl
      | error e => simp [hx, Except.isOk, Except.toBool] at hok
    next => cases h
  next => cases h

/-- The lease that an event grants to the process. -/
def grantedTo (pid : ℕ) : Event Request.Reply Exn → Option Lease
  | .call other (.claim _ _) (.ok (some lease)) => if other = pid then some lease else none
  | _ => none

/-- The thread has come to its end. -/
def isEnded : Option (Option (Prog Unit)) → Bool
  | some (some (.ret _)) => true
  | _ => false

section Lone

local instance takeoverPlatform : Platform := .reference []

namespace Sample

/-- A worker that has made so many requests for two actions, in the given surroundings. -/
def lone (n : ℕ) (env : Surroundings) : System ledgerMachine :=
  (((fresh []).script [(moment 0 "", .submit task twice)]).started (run (worker "first") 1)).driven 1
    (List.replicate n env)

/-- The surroundings in which its handlers succeed. -/
def succeeding : Surroundings :=
  answering 0 "one" [("ok", .bool true)]

/-- Another worker looks for work while the first one is at it. -/
def idle : System ledgerMachine :=
  ((lone 24 succeeding).started (run (worker "second") 1)).driven 2 (List.replicate 6 (moment 1 "two"))

/-- A worker that finds nothing to do. -/
def unemployed : System ledgerMachine :=
  ((fresh []).started (run (worker "first") 1)).driven 0 (List.replicate 4 (moment 0 ""))

/-- No request of the worker uses a certificate. -/
def plainly (n : ℕ) (env : Surroundings) : Bool :=
  (((fresh []).script [(moment 0 "", .submit task twice)]).started
    (run (worker "first") 1)).drivenPasses (fun _ r _ => r.isPlain) 1 (List.replicate n env)

theorem lone_reachable {n : ℕ} {env : Surroundings} (h : plainly n env = true) :
    Reachable queueRun (lone n env) := by
  have hworker := submitted_reachable.step
    (.spawn _ (run (worker "first") 1) (.inl ⟨worker "first", 1, rfl⟩))
  exact planned_queueRun (hworker.steps (driven_plainly h))

/-- What can be read off these runs. -/
theorem observed :
    plainly 35 succeeding = true ∧ plainly 24 succeeding = true ∧ plainly 23 succeeding = true ∧
      plainly 31 (moment 0 "one") = true ∧
      ((lone 24 succeeding).started (run (worker "second") 1)).drivenPasses (fun _ r _ => r.isPlain) 2
        (List.replicate 6 (moment 1 "two")) = true ∧
      ((fresh []).started (run (worker "first") 1)).drivenPasses (fun _ r _ => r.isPlain) 0
        (List.replicate 4 (moment 0 "")) = true ∧
      (∃ row ∈ (lone 35 succeeding).snap.state.db.queue.get? "task", row.nextAction = 1) ∧
      acceptedClaim succeeding (lone 23 succeeding) 1 =
        some (some ⟨"task", "first", 1⟩, "task", "one") ∧
      ((lone 23 succeeding).snap.state.db.queue.get? "task").isSome = true ∧
      ((lone 24 succeeding).snap.state.db.queue.get? "task").isSome = true ∧
      (∃ step ∈ (lone 24 succeeding).snap.state.db.stepNamed "task" "one", step.state = .started) ∧
      (∃ row ∈ (lone 31 (moment 0 "one")).snap.state.db.queue.get? "task", row.state = .blocked) ∧
      (⟨"task", "first", 1⟩ : Lease) ∈ (lone 24 succeeding).snap.log.filterMap (grantedTo 1) ∧
      (∃ row ∈ idle.snap.state.db.queue.get? "task", row.HeldBy ⟨"task", "first", 1⟩) ∧
      (ownLog 1 (lone 24 succeeding).snap.log).length = (ownLog 1 idle.snap.log).length ∧
      isEnded unemployed.threads[0]? = true := by
  decide +kernel

end Sample

theorem checkpoint_behind_journal_lone :
    ∃ row, (Sample.lone 35 Sample.succeeding).snap.state.db.queue.get? "task" = some row ∧
      row.nextAction = 1 ∧ ∃ step,
        (Sample.lone 35 Sample.succeeding).snap.state.db.actionStep "task" 0 = some step ∧
          step.state = .succeeded := by
  obtain ⟨hplain, -, -, -, -, -, ⟨row, hrow, hnext⟩, -⟩ := Sample.observed
  obtain ⟨-, hdone, -⟩ := checkpoint_behind_journal (Sample.lone_reachable hplain) hrow
  exact ⟨row, hrow, hnext, hdone 0 (by omega)⟩

theorem claimed_in_order_lone :
    ∃ lease index, OwnsLease 1 lease (Sample.lone 23 Sample.succeeding).snap ∧
      (Sample.lone 23 Sample.succeeding).snap.state.db.Records "task" index "one" := by
  obtain ⟨-, -, hplain, -, -, -, -, hclaim, hqueued, -⟩ := Sample.observed
  obtain ⟨next, answer, w, hthread, hperform⟩ := acceptedClaim_eq_some hclaim
  obtain ⟨row, hrow⟩ := Option.isSome_iff_exists.mp hqueued
  obtain ⟨lease, index, -, howns, -, hrecords, -⟩ :=
    claimed_in_order (Sample.lone_reachable hplain) hthread hperform hrow
  exact ⟨lease, index, howns, hrecords⟩

theorem in_flight_leased_lone :
    ∃ row, (Sample.lone 24 Sample.succeeding).snap.state.db.queue.get? "task" = some row ∧
      (row.state = .leased ∨ row.state = .done ∧ row.cancelRequested = true ∧
        ((Sample.lone 24 Sample.succeeding).snap.state.db.view "task").status = some .cancelled) := by
  obtain ⟨-, hplain, -, -, -, -, -, -, -, hqueued, ⟨step, hstep, hstarted⟩, -⟩ := Sample.observed
  obtain ⟨row, hrow⟩ := Option.isSome_iff_exists.mp hqueued
  exact ⟨row, hrow, in_flight_leased (Sample.lone_reachable hplain) hrow hstep hstarted⟩

theorem blocked_resumes_late :
    ∃ w row', perform (Sample.moment 5 "") (.retry "task" 1)
        (Sample.lone 31 (Sample.moment 0 "one")).snap.state = (.ok (), w) ∧
      w.db.queue.get? "task" = some row' ∧
      (((w.db.continuity.get? "task").bind ContinuityRow.nextAttemptAt).getD 0 ≤ 6 →
        row'.claimable w.db 6 = true) := by
  obtain ⟨-, -, -, hplain, -, -, -, -, -, -, -, ⟨row, hrow, hblocked⟩, -⟩ := Sample.observed
  obtain ⟨-, w, row', hperform, hrow', -, -, hclaimable⟩ :=
    blocked_resumes (Sample.lone_reachable hplain) hrow hblocked
      (show (0 : ℚ) < 1 by norm_num) (Sample.moment 5 "")
  exact ⟨w, row', hperform, hrow', hclaimable 6 (by simp [Sample.moment]; norm_num)⟩

end Lone

end Dante
