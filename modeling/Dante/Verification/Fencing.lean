import Dante.Model.Reference
import Dante.Verification.Refinement

/-! # Fenced ownership of queued tasks

Leases, queue rows and cancellation over whole runs: any programs, any interleaving, any
clock readings. Each result is an invariant of the life cycle, carried along the run. -/

namespace Dante

open JsonText Relational Concurrent

variable {v v' : View} {move : Move} {taskId : String} {n : ℕ}

/-! ## Invariants of the life cycle -/

/-- A queue row agrees with the status of its task and with the number of claims so far. -/
structure QueueRow.Consistent (row : QueueRow) (status : TaskStatus) (claims : ℕ) : Prop where
  done_terminal : row.state = .done → status.terminal = true
  terminal_closed : status.terminal = true → row.state = .leased ∨ row.state = .done
  cancel_closed : row.cancelRequested = true → row.state = .leased ∨ row.state = .done
  expiry : row.leaseExpiresAt.isSome = true ↔ row.state = .leased
  generation : row.generation = claims
  attempt : row.attempt = claims

/-- A task with a queue row exists and agrees with it; other tasks were never claimed. -/
def View.Consistent (v : View) (claims : ℕ) : Prop :=
  match v.row with
  | none => claims = 0
  | some row => ∃ status, v.status = some status ∧ row.Consistent status claims

theorem terminal_cases {status : TaskStatus} (h : status.terminal = true) :
    status = .completed ∨ status = .cancelled ∨ status = .failedTerminal := by
  cases status <;> simp_all [TaskStatus.terminal]

theorem transitions_of_terminal {status target : TaskStatus}
    (h : target ∈ transitions status) : status.terminal = false := by
  cases status <;> simp_all [transitions, TaskStatus.terminal]

theorem QueueRow.settled_of_terminal {row : QueueRow} {status : TaskStatus}
    (h : status.terminal = true) : row.settled status = status := by
  simp [QueueRow.settled, h]

theorem QueueRow.settled_of_requested {row : QueueRow} {status : TaskStatus}
    (h : row.cancelRequested = true) : (row.settled status).terminal = true := by
  cases hs : status.terminal
  · simp only [QueueRow.settled, h, hs, Bool.not_false, Bool.and_self, if_true]
    rfl
  · rw [QueueRow.settled_of_terminal hs, hs]

theorem QueueRow.Accepts.leased {row : QueueRow} {now : ℚ} {beforeEffect : Bool}
    {owner : Option Lease} (h : row.Accepts now beforeEffect owner) : row.state = .leased := by
  obtain ⟨_, _, -, hheld, -⟩ := h
  exact hheld.2.1

/-- One move keeps a queue row in step with its task; a granted lease counts as a claim. -/
theorem Lifecycle.consistent (h : Lifecycle move v v') (hv : v.Consistent n) :
    v'.Consistent (n + move.lease.toList.length) := by
  cases h with
  | stay => exact hv
  | already => exact hv
  | created status row =>
      cases row with
      | none => exact hv
      | some r =>
          obtain ⟨s, hs, -⟩ := hv
          cases hs
  | submitted id plan =>
      obtain rfl : n = 0 := hv
      exact ⟨.created, rfl, by constructor <;> simp [QueueRow.submitted, TaskStatus.terminal]⟩
  | @moved status target row hallowed hpermitted hcompleting =>
      cases row with
      | none => exact hv
      | some r =>
          obtain ⟨s, -, hr⟩ := hv
          obtain ⟨now, owner, haccepts⟩ := hpermitted r rfl
          have hleased := haccepts.leased
          exact ⟨target, rfl, { hr with
            done_terminal := by simp [hleased]
            terminal_closed := fun _ => .inl hleased }⟩
  | granted workerId now leaseS hready hkept hlive =>
      obtain ⟨s, hs, hr⟩ := hv
      cases hs
      refine ⟨_, rfl, ?_⟩
      constructor <;> simp [QueueRow.claimed, hlive, hr.generation, hr.attempt]
  | renewed beat expires haccepts =>
      obtain ⟨s, hs, hr⟩ := hv
      exact ⟨s, hs, { hr with expiry := by simp [haccepts.leased] }⟩
  | advanced haccepts =>
      obtain ⟨s, hs, hr⟩ := hv
      exact ⟨s, hs, { hr with }⟩
  | @ended status row state failure retries nextAttemptAt hleased hstate =>
      obtain ⟨s, hs, hr⟩ := hv
      refine ⟨_, rfl, ?_⟩
      cases hterm : (row.settled status).terminal
      · have hkept : row.cancelRequested = false := by
          cases hc : row.cancelRequested
          · rfl
          · rw [QueueRow.settled_of_requested hc] at hterm
            cases hterm
        simp only [QueueState.EndsWith, hterm, Bool.false_eq_true, if_false] at hstate
        rcases hstate with rfl | rfl <;>
          constructor <;> simp [hterm, hkept, hr.generation, hr.attempt]
      · simp only [QueueState.EndsWith, hterm, if_true] at hstate
        subst hstate
        constructor <;> simp [hterm, hr.generation, hr.attempt]
  | flagged hlive hleased =>
      obtain ⟨s, hs, hr⟩ := hv
      exact ⟨s, hs, { hr with cancel_closed := fun _ => .inl hleased }⟩
  | cancelled hlive =>
      obtain ⟨s, -, hr⟩ := hv
      refine ⟨_, rfl, ?_⟩
      constructor <;> simp [TaskStatus.terminal, hr.generation, hr.attempt]
  | retried retries nextAttemptAt hkept hlive hunleased =>
      obtain ⟨s, hs, hr⟩ := hv
      cases hs
      refine ⟨_, rfl, ?_⟩
      have hexpiry := hr.expiry.not.mpr hunleased
      constructor <;> simp_all [hr.generation, hr.attempt]

/-- A closed row stays closed. -/
theorem Lifecycle.done_stays (h : Lifecycle move v v') (hv : v.Consistent n) {row : QueueRow}
    (hrow : v.row = some row) (hdone : row.state = .done) :
    ∃ row', v'.row = some row' ∧ row'.state = .done := by
  cases h with
  | stay => exact ⟨row, hrow, hdone⟩
  | already => exact ⟨row, hrow, hdone⟩
  | created => exact ⟨row, hrow, hdone⟩
  | submitted => cases hrow
  | moved => exact ⟨row, hrow, hdone⟩
  | granted _ _ _ hready =>
      cases hrow
      simp [hready] at hdone
  | renewed _ _ haccepts =>
      cases hrow
      simp [haccepts.leased] at hdone
  | advanced haccepts =>
      cases hrow
      simp [haccepts.leased] at hdone
  | ended _ _ _ _ hleased =>
      cases hrow
      simp [hleased] at hdone
  | flagged _ hleased =>
      cases hrow
      simp [hleased] at hdone
  | cancelled => exact ⟨_, rfl, rfl⟩
  | retried _ _ _ hlive =>
      cases hrow
      obtain ⟨s, hs, hr⟩ := hv
      cases hs
      rw [hr.done_terminal hdone] at hlive
      cases hlive

/-- The lease is past: a later one was granted, or the row is no longer leased. -/
def QueueRow.Past (row : QueueRow) (lease : Lease) : Prop :=
  lease.generation < row.generation ∨
    (lease.generation = row.generation ∧ row.state ≠ .leased)

theorem QueueRow.Past.not_heldBy {row : QueueRow} {lease : Lease} (h : row.Past lease) :
    ¬row.HeldBy lease := by
  rintro ⟨-, hleased, -, hgen⟩
  rcases h with hlt | ⟨-, hstate⟩
  · omega
  · exact hstate hleased

def View.Past (v : View) (lease : Lease) : Prop :=
  ∃ row, v.row = some row ∧ row.Past lease

/-- Only a new claim leases a row again, and it raises the generation. -/
theorem Lifecycle.past (h : Lifecycle move v v') {lease : Lease} (hv : v.Past lease) :
    v'.Past lease := by
  obtain ⟨row, hrow, hpast⟩ := hv
  cases h with
  | stay => exact ⟨row, hrow, hpast⟩
  | already => exact ⟨row, hrow, hpast⟩
  | created => exact ⟨row, hrow, hpast⟩
  | submitted => cases hrow
  | moved => exact ⟨row, hrow, hpast⟩
  | granted workerId now leaseS =>
      cases hrow
      refine ⟨_, rfl, .inl ?_⟩
      simp only [QueueRow.claimed]
      rcases hpast with hlt | ⟨heq, -⟩ <;> omega
  | renewed => cases hrow; exact ⟨_, rfl, hpast⟩
  | advanced => cases hrow; exact ⟨_, rfl, hpast⟩
  | ended state _ _ _ hleased hstate =>
      cases hrow
      refine ⟨_, rfl, hpast.imp id fun hsame => ⟨hsame.1, ?_⟩⟩
      exact absurd hleased hsame.2
  | flagged => cases hrow; exact ⟨_, rfl, hpast⟩
  | cancelled =>
      cases hrow
      exact ⟨_, rfl, hpast.imp id fun hsame => ⟨hsame.1, by simp⟩⟩
  | retried =>
      cases hrow
      exact ⟨_, rfl, hpast.imp id fun hsame => ⟨hsame.1, by simp⟩⟩

/-- The lease is the current one, or past. -/
def View.Granted (v : View) (lease : Lease) : Prop :=
  (∃ row, v.row = some row ∧ row.HeldBy lease) ∨ v.Past lease

theorem QueueState.EndsWith.ne_leased {state : QueueState} {status : TaskStatus}
    (h : state.EndsWith status) : state ≠ .leased := by
  unfold QueueState.EndsWith at h
  split at h
  · simp [h]
  · rcases h with rfl | rfl <;> simp

/-- A lease that is not held any more is past. -/
theorem Lifecycle.granted_stays (h : Lifecycle move v v') {lease : Lease}
    (hv : v.Granted lease) : v'.Granted lease := by
  obtain ⟨row, hrow, hheld⟩ | hpast := hv
  · cases h with
    | stay => exact .inl ⟨row, hrow, hheld⟩
    | already => exact .inl ⟨row, hrow, hheld⟩
    | created => exact .inl ⟨row, hrow, hheld⟩
    | submitted => cases hrow
    | moved => exact .inl ⟨row, hrow, hheld⟩
    | granted _ _ _ hready =>
        cases hrow
        simp [hheld.2.1] at hready
    | renewed => cases hrow; exact .inl ⟨_, rfl, hheld⟩
    | advanced => cases hrow; exact .inl ⟨_, rfl, hheld⟩
    | ended state _ _ _ hleased hstate =>
        cases hrow
        exact .inr ⟨_, rfl, .inr ⟨hheld.2.2.2.symm, hstate.ne_leased⟩⟩
    | flagged => cases hrow; exact .inl ⟨_, rfl, hheld⟩
    | cancelled => cases hrow; exact .inr ⟨_, rfl, .inr ⟨hheld.2.2.2.symm, by simp⟩⟩
    | retried _ _ _ _ hunleased =>
        cases hrow
        exact absurd hheld.2.1 hunleased
  · exact .inr (h.past hpast)

/-- A cancellation was requested before the task completed. -/
def View.Cancelling (v : View) : Prop :=
  ∃ status row, v = ⟨some status, some row⟩ ∧ row.cancelRequested = true ∧ status ≠ .completed

/-- The request is never withdrawn, and the task does not complete any more. -/
theorem Lifecycle.cancelling (h : Lifecycle move v v') (hv : v.Cancelling) :
    v'.Cancelling := by
  obtain ⟨status, row, rfl, hrequested, hstatus⟩ := hv
  cases h with
  | stay => exact ⟨status, row, rfl, hrequested, hstatus⟩
  | already => exact ⟨status, row, rfl, hrequested, hstatus⟩
  | moved hallowed hpermitted hcompleting =>
      refine ⟨_, row, rfl, hrequested, fun htarget => ?_⟩
      obtain ⟨now, owner, _, _, -, -, -, -, hkept⟩ := hcompleting htarget row rfl
      rw [hkept rfl] at hrequested
      cases hrequested
  | granted _ _ _ _ hkept =>
      rw [hkept] at hrequested
      cases hrequested
  | renewed => exact ⟨status, _, rfl, hrequested, hstatus⟩
  | advanced => exact ⟨status, _, rfl, hrequested, hstatus⟩
  | ended =>
      refine ⟨_, _, rfl, hrequested, fun hcompleted => ?_⟩
      cases hs : status.terminal
      · simp [QueueRow.settled, hrequested, hs] at hcompleted
      · rw [QueueRow.settled_of_terminal hs] at hcompleted
        exact hstatus hcompleted
  | flagged => exact ⟨status, _, rfl, rfl, hstatus⟩
  | cancelled => exact ⟨_, _, rfl, rfl, by simp⟩
  | retried _ _ hkept =>
      rw [hkept] at hrequested
      cases hrequested

/-- While a cancellation is pending nobody is given a lease. -/
theorem Lifecycle.no_grant (h : Lifecycle move v v') (hv : v.Cancelling) :
    move.lease = none := by
  obtain ⟨status, row, rfl, hrequested, -⟩ := hv
  cases h with
  | granted _ _ _ _ hkept =>
      rw [hkept] at hrequested
      cases hrequested
  | _ => rfl

/-! ## Whole runs -/

section Runs

variable [Platform]

/-- Any programs over the ledger, making any requests. -/
def anyRun : Rules ledgerMachine where
  start := World.Fresh
  program _ := True
  admits _ _ _ := True

theorem anyRun_script (s : System ledgerMachine) (requests : List (Surroundings × Request)) :
    Steps anyRun s (s.script requests) :=
  Steps.script (fun _ _ => trivial) (fun _ _ _ _ => trivial) s

theorem Sample.reachable (files : List (String × String))
    (requests : List (Surroundings × Request)) :
    Reachable anyRun ((Sample.fresh files).script requests) :=
  (Reachable.start _ rfl).steps (anyRun_script _ requests)

/-- The lease on a task that an event of the log granted. -/
def grantIn (taskId : String) : Event Request.Reply Exn → Option Lease
  | .call _ r reply => (moveOf taskId r reply).lease
  | _ => none

/-- The leases granted on a task so far, in order. -/
def grants (taskId : String) (log : List (Event Request.Reply Exn)) : List Lease :=
  log.filterMap (grantIn taskId)

omit [Platform] in
theorem grants_call (log : List (Event Request.Reply Exn)) (pid : ℕ) (r : Request)
    (reply : Except Exn r.Reply) :
    grants taskId (log ++ [.call pid r reply]) =
      grants taskId log ++ (moveOf taskId r reply).lease.toList := by
  simp only [grants, List.filterMap_append, List.filterMap_cons, grantIn, List.filterMap_nil]
  cases (moveOf taskId r reply).lease <;> rfl

/-- A property of a task's view that its life cycle preserves holds along every run. -/
theorem Steps.view_invariant {R : Rules ledgerMachine} {J : View → Prop}
    (hJ : ∀ {move v v'}, Lifecycle move v v' → J v → J v') {s s' : System ledgerMachine}
    (hs : Steps R s s') (h : J (s.snap.state.db.view taskId)) :
    J (s'.snap.state.db.view taskId) := by
  refine Steps.state_invariant (J := fun w : World => J (w.db.view taskId)) ?_ ?_ hs h
  · exact fun env r w reply w' hw hp => hJ (perform_lifecycle hp taskId) hw
  · exact fun w w' hw hd => hd.view_eq ▸ hw

/-- Queue row and claims agree, and the generations handed out are 1, 2, 3, … -/
structure Numbered (taskId : String) (s : Snapshot ledgerMachine) : Prop where
  consistent : (s.state.db.view taskId).Consistent (grants taskId s.log).length
  generations : (grants taskId s.log).map Lease.generation =
    List.range' 1 (grants taskId s.log).length

theorem Numbered.other {s : Snapshot ledgerMachine} (h : Numbered taskId s) {w : World}
    (hw : w.db.view taskId = s.state.db.view taskId) {log : List (Event Request.Reply Exn)}
    (hlog : grants taskId log = grants taskId s.log) : Numbered taskId ⟨w, log⟩ :=
  ⟨by rw [hw, hlog]; exact h.consistent, by rw [hlog]; exact h.generations⟩

omit [Platform] in
/-- A lease is granted with the next generation of a ready row. -/
theorem Lifecycle.grant_generation {lease : Lease} (h : Lifecycle move v v')
    (hlease : move.lease = some lease) (hv : v.Consistent n) : lease.generation = n + 1 := by
  cases h with
  | granted =>
      cases hlease
      obtain ⟨_, -, hr⟩ := hv
      exact congrArg (· + 1) hr.generation
  | _ => cases hlease

theorem numbered {s : System ledgerMachine} (h : Reachable anyRun s) (taskId : String) :
    Numbered taskId s.snap := by
  refine h.snapshot_invariant (J := Numbered taskId) ?_ ?_ ?_ ?_ ?_
  · intro w hw
    have hempty : w.db = .empty := hw
    constructor
    · simp only [View.Consistent, Database.view, hempty, Database.empty, Table.get?_empty]
      rfl
    · rfl
  · intro s pid r env reply w hs _ hp
    have hmove := perform_lifecycle hp taskId
    constructor
    · rw [Snapshot.after_log, grants_call, List.length_append]
      exact hmove.consistent hs.consistent
    · rw [Snapshot.after_log, grants_call, List.map_append, hs.generations]
      cases hgrant : (moveOf taskId r reply).lease with
      | none => simp
      | some lease =>
          have hgen := hmove.grant_generation hgrant hs.consistent
          simp [hgen, List.range'_concat, Nat.add_comm]
  · intro s pid hs
    exact hs.other rfl (by simp [grants, grantIn])
  · intro s pid hs
    exact hs.other rfl (by simp [grants, grantIn])
  · intro s w hs hd
    exact hs.other hd.view_eq rfl

/-- A queued task exists, and its row is consistent with it. -/
theorem Numbered.task {s : Snapshot ledgerMachine} (h : Numbered taskId s) {row : QueueRow}
    (hrow : s.state.db.queue.get? taskId = some row) :
    ∃ taskRow, s.state.db.tasks.get? taskId = some taskRow ∧
      row.Consistent taskRow.payload.status (grants taskId s.log).length := by
  have hview : (s.state.db.view taskId).row = some row := hrow
  have hconsistent := h.consistent
  rw [View.Consistent, hview] at hconsistent
  obtain ⟨status, hstatus, hrow⟩ := hconsistent
  obtain ⟨taskRow, htask, rfl⟩ := Option.map_eq_some_iff.mp hstatus
  exact ⟨taskRow, htask, hrow⟩

/-! ## Fencing -/

/-- `lease` passes `assert_lease` for the task at some time. -/
def Database.Passes (db : Database) (taskId : String) (lease : Lease) : Prop :=
  ∃ now beforeEffect held, assertLease db now taskId beforeEffect (some lease) = .ok held

omit [Platform] in
theorem Database.Passes.heldBy {db : Database} {row : QueueRow} {lease : Lease}
    (hrow : db.queue.get? taskId = some row) (h : db.Passes taskId lease) : row.HeldBy lease := by
  obtain ⟨now, beforeEffect, held, hok⟩ := h
  obtain ⟨_, _, hlease, hheld, -⟩ := (assertLease_ok.mp hok).2 row hrow
  cases hlease
  exact hheld

omit [Platform] in
theorem QueueRow.HeldBy.unique {row : QueueRow} {lease lease' : Lease} (h : row.HeldBy lease)
    (h' : row.HeldBy lease') : lease = lease' := by
  obtain ⟨htask, -, hworker, hgen⟩ := h
  obtain ⟨htask', -, hworker', hgen'⟩ := h'
  cases lease
  cases lease'
  simp_all

/-- A lease that was held and then lost is never held again. -/
theorem lost_forever {s s₁ s₂ : System ledgerMachine} {row row₁ : QueueRow} {lease : Lease}
    (hrow : s.snap.state.db.queue.get? taskId = some row) (hheld : row.HeldBy lease)
    (hs₁ : Steps anyRun s s₁) (hrow₁ : s₁.snap.state.db.queue.get? taskId = some row₁)
    (hlost : ¬row₁.HeldBy lease) (hs₂ : Steps anyRun s₁ s₂) :
    ∃ row₂, s₂.snap.state.db.queue.get? taskId = some row₂ ∧ ¬row₂.HeldBy lease := by
  have hgranted := Steps.view_invariant (J := fun v => v.Granted lease)
    (fun hstep hv => hstep.granted_stays hv) hs₁ (.inl ⟨row, hrow, hheld⟩)
  have hpast : (s₁.snap.state.db.view taskId).Past lease := by
    refine hgranted.resolve_left ?_
    rintro ⟨r, hr, hheld₁⟩
    cases hrow₁.symm.trans hr
    exact hlost hheld₁
  obtain ⟨row₂, hrow₂, hpast₂⟩ := Steps.view_invariant (J := fun v => v.Past lease)
    (fun hstep hv => hstep.past hv) hs₂ hpast
  exact ⟨row₂, hrow₂, hpast₂.not_heldBy⟩

/-- At most one lease passes at any time, generations grow from claim to claim, and a lease
that was held and then lost never passes again. -/
theorem lease_fencing {s : System ledgerMachine} (hs : Reachable anyRun s) {row : QueueRow}
    (hqueued : s.snap.state.db.queue.get? taskId = some row) :
    (∀ lease lease', s.snap.state.db.Passes taskId lease →
      s.snap.state.db.Passes taskId lease' → lease = lease') ∧
    ((grants taskId s.snap.log).map Lease.generation).Pairwise (· < ·) ∧
    ∀ s₁ s₂ row₁ lease, row.HeldBy lease → Steps anyRun s s₁ →
      s₁.snap.state.db.queue.get? taskId = some row₁ → ¬row₁.HeldBy lease →
      Steps anyRun s₁ s₂ → ¬s₂.snap.state.db.Passes taskId lease := by
  refine ⟨fun lease lease' h h' => (h.heldBy hqueued).unique (h'.heldBy hqueued), ?_, ?_⟩
  · rw [(numbered hs taskId).generations]
    exact List.pairwise_lt_range'
  · intro s₁ s₂ row₁ lease hheld hs₁ hrow₁ hlost hs₂ hpass
    obtain ⟨row₂, hrow₂, hlost₂⟩ := lost_forever hqueued hheld hs₁ hrow₁ hlost hs₂
    exact hlost₂ (hpass.heldBy hrow₂)

end Runs

section TakeOver

local instance fencingTakeOver : Platform := .reference []

theorem Sample.first_held :
    ∃ row, ((Sample.fresh []).script Sample.claimed).snap.state.db.queue.get? "task" = some row ∧
      row.HeldBy ⟨"task", "first", 1⟩ := by
  have h : ∃ row ∈ ((Sample.fresh []).script Sample.claimed).snap.state.db.queue.get? "task",
      row.HeldBy ⟨"task", "first", 1⟩ := by
    decide +kernel
  exact h

theorem Sample.first_lost :
    ∃ row, (((Sample.fresh []).script Sample.claimed).script
        Sample.reclaimed).snap.state.db.queue.get? "task" = some row ∧
      ¬row.HeldBy ⟨"task", "first", 1⟩ := by
  have h : ∃ row ∈ (((Sample.fresh []).script Sample.claimed).script
      Sample.reclaimed).snap.state.db.queue.get? "task", ¬row.HeldBy ⟨"task", "first", 1⟩ := by
    decide +kernel
  exact h

theorem lease_fencing_takeover :
    ¬(((Sample.fresh []).script Sample.claimed).script Sample.reclaimed).snap.state.db.Passes
      "task" ⟨"task", "first", 1⟩ := by
  obtain ⟨row, hrow, hheld⟩ := Sample.first_held
  obtain ⟨row₁, hrow₁, hlost⟩ := Sample.first_lost
  have hfencing := lease_fencing (Sample.reachable [] Sample.claimed) hrow
  exact hfencing.2.2 _ _ row₁ _ hheld (anyRun_script _ Sample.reclaimed) hrow₁ hlost .refl

end TakeOver

/-! ## Queue row and task status -/

section Runs

variable [Platform]

/-- In every reachable state queue rows and task statuses are consistent, generation and
attempt count the claims, and a row that is done stays done. -/
theorem queue_consistent {s : System ledgerMachine} (hs : Reachable anyRun s) {row : QueueRow}
    (hqueued : s.snap.state.db.queue.get? taskId = some row) :
    ∃ taskRow, s.snap.state.db.tasks.get? taskId = some taskRow ∧
      (row.state = .done → taskRow.payload.status = .completed ∨
        taskRow.payload.status = .cancelled ∨ taskRow.payload.status = .failedTerminal) ∧
      (taskRow.payload.status.terminal = true → row.state = .leased ∨ row.state = .done) ∧
      (row.cancelRequested = true → row.state = .leased ∨ row.state = .done) ∧
      (row.leaseExpiresAt.isSome = true ↔ row.state = .leased) ∧
      row.generation = (grants taskId s.snap.log).length ∧
      row.attempt = (grants taskId s.snap.log).length ∧
      (row.state = .done → ∀ s', Steps anyRun s s' →
        ∃ row', s'.snap.state.db.queue.get? taskId = some row' ∧ row'.state = .done) := by
  have hnumbered := (numbered hs taskId).consistent
  have hview : (s.snap.state.db.view taskId).row = some row := hqueued
  obtain ⟨taskRow, htask, hrow⟩ := (numbered hs taskId).task hqueued
  refine ⟨taskRow, htask, fun hdone => ?_, hrow.terminal_closed, hrow.cancel_closed, hrow.expiry,
    hrow.generation, hrow.attempt, fun hdone s' hsteps => ?_⟩
  · exact terminal_cases (hrow.done_terminal hdone)
  · have hclosed := Steps.view_invariant
      (J := fun v => (∃ n, v.Consistent n) ∧ ∃ row, v.row = some row ∧ row.state = .done)
      (fun hstep ⟨⟨n, hn⟩, r, hr, hd⟩ => ⟨⟨_, hstep.consistent hn⟩, hstep.done_stays hn hr hd⟩)
      hsteps ⟨⟨_, hnumbered⟩, row, hview, hdone⟩
    exact hclosed.2

end Runs

section Cancelled

local instance fencingCancelled : Platform := .reference []

theorem queue_consistent_cancelled :
    ∃ row, (((Sample.fresh []).script Sample.claimed).script
        [(Sample.moment 20 "", .cancel "task")]).snap.state.db.queue.get? "task" = some row ∧
      row.state = .done ∧ row.leaseExpiresAt.isSome = false ∧ row.generation = 1 := by
  obtain ⟨row, hrow, hdone⟩ : ∃ row ∈ (((Sample.fresh []).script Sample.claimed).script
      [(Sample.moment 20 "", .cancel "task")]).snap.state.db.queue.get? "task",
      row.state = .done := by
    decide +kernel
  have hreachable := (Sample.reachable [] Sample.claimed).steps
    (anyRun_script _ [(Sample.moment 20 "", .cancel "task")])
  obtain ⟨_, -, -, -, -, hexpiry, hgeneration, -⟩ := queue_consistent hreachable hrow
  refine ⟨row, hrow, hdone, ?_, hgeneration.trans (by decide +kernel)⟩
  rw [Bool.eq_false_iff, Ne, hexpiry, hdone]
  simp

end Cancelled

end Dante
