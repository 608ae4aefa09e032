import Dante.Verification.Fencing

/-! # The runnable listing and what a worker can claim

`list --runnable` tests the queue row alone; recovery and claims also look at the task and at
the continuity manager's date. The two agree exactly when these say nothing more. -/

namespace Dante

open JsonText Relational Concurrent

variable {db db' mid : Database} {taskId : String} {now : ℚ}

/-! ## Recovery in views -/

/-- The row is one that `recover_expired` visits. -/
def View.expired (now : ℚ) (v : View) : Bool :=
  v.row.any (QueueRow.expired now)

/-- A row whose lease has expired, after recovery. -/
def QueueRow.recovered (resumeAt : ℚ) (status : TaskStatus) (row : QueueRow) : QueueRow :=
  { row with
    state := if (row.settled status).terminal then .done else .ready
    leaseExpiresAt := none
    nextAttemptAt := max row.nextAttemptAt resumeAt }

/-- Task and row after recovery. -/
def View.recovered (resumeAt : ℚ) (v : View) : View :=
  match v.status, v.row with
  | some status, some row =>
      ⟨some (row.settled status), some (row.recovered resumeAt status)⟩
  | _, _ => v

theorem recoverRow_view {row : QueueRow} (h : recoverRow row db = .ok db')
    (hrow : db.queue.get? row.taskId = some row) :
    db'.view row.taskId = (db.view row.taskId).recovered (db.resumeAt row.taskId) := by
  obtain ⟨taskRow, task, mid, logged, htask, hcancel, -, rfl⟩ := recoverRow_ok h
  have hid := taskId_of_task htask
  have hview : (db.expireSteps row.taskId).view taskRow.payload.taskId =
      ⟨some taskRow.payload.status, some row⟩ := by
    rw [hid, view_expireSteps, view_of_get? htask hrow]
  obtain ⟨hmid, hstatus⟩ := hcancel.view_eq hview
  rw [hid] at hmid
  rw [view_log, view_updateQueue_self, hmid, hstatus, view_of_get? htask hrow]
  rfl

theorem recoverRow_resumeAt {row : QueueRow} (h : recoverRow row db = .ok db') :
    db'.resumeAt taskId = db.resumeAt taskId := by
  have hsame : db'.continuity = db.continuity :=
    recoverRow_agree (t := .continuity) h (by simp [Request.writes])
  rw [Database.resumeAt, hsame, Database.resumeAt]

theorem status_isSome : (db.view taskId).status.isSome = true ↔
    ∃ taskRow, db.tasks.get? taskId = some taskRow := by
  rw [Database.view, Option.isSome_map, Option.isSome_iff_exists]

/-- Recovery of a queued task does not fail. -/
theorem recoverRow_total {row : QueueRow} (h : (db.view row.taskId).status.isSome = true) :
    ∃ db', recoverRow row db = .ok db' := by
  obtain ⟨taskRow, htask⟩ := status_isSome.mp h
  have hid := taskId_of_task htask
  have htask' : (db.expireSteps row.taskId).tasks.get? row.taskId = some taskRow := htask
  obtain ⟨⟨task, mid⟩, hcancel⟩ : ∃ answer,
      cancelIfRequested (db.expireSteps row.taskId) row taskRow.payload = .ok answer := by
    unfold cancelIfRequested
    split
    next hc =>
      simp only [Bool.and_eq_true, Bool.not_eq_true'] at hc
      refine ⟨_, Except.bind_eq_ok.mpr ⟨(), ?_, rfl⟩⟩
      rw [require_eq_ok, List.contains_iff_mem, cancelled_mem_transitions]
      exact hc.2
    next => exact ⟨_, rfl⟩
  have hbefore : (db.expireSteps row.taskId).view taskRow.payload.taskId =
      ⟨some taskRow.payload.status, db.queue.get? row.taskId⟩ := by
    rw [hid, Database.view, htask']
    rfl
  obtain ⟨hview, -⟩ := (cancelIfRequested_ok hcancel).view_eq hbefore
  obtain ⟨lateRow, hlate⟩ := status_isSome.mp (congrArg (fun v => v.status.isSome) hview)
  simp only [recoverRow, Except.bind_eq_ok, orRaise_eq_ok, queueEvent_ok]
  exact ⟨_, taskRow, htask', (task, mid), hcancel, lateRow, hid ▸ hlate, rfl⟩

/-- Recovery of any number of rows: each is recovered, and no other is touched. -/
theorem recoverRows_view {rows : List QueueRow}
    (hdistinct : rows.Pairwise (fun a b => a.taskId ≠ b.taskId))
    (hrows : ∀ row ∈ rows, db.queue.get? row.taskId = some row ∧
      (db.view row.taskId).status.isSome = true) :
    ∃ db', rows.foldlM (fun db row => recoverRow row db) db = .ok db' ∧
      ∀ id, db'.resumeAt id = db.resumeAt id ∧
        ((∃ row ∈ rows, row.taskId = id) →
          db'.view id = (db.view id).recovered (db.resumeAt id)) ∧
        ((∀ row ∈ rows, row.taskId ≠ id) → db'.view id = db.view id) := by
  induction rows generalizing db with
  | nil => exact ⟨db, rfl, fun id => ⟨rfl, by simp, fun _ => rfl⟩⟩
  | cons row rest ih =>
      obtain ⟨hne, hdistinct⟩ := List.pairwise_cons.mp hdistinct
      obtain ⟨hrow, htask⟩ := hrows row List.mem_cons_self
      obtain ⟨next, hnext⟩ := recoverRow_total htask
      have hsame (other : QueueRow) (hother : other ∈ rest) :
          next.view other.taskId = db.view other.taskId :=
        recoverRow_view_ne hnext (Ne.symm (hne other hother))
      obtain ⟨last, hlast, heffect⟩ := ih hdistinct fun other hother => by
        obtain ⟨hold, hstatus⟩ := hrows other (List.mem_cons_of_mem _ hother)
        exact ⟨(congrArg View.row (hsame other hother)).trans hold, hsame other hother ▸ hstatus⟩
      refine ⟨last, ?_, fun id => ?_⟩
      · rw [List.foldlM_cons, Except.bind_eq_ok]
        exact ⟨next, hnext, hlast⟩
      · obtain ⟨hresume, hin, hout⟩ := heffect id
        rw [recoverRow_resumeAt hnext] at hresume hin
        refine ⟨hresume, ?_, ?_⟩
        · rintro ⟨other, hother, rfl⟩
          rcases List.mem_cons.mp hother with rfl | hother
          · rw [hout fun r hr => Ne.symm (hne r hr), recoverRow_view hnext hrow]
          · rw [hin ⟨other, hother, rfl⟩, hsame other hother]
        · intro hall
          rw [hout fun r hr => hall r (List.mem_cons_of_mem _ hr),
            recoverRow_view_ne hnext (Ne.symm (hall row List.mem_cons_self))]

/-- Every queued task exists. -/
def Database.QueuedExist (db : Database) : Prop :=
  ∀ row ∈ db.queue.rows, (db.view row.taskId).status.isSome = true

theorem row_of_mem {row : QueueRow} (h : row ∈ db.queue.rows) :
    (db.view row.taskId).row = some row :=
  Table.get?_eq_some_iff.mpr ⟨h, rfl⟩

/-- `recover_expired` recovers the rows whose lease has expired, and touches no others. -/
theorem recoverExpired_view (hqueued : db.QueuedExist) :
    ∃ n mid, recoverExpired now db = .ok (n, mid) ∧
      ∀ id, mid.resumeAt id = db.resumeAt id ∧
        mid.view id = if (db.view id).expired now then (db.view id).recovered (db.resumeAt id)
          else db.view id := by
  have hdistinct : (db.queue.rows.filter (QueueRow.expired now)).Pairwise
      (fun a b => a.taskId ≠ b.taskId) := by
    refine (db.queue.unique.imp ?_).filter _
    intro a b hclash heq
    simp [clashes, Row.clash, Row.key, Keyed.primary, heq] at hclash
  have hrows : ∀ row ∈ db.queue.rows.filter (QueueRow.expired now),
      db.queue.get? row.taskId = some row ∧ (db.view row.taskId).status.isSome = true := by
    intro row hrow
    have hmem := List.mem_of_mem_filter hrow
    exact ⟨row_of_mem hmem, hqueued row hmem⟩
  obtain ⟨mid, hfold, heffect⟩ := recoverRows_view hdistinct hrows
  refine ⟨_, mid, Except.bind_eq_ok.mpr ⟨mid, hfold, rfl⟩, fun id => ?_⟩
  obtain ⟨hresume, hin, hout⟩ := heffect id
  refine ⟨hresume, ?_⟩
  split
  next hexpired =>
    obtain ⟨row, hrow, he⟩ := Option.any_eq_true _ _ |>.mp hexpired
    obtain ⟨hmem, hid⟩ := Table.get?_eq_some_iff.mp (show db.queue.get? id = some row from hrow)
    exact hin ⟨row, List.mem_filter.mpr ⟨hmem, he⟩, hid⟩
  next hkept =>
    refine hout fun row hrow hid => hkept ?_
    obtain ⟨hmem, he⟩ := List.mem_filter.mp hrow
    subst hid
    rw [View.expired, row_of_mem hmem]
    exact he

/-! ## Claims until nothing is left -/

/-- What `claim` asks of a task and its row. -/
def View.Claimable (now resumeAt : ℚ) (v : View) : Prop :=
  ∃ status row, v = ⟨some status, some row⟩ ∧ row.state = .ready ∧ row.cancelRequested = false ∧
    row.nextAttemptAt ≤ now ∧ resumeAt ≤ now ∧ status.terminal = false

def Database.Claimable (db : Database) (now : ℚ) (taskId : String) : Prop :=
  (db.view taskId).Claimable now (db.resumeAt taskId)

theorem claimable_iff {row : QueueRow} (h : row ∈ db.queue.rows) :
    row.claimable db now = true ↔ db.Claimable now row.taskId := by
  have hrow := row_of_mem h
  constructor
  · intro hclaim
    simp only [QueueRow.claimable, Bool.and_eq_true, beq_iff_eq, Bool.not_eq_true',
      decide_eq_true_eq, Option.any_eq_true] at hclaim
    obtain ⟨⟨⟨⟨hready, hkept⟩, hdue⟩, hresume⟩, taskRow, htask, hlive⟩ := hclaim
    exact ⟨_, row, view_of_get? htask hrow, hready, hkept, hdue, hresume, hlive⟩
  · rintro ⟨status, row', hview, hready, hkept, hdue, hresume, hlive⟩
    rw [hview] at hrow
    cases hrow
    obtain ⟨taskRow, htask, rfl⟩ := Option.map_eq_some_iff.mp (congrArg View.status hview)
    simp only [QueueRow.claimable, Bool.and_eq_true, beq_iff_eq, Bool.not_eq_true',
      decide_eq_true_eq, Option.any_eq_true]
    exact ⟨⟨⟨⟨hready, hkept⟩, hdue⟩, hresume⟩, taskRow, htask, hlive⟩

theorem Database.Claimable.row {id : String} (h : db.Claimable now id) :
    ∃ row ∈ db.queue.rows, row.taskId = id ∧ row.state = .ready := by
  obtain ⟨status, row, hview, hready, -⟩ := h
  have hrow : db.queue.get? id = some row := congrArg View.row hview
  exact ⟨row, Table.mem_of_get? hrow, Table.primary_of_get? hrow, hready⟩

theorem earliest_eq_none {rows : List QueueRow} (h : earliest rows = none) : rows = [] := by
  cases rows with
  | nil => rfl
  | cons row rest =>
      rw [earliest] at h
      cases hrest : earliest rest with
      | none => simp [hrest] at h
      | some other =>
          simp only [hrest] at h
          split at h <;> cases h

variable {workerId : String} {leaseS : ℚ}

/-- With a name and a length a claim does not fail. -/
theorem claim_total (hworker : isBlank workerId = false) (hlease : 0 < leaseS) :
    ∃ answer db', claim workerId leaseS now db = .ok (answer, db') := by
  simp only [claim, positive, Except.bind_eq_ok, require_eq_ok, decide_eq_true_eq, hworker,
    Bool.not_false, hlease, true_and, exists_const]
  cases hsel : earliest (db.queue.rows.filter (QueueRow.claimable db now)) with
  | none => exact ⟨none, db, rfl⟩
  | some row =>
      obtain ⟨hrow, hclaim⟩ := selected hsel
      simp only [QueueRow.claimable, Bool.and_eq_true, Option.any_eq_true] at hclaim
      obtain ⟨-, taskRow, htask, -⟩ := hclaim
      simp only [Except.bind_eq_ok, queueEvent_ok, Except.pure_eq_ok, Prod.mk.injEq]
      exact ⟨_, _, _, ⟨taskRow, htask, rfl⟩, rfl, rfl⟩

theorem claim_none (h : claim workerId leaseS now db = .ok (none, db')) (id : String) :
    ¬db.Claimable now id := by
  intro hclaimable
  obtain ⟨row, hmem, rfl, -⟩ := hclaimable.row
  obtain ⟨-, ⟨-, -, hsel⟩ | ⟨_, _, hanswer, -⟩⟩ := claim_ok h
  · have hempty := List.filter_eq_nil_iff.mp (earliest_eq_none hsel) row hmem
    exact hempty ((claimable_iff hmem).mpr hclaimable)
  · cases hanswer

/-- The rows that are ready. -/
def Database.readyRows (db : Database) : ℕ :=
  db.queue.rows.countP (fun row => row.state == .ready)

/-- A count goes down when no element joins and one leaves. -/
theorem countP_map_lt {α : Type} {p : α → Bool} {f : α → α} {l : List α}
    (hkeeps : ∀ a ∈ l, p (f a) = true → p a = true) {a : α} (ha : a ∈ l) (hbefore : p a = true)
    (hafter : p (f a) = false) : (l.map f).countP p < l.countP p := by
  induction l with
  | nil => cases ha
  | cons b rest ih =>
      rw [List.forall_mem_cons] at hkeeps
      have hrest : (rest.map f).countP p ≤ rest.countP p := by
        rw [List.countP_map]
        exact List.countP_mono_left fun x hx => hkeeps.2 x hx
      rw [List.map_cons, List.countP_cons, List.countP_cons]
      rcases List.mem_cons.mp ha with rfl | ha
      · simp only [hbefore, hafter, if_true, Bool.false_eq_true, if_false]
        omega
      · have hlt := ih hkeeps.2 ha
        have hhead : (if p (f b) = true then 1 else 0) ≤ (if p b = true then 1 else 0) := by
          split
          next hp => rw [if_pos (hkeeps.1 hp)]
          next => exact Nat.zero_le _
        omega

/-- A claim takes one task that was claimable, and leaves the others as they were. -/
theorem claim_some {lease : Lease}
    (h : claim workerId leaseS now db = .ok (some lease, db')) :
    db.Claimable now lease.taskId ∧ ¬db'.Claimable now lease.taskId ∧
      (∀ id, id ≠ lease.taskId → (db'.Claimable now id ↔ db.Claimable now id)) ∧
      db'.readyRows < db.readyRows := by
  obtain ⟨-, ⟨hanswer, -⟩ | ⟨row, taskRow, hanswer, hsel, htask, rfl⟩⟩ := claim_ok h
  · cases hanswer
  · cases hanswer
    obtain ⟨hrow, hclaim⟩ := selected hsel
    have hmem := Table.mem_of_get? hrow
    have hclaimable := (claimable_iff hmem).mp hclaim
    refine ⟨hclaimable, ?_, fun id hid => ?_, ?_⟩
    · rintro ⟨status, row', hview, hready, -⟩
      rw [view_event, view_updateQueue_self, view_of_get? htask hrow] at hview
      cases hview
      simp [QueueRow.claimed] at hready
    · have hview : ((db.updateQueue row.taskId
          (fun r => r.claimed ⟨row.taskId, workerId, row.generation + 1⟩ now leaseS)
          (fun r => r.claimed_taskId _ now leaseS)).event taskRow.payload "worker.claimed"
            (some taskRow.payload.status) [("worker_id", .str workerId),
              ("generation", .int ↑(row.generation + 1))]).view id = db.view id := by
        rw [view_event, view_updateQueue_ne _ hid]
      rw [Database.Claimable, hview]
      rfl
    · simp only [QueueRow.claimable, Bool.and_eq_true, beq_iff_eq] at hclaim
      refine countP_map_lt (fun r _ => ?_) hmem ?_ ?_
      · dsimp only
        split
        · simp [QueueRow.claimed]
        · exact id
      · simpa using hclaim.1.1.1.1
      · simp [Keyed.primary, QueueRow.claimed]

/-- One claim after another at one time, until nothing is handed out. -/
inductive HandsOut (workerId : String) (leaseS now : ℚ) : Database → List String → Database → Prop where
  | stop {db db' : Database} (h : claim workerId leaseS now db = .ok (none, db')) :
      HandsOut workerId leaseS now db [] db'
  | next {db db' last : Database} {lease : Lease} {ids : List String}
      (h : claim workerId leaseS now db = .ok (some lease, db'))
      (hrest : HandsOut workerId leaseS now db' ids last) :
      HandsOut workerId leaseS now db (lease.taskId :: ids) last

/-- What is handed out are the tasks that could be claimed. -/
theorem HandsOut.mem_iff {ids : List String} (h : HandsOut workerId leaseS now db ids db')
    (id : String) : id ∈ ids ↔ db.Claimable now id := by
  induction h with
  | stop h => exact iff_of_false (by simp) (claim_none h id)
  | @next db db' last lease ids h _ ih =>
      obtain ⟨hclaimable, htaken, hothers, -⟩ := claim_some h
      rw [List.mem_cons, ih]
      constructor
      · rintro (rfl | hlater)
        · exact hclaimable
        · by_cases hid : id = lease.taskId
          · exact absurd (hid ▸ hlater) htaken
          · exact (hothers id hid).mp hlater
      · intro hnow
        exact Classical.or_iff_not_imp_left.mpr fun hid => (hothers id hid).mpr hnow

/-- The claims come to an end. -/
theorem exists_handsOut (hworker : isBlank workerId = false) (hlease : 0 < leaseS)
    (db : Database) : ∃ ids last, HandsOut workerId leaseS now db ids last := by
  induction hn : db.readyRows using Nat.strong_induction_on generalizing db with
  | _ n ih =>
      have htotal : ∃ answer db', claim workerId leaseS now db = .ok (answer, db') :=
        claim_total hworker hlease
      obtain ⟨answer, db', hclaim⟩ := htotal
      cases answer with
      | none => exact ⟨[], db', .stop hclaim⟩
      | some lease =>
          obtain ⟨-, -, -, hlt⟩ := claim_some hclaim
          obtain ⟨ids, last, hrest⟩ := ih db'.readyRows (hn ▸ hlt) db' rfl
          exact ⟨lease.taskId :: ids, last, .next hclaim hrest⟩

/-! ## The listing -/

/-- The test of `list --runnable` on a row. -/
def QueueRow.Due (now : ℚ) (row : QueueRow) : Prop :=
  row.cancelRequested = false ∧
    (row.state = .ready ∧ row.nextAttemptAt ≤ now ∨ row.expired now = true)

theorem runnable_ok (now : ℚ) {row : QueueRow} (hexpiry : row.state = .leased → row.leaseExpiresAt ≠ none) :
    ∃ due, row.runnable now = .ok due ∧ (due = true ↔ row.Due now) := by
  unfold QueueRow.runnable
  cases hcancel : row.cancelRequested with
  | true => exact ⟨false, rfl, by simp [QueueRow.Due, hcancel]⟩
  | false =>
      simp only [Bool.false_eq_true, if_false]
      by_cases hready : row.state = .ready ∧ row.nextAttemptAt ≤ now
      · exact ⟨true, by rw [if_pos hready], by simp [QueueRow.Due, hcancel, hready]⟩
      · rw [if_neg hready]
        by_cases hleased : row.state = .leased
        · obtain ⟨expiresAt, he⟩ := Option.ne_none_iff_exists'.mp (hexpiry hleased)
          refine ⟨decide (expiresAt ≤ now), by rw [if_pos hleased, he]; rfl, ?_⟩
          simp [QueueRow.Due, QueueRow.expired, hcancel, hleased, he]
        · refine ⟨false, by rw [if_neg hleased], ?_⟩
          simp [QueueRow.Due, QueueRow.expired, hcancel, hleased, hready]

/-- The entries of a list of rows whose tasks exist. -/
theorem statuses_ok {rows : List QueueRow} (hmem : ∀ row ∈ rows, row ∈ db.queue.rows)
    (hqueued : db.QueuedExist) :
    ∃ entries, rows.mapM (fun row => queueStatus row.taskId db) = .ok entries ∧
      entries.map QueueEntry.row = rows := by
  induction rows with
  | nil => exact ⟨[], rfl, rfl⟩
  | cons row rest ih =>
      rw [List.forall_mem_cons] at hmem
      obtain ⟨entries, hentries, hrows⟩ := ih hmem.2
      obtain ⟨taskRow, htask⟩ := status_isSome.mp (hqueued row hmem.1)
      have hrow : db.queue.get? row.taskId = some row := row_of_mem hmem.1
      have hstatus : queueStatus row.taskId db = .ok ⟨row, taskRow.payload.status⟩ := by
        simp only [queueStatus, hrow, htask]
        rfl
      refine ⟨⟨row, taskRow.payload.status⟩ :: entries, ?_, by rw [List.map_cons, hrows]⟩
      simp only [List.mapM_cons, hstatus, hentries]
      rfl

theorem runnableEntries_ok {entries : List QueueEntry}
    (hexpiry : ∀ entry ∈ entries, entry.row.state = .leased → entry.row.leaseExpiresAt ≠ none) :
    ∃ kept, runnableEntries now entries = .ok kept ∧
      ∀ row, row ∈ kept.map QueueEntry.row ↔ row ∈ entries.map QueueEntry.row ∧ row.Due now := by
  induction entries with
  | nil => exact ⟨[], rfl, by simp⟩
  | cons entry rest ih =>
      rw [List.forall_mem_cons] at hexpiry
      obtain ⟨kept, hkept, hmem⟩ := ih hexpiry.2
      obtain ⟨due, hdue, hiff⟩ := runnable_ok now hexpiry.1
      refine ⟨if due then entry :: kept else kept, ?_, fun row => ?_⟩
      · simp only [runnableEntries, hdue, hkept]
        rfl
      · rw [List.map_cons, List.mem_cons]
        cases due with
        | true =>
            have hentry := hiff.mp rfl
            simp only [if_true, List.map_cons, List.mem_cons, hmem]
            constructor
            · rintro (rfl | ⟨hin, hrow⟩)
              · exact ⟨.inl rfl, hentry⟩
              · exact ⟨.inr hin, hrow⟩
            · rintro ⟨rfl | hin, hrow⟩
              · exact .inl rfl
              · exact .inr ⟨hin, hrow⟩
        | false =>
            simp only [Bool.false_eq_true, if_false, hmem]
            constructor
            · rintro ⟨hin, hrow⟩
              exact ⟨.inr hin, hrow⟩
            · rintro ⟨rfl | hin, hrow⟩
              · exact absurd (hiff.mpr hrow) (by simp)
              · exact ⟨hin, hrow⟩

/-- The listing shows the rows that are due. -/
theorem queueList_ok (hqueued : db.QueuedExist)
    (hexpiry : ∀ row ∈ db.queue.rows, row.state = .leased → row.leaseExpiresAt ≠ none) :
    ∃ listed, queueList true now db = .ok listed ∧
      ∀ row, row ∈ listed.map QueueEntry.row ↔ row ∈ db.queue.rows ∧ row.Due now := by
  obtain ⟨entries, hentries, hrows⟩ := statuses_ok (fun _ h => h) hqueued
  have hexpiry' : ∀ entry ∈ entries, entry.row.state = .leased →
      entry.row.leaseExpiresAt ≠ none := by
    intro entry hentry
    exact hexpiry entry.row (hrows ▸ List.mem_map_of_mem hentry)
  obtain ⟨kept, hkept, hmem⟩ := runnableEntries_ok hexpiry'
  refine ⟨kept, ?_, fun row => by rw [hmem, hrows]⟩
  simp only [queueList, hentries]
  exact hkept

/-! ## Listing against claims -/

/-- The row is one that its task and the continuity manager let anyone claim. -/
def QueueRow.Released (db : Database) (now : ℚ) (row : QueueRow) : Prop :=
  (∃ taskRow, db.tasks.get? row.taskId = some taskRow ∧
    taskRow.payload.status.terminal = false) ∧
  row.nextAttemptAt ≤ now ∧ db.resumeAt row.taskId ≤ now

/-- After recovery the claimable tasks are those whose row was due and is released. -/
theorem recovered_claimable_iff
    (hmid : mid.resumeAt taskId = db.resumeAt taskId ∧ mid.view taskId =
      if (db.view taskId).expired now then (db.view taskId).recovered (db.resumeAt taskId)
      else db.view taskId) :
    mid.Claimable now taskId ↔
      ∃ row ∈ db.queue.rows, row.taskId = taskId ∧ row.Due now ∧ row.Released db now := by
  obtain ⟨hresume, hview⟩ := hmid
  rw [Database.Claimable, hresume, hview]
  constructor
  · intro hclaim
    obtain ⟨status, row, hv⟩ : ∃ status row, db.view taskId = ⟨some status, some row⟩ := by
      rcases hv : db.view taskId with ⟨_ | status, _ | row⟩
      case some.some => exact ⟨_, _, rfl⟩
      all_goals
        rw [hv] at hclaim
        obtain ⟨_, _, hclaimed, -⟩ := hclaim
        split at hclaimed <;> cases hclaimed
    obtain ⟨hmem, rfl⟩ := Table.get?_eq_some_iff.mp
      (show db.queue.get? taskId = some row from congrArg View.row hv)
    obtain ⟨taskRow, htask, rfl⟩ := Option.map_eq_some_iff.mp (congrArg View.status hv)
    refine ⟨row, hmem, rfl, ?_⟩
    rw [hv, View.expired, Option.any_some] at hclaim
    split at hclaim
    next hexpired =>
      obtain ⟨_, _, hclaimed, hready, hkept, hnext, hlater, hlive⟩ := hclaim
      cases hclaimed
      have hkept' : row.cancelRequested = false := hkept
      have hsettled : row.settled taskRow.payload.status = taskRow.payload.status := by
        simp [QueueRow.settled, hkept']
      rw [hsettled] at hlive
      exact ⟨⟨hkept', .inr hexpired⟩, ⟨taskRow, htask, hlive⟩,
        (le_max_left _ _).trans hnext, hlater⟩
    next hcurrent =>
      obtain ⟨_, _, hclaimed, hready, hkept, hnext, hlater, hlive⟩ := hclaim
      cases hclaimed
      exact ⟨⟨hkept, .inl ⟨hready, hnext⟩⟩, ⟨taskRow, htask, hlive⟩, hnext, hlater⟩
  · rintro ⟨row, hmem, rfl, ⟨hkept, hdue⟩, ⟨taskRow, htask, hlive⟩, hnext, hlater⟩
    have hv := view_of_get? htask (row_of_mem hmem)
    have hsettled : row.settled taskRow.payload.status = taskRow.payload.status := by
      simp [QueueRow.settled, hkept]
    rw [hv, View.expired, Option.any_some]
    split
    next hexpired =>
      refine ⟨_, _, rfl, ?_, hkept, max_le hnext hlater, hlater, ?_⟩
      · simp [QueueRow.recovered, hsettled, hlive]
      · rw [hsettled, hlive]
    next hcurrent =>
      have hready := (hdue.resolve_right hcurrent).1
      exact ⟨_, row, rfl, hready, hkept, hnext, hlater, hlive⟩

section Runs

variable [Platform]

theorem queued_exist {s : System ledgerMachine} (hs : Reachable anyRun s) :
    s.snap.state.db.QueuedExist := by
  intro row hrow
  obtain ⟨taskRow, htask, -⟩ := (numbered hs row.taskId).task (row_of_mem hrow)
  exact status_isSome.mpr ⟨taskRow, htask⟩

theorem leased_expiry {s : System ledgerMachine} (hs : Reachable anyRun s) {row : QueueRow}
    (hrow : row ∈ s.snap.state.db.queue.rows) (hleased : row.state = .leased) :
    row.leaseExpiresAt ≠ none := by
  obtain ⟨taskRow, -, hconsistent⟩ := (numbered hs row.taskId).task (row_of_mem hrow)
  exact Option.isSome_iff_ne_none.mp (hconsistent.expiry.mpr hleased)

/-- In every reachable state and at every time, recovery and claims succeed, and hand out the
listed tasks exactly when every row that is due belongs to a live task and is deferred neither
by its own date nor by the continuity manager's. -/
theorem runnable_agrees_iff {s : System ledgerMachine} (hs : Reachable anyRun s) (now leaseS : ℚ)
    (workerId : String) (hworker : isBlank workerId = false) (hlease : 0 < leaseS) :
    ∃ n mid ids last listed, recoverExpired now s.snap.state.db = .ok (n, mid) ∧
      HandsOut workerId leaseS now mid ids last ∧
      queueList true now s.snap.state.db = .ok listed ∧
      ((∀ id, id ∈ listed.map (fun entry => entry.row.taskId) ↔ id ∈ ids) ↔
        ∀ row ∈ s.snap.state.db.queue.rows, row.Due now → row.Released s.snap.state.db now) := by
  have hqueued := queued_exist hs
  obtain ⟨n, mid, hrecover, heffect⟩ := recoverExpired_view hqueued
  obtain ⟨ids, last, hout⟩ := exists_handsOut hworker hlease mid
  obtain ⟨listed, hlisted, hmem⟩ := queueList_ok hqueued fun row hrow => leased_expiry hs hrow
  refine ⟨n, mid, ids, last, listed, hrecover, hout, hlisted, ?_⟩
  have hlist (id : String) : id ∈ listed.map (fun entry => entry.row.taskId) ↔
      ∃ row ∈ s.snap.state.db.queue.rows, row.taskId = id ∧ row.Due now := by
    constructor
    · intro hid
      obtain ⟨entry, hentry, rfl⟩ := List.mem_map.mp hid
      obtain ⟨hrow, hdue⟩ := (hmem entry.row).mp (List.mem_map_of_mem hentry)
      exact ⟨entry.row, hrow, rfl, hdue⟩
    · rintro ⟨row, hrow, rfl, hdue⟩
      obtain ⟨entry, hentry, rfl⟩ := List.mem_map.mp ((hmem row).mpr ⟨hrow, hdue⟩)
      exact List.mem_map.mpr ⟨entry, hentry, rfl⟩
  have hclaims (id : String) : id ∈ ids ↔
      ∃ row ∈ s.snap.state.db.queue.rows, row.taskId = id ∧ row.Due now ∧
        row.Released s.snap.state.db now :=
    (hout.mem_iff id).trans (recovered_claimable_iff (heffect id))
  constructor
  · intro hagree row hrow hdue
    have hlisted' := (hlist row.taskId).mpr ⟨row, hrow, rfl, hdue⟩
    obtain ⟨other, hother, hid, -, hreleased⟩ :=
      (hclaims row.taskId).mp ((hagree row.taskId).mp hlisted')
    have hsame := Table.eq_of_determines (Table.primary_determines row.taskId) hother hrow
      (by simpa [Keyed.primary] using hid) (by simp [Keyed.primary])
    exact hsame ▸ hreleased
  · intro hreleased id
    rw [hlist, hclaims]
    constructor
    · rintro ⟨row, hrow, hid, hdue⟩
      exact ⟨row, hrow, hid, hdue, hreleased row hrow hdue⟩
    · rintro ⟨row, hrow, hid, hdue, -⟩
      exact ⟨row, hrow, hid, hdue⟩

end Runs

section Deferred

local instance runnableDeferred : Platform := .reference []

/-- The continuity manager puts the task off until time 100. -/
def Sample.putOff (w : World) : World :=
  { w with db := { w.db with continuity := .put .empty ⟨"task", some 100⟩ } }

theorem Sample.putOff_drift (w : World) : w.Drift (Sample.putOff w) where
  continuity := ⟨.put .empty ⟨"task", some 100⟩, [], by rw [List.append_nil]; rfl, by simp⟩
  stopped := fun _ h => h

/-- While `first` holds the task its inference is put off; then `first` dies. -/
def Sample.deferred : System ledgerMachine :=
  ((Sample.fresh []).script claimed).drifted
    (putOff ((Sample.fresh []).script claimed).snap.state)

theorem Sample.deferred_reachable : Reachable anyRun Sample.deferred :=
  (Sample.reachable [] claimed).step (.drifted (Sample.putOff_drift _))

/-- At time 20 the task is listed, but recovery puts it off, and no claim hands it out. -/
theorem listed_unclaimable :
    ∃ n mid ids last listed, recoverExpired 20 Sample.deferred.snap.state.db = .ok (n, mid) ∧
      HandsOut "second" 10 20 mid ids last ∧
      queueList true 20 Sample.deferred.snap.state.db = .ok listed ∧
      "task" ∈ listed.map (fun entry => entry.row.taskId) ∧ "task" ∉ ids := by
  have hqueued := queued_exist Sample.deferred_reachable
  obtain ⟨n, mid, hrecover, heffect⟩ := recoverExpired_view hqueued
  have hworker : isBlank "second" = false := by decide
  have hlease : (0 : ℚ) < 10 := by decide
  obtain ⟨ids, last, hout⟩ := exists_handsOut hworker hlease mid
  obtain ⟨listed, hlisted, hmem⟩ :=
    queueList_ok hqueued fun row hrow => leased_expiry Sample.deferred_reachable hrow
  refine ⟨n, mid, ids, last, listed, hrecover, hout, hlisted, ?_, ?_⟩
  · obtain ⟨row, hrow, hid, hkept, hexpired⟩ : ∃ row ∈ Sample.deferred.snap.state.db.queue.rows,
        row.taskId = "task" ∧ row.cancelRequested = false ∧ row.expired 20 = true := by
      decide +kernel
    obtain ⟨entry, hentry, hsame⟩ :=
      List.mem_map.mp ((hmem row).mpr ⟨hrow, hkept, .inr hexpired⟩)
    exact List.mem_map.mpr ⟨entry, hentry, by rw [hsame, hid]⟩
  · intro hclaimed
    obtain ⟨_, _, -, -, -, -, hdate, -⟩ := (hout.mem_iff "task").mp hclaimed
    rw [(heffect "task").1] at hdate
    exact absurd hdate (by decide +kernel)

end Deferred

section Expired

local instance runnableExpired : Platform := .reference []

/-- An expired lease on a live task that nothing puts off: what is listed is handed out. -/
theorem runnable_agrees_expired :
    ∃ n mid ids last listed,
      recoverExpired 20 ((Sample.fresh []).script Sample.claimed).snap.state.db = .ok (n, mid) ∧
      HandsOut "second" 10 20 mid ids last ∧
      queueList true 20 ((Sample.fresh []).script Sample.claimed).snap.state.db = .ok listed ∧
      ∀ id, id ∈ listed.map (fun entry => entry.row.taskId) ↔ id ∈ ids := by
  obtain ⟨n, mid, ids, last, listed, hrecover, hout, hlisted, hiff⟩ :=
    runnable_agrees_iff (Sample.reachable [] Sample.claimed) 20 10 "second" (by decide) (by decide)
  refine ⟨n, mid, ids, last, listed, hrecover, hout, hlisted, hiff.mpr fun row hrow _ => ?_⟩
  have hall : ∀ row ∈ ((Sample.fresh []).script Sample.claimed).snap.state.db.queue.rows,
      (∃ taskRow ∈ ((Sample.fresh []).script Sample.claimed).snap.state.db.tasks.get? row.taskId,
        taskRow.payload.status.terminal = false) ∧ row.nextAttemptAt ≤ 20 ∧
      ((Sample.fresh []).script Sample.claimed).snap.state.db.resumeAt row.taskId ≤ 20 := by
    decide +kernel
  obtain ⟨⟨taskRow, htask, hlive⟩, hnext, hlater⟩ := hall row hrow
  exact ⟨⟨taskRow, htask, hlive⟩, hnext, hlater⟩

end Expired

end Dante
