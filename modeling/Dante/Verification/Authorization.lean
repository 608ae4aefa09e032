import Dante.Verification.ApprovalUse

/-! # When an approval is spent

Authorization is a transaction of its own, before the step is prepared and claimed. Until it
commits an approval is as it was; from then on it is spent, whatever becomes of the step. -/

namespace Dante

open JsonText Relational Concurrent

section Runs

variable [Platform] {approvalId taskId hash : String} {row : ApprovalRow}
  {log : List (Event Request.Reply Exn)}

omit [Platform] in
theorem mem_approvalEvents_used :
    .used taskId hash ∈ approvalEvents approvalId log ↔
      ∃ pid, .call pid (.consumeAction approvalId taskId hash) (.ok ()) ∈ log := by
  unfold approvalEvents
  rw [List.mem_filterMap]
  constructor
  · rintro ⟨e, he, hevent⟩
    cases e with
    | call pid r reply => exact ⟨pid, approvalEventOf_used hevent pid ▸ he⟩
    | _ => cases hevent
  · rintro ⟨pid, hmem⟩
    exact ⟨_, hmem, by simp [approvalEventOf]⟩

/-- An approval has been executed when its history has a use, for what it binds. -/
theorem Told.executed_iff {events : List ApprovalEvent} (h : Told (some row) events) :
    row.payload.status = .executed ↔ .used row.payload.taskId row.payload.planHash ∈ events := by
  cases h with
  | pending hstatus | approved hstatus | rejected hstatus => simp [hstatus]
  | executed hstatus _ _ hbinds =>
      simp only [Approval.binds, Bool.and_eq_true, beq_iff_eq] at hbinds
      simp [hstatus, hbinds.1.1.1, hbinds.2]

/-- An approved action is authorized for exactly the task and action it binds. -/
theorem consumeAction_iff {db : Database} {events : List ApprovalEvent}
    (hrow : db.approvals.get? approvalId = some row) (htold : Told (some row) events)
    (happroved : row.payload.status = .approved) :
    (∃ db', consumeAction approvalId taskId hash db = .ok ((), db')) ↔
      row.payload.binds taskId hash = true := by
  have hconsumed : row.consumed = true := by
    cases htold with
    | approved _ hconsumed => exact hconsumed
    | pending hother | rejected hother | executed hother =>
        rw [happroved] at hother
        cases hother
  have hgrants : row.payload.grants taskId hash = true ↔ row.payload.binds taskId hash = true := by
    rw [Approval.grants_iff]
    exact and_iff_right happroved
  constructor
  · rintro ⟨db', h⟩
    obtain ⟨other, hother, -, hg, -⟩ := consumeAction_ok h
    cases hrow.symm.trans hother
    exact hgrants.mp hg
  · intro hbinds
    simp only [consumeAction, Except.bind_eq_ok, orRaise_eq_ok, require_eq_ok]
    exact ⟨_, row, hrow, (), hconsumed, (), hgrants.mpr hbinds, rfl⟩

/-- Every handler that needs an approval is started after a use, by the same process, of an
approval for its action. -/
def Authorized (log : List (Event Request.Reply Exn)) : Prop :=
  ∀ before pid c reply, before ++ [.call pid (.runTool c) reply] <+: log →
    c.manifest.approvalPolicy ≠ "never" → ∃ hash approvalId, c.actionHash = .ok hash ∧
      .call pid (.consumeAction approvalId c.taskId hash) (.ok ()) ∈ before

omit [Platform] in
theorem consumes_mem {pid : ℕ} (h : 0 < (ownLog pid log).countP (consumes (taskId, hash))) :
    ∃ approvalId, .call pid (.consumeAction approvalId taskId hash) (.ok ()) ∈ log := by
  obtain ⟨e, he, hconsumes⟩ := List.countP_pos_iff.mp h
  simp only [ownLog, Credit.own, List.mem_filter, beq_iff_eq] at he
  cases e with
  | call pid' r reply =>
      cases r with
      | consumeAction other task' hash' =>
          cases reply with
          | ok u =>
              simp only [consumes, beq_iff_eq, Prod.mk.injEq] at hconsumes
              obtain ⟨rfl, rfl⟩ := hconsumes
              obtain ⟨hmem, rfl⟩ := he
              exact ⟨other, hmem⟩
          | error e => cases hconsumes
      | _ => cases hconsumes
  | _ => cases hconsumes

theorem authorized {s : System ledgerMachine} (h : Reachable brokeredRun s) :
    Authorized s.snap.log := by
  have happend {log : List (Event Request.Reply Exn)} {e : Event Request.Reply Exn}
      (hlog : Authorized log) (he : ∀ pid c reply, e = .call pid (.runTool c) reply →
        c.manifest.approvalPolicy ≠ "never" → ∃ hash approvalId, c.actionHash = .ok hash ∧
          .call pid (.consumeAction approvalId c.taskId hash) (.ok ()) ∈ log) :
      Authorized (log ++ [e]) := by
    intro before pid c reply hinit hpolicy
    rcases List.prefix_concat_iff.mp hinit with hlast | hearlier
    · obtain ⟨rfl, hevent⟩ := List.append_inj' hlast rfl
      exact he pid c reply (by simpa using hevent.symm) hpolicy
    · exact hlog before pid c reply hearlier hpolicy
  refine h.permitted_invariant (J := fun s => Authorized s.log) brokerProtocol_sound
    (fun p hp pid s _ _ => brokered_safe hp _) ?_ ?_ ?_ ?_ ?_
  · intro w _ before pid c reply hinit
    simp at hinit
  · intro s pid r env reply w _ hs _ hpermit _
    refine happend hs fun pid' c reply' hevent hpolicy => ?_
    cases hevent
    obtain ⟨hash, hhash, hcredit⟩ := (hpermit c rfl).approval hpolicy
    obtain ⟨approvalId, hmem⟩ := consumes_mem (Nat.zero_lt_of_lt hcredit)
    exact ⟨hash, approvalId, hhash, hmem⟩
  · exact fun hs => happend hs fun _ _ _ hevent => (by cases hevent)
  · exact fun hs => happend hs fun _ _ _ hevent => (by cases hevent)
  · exact fun hs _ => hs

/-- In every run of brokered programs, crashes included: an approval is executed exactly when a
use of it for its own task and action has committed, and only that commit ends its being
approved; until then the same action can be authorized; and every handler that needs an
approval is started after its process has used one, no more often than approvals are used. -/
theorem approval_spent {s : System ledgerMachine} (h : Reachable brokeredRun s) :
    (∀ approvalId row, s.snap.state.db.approvals.get? approvalId = some row →
      (row.payload.status = .executed ↔ ∃ pid, .call pid
        (.consumeAction approvalId row.payload.taskId row.payload.planHash) (.ok ()) ∈ s.snap.log)) ∧
    (∀ approvalId row, s.snap.state.db.approvals.get? approvalId = some row →
      row.payload.status = .approved →
      (∀ s', Step brokeredRun s s' → ∃ row', s'.snap.state.db.approvals.get? approvalId = some row' ∧
        (row'.payload.status = .approved ∧ row'.payload.binds = row.payload.binds ∨
          row'.payload.status = .executed ∧ ∃ pid, s'.snap.log = s.snap.log ++ [.call pid
            (.consumeAction approvalId row.payload.taskId row.payload.planHash) (.ok ())])) ∧
      ∀ taskId hash,
        (∃ db', consumeAction approvalId taskId hash s.snap.state.db = .ok ((), db')) ↔
          row.payload.binds taskId hash = true) ∧
    Authorized s.snap.log ∧
    ∀ k, s.snap.log.countP (startsApproved k) ≤ s.snap.log.countP (consumes k) := by
  have htold := told (R := brokeredRun) (fun _ hw => hw) h
  have hsolvent := (h.keeps brokerProtocol_sound fun p hp pid s _ _ => brokered_safe hp _).inv.2
  refine ⟨fun approvalId row hrow => ?_, fun approvalId row hrow happroved => ?_, authorized h,
    hsolvent.total⟩
  · have hown := htold approvalId
    rw [hrow] at hown
    rw [hown.executed_iff, mem_approvalEvents_used]
  · have hown := htold approvalId
    rw [hrow] at hown
    refine ⟨fun s' hstep => ?_, fun taskId hash => consumeAction_iff hrow hown happroved⟩
    obtain ⟨row', hrow', hbinds, hstatus⟩ := approval_step hstep hrow hown
    refine ⟨row', hrow', ?_⟩
    rcases hstatus with hsame | ⟨hpending, -⟩ | ⟨-, hexecuted, hlog⟩
    · exact .inl ⟨hsame.trans happroved, hbinds⟩
    · rw [happroved] at hpending
      cases hpending
    · exact .inr ⟨hexecuted, hlog⟩

end Runs

section Spent

attribute [local instance] approvalApproved

theorem approval_spent_used :
    ∃ pid, .call pid (.consumeAction "approval" "task" Sample.hash) (.ok ()) ∈
      Sample.approved.snap.log := by
  obtain ⟨row, hrow, hexecuted, htask, hplan⟩ :
      ∃ row ∈ Sample.approved.snap.state.db.approvals.get? "approval",
        row.payload.status = .executed ∧ row.payload.taskId = "task" ∧
          row.payload.planHash = Sample.hash := by
    decide +kernel
  have hused := ((approval_spent Sample.approved_reachable).1 "approval" row hrow).mp hexecuted
  rwa [htask, hplan] at hused

/-- The process dies right after its use of the approval. -/
def Sample.abandoned : System ledgerMachine :=
  ((((Sample.fresh []).script approval).started approvedInvocation).driven 3
    (List.replicate 4 (moment 0 "step"))).crashed 3

theorem Sample.abandoned_reachable : Reachable brokeredRun Sample.abandoned := by
  have hprogram : Brokered Sample.approvedInvocation :=
    .bind (.invoke ..) fun _ => .quiet trivial
  have hsteps := Steps.driven (R := brokeredRun) (fun _ _ _ => trivial)
    (((Sample.fresh []).script approval).started approvedInvocation) 3
    (List.replicate 4 (moment 0 "step"))
  refine (((((Reachable.start _ rfl).steps Sample.approval_steps).step
    (.spawn _ _ hprogram)).steps hsteps).step (.crashed ?_))
  decide +kernel

/-- The approval is executed although no step was ever claimed, or even prepared. -/
theorem spent_without_attempt :
    ∃ s row, Reachable brokeredRun s ∧ s.snap.state.db.approvals.get? "approval" = some row ∧
      row.payload.status = .executed ∧ .crash 3 ∈ s.snap.log ∧
      s.snap.state.db.stepsOf "task" = [] := by
  obtain ⟨row, hrow, hexecuted⟩ :
      ∃ row ∈ Sample.abandoned.snap.state.db.approvals.get? "approval",
        row.payload.status = .executed := by
    decide +kernel
  have hnone : (Sample.abandoned.snap.state.db.stepsOf "task").isEmpty = true := by
    decide +kernel
  refine ⟨Sample.abandoned, row, Sample.abandoned_reachable, hrow, hexecuted, ?_,
    List.isEmpty_iff.mp hnone⟩
  simp [Sample.abandoned, System.crashed]

end Spent

end Dante
