import Dante.Model.Ledger

/-! # What a committed operation has checked -/

namespace Dante

open JsonText Relational

variable {db db' : Database} {now : ℚ} {taskId : String} {beforeEffect : Bool}
  {owner : Option Lease} {row : QueueRow}

/-! ## Leases -/

/-- `lease` is the current one, whether or not it has expired. -/
def QueueRow.HeldBy (row : QueueRow) (lease : Lease) : Prop :=
  row.taskId = lease.taskId ∧ row.state = .leased ∧ row.workerId = some lease.workerId ∧
    row.generation = lease.generation

instance (row : QueueRow) (lease : Lease) : Decidable (row.HeldBy lease) :=
  inferInstanceAs (Decidable (_ ∧ _ ∧ _ ∧ _))

/-- `owner` passes `assert_lease` on this row at time `now`. -/
def QueueRow.Accepts (row : QueueRow) (now : ℚ) (beforeEffect : Bool) (owner : Option Lease) :
    Prop :=
  ∃ lease expiresAt, owner = some lease ∧ row.HeldBy lease ∧
    row.leaseExpiresAt = some expiresAt ∧ now < expiresAt ∧
    (beforeEffect = true → row.cancelRequested = false)

/-- A queued task is only touched under its current lease. -/
def Database.Permits (db : Database) (now : ℚ) (taskId : String) (beforeEffect : Bool)
    (owner : Option Lease) : Prop :=
  ∀ row, db.queue.get? taskId = some row → row.Accepts now beforeEffect owner

theorem taskId_of_get? (h : db.queue.get? taskId = some row) : row.taskId = taskId :=
  Table.primary_of_get? h

theorem ownedBy_iff (h : row.taskId = taskId) :
    row.ownedBy taskId owner = true ↔ ∃ lease, owner = some lease ∧ row.HeldBy lease := by
  cases owner with
  | none => simp [QueueRow.ownedBy]
  | some lease =>
      simp only [QueueRow.ownedBy, QueueRow.HeldBy, Bool.and_eq_true, beq_iff_eq, h,
        Option.some.injEq, exists_eq_left']
      constructor
      · rintro ⟨⟨⟨h₁, h₂⟩, h₃⟩, h₄⟩
        exact ⟨h₁.symm, h₂, h₃, h₄⟩
      · rintro ⟨h₁, h₂, h₃, h₄⟩
        exact ⟨⟨⟨h₁.symm, h₂⟩, h₃⟩, h₄⟩

theorem assertLease_ok {held : Option QueueRow} :
    assertLease db now taskId beforeEffect owner = .ok held ↔
      held = db.queue.get? taskId ∧ db.Permits now taskId beforeEffect owner := by
  unfold assertLease Database.Permits
  cases h : db.queue.get? taskId with
  | none => simp [eq_comm]
  | some row =>
      have howned : row.ownedBy taskId owner = true ↔
          ∃ lease, owner = some lease ∧ row.HeldBy lease := ownedBy_iff (taskId_of_get? h)
      simp only [Except.bind_eq_ok, require_eq_ok, orRaise_eq_ok, howned, exists_and_left,
        decide_eq_true_eq, Bool.not_eq_true', Bool.and_eq_false_imp, pure, Except.pure,
        Except.ok.injEq, Option.some.injEq, forall_eq', QueueRow.Accepts, exists_const]
      constructor
      · rintro ⟨⟨lease, ho, hheld⟩, e, he, hlt, hc, rfl⟩
        exact ⟨rfl, lease, ho, hheld, e, he, hlt, hc⟩
      · rintro ⟨rfl, lease, ho, hheld, e, he, hlt, hc⟩
        exact ⟨⟨lease, ho, hheld⟩, e, he, hlt, hc, rfl⟩

@[simp] theorem requireLease_ok {u : Unit} :
    requireLease db now taskId beforeEffect owner = .ok u ↔
      db.Permits now taskId beforeEffect owner := by
  simp [requireLease, Except.bind_eq_ok, assertLease_ok, pure, Except.pure]

end Dante
