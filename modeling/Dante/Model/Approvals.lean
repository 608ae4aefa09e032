import Dante.Model.Database

/-! # Approvals: a decision and an execution grant, each used once -/

namespace Dante

open JsonText Relational

variable [Platform]

/-- `hashlib.sha256(token.encode()).hexdigest()`. -/
def tokenHash (token : String) : String :=
  Platform.sha256 token.toUTF8

/-- `ApprovalManager.request`. -/
def requestApproval (taskId action target planHash newId token : String) (db : Database) :
    Except Exn ((Approval × String) × Database) := do
  let approval : Approval :=
    { approvalId := newId, taskId := taskId, action := action, target := target,
      planHash := planHash, status := .pending, decidedBy := none }
  let approvals ← orRaise (db.approvals.insert ⟨approval, tokenHash token, false⟩) .integrityError
  pure ((approval, token), { db with approvals := approvals })

/-- The payload after a decision. -/
def Approval.decided (a : Approval) (actor : String) (approve : Bool) : Approval :=
  { a with status := if approve then .approved else .rejected, decidedBy := some actor }

omit [Platform] in
@[simp] theorem Approval.decided_approvalId (a : Approval) (actor : String) (approve : Bool) :
    (a.decided actor approve).approvalId = a.approvalId := rfl

/-- `ApprovalManager.decide`. -/
def decideApproval (approvalId token planHash actor : String) (approve : Bool) (db : Database) :
    Except Exn (Approval × Database) := do
  let row ← orRaise (db.approvals.get? approvalId)
    (.permissionError "Approval token is invalid or consumed")
  require (!row.consumed && row.tokenHash == tokenHash token)
    (.permissionError "Approval token is invalid or consumed")
  require (row.payload.planHash == planHash) (.permissionError "Approval plan hash changed")
  pure (row.payload.decided actor approve,
    db.updateApproval approvalId
      (fun r => { r with payload := r.payload.decided actor approve, consumed := true })
      (fun r => r.payload.decided_approvalId actor approve))

/-- The approval grants exactly this action of this task. -/
def Approval.grants (a : Approval) (taskId actionHash : String) : Bool :=
  a.status == .approved && a.taskId == taskId && a.action == "tool.execute" &&
    a.target == actionHash && a.planHash == actionHash

/-- `ApprovalManager.consume_action`. -/
def consumeAction (approvalId taskId actionHash : String) (db : Database) :
    Except Exn (Unit × Database) := do
  let row ← orRaise (db.approvals.get? approvalId) (.permissionError "Approval is not decided")
  require row.consumed (.permissionError "Approval is not decided")
  require (row.payload.grants taskId actionHash)
    (.permissionError "Approval does not authorize this action")
  pure ((), db.updateApproval approvalId
    (fun r => { r with payload := { r.payload with status := .executed } }) (fun _ => rfl))

end Dante
