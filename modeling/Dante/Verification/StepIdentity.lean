import Dante.Verification.Brokered
import Dante.Verification.Digest

/-! # A step is known by its operation

Calls of `prepare_step` and `lookup_step` name a step by a key. The key is the caller's, or it
is derived from the tool and its arguments; either way it names one row, for good. -/

namespace Dante

open JsonText Relational Concurrent

/-! ## Calls -/

/-- The parameters of `prepare_step` and `lookup_step`. The arguments are a dict that passes
`check_keys`, and `fields` is what `digest` encodes of it. -/
structure StepCall where
  taskId : String
  toolId : String
  toolVersion : String
  arguments : PyValue
  fields : Dict Json
  encoded : arguments.value.toJson = .obj fields
  keys : arguments.value.stringKeys = true
  idempotencyKey : Option String

namespace StepCall

abbrev lookup (c : StepCall) : Request :=
  .lookupStep c.taskId c.toolId c.toolVersion c.fields c.idempotencyKey

abbrev prepare (c : StepCall) (owner : Option Lease) : Request :=
  .prepareStep owner c.taskId c.toolId c.toolVersion c.fields c.idempotencyKey

/-- The call was answered with the step. -/
inductive Answered (c : StepCall) (stepId : String) : Event Request.Reply Exn → Prop where
  | found (pid : ℕ) (step : StepRecord) (hid : step.stepId = stepId) :
      Answered c stepId (.call pid c.lookup (.ok (some step)))
  | existing (pid : ℕ) (owner : Option Lease) (step : StepRecord) (hid : step.stepId = stepId) :
      Answered c stepId (.call pid (c.prepare owner) (.ok (.existing step)))
  | created (pid : ℕ) (owner : Option Lease) :
      Answered c stepId (.call pid (c.prepare owner) (.ok (.created stepId)))

end StepCall

section Runs

variable [Platform]

/-- The step is recorded for the operation of the call, under the call's key. -/
structure StepCall.Refers (c : StepCall) (db : Database) (stepId argsDigest key : String)
    (row : StepRecord) : Prop where
  digested : digest (.obj c.fields) = .ok argsDigest
  keyed : stepKey c.toolId c.toolVersion argsDigest c.idempotencyKey = .ok key
  named : db.stepNamed c.taskId stepId = some row
  key_eq : row.idempotencyKey = key
  operation : row.operation = (c.toolId, c.toolVersion, argsDigest)

/-- The call has a step in the journal. -/
def StepCall.Recorded (c : StepCall) (db : Database) (stepId : String) : Prop :=
  ∃ argsDigest key row, c.Refers db stepId argsDigest key row

/-! ## What is recorded stays recorded -/

/-- Steps stay recorded, for the same operation and under the same key. -/
def Database.KeepsSteps (db db' : Database) : Prop :=
  ∀ taskId stepId row, db.stepNamed taskId stepId = some row →
    ∃ row', db'.stepNamed taskId stepId = some row' ∧
      row'.idempotencyKey = row.idempotencyKey ∧ row'.operation = row.operation

theorem StepCall.Recorded.kept {c : StepCall} {db db' : Database} {stepId : String}
    (h : c.Recorded db stepId) (hkeep : db.KeepsSteps db') : c.Recorded db' stepId := by
  obtain ⟨argsDigest, key, row, hrefers⟩ := h
  obtain ⟨row', hrow', hkey, hop⟩ := hkeep _ _ row hrefers.named
  exact ⟨argsDigest, key, row', hrefers.digested, hrefers.keyed, hrow',
    hkey.trans hrefers.key_eq, hop.trans hrefers.operation⟩

/-! ## What an answer says -/

theorem StepCall.recorded_of_find {c : StepCall} {db : Database} {argsDigest key : String}
    {row : StepRecord} (hargs : digest (.obj c.fields) = .ok argsDigest)
    (hkey : stepKey c.toolId c.toolVersion argsDigest c.idempotencyKey = .ok key)
    (hfind : db.steps.find (StepRecord.keyed c.taskId key) = some row)
    (hop : row.operation = (c.toolId, c.toolVersion, argsDigest)) :
    c.Recorded db row.stepId := by
  obtain ⟨hnamed, hrowkey⟩ := stepNamed_of_keyed hfind
  exact ⟨argsDigest, key, row, hargs, hkey, hnamed, hrowkey, hop⟩

theorem StepCall.recorded_of_found {c : StepCall} {db : Database} {step : StepRecord}
    (h : lookupStep c.taskId c.toolId c.toolVersion c.fields c.idempotencyKey db =
      .ok (some step)) : c.Recorded db step.stepId := by
  obtain ⟨argsDigest, key, hargs, hkey, hfind, hop⟩ := lookupStep_ok h
  exact recorded_of_find hargs hkey hfind.symm (hop step rfl)

theorem StepCall.recorded_of_prepared {c : StepCall} {db db' : Database} {owner : Option Lease}
    {clock : ℕ → ℚ} {newId : String} {answer : Prepared}
    (h : prepareStep owner c.taskId c.toolId c.toolVersion c.fields c.idempotencyKey clock newId db
      = .ok (answer, db')) :
    (∃ step, answer = .existing step ∧ c.Recorded db' step.stepId) ∨
      (answer = .created newId ∧ c.Recorded db' newId) := by
  obtain ⟨argsDigest, key, row, hargs, hkey, -, -, -, hanswer⟩ := prepareStep_ok h
  cases hanswer with
  | inl hold =>
      obtain ⟨step, rfl, rfl, hfind, hop⟩ := hold
      exact .inl ⟨step, rfl, recorded_of_find hargs hkey hfind hop⟩
  | inr hnew =>
      obtain ⟨rfl, hprepared⟩ := hnew
      obtain ⟨steps, hins, rfl⟩ := hprepared.inserted
      have hfind := Table.find_insert hins (p := StepRecord.keyed c.taskId key)
      simp only [hprepared.absent, Option.none_or, StepRecord.keyed, StepRecord.prepared,
        beq_self_eq_true, Bool.and_self, if_true] at hfind
      have hrec (db' : Database) (hsteps : db'.steps = steps) :
          c.Recorded db' (StepRecord.prepared newId c.taskId c.toolId c.toolVersion argsDigest key
            (clock 1)).stepId :=
        recorded_of_find hargs hkey (hsteps ▸ hfind) rfl
      exact .inr ⟨rfl, hrec _ rfl⟩

theorem StepCall.Answered.recorded {c : StepCall} {stepId : String} {pid : ℕ} {r : Request}
    {reply : Except Exn r.Reply} {env : Surroundings} {w w' : World}
    (h : c.Answered stepId (.call pid r reply)) (hperform : perform env r w = (reply, w')) :
    c.Recorded w'.db stepId := by
  cases h with
  | found _ step hid =>
      have hlookup := congrArg Prod.fst hperform
      have hsame : w' = w := (congrArg Prod.snd hperform).symm
      rw [hsame, ← hid]
      exact recorded_of_found hlookup
  | existing _ owner step hid =>
      rcases commit_cases hperform with ⟨answer, db', hx, hreply, rfl⟩ | ⟨_, -, hreply, -⟩
      · cases hreply
        rcases recorded_of_prepared hx with ⟨other, hother, hrec⟩ | ⟨hother, -⟩
        · cases hother
          exact hid ▸ hrec
        · cases hother
      · cases hreply
  | created _ owner =>
      rcases commit_cases hperform with ⟨answer, db', hx, hreply, rfl⟩ | ⟨_, -, hreply, -⟩
      · cases hreply
        rcases recorded_of_prepared hx with ⟨other, hother, -⟩ | ⟨hother, hrec⟩
        · cases hother
        · cases hother
          exact hrec
      · cases hreply

theorem StepCall.digestValue_eq (c : StepCall) :
    digestValue c.arguments.value = digest (.obj c.fields) := by
  rw [Dante.digestValue_eq, if_pos c.keys, c.encoded]

/-- Arguments have one digest when they are equal as JSON. -/
theorem StepCall.digest_eq_iff {c c' : StepCall} {a b : String}
    (h : digest (.obj c.fields) = .ok a) (h' : digest (.obj c'.fields) = .ok b) :
    a = b ↔ c.arguments.value.Same c'.arguments.value :=
  (digestValue_settles (c.digestValue_eq.trans h) (c'.digestValue_eq.trans h')).2

/-- The step recorded for a call is the one that its key finds. -/
theorem StepCall.Refers.find {c : StepCall} {db : Database} {stepId argsDigest key : String}
    {row : StepRecord} (h : c.Refers db stepId argsDigest key row) :
    db.steps.find (StepRecord.keyed c.taskId key) = some row := by
  rw [Table.find_eq_some_iff (StepRecord.keyed_determines _ _)]
  have hnamed := named_of_find h.named
  exact ⟨Table.mem_of_find h.named, by simp [StepRecord.keyed, hnamed.1, h.key_eq]⟩

theorem StepCall.Refers.stepId_eq {c : StepCall} {db : Database} {stepId argsDigest key : String}
    {row : StepRecord} (h : c.Refers db stepId argsDigest key row) : row.stepId = stepId :=
  (named_of_find h.named).2

/-- Looking up a call whose step is on record finds it. -/
theorem StepCall.Recorded.lookup {c : StepCall} {db : Database} {stepId : String}
    (h : c.Recorded db stepId) :
    ∃ row, lookupStep c.taskId c.toolId c.toolVersion c.fields c.idempotencyKey db =
      .ok (some row) ∧ row.stepId = stepId := by
  obtain ⟨argsDigest, key, row, hrefers⟩ := h
  refine ⟨row, ?_, hrefers.stepId_eq⟩
  simp [lookupStep, hrefers.digested, hrefers.keyed, hrefers.find, sameOperation, require,
    hrefers.operation, bind, Except.bind, pure, Except.pure]

/-! ## A key used again -/

/-- The lease and the task let `prepare_step` go ahead. -/
def Database.MayPrepare (db : Database) (now : ℚ) (taskId : String) (owner : Option Lease) : Prop :=
  db.Permits now taskId true owner ∧
    ∃ row, db.tasks.get? taskId = some row ∧ row.payload.status.terminal = false

omit [Platform] in
theorem Database.MayPrepare.checks {db : Database} {now : ℚ} {taskId : String}
    {owner : Option Lease} (h : db.MayPrepare now taskId owner) :
    requireLease db now taskId true owner = .ok () ∧ ∃ task, activeTask db taskId = .ok task := by
  obtain ⟨hpermit, row, hrow, hterm⟩ := h
  exact ⟨requireLease_ok.mpr hpermit, row.payload, activeTask_ok.mpr ⟨⟨row, hrow, rfl⟩, hterm⟩⟩

section Reused

variable {c c' : StepCall} {db : Database} {stepId chosen : String}

end Reused

end Runs

section Reused

local instance stepIdentityReused : Platform := .reference []

/-- The lease is the reason. -/
def Sample.leaseLost {α : Type} : Except Exn α → Bool
  | .error .leaseLost => true
  | _ => false

end Reused

end Dante
