import Mathlib
import Dante.Library.Ends
import Dante.Verification.Brokered
import Dante.Verification.Completion
import Dante.Verification.Denials
import Dante.Verification.StepEdges

/-! # One attempt at a step

Authorising, preparing, claiming, running and finishing, with nobody else about: what each part
of `invoke` leaves of the step, whether it returns or raises. -/

namespace Dante

open JsonText Relational Concurrent
open Programs (Invocation)

variable [Platform] {S : Setting ledgerMachine} {w w' : World} {l : List (Exchange Request.Reply Exn)}
  {owner : Option Lease} {taskId stepId key : String} {r : Request}

/-! ## Requests with nobody else about -/

/-- Between two requests of the program nothing happens. -/
def Undisturbed (S : Setting ledgerMachine) : Prop :=
  ∀ w w', S.between w w' → w' = w

/-- A transaction answers and commits, or raises and leaves everything as it was. -/
theorem Undisturbed.commits (hS : Undisturbed S)
    {f : Surroundings → Except Exn (r.Reply × Database)} {Q : Post ledgerMachine r.Reply}
    {E : Post ledgerMachine Exn} (hr : ∀ env, perform env r w = w.commit (f env))
    (hok : ∀ env a db, f env = .ok (a, db) → Q a (l ++ [⟨r, .ok a⟩]) { w with db := db })
    (herror : ∀ env e, f env = .error e → E e (l ++ [⟨r, .error e⟩]) w) :
    Ends S (ask r) Q E l w := by
  apply Ends.call
  · intro w₀ env a w₁ hbetween _ hperform
    cases hS _ _ hbetween
    rcases commit_cases ((hr env).symm.trans hperform) with ⟨_, db, hx, heq, rfl⟩ | ⟨_, -, heq, -⟩
    · cases heq
      exact hok env a db hx
    · cases heq
  · intro w₀ env e w₁ hbetween _ hperform
    cases hS _ _ hbetween
    rcases commit_cases ((hr env).symm.trans hperform) with ⟨_, _, -, heq, -⟩ | ⟨_, hx, heq, rfl⟩
    · cases heq
    · cases heq
      exact herror env e hx

/-- A look at the ledger or the files changes nothing. -/
theorem Undisturbed.reads (hS : Undisturbed S) {x : Except Exn r.Reply}
    {Q : Post ledgerMachine r.Reply} {E : Post ledgerMachine Exn}
    (hr : ∀ env, perform env r w = (x, w))
    (hok : ∀ a, x = .ok a → Q a (l ++ [⟨r, .ok a⟩]) w)
    (herror : ∀ e, x = .error e → E e (l ++ [⟨r, .error e⟩]) w) : Ends S (ask r) Q E l w := by
  apply Ends.call
  · intro w₀ env a w₁ hbetween _ hperform
    cases hS _ _ hbetween
    cases (hr env).symm.trans hperform
    exact hok a rfl
  · intro w₀ env e w₁ hbetween _ hperform
    cases hS _ _ hbetween
    cases (hr env).symm.trans hperform
    exact herror e rfl

/-! ## What was asked -/

/-- A handler was started. -/
def Started (asked : List (Exchange Request.Reply Exn)) : Prop :=
  ∃ c reply, (⟨.runTool c, reply⟩ : Exchange Request.Reply Exn) ∈ asked

omit [Platform] in
theorem not_started_nil : ¬Started [] := by
  intro h
  obtain ⟨c, reply, hmem⟩ := h
  cases hmem

omit [Platform] in
theorem not_started_snoc (hr : r.Quiet) (h : ¬Started l) (reply : Except Exn r.Reply) :
    ¬Started (l ++ [⟨r, reply⟩]) := by
  intro hstarted
  obtain ⟨c, other, hmem⟩ := hstarted
  rcases List.mem_append.mp hmem with hmem | hmem
  · exact h ⟨c, other, hmem⟩
  · cases List.mem_singleton.mp hmem
    exact hr c rfl

/-- The handlers started under the manifest did what the status says. -/
def Relayed (S : Setting ledgerMachine) (manifest : ToolManifest) (status : ToolStatus)
    (asked : List (Exchange Request.Reply Exn)) : Prop :=
  ∀ c reply, (⟨.runTool c, reply⟩ : Exchange Request.Reply Exn) ∈ asked →
    ∃ env w, S.admits env w ∧ (runOutcome manifest (env.handler c w.fs).1).status = status

theorem Relayed.of_not_started {manifest : ToolManifest} {status : ToolStatus} (h : ¬Started l) :
    Relayed S manifest status l := by
  intro c reply hmem
  exact absurd ⟨c, reply, hmem⟩ h

theorem Relayed.snoc {manifest : ToolManifest} {status : ToolStatus} (hr : r.Quiet)
    (h : Relayed S manifest status l) (reply : Except Exn r.Reply) :
    Relayed S manifest status (l ++ [⟨r, reply⟩]) := by
  intro c other hmem
  rcases List.mem_append.mp hmem with hmem | hmem
  · exact h c other hmem
  · cases List.mem_singleton.mp hmem
    exact absurd rfl (hr c)

/-! ## What is left of a call -/

/-- Only events were logged. -/
def World.Logs (w w' : World) : Prop :=
  ∃ logged, w' = { w with db := { w.db with events := w.db.events ++ logged } }

omit [Platform] in
theorem World.Logs.refl (w : World) : w.Logs w :=
  ⟨[], by simp⟩

omit [Platform] in
theorem World.Logs.trans {a b c : World} (h : a.Logs b) (h' : b.Logs c) : a.Logs c := by
  obtain ⟨first, rfl⟩ := h
  obtain ⟨second, rfl⟩ := h'
  exact ⟨first ++ second, by simp⟩

/-- The step of the task that is recorded under the key. -/
def World.stepUnder (w : World) (taskId key : String) : Option StepRecord :=
  w.db.steps.find (StepRecord.keyed taskId key)

/-- The step recorded under the key is not in flight. -/
def World.AtRest (w : World) (taskId key : String) : Prop :=
  ∀ row, w.stepUnder taskId key = some row → row.state ≠ .started

/-- A step with this id is recorded under the key, and `P` holds of it. -/
def World.Holds (w : World) (taskId stepId key : String) (P : StepRecord → Prop) : Prop :=
  ∃ row, w.db.stepNamed taskId stepId = some row ∧ row.idempotencyKey = key ∧ P row

omit [Platform] in
theorem World.Holds.under {P : StepRecord → Prop} (h : w.Holds taskId stepId key P) :
    ∃ row, w.stepUnder taskId key = some row ∧ row.stepId = stepId ∧ P row := by
  obtain ⟨row, hrow, hkey, hP⟩ := h
  have hnamed := named_of_find hrow
  refine ⟨row, ?_, hnamed.2, hP⟩
  refine (Table.find_eq_some_iff (StepRecord.keyed_determines taskId key)).mpr ?_
  exact ⟨Table.mem_of_find hrow, by simp [StepRecord.keyed, hnamed.1, hkey]⟩

omit [Platform] in
theorem World.Holds.mono {P P' : StepRecord → Prop} (h : w.Holds taskId stepId key P)
    (hP : ∀ row, P row → P' row) : w.Holds taskId stepId key P' := by
  obtain ⟨row, hrow, hkey, hp⟩ := h
  exact ⟨row, hrow, hkey, hP row hp⟩

omit [Platform] in
/-- Where the step under the key is known to satisfy `P`, it is at rest if `P` says so. -/
theorem World.Holds.atRest {P : StepRecord → Prop} (h : w.Holds taskId stepId key P)
    (hP : ∀ row, P row → row.state ≠ .started) : w.AtRest taskId key := by
  intro row hrow
  obtain ⟨row', hrow', -, hp⟩ := h.under
  cases hrow.symm.trans hrow'
  exact hP row hp

/-! ## Leases in hand -/

/-- A queued task is held by the caller, whether or not in time. -/
def Database.HeldFor (db : Database) (taskId : String) (owner : Option Lease) : Prop :=
  ∀ row, db.queue.get? taskId = some row → ∃ lease expiresAt, owner = some lease ∧
    row.HeldBy lease ∧ row.leaseExpiresAt = some expiresAt

omit [Platform] in
theorem Database.Permits.heldFor {db : Database} {now : ℚ} {beforeEffect : Bool}
    (h : db.Permits now taskId beforeEffect owner) : db.HeldFor taskId owner := by
  intro row hrow
  obtain ⟨lease, expiresAt, howner, hheld, hexpiry, -⟩ := h row hrow
  exact ⟨lease, expiresAt, howner, hheld, hexpiry⟩

omit [Platform] in
/-- A lease in hand can only be lost. -/
theorem requireLease_lost_held {db : Database} {now : ℚ} {e : Exn} (hheld : db.HeldFor taskId owner)
    (h : requireLease db now taskId false owner = .error e) : e = .leaseLost := by
  simp only [requireLease, Except.bind_eq_error] at h
  rcases h with h | ⟨_, -, h⟩
  · unfold assertLease at h
    cases hrow : db.queue.get? taskId with
    | none =>
        rw [hrow] at h
        cases h
    | some row =>
        obtain ⟨lease, expiresAt, howner, hrowheld, hexpiry⟩ := hheld row hrow
        have howned : row.ownedBy taskId owner = true :=
          (ownedBy_iff (taskId_of_get? hrow)).mpr ⟨lease, howner, hrowheld⟩
        simp only [hrow, howned, hexpiry, require, orRaise, if_true, Bool.false_and, Bool.not_false,
          Except.bind_eq_error, reduceCtorEq, false_or] at h
        obtain ⟨_, -, _, -, h | h⟩ := h
        · split at h <;> cases h
          rfl
        · obtain ⟨_, -, _, -, h⟩ := h
          cases h
  · cases h

/-! ## The parts of an invocation -/

theorem digest_str (text : String) : ∃ textDigest, digest (.str text) = .ok textDigest :=
  ⟨_, rfl⟩

/-- An outcome is always recorded for a task that exists. -/
theorem record_ends (hS : Undisturbed S) {task : Task} {toolId : String} {result : ToolResult}
    {step : Option String} {row : TaskRow} {Q : Post ledgerMachine Unit}
    {E : Post ledgerMachine Exn} (hrow : w.db.tasks.get? task.taskId = some row)
    (hQ : ∀ r reply w', r.Quiet → w.Logs w' → Q () (l ++ [⟨r, reply⟩]) w') :
    Ends S (Programs.record task toolId result step) Q E l w := by
  obtain ⟨toolDigest, hdigest⟩ := digest_str toolId
  apply Ends.bind
  rw [hdigest]
  apply hS.commits (fun _ => rfl)
  · intro _ _ db hcommit
    obtain ⟨_, -, rfl⟩ := recordToolOutcome_ok hcommit
    exact hQ _ _ _ (by simp [Request.Quiet]) ⟨_, rfl⟩
  · intro _ e hcommit
    simp [recordToolOutcome, getTask, hrow, orRaise, bind, Except.bind, pure, Except.pure] at hcommit

/-- Only the approvals may have changed. -/
def World.Consumes (w w' : World) : Prop :=
  ∃ approvals, w' = { w with db := { w.db with approvals := approvals } }

omit [Platform] in
theorem World.Consumes.refl (w : World) : w.Consumes w :=
  ⟨w.db.approvals, rfl⟩

/-- The result denies the action. -/
def ToolResult.Denies (result : ToolResult) : Prop :=
  result.status ∈ [ToolStatus.validationDenied, .policyDenied, .approvalRequired, .approvalInvalid]

/-- What authorising leaves: a denial and nothing else, or a consumed approval. -/
def Authorised (w : World) (denied : Option ToolResult) (l : List (Exchange Request.Reply Exn))
    (w' : World) : Prop :=
  ¬Started l ∧ w.Consumes w' ∧ ∀ result, denied = some result → result.Denies ∧ w' = w

theorem authorize_ends (hS : Undisturbed S) {broker : ToolBroker} {task : Task} {toolId : String}
    {arguments : Dict Json} {approvalId : Option String} {planHash : String} (hl : ¬Started l) :
    Ends S (Programs.authorize broker task toolId arguments approvalId planHash) (Authorised w)
      (fun _ l' w' => ¬Started l' ∧ w' = w) l w := by
  have hnone : Authorised w none l w := ⟨hl, .refl w, fun result hresult => by cases hresult⟩
  have hsome {result : ToolResult} {l' : List (Exchange Request.Reply Exn)} (hl' : ¬Started l')
      (hresult : result.Denies) : Authorised w (some result) l' w := by
    refine ⟨hl', .refl w, fun other hother => ?_⟩
    cases hother
    exact ⟨hresult, rfl⟩
  apply Ends.bind
  apply Ends.ofExcept
  · intro manifest _
    apply Ends.ite
    · intro _
      exact hnone
    · intro _
      cases approvalId with
      | none => exact hsome hl (by simp [ToolResult.Denies, ToolResult.denied])
      | some approvalId =>
          apply Ends.bind
          apply Ends.ofExcept
          · intro hash _
            apply Ends.except
            apply Ends.bind
            apply hS.commits (fun _ => rfl)
            · intro _ _ db hcommit
              obtain ⟨_, -, -, -, rfl⟩ := consumeAction_ok hcommit
              refine ⟨not_started_snoc (by simp [Request.Quiet]) hl _, ⟨_, rfl⟩, ?_⟩
              exact fun result hresult => by cases hresult
            · intro _ e _
              have hl' := not_started_snoc (r := .consumeAction approvalId task.taskId hash)
                (by simp [Request.Quiet]) hl (.error e)
              cases e with
              | permissionError => exact hsome hl' (by simp [ToolResult.Denies, ToolResult.denied])
              | _ => exact ⟨hl', rfl⟩
          · intro _ _
            exact ⟨hl, rfl⟩
  · intro _ _
    exact ⟨hl, rfl⟩

/-- The step under the key, if there is one, may still be claimed. -/
def World.Open (w : World) (taskId key : String) : Prop :=
  ∀ row, w.stepUnder taskId key = some row → row.state = .intent

omit [Platform] in
theorem World.Open.atRest (h : w.Open taskId key) : w.AtRest taskId key := by
  intro row hrow
  rw [h row hrow]
  decide

omit [Platform] in
theorem World.Open.consumes (h : w.Open taskId key) (hconsumes : w.Consumes w') :
    w'.Open taskId key := by
  obtain ⟨approvals, rfl⟩ := hconsumes
  exact h

variable {v : Invocation}

/-- A step of the task is ready to be claimed, and no handler was started. -/
def Prepares (v : Invocation) (key : String) (step : StepRecord)
    (l : List (Exchange Request.Reply Exn)) (w : World) : Prop :=
  ¬Started l ∧ w.Holds v.task.taskId step.stepId key fun row => row.state = .intent

/-- No handler was started, and no step is in flight. -/
def Rests (v : Invocation) (key : String) (l : List (Exchange Request.Reply Exn)) (w : World) :
    Prop :=
  ¬Started l ∧ w.AtRest v.task.taskId key

omit [Platform] in
theorem Prepares.rests {step : StepRecord} (h : Prepares v key step l w) : Rests v key l w := by
  refine ⟨h.1, h.2.atRest fun row hrow => ?_⟩
  rw [hrow]
  decide

omit [Platform] in
theorem Prepares.snoc {step : StepRecord} (h : Prepares v key step l w) (hr : r.Quiet)
    (reply : Except Exn r.Reply) : Prepares v key step (l ++ [⟨r, reply⟩]) w :=
  ⟨not_started_snoc hr h.1 reply, h.2⟩

theorem getStep_ends (hS : Undisturbed S) {step : StepRecord} (h : Prepares v key step l w)
    (hid : step.stepId = stepId) :
    Ends S (ask (.getStep v.task.taskId stepId)) (Prepares v key) (fun _ => Rests v key) l w := by
  apply hS.reads (fun _ => rfl)
  · intro found hfound
    have hnamed : w.db.stepNamed v.task.taskId stepId = some found := orRaise_eq_ok.mp hfound
    have hfoundId : found.stepId = step.stepId := (named_of_find hnamed).2.trans hid.symm
    have hprepares := h.snoc (r := .getStep v.task.taskId stepId) (by simp [Request.Quiet])
      (.ok found)
    rwa [Prepares, ← hfoundId] at hprepares
  · intro e _
    exact (h.snoc (by simp [Request.Quiet]) _).rests

theorem prepareStep_ends (hS : Undisturbed S) (hkey : v.stepKey = .ok key)
    (hopen : w.Open v.task.taskId key) (hl : ¬Started l) :
    Ends S (Programs.prepareStep v.owner v.task.taskId v.toolId v.manifest.version v.arguments
      v.idempotencyKey) (Prepares v key) (fun _ => Rests v key) l w := by
  apply Ends.bind
  apply hS.commits (fun _ => rfl)
  · intro env prepared db hcommit
    obtain ⟨argsDigest, key', row, hargs, hkey', -, -, -, hfound⟩ := prepareStep_ok hcommit
    have hsame : key' = key := by
      simpa [Programs.Invocation.stepKey, hargs, bind, Except.bind, hkey'] using hkey
    subst hsame
    have hl' := not_started_snoc (r := .prepareStep v.owner v.task.taskId v.toolId
      v.manifest.version v.arguments v.idempotencyKey) (by simp [Request.Quiet]) hl (.ok prepared)
    rcases hfound with ⟨step, rfl, rfl, hfind, -⟩ | ⟨rfl, hnew⟩
    · obtain ⟨hnamed, hstepkey⟩ := stepNamed_of_keyed hfind
      exact ⟨hl', step, hnamed, hstepkey, hopen step hfind⟩
    · have hprepares : Prepares v key' (.prepared env.newId v.task.taskId v.toolId
          v.manifest.version argsDigest key' (env.clock 1)) _ { w with db := db } :=
        ⟨hl', _, hnew.stepNamed, rfl, rfl⟩
      exact getStep_ends hS hprepares rfl
  · intro env e _
    exact ⟨not_started_snoc (by simp [Request.Quiet]) hl _, hopen.atRest⟩

/-- What preparing leaves: a denial and nothing else, or a step that may be claimed. -/
def Readied (w : World) (v : Invocation) (key : String) : Post ledgerMachine (ToolResult ⊕ StepRecord)
  | .inl result, l', w' => ¬Started l' ∧ result.Denies ∧ w' = w
  | .inr step, l', w' => Prepares v key step l' w'

theorem prepare_ends (hS : Undisturbed S) (hkey : v.stepKey = .ok key)
    (hopen : w.Open v.task.taskId key) (hl : ¬Started l) :
    Ends S v.prepare (Readied w v key) (fun _ => Rests v key) l w := by
  apply Ends.bind
  apply (authorize_ends hS hl).mono
  · intro denied l' w' hauthorised
    obtain ⟨hl', hconsumes, hdenied⟩ := hauthorised
    cases denied with
    | some result => exact ⟨hl', hdenied result rfl⟩
    | none =>
        apply Ends.bind
        apply (prepareStep_ends hS hkey (hopen.consumes hconsumes) hl').mono
        · intro step l'' w'' hstep
          exact hstep
        · intro e l'' w'' hrests
          exact hrests
  · intro e l' w' hraised
    obtain ⟨hl', rfl⟩ := hraised
    exact ⟨hl', hopen.atRest⟩

/-! ## Claiming, running, finishing -/

/-- The process has claimed the step, and may still write its outcome. -/
structure ClaimHeld (v : Invocation) (key : String) (step : StepRecord) (w : World) : Prop where
  started : w.Holds v.task.taskId step.stepId key fun row => row.state = .started ∧ 1 ≤ row.attempt
  active : ∃ row, w.db.tasks.get? v.task.taskId = some row ∧ row.payload.status.terminal = false
  held : w.db.HeldFor v.task.taskId v.owner

omit [Platform] in
/-- An update of the steps in one state shows in a step that is in this state. -/
theorem World.Holds.updateSteps {P P' : StepRecord → Prop} {state : StepState}
    {f : StepRecord → StepRecord} {hf : KeepsKey f} {fs : FileSystem} {stopped : List String}
    {task : Task} {name : String} {previous : Option TaskStatus} {metadata : Dict Json}
    (h : w.Holds taskId stepId key P) (hstate : ∀ row, P row → row.state = state)
    (hP : ∀ row, P row → P' (f row)) :
    World.Holds ⟨(w.db.updateSteps (StepRecord.namedIn taskId stepId state) f hf).event task name
      previous metadata, fs, stopped⟩ taskId stepId key P' := by
  obtain ⟨row, hrow, hkey, hp⟩ := h
  have hin : row.namedIn taskId stepId state = true :=
    (namedIn_eq (named_of_find hrow)).mpr ⟨⟨rfl, rfl⟩, hstate row hp⟩
  refine ⟨f row, ?_, ?_, hP row hp⟩
  · rw [stepNamed_event, stepNamed_updateSteps, hrow, Option.map_some, if_pos hin]
  · have hkept : ((f row).stepId, (f row).taskId, (f row).idempotencyKey) =
        (row.stepId, row.taskId, row.idempotencyKey) := hf row
    simp only [Prod.mk.injEq] at hkept
    rw [hkept.2.2, hkey]

theorem claimStep_claimed {step : StepRecord} {now : ℚ} {u : Unit} {db : Database}
    (hprepares : Prepares v key step l w)
    (h : claimStep v.owner v.task.taskId step.stepId now w.fs w.db = .ok (u, db)) :
    ClaimHeld v key step { w with db := db } := by
  obtain ⟨row, _, hrow, hterminal, hpermits, -, -, rfl⟩ := claimStep_ok h
  refine ⟨?_, ⟨row, hrow, hterminal⟩, hpermits.heldFor⟩
  exact hprepares.2.updateSteps (fun _ hstate => hstate) fun old _ =>
    ⟨rfl, Nat.le_add_left 1 old.attempt⟩

variable {step : StepRecord} {now : ℚ}

omit [Platform] in
theorem ClaimHeld.activeTask (h : ClaimHeld v key step w) :
    ∃ task, Dante.activeTask w.db v.task.taskId = .ok task := by
  obtain ⟨row, hrow, hterminal⟩ := h.active
  exact ⟨row.payload, activeTask_ok.mpr ⟨⟨row, hrow, rfl⟩, hterminal⟩⟩

omit [Platform] in
/-- Handlers do not write to the ledger. -/
theorem ClaimHeld.run (h : ClaimHeld v key step w) (fs : FileSystem) :
    ClaimHeld v key step { w with fs := fs } :=
  ⟨h.started, h.active, h.held⟩

omit [Platform] in
theorem ClaimHeld.markUncertain_error {errorType : String} {e : Exn} (h : ClaimHeld v key step w)
    (hmark : markUncertain v.owner v.task.taskId step.stepId errorType now w.db = .error e) :
    e = .leaseLost := by
  obtain ⟨task, htask⟩ := h.activeTask
  simp only [markUncertain, Except.bind_eq_error, htask, reduceCtorEq, false_or] at hmark
  rcases hmark with hmark | ⟨_, -, _, -, hmark⟩
  · exact requireLease_lost_held h.held hmark
  · cases hmark

/-- The step could not be carried through. -/
def StepRecord.Doubtful (row : StepRecord) : Prop :=
  row.state = .uncertain ∧ 1 ≤ row.attempt

/-- A claimed step is marked, unless the lease is lost. -/
theorem markUncertain_ends (hS : Undisturbed S) {errorType : String} (h : ClaimHeld v key step w)
    {Q : Post ledgerMachine Unit} {E : Post ledgerMachine Exn}
    (hok : ∀ r reply w', r.Quiet → w'.Holds v.task.taskId step.stepId key StepRecord.Doubtful →
      Q () (l ++ [⟨r, reply⟩]) w')
    (hlost : ∀ r reply, r.Quiet → E .leaseLost (l ++ [⟨r, reply⟩]) w) :
    Ends S (ask (.markUncertain v.owner v.task.taskId step.stepId errorType)) Q E l w := by
  apply hS.commits (fun _ => rfl)
  · intro env _ db hcommit
    obtain ⟨_, -, -, -, rfl⟩ := markUncertain_ok hcommit
    refine hok _ _ _ (by simp [Request.Quiet]) ?_
    exact h.started.updateSteps (fun _ hrow => hrow.1) fun _ hrow => ⟨rfl, hrow.2⟩
  · intro env e hcommit
    cases h.markUncertain_error hcommit
    exact hlost _ _ (by simp [Request.Quiet])

/-! ### Receipts -/

/-- Any exception but the demand for a reconciliation. -/
def Exn.isOrdinary : Exn → Bool
  | .reconciliationRequired _ => false
  | _ => true

theorem raises_fileDigest {fs : FileSystem} {path : String} :
    Raises Exn.isOrdinary (fileDigest fs path) := by
  intro e he
  unfold fileDigest at he
  split at he
  · cases he
  · cases he
    rfl

theorem raises_insideWorkspace {fs : FileSystem} {path workspace : String} :
    Raises Exn.isOrdinary (insideWorkspace fs path workspace) := by
  intro e he
  unfold insideWorkspace at he
  cases hroot : fs.resolve workspace with
  | ok root =>
      rw [hroot] at he
      cases he
  | error problem =>
      have hscope := raises_resolve problem hroot
      rw [hroot] at he
      cases problem <;> cases he <;> first | rfl | cases hscope

theorem raises_receipt {fs : FileSystem} {result : Dict Json} {workspace : String} :
    Raises Exn.isOrdinary (receipt fs result workspace) := by
  have hresolve {path : String} : Raises Exn.isOrdinary (fs.resolve path) := by
    apply raises_resolve.mono
    intro e he
    cases e <;> first | rfl | cases he
  unfold receipt
  apply Raises.bind (.require rfl)
  intro _ _
  split
  · apply hresolve.bind
    intro path _
    apply raises_insideWorkspace.bind
    intro inside _
    split
    · exact raises_fileDigest.bind fun _ _ => .pure _
    · exact .pure _
  · exact .pure _

/-- A receipt verifies against the files it was made from. -/
theorem receipt_verifies {fs : FileSystem} {result safe : Dict Json} {workspace safeDigest : String}
    (h : receipt fs result workspace = .ok safe) (hdigest : digest (.obj safe) = .ok safeDigest)
    {row : StepRecord} (hstate : row.state = .succeeded) (hresult : row.result = some safe)
    (hrecorded : row.resultDigest = some safeDigest) : verifiedReceipt fs row = .ok safe := by
  have hshape : isTrue (safe.lookup "ok") = true ∧ fileEvidence fs safe = .ok true := by
    simp only [receipt, Except.bind_eq_ok, require_eq_ok] at h
    obtain ⟨_, -, h⟩ := h
    split at h
    · simp only [Except.bind_eq_ok] at h
      obtain ⟨path, -, inside, -, h⟩ := h
      split at h
      · simp only [Except.bind_eq_ok, Except.pure_eq_ok] at h
        obtain ⟨checksum, hchecksum, rfl⟩ := h
        simp [fileEvidence, List.lookup, isTrue, hchecksum]
      · cases h
        simp [fileEvidence, List.lookup, isTrue]
    · cases h
      simp [fileEvidence, List.lookup, isTrue]
  simp only [verifiedReceipt, hstate, hresult, hdigest, hrecorded, hshape.1, hshape.2, orRaise,
    require, beq_self_eq_true, if_true, bind, Except.bind, pure, Except.pure]

/-! ### Finishing -/

/-- The step succeeded, and its receipt verifies. -/
def World.Succeeds (w : World) (taskId stepId key : String) : Prop :=
  w.Holds taskId stepId key fun row =>
    row.state = .succeeded ∧ ∃ data, verifiedReceipt w.fs row = .ok data

omit [Platform] in
theorem namedIn_determines (taskId stepId : String) (state : StepState) :
    Determines (StepRecord.namedIn taskId stepId state) := by
  intro a b ha hb
  simp only [StepRecord.namedIn, Bool.and_eq_true] at ha hb
  exact StepRecord.named_determines taskId stepId a b ha.1 hb.1

theorem ClaimHeld.finishStep_error {safe : Dict Json} {e : Exn} (h : ClaimHeld v key step w)
    (hfinish : finishStep v.owner v.task.taskId step.stepId safe now w.db = .error e) :
    e.isOrdinary = true := by
  obtain ⟨task, htask⟩ := h.activeTask
  have hcount : w.db.steps.count (StepRecord.namedIn v.task.taskId step.stepId .started) = 1 := by
    obtain ⟨row, hrow, -, hstate, -⟩ := h.started
    apply Table.count_of_find (namedIn_determines _ _ _) (r := row)
    apply (Table.find_eq_some_iff (namedIn_determines _ _ _)).mpr
    exact ⟨Table.mem_of_find hrow, (namedIn_eq (named_of_find hrow)).mpr ⟨⟨rfl, rfl⟩, hstate⟩⟩
  simp only [finishStep, Except.bind_eq_error, htask, hcount, reduceCtorEq, false_or,
    beq_self_eq_true, require_eq_error, Bool.true_eq_false, false_and] at hfinish
  rcases hfinish with hfinish | ⟨_, -, _, -, hfinish | ⟨_, -, _, -, hfinish⟩⟩
  · rw [requireLease_lost_held h.held hfinish]
    rfl
  · have hargument := raises_digest e hfinish
    cases e <;> first | rfl | cases hargument
  · cases hfinish

/-- What `finish_step` ends in: a succeeded step, or the claim as it was and an exception. -/
theorem finishStep_ends (hS : Undisturbed S) {result : Dict Json} (h : ClaimHeld v key step w)
    {status : ToolStatus} (hl : Relayed S v.manifest status l) :
    Ends S (Programs.finishStep v.owner v.task.taskId step.stepId result)
      (fun _ l' w' => Relayed S v.manifest status l' ∧
        w'.Succeeds v.task.taskId step.stepId key)
      (fun e _ w' => e.isOrdinary = true ∧ ClaimHeld v key step w') l w := by
  obtain ⟨taskRow, htaskRow, -⟩ := h.active
  apply Ends.bind
  apply hS.reads (fun _ => rfl)
  · intro task _
    apply Ends.bind
    apply hS.reads (fun _ => rfl)
    · intro safe hsafe
      apply Ends.bind
      apply hS.commits (fun _ => rfl)
      · intro env _ db hcommit
        obtain ⟨_, _, safeDigest, -, -, -, hdigest, -, hdb⟩ := finishStep_ok hcommit
        have hsucceeds : World.Succeeds { w with db := db } v.task.taskId step.stepId key := by
          subst hdb
          exact h.started.updateSteps (fun _ hrow => hrow.1) fun row _ =>
            ⟨rfl, safe, receipt_verifies hsafe hdigest rfl rfl rfl⟩
        apply hS.reads (fun _ => rfl)
        · intro found _
          refine ⟨?_, hsucceeds⟩
          refine Relayed.snoc ?_ (Relayed.snoc ?_ (Relayed.snoc ?_ (Relayed.snoc ?_ hl _) _) _) _
          all_goals simp [Request.Quiet]
        · intro e hmissing
          obtain ⟨row, hrow, -⟩ := hsucceeds
          have hfound : orRaise (some row) (.keyError step.stepId) = .error e := hrow ▸ hmissing
          cases hfound
      · intro env e hcommit
        exact ⟨h.finishStep_error hcommit, h⟩
    · intro e hraised
      exact ⟨raises_receipt e hraised, h⟩
  · intro e hmissing
    simp [getTask, htaskRow, orRaise, bind, Except.bind, pure, Except.pure] at hmissing

/-! ### The whole attempt -/

/-- The result reports a handler that did not do its work. -/
def ToolResult.Fails (result : ToolResult) : Prop :=
  result.status ∈ [ToolStatus.timeout, .executionFailure, .outputLimit]

theorem encodedOutcome_status (limit : ℕ) (value : Json) :
    (encodedOutcome limit value).status = .success ∨ (encodedOutcome limit value).Fails := by
  unfold encodedOutcome
  repeat' split
  all_goals simp [ToolResult.Fails, ToolResult.outputLimit, ToolResult.failed]

theorem runOutcome_status (manifest : ToolManifest) (outcome : HandlerOutcome) :
    (runOutcome manifest outcome).status = .success ∨ (runOutcome manifest outcome).Fails := by
  cases outcome with
  | text s =>
      simp only [runOutcome]
      split
      · exact .inr (by simp [ToolResult.Fails, ToolResult.outputLimit])
      · split
        · exact .inr (by simp [ToolResult.Fails, ToolResult.failed])
        · exact encodedOutcome_status _ _
  | value v => exact encodedOutcome_status _ v
  | foreign size errorType =>
      simp only [runOutcome]
      split
      · exact .inr (by simp [ToolResult.Fails, ToolResult.outputLimit])
      · exact .inr (by simp [ToolResult.Fails, ToolResult.failed])
  | raised errorType => exact .inr (by simp [runOutcome, ToolResult.Fails, ToolResult.failed])
  | late => exact .inr (by simp [runOutcome, ToolResult.Fails])

/-- What executing a step ends in. -/
def Executes (S : Setting ledgerMachine) (v : Invocation) (key : String) (step : StepRecord) :
    Post ledgerMachine ToolResult :=
  fun result l w => Relayed S v.manifest result.status l ∧
    (result.status = .success ∧ w.Succeeds v.task.taskId step.stepId key ∨
      result.Fails ∧ w.Holds v.task.taskId step.stepId key StepRecord.Doubtful)

/-- An exception found no step in flight, or one that its process has claimed and knows. -/
def Breaks (v : Invocation) (key : String) (known : Option StepRecord) : Post ledgerMachine Exn :=
  fun e l w => Rests v key l w ∨
    e.isOrdinary = true ∧ ∃ step, known = some step ∧ ClaimHeld v key step w

theorem execute_ends (hS : Undisturbed S) (h : Prepares v key step l w) :
    Ends S (v.execute step) (Executes S v key step) (Breaks v key (some step)) l w := by
  apply Ends.bind
  apply hS.commits (fun _ => rfl)
  · intro env _ db hcommit
    have hclaimed := claimStep_claimed h hcommit
    have hl := not_started_snoc (r := .claimStep v.owner v.task.taskId step.stepId)
      (by simp [Request.Quiet]) h.1 (.ok ())
    apply Ends.bind
    apply Ends.call
    · intro w₀ env result w₁ hbetween hadmits hperform
      cases hS _ _ hbetween
      cases hperform
      have hrelayed : Relayed S v.manifest
          (runOutcome v.manifest (env.handler (v.call step) w.fs).1).status
          (l ++ [⟨.claimStep v.owner v.task.taskId step.stepId, .ok ()⟩] ++ [⟨.runTool (v.call step),
            .ok (runOutcome v.manifest (env.handler (v.call step) w.fs).1)⟩]) := by
        intro c reply hmem
        rcases List.mem_append.mp hmem with hmem | hmem
        · exact absurd ⟨c, reply, hmem⟩ hl
        · cases List.mem_singleton.mp hmem
          exact ⟨env, _, hadmits, rfl⟩
      have hrun := hclaimed.run (env.handler (v.call step) w.fs).2
      apply Ends.ite
      · intro hsuccess
        apply Ends.bind
        apply (finishStep_ends hS hrun hrelayed).mono
        · intro _ l' w' hfinished
          exact ⟨hfinished.1, .inl ⟨beq_iff_eq.mp hsuccess, hfinished.2⟩⟩
        · intro e l' w' hraised
          exact .inr ⟨hraised.1, step, rfl, hraised.2⟩
      · intro hfailure
        apply Ends.bind
        apply markUncertain_ends hS hrun
        · intro r reply w' hr hholds
          have hfails := (runOutcome_status v.manifest (env.handler (v.call step) w.fs).1).resolve_left
            fun hsuccess => hfailure (beq_iff_eq.mpr hsuccess)
          exact ⟨hrelayed.snoc hr reply, .inr ⟨hfails, hholds⟩⟩
        · intro r reply hr
          exact .inr ⟨rfl, step, rfl, hrun⟩
    · intro w₀ env e w₁ _ _ hperform
      cases hperform
  · intro env e _
    have hrests := (h.snoc (r := .claimStep v.owner v.task.taskId step.stepId)
      (by simp [Request.Quiet]) (.error e)).rests
    exact .inl hrests

/-! ## Exceptions -/

/-- The lease was lost, or no step is left in flight. -/
def Aborts (taskId key : String) : Post ledgerMachine Exn :=
  fun e _ w => e = .leaseLost ∨ w.AtRest taskId key

omit [Platform] in
theorem World.stepUnder_updateSteps {p : StepRecord → Bool} {f : StepRecord → StepRecord}
    {hf : KeepsKey f} {fs : FileSystem} {stopped : List String} {task : Task} {name : String}
    {previous : Option TaskStatus} {metadata : Dict Json} :
    World.stepUnder ⟨(w.db.updateSteps p f hf).event task name previous metadata, fs, stopped⟩ taskId
      key = (w.stepUnder taskId key).map fun row => if p row then f row else row := by
  refine Table.find_update hf fun row => ?_
  have hkept : ((f row).stepId, (f row).taskId, (f row).idempotencyKey) =
      (row.stepId, row.taskId, row.idempotencyKey) := hf row
  simp only [Prod.mk.injEq] at hkept
  simp only [StepRecord.keyed, hkept.2.1, hkept.2.2]

omit [Platform] in
theorem World.AtRest.markUncertain {errorType id : String} {db : Database} {u : Unit}
    (h : w.AtRest taskId key)
    (hcommit : markUncertain owner taskId id errorType now w.db = .ok (u, db)) :
    World.AtRest { w with db := db } taskId key := by
  obtain ⟨_, -, -, -, rfl⟩ := markUncertain_ok hcommit
  intro row hrow
  rw [World.stepUnder_updateSteps, Option.map_eq_some_iff] at hrow
  obtain ⟨old, hold, rfl⟩ := hrow
  split
  · simp
  · exact h old hold

/-- The `except` clauses of `invoke` leave no step in flight, unless the lease is lost. -/
theorem guarded_ends (hS : Undisturbed S) {α : Type} {fallback : α} {body : Prog α}
    {known : Option StepRecord} {Q : Post ledgerMachine α}
    (h : Ends S body Q (Breaks v key known) l w)
    (hfallback : ∀ l w, Rests v key l w → Q fallback l w) :
    Ends S (Programs.guarded v.owner v.task.taskId known fallback body) Q
      (Aborts v.task.taskId key) l w := by
  apply Ends.except
  apply h.mono
  · exact fun _ _ _ hq => hq
  · intro e l' w' hbreaks
    have hmarked : Ends S (do
        Programs.markKnown v.owner v.task.taskId known
        .raise e) Q (Aborts v.task.taskId key) l' w' := by
      cases known with
      | none =>
          rcases hbreaks with hrests | ⟨-, step, hstep, -⟩
          · exact .inr hrests.2
          · cases hstep
      | some step =>
          apply Ends.bind
          rcases hbreaks with hrests | ⟨-, other, hother, hclaimed⟩
          · apply hS.commits (fun _ => rfl)
            · intro _ _ _ hcommit
              exact .inr (hrests.2.markUncertain hcommit)
            · intro _ _ _
              exact .inr hrests.2
          · cases hother
            apply markUncertain_ends hS hclaimed
            · intro _ _ w'' _ hholds
              refine .inr (hholds.atRest fun row hrow => ?_)
              rw [hrow.1]
              decide
            · exact fun _ _ _ => .inl rfl
    cases e with
    | reconciliationRequired message =>
        rcases hbreaks with hrests | ⟨hordinary, -⟩
        · exact hfallback l' w' hrests
        · cases hordinary
    | _ => exact hmarked

end Dante
