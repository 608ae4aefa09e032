import Dante.Verification.Attempt
import Dante.Verification.Frozen

/-! # What an invocation answers, and what the journal then says

Where nobody else writes, the status of the result fixes the state of the step. -/

namespace Dante

open JsonText Relational Concurrent
open Programs (Invocation)

section Invocations

variable [Platform] {S : Setting ledgerMachine} {w w' w₀ : World}
  {l : List (Exchange Request.Reply Exn)} {owner : Option Lease} {taskId stepId key : String}
  {r : Request} {v : Invocation} {step : StepRecord} {operation : Except Exn String}
  {result : ToolResult}

/-! ## Results and the journal -/

/-- What the journal of `w'` says once the result is returned. `operation` is the key that the
step of the call is recorded under. -/
structure Agrees (w : World) (taskId : String) (operation : Except Exn String) (result : ToolResult)
    (asked : List (Exchange Request.Reply Exn)) (w' : World) : Prop where
  denied : result.Denies → ¬Started asked ∧ w.Logs w'
  failed : result.Fails → ∃ key row, operation = .ok key ∧ w'.stepUnder taskId key = some row ∧
    result.stepId = some row.stepId ∧ row.Doubtful
  succeeded : result.status = .success → ∃ key row data, operation = .ok key ∧
    w'.stepUnder taskId key = some row ∧ result.stepId = some row.stepId ∧
    row.state = .succeeded ∧ verifiedReceipt w'.fs row = .ok data
  uncertain : result.status = .uncertain → ¬Started asked

theorem Agrees.of_denied (hdenies : result.Denies) (hl : ¬Started l) (hlogs : w₀.Logs w) :
    Agrees w₀ taskId operation result l w where
  denied _ := ⟨hl, hlogs⟩
  failed hfails := by
    simp only [ToolResult.Denies, ToolResult.Fails, List.mem_cons] at hdenies hfails
    grind
  succeeded hsuccess := by
    simp [ToolResult.Denies, hsuccess] at hdenies
  uncertain _ := hl

theorem Agrees.of_uncertain (hstatus : result.status = .uncertain) (hl : ¬Started l) :
    Agrees w₀ taskId operation result l w where
  denied hdenies := by simp [ToolResult.Denies, hstatus] at hdenies
  failed hfails := by simp [ToolResult.Fails, hstatus] at hfails
  succeeded hsuccess := by simp [hstatus] at hsuccess
  uncertain _ := hl

theorem Agrees.of_failed (hkey : operation = .ok key) (hfails : result.Fails)
    (hid : result.stepId = some stepId) (h : w.Holds taskId stepId key StepRecord.Doubtful) :
    Agrees w₀ taskId operation result l w where
  denied hdenies := by
    simp only [ToolResult.Denies, ToolResult.Fails, List.mem_cons] at hdenies hfails
    grind
  failed _ := by
    obtain ⟨row, hrow, rfl, hdoubtful⟩ := h.under
    exact ⟨key, row, hkey, hrow, hid, hdoubtful⟩
  succeeded hsuccess := by simp [ToolResult.Fails, hsuccess] at hfails
  uncertain huncertain := by simp [ToolResult.Fails, huncertain] at hfails

theorem Agrees.of_succeeded (hkey : operation = .ok key) (hsuccess : result.status = .success)
    (hid : result.stepId = some stepId) (h : w.Succeeds taskId stepId key) :
    Agrees w₀ taskId operation result l w where
  denied hdenies := by simp [ToolResult.Denies, hsuccess] at hdenies
  failed hfails := by simp [ToolResult.Fails, hsuccess] at hfails
  succeeded _ := by
    obtain ⟨row, hrow, rfl, hstate, data, hdata⟩ := h.under
    exact ⟨key, row, data, hkey, hrow, hid, hstate, hdata⟩
  uncertain huncertain := by simp [hsuccess] at huncertain

/-- Recording the outcome leaves the steps as they are. -/
theorem Agrees.logs (h : Agrees w₀ taskId operation result l w) (hr : r.Quiet)
    (hlogs : w.Logs w') (reply : Except Exn r.Reply) :
    Agrees w₀ taskId operation result (l ++ [⟨r, reply⟩]) w' where
  denied hdenies := ⟨not_started_snoc hr (h.denied hdenies).1 reply, (h.denied hdenies).2.trans hlogs⟩
  failed hfails := by
    obtain ⟨logged, rfl⟩ := hlogs
    exact h.failed hfails
  succeeded hsuccess := by
    obtain ⟨logged, rfl⟩ := hlogs
    exact h.succeeded hsuccess
  uncertain huncertain := not_started_snoc hr (h.uncertain huncertain) reply

/-- The result as `invoke` returns it. -/
def concluded (outcome : ToolResult × Option StepRecord) : ToolResult :=
  { outcome.1 with stepId := outcome.2.map StepRecord.stepId }

/-- What `invoke` has come to before the outcome is recorded. -/
def Resolves (S : Setting ledgerMachine) (w₀ : World) (v : Invocation) (key : String) :
    Post ledgerMachine (ToolResult × Option StepRecord) :=
  fun outcome l w => Relayed S v.manifest outcome.1.status l ∧
    Agrees w₀ v.task.taskId (.ok key) (concluded outcome) l w

theorem attempt_ends (hS : Undisturbed S) (hkey : v.stepKey = .ok key)
    (hopen : w.Open v.task.taskId key) (hl : ¬Started l) (known : Option StepRecord) :
    Ends S (v.attempt known) (Resolves S w v key) (Aborts v.task.taskId key) l w := by
  have huncertain {step : Option StepRecord} {l' : List (Exchange Request.Reply Exn)} {w' : World}
      (hrests : Rests v key l' w') :
      Resolves S w v key (Programs.uncertainResult, step) l' w' :=
    ⟨.of_not_started hrests.1, .of_uncertain rfl hrests.1⟩
  apply Ends.bind
  apply (guarded_ends (Q := fun prepared l' w' => Ends S _ _ _ l' w') hS ?_ ?_)
  · apply (prepare_ends hS hkey hopen hl).mono
    · intro prepared l' w' hready
      cases prepared with
      | inl result =>
          obtain ⟨hl', hdenies, rfl⟩ := hready
          exact ⟨.of_not_started hl', .of_denied hdenies hl' (.refl _)⟩
      | inr step =>
          apply Ends.bind
          apply guarded_ends (Q := fun result l' w' => Ends S _ _ _ l' w') hS
          · apply (execute_ends hS hready).mono
            · intro result l'' w'' hexecutes
              refine ⟨hexecutes.1, ?_⟩
              rcases hexecutes.2 with ⟨hsuccess, hsucceeds⟩ | ⟨hfails, hholds⟩
              · exact .of_succeeded rfl hsuccess rfl hsucceeds
              · exact .of_failed rfl hfails rfl hholds
            · exact fun _ _ _ hbreaks => hbreaks
          · intro l'' w'' hrests
            exact huncertain hrests
    · exact fun _ _ _ hrests => .inl hrests
  · intro l' w' hrests
    exact huncertain hrests

theorem verifiedStepResult_ends (hS : Undisturbed S)
    (hstep : w.db.stepNamed taskId stepId = some step) (hl : ¬Started l) :
    Ends S (Programs.verifiedStepResult taskId stepId)
      (fun _ l' w' => ¬Started l' ∧ w' = w ∧ ∃ data, verifiedReceipt w.fs step = .ok data)
      (fun _ l' w' => ¬Started l' ∧ w' = w) l w := by
  apply Ends.bind
  apply hS.reads (fun _ => rfl)
  · intro found hfound
    have hfound' : w.db.stepNamed taskId stepId = some found := orRaise_eq_ok.mp hfound
    cases hstep.symm.trans hfound'
    have hl' := not_started_snoc (r := .getStep taskId stepId) (by simp [Request.Quiet]) hl
      (.ok step)
    apply Ends.bind
    apply hS.reads (fun _ => rfl)
    · intro data hdata
      have hl'' := not_started_snoc (r := .verifiedReceipt step) (by simp [Request.Quiet]) hl'
        (.ok data)
      cases given step.evidenceRef with
      | none => exact ⟨hl'', rfl, data, hdata⟩
      | some ref =>
          apply Ends.bind
          apply Ends.except
          apply hS.reads (fun _ => rfl)
          · intro _ _
            exact ⟨not_started_snoc (by simp [Request.Quiet]) hl'' _, rfl, data, hdata⟩
          · intro e _
            exact ⟨not_started_snoc (by simp [Request.Quiet]) hl'' _, rfl⟩
    · intro e _
      exact ⟨not_started_snoc (by simp [Request.Quiet]) hl' _, rfl⟩
  · intro e _
    exact ⟨not_started_snoc (by simp [Request.Quiet]) hl _, rfl⟩

theorem resolve_ends (hS : Undisturbed S) (hkey : v.stepKey = .ok key) (hl : ¬Started l) :
    Ends S (v.resolve (w.stepUnder v.task.taskId key)) (Resolves S w v key)
      (Aborts v.task.taskId key) l w := by
  have huncertain (step : StepRecord) :
      Resolves S w v key (Programs.uncertainResult, some step) l w :=
    ⟨.of_not_started hl, .of_uncertain rfl hl⟩
  unfold Programs.Invocation.resolve
  cases hunder : w.stepUnder v.task.taskId key with
  | none =>
      apply attempt_ends hS hkey _ hl
      intro row hrow
      cases hunder.symm.trans hrow
  | some step =>
      obtain ⟨hnamed, hstepkey⟩ := stepNamed_of_keyed hunder
      cases hstate : step.state with
      | intent =>
          simp only [hstate]
          apply attempt_ends hS hkey _ hl
          intro row hrow
          cases hunder.symm.trans hrow
          exact hstate
      | started =>
          simp only [hstate]
          exact huncertain step
      | uncertain =>
          simp only [hstate]
          exact huncertain step
      | succeeded =>
          simp only [hstate]
          apply Ends.bind
          apply guarded_ends (Q := fun result l' w' => Ends S _ _ _ l' w') hS
          · apply Ends.bind
            apply (verifiedStepResult_ends hS hnamed hl).mono
            · intro data l' w' hverified
              obtain ⟨hl', rfl, hdata⟩ := hverified
              refine ⟨.of_not_started hl', .of_succeeded rfl rfl rfl ?_⟩
              exact ⟨step, hnamed, hstepkey, hstate, hdata⟩
            · intro e l' w' hraised
              obtain ⟨hl', rfl⟩ := hraised
              refine .inl ⟨hl', fun row hrow => ?_⟩
              cases hunder.symm.trans hrow
              rw [hstate]
              decide
          · intro l' w' hrests
            exact ⟨.of_not_started hrests.1, .of_uncertain rfl hrests.1⟩

/-! ## The tasks stay as they are -/

/-- Any request that does not write to the tasks. -/
def Request.SparesTasks (r : Request) : Prop :=
  .tasks ∉ r.writes

omit [Platform] in
/-- A single request that spares the tasks. -/
theorem spares_ask (hr : r.SparesTasks) : (ask r).Uses Request.SparesTasks :=
  .call hr

omit [Platform] in
theorem spares_finishStep (owner : Option Lease) (taskId stepId : String) (result : Dict Json) :
    (Programs.finishStep owner taskId stepId result).Uses Request.SparesTasks :=
  .bind (spares_ask (by simp [Request.SparesTasks, Request.writes])) fun _ =>
    .bind (spares_ask (by simp [Request.SparesTasks, Request.writes])) fun _ =>
      .bind (spares_ask (by simp [Request.SparesTasks, Request.writes])) fun _ =>
        spares_ask (by simp [Request.SparesTasks, Request.writes])

omit [Platform] in
theorem spares_verifiedStepResult (taskId stepId : String) :
    (Programs.verifiedStepResult taskId stepId).Uses Request.SparesTasks := by
  apply Program.Uses.bind (spares_ask (by simp [Request.SparesTasks, Request.writes]))
  intro step
  apply Program.Uses.bind (spares_ask (by simp [Request.SparesTasks, Request.writes]))
  intro result
  split
  · trivial
  · refine .bind (.except (spares_ask ?_) fun _ => trivial) fun _ => trivial
    simp [Request.SparesTasks, Request.writes]

omit [Platform] in
theorem spares_guarded {α : Type} {known : Option StepRecord} {fallback : α} {body : Prog α}
    (h : body.Uses Request.SparesTasks) :
    (Programs.guarded owner taskId known fallback body).Uses Request.SparesTasks := by
  apply h.except
  intro e
  have hmark : (Programs.markKnown owner taskId known).Uses Request.SparesTasks := by
    cases known with
    | none => trivial
    | some step => exact spares_ask (by simp [Request.SparesTasks, Request.writes])
  cases e with
  | reconciliationRequired message => trivial
  | _ => exact hmark.bind fun _ => trivial

theorem spares_authorize (broker : ToolBroker) (task : Task) (toolId : String)
    (arguments : Dict Json) (approvalId : Option String) (planHash : String) :
    (Programs.authorize broker task toolId arguments approvalId planHash).Uses
      Request.SparesTasks := by
  apply (Program.Uses.ofExcept _).bind
  intro manifest
  apply Program.Uses.ite
  · intro _
    trivial
  · intro _
    cases approvalId with
    | none => trivial
    | some approvalId =>
        apply (Program.Uses.ofExcept _).bind
        intro hash
        refine .except (.bind (spares_ask ?_) fun _ => trivial) fun e => ?_
        · simp [Request.SparesTasks, Request.writes]
        · cases e <;> trivial

theorem spares_resolve (v : Invocation) (step : Option StepRecord) :
    (v.resolve step).Uses Request.SparesTasks := by
  have hprepare : v.prepare.Uses Request.SparesTasks := by
    apply (spares_authorize ..).bind
    intro denied
    cases denied with
    | some result => trivial
    | none =>
        refine .bind (.bind (spares_ask ?_) fun prepared => ?_) fun _ => trivial
        · simp [Request.SparesTasks, Request.writes]
        · cases prepared with
          | existing step => trivial
          | created stepId => exact spares_ask (by simp [Request.SparesTasks, Request.writes])
  have hexecute (step : StepRecord) : (v.execute step).Uses Request.SparesTasks := by
    apply Program.Uses.bind (spares_ask (by simp [Request.SparesTasks, Request.writes]))
    intro _
    apply Program.Uses.bind (spares_ask (by simp [Request.SparesTasks, Request.writes]))
    intro result
    apply Program.Uses.ite
    · intro _
      exact (spares_finishStep ..).bind fun _ => trivial
    · intro _
      exact .bind (spares_ask (by simp [Request.SparesTasks, Request.writes])) fun _ => trivial
  have hattempt (known : Option StepRecord) : (v.attempt known).Uses Request.SparesTasks := by
    apply (spares_guarded hprepare).bind
    intro prepared
    cases prepared with
    | inl result => trivial
    | inr step => exact (spares_guarded (hexecute step)).bind fun _ => trivial
  unfold Programs.Invocation.resolve
  split
  · exact hattempt none
  · split
    · exact hattempt _
    · trivial
    · trivial
    · refine (spares_guarded ?_).bind fun _ => trivial
      exact (spares_verifiedStepResult ..).bind fun _ => trivial

/-! ## Whole invocations -/

/-- The task of a call stays where it is. -/
theorem resolve_known (hS : Undisturbed S) {step : Option StepRecord} {row : TaskRow}
    (hrow : w.db.tasks.get? v.task.taskId = some row) :
    Ends S (v.resolve step) (fun _ _ w' => w'.db.tasks.get? v.task.taskId = some row)
      (fun _ _ _ => True) l w := by
  have hstays := Ends.of_uses (S := S) (K := fun w' => w'.db.tasks.get? v.task.taskId = some row)
    (l := l) ?_ ?_ (spares_resolve v step) hrow
  · exact hstays.mono (fun _ _ _ h => h) fun _ _ _ _ => trivial
  · intro w₀ w₁ hbetween hrow₀
    rw [hS _ _ hbetween]
    exact hrow₀
  · intro r env w₀ reply w₁ hspares hperform hrow₀
    have htasks : w₁.db.tasks = w₀.db.tasks := perform_writes hperform .tasks hspares
    rw [htasks]
    exact hrow₀

/-- The key that `invoke` records a step under. -/
def operationKey (broker : ToolBroker) (toolId : String) (arguments : Dict Json)
    (idempotencyKey : Option String) : Except Exn String := do
  let manifest ← broker.manifest toolId
  let argsDigest ← digest (.obj arguments)
  stepKey toolId manifest.version argsDigest idempotencyKey

/-- What `invoke` ends in once the preflight denies nothing. -/
def Invokes (S : Setting ledgerMachine) (w : World) (v : Invocation) : Post ledgerMachine ToolResult :=
  fun result l w' => Relayed S v.manifest result.status l ∧
    Agrees w v.task.taskId v.stepKey result l w'

theorem raises_digest_value {value : Json} {e : Exn} (h : digest value = .error e) :
    ∃ message, e = .valueError message := by
  unfold digest at h
  split at h
  · cases h
  · cases h
    exact ⟨_, rfl⟩

/-- A lookup fails with a `ValueError` only. -/
theorem lookupStep_error {db : Database} {toolId toolVersion : String} {arguments : Dict Json}
    {idempotencyKey : Option String} {e : Exn}
    (h : lookupStep taskId toolId toolVersion arguments idempotencyKey db = .error e) :
    ∃ message, e = .valueError message := by
  simp only [lookupStep, Except.bind_eq_error] at h
  rcases h with h | ⟨argsDigest, -, h | ⟨key, -, h⟩⟩
  · exact raises_digest_value h
  · cases idempotencyKey <;> exact raises_digest_value h
  · split at h
    · cases h
    · simp only [Except.bind_eq_error, sameOperation, require_eq_error] at h
      rcases h with ⟨-, rfl⟩ | ⟨_, -, h⟩
      · exact ⟨_, rfl⟩
      · cases h

/-- A denial, recorded. -/
theorem denial_ends (hS : Undisturbed S) {task : Task} {toolId : String} {row : TaskRow}
    (hrow : w.db.tasks.get? task.taskId = some row) (hdenies : result.Denies) (hl : ¬Started l)
    {Q : Post ledgerMachine ToolResult} {E : Post ledgerMachine Exn}
    (hQ : ∀ l' w', ¬Started l' → Agrees w task.taskId operation result l' w' → Q result l' w') :
    Ends S (do
      Programs.record task toolId result none
      pure result) Q E l w := by
  apply Ends.bind
  apply record_ends hS hrow
  intro r reply w' hr hlogs
  have hl' := not_started_snoc hr hl reply
  exact hQ _ _ hl' (.of_denied hdenies hl' hlogs)

theorem run_ends (hS : Undisturbed S) {row : TaskRow}
    (hrow : w.db.tasks.get? v.task.taskId = some row) (hl : ¬Started l) :
    Ends S v.run (Invokes S w v)
      (fun e l w' => ∀ key, v.stepKey = .ok key → Aborts v.task.taskId key e l w') l w := by
  intro w₀ env reply w₁ hbetween _ hperform
  cases hS _ _ hbetween
  cases hperform
  have hl' := not_started_snoc (r := .lookupStep v.task.taskId v.toolId v.manifest.version
    v.arguments v.idempotencyKey) (by simp [Request.Quiet]) hl
  cases hlookup : lookupStep v.task.taskId v.toolId v.manifest.version v.arguments v.idempotencyKey
      w.db with
  | error e =>
      obtain ⟨message, rfl⟩ := lookupStep_error hlookup
      apply denial_ends hS hrow (by simp [ToolResult.Denies, ToolResult.denied]) (hl' _)
      intro l'' w' hl'' hagrees
      exact ⟨.of_not_started hl'', hagrees⟩
  | ok step =>
      obtain ⟨argsDigest, key, hargs, hstepKey, rfl, -⟩ := lookupStep_ok hlookup
      have hkey : v.stepKey = .ok key := by
        simp only [Programs.Invocation.stepKey, hargs, bind, Except.bind, hstepKey]
      apply Ends.bind
      apply ((resolve_ends hS hkey (hl' _)).and (resolve_known hS hrow)).mono
      · intro outcome l'' w' hresolved
        obtain ⟨⟨hrelayed, hagrees⟩, hknown⟩ := hresolved
        apply Ends.bind
        apply record_ends hS hknown
        intro r reply w'' hr hlogs
        exact ⟨hrelayed.snoc hr reply, hkey ▸ hagrees.logs hr hlogs reply⟩
      · intro e l'' w' haborts key' hkey'
        cases hkey.symm.trans hkey'
        exact haborts.1

omit [Platform] in
/-- A task that is not known has no steps. -/
theorem atRest_of_unknown (hfollows : ∀ stepId, StepsFollow taskId stepId w.db)
    (hunknown : w.db.tasks.get? taskId = none) (key : String) : w.AtRest taskId key := by
  intro row hrow
  obtain ⟨hnamed, -⟩ := stepNamed_of_keyed hrow
  obtain ⟨status, hstatus, -⟩ := hfollows row.stepId row hnamed
  simp [Database.view, hunknown] at hstatus

theorem invoke_ends (hS : Undisturbed S) (broker : ToolBroker) (owner : Option Lease) (task : Task)
    (toolId : String) (arguments : Dict Json) (approvalId : Option String) (planHash : String)
    (idempotencyKey : Option String)
    (hfollows : ∀ stepId, StepsFollow task.taskId stepId w.db) :
    Ends S (Programs.invoke broker owner task toolId arguments approvalId planHash idempotencyKey)
      (fun result l w' =>
        (∀ manifest, broker.manifest toolId = .ok manifest → Relayed S manifest result.status l) ∧
        Agrees w task.taskId (operationKey broker toolId arguments idempotencyKey) result l w')
      (fun e l w' => ∀ key, operationKey broker toolId arguments idempotencyKey = .ok key →
        Aborts task.taskId key e l w') [] w := by
  apply Ends.bind
  apply hS.reads (fun _ => rfl)
  · intro stored hstored
    obtain ⟨row, hrow, rfl⟩ := getTask_ok.mp hstored
    have hid : row.payload.taskId = task.taskId := Table.primary_of_get? hrow
    have hl := not_started_snoc (r := .getTask task.taskId) (by simp [Request.Quiet])
      not_started_nil (.ok row.payload)
    rw [← hid] at hrow hl ⊢
    cases hdigest : digest (.obj arguments) with
    | error e =>
        apply denial_ends hS hrow (by simp [ToolResult.Denies, ToolResult.denied]) hl
        intro l' w' hl' hagrees
        exact ⟨fun _ _ => .of_not_started hl', hagrees⟩
    | ok argsDigest =>
        obtain ⟨denied, hpreflight, hdenied⟩ :=
          preflight_returns w.fs broker row.payload toolId arguments
        apply Ends.bind
        apply hS.reads (r := .preflight broker row.payload toolId arguments) (x := .ok denied)
          fun _ => Prod.ext hpreflight rfl
        · intro answer hanswer
          cases hanswer
          have hl' := not_started_snoc (r := .preflight broker row.payload toolId arguments)
            (by simp [Request.Quiet]) hl (.ok denied)
          cases denied with
          | some result =>
              have hdenies : result.Denies := by
                rcases hdenied result rfl with hstatus | hstatus
                all_goals simp [ToolResult.Denies, hstatus]
              apply denial_ends hS hrow hdenies hl'
              intro l' w' hl'' hagrees
              exact ⟨fun _ _ => .of_not_started hl'', hagrees⟩
          | none =>
              apply Ends.bind
              apply Ends.ofExcept
              · intro manifest hmanifest
                have hkey : (⟨owner, broker, row.payload, manifest, toolId, arguments, approvalId,
                    planHash, idempotencyKey⟩ : Invocation).stepKey =
                      operationKey broker toolId arguments idempotencyKey := by
                  simp only [operationKey, hmanifest, bind, Except.bind]
                  rfl
                apply (run_ends hS hrow hl').mono
                · intro result l'' w' hinvokes
                  refine ⟨fun other hother => ?_, hkey ▸ hinvokes.2⟩
                  cases hmanifest.symm.trans hother
                  exact hinvokes.1
                · intro e l'' w' haborts key hoperation
                  exact haborts key (hkey.trans hoperation)
              · intro e hmanifest key hoperation
                simp [operationKey, hmanifest, bind, Except.bind] at hoperation
        · intro e hanswer
          cases hanswer
  · intro e hmissing key _
    refine .inr (atRest_of_unknown hfollows ?_ key)
    cases hrow : w.db.tasks.get? task.taskId with
    | none => rfl
    | some row =>
        simp [getTask, hrow, orRaise, bind, Except.bind, pure, Except.pure] at hmissing

/-- Where nobody else writes, the status of a result fixes what the journal says of the step, and
an exception leaves no step in flight unless the lease is lost. -/
theorem outcomes_agree {s : System ledgerMachine} (hs : Reachable anyRun s) {broker : ToolBroker}
    {owner : Option Lease} {task : Task} {toolId : String} {arguments : Dict Json}
    {approvalId : Option String} {planHash : String} {idempotencyKey : Option String}
    {asked : List (Exchange Request.Reply Exn)} {w' : World} :
    (∀ result, Trail (.alone ledgerMachine) (Programs.invoke broker owner task toolId arguments
        approvalId planHash idempotencyKey) s.snap.state asked (.ret result) w' →
      Agrees s.snap.state task.taskId (operationKey broker toolId arguments idempotencyKey) result
        asked w') ∧
    (∀ e, Trail (.alone ledgerMachine) (Programs.invoke broker owner task toolId arguments
        approvalId planHash idempotencyKey) s.snap.state asked (.raise e) w' →
      e = .leaseLost ∨ ∀ key, operationKey broker toolId arguments idempotencyKey = .ok key →
        w'.AtRest task.taskId key) := by
  have hS : Undisturbed (.alone ledgerMachine) := fun _ _ hbetween => hbetween.symm
  have hends := invoke_ends hS broker owner task toolId arguments approvalId planHash idempotencyKey
    fun stepId => stepsFollow hs task.taskId stepId
  constructor
  · intro result htrail
    exact (hends.returned htrail).2
  · intro e htrail
    by_cases hlost : e = .leaseLost
    · exact .inl hlost
    · exact .inr fun key hkey => (hends.raised htrail key hkey).resolve_left hlost

/-- The sample task is on record. -/
def Sample.created : System ledgerMachine :=
  (Sample.fresh []).script [(moment 0 "", .createTask task none)]

theorem Sample.created_reachable : Reachable anyRun Sample.created :=
  (Reachable.start _ rfl).steps (anyRun_script _ _)

end Invocations

section Returned

local instance outcomesReturned : Platform := .reference []

/-- A call of the only tool of a broker that asks for no approval. -/
def Sample.writes : Prog ToolResult :=
  Programs.invoke (broker "never") none task "write" [] none "plan" none

/-- The tool succeeds. -/
def Sample.written : List (Exchange Request.Reply Exn) × Prog ToolResult × World :=
  Sample.writes.performed ledgerMachine (answering 0 "step" [("ok", .bool true)]) 12
    created.snap.state

theorem outcomes_agree_written : ∃ result, Sample.written.2.1 = .ret result ∧
    result.status = .success ∧ ∃ key row, operationKey (Sample.broker "never") "write" [] none = .ok key ∧
      Sample.written.2.2.stepUnder "task" key = some row ∧ row.state = .succeeded := by
  obtain ⟨result, hresult, hstatus⟩ : ∃ result ∈ Sample.written.2.1.result?,
      result.status = .success := by
    decide +kernel
  have htrail : Trail (.alone ledgerMachine) Sample.writes Sample.created.snap.state Sample.written.1
      (.ret result) Sample.written.2.2 := by
    rw [← Program.eq_ret hresult]
    exact Trail.performed (fun _ => rfl) (fun _ => trivial) 12 _ _
  obtain ⟨key, row, data, hkey, hrow, -, hstate, -⟩ :=
    ((outcomes_agree Sample.created_reachable).1 result htrail).succeeded hstatus
  exact ⟨result, Program.eq_ret hresult, hstatus, key, row, hkey, hrow, hstate⟩

end Returned

end Dante
