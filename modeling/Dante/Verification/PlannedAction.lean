import Dante.Verification.AtWork

/-! # One action of a plan

An invocation under a lease leaves its action done, or a failure on record; whatever it raises,
only a lost lease leaves its step in flight. -/

namespace Dante

open JsonText Relational Concurrent Program Programs

variable [Platform] {α : Type} {s s' : Snapshot ledgerMachine} {pid : ℕ}
  {taskId stepId : String} {lease : Lease} {owner : Option Lease} {actions : List Action}
  {index : ℕ} {v : Invocation} {db db' : Database} {now : ℚ} {u : Unit}

/-! ## The end of a step -/

omit [Platform] in
theorem raises_requireLease {beforeEffect : Bool} :
    Raises Exn.isOrdinary (requireLease db now taskId beforeEffect owner) := by
  apply Raises.bind
  · unfold assertLease
    split
    · exact .pure none
    · apply Raises.bind (.require rfl)
      intro _ _
      apply Raises.bind (.orRaise rfl)
      intro expiresAt _
      apply Raises.bind (.require rfl)
      intro _ _
      apply Raises.bind (.require rfl)
      intro _ _
      exact .pure _
  · intro held _
    exact .pure ()

omit [Platform] in
theorem raises_getTask : Raises Exn.isOrdinary (getTask taskId db) := by
  apply Raises.bind (.orRaise rfl)
  intro row _
  exact .pure row.payload

omit [Platform] in
theorem raises_activeTask : Raises Exn.isOrdinary (activeTask db taskId) := by
  apply Raises.bind raises_getTask
  intro task _
  apply Raises.bind (.require rfl)
  intro _ _
  exact .pure task

theorem raises_ordinary_digest {value : Json} : Raises Exn.isOrdinary (digest value) := by
  apply raises_digest.mono
  intro e he
  cases e <;> first | rfl | cases he

omit [Platform] in
theorem started_iff : db.InFlight taskId stepId ↔
    ∃ step, db.steps.find (StepRecord.namedIn taskId stepId .started) = some step := by
  constructor
  · rintro ⟨step, hstep, hstarted⟩
    refine ⟨step, (Table.find_eq_some_iff (namedIn_determines _ _ _)).mpr ?_⟩
    exact ⟨Table.mem_of_find hstep, (namedIn_eq (named_of_find hstep)).mpr ⟨⟨rfl, rfl⟩, hstarted⟩⟩
  · rintro ⟨step, hstep⟩
    have hholds := Table.pred_of_find hstep
    simp only [StepRecord.namedIn, Bool.and_eq_true, beq_iff_eq] at hholds
    refine ⟨step, (Table.find_eq_some_iff (StepRecord.named_determines _ _)).mpr ?_, hholds.2⟩
    exact ⟨Table.mem_of_find hstep, hholds.1⟩

theorem finishStep_succeeds {safe : Dict Json}
    (h : finishStep owner taskId stepId safe now db = .ok (u, db')) :
    ∃ step, db'.stepNamed taskId stepId = some step ∧ step.state = .succeeded := by
  obtain ⟨_, _, _, -, -, -, -, hstep, rfl⟩ := finishStep_ok h
  obtain ⟨before, hbefore, hstarted⟩ := started_iff.mpr ⟨_, hstep⟩
  have hnamed := (namedIn_eq (named_of_find hbefore)).mpr ⟨⟨rfl, rfl⟩, hstarted⟩
  rw [stepNamed_event, stepNamed_updateSteps, hbefore, Option.map_some, if_pos hnamed]
  exact ⟨_, rfl, rfl⟩

/-- Only a step that is not in flight is left to reconciliation. -/
theorem finishStep_refused {safe : Dict Json} {e : Exn}
    (h : finishStep owner taskId stepId safe now db = .error e) (hordinary : e.isOrdinary = false) :
    ¬db.InFlight taskId stepId := by
  intro hflight
  obtain ⟨step, hstep⟩ := started_iff.mp hflight
  have hcount := Table.count_of_find (namedIn_determines taskId stepId .started) hstep
  have hraised (hraises : e.isOrdinary = true) : False := by
    rw [hordinary] at hraises
    cases hraises
  simp only [finishStep, Except.bind_eq_error, hcount, beq_self_eq_true, require_eq_error,
    Bool.true_eq_false, false_and, false_or] at h
  rcases h with h | ⟨_, -, h | ⟨_, -, h | ⟨_, -, _, -, h⟩⟩⟩
  · exact hraised (raises_requireLease e h)
  · exact hraised (raises_activeTask e h)
  · exact hraised (raises_ordinary_digest e h)
  · cases h

omit [Platform] in
theorem markUncertain_landed {errorType : String}
    (h : markUncertain owner taskId stepId errorType now db = .ok (u, db')) :
    ¬db'.InFlight taskId stepId := by
  rintro ⟨step, hstep, hstarted⟩
  obtain ⟨_, -, -, -, rfl⟩ := markUncertain_ok h
  rw [stepNamed_event, stepNamed_updateSteps, Option.map_eq_some_iff] at hstep
  obtain ⟨before, hbefore, rfl⟩ := hstep
  split at hstarted
  next => cases hstarted
  next hother => exact hother ((namedIn_eq (named_of_find hbefore)).mpr ⟨⟨rfl, rfl⟩, hstarted⟩)

omit [Platform] in
/-- Under a lease that was not released, a live task is marked unless the lease has run out. -/
theorem markUncertain_lost {errorType : String} {e : Exn} (hheld : db.HeldFor taskId owner)
    {row : TaskRow} (hrow : db.tasks.get? taskId = some row)
    (hlive : row.payload.status.terminal = false)
    (h : markUncertain owner taskId stepId errorType now db = .error e) : e = .leaseLost := by
  have htask : activeTask db taskId = .ok row.payload := activeTask_ok.mpr ⟨⟨row, hrow, rfl⟩, hlive⟩
  simp only [markUncertain, Except.bind_eq_error, htask, reduceCtorEq, false_or] at h
  rcases h with h | ⟨_, -, _, -, h⟩
  · exact requireLease_lost_held hheld h
  · cases h

theorem heldFor_of_leased (hknown : LeasesKnown s) (hleased : s.state.db.Leased lease) :
    s.state.db.HeldFor lease.taskId (some lease) := by
  obtain ⟨row, hrow, hheld⟩ := hleased
  intro row' hrow'
  cases hrow.symm.trans hrow'
  obtain ⟨taskRow, -, hconsistent⟩ := (hknown.numbered lease.taskId).task hrow
  obtain ⟨expiresAt, hexpiry⟩ := Option.isSome_iff_exists.mp (hconsistent.expiry.mpr hheld.2.1)
  exact ⟨lease, expiresAt, rfl, hheld, hexpiry⟩

theorem task_of_leased (hknown : LeasesKnown s) (hleased : s.state.db.Leased lease) :
    ∃ row, s.state.db.tasks.get? lease.taskId = some row := by
  obtain ⟨queued, hqueued, -⟩ := hleased
  obtain ⟨row, hrow, -⟩ := (hknown.numbered lease.taskId).task hqueued
  exact ⟨row, hrow⟩

/-! ## Claim, handler, receipt -/

/-- How far a result takes the plan. -/
def reached (index : ℕ) (result : ToolResult) : ℕ :=
  if result.status = .success then index + 1 else index

omit [Platform] in
theorem le_reached (result : ToolResult) : index ≤ reached index result := by
  unfold reached
  split <;> omega

omit [Platform] in
theorem reached_of_ne {result : ToolResult} (h : result.status ≠ .success) :
    reached index result = index :=
  if_neg h

theorem AtWork.succ {taken : Prop} {flying : String → Prop}
    (h : AtWork pid lease actions taken flying index s)
    (hdone : s.state.db.Leased lease → s.state.db.Done lease.taskId index) :
    AtWork pid lease actions taken flying (index + 1) s where
  owns := h.owns
  queued := h.queued
  done hleased earlier hearlier := by
    rcases Nat.lt_succ_iff_lt_or_eq.mp hearlier with hbefore | rfl
    · exact h.done hleased earlier hbefore
    · exact hdone hleased
  begun := h.begun
  flights := h.flights
  others := h.others

/-- An exception found no step in flight, or the one that is known to its process. -/
def Raising (pid : ℕ) (lease : Lease) (actions : List Action) (index : ℕ)
    (known : Option StepRecord) (e : Exn) (s : Snapshot ledgerMachine) : Prop :=
  Quiesced pid lease actions index s ∨ e.isOrdinary = true ∧ ∃ step, known = some step ∧
    InHand pid lease actions index step.stepId s

/-- A look that raises only ordinary exceptions. -/
theorem look_claimed {r : Request} {step : StepRecord} (hr : r.Harmless lease)
    (hmoved : ∀ owner taskId target currentStep metadata,
      r ≠ .transition owner taskId target currentStep metadata)
    (hraises : ∀ env w, Raises Exn.isOrdinary (perform env r w).1)
    (hs : InHand pid lease actions index step.stepId s ∧ Ran lease.taskId step.stepId s) :
    WorkSafe pid (ask r)
      (fun _ s => InHand pid lease actions index step.stepId s ∧ Ran lease.taskId step.stepId s)
      (Raising pid lease actions index (some step)) s := by
  refine Safe.call fun s₀ hrely _ hadmits => ?_
  have hclaimed := hs.1.rely hrely
  refine ⟨hr.permittedTo hclaimed.work.owns, ?_, ?_⟩
  · intro env a st hperform
    refine ⟨hclaimed.call hadmits hperform hr.calm hmoved, ?_⟩
    exact (hs.2.mono hrely.log).mono fun _ he => List.mem_append_left _ he
  · intro env e st hperform
    have hordinary := hraises env s₀.state e (congrArg Prod.fst hperform)
    exact .inr ⟨hordinary, step, rfl, hclaimed.call hadmits hperform hr.calm hmoved⟩

theorem finishStep_at_work {step : StepRecord} {result : Dict Json}
    (hv : v.Plays lease actions index)
    (hs : InHand pid lease actions index step.stepId s ∧ Ran lease.taskId step.stepId s) :
    WorkSafe pid (Programs.finishStep v.owner v.task.taskId step.stepId result)
      (fun _ => Quiesced pid lease actions (index + 1))
      (Raising pid lease actions index (some step)) s := by
  rw [hv.owner, hv.task]
  apply Safe.bind
  refine (look_claimed (r := .getTask lease.taskId) trivial (by intros; simp)
    (fun _ _ => raises_getTask) hs).mono ?_ fun _ _ h => h
  intro (task : Task) s₁ hs₁
  apply Safe.bind
  refine (look_claimed (r := .receipt result task.workspace) trivial (by intros; simp)
    (fun _ _ => raises_receipt) hs₁).mono ?_ fun _ _ h => h
  intro safe s₂ hs₂
  apply Safe.bind
  refine Safe.call fun s₃ hrely _ hadmits => ?_
  have hclaimed := hs₂.1.rely hrely
  refine ⟨hs₂.2.mono hrely.log, ?_, ?_⟩
  · intro env a st hperform
    have hnext := hclaimed.call hadmits hperform trivial (by intros; simp)
    rcases commit_cases hperform with ⟨_, db', hx, -, rfl⟩ | ⟨_, -, herror, -⟩
    · obtain ⟨found, hfound, hsucceeded⟩ := finishStep_succeeds hx
      have hdone : db'.Done lease.taskId index := by
        obtain ⟨recorded, hrecorded, hid⟩ := hnext.recorded
        have hnamed := (actionStep_iff.mp hrecorded).2
        rw [hid] at hnamed
        cases hfound.symm.trans hnamed
        exact ⟨found, hrecorded, hsucceeded⟩
      have hquiesced := hnext.quiesced fun _ hflight => by
        obtain ⟨other, hother, hstarted⟩ := hflight
        cases hfound.symm.trans hother
        rw [hsucceeded] at hstarted
        cases hstarted
      have hread : (ask (.getStep lease.taskId step.stepId)).Uses (Request.Harmless lease) :=
        .call trivial
      refine (uses_at_work hread (hquiesced.succ fun _ => hdone)).mono (fun _ _ h => h) ?_
      exact fun _ _ h => .inl (h.mono id (fun _ hnone => hnone) (Nat.le_succ index))
    · cases herror
  · intro env e st hperform
    have hnext := hclaimed.call hadmits hperform trivial (by intros; simp)
    cases hordinary : e.isOrdinary with
    | true => exact .inr ⟨hordinary, step, rfl, hnext⟩
    | false =>
        rcases commit_cases hperform with ⟨_, _, -, hanswer, -⟩ | ⟨_, hx, herror, rfl⟩
        · cases hanswer
        · cases herror
          exact .inl (hnext.quiesced fun _ => finishStep_refused hx hordinary)

/-- What marking a claimed step leaves where it raises. -/
def Unmarked (pid : ℕ) (lease : Lease) (actions : List Action) (index : ℕ) (stepId : String)
    (e : Exn) (s : Snapshot ledgerMachine) : Prop :=
  Quiesced pid lease actions index s ∨
    e = .leaseLost ∧ InHand pid lease actions index stepId s

theorem markUncertain_at_work {errorType : String} (hv : v.Plays lease actions index)
    (hs : InHand pid lease actions index stepId s) :
    WorkSafe pid (ask (.markUncertain v.owner v.task.taskId stepId errorType))
      (fun _ => Quiesced pid lease actions index) (Unmarked pid lease actions index stepId) s := by
  rw [hv.owner, hv.task]
  refine Safe.call fun s₀ hrely _ hadmits => ?_
  have hclaimed := hs.rely hrely
  refine ⟨trivial, ?_, ?_⟩
  · intro env a st hperform
    have hnext := hclaimed.call hadmits hperform trivial (by intros; simp)
    rcases commit_cases hperform with ⟨_, db', hx, -, rfl⟩ | ⟨_, -, herror, -⟩
    · exact hnext.quiesced fun _ => markUncertain_landed hx
    · cases herror
  · intro env e st hperform
    have hnext := hclaimed.call hadmits hperform trivial (by intros; simp)
    rcases commit_cases hperform with ⟨_, _, -, hanswer, -⟩ | ⟨_, hx, herror, rfl⟩
    · cases hanswer
    · cases herror
      by_cases hleased : s₀.state.db.Leased lease
      · have hheld := heldFor_of_leased hadmits.2 hleased
        obtain ⟨row, hrow⟩ := task_of_leased hadmits.2 hleased
        have hlive := hclaimed.active hleased row.payload.status (by simp [Database.view, hrow])
        exact .inr ⟨markUncertain_lost hheld hrow hlive hx, hnext⟩
      · exact .inl (hnext.work.of_lost hleased)

theorem execute_at_work {step : StepRecord} (hv : v.Plays lease actions index)
    (hs : Known pid lease actions index step.stepId s) :
    WorkSafe pid (v.execute step)
      (fun result => Quiesced pid lease actions (reached index result))
      (Raising pid lease actions index (some step)) s := by
  apply Safe.bind
  refine (claimStep_at_work hv hs).mono ?_ fun _ _ h => .inl h
  intro _ s₁ hclaimed
  apply Safe.bind
  refine (handler_at_work hv hclaimed).mono ?_ fun _ _ h => h.elim
  intro (result : ToolResult) s₂ hran
  by_cases hsuccess : result.status = .success
  · have hreached : reached index result = index + 1 := if_pos hsuccess
    simp only [hsuccess, beq_self_eq_true, if_true]
    apply Safe.bind
    refine (finishStep_at_work hv hran).mono ?_ fun _ _ h => h
    intro _ s₃ hs₃
    exact hs₃.mono id (fun _ hnone => hnone) hreached.le
  · have hstatus : (result.status == ToolStatus.success) = false := beq_eq_false_iff_ne.mpr hsuccess
    simp only [hstatus, Bool.false_eq_true, if_false]
    apply Safe.bind
    refine (markUncertain_at_work hv hran.1).mono ?_ ?_
    · intro _ s₃ hs₃
      exact hs₃.mono id (fun _ hnone => hnone) (reached_of_ne hsuccess).le
    · rintro e s₃ (hquiesced | ⟨rfl, hclaimed⟩)
      · exact .inl hquiesced
      · exact .inr ⟨rfl, step, rfl, hclaimed⟩

/-! ## The whole invocation -/

/-- The `except` clauses of `invoke` leave a step in flight only where the lease is lost. -/
theorem guarded_at_work {known : Option StepRecord} {fallback : α} {body : Prog α}
    {Q : α → Snapshot ledgerMachine → Prop} (hv : v.Plays lease actions index)
    (h : WorkSafe pid body Q (Raising pid lease actions index known) s)
    (hfallback : ∀ s, Quiesced pid lease actions index s → Q fallback s) :
    WorkSafe pid (guarded v.owner v.task.taskId known fallback body) Q (Broken pid lease actions)
      s := by
  apply Safe.except
  refine h.mono (fun _ _ hq => hq) ?_
  intro e s₁ hfails
  have hmark : WorkSafe pid (do
      markKnown v.owner v.task.taskId known
      (.raise e : Prog α)) Q (Broken pid lease actions) s₁ := by
    apply Safe.bind
    cases known with
    | none =>
        rcases hfails with hquiesced | ⟨-, step, hstep, -⟩
        · exact hquiesced.broken e
        · cases hstep
    | some step =>
        rcases hfails with hquiesced | ⟨-, other, hother, hclaimed⟩
        · have hask : (ask (.markUncertain v.owner v.task.taskId step.stepId
              "execution_failure")).Uses (Request.Harmless lease) := .call trivial
          refine (uses_at_work hask hquiesced).mono ?_ ?_
          · exact fun _ _ hkept => hkept.broken e
          · exact fun other _ hkept => hkept.broken other
        · cases hother
          refine (markUncertain_at_work hv hclaimed).mono ?_ ?_
          · exact fun _ _ hkept => hkept.broken e
          · rintro other s₂ (hkept | ⟨rfl, hclaimed⟩)
            · exact hkept.broken other
            · exact hclaimed.work.mono (fun _ => trivial) (fun _ _ => rfl) (Nat.zero_le _)
  cases e with
  | reconciliationRequired message =>
      rcases hfails with hquiesced | ⟨hordinary, -⟩
      · exact hfallback s₁ hquiesced
      · cases hordinary
  | _ => exact hmark

/-- What is ready for the claim of a step: its record, or a result that ends the invocation. -/
def Offered (pid : ℕ) (lease : Lease) (actions : List Action) (index : ℕ) :
    ToolResult ⊕ StepRecord → Snapshot ledgerMachine → Prop
  | .inl result => Quiesced pid lease actions (reached index result)
  | .inr step => Known pid lease actions index step.stepId

theorem AtWork.not_reached {result : ToolResult} (h : Quiesced pid lease actions index s)
    (hstatus : result.status ≠ .success) : Quiesced pid lease actions (reached index result) s := by
  rwa [reached_of_ne hstatus]

theorem prepare_at_work (hv : v.Plays lease actions index)
    (hs : Quiesced pid lease actions index s) :
    WorkSafe pid v.prepare (Offered pid lease actions index)
      (fun _ => Quiesced pid lease actions index) s := by
  apply Safe.bind
  have hsafe := uses_at_work (authorize_harmless v.broker v.task v.toolId v.arguments v.approvalId
    v.planHash) hs
  refine (hsafe.yields (authorize_denies _ _ _ _ _ _)).mono ?_ fun _ _ h => h
  rintro denied s₁ ⟨hdenied, hs₁⟩
  cases denied with
  | some result => exact hs₁.not_reached (hdenied result rfl)
  | none =>
      apply Safe.bind
      exact (prepareStep_at_work hv hs₁).mono (fun _ _ h => h) fun _ _ h => h

theorem attempt_at_work {known : Option StepRecord} (hv : v.Plays lease actions index)
    (hs : Quiesced pid lease actions index s) :
    WorkSafe pid (v.attempt known)
      (fun outcome => Quiesced pid lease actions (reached index outcome.1))
      (Broken pid lease actions) s := by
  have huncertain (s : Snapshot ledgerMachine) (h : Quiesced pid lease actions index s) :
      Quiesced pid lease actions (reached index uncertainResult) s := h.not_reached (by decide)
  apply Safe.bind
  have hprepare : WorkSafe pid v.prepare (Offered pid lease actions index)
      (Raising pid lease actions index known) s :=
    (prepare_at_work hv hs).mono (fun _ _ h => h) fun _ _ h => .inl h
  have hoffer (s : Snapshot ledgerMachine) (h : Quiesced pid lease actions index s) :
      Offered pid lease actions index (.inl uncertainResult) s := huncertain s h
  refine (guarded_at_work hv hprepare hoffer).mono ?_ fun _ _ h => h
  intro prepared s₁ hoffered
  cases prepared with
  | inl result => exact hoffered
  | inr step =>
      apply Safe.bind
      exact (guarded_at_work hv (execute_at_work hv hoffered) huncertain).mono (fun _ _ h => h)
        fun _ _ h => h

theorem resolve_at_work {known : Option StepRecord} (hv : v.Plays lease actions index)
    (hs : Quiesced pid lease actions index s)
    (hknown : ∀ step, known = some step → step.state = .succeeded →
      Quiesced pid lease actions (index + 1) s) :
    WorkSafe pid (v.resolve known)
      (fun outcome => Quiesced pid lease actions (reached index outcome.1))
      (Broken pid lease actions) s := by
  have huncertain (s : Snapshot ledgerMachine) (h : Quiesced pid lease actions index s) :
      Quiesced pid lease actions (reached index uncertainResult) s := h.not_reached (by decide)
  cases known with
  | none => exact attempt_at_work hv hs
  | some step =>
      cases hstate : step.state with
      | intent =>
          simp only [Invocation.resolve, hstate]
          exact attempt_at_work hv hs
      | started =>
          simp only [Invocation.resolve, hstate]
          exact huncertain s hs
      | uncertain =>
          simp only [Invocation.resolve, hstate]
          exact huncertain s hs
      | succeeded =>
          simp only [Invocation.resolve, hstate]
          apply Safe.bind
          have hread : WorkSafe pid (do
              let data ← verifiedStepResult v.task.taskId step.stepId
              pure { status := .success, data := some data })
              (fun result : ToolResult => Quiesced pid lease actions (reached index result))
              (Raising pid lease actions index (some step)) s := by
            apply Safe.bind
            refine (uses_at_work (verifiedStepResult_harmless _ _)
              (hknown step rfl hstate)).mono ?_ ?_
            · exact fun _ _ hdone => hdone
            · exact fun _ _ hdone => .inl (hdone.mono id (fun _ h => h) (Nat.le_succ index))
          exact (guarded_at_work hv hread huncertain).mono (fun _ _ h => h) fun _ _ h => h

theorem conclude_at_work {outcome : ToolResult × Option StepRecord}
    (hs : Quiesced pid lease actions (reached index outcome.1) s) :
    WorkSafe pid (v.conclude outcome)
      (fun result => Quiesced pid lease actions (reached index result)) (Broken pid lease actions)
      s := by
  apply Safe.bind
  refine (uses_at_work (record_harmless _ _ _ _) hs).mono ?_ ?_
  · exact fun _ _ hkept => hkept
  · exact fun e _ hkept => hkept.broken e

/-- A denial is recorded and returned. -/
theorem denied_at_work {task : Task} {toolId : String} {result : ToolResult}
    (hstatus : result.status ≠ .success) (hs : Quiesced pid lease actions index s) :
    WorkSafe pid (do
        record task toolId result none
        pure result)
      (fun result => Quiesced pid lease actions (reached index result)) (Broken pid lease actions)
      s := by
  apply Safe.bind
  refine (uses_at_work (record_harmless _ _ _ _) hs).mono ?_ ?_
  · exact fun _ _ hkept => hkept.not_reached hstatus
  · exact fun e _ hkept => hkept.broken e

/-- A step that the look-up shows as succeeded is that of the action. -/
theorem done_of_lookupStep {toolId toolVersion : String} {arguments : Dict Json} {step : StepRecord}
    (h : lookupStep taskId toolId toolVersion arguments (some (actionKey index)) db = .ok (some step))
    (hstate : step.state = .succeeded) : db.Done taskId index := by
  obtain ⟨argsDigest, key, -, hkey, hfound, -⟩ := lookupStep_ok h
  exact ⟨step, (actionStep_of_key hkey).trans hfound.symm, hstate⟩

theorem run_at_work (hv : v.Plays lease actions index)
    (hs : Quiesced pid lease actions index s) :
    WorkSafe pid v.run (fun result => Quiesced pid lease actions (reached index result))
      (Broken pid lease actions) s := by
  intro s₀ hrely _ hadmits
  refine ⟨trivial, fun env reply st hperform => ?_⟩
  have hnext := (hs.rely hrely).call hadmits hperform trivial (by simp [Request.Onward])
  cases reply with
  | error e =>
      cases e with
      | valueError message => exact denied_at_work (by decide) hnext
      | _ => exact hnext.broken _
  | ok known =>
      apply Safe.bind
      refine (resolve_at_work hv hnext fun step hstep hstate => ?_).mono ?_ fun _ _ h => h
      · subst hstep
        apply hnext.succ
        intro _
        have hread := congrArg Prod.fst hperform
        have hst : s₀.state = st := congrArg Prod.snd hperform
        simp only [ledgerMachine, perform, hv.task, hv.key, hst] at hread
        exact done_of_lookupStep hread hstate
      · exact fun outcome _ hkept => conclude_at_work hkept

theorem invoke_at_work {broker : ToolBroker} {task : Task} {action : Action}
    {approvalId : Option String} {planHash : String} (hplan : actions[index]? = some action)
    (htask : task.taskId = lease.taskId) (hs : Quiesced pid lease actions index s) :
    WorkSafe pid (invoke broker (some lease) task action.toolId action.arguments approvalId planHash
        (some (actionKey index)))
      (fun result => Quiesced pid lease actions (reached index result)) (Broken pid lease actions)
      s := by
  have hbroken (e : Exn) (s : Snapshot ledgerMachine) (h : Quiesced pid lease actions index s) :
      Broken pid lease actions e s := h.broken e
  apply Safe.bind
  refine (getTask_at_work hs).mono ?_ hbroken
  rintro (current : Task) s₁ ⟨hcurrent, hs₁⟩
  simp only
  split
  · exact denied_at_work (by decide) hs₁
  · apply Safe.bind
    have hdenial (env : Surroundings) (w : World) (denied : Option ToolResult) (w' : World)
        (hperform : perform env (.preflight broker current action.toolId action.arguments) w =
          (.ok denied, w')) : ∀ result, denied = some result → result.status ≠ .success := by
      obtain ⟨answer, hanswer, hdenies⟩ :=
        preflight_returns w.fs broker current action.toolId action.arguments
      have hsame := hanswer.symm.trans (congrArg Prod.fst hperform)
      cases hsame
      intro result hresult
      rcases hdenies result hresult with hstatus | hstatus <;> rw [hstatus] <;> decide
    refine (ask_at_work (r := .preflight broker current action.toolId action.arguments) trivial
      hdenial hs₁).mono ?_ hbroken
    rintro (denied : Option ToolResult) s₂ ⟨hdenies, hs₂⟩
    cases denied with
    | some result => exact denied_at_work (hdenies result rfl) hs₂
    | none =>
        apply Safe.bind
        apply Safe.ofExcept
        · intro manifest _
          exact run_at_work ⟨rfl, hcurrent.trans htask, rfl, action, hplan, rfl, rfl⟩ hs₂
        · intro e _
          exact hs₂.broken e

end Dante
