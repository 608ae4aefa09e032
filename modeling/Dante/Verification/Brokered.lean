import Dante.Library.Credit
import Dante.Model.ToolBroker
import Dante.Verification.Journal

/-! # Programs that start handlers through the broker

A process that runs any code of the repository starts a handler only inside of `invoke`. What
such a process has done itself just before a start is a property of `invoke` alone; it holds
whatever the other processes do. -/

namespace Dante

open JsonText Relational Concurrent
open Programs (Invocation)

variable [Platform] {taskId stepId : String} {db db' : Database}

/-! ## Events -/

/-- The key that the step of a call is recorded under. -/
def ToolCall.stepKey (c : ToolCall) : Except Exn String := do
  let argsDigest ← digest (.obj c.arguments)
  Dante.stepKey c.toolId c.manifest.version argsDigest c.idempotencyKey

/-- The digest that an approval of the call is bound to. -/
def ToolCall.actionHash (c : ToolCall) : Except Exn String :=
  digest (actionJson c.taskId c.workspace c.manifest c.arguments c.planHash)

/-- The step named by `k` was claimed. -/
def claims (k : String × String) : Event Request.Reply Exn → Bool
  | .call _ (.claimStep _ taskId stepId) (.ok _) => (taskId, stepId) == k
  | _ => false

/-- A handler was started for the step named by `k`. -/
def starts (k : String × String) : Event Request.Reply Exn → Bool
  | .call _ (.runTool c) _ => (c.taskId, c.stepId) == k
  | _ => false

/-- An approval of the task and action hash `k` was consumed. -/
def consumes (k : String × String) : Event Request.Reply Exn → Bool
  | .call _ (.consumeAction _ taskId hash) (.ok _) => (taskId, hash) == k
  | _ => false

/-- The task and action hash of `k`: a handler was started under an approval policy. -/
def startsApproved (k : String × String) : Event Request.Reply Exn → Bool
  | .call _ (.runTool c) _ =>
      c.manifest.approvalPolicy != "never" && c.taskId == k.1 &&
        (match c.actionHash with
          | .ok hash => hash == k.2
          | .error _ => false)
  | _ => false

/-- The events of one process, in order. -/
abbrev ownLog (pid : ℕ) (log : List (Event Request.Reply Exn)) : List (Event Request.Reply Exn) :=
  Credit.own Event.pid pid log

/-! ## The protocol -/

/-- What a process has done before it starts the handler of a call. -/
structure MayStart (pid : ℕ) (c : ToolCall) (s : Snapshot ledgerMachine) : Prop where
  claimed : ∃ owner, (ownLog pid s.log).getLast? =
    some (.call pid (.claimStep owner c.taskId c.stepId) (.ok ()))
  keyed : ∃ key row, c.stepKey = .ok key ∧ s.state.db.stepNamed c.taskId c.stepId = some row ∧
    row.idempotencyKey = key
  claim : (ownLog pid s.log).countP (starts (c.taskId, c.stepId)) <
    (ownLog pid s.log).countP (claims (c.taskId, c.stepId))
  approval : c.manifest.approvalPolicy ≠ "never" → ∃ hash, c.actionHash = .ok hash ∧
    (ownLog pid s.log).countP (startsApproved (c.taskId, hash)) <
      (ownLog pid s.log).countP (consumes (c.taskId, hash))

/-- Steps stay recorded, under the same key. -/
def Database.KeepsKeys (db db' : Database) : Prop :=
  ∀ taskId stepId row, db.stepNamed taskId stepId = some row →
    ∃ row', db'.stepNamed taskId stepId = some row' ∧ row'.idempotencyKey = row.idempotencyKey

/-- A process may start a handler only as `MayStart` says, and counts on its own events and
on the keys of steps alone. -/
def brokerProtocol : Protocol ledgerMachine where
  inv s := Credit.Solvent Event.pid claims starts s.log ∧
    Credit.Solvent Event.pid consumes startsApproved s.log
  rely pid s s' := ownLog pid s'.log = ownLog pid s.log ∧ s.state.db.KeepsKeys s'.state.db
  permit pid r s := ∀ c, r = .runTool c → MayStart pid c s

/-- A program that starts handlers only inside of `invoke`. -/
inductive Brokered : {α : Type} → Prog α → Prop where
  | quiet {α : Type} {p : Prog α} (h : p.Uses fun r => ∀ c, r ≠ .runTool c) : Brokered p
  | invoke (broker : ToolBroker) (owner : Option Lease) (task : Task) (toolId : String)
      (arguments : Dict Json) (approvalId : Option String) (planHash : String)
      (idempotencyKey : Option String) :
      Brokered (Programs.invoke broker owner task toolId arguments approvalId planHash
        idempotencyKey)
  | bind {α β : Type} {p : Prog α} {f : α → Prog β} (hp : Brokered p)
      (hf : ∀ a, Brokered (f a)) : Brokered (p.bind f)
  | except {α : Type} {p : Prog α} {handler : Exn → Prog α} (hp : Brokered p)
      (hhandler : ∀ e, Brokered (handler e)) : Brokered (p.except handler)

/-- Any number of processes that run brokered programs. -/
def brokeredRun : Rules ledgerMachine where
  start := World.Fresh
  program := Brokered
  admits _ _ _ := True

/-! ## The keys of steps -/

omit [Platform] in
theorem stepNamed_of_keyed {key : String} {step : StepRecord}
    (h : db.steps.find (StepRecord.keyed taskId key) = some step) :
    db.stepNamed taskId step.stepId = some step ∧ step.idempotencyKey = key := by
  have hkeyed := Table.pred_of_find h
  simp only [StepRecord.keyed, Bool.and_eq_true, beq_iff_eq] at hkeyed
  refine ⟨?_, hkeyed.2⟩
  refine (Table.find_eq_some_iff (StepRecord.named_determines taskId step.stepId)).mpr ?_
  exact ⟨Table.mem_of_find h, by simp [StepRecord.named, hkeyed.1]⟩

omit [Platform] in
theorem Database.KeepsKeys.refl (db : Database) : db.KeepsKeys db :=
  fun _ _ row hrow => ⟨row, hrow, rfl⟩

omit [Platform] in
theorem Database.KeepsKeys.trans {a b c : Database} (h : a.KeepsKeys b) (h' : b.KeepsKeys c) :
    a.KeepsKeys c := by
  intro taskId stepId row hrow
  obtain ⟨row₁, hrow₁, hkey₁⟩ := h taskId stepId row hrow
  obtain ⟨row₂, hrow₂, hkey₂⟩ := h' taskId stepId row₁ hrow₁
  exact ⟨row₂, hrow₂, hkey₂.trans hkey₁⟩

omit [Platform] in
theorem JournalStep.keepsKey {event : Option StepEvent} {row : StepRecord}
    {after : Option StepRecord} (h : JournalStep event (some row) after) :
    ∃ row', after = some row' ∧ row'.idempotencyKey = row.idempotencyKey := by
  cases h with
  | moved hmove => cases hmove <;> exact ⟨_, rfl, rfl⟩

theorem perform_keepsKeys {env : Surroundings} {r : Request} {w w' : World}
    {reply : Except Exn r.Reply} (h : perform env r w = (reply, w')) : w.db.KeepsKeys w'.db := by
  intro taskId stepId row hrow
  have hmove := perform_journal h taskId stepId
  rw [Database.stepNamed] at hrow
  rw [hrow] at hmove
  exact hmove.keepsKey

omit [Platform] in
theorem World.Drift.keepsKeys {w w' : World} (h : w.Drift w') : w.db.KeepsKeys w'.db := by
  have hsteps : w'.db.steps = w.db.steps := h.agree (t := .steps) (by simp)
  intro taskId stepId row hrow
  exact ⟨row, by rw [Database.stepNamed, hsteps]; exact hrow, rfl⟩

/-! ## The protocol is sound -/

omit [Platform] in
theorem starts_eq {k : String × String} {pid : ℕ} {r : Request} {reply : Except Exn r.Reply}
    (h : starts k (.call pid r reply) = true) : ∃ c, r = .runTool c ∧ k = (c.taskId, c.stepId) := by
  cases r with
  | runTool c => exact ⟨c, rfl, (beq_iff_eq.mp h).symm⟩
  | _ => cases h

theorem startsApproved_eq {k : String × String} {pid : ℕ} {r : Request}
    {reply : Except Exn r.Reply} (h : startsApproved k (.call pid r reply) = true) :
    ∃ c, r = .runTool c ∧ c.manifest.approvalPolicy ≠ "never" ∧ c.taskId = k.1 ∧
      c.actionHash = .ok k.2 := by
  cases r with
  | runTool c =>
      simp only [startsApproved, Bool.and_eq_true, bne_iff_ne, ne_eq, beq_iff_eq] at h
      obtain ⟨⟨hpolicy, htask⟩, hhash⟩ := h
      refine ⟨c, rfl, hpolicy, htask, ?_⟩
      cases hc : c.actionHash with
      | ok hash => simpa [hc] using hhash
      | error e => simp [hc] at hhash
  | _ => cases h

theorem brokerProtocol_sound : brokerProtocol.Sound brokeredRun where
  refl _ _ := ⟨rfl, .refl _⟩
  trans h h' := ⟨h'.1.trans h.1, h.2.trans h'.2⟩
  start _ _ := ⟨.nil, .nil⟩
  call := by
    intro s pid r env reply w hinv _ hpermit hperform
    refine ⟨⟨hinv.1.append fun k hk => ?_, hinv.2.append fun k hk => ?_⟩,
      fun other hother _ => ⟨?_, perform_keepsKeys hperform⟩⟩
    · obtain ⟨c, rfl, rfl⟩ := starts_eq hk
      exact (hpermit c rfl).claim
    · obtain ⟨c, rfl, hpolicy, htask, hhash⟩ := startsApproved_eq hk
      obtain ⟨hash, hother, hcredit⟩ := (hpermit c rfl).approval hpolicy
      cases hhash.symm.trans hother
      rwa [htask] at hcredit
    · exact Credit.own_append_of_ne (Ne.symm hother) _
  spawn := by
    intro s pid hinv
    refine ⟨⟨hinv.1.append fun k hk => ?_, hinv.2.append fun k hk => ?_⟩,
      fun other hother => ⟨?_, .refl _⟩⟩
    · cases hk
    · cases hk
    · exact Credit.own_append_of_ne (Ne.symm hother) _
  crash := by
    intro s pid hinv
    refine ⟨⟨hinv.1.append fun k hk => ?_, hinv.2.append fun k hk => ?_⟩,
      fun other hother => ⟨?_, .refl _⟩⟩
    · cases hk
    · cases hk
    · exact Credit.own_append_of_ne (Ne.symm hother) _
  drift := fun hinv hdrift => ⟨hinv, fun _ => ⟨rfl, hdrift.keepsKeys⟩⟩

/-! ## What an invocation knows -/

/-- Any request but the start of a handler. -/
def Request.Quiet (r : Request) : Prop :=
  ∀ c, r ≠ .runTool c

/-- The digest of the action that is invoked. -/
def Programs.Invocation.actionHash (v : Invocation) : Except Exn String :=
  digest (actionJson v.task.taskId v.task.workspace v.manifest v.arguments v.planHash)

/-- The key of the step that is invoked. -/
def Programs.Invocation.stepKey (v : Invocation) : Except Exn String := do
  let argsDigest ← digest (.obj v.arguments)
  Dante.stepKey v.toolId v.manifest.version argsDigest v.idempotencyKey

/-- The process has consumed an approval for the action that it has not yet used. -/
def Funded (pid : ℕ) (v : Invocation) (s : Snapshot ledgerMachine) : Prop :=
  v.manifest.approvalPolicy ≠ "never" → ∃ hash, v.actionHash = .ok hash ∧
    (ownLog pid s.log).countP (startsApproved (v.task.taskId, hash)) <
      (ownLog pid s.log).countP (consumes (v.task.taskId, hash))

/-- The step is recorded under the key of the invocation. -/
def Recorded (v : Invocation) (stepId : String) (s : Snapshot ledgerMachine) : Prop :=
  ∃ key row, v.stepKey = .ok key ∧ s.state.db.stepNamed v.task.taskId stepId = some row ∧
    row.idempotencyKey = key

variable {pid : ℕ} {v : Invocation} {s s' : Snapshot ledgerMachine} {R : Rules ledgerMachine}
  {env : Surroundings} {r : Request} {w : World} {reply : Except Exn r.Reply}

omit [Platform] in
theorem ownLog_after (log : List (Event Request.Reply Exn)) (pid : ℕ) (r : Request)
    (reply : Except Exn r.Reply) :
    ownLog pid (log ++ [.call pid r reply]) = ownLog pid log ++ [.call pid r reply] := by
  simp [ownLog, Credit.own, Event.pid]

theorem Funded.rely (h : Funded pid v s) (hrely : brokerProtocol.rely pid s s') :
    Funded pid v s' := by
  intro hpolicy
  rw [hrely.1]
  exact h hpolicy

theorem Funded.quiet (h : Funded pid v s) (hr : r.Quiet) :
    Funded pid v (s.after w (.call pid r reply)) := by
  intro hpolicy
  obtain ⟨hash, hhash, hcredit⟩ := h hpolicy
  refine ⟨hash, hhash, ?_⟩
  have hnone : startsApproved (v.task.taskId, hash) (.call pid r reply) = false := by
    rw [Bool.eq_false_iff]
    intro hstart
    obtain ⟨c, hc, -⟩ := startsApproved_eq hstart
    exact hr c hc
  rw [Snapshot.after_log, ownLog_after, List.countP_append, List.countP_append, List.countP_singleton, hnone,
    if_neg (by simp)]
  omega

theorem Recorded.rely (h : Recorded v stepId s) (hrely : brokerProtocol.rely pid s s') :
    Recorded v stepId s' := by
  obtain ⟨key, row, hkey, hrow, hrowkey⟩ := h
  obtain ⟨row', hrow', hkey'⟩ := hrely.2 _ _ row hrow
  exact ⟨key, row', hkey, hrow', hkey'.trans hrowkey⟩

theorem Recorded.perform (h : Recorded v stepId s) (hperform : perform env r s.state = (reply, w)) :
    Recorded v stepId (s.after w (.call pid r reply)) := by
  obtain ⟨key, row, hkey, hrow, hrowkey⟩ := h
  obtain ⟨row', hrow', hkey'⟩ := perform_keepsKeys hperform _ _ row hrow
  exact ⟨key, row', hkey, hrow', hkey'.trans hrowkey⟩

theorem quiet_permit (hr : r.Quiet) (s : Snapshot ledgerMachine) : brokerProtocol.permit pid r s :=
  fun c hc => absurd hc (hr c)

/-- A program that starts nothing is safe, whatever it ends with. -/
theorem quiet_safe {α : Type} {p : Prog α} (hp : p.Uses Request.Quiet)
    (s : Snapshot ledgerMachine) :
    Safe brokerProtocol R pid p (fun _ _ => True) (fun _ _ => True) s :=
  Safe.of_uses (fun _ s hr => quiet_permit hr s) (fun _ _ _ _ => trivial)
    (fun _ _ _ => trivial) hp trivial

/-- A program that starts nothing keeps the approval it was given. -/
theorem quiet_funded {α : Type} {p : Prog α} (hp : p.Uses Request.Quiet) (hs : Funded pid v s) :
    Safe brokerProtocol R pid p (fun _ => Funded pid v) (fun _ => Funded pid v) s :=
  Safe.of_uses (fun _ s hr => quiet_permit hr s) (fun _ _ hrely h => h.rely hrely)
    (fun hr h _ => h.quiet hr) hp hs

/-! ## The parts of an invocation -/

theorem consumes_funded {approvalId hash : String}
    (hinv : brokerProtocol.inv s) (hhash : v.actionHash = .ok hash) :
    Funded pid v (s.after w (.call pid (.consumeAction approvalId v.task.taskId hash) (.ok ()))) := by
  intro _
  refine ⟨hash, hhash, ?_⟩
  have hsolvent : (ownLog pid s.log).countP (startsApproved (v.task.taskId, hash)) ≤
      (ownLog pid s.log).countP (consumes (v.task.taskId, hash)) := hinv.2 pid _
  rw [Snapshot.after_log, ownLog_after, List.countP_append, List.countP_append, List.countP_singleton,
    List.countP_singleton]
  simp only [startsApproved, consumes, beq_self_eq_true, Bool.false_eq_true, if_true, if_false]
  omega

theorem authorize_safe (hmanifest : v.broker.manifest v.toolId = .ok v.manifest)
    (s : Snapshot ledgerMachine) :
    Safe brokerProtocol R pid
      (Programs.authorize v.broker v.task v.toolId v.arguments v.approvalId v.planHash)
      (fun denied s => denied = none → Funded pid v s) (fun _ _ => True) s := by
  simp only [Programs.authorize, hmanifest, Program.ofExcept, Program.bind_eq, Program.ret_bind]
  split
  next hnever =>
    intro _ hpolicy
    exact absurd (beq_iff_eq.mp hnever) hpolicy
  next =>
    cases happroval : v.approvalId with
    | none => exact fun hnone => absurd hnone (by simp)
    | some approvalId =>
        have hhash : Dante.actionHash v.broker v.task v.toolId v.arguments v.planHash =
            v.actionHash := by
          simp only [Dante.actionHash, hmanifest, bind, Except.bind]
          rfl
        simp only [hhash]
        cases haction : v.actionHash with
        | error e => exact trivial
        | ok hash =>
            refine Safe.except (Safe.bind (Safe.call fun s₀ _ hinv _ => ⟨?_, ?_, ?_⟩))
            · exact quiet_permit (by simp [Request.Quiet]) s₀
            · intro env _ w _ _
              exact consumes_funded hinv haction
            · intro env e w _
              cases e <;> first | trivial | exact fun hnone => absurd hnone (by simp)

omit [Platform] in
/-- A new step is recorded as it was prepared. -/
theorem StepPrepared.stepNamed {toolId toolVersion argsDigest key newId : String} {createdAt : ℚ}
    {row : TaskRow} (h : StepPrepared taskId toolId toolVersion argsDigest key newId createdAt db
      db' row) :
    db'.stepNamed taskId newId =
      some (.prepared newId taskId toolId toolVersion argsDigest key createdAt) := by
  obtain ⟨steps, hins, rfl⟩ := h.inserted
  refine (Table.find_eq_some_iff (StepRecord.named_determines taskId newId)).mpr ⟨?_, ?_⟩
  · rw [Database.event_steps, Table.rows_insert hins]
    simp
  · simp [StepRecord.named, StepRecord.prepared]

/-- The step that `get_step` reads is recorded as its id is. -/
theorem getStep_safe (hs : Funded pid v s) (hrecorded : Recorded v stepId s) :
    Safe brokerProtocol R pid (ask (.getStep v.task.taskId stepId))
      (fun step s => Funded pid v s ∧ Recorded v step.stepId s) (fun _ _ => True) s := by
  refine Safe.call fun s₀ hrely _ _ => ⟨?_, ?_, fun _ _ _ _ => trivial⟩
  · exact quiet_permit (by simp [Request.Quiet]) s₀
  · intro env step w hperform
    have hstep : s₀.state.db.stepNamed v.task.taskId stepId = some step := by
      have hread := congrArg Prod.fst hperform
      exact orRaise_eq_ok.mp hread
    have hanswer : perform env (.getStep v.task.taskId stepId) s₀.state = (.ok step, w) := hperform
    rw [(named_of_find hstep).2]
    exact ⟨(hs.rely hrely).quiet (by simp [Request.Quiet]),
      (hrecorded.rely hrely).perform hanswer⟩

theorem prepareStep_safe (hs : Funded pid v s) :
    Safe brokerProtocol R pid
      (Programs.prepareStep v.owner v.task.taskId v.toolId v.manifest.version v.arguments
        v.idempotencyKey)
      (fun step s => Funded pid v s ∧ Recorded v step.stepId s) (fun _ _ => True) s := by
  refine Safe.bind (Safe.call fun s₀ hrely _ _ => ⟨?_, ?_, fun _ _ _ _ => trivial⟩)
  · exact quiet_permit (by simp [Request.Quiet]) s₀
  · intro env prepared w hperform
    have hfunded : Funded pid v (s₀.after w (.call pid (.prepareStep v.owner v.task.taskId v.toolId
        v.manifest.version v.arguments v.idempotencyKey) (.ok prepared))) :=
      (hs.rely hrely).quiet (by simp [Request.Quiet])
    rcases commit_cases hperform with ⟨_, db', hx, heq, rfl⟩ | ⟨_, -, heq, -⟩
    · cases heq
      obtain ⟨argsDigest, key, row, hargs, hkey, -, -, -, hfound⟩ := prepareStep_ok hx
      have hstepKey : v.stepKey = .ok key := by
        simp only [Programs.Invocation.stepKey, hargs, bind, Except.bind, hkey]
      obtain ⟨step, rfl, rfl, hfind, -⟩ | ⟨rfl, hnew⟩ := hfound
      · obtain ⟨hnamed, hstepkey⟩ := stepNamed_of_keyed hfind
        exact ⟨hfunded, key, step, hstepKey, hnamed, hstepkey⟩
      · refine getStep_safe hfunded ?_
        exact ⟨key, _, hstepKey, hnew.stepNamed, rfl⟩
    · cases heq

theorem prepare_safe (hmanifest : v.broker.manifest v.toolId = .ok v.manifest)
    (s : Snapshot ledgerMachine) :
    Safe brokerProtocol R pid v.prepare
      (fun prepared s => ∀ step, prepared = .inr step → Funded pid v s ∧ Recorded v step.stepId s)
      (fun _ _ => True) s := by
  refine Safe.bind ((authorize_safe hmanifest s).mono ?_ fun _ _ h => h)
  intro denied s hfunded
  cases denied with
  | some result => exact fun step hstep => by cases hstep
  | none =>
      refine Safe.bind ((prepareStep_safe (hfunded rfl)).mono ?_ fun _ _ h => h)
      intro step s hstep other hother
      cases hother
      exact hstep

/-- A process that claims a step has credit to start its handler. -/
theorem claim_mayStart {step : StepRecord} (hinv : brokerProtocol.inv s) (hfunded : Funded pid v s)
    (hrecorded : Recorded v step.stepId s)
    (hperform : perform env (.claimStep v.owner v.task.taskId step.stepId) s.state = (.ok (), w))
    (hrely : brokerProtocol.rely pid
      (s.after w (.call pid (.claimStep v.owner v.task.taskId step.stepId) (.ok ()))) s') :
    MayStart pid (v.call step) s' := by
  have hown := hrely.1
  rw [Snapshot.after_log, ownLog_after] at hown
  refine ⟨⟨v.owner, ?_⟩, (hrecorded.perform hperform).rely hrely, ?_, ?_⟩
  · rw [hown, List.getLast?_append, List.getLast?_singleton]
    rfl
  · have hsolvent : (ownLog pid s.log).countP (starts (v.task.taskId, step.stepId)) ≤
        (ownLog pid s.log).countP (claims (v.task.taskId, step.stepId)) := hinv.1 pid _
    rw [hown, List.countP_append, List.countP_append, List.countP_singleton, List.countP_singleton]
    simp only [starts, claims, Programs.Invocation.call, beq_self_eq_true, Bool.false_eq_true,
      if_true, if_false]
    omega
  · exact (hfunded.quiet (by simp [Request.Quiet])).rely hrely

/-! ## Programs that start nothing -/

omit [Platform] in
theorem quiet_ask (hr : r.Quiet) : (ask r).Uses Request.Quiet :=
  .call hr

omit [Platform] in
theorem quiet_finishStep (owner : Option Lease) (taskId stepId : String) (result : Dict Json) :
    (Programs.finishStep owner taskId stepId result).Uses Request.Quiet :=
  .bind (quiet_ask (by simp [Request.Quiet])) fun _ =>
    .bind (quiet_ask (by simp [Request.Quiet])) fun _ =>
      .bind (quiet_ask (by simp [Request.Quiet])) fun _ => quiet_ask (by simp [Request.Quiet])

omit [Platform] in
theorem quiet_verifiedStepResult (taskId stepId : String) :
    (Programs.verifiedStepResult taskId stepId).Uses Request.Quiet := by
  refine .bind (quiet_ask (by simp [Request.Quiet])) fun step =>
    .bind (quiet_ask (by simp [Request.Quiet])) fun result => ?_
  split
  · trivial
  · exact .bind (.except (quiet_ask (by simp [Request.Quiet])) fun _ => trivial) fun _ => trivial

theorem quiet_record (task : Task) (toolId : String) (result : ToolResult)
    (stepId : Option String) : (Programs.record task toolId result stepId).Uses Request.Quiet :=
  .bind (.ofExcept _) fun _ => quiet_ask (by simp [Request.Quiet])

omit [Platform] in
theorem quiet_markKnown (owner : Option Lease) (taskId : String) (step : Option StepRecord) :
    (Programs.markKnown owner taskId step).Uses Request.Quiet := by
  cases step with
  | none => trivial
  | some s => exact quiet_ask (by simp [Request.Quiet])

/-- The `except` clauses of `invoke` start nothing. -/
theorem guarded_safe {α : Type} {owner : Option Lease} {step : Option StepRecord} {fallback : α}
    {body : Prog α} {Q : α → Snapshot ledgerMachine → Prop} (hfallback : ∀ s, Q fallback s)
    (h : Safe brokerProtocol R pid body Q (fun _ _ => True) s) :
    Safe brokerProtocol R pid (Programs.guarded owner taskId step fallback body) Q
      (fun _ _ => True) s := by
  refine Safe.except (h.mono (fun _ _ hq => hq) fun e s _ => ?_)
  split
  · exact hfallback s
  · refine Safe.bind ((quiet_safe (quiet_markKnown owner taskId step) s).mono ?_ fun _ _ h => h)
    exact fun _ _ _ => trivial

theorem execute_safe {step : StepRecord} (hfunded : Funded pid v s)
    (hrecorded : Recorded v step.stepId s) :
    Safe brokerProtocol R pid (v.execute step) (fun _ _ => True) (fun _ _ => True) s := by
  refine Safe.bind (Safe.call fun s₀ hrely hinv _ => ⟨?_, ?_, fun _ _ _ _ => trivial⟩)
  · exact quiet_permit (by simp [Request.Quiet]) s₀
  · intro env _ w hperform
    refine Safe.bind (Safe.call fun s₁ hrely₁ _ _ => ⟨?_, ?_, fun _ _ _ _ => trivial⟩)
    · intro c hc
      cases hc
      exact claim_mayStart hinv (hfunded.rely hrely) (hrecorded.rely hrely) hperform hrely₁
    · intro env result w _
      refine quiet_safe ?_ _
      split
      · exact .bind (quiet_finishStep ..) fun _ => trivial
      · exact .bind (quiet_ask (by simp [Request.Quiet])) fun _ => trivial

theorem attempt_safe (hmanifest : v.broker.manifest v.toolId = .ok v.manifest)
    (step : Option StepRecord) (s : Snapshot ledgerMachine) :
    Safe brokerProtocol R pid (v.attempt step) (fun _ _ => True) (fun _ _ => True) s := by
  refine Safe.bind ((guarded_safe ?_ (prepare_safe hmanifest s)).mono ?_ fun _ _ h => h)
  · exact fun _ _ hstep => by cases hstep
  · intro prepared s hprepared
    cases prepared with
    | inl result => trivial
    | inr step =>
        obtain ⟨hfunded, hrecorded⟩ := hprepared step rfl
        refine Safe.bind ((guarded_safe ?_ (execute_safe hfunded hrecorded)).mono ?_ fun _ _ h => h)
        · exact fun _ => trivial
        · exact fun _ _ _ => trivial

theorem resolve_safe (hmanifest : v.broker.manifest v.toolId = .ok v.manifest)
    (step : Option StepRecord) (s : Snapshot ledgerMachine) :
    Safe brokerProtocol R pid (v.resolve step) (fun _ _ => True) (fun _ _ => True) s := by
  unfold Programs.Invocation.resolve
  split
  · exact attempt_safe hmanifest none s
  next step =>
    split
    · exact attempt_safe hmanifest (some step) s
    · trivial
    · trivial
    · refine Safe.bind ((guarded_safe ?_ (quiet_safe ?_ s)).mono ?_ fun _ _ h => h)
      · exact fun _ => trivial
      · exact .bind (quiet_verifiedStepResult ..) fun _ => trivial
      · exact fun _ _ _ => trivial

theorem run_safe (hmanifest : v.broker.manifest v.toolId = .ok v.manifest)
    (s : Snapshot ledgerMachine) :
    Safe brokerProtocol R pid v.run (fun _ _ => True) (fun _ _ => True) s := by
  intro s₀ _ _ _
  refine ⟨quiet_permit (by simp [Request.Quiet]) s₀, fun env reply w _ => ?_⟩
  cases reply with
  | ok step =>
      refine Safe.bind ((resolve_safe hmanifest step _).mono (fun outcome s _ => ?_) fun _ _ h => h)
      refine quiet_safe ?_ s
      exact .bind (quiet_record ..) fun _ => trivial
  | error e =>
      cases e with
      | valueError message =>
          refine quiet_safe ?_ _
          exact .bind (quiet_record ..) fun _ => trivial
      | _ => trivial

/-- `invoke` starts a handler only with its own claim, and with its own approval where the
policy asks for one. -/
theorem invoke_safe (broker : ToolBroker) (owner : Option Lease) (task : Task) (toolId : String)
    (arguments : Dict Json) (approvalId : Option String) (planHash : String)
    (idempotencyKey : Option String) (s : Snapshot ledgerMachine) :
    Safe brokerProtocol R pid (Programs.invoke broker owner task toolId arguments approvalId planHash
      idempotencyKey) (fun _ _ => True) (fun _ _ => True) s := by
  refine Safe.bind (Safe.mono (quiet_safe (quiet_ask (by simp [Request.Quiet])) s) ?_ fun _ _ h => h)
  intro task s _
  split
  · refine quiet_safe ?_ s
    exact .bind (quiet_record ..) fun _ => trivial
  · refine Safe.bind (Safe.mono (quiet_safe (quiet_ask (by simp [Request.Quiet])) s) ?_
      fun _ _ h => h)
    intro denied s _
    split
    · refine quiet_safe ?_ s
      exact .bind (quiet_record ..) fun _ => trivial
    · cases hmanifest : broker.manifest toolId with
      | error e => trivial
      | ok manifest =>
          exact run_safe (v := ⟨owner, broker, task, manifest, toolId, arguments, approvalId, planHash,
            idempotencyKey⟩) hmanifest s

theorem brokered_safe {α : Type} {p : Prog α} (hp : Brokered p) (s : Snapshot ledgerMachine) :
    Safe brokerProtocol R pid p (fun _ _ => True) (fun _ _ => True) s := by
  induction hp generalizing s with
  | quiet h => exact quiet_safe h s
  | invoke broker owner task toolId arguments approvalId planHash idempotencyKey =>
      exact invoke_safe broker owner task toolId arguments approvalId planHash idempotencyKey s
  | bind _ _ ihp ihf => exact Safe.bind ((ihp s).mono (fun a s _ => ihf a s) fun _ _ h => h)
  | except _ _ ihp ihh => exact Safe.except ((ihp s).mono (fun _ _ h => h) fun e s _ => ihh e s)

end Dante
