import Dante.Verification.QueueProtocol

/-! # Work under a lease

What a worker knows of its task from the claim to the release: the actions behind the current
one are done, and no step is in flight but the one it has claimed. -/

namespace Dante

open JsonText Relational Concurrent Program

variable [Platform] {α β : Type} {env : Surroundings} {r : Request} {w w' : World}
  {s s' : Snapshot ledgerMachine} {pid : ℕ} {taskId stepId : String} {lease : Lease}
  {actions : List Action} {taken taken' : Prop} {flying flying' : String → Prop} {index : ℕ}

/-! ## The holder of a lease -/

/-- While the lease is current, the status of the task is one of `P`. -/
def Stands (lease : Lease) (P : TaskStatus → Prop) (s : Snapshot ledgerMachine) : Prop :=
  s.state.db.Leased lease → ∀ status, (s.state.db.view lease.taskId).status = some status → P status

/-- The process works on the actions of its task under its only lease, and has come to `index`. It
has taken the task up where `taken` holds, and only the steps of `flying` may be in flight. -/
structure AtWork (pid : ℕ) (lease : Lease) (actions : List Action) (taken : Prop)
    (flying : String → Prop) (index : ℕ) (s : Snapshot ledgerMachine) : Prop where
  owns : OwnsLease pid lease s
  queued : ∃ row, s.state.db.queue.get? lease.taskId = some row ∧ row.plan.actions = actions
  done : s.state.db.Leased lease → ∀ earlier < index, s.state.db.Done lease.taskId earlier
  begun : taken → Stands lease (fun status => status.begun = true) s
  flights : s.state.db.Leased lease → ∀ stepId, s.state.db.InFlight lease.taskId stepId →
    flying stepId
  others : ∀ other, OwnsLease pid other s → other = lease ∨ ¬s.state.db.Leased other

/-- The task is taken up, and no step is in flight. -/
abbrev Quiesced (pid : ℕ) (lease : Lease) (actions : List Action) (index : ℕ)
    (s : Snapshot ledgerMachine) : Prop :=
  AtWork pid lease actions True (fun _ => False) index s

/-- What an exception leaves: only a lost lease leaves a step in flight, and only a cancellation
can come before the task is taken up. -/
abbrev Broken (pid : ℕ) (lease : Lease) (actions : List Action) (e : Exn)
    (s : Snapshot ledgerMachine) : Prop :=
  AtWork pid lease actions (e ≠ .leaseLost ∧ e ≠ .cancellationRequested) (fun _ => e = .leaseLost) 0 s

theorem AtWork.mono {i j : ℕ} (h : AtWork pid lease actions taken flying i s)
    (htaken : taken' → taken) (hflying : ∀ id, flying id → flying' id) (hle : j ≤ i) :
    AtWork pid lease actions taken' flying' j s where
  owns := h.owns
  queued := h.queued
  done hleased earlier hearlier := h.done hleased earlier (Nat.lt_of_lt_of_le hearlier hle)
  begun hup := h.begun (htaken hup)
  flights hleased stepId hflight := hflying stepId (h.flights hleased stepId hflight)
  others := h.others

theorem AtWork.broken (h : Quiesced pid lease actions index s) (e : Exn) :
    Broken pid lease actions e s :=
  h.mono (fun _ => trivial) (fun _ hnone => hnone.elim) (Nat.zero_le _)

/-- The task is still queued with these actions. -/
theorem AtWork.row (h : AtWork pid lease actions taken flying index s) {row : QueueRow}
    (hrow : s.state.db.queue.get? lease.taskId = some row) : row.plan.actions = actions := by
  obtain ⟨queued, hqueued, hactions⟩ := h.queued
  cases hqueued.symm.trans hrow
  exact hactions

theorem Stands.rely {P : TaskStatus → Prop} (h : Stands lease P s) (howns : OwnsLease pid lease s)
    (hrely : LeaseRely pid s s') : Stands lease P s' := by
  intro hleased
  rw [hrely.status lease howns hleased]
  exact h (hrely.leased lease howns hleased)

/-- A process comes to a lease by its own requests only. -/
theorem OwnsLease.back {held : Lease} (h : OwnsLease pid held s')
    (hown : ownLog pid s'.log = ownLog pid s.log) : OwnsLease pid held s := by
  obtain ⟨workerId, leaseS, hmem⟩ := h
  refine ⟨workerId, leaseS, ?_⟩
  have hself : Event.call pid (.claim workerId leaseS) (.ok (some held)) ∈ ownLog pid s'.log :=
    List.mem_filter.mpr ⟨hmem, by simp [Event.pid]⟩
  rw [hown] at hself
  exact List.mem_of_mem_filter hself

theorem AtWork.rely (h : AtWork pid lease actions taken flying index s) (hrely : LeaseRely pid s s') :
    AtWork pid lease actions taken flying index s' where
  owns := h.owns.mono hrely.log
  queued := by
    obtain ⟨row, hrow, hactions⟩ := h.queued
    obtain ⟨row', hrow', hplan⟩ := hrely.queued _ row hrow
    exact ⟨row', hrow', hplan ▸ hactions⟩
  done hleased earlier hearlier := by
    have hbefore := hrely.leased lease h.owns hleased
    exact hrely.done lease h.owns hleased earlier (h.done hbefore earlier hearlier)
  begun hup := (h.begun hup).rely h.owns hrely
  flights hleased stepId hflight := by
    have hbefore := hrely.leased lease h.owns hleased
    exact h.flights hbefore stepId (hrely.inFlight lease h.owns hleased stepId hflight)
  others other hother := by
    have hbefore := hother.back hrely.own
    exact (h.others other hbefore).imp_right fun hfree hleased =>
      hfree (hrely.leased other hbefore hleased)

/-- The request moves the task to no status but those of a task that is taken up. -/
def Request.Onward (lease : Lease) (r : Request) : Prop :=
  ∀ owner target currentStep metadata,
    r = .transition owner lease.taskId target currentStep metadata → target.begun = true

/-- Under a current lease the status changes with a transition only. -/
theorem Stands.after {P : TaskStatus → Prop} {reply : Except Exn r.Reply} (h : Stands lease P s)
    (hadmits : leaseRun.admits pid r s) (howns : OwnsLease pid lease s)
    (hperform : ledgerMachine.perform env r s.state = (reply, w))
    (htarget : ∀ owner target currentStep metadata,
      r = .transition owner lease.taskId target currentStep metadata → P target) :
    Stands lease P (s.after w (.call pid r reply)) := by
  intro hleased status hstatus
  have hbefore := leased_back hperform (hadmits.2.granted _ lease howns.granted) hleased
  rcases (perform_lifecycle hperform lease.taskId).status_cases with
    hsame | ⟨target, hmove, hmoved⟩ | hnone | ⟨row, hrow, hfree⟩
  · exact h hbefore status (hsame.symm.trans hstatus)
  · cases hmoved.symm.trans hstatus
    obtain ⟨owner, currentStep, metadata, hr⟩ := transition_of_move hmove
    exact htarget _ _ _ _ hr
  · obtain ⟨row, hrow, -⟩ := hbefore
    obtain ⟨taskRow, htask, -⟩ := (hadmits.2.numbered lease.taskId).task hrow
    simp [Database.view, htask] at hnone
  · obtain ⟨row', hrow', hheld⟩ := hleased
    cases hrow'.symm.trans hrow
    exact absurd hheld.2.1 hfree

/-- Its own requests put a step in flight only by claiming it. -/
theorem AtWork.after {reply : Except Exn r.Reply} (h : AtWork pid lease actions taken flying index s)
    (hadmits : leaseRun.admits pid r s) (hperform : ledgerMachine.perform env r s.state = (reply, w))
    (hclaim : ∀ workerId leaseS, r ≠ .claim workerId leaseS) (honward : taken → r.Onward lease) :
    AtWork pid lease actions taken
      (fun id => flying id ∨ ∃ owner answer, r = .claimStep owner lease.taskId id ∧
        reply = .ok answer)
      index (s.after w (.call pid r reply)) := by
  have hback (hleased : w.db.Leased lease) : s.state.db.Leased lease :=
    leased_back hperform (hadmits.2.granted _ lease h.owns.granted) hleased
  constructor
  · exact h.owns.mono fun _ he => List.mem_append_left _ he
  · obtain ⟨row, hrow, hactions⟩ := h.queued
    obtain ⟨row', hrow', hplan⟩ := queued_stays hperform hrow
    exact ⟨row', hrow', hplan ▸ hactions⟩
  · intro hleased earlier hearlier
    obtain ⟨row, hrow, hheld⟩ := hback hleased
    exact done_kept hadmits.1 hperform hrow (.inr hheld.2.1)
      (h.done (hback hleased) earlier hearlier)
  · exact fun hup => (h.begun hup).after hadmits h.owns hperform (honward hup)
  · intro hleased stepId hflight
    exact (inFlight_perform hperform hflight).imp (h.flights (hback hleased) stepId) id
  · intro other hother
    rcases hother.after_cases with hbefore | ⟨-, workerId, leaseS, hr, -⟩
    · refine (h.others other hbefore).imp_right fun hfree hleased => hfree ?_
      exact leased_back hperform (hadmits.2.granted _ other hbefore.granted) hleased
    · exact absurd hr (hclaim workerId leaseS)

/-- Requests that take neither a lease nor a step. -/
def Request.Calm : Request → Prop
  | .claim .. | .claimStep .. => False
  | _ => True

theorem AtWork.call {reply : Except Exn r.Reply} (h : AtWork pid lease actions taken flying index s)
    (hadmits : leaseRun.admits pid r s) (hperform : ledgerMachine.perform env r s.state = (reply, w))
    (hcalm : r.Calm) (honward : taken → r.Onward lease) :
    AtWork pid lease actions taken flying index (s.after w (.call pid r reply)) := by
  have hclaim (workerId : String) (leaseS : ℚ) : r ≠ .claim workerId leaseS := by
    rintro rfl
    exact hcalm
  refine (h.after hadmits hperform hclaim honward).mono id (fun id hflying => ?_) le_rfl
  rcases hflying with hflying | ⟨owner, answer, rfl, -⟩
  · exact hflying
  · exact hcalm.elim

/-! ## Requests that are always permitted to it -/

/-- Requests that a worker may make at any time under its lease. -/
def Request.Harmless (lease : Lease) : Request → Prop
  | .transition owner _ target _ _ =>
      owner = some lease ∧ target ≠ .completed ∧ target.begun = true
  | .prepareStep .. | .claimStep .. | .runTool .. | .finishStep .. | .claim .. | .advance ..
  | .release .. => False
  | _ => True

theorem Request.Harmless.permittedTo (hr : r.Harmless lease) (howns : OwnsLease pid lease s) :
    r.PermittedTo pid s := by
  cases r with
  | transition owner taskId target currentStep metadata =>
      obtain ⟨rfl, hcompleted, hbegun⟩ := hr
      refine ⟨?_, lease, rfl, howns, fun h => absurd h hcompleted⟩
      rintro rfl
      cases hbegun
  | prepareStep | claimStep | runTool | finishStep | claim | advance | release => cases hr
  | _ => trivial

omit [Platform] in
theorem Request.Harmless.calm (hr : r.Harmless lease) : r.Calm := by
  cases r with
  | claim | claimStep => exact hr
  | _ => trivial

omit [Platform] in
theorem Request.Harmless.onward (hr : r.Harmless lease) : r.Onward lease := by
  intro owner target currentStep metadata h
  subst h
  exact hr.2.2

/-- The safety of a part of a worker. -/
abbrev WorkSafe (pid : ℕ) (p : Prog α) (Q : α → Snapshot ledgerMachine → Prop)
    (E : Exn → Snapshot ledgerMachine → Prop) (s : Snapshot ledgerMachine) : Prop :=
  Safe queueProtocol leaseRun pid p Q E s

theorem uses_at_work {p : Prog α} (hp : p.Uses (Request.Harmless lease))
    (hs : AtWork pid lease actions taken flying index s) :
    WorkSafe pid p (fun _ => AtWork pid lease actions taken flying index)
      (fun _ => AtWork pid lease actions taken flying index) s := by
  refine Safe.of_keeps ?_ ?_ ?_ hp hs
  · intro r s hr hs _ _
    exact hr.permittedTo hs.owns
  · exact fun _ _ hrely hs => hs.rely hrely
  · intro s r env reply st hr hs _ hadmits hperform
    exact hs.call hadmits hperform hr.calm fun _ => hr.onward

/-- One such request, with what the reply says. -/
theorem ask_at_work {G : r.Reply → Prop} (hr : r.Harmless lease)
    (hreply : ∀ env w a w', perform env r w = (.ok a, w') → G a)
    (hs : AtWork pid lease actions taken flying index s) :
    WorkSafe pid (ask r) (fun a s => G a ∧ AtWork pid lease actions taken flying index s)
      (fun _ => AtWork pid lease actions taken flying index) s := by
  refine Safe.call fun s₀ hrely _ hadmits => ?_
  have hwork := hs.rely hrely
  refine ⟨hr.permittedTo hwork.owns, ?_, ?_⟩
  · intro env a st hperform
    exact ⟨hreply _ _ _ _ hperform, hwork.call hadmits hperform hr.calm fun _ => hr.onward⟩
  · intro env e st hperform
    exact hwork.call hadmits hperform hr.calm fun _ => hr.onward

omit [Platform] in
theorem getTask_named {task : Task} {db : Database} (h : getTask taskId db = .ok task) :
    task.taskId = taskId := by
  obtain ⟨row, hrow, rfl⟩ := getTask_ok.mp h
  exact Table.primary_of_get? hrow

theorem getTask_at_work (hs : AtWork pid lease actions taken flying index s) :
    WorkSafe pid (ask (.getTask taskId))
      (fun (task : Task) s => task.taskId = taskId ∧ AtWork pid lease actions taken flying index s)
      (fun _ => AtWork pid lease actions taken flying index) s := by
  refine ask_at_work (r := .getTask taskId) trivial ?_ hs
  intro env w task w' hperform
  exact getTask_named (congrArg Prod.fst hperform)

theorem transition_at_work {target : TaskStatus} {currentStep : Option String}
    {metadata : Dict Json} (htarget : target ≠ .completed)
    (hbegun : target.begun = true) (hs : AtWork pid lease actions taken flying index s) :
    WorkSafe pid (ask (.transition (some lease) taskId target currentStep metadata))
      (fun (task : Task) s => task.taskId = taskId ∧ AtWork pid lease actions taken flying index s)
      (fun _ => AtWork pid lease actions taken flying index) s := by
  refine ask_at_work (r := .transition (some lease) taskId target currentStep metadata)
    ⟨rfl, htarget, hbegun⟩ ?_ hs
  intro env w task w' hperform
  rcases commit_cases hperform with ⟨_, db', hx, hanswer, -⟩ | ⟨_, -, herror, -⟩
  · cases hanswer
    obtain ⟨row, hrow, ⟨-, rfl, -⟩ | ⟨rfl, -⟩⟩ := transition_ok hx
    · exact Table.primary_of_get? hrow
    · exact Table.primary_of_get? hrow
  · cases herror

/-! ## Preparing the step of an action -/

omit [Platform] in
theorem verifiedStepResult_harmless (taskId stepId : String) :
    (Programs.verifiedStepResult taskId stepId).Uses (Request.Harmless lease) := by
  apply Uses.bind (.call trivial)
  intro step
  apply Uses.bind (.call trivial)
  intro result
  cases given step.evidenceRef with
  | none => trivial
  | some ref =>
      apply Uses.bind
      · apply Uses.except (.call trivial)
        intro e
        trivial
      · intro artifact
        trivial

theorem record_harmless (task : Task) (toolId : String) (result : ToolResult)
    (stepId : Option String) :
    (Programs.record task toolId result stepId).Uses (Request.Harmless lease) :=
  Uses.bind (.ofExcept _) fun _ => .call trivial

theorem authorize_harmless (broker : ToolBroker) (task : Task) (toolId : String)
    (arguments : Dict Json) (approvalId : Option String) (planHash : String) :
    (Programs.authorize broker task toolId arguments approvalId planHash).Uses
      (Request.Harmless lease) := by
  apply Uses.bind (.ofExcept _)
  intro manifest
  apply Uses.ite
  · exact fun _ => trivial
  · intro _
    cases approvalId with
    | none => trivial
    | some approvalId =>
        apply Uses.bind (.ofExcept _)
        intro hash
        apply Uses.except
        · apply Uses.bind (.call trivial)
          intro u
          trivial
        · intro e
          cases e <;> trivial

omit [Platform] in
theorem yields_ofExcept {G : α → Prop} {f : β → Prog α} (x : Except Exn β)
    (hf : ∀ b, (f b).Yields G) : ((ofExcept x).bind f).Yields G := by
  cases x with
  | ok b => exact hf b
  | error e => trivial

/-- What authorising answers is a denial. -/
theorem authorize_denies (broker : ToolBroker) (task : Task) (toolId : String)
    (arguments : Dict Json) (approvalId : Option String) (planHash : String) :
    (Programs.authorize broker task toolId arguments approvalId planHash).Yields
      fun denied => ∀ result, denied = some result → result.status ≠ .success := by
  apply yields_ofExcept
  intro manifest
  split
  · exact nofun
  · cases approvalId with
    | none =>
        intro result hresult
        cases hresult
        decide
    | some approvalId =>
        apply yields_ofExcept
        intro hash reply
        cases reply with
        | ok u => exact nofun
        | error e =>
            cases e with
            | permissionError message =>
                intro result hresult
                cases hresult
                decide
            | _ => trivial

/-- The invocation is that of the planned action. -/
structure Programs.Invocation.Plays (v : Programs.Invocation) (lease : Lease) (actions : List Action)
    (index : ℕ) : Prop where
  owner : v.owner = some lease
  task : v.task.taskId = lease.taskId
  key : v.idempotencyKey = some (actionKey index)
  planned : ∃ action, actions[index]? = some action ∧ v.toolId = action.toolId ∧
    v.arguments = action.arguments

variable {v : Programs.Invocation}

omit [Platform] in
theorem Programs.Invocation.Plays.lt (hv : v.Plays lease actions index) :
    index < actions.length := by
  obtain ⟨action, haction, -⟩ := hv.planned
  exact (List.getElem?_eq_some_iff.mp haction).1

/-- The step of the current action is known. -/
structure Known (pid : ℕ) (lease : Lease) (actions : List Action) (index : ℕ) (stepId : String)
    (s : Snapshot ledgerMachine) : Prop where
  quiesced : Quiesced pid lease actions index s
  recorded : s.state.db.Records lease.taskId index stepId

theorem Database.Records.after {reply : Except Exn r.Reply} {e : Event Request.Reply Exn}
    (h : s.state.db.Records taskId index stepId)
    (hperform : ledgerMachine.perform env r s.state = (reply, w)) :
    (s.after w e).state.db.Records taskId index stepId :=
  records_perform hperform h

theorem Known.rely (h : Known pid lease actions index stepId s) (hrely : LeaseRely pid s s') :
    Known pid lease actions index stepId s' :=
  ⟨h.quiesced.rely hrely, hrely.recorded _ _ _ h.recorded⟩

/-- The step that `prepare_step` finds or makes is that of the action. -/
theorem records_of_prepareStep {owner : Option Lease} {toolId toolVersion newId : String}
    {arguments : Dict Json} {clock : ℕ → ℚ} {db db' : Database} {prepared : Prepared}
    (h : prepareStep owner taskId toolId toolVersion arguments (some (actionKey index)) clock newId
      db = .ok (prepared, db')) :
    (∃ step, prepared = .existing step ∧ db'.Records taskId index step.stepId) ∨
      ∃ id, prepared = .created id ∧ db'.Records taskId index id := by
  obtain ⟨argsDigest, key, row, -, hkey, -, -, -, hfound⟩ := prepareStep_ok h
  rcases hfound with ⟨step, rfl, rfl, hstep, -⟩ | ⟨rfl, hnew⟩
  · exact .inl ⟨step, rfl, step, (actionStep_of_key hkey).trans hstep, rfl⟩
  · have hnamed := hnew.stepNamed
    refine .inr ⟨newId, rfl, _, actionStep_iff.mpr ⟨?_, hnamed⟩, (named_of_find hnamed).2⟩
    exact hkey

theorem prepareStep_at_work {toolVersion : String} (hv : v.Plays lease actions index)
    (hs : Quiesced pid lease actions index s) :
    WorkSafe pid (Programs.prepareStep v.owner v.task.taskId v.toolId toolVersion v.arguments
      v.idempotencyKey) (fun step => Known pid lease actions index step.stepId)
      (fun _ => Quiesced pid lease actions index) s := by
  rw [hv.task, hv.key]
  apply Safe.bind
  refine Safe.call fun s₀ hrely _ hadmits => ?_
  have hwork := hs.rely hrely
  refine ⟨?_, ?_, ?_⟩
  · intro row hrow
    exact ⟨index, by rw [hwork.row hrow]; exact hv.lt, rfl⟩
  · intro env prepared st hperform
    have hnext := hwork.call hadmits hperform trivial (by simp [Request.Onward])
    rcases commit_cases hperform with ⟨answer, db', hx, hanswer, rfl⟩ | ⟨_, -, herror, -⟩
    · cases hanswer
      rcases records_of_prepareStep hx with ⟨step, rfl, hrecords⟩ | ⟨id, rfl, hrecords⟩
      · exact ⟨hnext, hrecords⟩
      · refine Safe.call fun s₁ hrely₁ _ hadmits₁ => ?_
        have hknown : Known pid lease actions index id s₁ := Known.rely ⟨hnext, hrecords⟩ hrely₁
        refine ⟨trivial, ?_, ?_⟩
        · intro env' step st' hread
          have hstays := hknown.quiesced.call hadmits₁ hread trivial (by simp [Request.Onward])
          have hfound : s₁.state.db.stepNamed lease.taskId id = some step :=
            orRaise_eq_ok.mp (congrArg Prod.fst hread)
          rw [(named_of_find hfound).2]
          exact ⟨hstays, hknown.recorded.after hread⟩
        · intro env' e st' hread
          exact hknown.quiesced.call hadmits₁ hread trivial (by simp [Request.Onward])
    · cases herror
  · intro env e st hperform
    exact hwork.call hadmits hperform trivial (by simp [Request.Onward])

/-! ## Executing the step -/

/-- The step of the current action has been claimed. -/
structure InHand (pid : ℕ) (lease : Lease) (actions : List Action) (index : ℕ) (stepId : String)
    (s : Snapshot ledgerMachine) : Prop where
  work : AtWork pid lease actions True (· = stepId) index s
  recorded : s.state.db.Records lease.taskId index stepId
  active : Stands lease (fun status => status.terminal = false) s

theorem InHand.rely (h : InHand pid lease actions index stepId s) (hrely : LeaseRely pid s s') :
    InHand pid lease actions index stepId s' where
  work := h.work.rely hrely
  recorded := hrely.recorded _ _ _ h.recorded
  active := h.active.rely h.work.owns hrely

theorem InHand.call {reply : Except Exn r.Reply} (h : InHand pid lease actions index stepId s)
    (hadmits : leaseRun.admits pid r s) (hperform : ledgerMachine.perform env r s.state = (reply, w))
    (hcalm : r.Calm)
    (hmoved : ∀ owner taskId target currentStep metadata,
      r ≠ .transition owner taskId target currentStep metadata) :
    InHand pid lease actions index stepId (s.after w (.call pid r reply)) where
  work := h.work.call hadmits hperform hcalm fun _ _ _ _ _ hr => absurd hr (hmoved _ _ _ _ _)
  recorded := h.recorded.after hperform
  active := h.active.after hadmits h.work.owns hperform fun _ _ _ _ hr =>
    absurd hr (hmoved _ _ _ _ _)

/-- Where the lease is lost, nothing is asked of the steps in flight. -/
theorem AtWork.of_lost (h : AtWork pid lease actions taken flying index s)
    (hlost : ¬s.state.db.Leased lease) : AtWork pid lease actions taken' flying' index s where
  owns := h.owns
  queued := h.queued
  done := h.done
  begun _ hleased := absurd hleased hlost
  flights hleased := absurd hleased hlost
  others := h.others

/-- The step of the action is no longer in flight. -/
theorem InHand.quiesced (h : InHand pid lease actions index stepId s)
    (hlanded : s.state.db.Leased lease → ¬s.state.db.InFlight lease.taskId stepId) :
    Quiesced pid lease actions index s where
  owns := h.work.owns
  queued := h.work.queued
  done := h.work.done
  begun := h.work.begun
  flights hleased id hflight := by
    obtain rfl := h.work.flights hleased id hflight
    exact hlanded hleased hflight
  others := h.work.others

theorem claimStep_at_work (hv : v.Plays lease actions index)
    (hs : Known pid lease actions index stepId s) :
    WorkSafe pid (ask (.claimStep v.owner v.task.taskId stepId))
      (fun _ => InHand pid lease actions index stepId)
      (fun _ => Quiesced pid lease actions index) s := by
  rw [hv.owner, hv.task]
  refine Safe.call fun s₀ hrely _ hadmits => ?_
  obtain ⟨hwork, hrecorded⟩ := hs.rely hrely
  refine ⟨⟨lease, index, rfl, hwork.owns, hrecorded, hwork.done⟩, ?_, ?_⟩
  · intro env _ st hperform
    constructor
    · refine (hwork.after hadmits hperform (by intros; simp) (by simp [Request.Onward])).mono id (fun other hflying => ?_) le_rfl
      obtain ⟨owner, answer, hclaim, -⟩ := hflying.resolve_left id
      cases hclaim
      rfl
    · exact hrecorded.after hperform
    · intro _ status hstatus
      rcases commit_cases hperform with ⟨_, db', hx, -, rfl⟩ | ⟨_, -, herror, -⟩
      · obtain ⟨row, _, hrow, hlive, -, -, -, rfl⟩ := claimStep_ok hx
        have hbefore : (s₀.state.db.view lease.taskId).status = some row.payload.status := by
          simp [Database.view, hrow]
        cases hbefore.symm.trans hstatus
        exact hlive
      · cases herror
  · intro env e st hperform
    refine (hwork.after hadmits hperform (by intros; simp) (by simp [Request.Onward])).mono id (fun other hflying => ?_) le_rfl
    obtain ⟨owner, answer, -, hanswer⟩ := hflying.resolve_left id
    cases hanswer

/-- A handler was started for the step. -/
def Ran (taskId stepId : String) (s : Snapshot ledgerMachine) : Prop :=
  ∃ other c reply, .call other (.runTool c) reply ∈ s.log ∧ c.taskId = taskId ∧ c.stepId = stepId

theorem Ran.mono (h : Ran taskId stepId s) (hlog : ∀ e ∈ s.log, e ∈ s'.log) :
    Ran taskId stepId s' := by
  obtain ⟨other, c, reply, hmem, hids⟩ := h
  exact ⟨other, c, reply, hlog _ hmem, hids⟩

theorem handler_at_work {step : StepRecord} (hv : v.Plays lease actions index)
    (hs : InHand pid lease actions index step.stepId s) :
    WorkSafe pid (ask (.runTool (v.call step)))
      (fun _ s => InHand pid lease actions index step.stepId s ∧ Ran lease.taskId step.stepId s)
      (fun _ _ => False) s := by
  refine Safe.call fun s₀ hrely _ hadmits => ?_
  have hclaimed := hs.rely hrely
  refine ⟨?_, ?_, ?_⟩
  · intro row hrow
    obtain ⟨action, haction, htool, harguments⟩ := hv.planned
    have hrow : s₀.state.db.queue.get? lease.taskId = some row := hv.task ▸ hrow
    refine ⟨index, ⟨action, ?_, hv.key, htool, harguments⟩, ?_⟩
    · rwa [hclaimed.work.row hrow]
    · have hrecorded : s₀.state.db.Records v.task.taskId index step.stepId := by
        rw [hv.task]
        exact hclaimed.recorded
      exact hrecorded
  · intro env result st hperform
    refine ⟨hclaimed.call hadmits hperform trivial (by intros; simp), ?_⟩
    exact ⟨pid, v.call step, .ok result, List.mem_append_right _ (List.mem_singleton.mpr rfl),
      hv.task, rfl⟩
  · intro env e st hperform
    cases hperform

end Dante
