import Dante.Verification.Brokered

/-! # No handler is started twice for one claim -/

namespace Dante

open JsonText Relational Concurrent

section Runs

variable [Platform] {taskId stepId key : String} {s : Snapshot ledgerMachine}

/-! ## Counting edges of the journal -/

/-- The step named by `k` was certified as not applied. -/
def reopens (k : String × String) : Event Request.Reply Exn → Bool
  | .call _ (.reconcileStep taskId stepId _ _) (.ok .notApplied) => (taskId, stepId) == k
  | _ => false

/-- What the log says of a step: how often it was claimed, and that every claim but one
followed a reconciliation. -/
def Journaled (log : List (Event Request.Reply Exn)) (k : String × String) :
    Option StepRecord → Prop
  | none => log.countP (claims k) = 0
  | some row => row.attempt = log.countP (claims k) ∧
      log.countP (claims k) + (if row.state = .intent then 1 else 0) ≤
        1 + log.countP (reopens k)

omit [Platform] in
theorem claims_eq {k : String × String} {pid : ℕ} {r : Request} {reply : Except Exn r.Reply} :
    claims k (.call pid r reply) = true ↔ stepEventOf k.1 k.2 r reply = some .claimed := by
  cases r with
  | claimStep owner task step =>
      cases reply with
      | ok u => simp [claims, stepEventOf, Prod.ext_iff]
      | error e => simp [claims, stepEventOf]
  | reconcileStep task step artifactId actor =>
      cases reply with
      | ok outcome => cases outcome <;> simp [claims, stepEventOf, Outcome.event]
      | error e => simp [claims, stepEventOf]
  | _ => simp [claims, stepEventOf]

omit [Platform] in
theorem reopens_eq {k : String × String} {pid : ℕ} {r : Request} {reply : Except Exn r.Reply} :
    reopens k (.call pid r reply) = true ↔ stepEventOf k.1 k.2 r reply = some .reopened := by
  cases r with
  | claimStep owner task step =>
      cases reply with
      | ok u => simp [reopens, stepEventOf]
      | error e => simp [reopens, stepEventOf]
  | reconcileStep task step artifactId actor =>
      cases reply with
      | ok outcome => cases outcome <;> simp [reopens, stepEventOf, Outcome.event, Prod.ext_iff]
      | error e => simp [reopens, stepEventOf]
  | _ => simp [reopens, stepEventOf]

omit [Platform] in
theorem countP_after {p : Event Request.Reply Exn → Bool} (log : List (Event Request.Reply Exn))
    (e : Event Request.Reply Exn) :
    (log ++ [e]).countP p = log.countP p + if p e = true then 1 else 0 := by
  rw [List.countP_append, List.countP_singleton]

omit [Platform] in
/-- One edge of the journal keeps the counts. -/
theorem Journaled.step {log : List (Event Request.Reply Exn)} {k : String × String}
    {before after : Option StepRecord} {pid : ℕ} {r : Request} {reply : Except Exn r.Reply}
    (h : Journaled log k before)
    (hstep : JournalStep (stepEventOf k.1 k.2 r reply) before after) :
    Journaled (log ++ [.call pid r reply]) k after := by
  have hclaims := countP_after (p := claims k) log (.call pid r reply)
  have hreopens := countP_after (p := reopens k) log (.call pid r reply)
  simp only [claims_eq] at hclaims
  simp only [reopens_eq] at hreopens
  generalize stepEventOf k.1 k.2 r reply = event at hstep hclaims hreopens
  cases hstep with
  | absent =>
      have hnone : log.countP (claims k) = 0 := h
      simp only [Journaled, hclaims, hnone]
      rfl
  | prepared =>
      have hnone : log.countP (claims k) = 0 := h
      simp [Journaled, hclaims, hnone, StepRecord.prepared]
  | moved hmove =>
      obtain ⟨hattempt, hbound⟩ := h
      cases hmove with
      | stay => exact ⟨by simpa [hclaims] using hattempt, by simpa [hclaims, hreopens] using hbound⟩
      | claimed hintent =>
          rw [if_pos hintent] at hbound
          refine ⟨?_, ?_⟩
          · simp only [hclaims, hattempt, if_true]
          · simp only [hclaims, hreopens, if_true, reduceCtorEq, Option.some.injEq, if_false]
            omega
      | reopened artifactId hdue =>
          rw [if_neg hdue] at hbound
          refine ⟨?_, ?_⟩
          · simpa [hclaims] using hattempt
          · simp only [hclaims, hreopens, if_true, reduceCtorEq, Option.some.injEq, if_false]
            omega
      | finished safe safeDigest hstarted | doubted error hstarted =>
          rw [hstarted] at hbound
          refine ⟨by simpa [hclaims] using hattempt, ?_⟩
          simpa [hclaims, hreopens] using hbound
      | applied safe safeDigest artifactId hdue =>
          rw [if_neg hdue] at hbound
          refine ⟨by simpa [hclaims] using hattempt, ?_⟩
          simpa [hclaims, hreopens] using hbound

omit [Platform] in
theorem Journaled.other {log log' : List (Event Request.Reply Exn)} {k : String × String}
    {row : Option StepRecord} (h : Journaled log k row)
    (hclaims : log'.countP (claims k) = log.countP (claims k))
    (hreopens : log'.countP (reopens k) = log.countP (reopens k)) : Journaled log' k row := by
  unfold Journaled
  rw [hclaims, hreopens]
  exact h

/-- In every run, the journal says of each step what the log says. -/
theorem journaled {R : Rules ledgerMachine} (hstart : ∀ w : World, R.start w → w.Fresh)
    {s : System ledgerMachine} (h : Reachable R s) (k : String × String) :
    Journaled s.snap.log k (s.snap.state.db.stepNamed k.1 k.2) := by
  refine h.snapshot_invariant
    (J := fun s : Snapshot ledgerMachine => Journaled s.log k (s.state.db.stepNamed k.1 k.2)) ?_ ?_ ?_ ?_ ?_
  · intro w hw
    have hempty : w.db = .empty := hstart w hw
    simp only [Database.stepNamed, hempty, Database.empty, Table.find_empty]
    rfl
  · intro s pid r env reply w hs _ hperform
    exact hs.step (perform_journal hperform k.1 k.2)
  · intro s pid hs
    exact hs.other (by simp [claims]) (by simp [reopens])
  · intro s pid hs
    exact hs.other (by simp [claims]) (by simp [reopens])
  · intro s w hs hdrift
    have hsteps : w.db.steps = s.state.db.steps := hdrift.agree (t := .steps) (by simp)
    rwa [Database.stepNamed, hsteps]

/-- A committed claim has moved its step from `intent` to `started`. -/
theorem claimStep_claims {env : Surroundings} {owner : Option Lease} {w w' : World} {u : Unit}
    (h : perform env (.claimStep owner taskId stepId) w = (.ok u, w')) :
    w.db.Claims w'.db taskId stepId := by
  have hmove := perform_journal h taskId stepId
  simp only [stepEventOf, and_self, if_true] at hmove
  unfold Database.Claims Database.stepNamed
  generalize w.db.steps.find (StepRecord.named taskId stepId) = before at hmove ⊢
  generalize w'.db.steps.find (StepRecord.named taskId stepId) = after at hmove ⊢
  cases hmove with
  | moved hmoved =>
      cases hmoved with
      | claimed hintent => exact ⟨_, _, rfl, hintent, rfl, rfl⟩

/-! ## Starts -/

/-- A handler was started for the operation that the task records under `key`. -/
def startsUnder (taskId key : String) : Event Request.Reply Exn → Bool
  | .call _ (.runTool c) _ =>
      c.taskId == taskId &&
        (match c.stepKey with
          | .ok other => other == key
          | .error _ => false)
  | _ => false

/-- The last thing a process did before it started a handler was to claim the handler's step. -/
def Claimed (log : List (Event Request.Reply Exn)) : Prop :=
  ∀ before pid c reply, before ++ [.call pid (.runTool c) reply] <+: log →
    ∃ owner earlier between,
      before = earlier ++ .call pid (.claimStep owner c.taskId c.stepId) (.ok ()) :: between ∧
        ∀ e ∈ between, e.pid ≠ pid

/-- The steps of all started handlers are recorded under the keys of their calls. -/
def StartsRecorded (s : Snapshot ledgerMachine) : Prop :=
  ∀ pid c reply, .call pid (.runTool c) reply ∈ s.log → ∃ key row, c.stepKey = .ok key ∧
    s.state.db.stepNamed c.taskId c.stepId = some row ∧ row.idempotencyKey = key

omit [Platform] in
theorem Claimed.append {log : List (Event Request.Reply Exn)} {e : Event Request.Reply Exn}
    (h : Claimed log) (he : ∀ pid c reply, e = .call pid (.runTool c) reply →
      ∃ owner, (ownLog pid log).getLast? =
        some (.call pid (.claimStep owner c.taskId c.stepId) (.ok ()))) :
    Claimed (log ++ [e]) := by
  intro before pid c reply hinit
  rcases List.prefix_concat_iff.mp hinit with hlast | hearlier
  · obtain ⟨rfl, hevent⟩ := List.append_inj' hlast rfl
    obtain ⟨owner, hclaim⟩ := he pid c reply (by simpa using hevent.symm)
    obtain ⟨earlier, between, hsplit, hothers⟩ := Credit.own_getLast hclaim
    exact ⟨owner, earlier, between, hsplit, hothers⟩
  · exact h before pid c reply hearlier

theorem StartsRecorded.after {e : Event Request.Reply Exn} {w : World} (h : StartsRecorded s)
    (hkeys : s.state.db.KeepsKeys w.db) (he : ∀ pid c reply, e = .call pid (.runTool c) reply →
      ∃ key row, c.stepKey = .ok key ∧ s.state.db.stepNamed c.taskId c.stepId = some row ∧
        row.idempotencyKey = key) :
    StartsRecorded (s.after w e) := by
  intro pid c reply hmem
  have hbefore : ∃ key row, c.stepKey = .ok key ∧
      s.state.db.stepNamed c.taskId c.stepId = some row ∧ row.idempotencyKey = key := by
    rcases List.mem_append.mp hmem with hold | hnew
    · exact h pid c reply hold
    · exact he pid c reply (List.mem_singleton.mp hnew).symm
  obtain ⟨key, row, hkey, hrow, hrowkey⟩ := hbefore
  obtain ⟨row', hrow', hkey'⟩ := hkeys _ _ row hrow
  exact ⟨key, row', hkey, hrow', hkey'.trans hrowkey⟩

/-- Both hold in every run of brokered programs. -/
theorem starts_accounted {s : System ledgerMachine} (h : Reachable brokeredRun s) :
    Claimed s.snap.log ∧ StartsRecorded s.snap := by
  refine h.permitted_invariant (J := fun s => Claimed s.log ∧ StartsRecorded s)
    brokerProtocol_sound (fun p hp pid s _ _ => brokered_safe hp _) ?_ ?_ ?_ ?_ ?_
  · intro w _
    refine ⟨fun before pid c reply hinit => ?_, fun pid c reply hmem => by cases hmem⟩
    simp at hinit
  · intro s pid r env reply w _ hs _ hpermit hperform
    refine ⟨hs.1.append fun pid' c reply' hevent => ?_,
      hs.2.after (perform_keepsKeys hperform) fun pid' c reply' hevent => ?_⟩
    · cases hevent
      exact (hpermit c rfl).claimed
    · cases hevent
      exact (hpermit c rfl).keyed
  · intro s pid hs
    refine ⟨hs.1.append (fun _ _ _ hevent => ?_), hs.2.after (.refl _) fun _ _ _ hevent => ?_⟩
    · cases hevent
    · cases hevent
  · intro s pid hs
    refine ⟨hs.1.append (fun _ _ _ hevent => ?_), hs.2.after (.refl _) fun _ _ _ hevent => ?_⟩
    · cases hevent
    · cases hevent
  · intro s w hs hdrift
    refine ⟨hs.1, fun pid c reply hmem => ?_⟩
    obtain ⟨key, row, hkey, hrow, hrowkey⟩ := hs.2 pid c reply hmem
    obtain ⟨row', hrow', hkey'⟩ := hdrift.keepsKeys _ _ row hrow
    exact ⟨key, row', hkey, hrow', hkey'.trans hrowkey⟩

theorem startsUnder_eq {e : Event Request.Reply Exn} (h : startsUnder taskId key e = true) :
    ∃ pid c reply, e = .call pid (.runTool c) reply ∧ c.taskId = taskId ∧
      c.stepKey = .ok key := by
  cases e with
  | spawn pid => cases h
  | crash pid => cases h
  | call pid r reply =>
      cases r with
      | runTool c =>
          simp only [startsUnder, Bool.and_eq_true, beq_iff_eq] at h
          obtain ⟨htask, hkey⟩ := h
          refine ⟨pid, c, reply, rfl, htask, ?_⟩
          cases hc : c.stepKey with
          | ok other => simpa [hc] using hkey
          | error e => simp [hc] at hkey
      | _ => cases h

/-- Every start under a key is a start of the one step recorded under it. -/
theorem StartsRecorded.under (h : StartsRecorded s) {e : Event Request.Reply Exn}
    (he : e ∈ s.log) (hunder : startsUnder taskId key e = true) :
    ∃ row, s.state.db.steps.find (StepRecord.keyed taskId key) = some row ∧
      starts (taskId, row.stepId) e = true := by
  obtain ⟨pid, c, reply, rfl, rfl, hkey⟩ := startsUnder_eq hunder
  obtain ⟨other, row, hother, hrow, rfl⟩ := h pid c reply he
  cases hkey.symm.trans hother
  have hnamed := named_of_find hrow
  refine ⟨row, ?_, by simp [starts, hnamed.2]⟩
  refine (Table.find_eq_some_iff (StepRecord.keyed_determines _ _)).mpr ⟨Table.mem_of_find hrow, ?_⟩
  simp [StepRecord.keyed, hnamed.1]

/-- The starts for one operation of a task are paid for by the claims of its one step. -/
theorem startsUnder_le (h : StartsRecorded s)
    (hsolvent : Credit.Solvent Event.pid claims starts s.log) {row : StepRecord}
    (hrow : s.state.db.steps.find (StepRecord.keyed taskId key) = some row) :
    s.log.countP (startsUnder taskId key) ≤ s.log.countP (claims (taskId, row.stepId)) := by
  refine le_trans (List.countP_mono_left fun e he hunder => ?_) (hsolvent.total (taskId, row.stepId))
  obtain ⟨other, hother, hstarts⟩ := h.under he hunder
  cases hrow.symm.trans hother
  exact hstarts

/-- In every run of any number of brokered programs, crashes included: a process starts a
handler only after a claim of its own for it, a claim moves its step from `intent` to
`started`, `attempt` counts the claims, and the handler starts for one operation exceed the
certificates that it was not applied by at most one. -/
theorem at_most_once {s : System ledgerMachine} (h : Reachable brokeredRun s) :
    Claimed s.snap.log ∧
    (∀ s' pid owner taskId stepId, Step brokeredRun s s' →
      s'.snap.log = s.snap.log ++ [.call pid (.claimStep owner taskId stepId) (.ok ())] →
      s.snap.state.db.Claims s'.snap.state.db taskId stepId) ∧
    (∀ taskId stepId row, s.snap.state.db.stepNamed taskId stepId = some row →
      row.attempt = s.snap.log.countP (claims (taskId, stepId))) ∧
    ∀ taskId key, s.snap.log.countP (startsUnder taskId key) ≤
      match s.snap.state.db.steps.find (StepRecord.keyed taskId key) with
      | none => 0
      | some row => 1 + s.snap.log.countP (reopens (taskId, row.stepId)) := by
  have hfresh : ∀ w : World, brokeredRun.start w → w.Fresh := fun _ hw => hw
  obtain ⟨hclaimed, hrecorded⟩ := starts_accounted h
  have hsolvent := (h.keeps brokerProtocol_sound fun p hp pid s _ _ => brokered_safe hp _).inv.1
  refine ⟨hclaimed, fun s' pid owner taskId stepId hstep hlog => ?_,
    fun taskId stepId row hrow => ?_, fun taskId key => ?_⟩
  · obtain ⟨env, hperform⟩ := hstep.performed hlog
    exact claimStep_claims hperform
  · have hjournaled := journaled hfresh h (taskId, stepId)
    rw [hrow] at hjournaled
    exact hjournaled.1
  · cases hfind : s.snap.state.db.steps.find (StepRecord.keyed taskId key) with
    | none =>
        refine Nat.le_of_eq (List.countP_eq_zero.mpr fun e he hunder => ?_)
        obtain ⟨row, hrow, -⟩ := hrecorded.under he hunder
        cases hfind.symm.trans hrow
    | some row =>
        have hjournaled := journaled hfresh h (taskId, row.stepId)
        rw [(stepNamed_of_keyed hfind).1] at hjournaled
        have hstarts := startsUnder_le hrecorded hsolvent hfind
        have hclaims := hjournaled.2
        simp only at hclaims ⊢
        omega

end Runs

section Invoked

local instance atMostOnceInvoked : Platform := .reference []

/-- A task runs one tool. -/
def Sample.invocation : Prog Unit :=
  (Programs.invoke (broker "never") none task "write" [] none "plan" none).bind fun _ => .ret ()

/-- The tool succeeds. -/
def Sample.invoked : System ledgerMachine :=
  (((Sample.fresh []).script [(moment 0 "", .createTask task none)]).started
    invocation).driven 1 (List.replicate 12 (answering 0 "step" [("ok", .bool true)]))

theorem Sample.invoked_reachable : Reachable brokeredRun Sample.invoked := by
  have hcreated : Steps brokeredRun (Sample.fresh [])
      ((Sample.fresh []).script [(moment 0 "", .createTask task none)]) := by
    refine Steps.script (fun x hx => ?_) (fun _ _ _ _ => trivial) _
    rw [List.mem_singleton.mp hx]
    exact .quiet ⟨fun _ hc => (by cases hc), fun _ => trivial⟩
  have hprogram : Brokered Sample.invocation :=
    .bind (.invoke ..) fun _ => .quiet trivial
  exact (((Reachable.start _ rfl).steps hcreated).step (.spawn _ _ hprogram)).steps
    (Steps.driven (fun _ _ _ => trivial) _ _ _)

theorem at_most_once_invoked :
    ∃ row, Sample.invoked.snap.state.db.stepNamed "task" "step" = some row ∧ row.attempt = 1 ∧
      Sample.invoked.snap.log.countP (startsUnder "task" row.idempotencyKey) ≤ 1 := by
  obtain ⟨row, hrow, hfind⟩ : ∃ row ∈ Sample.invoked.snap.state.db.stepNamed "task" "step",
      ∃ other ∈ Sample.invoked.snap.state.db.steps.find
        (StepRecord.keyed "task" row.idempotencyKey), other.stepId = "step" := by
    decide +kernel
  obtain ⟨other, hother, hid⟩ := hfind
  obtain ⟨-, -, hattempt, hstarts⟩ := at_most_once Sample.invoked_reachable
  have hbound := hstarts "task" row.idempotencyKey
  rw [hother] at hbound
  simp only [hid] at hbound
  have hreopens : Sample.invoked.snap.log.countP (reopens ("task", "step")) = 0 := by
    decide +kernel
  have hclaims : Sample.invoked.snap.log.countP (claims ("task", "step")) = 1 := by
    decide +kernel
  exact ⟨row, hrow, (hattempt _ _ row hrow).trans hclaims, by simpa [hreopens] using hbound⟩

end Invoked

end Dante
