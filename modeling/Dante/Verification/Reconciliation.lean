import Dante.Verification.AtMostOnce
import Dante.Verification.StepEdges

/-! # Reconciliation of uncertain steps

How often a certificate may reopen a step, and which steps no certificate can settle. -/

namespace Dante

open JsonText Relational Concurrent

section Runs

variable [Platform] {taskId stepId : String} {k : String × String}

/-! ## Attempts and certificates -/

/-- The artifact by which an event certified the step named by `k` as not applied. -/
def certificateIn (k : String × String) : Event Request.Reply Exn → Option String
  | .call _ (.reconcileStep taskId stepId artifactId _) (.ok .notApplied) =>
      if (taskId, stepId) = k then some artifactId else none
  | _ => none

/-- The artifacts that certified the step as not applied, in order. -/
def certificates (k : String × String) (log : List (Event Request.Reply Exn)) : List String :=
  log.filterMap (certificateIn k)

omit [Platform] in
theorem certificateIn_isSome (e : Event Request.Reply Exn) :
    (certificateIn k e).isSome = reopens k e := by
  unfold certificateIn reopens
  split
  · split <;> simp_all
  next hother =>
    split
    · exact (hother _ _ _ _ _ rfl).elim
    · rfl

omit [Platform] in
theorem certificates_length (log : List (Event Request.Reply Exn)) :
    (certificates k log).length = log.countP (reopens k) := by
  induction log with
  | nil => rfl
  | cons e rest ih =>
      have he := certificateIn_isSome (k := k) e
      rw [certificates, List.filterMap_cons, List.countP_cons, ← he, ← ih]
      cases certificateIn k e <;> rfl

/-- A step out of `intent` is one attempt ahead of its certificates. -/
def Balanced (log : List (Event Request.Reply Exn)) (k : String × String) :
    Option StepRecord → Prop
  | none => log.countP (reopens k) = 0
  | some row => row.attempt = log.countP (reopens k) + if row.state = .intent then 0 else 1

omit [Platform] in
theorem Balanced.step {log : List (Event Request.Reply Exn)} {before after : Option StepRecord}
    {pid : ℕ} {r : Request} {reply : Except Exn r.Reply} (h : Balanced log k before)
    (hstep : JournalStep (stepEventOf k.1 k.2 r reply) before after) :
    Balanced (log ++ [.call pid r reply]) k after := by
  have hreopens := countP_after (p := reopens k) log (.call pid r reply)
  simp only [reopens_eq] at hreopens
  generalize stepEventOf k.1 k.2 r reply = event at hstep hreopens
  cases hstep with
  | absent => simpa [Balanced, hreopens] using h
  | prepared => simpa [Balanced, hreopens, StepRecord.prepared] using h.symm
  | @moved event s s' hmove =>
      have hattempt : s.attempt = log.countP (reopens k) + if s.state = .intent then 0 else 1 := h
      simp only [Balanced, hreopens]
      cases hmove with
      | stay => simpa using hattempt
      | claimed hintent =>
          rw [if_pos hintent] at hattempt
          simp only [reduceCtorEq, Option.some.injEq, if_false]
          omega
      | reopened artifactId hdue =>
          rw [if_neg hdue] at hattempt
          simp only [if_true]
          omega
      | finished safe safeDigest hstarted | doubted error hstarted =>
          rw [hstarted] at hattempt
          simpa using hattempt
      | applied safe safeDigest artifactId hdue =>
          rw [if_neg hdue] at hattempt
          simpa using hattempt

omit [Platform] in
theorem Balanced.other {log log' : List (Event Request.Reply Exn)} {row : Option StepRecord}
    (h : Balanced log k row) (hreopens : log'.countP (reopens k) = log.countP (reopens k)) :
    Balanced log' k row := by
  unfold Balanced
  rw [hreopens]
  exact h

theorem balanced {s : System ledgerMachine} (h : Reachable anyRun s) (k : String × String) :
    Balanced s.snap.log k (s.snap.state.db.stepNamed k.1 k.2) := by
  refine h.snapshot_invariant
    (J := fun s : Snapshot ledgerMachine => Balanced s.log k (s.state.db.stepNamed k.1 k.2)) ?_ ?_ ?_ ?_ ?_
  · intro w hw
    have hempty : w.db = .empty := hw
    simp only [Database.stepNamed, hempty, Database.empty, Table.find_empty]
    rfl
  · intro s pid r env reply w hs _ hperform
    exact hs.step (perform_journal hperform k.1 k.2)
  · intro s pid hs
    exact hs.other (by simp [reopens])
  · intro s pid hs
    exact hs.other (by simp [reopens])
  · intro s w hs hdrift
    have hsteps : w.db.steps = s.state.db.steps := hdrift.agree (t := .steps) (by simp)
    rwa [Database.stepNamed, hsteps]

/-- A certificate that a step was not applied is an intact artifact of its task that names the
step, its arguments and this outcome. Each lets the step be claimed once more. -/
theorem reopening_certified {s : System ledgerMachine} (h : Reachable anyRun s) :
    (∀ s' pid taskId stepId artifactId actor, Step anyRun s s' →
      s'.snap.log = s.snap.log ++
        [.call pid (.reconcileStep taskId stepId artifactId actor) (.ok .notApplied)] →
      ∃ row evidence, s.snap.state.db.stepNamed taskId stepId = some row ∧ row.state ≠ .intent ∧
        Unverified s.snap.state.fs row ∧
        Certified s.snap.state.fs s.snap.state.db taskId artifactId row .notApplied evidence) ∧
    ∀ taskId stepId row, s.snap.state.db.stepNamed taskId stepId = some row →
      row.attempt = s.snap.log.countP (claims (taskId, stepId)) ∧
      row.attempt = (certificates (taskId, stepId) s.snap.log).length +
        if row.state = .intent then 0 else 1 := by
  refine ⟨fun s' pid taskId stepId artifactId actor hstep hlog => ?_,
    fun taskId stepId row hrow => ⟨?_, ?_⟩⟩
  · obtain ⟨env, hperform⟩ := hstep.performed hlog
    obtain ⟨db', hx, -⟩ := commit_ok hperform
    obtain ⟨_, row, evidence, _, _, -, hrow, hdue, hunverified, hcertified, -⟩ :=
      reconcileStep_certified hx
    exact ⟨row, evidence, hrow, hdue, hunverified, hcertified⟩
  · have hjournaled := journaled (fun _ hw => hw) h (taskId, stepId)
    rw [hrow] at hjournaled
    exact hjournaled.1
  · have hbalanced := balanced h (taskId, stepId)
    rw [hrow] at hbalanced
    rw [certificates_length]
    exact hbalanced

/-! ## Receipts -/

/-- A receipt as `receipt` makes it. -/
def Receipted (safe : Dict Json) : Prop :=
  ∃ fs result workspace, receipt fs result workspace = .ok safe

/-- What a receipt may look like. -/
theorem Receipted.cases {safe : Dict Json} (h : Receipted safe) :
    safe = [("ok", .bool true)] ∨ ∃ path checksum,
      safe = [("ok", .bool true), ("path", .str path), ("checksum_sha256", .str checksum)] := by
  obtain ⟨fs, result, workspace, h⟩ := h
  simp only [receipt, Except.bind_eq_ok] at h
  obtain ⟨-, -, h⟩ := h
  split at h
  · simp only [Except.bind_eq_ok] at h
    obtain ⟨path, -, inside, -, h⟩ := h
    split at h
    · simp only [Except.bind_eq_ok] at h
      obtain ⟨checksum, -, h⟩ := h
      cases h
      exact .inr ⟨path, checksum, rfl⟩
    · cases h
      exact .inl rfl
  · cases h
    exact .inl rfl

theorem Receipted.finite {safe : Dict Json} (h : Receipted safe) : finite (.obj safe) = true := by
  rcases h.cases with rfl | ⟨path, checksum, rfl⟩ <;> rfl

theorem Receipted.wellFormed {safe : Dict Json} (h : Receipted safe) :
    isTrue (safe.lookup "ok") = true ∧
      (safe.lookup "path" = none ∨ ∃ path, safe.lookup "path" = some (.str path)) := by
  rcases h.cases with rfl | ⟨path, checksum, rfl⟩
  · exact ⟨rfl, .inl rfl⟩
  · exact ⟨rfl, .inr ⟨path, rfl⟩⟩

theorem digest_receipt {fs : FileSystem} {evidence safe : Dict Json} {workspace : String}
    (h : evidenceReceipt fs evidence workspace = .ok safe) :
    ∃ safeDigest, digest (.obj safe) = .ok safeDigest := by
  have hfinite : finite (.obj safe) = true := by
    simp only [evidenceReceipt, Except.bind_eq_ok] at h
    obtain ⟨result, -, h⟩ := h
    split at h
    · exact Receipted.finite ⟨fs, _, workspace, h⟩
    · cases h
  exact ⟨_, if_pos hfinite⟩

/-- The recorded outcome of a succeeded step is a receipt with its digest. -/
def StepRecord.Checkable (step : StepRecord) : Prop :=
  step.state = .succeeded → ∃ safe safeDigest, step.result = some safe ∧ Receipted safe ∧
    digest (.obj safe) = .ok safeDigest

/-- A well-formed receipt verifies, or the step is found to need reconciliation. -/
theorem StepRecord.Checkable.verdict {step : StepRecord} (h : step.Checkable) (fs : FileSystem) :
    (∃ result, verifiedReceipt fs step = .ok result) ∨
      ∃ message, verifiedReceipt fs step = .error (.reconciliationRequired message) := by
  by_cases hstate : step.state = .succeeded
  · obtain ⟨safe, safeDigest, hresult, hreceipted, hdigest⟩ := h hstate
    obtain ⟨hok, hpath⟩ := hreceipted.wellFormed
    have hfile : ∃ valid, fileEvidence fs safe = .ok valid := by
      rcases hpath with hpath | ⟨path, hpath⟩
      · exact ⟨true, by simp [fileEvidence, hpath]⟩
      · simp only [fileEvidence, hpath]
        split <;> exact ⟨_, rfl⟩
    obtain ⟨valid, hvalid⟩ := hfile
    simp only [verifiedReceipt, hstate, hresult, orRaise, hok, hdigest, hvalid, require, beq_self_eq_true,
      bind, Except.bind, if_true]
    by_cases hrecorded : (some safeDigest == step.resultDigest) = true
    · cases valid <;> simp [hrecorded, pure, Except.pure]
    · simp [hrecorded]
  · right
    simp [verifiedReceipt, hstate, require, bind, Except.bind]

theorem unverified_iff {step : StepRecord} (h : step.Checkable) (fs : FileSystem) :
    unverified fs step = .ok () ↔ Unverified fs step := by
  refine ⟨Unverified.of_ok, fun hun => ?_⟩
  unfold unverified
  split
  · rcases h.verdict fs with ⟨result, hresult⟩ | ⟨message, herror⟩
    · exact absurd hresult (hun result)
    · rw [herror]
  · rfl

/-- Runs in which `finish_step` writes a receipt, as its own first half has made it. -/
def receiptedRun : Rules ledgerMachine where
  start := World.Fresh
  program _ := True
  admits _ r _ := ∀ owner taskId stepId safe,
    r = .finishStep owner taskId stepId safe → Receipted safe

theorem Edge.checkable {w : World} {r : Request} {before : Option StepRecord} {after : StepRecord}
    (h : Edge w taskId stepId r before (some after))
    (hfinish : ∀ owner taskId stepId safe,
      r = .finishStep owner taskId stepId safe → Receipted safe) : after.Checkable := by
  intro hstate
  cases h with
  | finished owner safe safeDigest hstarted hdigest =>
      exact ⟨safe, safeDigest, rfl, hfinish _ _ _ _ rfl, hdigest⟩
  | applied artifactId actor row evidence safe safeDigest _ _ _ _ hreceipt hdigest =>
      simp only [evidenceReceipt, Except.bind_eq_ok] at hreceipt
      obtain ⟨result, -, hresult⟩ := hreceipt
      split at hresult
      · exact ⟨safe, safeDigest, rfl, ⟨w.fs, _, _, hresult⟩, hdigest⟩
      · cases hresult
  | prepared | claimed | marked | expired | reopened => cases hstate

theorem checkable {s : System ledgerMachine} (h : Reachable receiptedRun s) {step : StepRecord}
    (hstep : s.snap.state.db.stepNamed taskId stepId = some step) : step.Checkable := by
  induction h generalizing step with
  | start w hw =>
      have hempty : w.db = .empty := hw
      simp [Database.stepNamed, hempty, Database.empty] at hstep
  | @step s s' _ hnext ih =>
      rcases step_edge hnext taskId stepId with hsame | ⟨pid, r, answer, hlog, hedge⟩
      · exact ih (hsame ▸ hstep)
      · rw [hstep] at hedge
        refine hedge.checkable ?_
        cases hnext with
        | spawn p hp => simp at hlog
        | crash pid hpid => simp at hlog
        | drift w hdrift => simp at hlog
        | call pid' r' next env reply w hthread hadmits hperform =>
            have hevent := List.append_cancel_left hlog
            simp only [List.cons.injEq, Event.call.injEq, and_true] at hevent
            obtain ⟨-, rfl, -⟩ := hevent
            exact hadmits

/-! ## Dead ends -/

section DeadEnds

variable {db : Database} {fs : FileSystem} {step : StepRecord} {row : TaskRow}
  {artifactId actor : String} {outcome : Outcome} {evidence : Dict Json}

/-- The artifact that a step was last reconciled with is intact, if there is one. -/
def EvidenceKept (fs : FileSystem) (db : Database) (taskId : String) (step : StepRecord) : Prop :=
  ∀ ref, given step.evidenceRef = some ref →
    ∃ artifact, checkedArtifact fs db taskId ref = .ok artifact

theorem retryEvidence_ok :
    retryEvidence fs db taskId (some step) = .ok () ↔ EvidenceKept fs db taskId step := by
  unfold retryEvidence EvidenceKept
  rw [Option.bind_some]
  cases given step.evidenceRef with
  | none => simp
  | some ref => cases hchecked : checkedArtifact fs db taskId ref <;> simp [hchecked]

theorem verifiedStep_iff :
    verifiedStep fs db taskId step = .ok () ↔
      ¬Unverified fs step ∧ EvidenceKept fs db taskId step := by
  unfold verifiedStep Unverified EvidenceKept
  cases verifiedReceipt fs step with
  | error e => simp [bind, Except.bind]
  | ok result =>
      cases given step.evidenceRef with
      | none => simp [bind, Except.bind, pure, Except.pure]
      | some ref =>
          cases hchecked : checkedArtifact fs db taskId ref <;>
            simp [hchecked, bind, Except.bind, pure, Except.pure]

/-- Under a lease that passes, a step of an active task is claimed exactly when it is in
`intent` and the evidence that permits it is kept. -/
theorem claimStep_iff {owner : Option Lease} {now : ℚ} (hrow : db.tasks.get? taskId = some row)
    (hlive : row.payload.status.terminal = false)
    (hstep : db.stepNamed taskId stepId = some step) (hpermits : db.Permits now taskId true owner) :
    (∃ db', claimStep owner taskId stepId now fs db = .ok ((), db')) ↔
      step.state = .intent ∧ EvidenceKept fs db taskId step := by
  constructor
  · rintro ⟨db', h⟩
    obtain ⟨_, found, -, -, -, hfound, hevidence, -⟩ := claimStep_ok h
    have hp := Table.pred_of_find hfound
    simp only [StepRecord.namedIn, Bool.and_eq_true, beq_iff_eq] at hp
    have hnamed := (Table.find_eq_some_iff (StepRecord.named_determines taskId stepId)).mpr
      ⟨Table.mem_of_find hfound, hp.1⟩
    cases hstep.symm.trans hnamed
    exact ⟨hp.2, retryEvidence_ok.mp hevidence⟩
  · rintro ⟨hintent, hkept⟩
    have hdetermines : Determines (StepRecord.namedIn taskId stepId .intent) := by
      intro a b ha hb
      simp only [StepRecord.namedIn, Bool.and_eq_true] at ha hb
      exact StepRecord.named_determines taskId stepId a b ha.1 hb.1
    have hfound : db.steps.find (StepRecord.namedIn taskId stepId .intent) = some step := by
      refine (Table.find_eq_some_iff hdetermines).mpr ⟨Table.mem_of_find hstep, ?_⟩
      exact (namedIn_eq (named_of_find hstep)).mpr ⟨⟨rfl, rfl⟩, hintent⟩
    have hevidence := retryEvidence_ok.mpr hkept
    have hcount := Table.count_of_find hdetermines hfound
    have hactive : activeTask db taskId = .ok row.payload :=
      activeTask_ok.mpr ⟨⟨row, hrow, rfl⟩, hlive⟩
    simp only [claimStep, Except.bind_eq_ok, requireLease_ok, require_eq_ok, beq_iff_eq]
    exact ⟨_, (), hpermits, row.payload, hactive, (), by rw [hfound]; exact hevidence, (), hcount,
      rfl⟩

/-- A certificate settles a step exactly when the step is not in `intent` and its receipt does
not verify. -/
theorem reconcileStep_iff (hrow : db.tasks.get? taskId = some row)
    (hlive : row.payload.status.terminal = false)
    (hstep : db.stepNamed taskId stepId = some step) (hcheckable : step.Checkable)
    (hcertified : Certified fs db taskId artifactId step outcome evidence)
    (hresult : outcome = .applied →
      ∃ safe, evidenceReceipt fs evidence row.payload.workspace = .ok safe) :
    (∃ db', reconcileStep taskId stepId artifactId actor fs db = .ok (outcome, db')) ↔
      step.state ≠ .intent ∧ Unverified fs step := by
  constructor
  · rintro ⟨db', h⟩
    obtain ⟨_, found, _, _, _, -, hfound, hdue, hunverified, -⟩ := reconcileStep_certified h
    cases hstep.symm.trans hfound
    exact ⟨hdue, hunverified⟩
  · rintro ⟨hdue, hunverified⟩
    obtain ⟨artifact, value, hartifact, hvalue, hbound, hout⟩ := certified_iff.mp hcertified
    have hactive : activeTask db taskId = .ok row.payload :=
      activeTask_ok.mpr ⟨⟨row, hrow, rfl⟩, hlive⟩
    have hsettled : ∃ db', settleStep fs evidence row.payload.workspace stepId artifactId outcome db
        = .ok db' := by
      cases outcome with
      | notApplied => exact ⟨_, rfl⟩
      | applied =>
          obtain ⟨safe, hsafe⟩ := hresult rfl
          obtain ⟨safeDigest, hdigest⟩ := digest_receipt hsafe
          simp [settleStep, hsafe, hdigest, bind, Except.bind, pure, Except.pure]
    obtain ⟨db', hsettle⟩ := hsettled
    simp only [reconcileStep, Except.bind_eq_ok, orRaise_eq_ok, require_eq_ok, bne_iff_ne]
    exact ⟨_, row.payload, hactive, step, hstep, (), by simpa using hdue, (),
      (unverified_iff hcheckable fs).mpr hunverified, artifact, hartifact, value, hvalue, evidence,
      hbound, outcome, hout, db', hsettle, rfl⟩

/-- In every reachable state a step of an active task that is neither verified nor claimable is
settled by a fresh certificate, unless its earlier evidence is gone while it is in `intent` or
its receipt verifies. -/
theorem dead_end_iff {s : System ledgerMachine} (h : Reachable receiptedRun s)
    (hrow : s.snap.state.db.tasks.get? taskId = some row)
    (hlive : row.payload.status.terminal = false)
    (hstep : s.snap.state.db.stepNamed taskId stepId = some step)
    (hcertified : Certified s.snap.state.fs s.snap.state.db taskId artifactId step outcome evidence)
    (hresult : outcome = .applied →
      ∃ safe, evidenceReceipt s.snap.state.fs evidence row.payload.workspace = .ok safe) :
    ((verifiedStep s.snap.state.fs s.snap.state.db taskId step = .ok () ∨
        (step.state = .intent ∧ EvidenceKept s.snap.state.fs s.snap.state.db taskId step) ∨
        ∃ db', reconcileStep taskId stepId artifactId actor s.snap.state.fs s.snap.state.db =
          .ok (outcome, db')) ↔
      EvidenceKept s.snap.state.fs s.snap.state.db taskId step ∨
        (step.state ≠ .intent ∧ Unverified s.snap.state.fs step)) ∧
    ∀ owner now, s.snap.state.db.Permits now taskId true owner →
      ((∃ db', claimStep owner taskId stepId now s.snap.state.fs s.snap.state.db = .ok ((), db')) ↔
        step.state = .intent ∧ EvidenceKept s.snap.state.fs s.snap.state.db taskId step) := by
  refine ⟨?_, fun owner now hpermits => claimStep_iff hrow hlive hstep hpermits⟩
  rw [verifiedStep_iff,
    reconcileStep_iff hrow hlive hstep (checkable h hstep) hcertified hresult]
  by_cases hintent : step.state = .intent
  · simp only [hintent, true_and, ne_eq, not_true, false_and, or_false]
    constructor
    · rintro (⟨-, hkept⟩ | hkept) <;> exact hkept
    · exact .inr
  · simp only [hintent, false_and, false_or, ne_eq, not_false_eq_true, true_and]
    by_cases hun : Unverified s.snap.state.fs step <;> simp [hun]

end DeadEnds

end Runs

section Certificates

/-- What a certificate says of the step. -/
def Sample.certificate (outcome : String) : Dict Json :=
  [("step_id", .str "step"), ("arguments_digest", .str "{}"), ("outcome", .str outcome),
    ("result", .obj [("ok", .bool true)])]

local instance reconciliationCertificates : Platform := .reference
  [("applied", .obj (Sample.certificate "applied")),
    ("not applied", .obj (Sample.certificate "not_applied"))]

/-- A file with the given text, registered for the task. -/
def Sample.registered (artifactId text : String) : Artifact where
  artifactId := artifactId
  taskId := "task"
  mediaType := "application/json"
  path := "/work/" ++ artifactId
  checksumSha256 := text
  producer := "operator"
  provenance := []

/-- The step is claimed, its outcome is unknown, and the certificate reconciles it. -/
def Sample.reconciled : List (Surroundings × Request) :=
  [(moment 1 "", .claimStep none "task" "step"),
    (moment 1 "", .markUncertain none "task" "step" "TimeoutError"),
    (moment 1 "", .reconcileStep "task" "step" "certificate" "operator")]

/-- One certificate reopens the step after each of two attempts. -/
def Sample.replayed : List (Surroundings × Request) :=
  prepared ++ [(moment 0 "", .addArtifact (registered "certificate" "not applied"))] ++
    reconciled ++ reconciled ++ [(moment 2 "", .claimStep none "task" "step")]

theorem reopening_certified_replayed :
    ∃ s row, Reachable anyRun s ∧ s.snap.state.db.stepNamed "task" "step" = some row ∧
      row.state = .started ∧
      row.attempt = (certificates ("task", "step") s.snap.log).length + 1 := by
  obtain ⟨s, hs⟩ : ∃ s, s = (Sample.fresh [("/work/certificate", "not applied")]).script
    Sample.replayed := ⟨_, rfl⟩
  have hreachable : Reachable anyRun s := hs ▸ Sample.reachable _ Sample.replayed
  obtain ⟨row, hrow, hstarted⟩ : ∃ row ∈ s.snap.state.db.stepNamed "task" "step",
      row.state = .started := by
    rw [hs]
    decide +kernel
  have hattempt := ((reopening_certified hreachable).2 "task" "step" row hrow).2
  rw [hstarted] at hattempt
  exact ⟨s, row, hreachable, hrow, hstarted, hattempt⟩

/-- Evidence about the first attempt has reopened the step after the second. -/
theorem certificate_replayed :
    ∃ s row, Reachable anyRun s ∧ s.snap.state.db.stepNamed "task" "step" = some row ∧
      ¬(certificates ("task", "step") s.snap.log).Nodup ∧
      ¬row.attempt ≤ 1 + (certificates ("task", "step") s.snap.log).dedup.length := by
  obtain ⟨s, hs⟩ : ∃ s, s = (Sample.fresh [("/work/certificate", "not applied")]).script
    Sample.replayed := ⟨_, rfl⟩
  have hused : certificates ("task", "step") s.snap.log = ["certificate", "certificate"] := by
    rw [hs]
    decide +kernel
  obtain ⟨row, hrow, hattempt⟩ : ∃ row ∈ s.snap.state.db.stepNamed "task" "step",
      row.attempt = 3 := by
    rw [hs]
    decide +kernel
  refine ⟨s, row, hs ▸ Sample.reachable _ Sample.replayed, hrow, ?_, ?_⟩
  · rw [hused]
    decide
  · rw [hused, hattempt]
    decide

/-- A certificate settles the step as applied; another one is registered too. -/
def Sample.settled : List (Surroundings × Request) :=
  prepared ++ [(moment 0 "", .addArtifact (registered "certificate" "applied")),
    (moment 0 "", .addArtifact (registered "fresh" "applied"))] ++ reconciled

/-- The first certificate is lost after that. -/
def Sample.lost : System ledgerMachine :=
  let s := (fresh [("/work/certificate", "applied"), ("/work/fresh", "applied")]).script settled
  s.drifted { s.snap.state with fs := .holding [("/work/fresh", "applied")] }

theorem Sample.lost_reachable : Reachable receiptedRun Sample.lost := by
  have hstart : Reachable receiptedRun
      (fresh [("/work/certificate", "applied"), ("/work/fresh", "applied")]) := .start _ rfl
  refine (hstart.steps (Steps.script (fun _ _ => trivial) ?_ _)).step (.drifted (.files _ _))
  intro x hx pid s owner taskId stepId safe hfinish
  simp only [settled, prepared, reconciled, List.cons_append, List.nil_append, List.mem_cons,
    List.not_mem_nil, or_false] at hx
  rcases hx with rfl | rfl | rfl | rfl | rfl | rfl | rfl <;> cases hfinish

/-- A step that only lacks its earlier evidence, and a certificate that could replace it. -/
theorem Sample.lost_step :
    ∃ row step, lost.snap.state.db.tasks.get? "task" = some row ∧
      row.payload.status.terminal = false ∧
      lost.snap.state.db.stepNamed "task" "step" = some step ∧ step.state = .succeeded ∧
      verifiedStep lost.snap.state.fs lost.snap.state.db "task" step ≠ .ok () ∧
      ¬Unverified lost.snap.state.fs step ∧
      Certified lost.snap.state.fs lost.snap.state.db "task" "fresh" step .applied
        (certificate "applied") ∧
      ∃ safe, evidenceReceipt lost.snap.state.fs (certificate "applied") row.payload.workspace =
        .ok safe := by
  obtain ⟨row, hrow, hlive⟩ : ∃ row ∈ lost.snap.state.db.tasks.get? "task",
      row.payload.status.terminal = false := by
    decide +kernel
  obtain ⟨step, hstep, hstate, hargs, hverified, hreceipt⟩ :
      ∃ step ∈ lost.snap.state.db.stepNamed "task" "step",
        step.state = .succeeded ∧ step.argumentsDigest = "{}" ∧
        (verifiedStep lost.snap.state.fs lost.snap.state.db "task" step).isOk = false ∧
        (verifiedReceipt lost.snap.state.fs step).isOk = true := by
    decide +kernel
  obtain ⟨artifact, hartifact, hpath, hsum⟩ :
      ∃ a ∈ lost.snap.state.db.artifacts.find (Artifact.ownedBy "task" "fresh"),
        a.path = "/work/fresh" ∧ a.checksumSha256 = "applied" := by
    decide +kernel
  have hid := (named_of_find hstep).2
  refine ⟨row, step, hrow, hlive, hstep, hstate, ?_, ?_,
    ⟨⟨artifact, hartifact, ?_, ?_⟩, ?_, ?_, rfl⟩, ?_⟩
  · intro h
    rw [h] at hverified
    cases hverified
  · intro hun
    obtain ⟨result, hresult⟩ := Except.exists_of_isOk hreceipt
    exact hun result hresult
  · rw [Artifact.Intact, hpath, hsum]
    rfl
  · rw [hpath]
    rfl
  · rw [hid]
    rfl
  · rw [hargs]
    rfl
  · exact ⟨_, rfl⟩

theorem dead_end_iff_lost :
    ∃ step, Sample.lost.snap.state.db.stepNamed "task" "step" = some step ∧
      ((verifiedStep Sample.lost.snap.state.fs Sample.lost.snap.state.db "task" step = .ok () ∨
          (step.state = .intent ∧
            EvidenceKept Sample.lost.snap.state.fs Sample.lost.snap.state.db "task" step) ∨
          ∃ db', reconcileStep "task" "step" "fresh" "operator" Sample.lost.snap.state.fs
            Sample.lost.snap.state.db = .ok (.applied, db')) ↔
        EvidenceKept Sample.lost.snap.state.fs Sample.lost.snap.state.db "task" step ∨
          (step.state ≠ .intent ∧ Unverified Sample.lost.snap.state.fs step)) := by
  obtain ⟨row, step, hrow, hlive, hstep, -, -, -, hcertified, hresult⟩ := Sample.lost_step
  exact ⟨step, hstep, (dead_end_iff Sample.lost_reachable hrow hlive hstep hcertified
    (fun _ => hresult)).1⟩

/-- The step is not verified, not claimable, and no certificate settles it. -/
theorem lost_evidence_dead_end :
    ∃ s row step, Reachable receiptedRun s ∧ s.snap.state.db.tasks.get? "task" = some row ∧
      row.payload.status.terminal = false ∧ s.snap.state.db.stepNamed "task" "step" = some step ∧
      (∃ evidence, Certified s.snap.state.fs s.snap.state.db "task" "fresh" step .applied evidence ∧
        ∃ safe, evidenceReceipt s.snap.state.fs evidence row.payload.workspace = .ok safe) ∧
      verifiedStep s.snap.state.fs s.snap.state.db "task" step ≠ .ok () ∧ step.state ≠ .intent ∧
      ∀ artifactId actor outcome db', reconcileStep "task" "step" artifactId actor s.snap.state.fs
        s.snap.state.db ≠ .ok (outcome, db') := by
  obtain ⟨row, step, hrow, hlive, hstep, hstate, hverified, hreceipt, hcertified, hresult⟩ :=
    Sample.lost_step
  refine ⟨Sample.lost, row, step, Sample.lost_reachable, hrow, hlive, hstep,
    ⟨_, hcertified, hresult⟩, hverified, by simp [hstate], ?_⟩
  intro artifactId actor outcome db' h
  obtain ⟨_, found, _, _, _, -, hfound, -, hunverified, -⟩ := reconcileStep_certified h
  cases hstep.symm.trans hfound
  exact hreceipt hunverified

end Certificates

end Dante
