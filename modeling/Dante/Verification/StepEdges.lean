import Dante.Verification.Completion
import Dante.Verification.Journal

/-! # Which operation moves a step, and on what evidence

Every change of a step row is one edge, labelled with the request that made it. The life of a
step, the fate of its evidence and the rows of finished tasks are read off these edges. -/

namespace Dante

open JsonText Relational Concurrent

section Edges

variable [Platform] {taskId stepId artifactId : String} {db db' : Database} {fs : FileSystem}
  {outcome : Outcome} {evidence : Dict Json} {step : StepRecord}

/-! ## Evidence -/

/-- An intact artifact of the task that names the step, its arguments and the outcome. -/
structure Certified (fs : FileSystem) (db : Database) (taskId artifactId : String)
    (step : StepRecord) (outcome : Outcome) (evidence : Dict Json) : Prop where
  intact : ∃ artifact, db.artifacts.find (Artifact.ownedBy taskId artifactId) = some artifact ∧
    artifact.Intact fs ∧ readJson fs artifact.path = .ok (.obj evidence)
  stepId : evidence.lookup "step_id" = some (.str step.stepId)
  argumentsDigest : evidence.lookup "arguments_digest" = some (.str step.argumentsDigest)
  outcome : evidence.lookup "outcome" = some (.str outcome.value)

omit [Platform] in
theorem boundEvidence_ok {value : Json} :
    boundEvidence value step = .ok evidence ↔
      value = .obj evidence ∧ evidence.lookup "step_id" = some (.str step.stepId) ∧
        evidence.lookup "arguments_digest" = some (.str step.argumentsDigest) := by
  cases value with
  | obj fields =>
      simp only [boundEvidence, Json.obj.injEq]
      split
      next id args hid hargs =>
        simp only [Except.bind_eq_ok, require_eq_ok, Bool.and_eq_true, beq_iff_eq,
          Except.pure_eq_ok]
        constructor
        · rintro ⟨_, ⟨rfl, rfl⟩, rfl⟩
          exact ⟨rfl, hid, hargs⟩
        · rintro ⟨rfl, hid', hargs'⟩
          cases hid.symm.trans hid'
          cases hargs.symm.trans hargs'
          exact ⟨(), ⟨rfl, rfl⟩, rfl⟩
      next hother =>
        refine ⟨fun h => (by cases h), ?_⟩
        rintro ⟨rfl, hid, hargs⟩
        exact absurd hargs (hother _ _ hid)
  | _ => simp [boundEvidence]

omit [Platform] in
theorem evidenceOutcome_ok :
    evidenceOutcome evidence = .ok outcome ↔
      evidence.lookup "outcome" = some (.str outcome.value) := by
  unfold evidenceOutcome
  cases evidence.lookup "outcome" with
  | none => simp
  | some v =>
      cases v with
      | str value =>
          by_cases happlied : value = "applied"
          · cases outcome <;> simp [happlied, Outcome.value]
          · by_cases hnot : value = "not_applied"
            · cases outcome <;> simp [hnot, Outcome.value]
            · cases outcome <;> simp [happlied, hnot, Outcome.value]
      | _ => simp

/-- What `reconcile_step` has checked of the artifact it was given. -/
theorem certified_iff :
    Certified fs db taskId artifactId step outcome evidence ↔
      ∃ artifact value, checkedArtifact fs db taskId artifactId = .ok artifact ∧
        readJson fs artifact.path = .ok value ∧ boundEvidence value step = .ok evidence ∧
        evidenceOutcome evidence = .ok outcome := by
  simp only [checkedArtifact_ok, boundEvidence_ok, evidenceOutcome_ok]
  constructor
  · rintro ⟨⟨artifact, hfind, hintact, hread⟩, hid, hargs, hout⟩
    exact ⟨artifact, _, ⟨hfind, hintact⟩, hread, ⟨rfl, hid, hargs⟩, hout⟩
  · rintro ⟨artifact, _, ⟨hfind, hintact⟩, hread, ⟨rfl, hid, hargs⟩, hout⟩
    exact ⟨⟨artifact, hfind, hintact, hread⟩, hid, hargs, hout⟩

/-- The receipt of a step does not verify. -/
def Unverified (fs : FileSystem) (step : StepRecord) : Prop :=
  ∀ result, verifiedReceipt fs step ≠ .ok result

theorem Unverified.of_ok {u : Unit} (h : unverified fs step = .ok u) : Unverified fs step := by
  intro result hverified
  unfold unverified at h
  split at h
  · rw [hverified] at h
    cases h
  next hstate => exact hstate (verifiedReceipt_ok hverified).1

/-- What a committed reconciliation has checked and written. -/
theorem reconcileStep_certified {actor : String}
    (h : reconcileStep taskId stepId artifactId actor fs db = .ok (outcome, db')) :
    ∃ row step evidence f, ∃ hf : Settled fs evidence row.payload.workspace artifactId outcome f,
      db.tasks.get? taskId = some row ∧ db.stepNamed taskId stepId = some step ∧
      step.state ≠ .intent ∧ Unverified fs step ∧
      Certified fs db taskId artifactId step outcome evidence ∧
      db'.steps = (db.updateSteps (fun s => s.stepId == stepId) f hf.keepsKey).steps := by
  simp only [reconcileStep, Except.bind_eq_ok, activeTask_ok, orRaise_eq_ok, require_eq_ok,
    bne_iff_ne, ne_eq] at h
  obtain ⟨_, ⟨⟨row, hrow, rfl⟩, -⟩, step, hstep, -, hdue, _, hunverified, artifact, hartifact, value,
    hvalue, evidence, hbound, out, hout, _, hsettle, h⟩ := h
  obtain ⟨f, hf, rfl⟩ := settleStep_ok hsettle
  cases h
  have hcertified : Certified fs db taskId artifactId step outcome evidence :=
    certified_iff.mpr ⟨artifact, value, hartifact, hvalue, hbound, hout⟩
  exact ⟨row, step, evidence, f, hf, hrow, hstep, hdue, .of_ok hunverified, hcertified, rfl⟩

/-! ## Edges -/

/-- How a committed request changes the row of a step. -/
inductive Edge (w : World) (taskId stepId : String) :
    Request → Option StepRecord → Option StepRecord → Prop where
  | prepared (owner : Option Lease) (toolId toolVersion : String) (arguments : Dict Json)
      (idempotencyKey : Option String) (argsDigest key : String) (createdAt : ℚ) :
      Edge w taskId stepId
        (.prepareStep owner taskId toolId toolVersion arguments idempotencyKey) none
        (some (.prepared stepId taskId toolId toolVersion argsDigest key createdAt))
  | claimed {s : StepRecord} (owner : Option Lease) (hintent : s.state = .intent) :
      Edge w taskId stepId (.claimStep owner taskId stepId) (some s)
        (some { s with state := .started, attempt := s.attempt + 1, error := none })
  | finished {s : StepRecord} (owner : Option Lease) (safe : Dict Json) (safeDigest : String)
      (hstarted : s.state = .started) (hdigest : digest (.obj safe) = .ok safeDigest) :
      Edge w taskId stepId (.finishStep owner taskId stepId safe) (some s) (some { s with
        state := .succeeded
        result := some safe
        resultDigest := some safeDigest
        error := none })
  | marked {s : StepRecord} (owner : Option Lease) (error : String) (hstarted : s.state = .started) :
      Edge w taskId stepId (.markUncertain owner taskId stepId error) (some s)
        (some { s with state := .uncertain, error := some error })
  | expired {s : StepRecord} (hstarted : s.state = .started) :
      Edge w taskId stepId .recoverExpired (some s)
        (some { s with state := .uncertain, error := some "lease_expired" })
  | applied {s : StepRecord} (artifactId actor : String) (row : TaskRow)
      (evidence safe : Dict Json) (safeDigest : String) (hdue : s.state ≠ .intent)
      (hunverified : Unverified w.fs s) (hrow : w.db.tasks.get? taskId = some row)
      (hcertified : Certified w.fs w.db taskId artifactId s .applied evidence)
      (hreceipt : evidenceReceipt w.fs evidence row.payload.workspace = .ok safe)
      (hdigest : digest (.obj safe) = .ok safeDigest) :
      Edge w taskId stepId (.reconcileStep taskId stepId artifactId actor) (some s)
        (some { s with
          state := .succeeded
          result := some safe
          resultDigest := some safeDigest
          evidenceRef := some artifactId
          error := none })
  | reopened {s : StepRecord} (artifactId actor : String) (evidence : Dict Json)
      (hdue : s.state ≠ .intent) (hunverified : Unverified w.fs s)
      (hcertified : Certified w.fs w.db taskId artifactId s .notApplied evidence) :
      Edge w taskId stepId (.reconcileStep taskId stepId artifactId actor) (some s)
        (some { s with state := .intent, evidenceRef := some artifactId, error := none })

omit [Platform] in
@[simp] theorem stepNamed_event (task : Task) (name : String) (previous : Option TaskStatus)
    (metadata : Dict Json) :
    (db.event task name previous metadata).stepNamed taskId stepId = db.stepNamed taskId stepId :=
  rfl

omit [Platform] in
theorem stepNamed_updateSteps {p : StepRecord → Bool} {f : StepRecord → StepRecord}
    (hf : KeepsKey f) :
    (db.updateSteps p f hf).stepNamed taskId stepId =
      (db.stepNamed taskId stepId).map (fun s => if p s then f s else s) :=
  find_updateSteps p f hf

/-- An update under `WHERE task_id=? AND step_id=? AND state=?` shows in that step only. -/
theorem namedIn_edge {w : World} {r : Request} {task other : String} {state : StepState}
    {f : StepRecord → StepRecord} (hf : KeepsKey f)
    (hedge : task = taskId → other = stepId → ∀ s : StepRecord, s.state = state →
      Edge w taskId stepId r (some s) (some (f s))) :
    (w.db.updateSteps (StepRecord.namedIn task other state) f hf).stepNamed taskId stepId =
        w.db.stepNamed taskId stepId ∨
      Edge w taskId stepId r (w.db.stepNamed taskId stepId)
        ((w.db.updateSteps (StepRecord.namedIn task other state) f hf).stepNamed taskId stepId) := by
  rw [stepNamed_updateSteps]
  cases hfind : w.db.stepNamed taskId stepId with
  | none => exact .inl rfl
  | some s =>
      rw [Option.map_some]
      split
      next hp =>
        obtain ⟨⟨htask, hother⟩, hstate⟩ := (namedIn_eq (named_of_find hfind)).mp hp
        exact .inr (hedge htask hother s hstate)
      next => exact .inl rfl

theorem commit_edge {α : Type} {w w' : World} {r : Request} {x : Except Exn (α × Database)}
    {reply : Except Exn α} (h : w.commit x = (reply, w'))
    (hx : ∀ a db', x = .ok (a, db') →
      db'.stepNamed taskId stepId = w.db.stepNamed taskId stepId ∨
        Edge w taskId stepId r (w.db.stepNamed taskId stepId) (db'.stepNamed taskId stepId)) :
    w'.db.stepNamed taskId stepId = w.db.stepNamed taskId stepId ∨
      (∃ answer, reply = .ok answer) ∧
        Edge w taskId stepId r (w.db.stepNamed taskId stepId)
          (w'.db.stepNamed taskId stepId) := by
  rcases commit_cases h with ⟨a, db', ha, rfl, rfl⟩ | ⟨-, -, -, rfl⟩
  · exact (hx a db' ha).imp_right fun hedge => ⟨⟨a, rfl⟩, hedge⟩
  · exact .inl rfl

theorem reconcileStep_edge {w : World} {task other artifactId actor : String} {db' : Database}
    (h : reconcileStep task other artifactId actor w.fs w.db = .ok (outcome, db')) :
    db'.stepNamed taskId stepId = w.db.stepNamed taskId stepId ∨
      Edge w taskId stepId (.reconcileStep task other artifactId actor)
        (w.db.stepNamed taskId stepId) (db'.stepNamed taskId stepId) := by
  obtain ⟨row, found, evidence, f, hf, hrow, hfound, hdue, hunverified, hcertified, hsteps⟩ :=
    reconcileStep_certified h
  have hnamed := named_of_find hfound
  have hafter : db'.stepNamed taskId stepId = (w.db.stepNamed taskId stepId).map
      (fun s => if s.stepId == other then f s else s) := by
    rw [Database.stepNamed, hsteps]
    exact find_updateSteps _ f hf.keepsKey
  rw [hafter]
  by_cases hsame : task = taskId ∧ other = stepId
  · obtain ⟨rfl, rfl⟩ := hsame
    right
    rw [hfound, Option.map_some, if_pos (by simp [hnamed.2])]
    cases hf with
    | applied safe safeDigest hreceipt hdigest =>
        exact .applied artifactId actor row evidence safe safeDigest hdue hunverified hrow
          hcertified hreceipt hdigest
    | notApplied => exact .reopened artifactId actor evidence hdue hunverified hcertified
  · left
    cases hfind : w.db.stepNamed taskId stepId with
    | none => rfl
    | some s =>
        rw [Option.map_some, if_neg]
        intro hp
        have hother := named_of_find hfind
        have heq := Table.eq_of_determines (sameId_determines other) (Table.mem_of_find hfound)
          (Table.mem_of_find hfind) (by simp [hnamed.2]) hp
        subst heq
        exact hsame ⟨hnamed.1.symm.trans hother.1, hnamed.2.symm.trans hother.2⟩

theorem prepareStep_edge {w : World} {owner : Option Lease} {task toolId toolVersion newId : String}
    {arguments : Dict Json} {idempotencyKey : Option String} {clock : ℕ → ℚ} {answer : Prepared}
    (h : prepareStep owner task toolId toolVersion arguments idempotencyKey clock newId w.db
      = .ok (answer, db')) :
    db'.stepNamed taskId stepId = w.db.stepNamed taskId stepId ∨
      Edge w taskId stepId (.prepareStep owner task toolId toolVersion arguments idempotencyKey)
        (w.db.stepNamed taskId stepId) (db'.stepNamed taskId stepId) := by
  obtain ⟨_, _, _, -, -, -, -, -, ⟨_, -, rfl, -⟩ | ⟨-, hnew⟩⟩ := prepareStep_ok h
  · exact .inl rfl
  · obtain ⟨steps, hins, rfl⟩ := hnew.inserted
    have hfind := Table.find_insert hins (p := StepRecord.named taskId stepId)
    simp only [Database.stepNamed, Database.event_steps, hfind]
    cases hold : w.db.steps.find (StepRecord.named taskId stepId) with
    | some s => exact .inl rfl
    | none =>
        rw [Option.none_or]
        split
        next hnamed =>
          simp only [StepRecord.named, StepRecord.prepared, Bool.and_eq_true, beq_iff_eq] at hnamed
          obtain ⟨rfl, rfl⟩ := hnamed
          exact .inr (.prepared ..)
        next => exact .inl rfl

/-- Every change of the row of a step is an edge of the request that made it. -/
theorem perform_edge {env : Surroundings} {r : Request} {w w' : World} {reply : Except Exn r.Reply}
    (h : perform env r w = (reply, w')) (taskId stepId : String) :
    w'.db.stepNamed taskId stepId = w.db.stepNamed taskId stepId ∨
      (∃ answer, reply = .ok answer) ∧
        Edge w taskId stepId r (w.db.stepNamed taskId stepId) (w'.db.stepNamed taskId stepId) := by
  cases r with
  | prepareStep => exact commit_edge h fun _ _ hx => prepareStep_edge hx
  | reconcileStep => exact commit_edge h fun _ _ hx => reconcileStep_edge hx
  | claimStep owner =>
      refine commit_edge h fun _ _ hx => ?_
      obtain ⟨_, _, -, -, -, -, -, rfl⟩ := claimStep_ok hx
      rw [stepNamed_event]
      refine namedIn_edge _ ?_
      rintro rfl rfl s hstate
      exact .claimed owner hstate
  | finishStep owner =>
      refine commit_edge h fun _ _ hx => ?_
      obtain ⟨_, _, safeDigest, -, -, -, hdigest, -, rfl⟩ := finishStep_ok hx
      rw [stepNamed_event]
      refine namedIn_edge _ ?_
      rintro rfl rfl s hstate
      exact .finished owner _ safeDigest hstate hdigest
  | markUncertain owner =>
      refine commit_edge h fun _ _ hx => ?_
      obtain ⟨_, -, -, -, rfl⟩ := markUncertain_ok hx
      rw [stepNamed_event]
      refine namedIn_edge _ ?_
      rintro rfl rfl s hstate
      exact .marked owner _ hstate
  | recoverExpired =>
      refine commit_edge h fun _ _ hx => ?_
      refine (recoverExpired_doubts hx).imp_right ?_
      rintro ⟨s, hs, hstate, hafter⟩
      rw [Database.stepNamed, hs, Database.stepNamed, hafter]
      exact .expired hstate
  -- the other requests leave the journal alone
  | _ =>
      have hsteps := perform_writes h .steps (by simp [Request.writes])
      exact .inl (congrArg (fun t : Table StepRecord => t.find _) hsteps)

/-! ## Runs -/

variable {R : Rules ledgerMachine} {row : StepRecord} {after : Option StepRecord}

/-- A step is never deleted, and the operation and the key it was prepared for stay. -/
theorem Edge.identity {w : World} {r : Request} (h : Edge w taskId stepId r (some row) after) :
    ∃ row', after = some row' ∧ row'.operation = row.operation ∧
      row'.idempotencyKey = row.idempotencyKey := by
  cases h <;> exact ⟨_, rfl, rfl, rfl⟩

/-- A verified outcome has no edge. -/
theorem Edge.not_verified {w : World} {r : Request} (h : Edge w taskId stepId r (some row) after)
    (hstate : row.state = .succeeded) : Unverified w.fs row := by
  cases h with
  | applied _ _ _ _ _ _ _ hunverified => exact hunverified
  | reopened _ _ _ _ hunverified => exact hunverified
  | claimed _ hother | finished _ _ _ hother _ | marked _ _ hother | expired hother =>
      rw [hstate] at hother
      cases hother

/-- In one step of any run a step row stays, or moves along an edge of the committed request. -/
theorem step_edge {s s' : System ledgerMachine} (h : Step R s s') (taskId stepId : String) :
    s'.snap.state.db.stepNamed taskId stepId = s.snap.state.db.stepNamed taskId stepId ∨
      ∃ pid r answer, s'.snap.log = s.snap.log ++ [.call pid r (.ok answer)] ∧
        Edge s.snap.state taskId stepId r (s.snap.state.db.stepNamed taskId stepId)
          (s'.snap.state.db.stepNamed taskId stepId) := by
  cases h with
  | spawn p hp => exact .inl rfl
  | crash pid hpid => exact .inl rfl
  | drift w hdrift =>
      have hsteps : w.db.steps = s.snap.state.db.steps := hdrift.agree (t := .steps) (by simp)
      exact .inl (congrArg (fun t : Table StepRecord => t.find _) hsteps)
  | call pid r next env reply w hthread hadmits hperform =>
      refine (perform_edge hperform taskId stepId).imp_right ?_
      rintro ⟨⟨answer, rfl⟩, hedge⟩
      exact ⟨pid, r, answer, rfl, hedge⟩

/-- In every run a step keeps its operation and its key; its row moves only along the edges of
the journal; and while it is succeeded and its receipt verifies, nothing changes it. -/
theorem journal_sound {s : System ledgerMachine}
    (hrow : s.snap.state.db.stepNamed taskId stepId = some row) :
    (∀ s', Steps R s s' → ∃ row', s'.snap.state.db.stepNamed taskId stepId = some row' ∧
      row'.operation = row.operation ∧ row'.idempotencyKey = row.idempotencyKey) ∧
    ∀ s', Step R s s' → ∃ row', s'.snap.state.db.stepNamed taskId stepId = some row' ∧
      (row.state = .succeeded → (∃ result, verifiedReceipt s.snap.state.fs row = .ok result) →
        row' = row) ∧
      (row' = row ∨ ∃ pid r answer, s'.snap.log = s.snap.log ++ [.call pid r (.ok answer)] ∧
        Edge s.snap.state taskId stepId r (some row) (some row')) := by
  refine ⟨fun s' hs => ?_, fun s' hstep => ?_⟩
  · induction hs with
    | refl => exact ⟨row, hrow, rfl, rfl⟩
    | tail _ hstep ih =>
        obtain ⟨mid, hmid, hop, hkey⟩ := ih
        rcases step_edge hstep taskId stepId with hsame | ⟨_, _, _, -, hedge⟩
        · exact ⟨mid, hsame.trans hmid, hop, hkey⟩
        · rw [hmid] at hedge
          obtain ⟨row', hrow', hop', hkey'⟩ := hedge.identity
          exact ⟨row', hrow', hop'.trans hop, hkey'.trans hkey⟩
  · rcases step_edge hstep taskId stepId with hsame | ⟨pid, r, answer, hlog, hedge⟩
    · exact ⟨row, hsame.trans hrow, fun _ _ => rfl, .inl rfl⟩
    · rw [hrow] at hedge
      obtain ⟨row', hrow', -⟩ := hedge.identity
      rw [hrow'] at hedge
      refine ⟨row', hrow', ?_, .inr ⟨pid, r, answer, hlog, hedge⟩⟩
      rintro hstate ⟨result, hresult⟩
      exact absurd hresult (hedge.not_verified hstate result)

end Edges

section Prepared

local instance edgesPrepared : Platform := .reference []

/-- A task outside of the queue prepares a step. -/
def Sample.prepared : List (Surroundings × Request) :=
  [(moment 0 "", .createTask task none),
    (moment 0 "step", .prepareStep none "task" "write" "1" [] none)]

theorem journal_sound_claimed :
    ∃ row, (((Sample.fresh []).script Sample.prepared).asked (Sample.moment 0 "")
        (.claimStep none "task" "step")).snap.state.db.stepNamed "task" "step" = some row ∧
      row.toolId = "write" ∧ row.state = .started := by
  obtain ⟨s, hs⟩ : ∃ s, s = (Sample.fresh []).script Sample.prepared := ⟨_, rfl⟩
  obtain ⟨row, hrow, htool⟩ : ∃ row ∈ s.snap.state.db.stepNamed "task" "step",
      row.toolId = "write" := by
    rw [hs]
    decide +kernel
  have hstarted : ∀ row ∈ (s.asked (Sample.moment 0 "")
      (.claimStep none "task" "step")).snap.state.db.stepNamed "task" "step",
      row.state = .started := by
    rw [hs]
    decide +kernel
  rw [← hs]
  obtain ⟨row', hrow', hop, -⟩ := (journal_sound (R := anyRun) hrow).1 _
    (Steps.asked trivial (fun _ _ => trivial) s (Sample.moment 0 ""))
  exact ⟨row', hrow', (congrArg Prod.fst hop).trans htool, hstarted row' hrow'⟩

end Prepared

end Dante
