import Dante.Verification.Fencing

/-! # The step journal as a state machine

Every request moves each step along an edge of one small machine. What a run does to the
journal, in any interleaving, is then a matter of counting edges. -/

namespace Dante

open JsonText Relational Concurrent

/-! ## The abstract machine -/

/-- The two edges that are counted. -/
inductive StepEvent where
  | claimed
  | reopened
  deriving DecidableEq, Repr

inductive JournalMove : Option StepEvent → StepRecord → StepRecord → Prop where
  | stay (s : StepRecord) : JournalMove none s s
  | claimed {s : StepRecord} (hintent : s.state = .intent) :
      JournalMove (some .claimed) s
        { s with state := .started, attempt := s.attempt + 1, error := none }
  | finished {s : StepRecord} (safe : Dict Json) (safeDigest : String)
      (hstarted : s.state = .started) :
      JournalMove none s { s with
        state := .succeeded
        result := some safe
        resultDigest := some safeDigest
        error := none }
  | doubted {s : StepRecord} (error : String) (hstarted : s.state = .started) :
      JournalMove none s { s with state := .uncertain, error := some error }
  | applied {s : StepRecord} (safe : Dict Json) (safeDigest artifactId : String)
      (hdue : s.state ≠ .intent) :
      JournalMove none s { s with
        state := .succeeded
        result := some safe
        resultDigest := some safeDigest
        evidenceRef := some artifactId
        error := none }
  | reopened {s : StepRecord} (artifactId : String) (hdue : s.state ≠ .intent) :
      JournalMove (some .reopened) s
        { s with state := .intent, evidenceRef := some artifactId, error := none }

/-- A row of the journal, before and after: absent, inserted, or moved. -/
inductive JournalStep : Option StepEvent → Option StepRecord → Option StepRecord → Prop where
  | absent : JournalStep none none none
  | prepared (stepId taskId toolId toolVersion argsDigest key : String) (createdAt : ℚ) :
      JournalStep none none
        (some (.prepared stepId taskId toolId toolVersion argsDigest key createdAt))
  | moved {event : Option StepEvent} {s s' : StepRecord} (h : JournalMove event s s') :
      JournalStep event (some s) (some s')

theorem JournalStep.stay (row : Option StepRecord) : JournalStep none row row := by
  cases row with
  | none => exact .absent
  | some s => exact .moved (.stay s)

theorem JournalStep.of_eq {row row' : Option StepRecord} (h : row' = row) :
    JournalStep none row row' :=
  h ▸ .stay row

/-- Of the edges of the journal only a claim starts a step. -/
theorem JournalStep.not_started {event : Option StepEvent} {before after : StepRecord}
    (h : JournalStep event (some before) (some after)) (hevent : event ≠ some .claimed)
    (hintent : before.state = .intent) : after.state ≠ .started := by
  cases h with
  | moved hmove =>
      cases hmove with
      | stay => simp [hintent]
      | claimed => exact absurd rfl hevent
      | _ => simp

variable {db db' : Database} {now : ℚ} {clock : ℕ → ℚ} {fs : FileSystem} {owner : Option Lease}
  {taskId stepId : String} {u : Unit}

/-! ## Updates of one row -/

/-- The row of a step, if it was prepared. -/
def Database.stepNamed (db : Database) (taskId stepId : String) : Option StepRecord :=
  db.steps.find (StepRecord.named taskId stepId)

/-- Between two states the step was claimed: it went from `intent` to `started`. -/
def Database.Claims (db db' : Database) (taskId stepId : String) : Prop :=
  ∃ before after, db.stepNamed taskId stepId = some before ∧ before.state = .intent ∧
    db'.stepNamed taskId stepId = some after ∧ after.state = .started

theorem named_of_find {t : Table StepRecord} {s : StepRecord}
    (h : t.find (StepRecord.named taskId stepId) = some s) :
    s.taskId = taskId ∧ s.stepId = stepId := by
  simpa [StepRecord.named] using Table.pred_of_find h

/-- Two steps with one id are the same row. -/
theorem sameId_determines (step : String) :
    Determines (fun s : StepRecord => s.stepId == step) := by
  intro a b ha hb
  simp only [beq_iff_eq] at ha hb
  simp [clashes, Row.clash, Row.key, ha, hb]

/-- How an update shows in the row of one step. -/
theorem find_updateSteps (p : StepRecord → Bool) (f : StepRecord → StepRecord) (hf : KeepsKey f) :
    (db.updateSteps p f hf).steps.find (StepRecord.named taskId stepId) =
      (db.steps.find (StepRecord.named taskId stepId)).map (fun s => if p s then f s else s) := by
  refine Table.find_update hf fun s => ?_
  have hkey : ((f s).stepId, (f s).taskId, (f s).idempotencyKey) =
      (s.stepId, s.taskId, s.idempotencyKey) := hf s
  simp only [Prod.mk.injEq] at hkey
  simp only [StepRecord.named, hkey.1, hkey.2.1]

theorem journal_updateSteps {p : StepRecord → Bool} {f : StepRecord → StepRecord}
    (hf : KeepsKey f) {event : Option StepEvent}
    (hmove : ∀ s, db.steps.find (StepRecord.named taskId stepId) = some s →
      JournalMove event s (if p s then f s else s))
    (habsent : db.steps.find (StepRecord.named taskId stepId) = none → event = none) :
    JournalStep event (db.steps.find (StepRecord.named taskId stepId))
      ((db.updateSteps p f hf).steps.find (StepRecord.named taskId stepId)) := by
  rw [find_updateSteps]
  cases hfind : db.steps.find (StepRecord.named taskId stepId) with
  | none =>
      rw [habsent hfind]
      exact .absent
  | some s => exact .moved (hmove s hfind)

def Outcome.event : Outcome → Option StepEvent
  | .applied => none
  | .notApplied => some .reopened

/-- The edge of a row that `claim_step` or `reconcile_step` has just committed. -/
def stepEventOf (taskId stepId : String) : (r : Request) → Except Exn r.Reply → Option StepEvent
  | .claimStep _ task step, .ok _ =>
      if task = taskId ∧ step = stepId then some .claimed else none
  | .reconcileStep task step _ _, .ok outcome =>
      if task = taskId ∧ step = stepId then Outcome.event outcome else none
  | _, _ => none

/-- Of the rows that have a step's id, only that step's row is updated under a state test. -/
theorem namedIn_eq {s : StepRecord} {task step : String} {state : StepState}
    (hs : s.taskId = taskId ∧ s.stepId = stepId) :
    s.namedIn task step state = true ↔ (task = taskId ∧ step = stepId) ∧ s.state = state := by
  simp only [StepRecord.namedIn, StepRecord.named, hs.1, hs.2, Bool.and_eq_true, beq_iff_eq]
  rw [eq_comm (b := task), eq_comm (b := step)]

theorem journal_namedIn {task step : String} {state : StepState} {f : StepRecord → StepRecord}
    (hf : KeepsKey f) (hmove : ∀ s : StepRecord, s.state = state → JournalMove none s (f s)) :
    JournalStep none (db.steps.find (StepRecord.named taskId stepId))
      ((db.updateSteps (StepRecord.namedIn task step state) f hf).steps.find
        (StepRecord.named taskId stepId)) := by
  refine journal_updateSteps hf (fun s hs => ?_) (fun _ => rfl)
  split
  next hp => exact hmove s ((namedIn_eq (named_of_find hs)).mp hp).2
  next => exact .stay s

/-! ## Single operations -/

theorem steps_cancelled (task : Task) : (db.cancelled task).steps = db.steps := rfl

theorem CancelledOnRequest.steps_eq {mid : Database} {row : QueueRow} {task t : Task}
    (h : CancelledOnRequest row db task t mid) : mid.steps = db.steps := by
  cases h with
  | cancelled => rfl
  | kept => rfl

/-- Recovery of a row doubts the steps in flight of its task, and no others. -/
theorem recoverRow_steps {row : QueueRow} (h : recoverRow row db = .ok db') :
    db'.steps = (db.expireSteps row.taskId).steps := by
  obtain ⟨_, _, mid, _, -, hcancel, -, rfl⟩ := recoverRow_ok h
  rw [Database.log_steps, Database.updateQueue_steps, hcancel.steps_eq]

/-- A row is as it was, or was in flight and is now in doubt. -/
def Doubted (before after : Option StepRecord) : Prop :=
  after = before ∨ ∃ s, before = some s ∧ s.state = .started ∧
    after = some { s with state := .uncertain, error := some "lease_expired" }

theorem Doubted.trans {a b c : Option StepRecord} (h : Doubted a b) (h' : Doubted b c) :
    Doubted a c := by
  rcases h with rfl | ⟨s, rfl, hs, rfl⟩
  · exact h'
  · rcases h' with rfl | ⟨s', hs', hstate, rfl⟩
    · exact .inr ⟨s, rfl, hs, rfl⟩
    · cases hs'
      cases hstate

theorem Doubted.journal {before after : Option StepRecord} (h : Doubted before after) :
    JournalStep none before after := by
  rcases h with rfl | ⟨s, rfl, hs, rfl⟩
  · exact .stay _
  · exact .moved (.doubted _ hs)

theorem recoverRow_doubts {row : QueueRow} (h : recoverRow row db = .ok db') :
    Doubted (db.steps.find (StepRecord.named taskId stepId))
      (db'.steps.find (StepRecord.named taskId stepId)) := by
  rw [recoverRow_steps h, Database.expireSteps, find_updateSteps]
  cases hfind : db.steps.find (StepRecord.named taskId stepId) with
  | none => exact .inl rfl
  | some s =>
      rw [Option.map_some]
      split
      next hp =>
        simp only [Bool.and_eq_true, beq_iff_eq] at hp
        exact .inr ⟨s, rfl, hp.2, rfl⟩
      next => exact .inl rfl

theorem recoverExpired_doubts {n : ℕ} (h : recoverExpired now db = .ok (n, db')) :
    Doubted (db.steps.find (StepRecord.named taskId stepId))
      (db'.steps.find (StepRecord.named taskId stepId)) := by
  have hfold := recoverExpired_ok h
  generalize db.queue.rows.filter (QueueRow.expired now) = rows at hfold
  clear h
  induction rows generalizing db with
  | nil =>
      cases hfold
      exact .inl rfl
  | cons row rest ih =>
      simp only [List.foldlM_cons, Except.bind_eq_ok] at hfold
      obtain ⟨next, hnext, hrest⟩ := hfold
      exact (recoverRow_doubts hnext).trans (ih hrest)

variable [Platform]

theorem prepareStep_journal {task toolId toolVersion newId : String} {arguments : Dict Json}
    {idempotencyKey : Option String} {answer : Prepared}
    (h : prepareStep owner task toolId toolVersion arguments idempotencyKey clock newId db
      = .ok (answer, db')) :
    JournalStep none (db.steps.find (StepRecord.named taskId stepId))
      (db'.steps.find (StepRecord.named taskId stepId)) := by
  obtain ⟨_, _, _, -, -, -, -, -, ⟨_, -, rfl, -⟩ | ⟨-, hnew⟩⟩ := prepareStep_ok h
  · exact .stay _
  · obtain ⟨steps, hins, rfl⟩ := hnew.inserted
    have hfind := Table.find_insert hins (p := StepRecord.named taskId stepId)
    rw [Database.event_steps, hfind]
    cases hold : db.steps.find (StepRecord.named taskId stepId) with
    | some s => exact .stay _
    | none =>
        rw [Option.none_or]
        split
        · exact .prepared ..
        · exact .absent

theorem claimStep_journal {task step : String}
    (h : claimStep owner task step now fs db = .ok (u, db')) :
    JournalStep (if task = taskId ∧ step = stepId then some .claimed else none)
      (db.steps.find (StepRecord.named taskId stepId))
      (db'.steps.find (StepRecord.named taskId stepId)) := by
  obtain ⟨_, found, -, -, -, hfound, -, rfl⟩ := claimStep_ok h
  rw [Database.event_steps]
  by_cases hsame : task = taskId ∧ step = stepId
  · obtain ⟨rfl, rfl⟩ := hsame
    rw [if_pos ⟨rfl, rfl⟩]
    have hrow : db.steps.find (StepRecord.named task step) = some found := by
      have hp := Table.pred_of_find hfound
      simp only [StepRecord.namedIn, Bool.and_eq_true] at hp
      exact (Table.find_eq_some_iff (StepRecord.named_determines task step)).mpr
        ⟨Table.mem_of_find hfound, hp.1⟩
    refine journal_updateSteps _ (fun s hs => ?_) (fun hnone => by rw [hrow] at hnone; cases hnone)
    cases hrow.symm.trans hs
    rw [if_pos (Table.pred_of_find hfound)]
    have hstate := ((namedIn_eq (named_of_find hrow)).mp (Table.pred_of_find hfound)).2
    exact .claimed hstate
  · rw [if_neg hsame]
    refine journal_updateSteps _ (fun s hs => ?_) (fun _ => rfl)
    rw [if_neg fun hp => hsame ((namedIn_eq (named_of_find hs)).mp hp).1]
    exact .stay s

theorem reconcileStep_journal {task step artifactId actor : String} {outcome : Outcome}
    (h : reconcileStep task step artifactId actor fs db = .ok (outcome, db')) :
    JournalStep (if task = taskId ∧ step = stepId then outcome.event else none)
      (db.steps.find (StepRecord.named taskId stepId))
      (db'.steps.find (StepRecord.named taskId stepId)) := by
  obtain ⟨_, found, _, f, hf, -, -, hfound, hdue, -, rfl⟩ := reconcileStep_ok h
  rw [Database.event_steps]
  have hnamed := named_of_find hfound
  by_cases hsame : task = taskId ∧ step = stepId
  · obtain ⟨rfl, rfl⟩ := hsame
    rw [if_pos ⟨rfl, rfl⟩]
    refine journal_updateSteps _ (fun s hs => ?_)
      (fun hnone => by rw [hfound] at hnone; cases hnone)
    cases hfound.symm.trans hs
    rw [if_pos (by simp [hnamed.2])]
    cases hf with
    | applied safe safeDigest => exact .applied safe safeDigest _ hdue
    | notApplied => exact .reopened _ hdue
  · rw [if_neg hsame]
    refine journal_updateSteps _ (fun s hs => ?_) (fun _ => rfl)
    rw [if_neg]
    · exact .stay s
    · intro hp
      have hother := named_of_find hs
      have heq := Table.eq_of_determines (sameId_determines step) (Table.mem_of_find hfound)
        (Table.mem_of_find hs) (by simp [hnamed.2]) hp
      subst heq
      exact hsame ⟨hnamed.1.symm.trans hother.1, hnamed.2.symm.trans hother.2⟩

/-! ## Every request -/

omit [Platform] in
theorem commit_journal {α : Type} {w w' : World} {x : Except Exn (α × Database)}
    {reply : Except Exn α} (h : w.commit x = (reply, w'))
    (hx : ∀ a db', x = .ok (a, db') →
      JournalStep none (w.db.steps.find (StepRecord.named taskId stepId))
        (db'.steps.find (StepRecord.named taskId stepId))) :
    JournalStep none (w.db.steps.find (StepRecord.named taskId stepId))
      (w'.db.steps.find (StepRecord.named taskId stepId)) := by
  rcases commit_cases h with ⟨a, db', ha, -, rfl⟩ | ⟨-, -, -, rfl⟩
  · exact hx a db' ha
  · exact .stay _

/-- The model refines the journal machine: one request moves each step along one edge. -/
theorem perform_journal {env : Surroundings} {r : Request} {w w' : World}
    {reply : Except Exn r.Reply} (h : perform env r w = (reply, w')) (taskId stepId : String) :
    JournalStep (stepEventOf taskId stepId r reply)
      (w.db.steps.find (StepRecord.named taskId stepId))
      (w'.db.steps.find (StepRecord.named taskId stepId)) := by
  cases r with
  | claimStep =>
      rcases commit_cases h with ⟨answer, db', hx, rfl, rfl⟩ | ⟨e, -, rfl, rfl⟩
      · exact claimStep_journal hx
      · exact .stay _
  | reconcileStep =>
      rcases commit_cases h with ⟨answer, db', hx, rfl, rfl⟩ | ⟨e, -, rfl, rfl⟩
      · exact reconcileStep_journal hx
      · exact .stay _
  | prepareStep => exact commit_journal h fun _ _ hx => prepareStep_journal hx
  | finishStep =>
      refine commit_journal h fun _ _ hx => ?_
      obtain ⟨_, _, safeDigest, -, -, -, -, -, rfl⟩ := finishStep_ok hx
      refine journal_namedIn ?_ fun s hs => ?_
      · exact fun _ => rfl
      · exact .finished _ safeDigest hs
  | markUncertain =>
      refine commit_journal h fun _ _ hx => ?_
      obtain ⟨_, -, -, -, rfl⟩ := markUncertain_ok hx
      refine journal_namedIn ?_ fun s hs => ?_
      · exact fun _ => rfl
      · exact .doubted _ hs
  | recoverExpired => exact commit_journal h fun _ _ hx => (recoverExpired_doubts hx).journal
  -- the other requests leave the journal alone
  | _ =>
      have hsteps := perform_writes h .steps (by simp [Request.writes])
      exact .of_eq (congrArg (fun t : Table StepRecord => t.find _) hsteps)

end Dante
