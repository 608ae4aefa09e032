import Dante.Verification.StepEdges

/-! # Records that refer to one another

A task lists its artifacts and names its route, acceptance rows and steps name artifacts. No
foreign key ties them: every operation keeps the references itself. -/

namespace Dante

open JsonText Relational Concurrent

variable {db db' mid : Database} {taskId : String}

/-! ## What is referred to -/

/-- The artifacts of a task, in order of insertion. -/
def Database.artifactIds (db : Database) (taskId : String) : List String :=
  (db.artifactsOf taskId).map Artifact.artifactId

/-- The references that a task's payload holds. -/
def TaskRow.refs (row : TaskRow) : List String × Option String :=
  (row.payload.artifacts, row.payload.selectedRoute)

/-- `==` on contracts: the instructions agree as mappings. -/
structure AcceptanceContract.Equal (a b : AcceptanceContract) : Prop where
  tools : a.requiredTools = b.requiredTools
  artifacts : a.requiredArtifacts = b.requiredArtifacts
  fields : a.requiredFinalFields = b.requiredFinalFields
  instructions : ∀ key, a.instructions.lookup key = b.instructions.lookup key

theorem AcceptanceContract.Equal.refl (a : AcceptanceContract) : a.Equal a :=
  ⟨rfl, rfl, rfl, fun _ => rfl⟩

theorem AcceptanceContract.Equal.trans {a b c : AcceptanceContract} (h : a.Equal b)
    (h' : b.Equal c) : a.Equal c :=
  ⟨h.tools.trans h'.tools, h.artifacts.trans h'.artifacts, h.fields.trans h'.fields,
    fun key => (h.instructions key).trans (h'.instructions key)⟩

theorem lookup_of_same {a b : Dict String} (h : Dict.same a b = true) (key : String) :
    a.lookup key = b.lookup key := by
  simp only [Dict.same, Bool.and_eq_true, List.all_eq_true, beq_iff_eq] at h
  cases ha : a.lookup key with
  | some value => exact (h.1 _ (mem_of_lookup ha)).symm
  | none =>
      cases hb : b.lookup key with
      | none => rfl
      | some value =>
          have hback := h.2 _ (mem_of_lookup hb)
          rw [ha] at hback
          cases hback

theorem AcceptanceContract.Equal.of_same {a b : AcceptanceContract} (h : a.same b = true) :
    a.Equal b := by
  simp only [AcceptanceContract.same, Bool.and_eq_true, decide_eq_true_eq] at h
  obtain ⟨⟨⟨htools, hartifacts⟩, hfields⟩, hinstructions⟩ := h
  exact ⟨htools, hartifacts, hfields, lookup_of_same hinstructions⟩

theorem Dict.mem_update {α : Type} {d other : Dict α} {entry : String × α}
    (h : entry ∈ d.update other) : entry ∈ d ∨ entry ∈ other := by
  induction other generalizing d with
  | nil => exact .inl h
  | cons f rest ih =>
      rcases ih (d := d.set f.1 f.2) h with hset | hrest
      · rcases Dict.mem_set hset with hold | ⟨hname, hvalue⟩
        · exact .inl hold
        · exact .inr (List.mem_cons.mpr (.inl (Prod.ext hname hvalue)))
      · exact .inr (List.mem_cons_of_mem _ hrest)

/-- The flags stay set, and a locked contract stays. -/
structure AcceptanceRow.Holds (row row' : AcceptanceRow) : Prop where
  strict : row.strict = true → row'.strict = true
  locked : row.locked = true → row'.locked = true
  contract : row.locked = true → row.contract.Equal row'.contract

theorem AcceptanceRow.Holds.refl (row : AcceptanceRow) : row.Holds row :=
  ⟨fun h => h, fun h => h, fun _ => .refl _⟩

theorem AcceptanceRow.Holds.trans {a b c : AcceptanceRow} (h : a.Holds b) (h' : b.Holds c) :
    a.Holds c :=
  ⟨fun hs => h'.strict (h.strict hs), fun hl => h'.locked (h.locked hl),
    fun hl => (h.contract hl).trans (h'.contract (h.locked hl))⟩

/-! ## Consistency -/

/-- What the tables say of one task agrees. -/
structure Database.ConsistentAt (db : Database) (taskId : String) : Prop where
  accepted : (db.acceptance.get? taskId).isSome = (db.tasks.get? taskId).isSome
  listed : db.artifactIds taskId = ((db.tasks.get? taskId).map (TaskRow.refs · |>.1)).getD []
  routed : ∀ row, db.tasks.get? taskId = some row → ∀ routeId,
    row.payload.selectedRoute = some routeId →
      ∃ route, db.routes.get? routeId = some route ∧ route.taskId = taskId
  evidenced : ∀ row, db.acceptance.get? taskId = some row → ∀ entry ∈ row.finalEvidence,
    entry.2 ∈ db.artifactIds taskId
  referenced : ∀ stepId step, db.stepNamed taskId stepId = some step → ∀ ref,
    step.evidenceRef = some ref → ref ∈ db.artifactIds taskId

theorem Database.empty_consistentAt : Database.empty.ConsistentAt taskId where
  accepted := rfl
  listed := rfl
  routed := fun _ h => by cases h
  evidenced := fun _ h => by cases h
  referenced := fun _ _ h => by cases h

theorem artifactIds_nodup (db : Database) (taskId : String) : (db.artifactIds taskId).Nodup := by
  refine List.pairwise_map.mpr ((db.artifacts.unique.filter _).imp ?_)
  intro a b hclash hsame
  simp [clashes, Row.clash, Row.key, Keyed.primary, hsame] at hclash

/-- An artifact found under the task's id is one of the task's. -/
theorem mem_artifactIds {a : Artifact} {artifactId : String}
    (h : db.artifacts.find (Artifact.ownedBy taskId artifactId) = some a) :
    artifactId ∈ db.artifactIds taskId := by
  have howned := Table.pred_of_find h
  simp only [Artifact.ownedBy, Bool.and_eq_true, beq_iff_eq] at howned
  refine List.mem_map.mpr ⟨a, List.mem_filter.mpr ⟨Table.mem_of_find h, ?_⟩, howned.1⟩
  simp [howned.2]

/-! ## What one request does to the records of a task -/

/-- How an acceptance row of the task may change. -/
structure AcceptanceRow.Moves (ids : List String) (row row' : AcceptanceRow) : Prop where
  holds : row.Holds row'
  evidence : ∀ entry ∈ row'.finalEvidence, entry ∈ row.finalEvidence ∨ entry.2 ∈ ids

theorem AcceptanceRow.Moves.refl (ids : List String) (row : AcceptanceRow) : row.Moves ids row :=
  ⟨.refl row, fun _ h => .inl h⟩

/-- How a committed request changes the records of a task. -/
inductive RecordEdge (taskId : String) (db db' : Database) : Prop where
  | kept (htask : (db'.tasks.get? taskId).map TaskRow.refs =
        (db.tasks.get? taskId).map TaskRow.refs)
      (haccepted : Option.Rel (AcceptanceRow.Moves (db.artifactIds taskId))
        (db.acceptance.get? taskId) (db'.acceptance.get? taskId))
      (hids : db'.artifactIds taskId = db.artifactIds taskId)
  | created (row : TaskRow) (accepted : AcceptanceRow) (hfree : db.tasks.get? taskId = none)
      (hnone : db.acceptance.get? taskId = none)
      (htask : db'.tasks.get? taskId = some row) (hrefs : row.refs = ([], none))
      (haccepted : db'.acceptance.get? taskId = some accepted)
      (hevidence : accepted.finalEvidence = [])
      (hids : db'.artifactIds taskId = db.artifactIds taskId)
  | routed (row : TaskRow) (routeId : String) (route : RouteDecision)
      (hold : db.tasks.get? taskId = some row)
      (htask : (db'.tasks.get? taskId).map TaskRow.refs =
        some (row.payload.artifacts, some routeId))
      (hroute : db'.routes.get? routeId = some route) (howner : route.taskId = taskId)
      (haccepted : db'.acceptance = db.acceptance)
      (hids : db'.artifactIds taskId = db.artifactIds taskId)
  | extended (row : TaskRow) (artifactId : String) (hold : db.tasks.get? taskId = some row)
      (htask : (db'.tasks.get? taskId).map TaskRow.refs =
        some ((row.payload.withArtifact artifactId).artifacts, row.payload.selectedRoute))
      (hfresh : artifactId ∉ db.artifactIds taskId)
      (haccepted : db'.acceptance = db.acceptance)
      (hids : db'.artifactIds taskId = db.artifactIds taskId ++ [artifactId])

theorem rel_refl {α : Type} {r : α → α → Prop} (hr : ∀ a, r a a) (x : Option α) :
    Option.Rel r x x := by
  cases x with
  | none => exact .none
  | some a => exact .some (hr a)

/-- A task's records are the same when its tables are. -/
theorem RecordEdge.of_kept (htask : (db'.tasks.get? taskId).map TaskRow.refs =
      (db.tasks.get? taskId).map TaskRow.refs)
    (haccepted : db'.acceptance = db.acceptance) (hartifacts : db'.artifacts = db.artifacts) :
    RecordEdge taskId db db' := by
  refine .kept htask ?_ ?_
  · rw [haccepted]
    exact rel_refl (AcceptanceRow.Moves.refl _) _
  · simp only [Database.artifactIds, Database.artifactsOf, hartifacts]

/-- An update of a task's other fields. -/
theorem refs_updateTask {id : String} {f : Task → Task} (hf : ∀ t, (f t).taskId = t.taskId)
    (hrefs : ∀ t : Task, (f t).artifacts = t.artifacts ∧ (f t).selectedRoute = t.selectedRoute) :
    ((db.updateTask id f hf).tasks.get? taskId).map TaskRow.refs =
      (db.tasks.get? taskId).map TaskRow.refs := by
  rw [Database.updateTask_tasks, Table.get?_modify]
  split
  · rw [Option.map_map]
    refine Option.map_congr fun row _ => ?_
    simp only [Function.comp, TaskRow.refs, (hrefs row.payload).1, (hrefs row.payload).2]
  · rfl

theorem refs_cancelled (task : Task) :
    ((db.cancelled task).tasks.get? taskId).map TaskRow.refs =
      (db.tasks.get? taskId).map TaskRow.refs :=
  refs_updateTask (f := fun t => { t with status := .cancelled }) (fun _ => rfl)
    fun _ => ⟨rfl, rfl⟩

theorem CancelledOnRequest.refs {row : QueueRow} {task t : Task}
    (h : CancelledOnRequest row db task t mid) :
    (mid.tasks.get? taskId).map TaskRow.refs = (db.tasks.get? taskId).map TaskRow.refs := by
  cases h with
  | cancelled => exact refs_cancelled task
  | kept => rfl

theorem recoverRows_refs {rows : List QueueRow}
    (h : rows.foldlM (fun db row => recoverRow row db) db = .ok db') :
    (db'.tasks.get? taskId).map TaskRow.refs = (db.tasks.get? taskId).map TaskRow.refs := by
  induction rows generalizing db with
  | nil =>
      cases h
      rfl
  | cons row rest ih =>
      simp only [List.foldlM_cons, Except.bind_eq_ok] at h
      obtain ⟨next, hnext, hrest⟩ := h
      obtain ⟨taskRow, task, mid, logged, -, hcancel, -, rfl⟩ := recoverRow_ok hnext
      exact (ih hrest).trans hcancel.refs

/-- A modified acceptance row, seen from one task. -/
theorem moves_updateAcceptance {id : String} {f : AcceptanceRow → AcceptanceRow}
    (hf : ∀ r, (f r).taskId = r.taskId)
    (hmoves : id = taskId → ∀ row, db.acceptance.get? taskId = some row →
      row.Moves (db.artifactIds taskId) (f row)) :
    Option.Rel (AcceptanceRow.Moves (db.artifactIds taskId)) (db.acceptance.get? taskId)
      ((db.updateAcceptance id f hf).acceptance.get? taskId) := by
  rw [Database.updateAcceptance_acceptance, Table.get?_modify]
  split
  next hid =>
    cases hrow : db.acceptance.get? taskId with
    | none => exact .none
    | some row => exact .some (hmoves hid.symm row hrow)
  next => exact rel_refl (AcceptanceRow.Moves.refl _) _

section Requests

variable [Platform] {env : Surroundings} {r : Request} {w w' : World}
  {reply : Except Exn r.Reply}

/-- The artifact that `record_final_evidence` refers to was found under the task's id. -/
theorem recordFinalEvidence_checked {artifactId : String} {fs : FileSystem} {u : Unit}
    (h : recordFinalEvidence taskId artifactId fs db = .ok (u, db')) :
    ∃ row, ∃ keys : List String, ∃ artifact, db.tasks.get? taskId = some row ∧
      db.artifacts.find (Artifact.ownedBy taskId artifactId) = some artifact ∧
      db' = (db.updateAcceptance taskId (fun r => { r with
            finalEvidence := r.finalEvidence.update (keys.map (·, artifactId)) })
          (fun _ => rfl)).event row.payload "acceptance.final_evidence"
        (some row.payload.status) [("artifact_id", .str artifactId)] := by
  simp only [recordFinalEvidence, Except.bind_eq_ok, activeTask_ok, orRaise_eq_ok] at h
  obtain ⟨_, ⟨⟨row, hrow, rfl⟩, -⟩, artifact, hchecked, _, -, keys, -, _, -, h⟩ := h
  cases h
  exact ⟨row, keys, artifact, hrow, (checkedArtifact_ok.mp hchecked).1, rfl⟩

/-- The assumptions on ids: a task starts with no artifact and no route, and a route id
belongs to one task. -/
def Request.Fresh (db : Database) : Request → Prop
  | .createTask task _ | .submit task _ => task.artifacts = [] ∧ task.selectedRoute = none
  | .setRoute _ decision => ∀ route, db.routes.get? decision.routeId = some route →
      route.taskId = decision.taskId
  | _ => True

omit [Platform] in
theorem commit_recordEdge {α : Type} {x : Except Exn (α × Database)} {reply : Except Exn α}
    (h : w.commit x = (reply, w')) (hx : ∀ a db', x = .ok (a, db') → RecordEdge taskId w.db db') :
    RecordEdge taskId w.db w'.db := by
  rcases commit_cases h with ⟨a, db', ha, -, rfl⟩ | ⟨-, -, -, rfl⟩
  · exact hx a db' ha
  · exact .of_kept rfl rfl rfl

omit [Platform] in
theorem createTask_recordEdge {task t : Task} {acceptance : Option AcceptanceContract}
    (hfresh : task.artifacts = [] ∧ task.selectedRoute = none)
    (h : createTask task acceptance db = .ok (t, db')) : RecordEdge taskId db db' := by
  obtain ⟨tasks, accepted, htasks, haccepted, -, rfl⟩ := createTask_ok h
  rcases get?_insert_cases htasks taskId with ⟨hid, hfree, hnew⟩ | ⟨hid, hold⟩
  · rcases get?_insert_cases haccepted taskId with ⟨-, hnone, hrow⟩ | ⟨hother, -⟩
    · exact .created _ _ hfree hnone hnew (Prod.ext hfresh.1 hfresh.2) hrow rfl rfl
    · exact absurd hid hother
  · rcases get?_insert_cases haccepted taskId with ⟨hother, -⟩ | ⟨-, hrow⟩
    · exact absurd hother hid
    · refine .kept (congrArg _ hold) ?_ rfl
      rw [Database.event_acceptance, hrow]
      exact rel_refl (AcceptanceRow.Moves.refl _) _

theorem submit_recordEdge {task t : Task} {plan : ExecutionPlan}
    (hfresh : task.artifacts = [] ∧ task.selectedRoute = none)
    (h : submit task plan db = .ok (t, db')) : RecordEdge taskId db db' := by
  obtain ⟨tasks, accepted, _, _, -, -, -, htasks, haccepted, -, rfl⟩ := submit_ok h
  rcases get?_insert_cases htasks taskId with ⟨hid, hfree, hnew⟩ | ⟨hid, hold⟩
  · rcases get?_insert_cases haccepted taskId with ⟨-, hnone, hrow⟩ | ⟨hother, -⟩
    · exact .created _ _ hfree hnone hnew (Prod.ext hfresh.1 hfresh.2) hrow rfl rfl
    · exact absurd hid hother
  · rcases get?_insert_cases haccepted taskId with ⟨hother, -⟩ | ⟨-, hrow⟩
    · exact absurd hother hid
    · refine .kept (congrArg _ hold) ?_ rfl
      rw [Database.event_acceptance, Database.event_acceptance, hrow]
      exact rel_refl (AcceptanceRow.Moves.refl _) _

omit [Platform] in
theorem setRoute_recordEdge {owner : Option Lease} {decision : RouteDecision} {now : ℚ} {task : Task}
    (hfresh : ∀ route, db.routes.get? decision.routeId = some route →
      route.taskId = decision.taskId)
    (h : setRoute owner decision now db = .ok (task, db')) : RecordEdge taskId db db' := by
  obtain ⟨row, hrow, -, rfl⟩ := setRoute_ok h
  by_cases hid : taskId = decision.taskId
  · subst hid
    have hstored : (db.routes.ensure decision).get? decision.routeId =
        some ((db.routes.get? decision.routeId).getD decision) := by
      rw [Table.get?_ensure]
      exact if_pos rfl
    refine .routed row decision.routeId _ hrow ?_ hstored ?_ rfl rfl
    · rw [Database.event_tasks, Database.updateTask_tasks, Table.get?_modify, if_pos rfl, hrow]
      rfl
    · cases hroute : db.routes.get? decision.routeId with
      | none => rfl
      | some route => exact hfresh route hroute
  · refine .of_kept ?_ rfl rfl
    rw [Database.event_tasks, Database.updateTask_tasks, Table.get?_modify, if_neg hid]

omit [Platform] in
theorem artifactIds_insert {artifact : Artifact} {artifacts : Table Artifact}
    (hins : db.artifacts.insert artifact = some artifacts)
    (hafter : db'.artifacts = artifacts) :
    db'.artifactIds taskId =
      db.artifactIds taskId ++ if artifact.taskId = taskId then [artifact.artifactId] else [] := by
  subst hafter
  simp only [Database.artifactIds, Database.artifactsOf, Table.rows_insert hins,
    List.filter_append, List.map_append]
  by_cases howner : artifact.taskId = taskId <;> simp [howner]

omit [Platform] in
theorem addArtifact_recordEdge {artifact : Artifact} {task : Task}
    (h : addArtifact artifact db = .ok (task, db')) : RecordEdge taskId db db' := by
  obtain ⟨row, artifacts, hrow, -, hins, rfl⟩ := addArtifact_ok h
  by_cases hid : taskId = artifact.taskId
  · subst hid
    refine .extended row artifact.artifactId hrow ?_ ?_ rfl ?_
    · rw [Database.event_tasks, Database.updateTask_tasks, Table.get?_modify, if_pos rfl, hrow]
      rfl
    · intro hmem
      obtain ⟨a, ha, hsame⟩ := List.mem_map.mp hmem
      have hclash := (Table.insert_eq_some_iff.mp hins).1 a (List.mem_of_mem_filter ha)
      have hkey : a.artifactId = artifact.stored.artifactId := hsame
      simp [clashes, Row.clash, Row.key, Keyed.primary, hkey] at hclash
    · have hown : artifact.stored.taskId = artifact.taskId := rfl
      rw [artifactIds_insert hins rfl, if_pos hown]
      rfl
  · refine .kept ?_ (rel_refl (AcceptanceRow.Moves.refl _) _) ?_
    · rw [Database.event_tasks, Database.updateTask_tasks, Table.get?_modify, if_neg hid]
    · have hne : ¬artifact.stored.taskId = taskId := fun hsame => hid hsame.symm
      rw [artifactIds_insert hins rfl, if_neg hne, List.append_nil]

omit [Platform] in
theorem bindAcceptance_recordEdge {id : String} {contract : AcceptanceContract} {u : Unit}
    (h : bindAcceptance id contract db = .ok (u, db')) : RecordEdge taskId db db' := by
  obtain ⟨_, accepted, -, -, hacc, hsame, rfl⟩ := bindAcceptance_ok h
  refine .kept rfl (moves_updateAcceptance (by intro _; rfl) ?_) rfl
  rintro rfl row hrow
  obtain rfl : accepted = row := Option.some.inj (hacc.symm.trans hrow)
  exact ⟨⟨fun hs => hs, fun _ => rfl, fun hl => .of_same (hsame hl)⟩, fun _ he => .inl he⟩

theorem recordObservations_recordEdge {id : String} {observed : ObservedAcceptance} {u : Unit}
    (h : recordObservations id observed db = .ok (u, db')) : RecordEdge taskId db db' := by
  obtain ⟨_, _, -, -, -, ⟨-, rfl⟩ | ⟨-, rfl⟩⟩ := recordObservations_ok h
  · exact .of_kept rfl rfl rfl
  · refine .kept rfl (moves_updateAcceptance (by intro _; rfl) ?_) rfl
    rintro rfl row -
    exact ⟨⟨fun hs => hs, fun hl => hl, fun _ => .refl _⟩, fun _ he => .inl he⟩

theorem recordFinalEvidence_recordEdge {id artifactId : String} {fs : FileSystem} {u : Unit}
    (h : recordFinalEvidence id artifactId fs db = .ok (u, db')) : RecordEdge taskId db db' := by
  obtain ⟨_, keys, _, -, hchecked, rfl⟩ := recordFinalEvidence_checked h
  refine .kept rfl (moves_updateAcceptance (by intro _; rfl) ?_) rfl
  rintro rfl row -
  refine ⟨⟨fun hs => hs, fun hl => hl, fun _ => .refl _⟩, fun entry he => ?_⟩
  rcases Dict.mem_update he with hold | hnew
  · exact .inl hold
  · obtain ⟨key, -, rfl⟩ := List.mem_map.mp hnew
    exact .inr (mem_artifactIds hchecked)

theorem prepareStep_recordEdge {owner : Option Lease} {id toolId toolVersion newId : String}
    {arguments : Dict Json} {idempotencyKey : Option String} {clock : ℕ → ℚ} {answer : Prepared}
    (h : prepareStep owner id toolId toolVersion arguments idempotencyKey clock newId db
      = .ok (answer, db')) : RecordEdge taskId db db' := by
  obtain ⟨_, _, _, -, -, -, -, -, ⟨_, -, rfl, -⟩ | ⟨-, hnew⟩⟩ := prepareStep_ok h
  · exact .of_kept rfl rfl rfl
  · obtain ⟨steps, -, rfl⟩ := hnew.inserted
    refine .kept rfl (moves_updateAcceptance (by intro _; rfl) ?_) rfl
    rintro rfl row -
    refine ⟨⟨fun _ => rfl, fun hl => hl, fun hl => ?_⟩, fun _ he => .inl he⟩
    simp only [AcceptanceRow.hardened, hl, if_true]
    exact .refl _

theorem release_recordEdge {lease : Lease} {blocked : Option String} {retryAt : Option ℚ} {now : ℚ}
    {u : Unit} (h : release lease blocked retryAt now db = .ok (u, db')) :
    RecordEdge taskId db db' := by
  have hacceptance := release_agree h (t := .acceptance) (by simp [Request.writes])
  have hartifacts := release_agree h (t := .artifacts) (by simp [Request.writes])
  refine .of_kept ?_ hacceptance hartifacts
  obtain ⟨_, _, _, mid, late, _, -, -, -, hcancel, hlate, -, rfl⟩ := release_ok h
  refine Eq.trans ?_ hcancel.refs
  obtain rfl | ⟨_, _, -, -, rfl⟩ := scheduleRetry_ok hlate <;> rfl

omit [Platform] in
theorem cancel_recordEdge {id : String} {now : ℚ} {u : Unit}
    (h : cancel id now db = .ok (u, db')) : RecordEdge taskId db db' := by
  obtain ⟨_, taskRow, -, -, hcancel⟩ := cancel_ok h
  cases hcancel with
  | ended => exact .of_kept rfl rfl rfl
  | flagged => exact .of_kept rfl rfl rfl
  | closed => exact .of_kept (refs_cancelled taskRow.payload) rfl rfl

/-- What a request does to the records of a task. -/
theorem perform_recordEdge (hfresh : r.Fresh w.db) (h : perform env r w = (reply, w')) :
    RecordEdge taskId w.db w'.db := by
  cases r with
  | createTask => exact commit_recordEdge h fun _ _ hx => createTask_recordEdge hfresh hx
  | submit => exact commit_recordEdge h fun _ _ hx => submit_recordEdge hfresh hx
  | setRoute => exact commit_recordEdge h fun _ _ hx => setRoute_recordEdge hfresh hx
  | addArtifact => exact commit_recordEdge h fun _ _ hx => addArtifact_recordEdge hx
  | bindAcceptance => exact commit_recordEdge h fun _ _ hx => bindAcceptance_recordEdge hx
  | recordObservations => exact commit_recordEdge h fun _ _ hx => recordObservations_recordEdge hx
  | recordFinalEvidence => exact commit_recordEdge h fun _ _ hx => recordFinalEvidence_recordEdge hx
  | prepareStep => exact commit_recordEdge h fun _ _ hx => prepareStep_recordEdge hx
  | release => exact commit_recordEdge h fun _ _ hx => release_recordEdge hx
  | cancel => exact commit_recordEdge h fun _ _ hx => cancel_recordEdge hx
  | recoverExpired =>
      refine commit_recordEdge h fun _ _ hx => ?_
      exact .of_kept (recoverRows_refs (recoverExpired_ok hx))
        (recoverExpired_agree (t := .acceptance) hx (by simp [Request.writes]))
        (recoverExpired_agree (t := .artifacts) hx (by simp [Request.writes]))
  | checkpoint =>
      refine commit_recordEdge h fun _ _ hx => ?_
      obtain ⟨_, -, -, rfl⟩ := checkpoint_ok hx
      refine .of_kept ?_ rfl rfl
      rw [Database.event_tasks]
      exact refs_updateTask _ fun _ => ⟨rfl, rfl⟩
  | transition =>
      refine commit_recordEdge h fun _ _ hx => ?_
      obtain ⟨_, -, ⟨-, -, rfl⟩ | ⟨-, hmove⟩⟩ := transition_ok hx
      · exact .of_kept rfl rfl rfl
      · rw [hmove.committed]
        refine .of_kept ?_ rfl rfl
        rw [Database.event_tasks]
        exact refs_updateTask _ fun _ => ⟨rfl, rfl⟩
  -- the other requests write none of the three tables
  | _ =>
      have htasks := perform_writes h .tasks (by simp [Request.writes])
      refine .of_kept ?_ (perform_writes h .acceptance (by simp [Request.writes]))
        (perform_writes h .artifacts (by simp [Request.writes]))
      rw [show w'.db.tasks = w.db.tasks from htasks]

/-- Stored routes stay. -/
theorem perform_routes (h : perform env r w = (reply, w')) {routeId : String}
    {route : RouteDecision} (hroute : w.db.routes.get? routeId = some route) :
    w'.db.routes.get? routeId = some route := by
  cases r with
  | setRoute owner decision =>
      rcases commit_cases h with ⟨_, db', hx, -, rfl⟩ | ⟨-, -, -, rfl⟩
      · obtain ⟨_, -, -, rfl⟩ := setRoute_ok hx
        have hget := Table.get?_ensure (t := w.db.routes) (r := decision) (k := routeId)
        rw [hroute] at hget
        exact hget.trans (by simp)
      · exact hroute
  | _ =>
      have hsame := perform_writes h .routes (by simp [Request.writes])
      rw [show w'.db.routes = w.db.routes from hsame]
      exact hroute

/-! ## Consistency is kept -/

omit [Platform] in
/-- The artifacts of a task are never dropped. -/
theorem RecordEdge.ids_mono (h : RecordEdge taskId db db') {artifactId : String}
    (hid : artifactId ∈ db.artifactIds taskId) : artifactId ∈ db'.artifactIds taskId := by
  cases h with
  | kept _ _ hids => exact hids ▸ hid
  | created _ _ _ _ _ _ _ _ hids => exact hids ▸ hid
  | routed _ _ _ _ _ _ _ _ hids => exact hids ▸ hid
  | extended _ _ _ _ _ _ hids =>
      rw [hids]
      exact List.mem_append_left _ hid

omit [Platform] in
/-- The flags of an acceptance row and a locked contract stay. -/
theorem RecordEdge.holds (h : RecordEdge taskId db db') {row : AcceptanceRow}
    (hrow : db.acceptance.get? taskId = some row) :
    ∃ row', db'.acceptance.get? taskId = some row' ∧ row.Holds row' := by
  cases h with
  | kept _ haccepted _ =>
      rw [hrow] at haccepted
      cases hafter : db'.acceptance.get? taskId with
      | none =>
          rw [hafter] at haccepted
          cases haccepted
      | some row' =>
          rw [hafter] at haccepted
          cases haccepted with
          | some hmoves => exact ⟨row', rfl, hmoves.holds⟩
  | created _ _ _ hnone =>
      rw [hrow] at hnone
      cases hnone
  | routed _ _ _ _ _ _ _ haccepted _ =>
      rw [haccepted]
      exact ⟨row, hrow, .refl row⟩
  | extended _ _ _ _ _ haccepted _ =>
      rw [haccepted]
      exact ⟨row, hrow, .refl row⟩

omit [Platform] in
/-- A payload's references determine whether the task exists. -/
theorem isSome_of_refs {refs : Option (List String × Option String)}
    (h : (db.tasks.get? taskId).map TaskRow.refs = refs) :
    (db.tasks.get? taskId).isSome = refs.isSome := by
  rw [← h, Option.isSome_map]

omit [Platform] in
theorem RecordEdge.accepted (h : RecordEdge taskId db db') (hold : db.ConsistentAt taskId) :
    (db'.acceptance.get? taskId).isSome = (db'.tasks.get? taskId).isSome := by
  have hbefore := hold.accepted
  cases h with
  | kept htask haccepted _ =>
      rw [isSome_of_refs htask, Option.isSome_map, ← hbefore]
      generalize db.acceptance.get? taskId = row at haccepted
      generalize db'.acceptance.get? taskId = row' at haccepted
      cases haccepted <;> rfl
  | created _ _ _ _ htask _ haccepted =>
      rw [haccepted, htask]
      rfl
  | routed _ _ _ hrow htask _ _ haccepted _ =>
      rw [haccepted, hbefore, hrow, isSome_of_refs htask]
      rfl
  | extended _ _ hrow htask _ haccepted _ =>
      rw [haccepted, hbefore, hrow, isSome_of_refs htask]
      rfl

omit [Platform] in
theorem listed_of_refs {refs : Option (List String × Option String)}
    (h : (db.tasks.get? taskId).map TaskRow.refs = refs) :
    ((db.tasks.get? taskId).map (TaskRow.refs · |>.1)).getD [] = (refs.map Prod.fst).getD [] := by
  rw [← h, Option.map_map]
  rfl

omit [Platform] in
theorem RecordEdge.listed (h : RecordEdge taskId db db') (hold : db.ConsistentAt taskId) :
    db'.artifactIds taskId = ((db'.tasks.get? taskId).map (TaskRow.refs · |>.1)).getD [] := by
  have hbefore := hold.listed
  cases h with
  | kept htask _ hids =>
      rw [hids, hbefore, listed_of_refs htask, listed_of_refs rfl]
  | created row _ hfree _ htask hrefs _ _ hids =>
      rw [hids, hbefore, hfree, htask]
      simp [hrefs]
  | routed row _ _ hrow htask _ _ _ hids =>
      rw [hids, hbefore, hrow, listed_of_refs htask]
      rfl
  | extended row artifactId hrow htask hfresh _ hids =>
      rw [hrow] at hbefore
      have hsame : db.artifactIds taskId = row.payload.artifacts := hbefore
      rw [hsame] at hfresh
      rw [hids, hsame, listed_of_refs htask]
      simp [Task.withArtifact, hfresh]

omit [Platform] in
theorem RecordEdge.routed_kept (h : RecordEdge taskId db db') (hold : db.ConsistentAt taskId)
    (hroutes : ∀ {routeId route}, db.routes.get? routeId = some route →
      db'.routes.get? routeId = some route)
    {row' : TaskRow} (hrow' : db'.tasks.get? taskId = some row') {routeId : String}
    (hselected : row'.payload.selectedRoute = some routeId) :
    ∃ route, db'.routes.get? routeId = some route ∧ route.taskId = taskId := by
  have hstored {row : TaskRow} (hrow : db.tasks.get? taskId = some row)
      (hsame : row.payload.selectedRoute = some routeId) :
      ∃ route, db'.routes.get? routeId = some route ∧ route.taskId = taskId := by
    obtain ⟨route, hroute, howner⟩ := hold.routed row hrow routeId hsame
    exact ⟨route, hroutes hroute, howner⟩
  have hafter : (db'.tasks.get? taskId).map TaskRow.refs =
      some (row'.payload.artifacts, some routeId) := by
    rw [hrow', ← hselected]
    rfl
  cases h with
  | kept htask _ _ =>
      rw [hafter] at htask
      obtain ⟨row, hrow, hrefs⟩ := Option.map_eq_some_iff.mp htask.symm
      exact hstored hrow (congrArg Prod.snd hrefs)
  | created row _ _ _ htask hrefs =>
      rw [htask] at hafter
      have hnone := congrArg Prod.snd (hrefs.symm.trans (Option.some.inj hafter))
      cases hnone
  | routed _ selected route _ htask hroute howner =>
      rw [hafter] at htask
      obtain rfl : routeId = selected :=
        Option.some.inj (congrArg Prod.snd (Option.some.inj htask))
      exact ⟨route, hroute, howner⟩
  | extended row _ hrow htask =>
      rw [hafter] at htask
      exact hstored hrow (congrArg Prod.snd (Option.some.inj htask)).symm

omit [Platform] in
theorem RecordEdge.evidenced (h : RecordEdge taskId db db') (hold : db.ConsistentAt taskId)
    {row' : AcceptanceRow} (hrow' : db'.acceptance.get? taskId = some row') {entry : String × String}
    (hentry : entry ∈ row'.finalEvidence) : entry.2 ∈ db'.artifactIds taskId := by
  refine h.ids_mono ?_
  cases h with
  | kept _ haccepted _ =>
      rw [hrow'] at haccepted
      generalize hrow : db.acceptance.get? taskId = row at haccepted
      cases haccepted with
      | some hmoves =>
          rcases hmoves.evidence entry hentry with hbefore | hnew
          · exact hold.evidenced _ hrow entry hbefore
          · exact hnew
  | created _ accepted _ _ _ _ haccepted hnone _ =>
      rw [haccepted] at hrow'
      obtain rfl := Option.some.inj hrow'
      rw [hnone] at hentry
      cases hentry
  | routed _ _ _ _ _ _ _ haccepted _ => exact hold.evidenced _ (haccepted ▸ hrow') entry hentry
  | extended _ _ _ _ _ haccepted _ => exact hold.evidenced _ (haccepted ▸ hrow') entry hentry

/-- The evidence that a step refers to after a request was there before it, or is one of the
task's artifacts. -/
theorem perform_evidenceRef (h : perform env r w = (reply, w')) {stepId ref : String}
    {step : StepRecord} (hstep : w'.db.stepNamed taskId stepId = some step)
    (href : step.evidenceRef = some ref) :
    (∃ before, w.db.stepNamed taskId stepId = some before ∧ before.evidenceRef = some ref) ∨
      ref ∈ w.db.artifactIds taskId := by
  rcases perform_edge h taskId stepId with hsame | ⟨-, hedge⟩
  · exact .inl ⟨step, hsame ▸ hstep, href⟩
  · rw [hstep] at hedge
    generalize hbefore : w.db.stepNamed taskId stepId = before at hedge
    cases hedge with
    | prepared => cases href
    | applied artifactId _ _ _ _ _ _ _ _ hcertified =>
        cases href
        obtain ⟨artifact, hfind, -⟩ := hcertified.intact
        exact .inr (mem_artifactIds hfind)
    | reopened artifactId _ _ _ _ hcertified =>
        cases href
        obtain ⟨artifact, hfind, -⟩ := hcertified.intact
        exact .inr (mem_artifactIds hfind)
    | claimed | finished | marked | expired => exact .inl ⟨_, rfl, href⟩

/-- One request keeps the records of a task consistent. -/
theorem perform_consistentAt (hfresh : r.Fresh w.db) (h : perform env r w = (reply, w'))
    (hold : w.db.ConsistentAt taskId) : w'.db.ConsistentAt taskId where
  accepted := (perform_recordEdge hfresh h).accepted hold
  listed := (perform_recordEdge hfresh h).listed hold
  routed := fun _ hrow _ hselected =>
    (perform_recordEdge hfresh h).routed_kept hold (perform_routes h) hrow hselected
  evidenced := fun _ hrow _ hentry => (perform_recordEdge hfresh h).evidenced hold hrow hentry
  referenced := by
    intro stepId step hstep ref href
    have hedge : RecordEdge taskId w.db w'.db := perform_recordEdge hfresh h
    refine hedge.ids_mono ?_
    rcases perform_evidenceRef h hstep href with ⟨before, hbefore, hsame⟩ | hnew
    · exact hold.referenced stepId before hbefore ref hsame
    · exact hnew

omit [Platform] in
/-- The surroundings write none of the records. -/
theorem World.Drift.records (h : w.Drift w') :
    w'.db.tasks = w.db.tasks ∧ w'.db.acceptance = w.db.acceptance ∧
      w'.db.steps = w.db.steps ∧ w'.db.routes = w.db.routes ∧
      w'.db.artifacts = w.db.artifacts := by
  obtain ⟨rows, logged, hdb, -⟩ := h.continuity
  rw [hdb]
  exact ⟨rfl, rfl, rfl, rfl, rfl⟩

omit [Platform] in
theorem Database.ConsistentAt.congr (h : db.ConsistentAt taskId) (htasks : db'.tasks = db.tasks)
    (haccepted : db'.acceptance = db.acceptance) (hsteps : db'.steps = db.steps)
    (hroutes : db'.routes = db.routes) (hartifacts : db'.artifacts = db.artifacts) :
    db'.ConsistentAt taskId := by
  have hids : db'.artifactIds taskId = db.artifactIds taskId := by
    simp only [Database.artifactIds, Database.artifactsOf, hartifacts]
  refine ⟨?_, ?_, ?_, ?_, ?_⟩
  · rw [haccepted, htasks]
    exact h.accepted
  · rw [hids, htasks]
    exact h.listed
  · rw [htasks, hroutes]
    exact h.routed
  · rw [haccepted, hids]
    exact h.evidenced
  · simp only [Database.stepNamed, hsteps, hids]
    exact h.referenced

/-! ## Runs -/

/-- Any programs, with fresh ids. -/
def freshIds : Rules ledgerMachine where
  start := World.Fresh
  program := fun _ => True
  admits := fun _ r s => r.Fresh s.state.db

theorem consistentAt {s : System ledgerMachine} (h : Reachable freshIds s) (taskId : String) :
    s.snap.state.db.ConsistentAt taskId := by
  induction h with
  | start w hw =>
      have hempty : w.db = .empty := hw
      rw [hempty]
      exact Database.empty_consistentAt
  | step _ hstep ih =>
      cases hstep with
      | spawn p hp => exact ih
      | crash pid hpid => exact ih
      | call pid r next env reply state hthread hadmits hperform =>
          exact perform_consistentAt hadmits hperform ih
      | drift state hdrift =>
          obtain ⟨htasks, haccepted, hsteps, hroutes, hartifacts⟩ := hdrift.records
          exact ih.congr htasks haccepted hsteps hroutes hartifacts

/-- In one step of a run an acceptance row stays, with its flags and a locked contract. -/
theorem Step.holds {s s' : System ledgerMachine} (h : Step freshIds s s') {row : AcceptanceRow}
    (hrow : s.snap.state.db.acceptance.get? taskId = some row) :
    ∃ row', s'.snap.state.db.acceptance.get? taskId = some row' ∧ row.Holds row' := by
  cases h with
  | spawn p hp => exact ⟨row, hrow, .refl row⟩
  | crash pid hpid => exact ⟨row, hrow, .refl row⟩
  | call pid r next env reply state hthread hadmits hperform =>
      exact (perform_recordEdge hadmits hperform).holds hrow
  | drift state hdrift =>
      have hsame : state.db.acceptance = s.snap.state.db.acceptance := hdrift.records.2.1
      exact ⟨row, hsame ▸ hrow, .refl row⟩

theorem Steps.holds {s s' : System ledgerMachine} (h : Steps freshIds s s') {row : AcceptanceRow}
    (hrow : s.snap.state.db.acceptance.get? taskId = some row) :
    ∃ row', s'.snap.state.db.acceptance.get? taskId = some row' ∧ row.Holds row' := by
  induction h with
  | refl => exact ⟨row, hrow, .refl row⟩
  | tail _ hstep ih =>
      obtain ⟨mid, hmid, hholds⟩ := ih
      obtain ⟨row', hrow', hholds'⟩ := Step.holds hstep hmid
      exact ⟨row', hrow', hholds.trans hholds'⟩

/-- The stored records agree with one another. -/
structure Database.Consistent (db : Database) : Prop where
  accepted : ∀ row ∈ db.tasks.rows, ∃! accepted, accepted ∈ db.acceptance.rows ∧
    accepted.taskId = row.payload.taskId
  listed : ∀ row ∈ db.tasks.rows,
    row.payload.artifacts = (db.artifactsOf row.payload.taskId).map Artifact.artifactId ∧
      row.payload.artifacts.Nodup
  routed : ∀ row ∈ db.tasks.rows, ∀ routeId, row.payload.selectedRoute = some routeId →
    ∃ route ∈ db.routes.rows, route.routeId = routeId ∧ route.taskId = row.payload.taskId
  evidenced : ∀ accepted ∈ db.acceptance.rows, ∀ entry ∈ accepted.finalEvidence,
    ∃ artifact ∈ db.artifacts.rows, artifact.artifactId = entry.2 ∧
      artifact.taskId = accepted.taskId
  referenced : ∀ step ∈ db.steps.rows, ∀ ref, step.evidenceRef = some ref →
    ∃ artifact ∈ db.artifacts.rows, artifact.artifactId = ref ∧ artifact.taskId = step.taskId

omit [Platform] in
theorem exists_of_mem_ids {artifactId : String} (h : artifactId ∈ db.artifactIds taskId) :
    ∃ artifact ∈ db.artifacts.rows, artifact.artifactId = artifactId ∧
      artifact.taskId = taskId := by
  obtain ⟨artifact, hmem, hid⟩ := List.mem_map.mp h
  obtain ⟨hrow, howner⟩ := List.mem_filter.mp hmem
  exact ⟨artifact, hrow, hid, by simpa using howner⟩

omit [Platform] in
theorem Database.Consistent.of_each (h : ∀ taskId, db.ConsistentAt taskId) : db.Consistent := by
  have hget {row : TaskRow} (hrow : row ∈ db.tasks.rows) :
      db.tasks.get? row.payload.taskId = some row := Table.get?_eq_some_iff.mpr ⟨hrow, rfl⟩
  have hgetAccepted {row : AcceptanceRow} (hrow : row ∈ db.acceptance.rows) :
      db.acceptance.get? row.taskId = some row := Table.get?_eq_some_iff.mpr ⟨hrow, rfl⟩
  refine ⟨fun row hrow => ?_, fun row hrow => ?_, fun row hrow routeId hselected => ?_,
    fun row hrow entry hentry => ?_, fun step hstep ref href => ?_⟩
  · have hsome := (h row.payload.taskId).accepted
    rw [hget hrow] at hsome
    obtain ⟨accepted, haccepted⟩ := Option.isSome_iff_exists.mp hsome
    refine ⟨accepted, Table.get?_eq_some_iff.mp haccepted, ?_⟩
    rintro other ⟨hother, hsame⟩
    have hfound := hgetAccepted hother
    rw [hsame, haccepted] at hfound
    exact (Option.some.inj hfound).symm
  · have hlisted := (h row.payload.taskId).listed
    rw [hget hrow] at hlisted
    have hids : db.artifactIds row.payload.taskId = row.payload.artifacts := hlisted
    exact ⟨hids.symm, hids ▸ artifactIds_nodup db row.payload.taskId⟩
  · obtain ⟨route, hroute, howner⟩ := (h _).routed row (hget hrow) routeId hselected
    exact ⟨route, Table.mem_of_get? hroute, Table.primary_of_get? hroute, howner⟩
  · exact exists_of_mem_ids ((h _).evidenced row (hgetAccepted hrow) entry hentry)
  · have hnamed : db.stepNamed step.taskId step.stepId = some step :=
      (Table.find_eq_some_iff (StepRecord.named_determines _ _)).mpr
        ⟨hstep, by simp [StepRecord.named]⟩
    exact exists_of_mem_ids ((h _).referenced step.stepId step hnamed ref href)

/-- In every run with fresh ids the stored records are consistent; and from one state of the
run to a later one every acceptance row stays, its flags stay set, and a locked contract stays
the same. -/
theorem records_consistent {s s' : System ledgerMachine} (hs : Reachable freshIds s)
    (hlater : Steps freshIds s s') :
    s'.snap.state.db.Consistent ∧
      ∀ taskId row, s.snap.state.db.acceptance.get? taskId = some row →
        ∃ row', s'.snap.state.db.acceptance.get? taskId = some row' ∧ row.Holds row' :=
  ⟨.of_each (consistentAt (hs.steps hlater)), fun _ _ hrow => Steps.holds hlater hrow⟩

end Requests

section Contracted

local instance consistencyContracted : Platform := .reference []

/-- A task with a contract of its own. -/
def Sample.contracted : List (Surroundings × Request) :=
  [(moment 0 "", .createTask task (some .default))]

theorem records_consistent_contracted :
    ∃ s row, Reachable freshIds s ∧ s.snap.state.db.Consistent ∧
      s.snap.state.db.acceptance.get? "task" = some row ∧ row.locked = true := by
  have hs : Reachable freshIds ((Sample.fresh []).script Sample.contracted) := by
    refine (Reachable.start _ rfl).steps (Steps.script (fun _ _ => trivial) ?_ _)
    intro x hx pid s
    obtain rfl := List.mem_singleton.mp hx
    exact ⟨rfl, rfl⟩
  have hlater := Steps.asked (R := freshIds) (r := .prepareStep none "task" "write" "1" [] none)
    trivial (fun _ _ => trivial) ((Sample.fresh []).script Sample.contracted)
    (Sample.moment 0 "step")
  obtain ⟨hconsistent, hkept⟩ := records_consistent hs hlater
  obtain ⟨row, hrow, hholds⟩ := hkept "task" _ rfl
  exact ⟨_, row, hs.steps hlater, hconsistent, hrow, hholds.locked rfl⟩

end Contracted

end Dante
