import Dante.Model.Reference
import Dante.Verification.Refinement

/-! # What stands behind a completed task -/

namespace Dante

open JsonText Relational Concurrent

/-! ## Dictionaries -/

section Dictionaries

variable {α : Type} {d : Dict α} {key name : String} {value v : α}

theorem Dict.mem_set (h : (name, v) ∈ d.set key value) :
    (name, v) ∈ d ∨ (name = key ∧ v = value) := by
  induction d with
  | nil =>
      right
      simpa [Dict.set] using h
  | cons f rest ih =>
      simp only [Dict.set] at h
      by_cases hkey : f.1 = key
      · rw [if_pos hkey, List.mem_cons, Prod.mk.injEq] at h
        rcases h with ⟨rfl, rfl⟩ | h
        · exact .inr ⟨hkey, rfl⟩
        · exact .inl (List.mem_cons_of_mem _ h)
      · rw [if_neg hkey, List.mem_cons] at h
        rcases h with h | h
        · exact .inl (h ▸ List.mem_cons_self)
        · exact (ih h).imp_left (List.mem_cons_of_mem _)

theorem Dict.mem_pop (h : (name, v) ∈ d.pop key) : (name, v) ∈ d :=
  List.mem_of_mem_filter h

end Dictionaries

section Evidence

variable [Platform] {fs : FileSystem} {db db' : Database} {taskId artifactId : String}

/-! ## Evidence that verifies -/

/-- The file of an artifact has the registered checksum. -/
def Artifact.Intact (fs : FileSystem) (a : Artifact) : Prop :=
  fileDigest fs a.path = .ok a.checksumSha256

/-- The file that a receipt names has the recorded checksum. -/
def ReceiptIntact (fs : FileSystem) (result : Dict Json) : Prop :=
  result.lookup "path" = none ∨
    ∃ path checksum, result.lookup "path" = some (.str path) ∧
      result.lookup "checksum_sha256" = some (.str checksum) ∧ fileDigest fs path = .ok checksum

/-- A step succeeded, its receipt is the recorded one, and the receipt's file and the artifact
it was reconciled with are intact. -/
structure StepRecord.Verified (fs : FileSystem) (db : Database) (s : StepRecord) : Prop where
  succeeded : s.state = .succeeded
  recorded : ∃ result recordedDigest, s.result = some result ∧
    digest (.obj result) = .ok recordedDigest ∧ s.resultDigest = some recordedDigest ∧
    ReceiptIntact fs result
  evidence : ∀ ref, given s.evidenceRef = some ref →
    ∃ a ∈ db.artifactsOf s.taskId, a.artifactId = ref ∧ a.Intact fs

theorem fileEvidence_ok {result : Dict Json} :
    fileEvidence fs result = .ok true ↔ ReceiptIntact fs result := by
  unfold fileEvidence ReceiptIntact
  cases hpath : result.lookup "path" with
  | none => simp
  | some v =>
      cases v with
      | str path =>
          cases hdigest : fileDigest fs path with
          | error e => simp [hdigest]
          | ok actual =>
              cases hsum : result.lookup "checksum_sha256" with
              | none => simp
              | some c => cases c <;> simp [hdigest]
      | _ => simp

theorem verifiedReceipt_ok {step : StepRecord} {result : Dict Json}
    (h : verifiedReceipt fs step = .ok result) :
    step.state = .succeeded ∧ step.result = some result ∧ ∃ recordedDigest,
      digest (.obj result) = .ok recordedDigest ∧ step.resultDigest = some recordedDigest ∧
      ReceiptIntact fs result := by
  simp only [verifiedReceipt, Except.bind_eq_ok, require_eq_ok, orRaise_eq_ok, beq_iff_eq,
    Except.pure_eq_ok] at h
  obtain ⟨_, hstate, result', hresult, _, hok, actual, hdigest, _, hactual, valid, hvalid, _,
    htrue, rfl⟩ := h
  subst htrue
  exact ⟨hstate, hresult, actual, hdigest, hactual.symm, fileEvidence_ok.mp hvalid⟩

theorem checkedArtifact_ok {a : Artifact} :
    checkedArtifact fs db taskId artifactId = .ok a ↔
      db.artifacts.find (Artifact.ownedBy taskId artifactId) = some a ∧ a.Intact fs := by
  simp only [checkedArtifact, Except.bind_eq_ok, orRaise_eq_ok, require_eq_ok, beq_iff_eq,
    Except.pure_eq_ok, Artifact.Intact]
  constructor
  · rintro ⟨a', hfind, actual, hactual, _, heq, rfl⟩
    exact ⟨hfind, heq ▸ hactual⟩
  · rintro ⟨hfind, hintact⟩
    exact ⟨a, hfind, _, hintact, (), rfl, rfl⟩

/-- An artifact that was checked is one of the task's, and intact. -/
theorem mem_of_checked {a : Artifact} (h : checkedArtifact fs db taskId artifactId = .ok a) :
    a ∈ db.artifactsOf taskId ∧ a.artifactId = artifactId ∧ a.Intact fs := by
  obtain ⟨hfind, hintact⟩ := checkedArtifact_ok.mp h
  have howned := Table.pred_of_find hfind
  simp only [Artifact.ownedBy, Bool.and_eq_true, beq_iff_eq] at howned
  refine ⟨?_, howned.1, hintact⟩
  simpa [Database.artifactsOf, howned.2] using Table.mem_of_find hfind

/-- The check of an artifact by its id is a check of that very artifact. -/
theorem checked_self {item a : Artifact} (hitem : item ∈ db.artifactsOf taskId)
    (h : checkedArtifact fs db taskId item.artifactId = .ok a) : a = item := by
  have hmem : item ∈ db.artifacts.rows := List.mem_of_mem_filter hitem
  obtain ⟨hfind, -⟩ := checkedArtifact_ok.mp h
  have hget := Table.get?_eq_some_iff.mpr ⟨hmem, rfl⟩
  have hid : a.artifactId = item.artifactId := (mem_of_checked h).2.1
  have hget' := Table.get?_eq_some_iff.mpr ⟨Table.mem_of_find hfind, hid⟩
  exact Option.some.inj (hget'.symm.trans hget)

theorem verifiedStep_ok {s : StepRecord} {u : Unit} (htask : s.taskId = taskId)
    (h : verifiedStep fs db taskId s = .ok u) : s.Verified fs db := by
  subst htask
  simp only [verifiedStep, Except.bind_eq_ok] at h
  obtain ⟨result, hreceipt, hevidence⟩ := h
  obtain ⟨hstate, hresult, recordedDigest, hdigest, hrecorded, hfile⟩ := verifiedReceipt_ok hreceipt
  refine ⟨hstate, ⟨result, recordedDigest, hresult, hdigest, hrecorded, hfile⟩, ?_⟩
  intro ref href
  rw [href] at hevidence
  simp only [Except.bind_eq_ok] at hevidence
  obtain ⟨a, ha, -⟩ := hevidence
  exact ⟨a, mem_of_checked ha⟩

/-! ## The loops of `_acceptance_result` -/

theorem gatherStep_ok {acc acc' : Gathered} {s : StepRecord}
    (h : gatherStep fs db taskId acc s = .ok acc') :
    (verifiedStep fs db taskId s = .ok () ∧
      acc' = { acc with tools := insert s.toolId acc.tools }) ∨
    acc' = { acc with pending := acc.pending ++ ["step:" ++ s.stepId] } := by
  unfold gatherStep at h
  cases hverified : verifiedStep fs db taskId s with
  | ok u =>
      rw [hverified] at h
      cases h
      exact .inl ⟨rfl, rfl⟩
  | error e =>
      rw [hverified] at h
      right
      split at h
      · simp_all
      · split at h <;> simp_all

/-- When nothing is pending in the end, every step has verified. -/
theorem gatherSteps_ok {steps : List StepRecord} {acc acc' : Gathered}
    (h : steps.foldlM (gatherStep fs db taskId) acc = .ok acc') (hdone : acc'.pending = []) :
    acc.pending = [] ∧ acc'.names = acc.names ∧
      (∀ s ∈ steps, verifiedStep fs db taskId s = .ok ()) ∧
      ∀ tool ∈ acc'.tools, tool ∈ acc.tools ∨ ∃ s ∈ steps, s.toolId = tool := by
  induction steps generalizing acc with
  | nil =>
      cases h
      exact ⟨hdone, rfl, by simp, fun tool htool => .inl htool⟩
  | cons s rest ih =>
      simp only [List.foldlM_cons, Except.bind_eq_ok] at h
      obtain ⟨next, hnext, hrest⟩ := h
      obtain ⟨hpending, hnames, hall, htools⟩ := ih hrest
      obtain ⟨hs, rfl⟩ | rfl := gatherStep_ok hnext
      · refine ⟨hpending, hnames, by simpa [hs] using hall, fun tool htool => ?_⟩
        rcases htools tool htool with hnew | ⟨other, hmem, heq⟩
        · rcases Finset.mem_insert.mp hnew with rfl | hold
          · exact .inr ⟨s, by simp, rfl⟩
          · exact .inl hold
        · exact .inr ⟨other, by simp [hmem], heq⟩
      · simp at hpending

theorem gatherArtifact_ok {acc acc' : Gathered} {item : Artifact}
    (h : gatherArtifact fs db taskId acc item = .ok acc') :
    (∃ a, checkedArtifact fs db taskId item.artifactId = .ok a ∧
      acc' = { acc with names := acc.names ++ [.str a.artifactId, a.logicalName] }) ∨
    acc' = { acc with pending := acc.pending ++ ["artifact:" ++ item.artifactId] } := by
  unfold gatherArtifact at h
  cases hchecked : checkedArtifact fs db taskId item.artifactId with
  | ok a =>
      rw [hchecked] at h
      simp only [Except.bind_eq_ok, Except.pure_eq_ok] at h
      obtain ⟨_, -, rfl⟩ := h
      exact .inl ⟨a, rfl, rfl⟩
  | error e =>
      rw [hchecked] at h
      right
      split at h
      · simp_all
      · split at h <;> simp_all

/-- When nothing is pending in the end, every artifact is intact. -/
theorem gatherArtifacts_ok {items : List Artifact} {acc acc' : Gathered}
    (h : items.foldlM (gatherArtifact fs db taskId) acc = .ok acc') (hdone : acc'.pending = []) :
    acc.pending = [] ∧ acc'.tools = acc.tools ∧
      (∀ item ∈ items, ∃ a, checkedArtifact fs db taskId item.artifactId = .ok a) ∧
      ∀ name ∈ acc'.names, name ∈ acc.names ∨ ∃ item ∈ items, ∃ a,
        checkedArtifact fs db taskId item.artifactId = .ok a ∧
          (name = .str a.artifactId ∨ name = a.logicalName) := by
  induction items generalizing acc with
  | nil =>
      cases h
      exact ⟨hdone, rfl, by simp, fun name hname => .inl hname⟩
  | cons item rest ih =>
      simp only [List.foldlM_cons, Except.bind_eq_ok] at h
      obtain ⟨next, hnext, hrest⟩ := h
      obtain ⟨hpending, htools, hall, hnames⟩ := ih hrest
      obtain ⟨a, ha, rfl⟩ | rfl := gatherArtifact_ok hnext
      · refine ⟨hpending, htools, ?_, fun name hname => ?_⟩
        · simp only [List.forall_mem_cons]
          exact ⟨⟨a, ha⟩, hall⟩
        · rcases hnames name hname with hnew | ⟨other, hmem, hchecked⟩
          · rcases List.mem_append.mp hnew with hold | hown
            · exact .inl hold
            · exact .inr ⟨item, by simp, a, ha, by simpa using hown⟩
          · exact .inr ⟨other, by simp [hmem], hchecked⟩
      · simp at hpending

/-- A field that counts was there before or read from its artifact. -/
theorem mem_gatherFields {refs : Dict String} {fields : Dict String} {name value : String}
    (h : (name, value) ∈ refs.foldl (gatherField fs db taskId) fields) :
    (name, value) ∈ fields ∨ ∃ artifactId, (name, artifactId) ∈ refs ∧
      finalFieldValue fs db taskId name artifactId = .ok (.str value) := by
  induction refs generalizing fields with
  | nil => exact .inl h
  | cons ref rest ih =>
      rcases ih h with hold | ⟨artifactId, hmem, hvalue⟩
      · unfold gatherField at hold
        split at hold
        next v hv =>
          rcases Dict.mem_set hold with hfields | ⟨rfl, rfl⟩
          · exact .inl hfields
          · exact .inr ⟨ref.2, by simp, hv⟩
        next => exact .inl hold
        next => exact .inl (Dict.mem_pop hold)
      · exact .inr ⟨artifactId, by simp [hmem], hvalue⟩

omit [Platform] in
theorem mem_asStrings {names : List Json} {strings : List String}
    (h : asStrings names = .ok strings) {name : String} (hname : name ∈ strings) :
    .str name ∈ names := by
  induction names generalizing strings with
  | nil =>
      cases h
      simp at hname
  | cons v rest ih =>
      cases v with
      | str s =>
          simp only [asStrings, Except.bind_eq_ok, Except.pure_eq_ok] at h
          obtain ⟨others, hothers, rfl⟩ := h
          rcases List.mem_cons.mp hname with rfl | hrest
          · exact List.mem_cons_self
          · exact List.mem_cons_of_mem _ (ih hothers hrest)
      | _ => simp [asStrings] at h

/-! ## Complete acceptance -/

/-- The artifact provides a name: its id, or its logical name. -/
def Artifact.Provides (a : Artifact) (name : String) : Prop :=
  a.artifactId = name ∨ a.logicalName = .str name

/-- What complete acceptance of a task shows. Attestations count for a row that is not strict
only. -/
structure Evidenced (fs : FileSystem) (db : Database) (taskId : String) (row : AcceptanceRow) :
    Prop where
  bound : db.acceptance.get? taskId = some row
  steps : ∀ s ∈ db.stepsOf taskId, s.Verified fs db
  artifacts : ∀ a ∈ db.artifactsOf taskId, a.Intact fs
  requiredTools : ∀ tool ∈ row.contract.requiredTools,
    (∃ s ∈ db.stepsOf taskId, s.toolId = tool ∧ s.Verified fs db) ∨
      (row.strict = false ∧ tool ∈ row.attestations.tools)
  requiredArtifacts : ∀ name ∈ row.contract.requiredArtifacts,
    (∃ a ∈ db.artifactsOf taskId, a.Intact fs ∧ a.Provides name) ∨
      (row.strict = false ∧ name ∈ row.attestations.artifacts)
  requiredFields : ∀ field ∈ row.contract.requiredFinalFields, ∃ value, isBlank value = false ∧
    ((∃ a ∈ db.artifactsOf taskId, (field, a.artifactId) ∈ row.finalEvidence ∧ a.Intact fs ∧
        ∃ text, readJson fs a.path = .ok text ∧ subscript text field = .ok (.str value)) ∨
      (row.strict = false ∧ (field, value) ∈ row.attestations.finalFields))

omit [Platform] in
theorem withPending_complete {result : AcceptanceResult} {pending : List String}
    (h : (result.withPending pending).acceptanceComplete = true) :
    pending = [] ∧ result.acceptanceComplete = true := by
  unfold AcceptanceResult.withPending at h
  split at h
  next hempty => exact ⟨List.isEmpty_iff.mp hempty, h⟩
  next => cases h

omit [Platform] in
theorem attested_tools {row : AcceptanceRow} {tool : String} (h : tool ∈ row.attested.tools) :
    row.strict = false ∧ tool ∈ row.attestations.tools := by
  cases hstrict : row.strict <;> simp_all [AcceptanceRow.attested, ObservedAcceptance.default]

omit [Platform] in
theorem attested_artifacts {row : AcceptanceRow} {name : String}
    (h : name ∈ row.attested.artifacts) :
    row.strict = false ∧ name ∈ row.attestations.artifacts := by
  cases hstrict : row.strict <;> simp_all [AcceptanceRow.attested, ObservedAcceptance.default]

omit [Platform] in
theorem attested_fields {row : AcceptanceRow} {f : String × String}
    (h : f ∈ row.attested.finalFields) :
    row.strict = false ∧ f ∈ row.attestations.finalFields := by
  cases hstrict : row.strict <;> simp_all [AcceptanceRow.attested, ObservedAcceptance.default]

theorem finalFieldValue_ok {field value : String}
    (h : finalFieldValue fs db taskId field artifactId = .ok (.str value)) :
    ∃ a ∈ db.artifactsOf taskId, a.artifactId = artifactId ∧ a.Intact fs ∧
      ∃ text, readJson fs a.path = .ok text ∧ subscript text field = .ok (.str value) := by
  simp only [finalFieldValue, Except.bind_eq_ok] at h
  obtain ⟨a, hchecked, text, htext, hvalue⟩ := h
  obtain ⟨hmem, hid, hintact⟩ := mem_of_checked hchecked
  exact ⟨a, hmem, hid, hintact, text, htext, hvalue⟩

/-- Acceptance that is complete has been shown. -/
theorem evidenced_of_complete {result : AcceptanceResult}
    (h : acceptanceResult fs db taskId = .ok result) (hcomplete : result.acceptanceComplete = true) :
    ∃ row, Evidenced fs db taskId row := by
  unfold acceptanceResult at h
  cases hrow : db.acceptance.get? taskId with
  | none =>
      rw [hrow] at h
      cases h
      cases hcomplete
  | some row =>
      rw [hrow] at h
      simp only [Except.bind_eq_ok, Except.pure_eq_ok] at h
      obtain ⟨stepped, hsteps, acc, hartifacts, names, hnames, rfl⟩ := h
      obtain ⟨hdone, hverify⟩ := withPending_complete hcomplete
      obtain ⟨htools, hnamed, hfields⟩ := verify_complete.mp hverify
      obtain ⟨hpending, hacc, hall, hprovided⟩ := gatherArtifacts_ok hartifacts hdone
      obtain ⟨-, hempty, hverified, hcounted⟩ := gatherSteps_ok hsteps hpending
      have htask (s : StepRecord) (hs : s ∈ db.stepsOf taskId) : s.taskId = taskId := by
        simpa using (List.mem_filter.mp hs).2
      have hsteps (s : StepRecord) (hs : s ∈ db.stepsOf taskId) : s.Verified fs db :=
        verifiedStep_ok (htask s hs) (hverified s hs)
      have hintact (a : Artifact) (ha : a ∈ db.artifactsOf taskId) : a.Intact fs := by
        obtain ⟨b, hb⟩ := hall a ha
        exact checked_self ha hb ▸ (mem_of_checked hb).2.2
      refine ⟨row, hrow, hsteps, hintact, ?_, ?_, ?_⟩
      · intro tool htool
        have hmem := htools htool
        rw [hacc] at hmem
        rcases hcounted tool hmem with hattested | ⟨s, hs, heq⟩
        · exact .inr (attested_tools (Finset.mem_sdiff.mp hattested).1)
        · exact .inl ⟨s, hs, heq, hsteps s hs⟩
      · intro name hname
        rcases Finset.mem_union.mp (hnamed hname) with hattested | hname'
        · exact .inr (attested_artifacts hattested)
        · have hjson := mem_asStrings hnames (List.mem_toFinset.mp hname')
          rcases hprovided _ hjson with hnone | ⟨item, -, a, ha, hprovides⟩
          · rw [hempty] at hnone
            simp at hnone
          · obtain ⟨hmem, -, ha'⟩ := mem_of_checked ha
            refine .inl ⟨a, hmem, ha', hprovides.imp ?_ Eq.symm⟩
            intro heq
            exact (Json.str.inj heq).symm
      · intro field hfield
        obtain ⟨value, hmem, hblank⟩ := mem_presentFields.mp (hfields hfield)
        refine ⟨value, hblank, ?_⟩
        rcases mem_gatherFields hmem with hattested | ⟨artifactId, href, hvalue⟩
        · exact .inr (attested_fields hattested)
        · obtain ⟨a, ha, rfl, hrest⟩ := finalFieldValue_ok hvalue
          exact .inl ⟨a, ha, href, hrest⟩

/-! ## Whole runs -/

omit [Platform] in
/-- A task is completed by the creation or the transition that says so. -/
theorem Lifecycle.completes {move : Move} {v v' : View} (h : Lifecycle move v v')
    (hbefore : v.status ≠ some .completed) (hafter : v'.status = some .completed) :
    move = .created .completed ∨ move = .moved .completed := by
  cases h with
  | stay => exact absurd hafter hbefore
  | already => exact absurd hafter hbefore
  | created =>
      cases hafter
      exact .inl rfl
  | moved =>
      cases hafter
      exact .inr rfl
  | submitted => cases hafter
  | granted => exact absurd hafter hbefore
  | renewed => exact absurd hafter hbefore
  | advanced => exact absurd hafter hbefore
  | @ended status row =>
      have hsettled : row.settled status = .completed := Option.some.inj hafter
      unfold QueueRow.settled at hsettled
      split at hsettled
      · cases hsettled
      · exact absurd (congrArg some hsettled) hbefore
  | flagged => exact absurd hafter hbefore
  | cancelled => cases hafter
  | retried => exact absurd hafter hbefore

/-- Any run in which tasks are created with status `CREATED`. -/
def createdRun : Rules ledgerMachine where
  start := World.Fresh
  program _ := True
  admits _ r _ := ∀ task acceptance, r = .createTask task acceptance → task.status = .created

/-- The request that completes a task is a transition, and acceptance is complete. -/
theorem completing_request {env : Surroundings} {r : Request} {w w' : World}
    {reply : Except Exn r.Reply}
    (hadmits : ∀ task acceptance, r = .createTask task acceptance → task.status = .created)
    (h : perform env r w = (reply, w')) (hbefore : (w.db.view taskId).status ≠ some .completed)
    (hafter : (w'.db.view taskId).status = some .completed) (pid : ℕ) :
    (∃ owner currentStep metadata task, Event.call pid r reply =
      (.call pid (.transition owner taskId .completed currentStep metadata) (.ok task) :
        Event Request.Reply Exn)) ∧
      ∃ row, Evidenced w.fs w.db taskId row := by
  have hmove := (perform_lifecycle h taskId).completes hbefore hafter
  cases r with
  | createTask task acceptance =>
      have hcreated := hadmits task acceptance rfl
      cases reply <;> simp only [moveOf] at hmove
      · simp at hmove
      · split at hmove <;> simp [hcreated] at hmove
  | transition owner id target currentStep metadata =>
      rcases commit_cases h with ⟨task, db', hx, rfl, rfl⟩ | ⟨e, -, rfl, rfl⟩
      · simp only [moveOf] at hmove
        split at hmove
        next hid =>
          subst hid
          have htarget : target = .completed := by simpa using hmove
          subst htarget
          refine ⟨⟨owner, currentStep, metadata, task, rfl⟩, ?_⟩
          obtain ⟨row, hrow, ⟨hsame, -, -⟩ | ⟨-, hmoved⟩⟩ := transition_ok hx
          · refine absurd ?_ hbefore
            simp only [Database.view, hrow, Option.map_some, hsame]
          · obtain ⟨result, hresult, hcomplete⟩ := hmoved.accepted rfl
            exact evidenced_of_complete hresult hcomplete
        next => simp at hmove
      · exact absurd hafter hbefore
  | claim workerId leaseS =>
      rcases reply with e | answer
      · simp [moveOf] at hmove
      · cases answer with
        | none => simp [moveOf, claimMove] at hmove
        | some lease =>
            simp only [moveOf, claimMove] at hmove
            split at hmove <;> simp at hmove
  | advance lease index =>
      cases reply <;> simp only [moveOf] at hmove
      · simp at hmove
      · split at hmove <;> simp at hmove
  | _ => simp [moveOf] at hmove

/-- Every completed task was completed by a transition at whose commit its evidence was
complete and intact. -/
theorem completion_sound {s : System ledgerMachine} (hs : Reachable createdRun s)
    {taskRow : TaskRow} (htask : s.snap.state.db.tasks.get? taskId = some taskRow)
    (hdone : taskRow.payload.status = .completed) :
    ∃ s₁ s₂ pid owner currentStep metadata task row, Reachable createdRun s₁ ∧
      Step createdRun s₁ s₂ ∧ Steps createdRun s₂ s ∧
      s₂.snap.log = s₁.snap.log ++
        [.call pid (.transition owner taskId .completed currentStep metadata) (.ok task)] ∧
      (s₁.snap.state.db.view taskId).status ≠ some .completed ∧
      Evidenced s₁.snap.state.fs s₁.snap.state.db taskId row := by
  have hstatus : (s.snap.state.db.view taskId).status = some .completed := by
    simp only [Database.view, htask, Option.map_some, hdone]
  clear htask hdone taskRow
  induction hs with
  | start w hw =>
      have hempty : w.db = .empty := hw
      simp [Database.view, hempty, Database.empty] at hstatus
  | @step s s' hreachable hstep ih =>
      by_cases hbefore : (s.snap.state.db.view taskId).status = some .completed
      · obtain ⟨s₁, s₂, pid, owner, currentStep, metadata, task, row, h₁, h₂, hrest, hcommit⟩ :=
          ih hbefore
        exact ⟨s₁, s₂, pid, owner, currentStep, metadata, task, row, h₁, h₂, hrest.tail hstep,
          hcommit⟩
      · rcases hstep.state_cases with hsame | hdrift | ⟨pid, r, env, reply, hadmits, hperform, hlog⟩
        · rw [hsame] at hstatus
          exact absurd hstatus hbefore
        · rw [hdrift.view_eq] at hstatus
          exact absurd hstatus hbefore
        · obtain ⟨⟨owner, currentStep, metadata, task, hevent⟩, row, hrow⟩ :=
            completing_request hadmits hperform hbefore hstatus pid
          exact ⟨s, s', pid, owner, currentStep, metadata, task, row, hreachable, hstep, .refl,
            hevent ▸ hlog, hbefore, hrow⟩

end Evidence

section Attested

local instance completionAttested : Platform := .reference []

/-- A contract that asks for one artifact. -/
def Sample.contract : AcceptanceContract :=
  { AcceptanceContract.default with requiredArtifacts := {"report"} }

/-- A task outside of the queue whose caller attests the artifact it owes. -/
def Sample.attested : List (Surroundings × Request) :=
  [(moment 0 "", .createTask task none),
    (moment 0 "", .transition none "task" .planned none []),
    (moment 0 "", .transition none "task" .running none []),
    (moment 0 "", .bindAcceptance "task" contract),
    (moment 0 "", .recordObservations "task" ⟨∅, {"report"}, []⟩),
    (moment 0 "", .transition none "task" .verifying none [])]

theorem Sample.attested_reachable :
    Reachable createdRun ((Sample.fresh []).script Sample.attested) := by
  refine (Reachable.start _ rfl).steps (Steps.script (fun _ _ => trivial) ?_ _)
  intro x hx pid s task acceptance htask
  simp only [Sample.attested, List.mem_cons, List.not_mem_nil, or_false] at hx
  rcases hx with rfl | rfl | rfl | rfl | rfl | rfl <;> cases htask
  rfl

theorem Sample.completes (s : System ledgerMachine) :
    Step createdRun (s.spawned (.transition none "task" .completed none []))
      (s.asked (Sample.moment 0 "") (.transition none "task" .completed none [])) :=
  .asked (fun _ _ _ _ h => by cases h) s _

theorem completion_sound_attested :
    ∃ s row, Reachable createdRun s ∧ Evidenced s.snap.state.fs s.snap.state.db "task" row := by
  obtain ⟨s, hs⟩ : ∃ s, s = (Sample.fresh []).script Sample.attested := ⟨_, rfl⟩
  obtain ⟨row, hrow, hdone⟩ : ∃ row ∈ (s.asked (Sample.moment 0 "")
      (.transition none "task" .completed none [])).snap.state.db.tasks.get? "task",
      row.payload.status = .completed := by
    rw [hs]
    decide +kernel
  have hreachable : Reachable createdRun (s.spawned (.transition none "task" .completed none [])) :=
    (hs ▸ Sample.attested_reachable).step (.spawn s _ trivial)
  obtain ⟨s₁, -, -, -, -, -, -, row₁, hs₁, -, -, -, -, hevidence⟩ :=
    completion_sound (hreachable.step (Sample.completes s)) hrow hdone
  exact ⟨s₁, row₁, hs₁, hevidence⟩

/-- The task completes although none of its artifacts has the required name: it has none. -/
theorem completion_without_artifact :
    ∃ s s' row, Reachable createdRun s ∧ Step createdRun s s' ∧
      (s.snap.state.db.view "task").status ≠ some .completed ∧
      (s'.snap.state.db.view "task").status = some .completed ∧
      s.snap.state.db.acceptance.get? "task" = some row ∧
      "report" ∈ row.contract.requiredArtifacts ∧ s.snap.state.db.artifactsOf "task" = [] := by
  obtain ⟨s, hs⟩ : ∃ s, s = (Sample.fresh []).script Sample.attested := ⟨_, rfl⟩
  have hreachable : Reachable createdRun (s.spawned (.transition none "task" .completed none [])) :=
    (hs ▸ Sample.attested_reachable).step (.spawn s _ trivial)
  have hstatus : (s.snap.state.db.view "task").status ≠ some .completed ∧
      ((s.asked (Sample.moment 0 "") (.transition none "task" .completed
        none [])).snap.state.db.view "task").status = some .completed := by
    rw [hs]
    decide +kernel
  obtain ⟨row, hrow, hrequired⟩ : ∃ row ∈ s.snap.state.db.acceptance.get? "task",
      "report" ∈ row.contract.requiredArtifacts := by
    rw [hs]
    decide +kernel
  have hnone : (s.snap.state.db.artifactsOf "task").isEmpty = true := by
    rw [hs]
    decide +kernel
  exact ⟨_, _, row, hreachable, Sample.completes s, hstatus.1, hstatus.2, hrow, hrequired,
    List.isEmpty_iff.mp hnone⟩

end Attested

end Dante
