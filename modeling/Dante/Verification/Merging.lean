import Dante.Model.Reference
import Dante.Verification.Dictionaries
import Dante.Verification.Operations

/-! # Merged observations

The tools and artifacts of two observations are united, while a field of the later one takes the
place of the earlier value. So a requirement that was met stays met unless a field that shows
something is overwritten by a blank. -/

namespace Dante

open Relational

/-! ## What a merge keeps -/

/-- Nothing is missing that was not missing before. -/
structure AcceptanceResult.Within (after before : AcceptanceResult) : Prop where
  checks : after.missingChecks ⊆ before.missingChecks
  artifacts : after.missingArtifacts ⊆ before.missingArtifacts
  finalFields : after.missingFinalFields ⊆ before.missingFinalFields

/-- The field shows something before, and is blank in what is merged into it. -/
def Blanks (fields later : Dict String) (name : String) : Prop :=
  name ∈ presentFields fields ∧ ∃ value, later.lookup name = some value ∧ isBlank value = true

variable {fields later : Dict String} {name : String}

theorem mem_sorted {names : Finset String} : name ∈ sorted names ↔ name ∈ names := by
  rw [sorted, Finset.mem_sort]

theorem Dict.Distinct.present (h : fields.Distinct) :
    name ∈ presentFields fields ↔ ∃ value, fields.lookup name = some value ∧ isBlank value = false := by
  rw [mem_presentFields]
  exact exists_congr fun value => and_congr_left' h.lookup.symm

/-- What a lookup finds is what counts. -/
theorem present_congr {others : Dict String} (h : fields.Distinct) (hothers : others.Distinct)
    (hlookup : fields.lookup name = others.lookup name) :
    name ∈ presentFields fields ↔ name ∈ presentFields others := by
  rw [h.present, hothers.present, hlookup]

theorem present_update (h : fields.Distinct) (hlater : later.Distinct)
    (hpresent : name ∈ presentFields fields) :
    name ∈ presentFields (fields.update later) ↔ ¬Blanks fields later name := by
  rw [h.update.present, Dict.lookup_update hlater]
  obtain ⟨value, hvalue, hshown⟩ := h.present.mp hpresent
  cases hfound : later.lookup name with
  | none => simp [Blanks, hfound, hvalue, hshown]
  | some other => simp [Blanks, hfound, hpresent]

theorem AcceptanceResult.withPending_artifacts {result : AcceptanceResult} {pending : List String} :
    (result.withPending pending).missingArtifacts = result.missingArtifacts := by
  unfold withPending
  split <;> rfl

theorem AcceptanceResult.withPending_finalFields {result : AcceptanceResult}
    {pending : List String} :
    (result.withPending pending).missingFinalFields = result.missingFinalFields := by
  unfold withPending
  split <;> rfl

theorem AcceptanceResult.mem_withPending {result : AcceptanceResult} {pending : List String} :
    name ∈ (result.withPending pending).missingChecks ↔
      name ∈ result.missingChecks ∨ name ∈ pending := by
  unfold withPending
  cases pending with
  | nil => simp
  | cons first rest => simp

/-- Two verifications against one contract, of which the second has seen more tools and
artifacts, differ for the worse only in final fields. -/
theorem verify_within {c : AcceptanceContract} {a b : ObservedAcceptance} {pending : List String}
    (htools : a.tools ⊆ b.tools) (hartifacts : a.artifacts ⊆ b.artifacts) :
    ((verify c b).withPending pending).Within ((verify c a).withPending pending) ↔
      ∀ name ∈ c.requiredFinalFields,
        name ∈ presentFields a.finalFields → name ∈ presentFields b.finalFields := by
  have hchecks (name : String) (hname : name ∈ (verify c b).missingChecks) :
      name ∈ (verify c a).missingChecks :=
    mem_sorted.mpr (Finset.sdiff_subset_sdiff subset_rfl htools (mem_sorted.mp hname))
  constructor
  · intro h name hname hpresent
    by_contra hmissing
    have hmem : name ∈ ((verify c b).withPending pending).missingFinalFields := by
      rw [AcceptanceResult.withPending_finalFields]
      exact mem_sorted.mpr (Finset.mem_sdiff.mpr ⟨hname, hmissing⟩)
    have hbefore := h.finalFields hmem
    rw [AcceptanceResult.withPending_finalFields] at hbefore
    exact (Finset.mem_sdiff.mp (mem_sorted.mp hbefore)).2 hpresent
  · intro h
    refine ⟨fun name hname => ?_, fun name hname => ?_, fun name hname => ?_⟩
    · rw [AcceptanceResult.mem_withPending] at hname ⊢
      exact hname.imp_left (hchecks name)
    · rw [AcceptanceResult.withPending_artifacts] at hname ⊢
      exact mem_sorted.mpr (Finset.sdiff_subset_sdiff subset_rfl hartifacts (mem_sorted.mp hname))
    · rw [AcceptanceResult.withPending_finalFields] at hname ⊢
      obtain ⟨hrequired, hmissing⟩ := Finset.mem_sdiff.mp (mem_sorted.mp hname)
      exact mem_sorted.mpr (Finset.mem_sdiff.mpr ⟨hrequired, fun hpresent =>
        hmissing (h name hrequired hpresent)⟩)

theorem merged_within {c : AcceptanceContract} {a b : ObservedAcceptance}
    (ha : a.finalFields.Distinct) (hb : b.finalFields.Distinct) :
    (verify c (a.merged b)).Within (verify c a) ↔
      ∀ name ∈ c.requiredFinalFields, ¬Blanks a.finalFields b.finalFields name := by
  have hwithin := @verify_within c a (a.merged b) [] Finset.subset_union_left
    Finset.subset_union_left
  refine hwithin.trans ?_
  refine forall₂_congr fun name _ => ?_
  constructor
  · intro h hblanks
    exact (present_update ha hb hblanks.1).mp (h hblanks.1) hblanks
  · intro h hpresent
    exact (present_update ha hb hpresent).mpr h

theorem AcceptanceResult.Within.complete {c : AcceptanceContract} {a b : ObservedAcceptance}
    (h : (verify c b).Within (verify c a)) (hcomplete : (verify c a).acceptanceComplete = true) :
    (verify c b).acceptanceComplete = true := by
  rw [verify_complete] at hcomplete ⊢
  obtain ⟨htools, hartifacts, hfields⟩ := hcomplete
  refine ⟨fun name hname => ?_, fun name hname => ?_, fun name hname => ?_⟩
  · by_contra hmissing
    have hbefore := h.checks (mem_sorted.mpr (Finset.mem_sdiff.mpr ⟨hname, hmissing⟩))
    exact (Finset.mem_sdiff.mp (mem_sorted.mp hbefore)).2 (htools hname)
  · by_contra hmissing
    have hbefore := h.artifacts (mem_sorted.mpr (Finset.mem_sdiff.mpr ⟨hname, hmissing⟩))
    exact (Finset.mem_sdiff.mp (mem_sorted.mp hbefore)).2 (hartifacts hname)
  · by_contra hmissing
    have hbefore := h.finalFields (mem_sorted.mpr (Finset.mem_sdiff.mpr ⟨hname, hmissing⟩))
    exact (Finset.mem_sdiff.mp (mem_sorted.mp hbefore)).2 (hfields hname)

/-! ## The persistent acceptance of a task -/

section Persistent

variable [Platform] {fs : FileSystem} {db : Database} {taskId : String}

/-- No evidence says what the field is: what it refers to is intact, but not a text. -/
def Undecided (fs : FileSystem) (db : Database) (taskId : String) (evidence : Dict String)
    (name : String) : Prop :=
  ∀ ref ∈ evidence, ref.1 = name → ∃ value, finalFieldValue fs db taskId ref.1 ref.2 = .ok value ∧
    ∀ text, value ≠ .str text

theorem gatherField_lookup {ref : String × String} :
    (gatherField fs db taskId fields ref).lookup name = if ref.1 = name then
      match finalFieldValue fs db taskId ref.1 ref.2 with
      | .ok (.str value) => some value
      | .ok _ => fields.lookup name
      | .error _ => none
    else fields.lookup name := by
  unfold gatherField
  cases finalFieldValue fs db taskId ref.1 ref.2 with
  | error e => exact Dict.lookup_pop
  | ok value =>
      cases value with
      | str text => exact Dict.lookup_set
      | _ => exact (ite_self _).symm

theorem Dict.Distinct.gatherField {ref : String × String} (h : fields.Distinct) :
    (Dante.gatherField fs db taskId fields ref).Distinct := by
  unfold Dante.gatherField
  split
  · exact h.set
  · exact h
  · exact h.pop

theorem Dict.Distinct.gathered {evidence : Dict String} (h : fields.Distinct) :
    (evidence.foldl (Dante.gatherField fs db taskId) fields).Distinct := by
  induction evidence generalizing fields with
  | nil => exact h
  | cons ref rest ih => exact ih h.gatherField

theorem gathered_undecided {evidence : Dict String} (h : Undecided fs db taskId evidence name) :
    (evidence.foldl (gatherField fs db taskId) fields).lookup name = fields.lookup name := by
  induction evidence generalizing fields with
  | nil => rfl
  | cons ref rest ih =>
      rw [List.foldl_cons, ih fun other hother => h other (.tail _ hother), gatherField_lookup]
      by_cases hname : ref.1 = name
      · obtain ⟨value, hvalue, htext⟩ := h ref (.head _) hname
        rw [if_pos hname, hvalue]
        cases value with
        | str text => exact absurd rfl (htext text)
        | _ => rfl
      · rw [if_neg hname]

/-- A field that evidence decides does not depend on what was attested. -/
theorem gathered_decided {evidence others : Dict String}
    (h : ¬Undecided fs db taskId evidence name ∨ fields.lookup name = others.lookup name) :
    (evidence.foldl (gatherField fs db taskId) fields).lookup name =
      (evidence.foldl (gatherField fs db taskId) others).lookup name := by
  induction evidence generalizing fields others with
  | nil => exact h.resolve_left fun hdecided => hdecided fun _ href => by cases href
  | cons ref rest ih =>
      refine ih ?_
      rw [gatherField_lookup, gatherField_lookup]
      by_cases hrest : Undecided fs db taskId rest name
      · right
        rcases h with hdecided | hsame
        · by_cases hname : ref.1 = name
          · rw [if_pos hname, if_pos hname]
            cases hvalue : finalFieldValue fs db taskId ref.1 ref.2 with
            | error e => rfl
            | ok value =>
                cases value with
                | str text => rfl
                | _ =>
                    refine absurd (fun other hother hsame => ?_) hdecided
                    rcases List.mem_cons.mp hother with rfl | htail
                    · exact ⟨_, hvalue, by simp⟩
                    · exact hrest other htail hsame
          · refine absurd (fun other hother hsame => ?_) hdecided
            rcases List.mem_cons.mp hother with rfl | htail
            · exact absurd hsame hname
            · exact hrest other htail hsame
        · rw [hsame]
      · exact .inl hrest

/-! ### The loops over steps and artifacts -/

/-- Some tools are known from the start. -/
def Gathered.adding (acc : Gathered) (tools : Finset String) : Gathered :=
  { acc with tools := tools ∪ acc.tools }

theorem gatherStep_adding {acc : Gathered} {tools : Finset String} {step : StepRecord} :
    gatherStep fs db taskId (acc.adding tools) step =
      (gatherStep fs db taskId acc step).map (·.adding tools) := by
  unfold gatherStep
  split
  · simp [Gathered.adding, Except.map, Finset.union_insert]
  · split_ifs <;> rfl

theorem gatherArtifact_adding {acc : Gathered} {tools : Finset String} {item : Artifact} :
    gatherArtifact fs db taskId (acc.adding tools) item =
      (gatherArtifact fs db taskId acc item).map (·.adding tools) := by
  unfold gatherArtifact
  split
  next artifact _ => cases hhashable : hashable artifact.logicalName <;> rfl
  next => split_ifs <;> rfl

omit [Platform] in
theorem foldlM_adding {α : Type} {f : Gathered → α → Except Exn Gathered} {tools : Finset String}
    (hf : ∀ acc x, f (acc.adding tools) x = (f acc x).map (·.adding tools)) (xs : List α)
    (acc : Gathered) :
    xs.foldlM f (acc.adding tools) = (xs.foldlM f acc).map (·.adding tools) := by
  induction xs generalizing acc with
  | nil => rfl
  | cons x rest ih =>
      rw [List.foldlM_cons, List.foldlM_cons, hf]
      cases hx : f acc x with
      | error e => rfl
      | ok next => exact ih next

/-- What the steps and the artifacts of a task show by themselves. -/
def evidenceOf (fs : FileSystem) (db : Database) (taskId : String) : Except Exn Gathered := do
  let acc ← (db.stepsOf taskId).foldlM (gatherStep fs db taskId) ⟨∅, [], []⟩
  (db.artifactsOf taskId).foldlM (gatherArtifact fs db taskId) acc

/-- What counts as observed for a row, beside the evidence `acc` of steps and artifacts. -/
def AcceptanceRow.observed (row : AcceptanceRow) (fs : FileSystem) (db : Database)
    (acc : Gathered) (names : List String) : ObservedAcceptance where
  tools := (row.attested.tools \ ((db.stepsOf row.taskId).map StepRecord.toolId).toFinset) ∪ acc.tools
  artifacts := row.attested.artifacts ∪ names.toFinset
  finalFields := row.finalEvidence.foldl (gatherField fs db row.taskId) row.attested.finalFields

theorem acceptanceResult_row {row : AcceptanceRow} (hrow : db.acceptance.get? taskId = some row) :
    acceptanceResult fs db taskId = (do
      let acc ← evidenceOf fs db taskId
      let names ← asStrings acc.names
      pure ((verify row.contract (row.observed fs db acc names)).withPending acc.pending)) := by
  obtain rfl : row.taskId = taskId := Table.primary_of_get? hrow
  have hstart (tools : Finset String) : (⟨tools, [], []⟩ : Gathered) =
      (⟨∅, [], []⟩ : Gathered).adding tools := by
    simp [Gathered.adding]
  unfold acceptanceResult evidenceOf
  rw [hrow]
  simp only
  rw [hstart, foldlM_adding fun _ _ => gatherStep_adding]
  cases (db.stepsOf row.taskId).foldlM (gatherStep fs db row.taskId) ⟨∅, [], []⟩ with
  | error e => rfl
  | ok acc =>
      change ((db.artifactsOf row.taskId).foldlM (gatherArtifact fs db row.taskId)
        (acc.adding _)).bind _ = _
      rw [foldlM_adding fun _ _ => gatherArtifact_adding]
      change _ = Except.bind ((db.artifactsOf row.taskId).foldlM (gatherArtifact fs db row.taskId) acc) _
      cases (db.artifactsOf row.taskId).foldlM (gatherArtifact fs db row.taskId) acc with
      | error e => rfl
      | ok acc => rfl

/-- The row with more observations attested. -/
def AcceptanceRow.attesting (row : AcceptanceRow) (observed : ObservedAcceptance) : AcceptanceRow :=
  { row with attestations := row.attestations.merged observed }

/-- Recording observations changes what is attested, and nothing else that counts. -/
theorem recorded_within {row : AcceptanceRow} {observed : ObservedAcceptance} {db' : Database}
    {result : AcceptanceResult} {u : Unit} (hrow : db.acceptance.get? taskId = some row)
    (hlegacy : row.strict = false) (hprior : row.attestations.finalFields.Distinct)
    (hobserved : observed.finalFields.Distinct)
    (hrecorded : recordObservations taskId observed db = .ok (u, db'))
    (hresult : acceptanceResult fs db taskId = .ok result) :
    ∃ result', acceptanceResult fs db' taskId = .ok result' ∧ (result'.Within result ↔
      ∀ name ∈ row.contract.requiredFinalFields,
        Undecided fs db taskId row.finalEvidence name →
          ¬Blanks row.attestations.finalFields observed.finalFields name) := by
  obtain ⟨task, accepted, -, -, haccepted, hrest⟩ := recordObservations_ok hrecorded
  rw [hrow] at haccepted
  cases haccepted
  obtain ⟨-, rfl⟩ := hrest.resolve_left fun hstrict => by
    rw [hlegacy] at hstrict
    cases hstrict.1
  obtain rfl : row.taskId = taskId := Table.primary_of_get? hrow
  rw [acceptanceResult_row hrow] at hresult
  simp only [Except.bind_eq_ok, Except.pure_eq_ok] at hresult
  obtain ⟨acc, hacc, names, hnames, rfl⟩ := hresult
  have hrow' : (db.updateAcceptance row.taskId (fun r => { r with
      attestations := r.attestations.merged observed }) fun _ => rfl).acceptance.get? row.taskId =
      some (row.attesting observed) := by
    simp [Table.get?_modify, hrow, AcceptanceRow.attesting]
  refine ⟨(verify row.contract ((row.attesting observed).observed fs db acc names)).withPending
    acc.pending, (acceptanceResult_row hrow').trans ?_, ?_⟩
  · change Except.bind (evidenceOf fs db row.taskId) _ = _
    rw [hacc]
    change Except.bind (asStrings acc.names) _ = _
    rw [hnames]
    rfl
  · have hattested : row.attested = row.attestations := by simp [AcceptanceRow.attested, hlegacy]
    have hattested' : (row.attesting observed).attested = row.attestations.merged observed := by
      simp [AcceptanceRow.attested, AcceptanceRow.attesting, hlegacy]
    refine (verify_within ?_ ?_).trans (forall₂_congr fun name _ => ?_)
    · refine Finset.union_subset_union (Finset.sdiff_subset_sdiff ?_ subset_rfl) subset_rfl
      rw [hattested, hattested']
      exact Finset.subset_union_left
    · refine Finset.union_subset_union ?_ subset_rfl
      rw [hattested, hattested']
      exact Finset.subset_union_left
    · simp only [AcceptanceRow.observed, hattested, hattested']
      simp only [AcceptanceRow.attesting, ObservedAcceptance.merged]
      by_cases hundecided : Undecided fs db row.taskId row.finalEvidence name
      · rw [present_congr hprior.gathered hprior (gathered_undecided hundecided)]
        refine Iff.trans ?_ (forall_prop_of_true hundecided).symm
        rw [present_congr hprior.update.gathered hprior.update (gathered_undecided hundecided)]
        constructor
        · intro h hblanks
          exact (present_update hprior hobserved hblanks.1).mp (h hblanks.1) hblanks
        · intro h hpresent
          exact (present_update hprior hobserved hpresent).mpr h
      · refine iff_of_true (fun hpresent => ?_) fun h => absurd h hundecided
        refine (present_congr hprior.gathered hprior.update.gathered ?_).mp hpresent
        exact gathered_decided (.inl hundecided)

/-- Whatever is verified after a merge stays satisfied, unless the contract requires a field
that shows something and is blank in what is merged into it; a recorded observation does no
harm either to a field that evidence decides. -/
theorem merging_keeps_iff :
    (∀ (c : AcceptanceContract) (a b : ObservedAcceptance), a.finalFields.Distinct →
      b.finalFields.Distinct →
      ((verify c (a.merged b)).Within (verify c a) ↔
        ∀ name ∈ c.requiredFinalFields, ¬Blanks a.finalFields b.finalFields name) ∧
      ((∀ name ∈ c.requiredFinalFields, ¬Blanks a.finalFields b.finalFields name) →
        (verify c a).acceptanceComplete = true → (verify c (a.merged b)).acceptanceComplete = true)) ∧
    ∀ (fs : FileSystem) (db db' : Database) (taskId : String) (observed : ObservedAcceptance)
      (row : AcceptanceRow) (result : AcceptanceResult) (u : Unit),
      db.acceptance.get? taskId = some row → row.strict = false →
      row.attestations.finalFields.Distinct → observed.finalFields.Distinct →
      recordObservations taskId observed db = .ok (u, db') →
      acceptanceResult fs db taskId = .ok result →
      ∃ result', acceptanceResult fs db' taskId = .ok result' ∧ (result'.Within result ↔
        ∀ name ∈ row.contract.requiredFinalFields,
          Undecided fs db taskId row.finalEvidence name →
            ¬Blanks row.attestations.finalFields observed.finalFields name) := by
  refine ⟨fun c a b ha hb => ⟨merged_within ha hb, fun hkept => ?_⟩, ?_⟩
  · exact AcceptanceResult.Within.complete ((merged_within ha hb).mpr hkept)
  · intro fs db db' taskId observed row result u hrow hlegacy hprior hobserved hrecorded hresult
    exact recorded_within hrow hlegacy hprior hobserved hrecorded hresult

end Persistent

section Sampled

local instance mergingPlatform : Platform := .reference []

/-- A contract that asks for a summary. -/
def Sample.summarized : AcceptanceContract :=
  { AcceptanceContract.default with requiredFinalFields := {"summary"} }

/-- An observation of nothing but the summary. -/
def Sample.summary (text : String) : ObservedAcceptance :=
  { ObservedAcceptance.default with finalFields := [("summary", text)] }

theorem Sample.summary_distinct (text : String) : (summary text).finalFields.Distinct :=
  List.nodup_singleton _

theorem merging_keeps_iff_summary :
    (verify Sample.summarized ((Sample.summary "draft").merged (Sample.summary "final"))).Within
      (verify Sample.summarized (Sample.summary "draft")) := by
  refine (merging_keeps_iff.1 _ _ _ (Sample.summary_distinct _) (Sample.summary_distinct _)).1.mpr ?_
  rintro name hname ⟨-, value, hvalue, hblank⟩
  cases Finset.mem_singleton.mp hname
  cases hvalue
  exact absurd hblank (by decide)

/-- The last answer leaves the summary blank, and the completed requirement is missing again. -/
theorem blank_loses_summary :
    (verify Sample.summarized (Sample.summary "done")).acceptanceComplete = true ∧
      (verify Sample.summarized
        ((Sample.summary "done").merged (Sample.summary " "))).acceptanceComplete = false ∧
      ¬∀ (c : AcceptanceContract) (a b : ObservedAcceptance),
        (verify c (a.merged b)).Within (verify c a) := by
  refine ⟨by decide +kernel, by decide +kernel, fun h => ?_⟩
  have hwithin := h Sample.summarized (Sample.summary "done") (Sample.summary " ")
  have hcomplete := hwithin.complete (by decide +kernel)
  exact absurd hcomplete (by decide +kernel)

end Sampled

end Dante
