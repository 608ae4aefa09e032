import Dante.Model.Ledger
import Dante.Model.Preflight
import Dante.Model.Reference

/-! # What a digest tells apart

A digest settles the value up to its meaning as JSON. Step keys, approvals and receipts rest
on that: two operations share a digest only if they are the same operation. -/

namespace Dante

open JsonText

section Encoder

variable [Platform]

/-! ## JSON values -/

theorem digest_injective {v v' : Json} {hash : String} (h : digest v = .ok hash)
    (h' : digest v' = .ok hash) : canonical v = canonical v' := by
  unfold digest at h h'
  split at h <;> split at h'
  next hv hv' =>
    have hsha := Platform.sha256_injective (Except.ok.inj (h.trans h'.symm))
    rw [String.toUTF8_eq_toByteArray, String.toUTF8_eq_toByteArray, String.toByteArray_inj] at hsha
    exact normalized_inj hv hv' (String.ofList_injective hsha)
  all_goals cases h <;> cases h'

theorem digest_congr {v v' : Json} (h : canonical v = canonical v') : digest v = digest v' := by
  have hfinite : finite v = finite v' := by
    rw [← finite_canonical v, ← finite_canonical v', h]
  simp only [digest, hfinite, normalized, h]

theorem finite_of_digest {v : Json} {hash : String} (h : digest v = .ok hash) :
    finite v = true := by
  by_contra hv
  simp [digest, hv] at h

theorem digest_eq_iff {v v' : Json} {hash hash' : String} (h : digest v = .ok hash)
    (h' : digest v' = .ok hash') : hash = hash' ↔ normalized v = normalized v' := by
  simp only [digest, finite_of_digest h, finite_of_digest h', if_true, Except.ok.injEq] at h h'
  subst h h'
  constructor
  · intro hsha
    have htext := Platform.sha256_injective hsha
    rw [String.toUTF8_eq_toByteArray, String.toUTF8_eq_toByteArray, String.toByteArray_inj] at htext
    exact String.ofList_injective htext
  · intro htext
    rw [htext]

/-! ## Python values -/

/-- Why `check_keys` refuses a value. -/
def keyError : Exn := .valueError "JSON object keys must be strings"

omit [Platform] in
mutual
theorem checkKeys_eq : ∀ v : Value,
    checkKeys v = if v.stringKeys then .ok () else .error keyError
  | .none | .bool _ | .int _ | .float _ | .nonFinite _ | .str _ => rfl
  | .list items => checkKeysItems_eq items
  | .tuple items => checkKeysItems_eq items
  | .dict entries => by
      have ih := checkKeysEntries_eq entries
      rw [checkKeys, Value.stringKeys]
      cases hall : entries.all (fun e => e.1.isStr)
      · rfl
      · exact ih
theorem checkKeysItems_eq : ∀ items : List Value,
    checkKeysItems items = if Value.stringKeysItems items then .ok () else .error keyError
  | [] => rfl
  | v :: items => by
      rw [checkKeysItems, checkKeys_eq v, checkKeysItems_eq items, Value.stringKeysItems]
      cases v.stringKeys <;> rfl
theorem checkKeysEntries_eq : ∀ entries : List (Value × Value),
    checkKeysEntries entries =
      if Value.stringKeysEntries entries then .ok () else .error keyError
  | [] => rfl
  | (_, v) :: entries => by
      rw [checkKeysEntries, checkKeys_eq v, checkKeysEntries_eq entries, Value.stringKeysEntries]
      cases v.stringKeys <;> rfl
end

theorem digestValue_eq (v : Value) :
    digestValue v = if v.stringKeys then digest v.toJson else .error keyError := by
  rw [digestValue, checkKeys_eq]
  cases v.stringKeys <;> rfl

/-- On a value read from JSON the two digests are one. -/
theorem digestValue_ofJson (v : Json) : digestValue (.ofJson v) = digest v := by
  rw [digestValue_eq, Value.stringKeys_ofJson, Value.toJson_ofJson, if_pos rfl]

theorem digestValue_ok {v : Value} {hash : String} (h : digestValue v = .ok hash) :
    v.stringKeys = true ∧ digest v.toJson = .ok hash := by
  rw [digestValue_eq] at h
  by_cases hv : v.stringKeys = true
  · rw [if_pos hv] at h
    exact ⟨hv, h⟩
  · rw [if_neg hv] at h
    cases h

/-- A digest settles a Python value up to its meaning as JSON. -/
theorem digestValue_settles {v w : PyValue} {a b : String} (hv : digestValue v.value = .ok a)
    (hw : digestValue w.value = .ok b) :
    (normalized v.value.toJson = normalized w.value.toJson ↔ v.value.Same w.value) ∧
      (a = b ↔ v.value.Same w.value) := by
  obtain ⟨kv, dv⟩ := digestValue_ok hv
  obtain ⟨kw, dw⟩ := digestValue_ok hw
  have htext := Value.normalized_eq_iff kv kw v.distinct w.distinct (finite_of_digest dv)
    (finite_of_digest dw)
  exact ⟨htext, (digest_eq_iff dv dw).trans htext⟩

/-- Every finite value with string keys has a digest. -/
theorem digestValue_of_finite {v : Value} (hkeys : v.stringKeys = true)
    (hfinite : finite v.toJson = true) :
    digestValue v = .ok (Platform.sha256 (String.ofList (normalized v.toJson)).toUTF8) := by
  rw [digestValue_eq, if_pos hkeys, digest, if_pos hfinite]

theorem digestValue_keys {v : Value} (h : v.stringKeys = false) :
    digestValue v = .error (.valueError "JSON object keys must be strings") := by
  rw [digestValue_eq, h]
  rfl

/-! ## Step keys -/

theorem digest_str_ne_arr {text : String} {items : List Json} :
    digest (.str text) ≠ digest (.arr items) := by
  intro h
  have hstr : digest (.str text) = .ok (Platform.sha256
      (String.ofList (normalized (.str text))).toUTF8) := by simp [digest, finite]
  have heq := digest_injective hstr (h.symm.trans hstr)
  simp [canonical] at heq

theorem stepKey_derived_inj {toolId toolVersion argsDigest toolId' toolVersion' argsDigest'
    hash : String} (h : stepKey toolId toolVersion argsDigest none = .ok hash)
    (h' : stepKey toolId' toolVersion' argsDigest' none = .ok hash) :
    toolId = toolId' ∧ toolVersion = toolVersion' ∧ argsDigest = argsDigest' := by
  have heq := digest_injective h h'
  simpa [canonical, canonicalItems] using heq

/-! ## Actions -/

omit [Platform] in
theorem sorted_injective {names names' : Finset String} (h : sorted names = sorted names') :
    names = names' := by
  ext name
  rw [← Finset.mem_sort (· ≤ ·), ← Finset.mem_sort (· ≤ ·) (s := names')]
  exact Iff.of_eq (congrArg (name ∈ ·) h)

omit [Platform] in
theorem canonicalItems_texts (names : List String) :
    canonicalItems (names.map .str) = names.map .str := by
  induction names with
  | nil => simp [canonicalItems]
  | cons name names ih => simp [canonicalItems, canonical, ih]

/-- The same manifest; only the order of keys may differ. -/
structure ToolManifest.Alike (m m' : ToolManifest) : Prop where
  toolId : m.toolId = m'.toolId
  version : m.version = m'.version
  permissions : m.permissions = m'.permissions
  risk : m.risk = m'.risk
  filesystemScope : m.filesystemScope = m'.filesystemScope
  networkScope : m.networkScope = m'.networkScope
  secretAccess : m.secretAccess = m'.secretAccess
  approvalPolicy : m.approvalPolicy = m'.approvalPolicy
  timeoutS : m.timeoutS = m'.timeoutS
  outputLimitBytes : m.outputLimitBytes = m'.outputLimitBytes
  argumentsSchema :
    canonical (m.argumentsSchema.getD .null) = canonical (m'.argumentsSchema.getD .null)
  pathPermissions :
    canonical (dumpTexts m.pathPermissions) = canonical (dumpTexts m'.pathPermissions)

omit [Platform] in
theorem ToolManifest.alike_of_canonical {m m' : ToolManifest}
    (h : canonical m.dump = canonical m'.dump) : m.Alike m' := by
  have hentry := lookup_canonical_eq (by simp) (by simp) h
  constructor
  case toolId => simpa [List.lookup_cons, canonical] using hentry "tool_id"
  case version => simpa [List.lookup_cons, canonical] using hentry "version"
  case permissions =>
    have hitems := hentry "permissions"
    simp only [List.lookup_cons, String.reduceBEq, Option.map_some, canonical, canonicalItems_texts,
      Option.some.injEq, Json.arr.injEq] at hitems
    refine sorted_injective (List.map_injective_iff.mpr ?_ hitems)
    exact fun _ _ hstr => Json.str.inj hstr
  case risk => simpa [List.lookup_cons, canonical] using hentry "risk"
  case filesystemScope => simpa [List.lookup_cons, canonical] using hentry "filesystem_scope"
  case networkScope => simpa [List.lookup_cons, canonical] using hentry "network_scope"
  case secretAccess => simpa [List.lookup_cons, canonical] using hentry "secret_access"
  case approvalPolicy => simpa [List.lookup_cons, canonical] using hentry "approval_policy"
  case timeoutS => simpa [List.lookup_cons, canonical] using hentry "timeout_s"
  case outputLimitBytes => simpa [List.lookup_cons, canonical] using hentry "output_limit_bytes"
  case argumentsSchema => simpa [List.lookup_cons] using hentry "arguments_schema"
  case pathPermissions => simpa [List.lookup_cons] using hentry "path_permissions"

/-- What an action's canonical form says of it. -/
structure SameActionJson (taskId workspace : String) (m : ToolManifest) (arguments : Dict Json)
    (planHash taskId' workspace' : String) (m' : ToolManifest) (arguments' : Dict Json)
    (planHash' : String) : Prop where
  taskId : taskId = taskId'
  workspace : workspace = workspace'
  manifest : canonical m.dump = canonical m'.dump
  arguments : canonical (.obj arguments) = canonical (.obj arguments')
  planHash : planHash = planHash'

omit [Platform] in
theorem actionJson_inj {taskId workspace planHash taskId' workspace' planHash' : String}
    {m m' : ToolManifest} {arguments arguments' : Dict Json}
    (h : canonical (actionJson taskId workspace m arguments planHash) =
      canonical (actionJson taskId' workspace' m' arguments' planHash')) :
    SameActionJson taskId workspace m arguments planHash taskId' workspace' m' arguments'
      planHash' := by
  have hfield := lookup_canonical_eq (by simp) (by simp) h
  constructor
  case taskId => simpa [List.lookup_cons, canonical] using hfield "task"
  case workspace => simpa [List.lookup_cons, canonical] using hfield "workspace"
  case manifest => simpa [List.lookup_cons] using hfield "manifest"
  case arguments => simpa [List.lookup_cons] using hfield "arguments"
  case planHash => simpa [List.lookup_cons, canonical] using hfield "plan"

/-- Two actions have one hash only if they are the same action. -/
theorem actionHash_inj {broker broker' : ToolBroker} {task task' : Task}
    {toolId toolId' planHash planHash' hash : String} {arguments arguments' : Dict Json}
    {m m' : ToolManifest} (hm : broker.manifest toolId = .ok m)
    (hm' : broker'.manifest toolId' = .ok m')
    (h : actionHash broker task toolId arguments planHash = .ok hash)
    (h' : actionHash broker' task' toolId' arguments' planHash' = .ok hash) :
    SameActionJson task.taskId task.workspace m arguments planHash task'.taskId task'.workspace
      m' arguments' planHash' := by
  simp only [actionHash, hm, bind, Except.bind] at h
  simp only [actionHash, hm', bind, Except.bind] at h'
  exact actionJson_inj (digest_injective h h')

/-- What the canonical digest tells apart: Python values that differ as JSON, a chosen step
key from a derived one, and actions that differ in the task, the manifest, the arguments or
the plan. A dict with a key that is no string has no digest. -/
theorem digest_separates :
    (∀ (v w : PyValue) (a b : String), digestValue v.value = .ok a →
      digestValue w.value = .ok b →
        (normalized v.value.toJson = normalized w.value.toJson ↔ v.value.Same w.value) ∧
          (a = b ↔ v.value.Same w.value)) ∧
    (∀ v : Value, v.stringKeys = false →
      digestValue v = .error (.valueError "JSON object keys must be strings")) ∧
    (∀ key toolId toolVersion argsDigest : String,
      digest (.str key) ≠ digest (.arr [.str toolId, .str toolVersion, .str argsDigest])) ∧
    (∀ (broker broker' : ToolBroker) (task task' : Task) (toolId toolId' planHash planHash' : String)
      (arguments arguments' : Dict Json) (m m' : ToolManifest) (hash : String),
      broker.manifest toolId = .ok m → broker'.manifest toolId' = .ok m' →
        actionHash broker task toolId arguments planHash = .ok hash →
          actionHash broker' task' toolId' arguments' planHash' = .ok hash →
            task.taskId = task'.taskId ∧ task.workspace = task'.workspace ∧ m.Alike m' ∧
              canonical (.obj arguments) = canonical (.obj arguments') ∧ planHash = planHash') := by
  refine ⟨fun _ _ _ _ => digestValue_settles, fun _ => digestValue_keys, ?_, ?_⟩
  · exact fun _ _ _ _ => digest_str_ne_arr
  · intro broker broker' task task' toolId toolId' planHash planHash' arguments arguments' m m' hash
      hm hm' h h'
    have hsame := actionHash_inj hm hm' h h'
    exact ⟨hsame.taskId, hsame.workspace, ToolManifest.alike_of_canonical hsame.manifest,
      hsame.arguments, hsame.planHash⟩

end Encoder

section Example

local instance digestPlatform : Platform := .reference []

/-- `{"a": (1, True), "b": None}`. -/
def sampleDict : PyValue where
  value := .dict [(.str "a", .tuple [.int 1, .bool true]), (.str "b", .none)]
  distinct := by simp [Value.Distinct, Value.DistinctEntries, Value.DistinctItems]

/-- `{"b": None, "a": [1, True]}`. -/
def sampleTwin : PyValue where
  value := .dict [(.str "b", .none), (.str "a", .list [.int 1, .bool true])]
  distinct := by simp [Value.Distinct, Value.DistinctEntries, Value.DistinctItems]

theorem digest_separates_sample :
    normalized sampleDict.value.toJson = normalized sampleTwin.value.toJson := by
  have hsame : sampleDict.value.Same sampleTwin.value := by
    refine ⟨⟨⟨.list [.int 1, .bool true], by simp, ⟨rfl, rfl, trivial⟩⟩,
      ⟨.none, by simp, trivial⟩, trivial⟩, by simp⟩
  have hdict := digestValue_of_finite (v := sampleDict.value) (by decide) (by decide)
  have htwin := digestValue_of_finite (v := sampleTwin.value) (by decide) (by decide)
  exact (digest_separates.1 sampleDict sampleTwin _ _ hdict htwin).1.mpr hsame

end Example

end Dante
