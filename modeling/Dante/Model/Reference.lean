import Dante.Library.JsonText
import Dante.Model.Gateway
import Dante.Model.Worker

/-! # A platform to compute runs on -/

namespace Dante

open JsonText Relational Concurrent

/-! ## The platform -/

/-- Every byte as a character. -/
def byteText (data : ByteArray) : String :=
  String.ofList (data.data.toList.map Char.ofUInt8)

theorem byteText_injective : Function.Injective byteText := by
  intro a b h
  have hchars := String.ofList_injective h
  have hbyte : Function.Injective Char.ofUInt8 := by
    intro x y hxy
    exact UInt8.toUInt32_inj.mp (congrArg Char.val hxy)
  have hlist := List.map_injective_iff.mpr hbyte hchars
  cases a
  cases b
  simp_all [Array.toList_inj]

/-- The text of a whole number as a float, such as `2.0`. -/
def wholeText (n : ℤ) : FloatText where
  chars := (toString n).toList ++ ['.', '0']
  numeral := by
    obtain ⟨c, cs, h, hchars⟩ := int_chars n
    intro d hd
    rw [List.mem_append, h] at hd
    rcases hd with hd | hd
    · exact (hchars d hd).1
    · simp only [List.mem_cons, List.not_mem_nil, or_false] at hd
      rcases hd with rfl | rfl <;> rfl
  marked := ⟨'.', by simp, .inl rfl⟩

/-- The segments of a path. -/
def segments (path : String) : List String :=
  (path.toList.splitOn '/').map String.ofList

/-- A POSIX platform for runs on which only the texts of `parsed` are read as JSON, clocks show
whole seconds, and nothing is confidential. -/
@[reducible] def Platform.reference (parsed : List (String × Json)) : Platform where
  sha256 := byteText
  sha256_injective := byteText_injective
  loads data := parsed.lookup (byteText data)
  floatValue _ := 0
  floatText q := wholeText q.floor
  lower s := String.ofList (s.toList.map Char.toLower)
  setOrder s := sorted s
  mem_setOrder := by simp [sorted]
  isRelativeTo path root := path == root || (root ++ "/").toList.isPrefixOf path.toList
  pathText path := path
  parts path := segments path
  name path := (segments path).getLast?.getD ""
  isAbsolute path := path.toList.head? == some '/'
  join root path := root ++ "/" ++ path
  parents path := ((segments path).dropLast.inits.map fun l => "/".intercalate l).reverse
  windowsParts path := segments path
  windowsDrive _ := ""
  encodedBefore _ := 0
  searchSecret _ := false
  searchConfidential _ := false

/-! ## Files -/

/-- A file system with the given files and no links. -/
def FileSystem.holding (files : List (String × String)) : FileSystem where
  contents path := (files.lookup path).map String.toUTF8
  isFile path := (files.lookup path).isSome
  resolution path := .ok path
  isReparse _ := false

/-! ## A task to run -/

namespace Sample

/-- A new task with id `task`. -/
def task : Task where
  taskId := "task"
  status := .created
  goal := "report"
  privacyClass := .internal
  selectedRoute := none
  workspace := "/work"
  attempts := 0
  currentStep := none
  artifacts := []
  checkpoint := []

/-- An action without arguments. -/
def action (toolId : String) (named : toolId ≠ "") : Action where
  toolId := toolId
  named := named
  version := "1"
  arguments := []
  approvalId := none
  planHash := "plan"

theorem write_named : "write" ≠ "" := by decide

theorem read_named : "read" ≠ "" := by decide

theorem finite_nothing : finite (.obj []) = true := rfl

/-- One action, and nothing else to show. -/
def plan : ExecutionPlan where
  actions := [action "write" write_named]
  acceptance := .default
  nonempty := by decide
  bounded := by decide

/-- The clock stands still, new rows are called `newId`, and no handler answers in time. -/
def moment (now : ℚ) (newId : String) : Surroundings where
  clock _ := now
  newId := newId
  token := "token"
  handler _ fs := (.late, fs)

/-- A handler answers with `result`. -/
def answering (now : ℚ) (newId : String) (result : Dict Json) : Surroundings :=
  { moment now newId with handler := fun _ fs => (.value (.obj result), fs) }

/-- A tool without arguments that touches no files. -/
def manifest (toolId approvalPolicy : String) : ToolManifest where
  toolId := toolId
  version := "1"
  permissions := ∅
  risk := "R0"
  filesystemScope := "none"
  networkScope := "none"
  secretAccess := "none"
  approvalPolicy := approvalPolicy
  timeoutS := 1
  outputLimitBytes := 1000
  argumentsSchema := some (.obj [("type", .str "object")])
  pathPermissions := []

/-- A broker whose only tool is `write`. -/
def broker (approvalPolicy : String) : ToolBroker :=
  ToolBroker.register ⟨[]⟩ (manifest "write" approvalPolicy) none (some ∅)

/-- A free cloud model that is its provider's only one. -/
def cloudModel (name : String) : ModelRef where
  modelId := name
  providerId := name
  logicalAlias := name
  version := "1"
  capabilities := ∅
  costClass := .zero
  privacyEligibility := {.publicClass, .internal}
  available := true
  lifecycle := .approved
  runtime := "cloud"
  isLocal := false
  localMetadata := none
  contextTokens := none
  costVerification := .verifiedZero

/-- The registry of the free cloud models with the given names. -/
def registry (names : List String) : ModelRegistry where
  machineProfile := "default"
  qualificationGate := none
  models := names.foldl (fun models name => models.put (cloudModel name)) .empty
  files := .holding []

/-- Each of the models has its adapter. -/
def gateway (names : List String) : InferenceGateway where
  registry := registry names
  adapters := names.foldl (fun adapters name => adapters.put ⟨name, 0⟩) .empty

/-- At most two attempts a minute, over any backend. -/
def policy : ContinuityPolicy where
  mode := .cloudPreferred
  allowedBackends := ∅
  baseBackoffS := 5
  maxBackoffS := 300
  observationTtlS := 300
  windowS := 60
  maxRouteAttempts := 2
  base_pos := by decide
  ttl_pos := by decide
  window_pos := by decide
  attempts_pos := by decide
  attempts_le := by decide
  bounded_backoff := by decide

/-- A continuity manager over the given backends. -/
def manager (names : List String) : ContinuityManager where
  router := ⟨registry names, "routing-rules-v1"⟩
  gateway := gateway names
  policy := policy

/-- A host over the given backends. -/
def host (names : List String) (continuity : Option ContinuityManager) : InferenceHost where
  privacy := ⟨true⟩
  router := ⟨registry names, "routing-rules-v1"⟩
  gateway := gateway names
  continuity := continuity

/-- A short answer of the requested model, free of charge. -/
def response (request : InferenceRequest) : InferenceResponse where
  model := request.model
  assistantMessage := ⟨some "answer", [], List.nodup_nil⟩
  finishReason := .stop
  usage := ⟨none, none, none⟩
  cost := some 0
  fallback := false

/-- The content of a call for the sample task, for any model. -/
def call : InferenceCall where
  task := task
  privacy := ⟨.internal, true, true, []⟩
  messages := [.text .user "hello"]
  capabilities := ∅
  tools := []
  contextTokens := none

/-- The providers answer as `complete` says, and every clock shows `now`. -/
def providers (now : ℚ)
    (complete : InferenceRequest → Except Fault InferenceResponse) : Providers where
  time := now
  clock _ := now
  newId := "route"
  complete _ := complete

/-- Every provider answers. -/
def answers (now : ℚ) : Providers :=
  providers now fun request => .ok (response request)

/-- No provider is available. -/
def refuses (now : ℚ) : Providers :=
  providers now fun _ => .error (.inference { cls := .adapterUnavailable, message := "" })

/-- The sample task is on record, and the backends were found available at `now`. -/
def healthy (now : ℚ) (names : List String) : InferenceWorld where
  db := { Database.empty with tasks := Table.empty.put ⟨task, 0⟩ }
  backends := names.foldl (fun backends name =>
    backends.put ⟨name, .available, "available", now, none, 0, some now⟩) .empty
  windows := .empty
  now := now

variable [Platform]

/-- One call of `infer` for the sample task. -/
def infer (names : List String) (rounds : ℕ) : InferenceProg Unit :=
  (Programs.continuityInfer (manager names) none call rounds).bind fun _ => .ret ()

/-- The backends before anyone calls them. -/
def quiet (names : List String) : System inferenceMachine :=
  ⟨⟨healthy 0 names, []⟩, []⟩

/-- A fresh ledger beside the given files. -/
def fresh (files : List (String × String)) : System ledgerMachine :=
  ⟨⟨⟨.empty, .holding files, []⟩, []⟩, []⟩

/-- The task is submitted, and `first` claims it for ten seconds. -/
def claimed : List (Surroundings × Request) :=
  [(moment 0 "", .submit task plan), (moment 0 "", .claim "first" 10)]

/-- The lease of `first` runs out, and `second` claims the task. -/
def reclaimed : List (Surroundings × Request) :=
  [(moment 20 "", .recoverExpired), (moment 20 "", .claim "second" 10)]

end Sample

end Dante
