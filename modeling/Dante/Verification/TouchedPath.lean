import Dante.Verification.SchemaDialect
import Dante.Verification.WorkspacePaths

/-! # The path that is checked and the path that is touched

Preflight checks the path argument of a workspace tool with `contained_path`; the handler acts on
what `_safe_path` makes of the same argument. -/

namespace Dante

open JsonText Cleaning
open Tools

section Touched

/-! ## Laws of paths -/

/-- The path begins with a slash, a backslash or a drive. -/
def Anchored (value : List Char) : Prop :=
  (slashed value).head? = some '/' ∨ hasDrive (slashed value) = true

theorem not_anchored_of_rawParts {raw : List Char} {parts : List (List Char)}
    (h : rawParts raw = .ok parts) : ¬Anchored raw := by
  simp only [rawParts] at h
  split at h
  · cases h
  split at h
  · cases h
  next hanchored =>
    simpa [Anchored] using hanchored

theorem isSpace_of_slashed {c d : Char} (h : (if c == '\\' then '/' else c) = d)
    (hd : isSpace d = false) : isSpace c = false := by
  split at h
  next hback =>
    rw [beq_iff_eq.mp hback]
    rfl
  next => rw [h, hd]

theorem hasDrive_iff {path : List Char} :
    hasDrive path = true ↔ ∃ c rest, path = c :: ':' :: rest ∧ c.isAlpha = true := by
  constructor
  · intro h
    unfold hasDrive at h
    split at h
    next c rest => exact ⟨c, rest, rfl, h⟩
    next => cases h
  · rintro ⟨c, rest, rfl, h⟩
    exact h

/-- Stripping leaves an anchor where it is. -/
theorem Anchored.strip {value : List Char} (h : Anchored value) :
    Anchored (Cleaning.strip isSpace value) := by
  cases value with
  | nil => simp [Anchored, slashed, hasDrive] at h
  | cons c rest =>
      rcases h with h | h
      · have hc : isSpace c = false := isSpace_of_slashed (Option.some.inj h) (by decide)
        rw [strip_cons_of_neg hc]
        exact .inl h
      · obtain ⟨letter, tail, hslashed, hletter⟩ := hasDrive_iff.mp h
        cases rest with
        | nil => cases hslashed
        | cons d rest =>
            simp only [slashed, List.map_cons, List.cons.injEq] at hslashed
            obtain ⟨hc, hd, -⟩ := hslashed
            have hspace : isSpace letter = false := by
              apply not_isSpace_of_isNameChar
              simp [isNameChar, Char.isAlphanum, hletter]
            rw [strip_cons_of_neg (isSpace_of_slashed hc hspace),
              rdropWhile_cons_of_neg (isSpace_of_slashed hd (by decide))]
            apply Or.inr
            rw [hasDrive_iff]
            refine ⟨letter, slashed (rest.rdropWhile isSpace), ?_, hletter⟩
            simp only [slashed, List.map_cons, hc, hd]

variable [Platform] [AsciiFolding] {fs : FileSystem} {tools : Tools} {root value path : String}

/-- What the path library documents: an absolute path is anchored, a path without an anchor is
joined part by part, and a path without links is its own resolution. -/
structure PathLaws (fs : FileSystem) : Prop where
  text_text : ∀ p, Platform.pathText (Platform.pathText p) = Platform.pathText p
  text_join : ∀ root value, Platform.pathText (Platform.join root value) = Platform.join root value
  anchored : ∀ value, Platform.isAbsolute value = true → Anchored value.toList
  absolute_join : ∀ root value, Platform.isAbsolute root = true →
    Platform.isAbsolute (Platform.join root value) = true
  parts_join : ∀ root value, ¬Anchored value.toList →
    Platform.parts (Platform.join root value) = Platform.parts root ++ Platform.parts value
  join_parts : ∀ root value, Platform.pathText root = root → ¬Anchored value.toList →
    Platform.join root value = joined root (Platform.parts value)
  resolve : ∀ p, Platform.isAbsolute p = true → ".." ∉ Platform.parts p →
    (∀ part ∈ p :: Platform.parents p, fs.isReparse part = false) →
    fs.resolve p = .ok (Platform.pathText p)

/-! ## What has been checked -/

/-- The path that `contained_path` looks at. -/
def candidate (root value : String) : String :=
  if Platform.isAbsolute value then Platform.pathText value else Platform.join root value

omit [AsciiFolding] in
/-- `contained_path` returns the resolution of a path without links or dots. -/
theorem containedPath_ok (h : containedPath fs root value = .ok path) :
    ".." ∉ Platform.parts value ∧
      (∀ part ∈ candidate root value :: Platform.parents (candidate root value),
        fs.isReparse part = false) ∧
      fs.resolve (candidate root value) = .ok path := by
  simp only [containedPath, ← candidate.eq_1, Except.bind_eq_ok, require_eq_ok,
    Except.pure_eq_ok] at h
  obtain ⟨-, hdots, -, -, -, hreparse, found, hresolve, -, -, -, -, rfl⟩ := h
  refine ⟨?_, ?_, hresolve⟩
  · simp only [Bool.and_eq_true, Bool.not_eq_true', List.contains_eq_mem,
      decide_eq_false_iff_not] at hdots
    exact hdots.2
  · intro part hpart
    simpa using List.all_eq_true.mp hreparse part hpart

/-- A call of a workspace tool that is registered under `toolId`. -/
structure WorkspaceCall where
  method : String
  broker : ToolBroker
  manifest : ToolManifest
  toolId : String
  task : Task
  arguments : Dict Json

/-- The root of the tool, as its manifest states it. -/
def WorkspaceCall.scopeRoot (call : WorkspaceCall) : String :=
  Platform.pathText call.manifest.filesystemScope

/-- The call passes preflight with `value` as its path, and the handler acts on `path`. -/
structure WorkspaceCall.Acts (call : WorkspaceCall) (fs : FileSystem) (tools : Tools)
    (value path : String) : Prop where
  registered : ∃ wrapper, workspaceMethod tools call.method = .ok wrapper ∧
    call.broker.tools.lookup call.toolId =
      some ⟨call.manifest.wrapped wrapper, some wrapper, some {wrapper.permission}⟩
  passed : preflight fs call.broker call.task call.toolId call.arguments = .ok none
  given : call.arguments.lookup "relative_path" = some (.str value)
  touched : tools.touched fs call.method call.arguments = .ok path

omit [AsciiFolding] [Platform] in
theorem deniedWhen_passes {caught : Exn → Bool} {status : ToolStatus} {block : Except Exn Unit}
    {rest : Except Exn (Option ToolResult)} :
    deniedWhen caught status block rest = .ok none ↔ block = .ok () ∧ rest = .ok none := by
  cases block with
  | ok u => simp [deniedWhen]
  | error e =>
      simp only [deniedWhen]
      split <;> simp

omit [AsciiFolding] in
/-- What passes preflight has passed the checks of the arguments and of the scope. -/
theorem preflight_passes {broker : ToolBroker} {task : Task} {toolId : String}
    {arguments : Dict Json} {entry : Registered} {required : Finset String}
    (hentry : broker.tools.lookup toolId = some entry) (hrequired : entry.required = some required)
    (h : preflight fs broker task toolId arguments = .ok none) :
    (∃ schema, checkArguments entry schema arguments = .ok ()) ∧
      checkScope fs entry required task.workspace arguments = .ok () := by
  simp only [preflight, hentry, hrequired] at h
  cases hschema : entry.manifest.argumentsSchema with
  | none => simp [hschema] at h
  | some schema =>
      rw [hschema] at h
      simp only at h
      split at h
      · obtain ⟨-, h⟩ := deniedWhen_passes.mp h
        obtain ⟨harguments, h⟩ := deniedWhen_passes.mp h
        obtain ⟨hscope, -⟩ := deniedWhen_passes.mp h
        exact ⟨⟨schema, harguments⟩, hscope⟩
      · cases h

omit [AsciiFolding] in
theorem checkArguments_wrapper {entry : Registered} {wrapper : WorkspaceMethod} {schema : Json}
    {arguments : Dict Json} (hwrapper : entry.wrapper = some wrapper)
    (h : checkArguments entry schema arguments = .ok ()) :
    validateSchema (.obj wrapper.schema) (.obj arguments) = .ok () := by
  obtain ⟨-, -, h⟩ := Except.bind_eq_ok.mp h
  cases schema with
  | obj fields =>
      simp only [Except.bind_eq_ok, hwrapper] at h
      obtain ⟨-, -, -, -, -, -, h⟩ := h
      exact h
  | _ => cases h

omit [AsciiFolding] [Platform] in
theorem ok_of_mem_forM {α : Type} {f : α → Except Exn Unit} {l : List α} {a : α}
    (h : l.forM f = .ok ()) (ha : a ∈ l) : f a = .ok () := by
  induction l with
  | nil => cases ha
  | cons b l ih =>
      obtain ⟨_, hb, hl⟩ := Except.bind_eq_ok.mp h
      rcases List.mem_cons.mp ha with rfl | ha
      · exact hb
      · exact ih hl ha

omit [AsciiFolding] [Platform] in
theorem workspaceMethod_ok {method : String} {wrapper : WorkspaceMethod}
    (h : workspaceMethod tools method = .ok wrapper) :
    wrapper.root = tools.root ∧ wrapper.schema = schema method ∧
      (method ≠ "ensure_workspace" → wrapper.paths = [("relative_path", wrapper.permission)]) := by
  simp only [workspaceMethod, Except.bind_eq_ok, orRaise_eq_ok, Except.pure_eq_ok] at h
  obtain ⟨permission, -, rfl⟩ := h
  refine ⟨rfl, rfl, ?_⟩
  intro hmethod
  exact if_neg (by simpa using hmethod)

namespace WorkspaceCall.Acts

variable {call : WorkspaceCall}

/-- A path argument is not an argument of `ensure_workspace`. -/
theorem method_ne (h : call.Acts fs tools value path) : call.method ≠ "ensure_workspace" := by
  intro hmethod
  obtain ⟨wrapper, hwrapper, hentry⟩ := h.registered
  obtain ⟨⟨schema, harguments⟩, -⟩ := preflight_passes hentry rfl h.passed
  obtain ⟨-, hschema, -⟩ := workspaceMethod_ok hwrapper
  have hvalid := checkArguments_wrapper rfl harguments
  rw [hschema, hmethod, validateSchema] at hvalid
  have hhead : schemaHead (.obj (Tools.schema "ensure_workspace")) (.obj call.arguments) =
      .ok (Tools.schema "ensure_workspace", .object) := rfl
  simp only [hhead, Except.bind_eq_ok, Except.ok.injEq] at hvalid
  obtain ⟨-, rfl, properties, hshape, -⟩ := hvalid
  have hexact := @objectShape_exact (Tools.schema "ensure_workspace") [] [] false call.arguments
    rfl rfl rfl
  rcases hexact with ⟨⟨-, hkeys⟩, -⟩ | ⟨-, m, herror⟩
  · have hkey := hkeys rfl _ (mem_of_lookup h.given)
    cases hkey
  · rw [herror] at hshape
    cases hshape

/-- The root of the tools is where the root of the manifest leads, and the path argument has
been checked against it. -/
theorem scope (h : call.Acts fs tools value path) :
    Platform.isAbsolute call.scopeRoot = true ∧
      (∃ workspace base, containedPath fs workspace call.scopeRoot = .ok base) ∧
      fs.resolve call.scopeRoot = .ok tools.root ∧
      ∃ checked, containedPath fs call.scopeRoot value = .ok checked := by
  obtain ⟨wrapper, hwrapper, hentry⟩ := h.registered
  obtain ⟨-, hscope⟩ := preflight_passes hentry rfl h.passed
  obtain ⟨hroot, -, hpaths⟩ := workspaceMethod_ok hwrapper
  have hmanifest : (call.manifest.wrapped wrapper).filesystemScope =
      call.manifest.filesystemScope := by
    rw [ToolManifest.wrapped]
    split <;> rfl
  simp only [checkScope, Finset.singleton_nonempty, if_true, Except.bind_eq_ok, require_eq_ok,
    hmanifest, checkWrapper] at hscope
  obtain ⟨-, habsolute, base, hworkspace, -, ⟨resolved, hresolved, hsame⟩, hchecks⟩ := hscope
  rw [Bool.and_eq_true] at habsolute hsame
  refine ⟨habsolute.1, ⟨_, base, hworkspace⟩, ?_, ?_⟩
  · rw [WorkspaceCall.scopeRoot, hresolved, ← hroot, beq_iff_eq.mp hsame.1]
  · have hdeclared : ((call.manifest.wrapped wrapper).pathPermissions).lookup "relative_path" =
        some wrapper.permission := by
      have hsame := hsame.2
      rw [Dict.same, hpaths h.method_ne, Bool.and_eq_true] at hsame
      exact eq_of_beq (List.all_eq_true.mp hsame.2 ("relative_path", _) List.mem_cons_self)
    have hcheck := ok_of_mem_forM hchecks (mem_of_lookup hdeclared)
    simp only [checkPath, Except.bind_eq_ok, h.given] at hcheck
    obtain ⟨-, -, checked, hchecked, -⟩ := hcheck
    exact ⟨checked, hchecked⟩

/-- The handler acts on what `_safe_path` returns. -/
theorem safePath (h : call.Acts fs tools value path) :
    tools.safePath fs value (call.method == "list_directory") = .ok path := by
  have htouched := h.touched
  simp only [Tools.touched, h.given] at htouched
  rw [if_neg (by simpa using h.method_ne)] at htouched
  exact htouched

end WorkspaceCall.Acts

/-! ## The path that is touched -/

/-- `_safe_path` returns the root, or the resolution of the names below it. -/
theorem safePath_ok {allowRoot : Bool} (h : tools.safePath fs value allowRoot = .ok path) :
    ∃ names, namesOf value allowRoot = .ok names ∧
      (path = tools.root ∧ names = [] ∨
        fs.resolve (tools.below names) = .ok path ∧
          Platform.isRelativeTo path tools.root = true) := by
  simp only [Tools.safePath, namesOf] at h ⊢
  split at h
  next hroot =>
    rw [if_pos hroot]
    exact ⟨[], rfl, .inl ⟨(Except.ok.inj h).symm, rfl⟩⟩
  next hroot =>
    rw [if_neg hroot]
    obtain ⟨names, hnames, h⟩ := Except.bind_eq_ok.mp h
    obtain ⟨found, hfound, h⟩ := Except.bind_eq_ok.mp h
    have hresolve : fs.resolve (tools.below names) = .ok found := by
      simp only [resolved] at hfound
      split at hfound
      next found' hok =>
        rw [← Except.ok.inj hfound]
        exact hok
      next => cases hfound
    split at h
    next hbelow =>
      obtain rfl : found = path := Except.ok.inj h
      exact ⟨names, hnames, .inr ⟨hresolve, hbelow⟩⟩
    next => cases h

omit [Platform] in
theorem not_anchored_of_namesOf {allowRoot : Bool} {names : List (List Char)}
    (h : namesOf value allowRoot = .ok names) : ¬Anchored value.toList := by
  intro hanchored
  have hstrip := hanchored.strip
  rcases namesOf_ok h with ⟨-, hroot, -⟩ | ⟨parts, hparts, -⟩
  · rcases hroot with hroot | hroot
    · rw [hroot] at hstrip
      rcases hstrip with hstrip | hstrip <;> cases hstrip
    · rw [hroot] at hstrip
      rcases hstrip with hstrip | hstrip <;> cases hstrip
  · exact not_anchored_of_rawParts hparts hstrip

/-- The components of the path argument are names that the sanitizer leaves as they are. -/
def WorkspaceCall.Sanitized (call : WorkspaceCall) (value : String) : Prop :=
  ∀ names, namesOf value (call.method == "list_directory") = .ok names →
    Platform.parts value = names.map String.ofList

variable {call : WorkspaceCall} {checked : String}

/-- The root has no links, so that the tools have it as it stands in the manifest. -/
theorem WorkspaceCall.Acts.root_eq (hlaws : PathLaws fs) (h : call.Acts fs tools value path) :
    tools.root = call.scopeRoot := by
  obtain ⟨habsolute, ⟨workspace, base, hcontained⟩, hresolve, -⟩ := h.scope
  obtain ⟨hdots, hreparse, -⟩ := containedPath_ok hcontained
  have htext : Platform.pathText call.scopeRoot = call.scopeRoot := hlaws.text_text _
  rw [candidate, if_pos habsolute, htext] at hreparse
  have hself := hlaws.resolve _ habsolute hdots hreparse
  rw [hresolve, htext] at hself
  exact Except.ok.inj hself

/-- A relative path argument is looked up below the root. -/
theorem WorkspaceCall.Acts.candidate_eq (hlaws : PathLaws fs)
    (h : call.Acts fs tools value path) :
    ¬Anchored value.toList ∧ candidate call.scopeRoot value = Platform.join tools.root value := by
  obtain ⟨names, hnames, -⟩ := safePath_ok h.safePath
  have hanchored := not_anchored_of_namesOf hnames
  refine ⟨hanchored, ?_⟩
  have hrelative : ¬Platform.isAbsolute value = true :=
    fun habsolute => hanchored (hlaws.anchored value habsolute)
  rw [candidate, if_neg hrelative, h.root_eq hlaws]

/-- A sanitized argument is touched where it was checked. -/
theorem WorkspaceCall.Acts.eq_checked (hlaws : PathLaws fs) (h : call.Acts fs tools value path)
    (hchecked : containedPath fs call.scopeRoot value = .ok checked)
    (hsanitized : call.Sanitized value) : path = checked := by
  obtain ⟨names, hnames, hpath⟩ := safePath_ok h.safePath
  obtain ⟨hanchored, hcandidate⟩ := h.candidate_eq hlaws
  have htext : Platform.pathText tools.root = tools.root := by
    rw [h.root_eq hlaws]
    exact hlaws.text_text _
  have hbelow : candidate call.scopeRoot value = tools.below names := by
    rw [hcandidate, hlaws.join_parts _ _ htext hanchored, hsanitized names hnames]
    rfl
  obtain ⟨-, -, hresolve⟩ := containedPath_ok hchecked
  rw [hbelow] at hresolve
  rcases hpath with ⟨rfl, rfl⟩ | ⟨hpath, -⟩
  · have hroot : fs.resolve tools.root = .ok tools.root := by
      have hscope := h.scope.2.2.1
      rwa [← h.root_eq hlaws] at hscope
    exact Except.ok.inj (hroot.symm.trans hresolve)
  · exact Except.ok.inj (hpath.symm.trans hresolve)

/-- Without links, only a sanitized argument is touched where it was checked. -/
theorem WorkspaceCall.Acts.sanitized (hlaws : PathLaws fs) (hfree : LinkFree tools fs)
    (h : call.Acts fs tools value checked)
    (hchecked : containedPath fs call.scopeRoot value = .ok checked) : call.Sanitized value := by
  intro names hnames
  have hsafe := SafeName.of_namesOf hnames
  have hpath : checked = tools.below names := by
    have hsame := hfree.safePath value (call.method == "list_directory")
    rw [h.safePath, hnames] at hsame
    exact Except.ok.inj hsame
  obtain ⟨hanchored, hcandidate⟩ := h.candidate_eq hlaws
  obtain ⟨hdots, hreparse, hresolve⟩ := containedPath_ok hchecked
  rw [hcandidate] at hreparse hresolve
  have hparts := hlaws.parts_join tools.root value hanchored
  have habsolute : Platform.isAbsolute (Platform.join tools.root value) = true := by
    apply hlaws.absolute_join
    rw [h.root_eq hlaws]
    exact h.scope.1
  have hnodots : ".." ∉ Platform.parts (Platform.join tools.root value) := by
    rw [hparts, List.mem_append, h.root_eq hlaws]
    obtain ⟨workspace, base, hcontained⟩ := h.scope.2.1
    rintro (hroot | hvalue)
    · exact (containedPath_ok hcontained).1 hroot
    · exact hdots hvalue
  have hself := hlaws.resolve _ habsolute hnodots hreparse
  rw [hresolve, hlaws.text_join, hpath] at hself
  have hbelow := hfree.parts names hsafe
  rw [Except.ok.inj hself, hparts] at hbelow
  exact List.append_cancel_left hbelow

/-- The handler of a call that passes preflight acts on the root or below it, and on the path
that was checked where the argument is sanitized; without links, nowhere else. Two sanitized
arguments that are checked as different paths never reach one file. -/
theorem touched_path_checked (hlaws : PathLaws fs) (h : call.Acts fs tools value path) :
    (path = tools.root ∨ Platform.isRelativeTo path tools.root = true) ∧
      ∃ checked, containedPath fs call.scopeRoot value = .ok checked ∧
        (call.Sanitized value → path = checked) ∧
        (LinkFree tools fs → path = checked → call.Sanitized value) ∧
        ∀ (other : WorkspaceCall) (value' path' checked' : String),
          other.Acts fs tools value' path' →
            containedPath fs other.scopeRoot value' = .ok checked' →
            call.Sanitized value → other.Sanitized value' → checked ≠ checked' → path ≠ path' := by
  obtain ⟨names, -, hpath⟩ := safePath_ok h.safePath
  obtain ⟨-, -, -, checked, hchecked⟩ := h.scope
  refine ⟨?_, checked, hchecked, h.eq_checked hlaws hchecked, ?_, ?_⟩
  · rcases hpath with ⟨hroot, -⟩ | ⟨-, hbelow⟩
    · exact .inl hroot
    · exact .inr hbelow
  · rintro hfree rfl
    exact h.sanitized hlaws hfree hchecked
  · intro other value' path' checked' h' hchecked' hsanitized hsanitized' hne hsame
    apply hne
    rw [← h.eq_checked hlaws hchecked hsanitized, ← h'.eq_checked hlaws hchecked' hsanitized',
      hsame]

end Touched

namespace Sample

/-- The manifest of `write_text_file` below `/work`; its schema is filled in. -/
def writeManifest : ToolManifest :=
  { manifest "write" "never" with
    permissions := {"write_workspace"}
    risk := "R1"
    filesystemScope := "/work"
    argumentsSchema := none }

/-- `write_text_file` is asked to write below `/work`. -/
def writeCall (value : String) : WorkspaceCall where
  method := "write_text_file"
  broker := ToolBroker.register ⟨[]⟩ writeManifest
    (Tools.workspaceMethod ⟨"/work"⟩ "write_text_file").toOption none
  manifest := writeManifest
  toolId := "write"
  task := task
  arguments := [("relative_path", .str value), ("content", .str "text")]

end Sample

section Reference

local instance touchedFolding : AsciiFolding := .dropping

local instance touchedPlatform : Platform := .reference []

theorem flatMap_slash {l : List (List Char)} (h : l ≠ []) :
    (l.flatMap fun part => '/' :: part) = '/' :: ['/'].intercalate l := by
  induction l with
  | nil => exact absurd rfl h
  | cons part l ih =>
      cases l with
      | nil => simp
      | cons next l =>
          rw [List.flatMap_cons, ih (List.cons_ne_nil _ _), List.intercalate_cons_cons]
          simp

/-- The reference platform keeps the laws of paths. -/
theorem pathLaws_reference : PathLaws (.holding []) where
  text_text _ := rfl
  text_join _ _ := rfl
  anchored value habsolute := by
    have hhead : value.toList.head? = some '/' := eq_of_beq habsolute
    refine .inl ?_
    rw [slashed, List.head?_map, hhead]
    rfl
  absolute_join root value habsolute := by
    have hhead : root.toList.head? = some '/' := eq_of_beq habsolute
    change ((root ++ "/" ++ value).toList.head? == some '/') = true
    simp [hhead]
  parts_join root value _ := by
    change segments (root ++ "/" ++ value) = segments root ++ segments value
    simp only [segments, String.toList_append, List.append_assoc]
    change ((root.toList ++ '/' :: value.toList).splitOn '/').map String.ofList = _
    rw [List.splitOn_append_cons_self, List.map_append]
  join_parts root value _ _ := by
    change root ++ "/" ++ value = joined root (segments value)
    have hbelow := toList_below root (value.toList.splitOn '/')
    rw [flatMap_slash (List.splitOn_ne_nil _ _), List.intercalate_splitOn] at hbelow
    rw [← String.toList_inj]
    simpa [Tools.below, segments] using hbelow.symm
  resolve _ _ _ _ := rfl

/-- A call that names the file as `value` passes preflight, is checked as `checked` and is acted
on as `path`. -/
theorem writeCall_acts {value path checked : String}
    (hpassed : (preflight (.holding []) (Sample.writeCall value).broker Sample.task "write"
      (Sample.writeCall value).arguments).toOption.map Option.isNone = some true)
    (hchecked : (containedPath (.holding []) "/work" value).toOption = some checked)
    (hpath : (Tools.safePath ⟨"/work"⟩ (.holding []) value false).toOption = some path) :
    (Sample.writeCall value).Acts (.holding []) ⟨"/work"⟩ value path ∧
      containedPath (.holding []) (Sample.writeCall value).scopeRoot value = .ok checked := by
  obtain ⟨denied, hpreflight, hnone⟩ := Option.map_eq_some_iff.mp hpassed
  obtain rfl : denied = none := Option.isNone_iff_eq_none.mp hnone
  exact ⟨⟨⟨_, rfl, rfl⟩, ok_of_toOption hpreflight, rfl, ok_of_toOption hpath⟩,
    ok_of_toOption hchecked⟩

/-- A space is checked as it is, and written as an underscore. -/
theorem writes_spaced :
    (Sample.writeCall "a b").Acts (.holding []) ⟨"/work"⟩ "a b" "/work/a_b" ∧
      containedPath (.holding []) (Sample.writeCall "a b").scopeRoot "a b" = .ok "/work/a b" :=
  writeCall_acts (by decide +kernel) (by decide +kernel) (by decide +kernel)

theorem writes_joined :
    (Sample.writeCall "a_b").Acts (.holding []) ⟨"/work"⟩ "a_b" "/work/a_b" ∧
      containedPath (.holding []) (Sample.writeCall "a_b").scopeRoot "a_b" = .ok "/work/a_b" :=
  writeCall_acts (by decide +kernel) (by decide +kernel) (by decide +kernel)

/-- `a_b` is sanitized, and touched where it was checked. -/
theorem touched_path_checked_joined :
    ∃ checked, containedPath (.holding []) (Sample.writeCall "a_b").scopeRoot "a_b" = .ok checked ∧
      "/work/a_b" = checked := by
  obtain ⟨-, checked, hchecked, hsame, -⟩ := touched_path_checked pathLaws_reference writes_joined.1
  refine ⟨checked, hchecked, hsame ?_⟩
  intro names hnames
  have hread : namesOf "a_b" false = .ok [['a', '_', 'b']] := ok_of_toOption (by decide +kernel)
  obtain rfl : [['a', '_', 'b']] = names := Except.ok.inj (hread.symm.trans hnames)
  decide +kernel

/-- The arguments `a b` and `a_b` are checked as two files, and both are written to the second. -/
theorem touched_path_shared :
    (Sample.writeCall "a b").Acts (.holding []) ⟨"/work"⟩ "a b" "/work/a_b" ∧
      (Sample.writeCall "a_b").Acts (.holding []) ⟨"/work"⟩ "a_b" "/work/a_b" ∧
      containedPath (.holding []) (Sample.writeCall "a b").scopeRoot "a b" = .ok "/work/a b" ∧
      containedPath (.holding []) (Sample.writeCall "a_b").scopeRoot "a_b" = .ok "/work/a_b" ∧
      "/work/a b" ≠ "/work/a_b" :=
  ⟨writes_spaced.1, writes_joined.1, writes_spaced.2, writes_joined.2, by decide⟩

end Reference

end Dante
