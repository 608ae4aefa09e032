import Dante.Library.Cleaning
import Dante.Model.Preflight

/-! # The workspace tools

How `ai_cloud_workspace.py` turns an argument into a path below its root. -/

namespace Dante

open JsonText Cleaning

/-- `unicodedata.normalize('NFKD', value).encode('ascii', 'ignore').decode('ascii')`: some ASCII
text, and the value itself where that is ASCII. -/
class AsciiFolding where
  fold : List Char → List Char
  fold_ascii : ∀ cs, ∀ c ∈ fold cs, c.toNat < 128
  fold_eq_self : ∀ cs, (∀ c ∈ cs, c.toNat < 128) → fold cs = cs

/-- Only what is ASCII already is kept. -/
@[reducible] def AsciiFolding.dropping : AsciiFolding where
  fold cs := cs.filter fun c => c.toNat < 128
  fold_ascii cs c h := by simpa using (List.mem_filter.mp h).2
  fold_eq_self cs h := List.filter_eq_self.mpr fun c hc => decide_eq_true (h c hc)

/-- What the tools raise: their own `ToolError`, or an exception of the file system. -/
inductive ToolFault where
  | toolError (message : String)
  | raised (e : Exn)

/-- `Tools`; the root is resolved when the tools are made. -/
structure Tools where
  root : String

namespace Tools

/-! ## Names -/

def reservedNames : List String :=
  ["CON", "PRN", "AUX", "NUL"] ++ ((List.range 9).map fun i => "COM" ++ toString (i + 1)) ++
    (List.range 9).map fun i => "LPT" ++ toString (i + 1)

/-- `[A-Za-z0-9._()\-]`. -/
def isNameChar (c : Char) : Bool :=
  c.isAlphanum || c == '.' || c == '_' || c == '(' || c == ')' || c == '-'

/-- `[ ._]`. -/
def isEdge (c : Char) : Bool :=
  c == ' ' || c == '.' || c == '_'

/-- `normalized.split('.', 1)[0].upper() in _RESERVED_NAMES`. -/
def isReserved (name : List Char) : Bool :=
  reservedNames.contains (String.ofList ((name.takeWhile (· != '.')).map Char.toUpper))

variable [AsciiFolding]

/-- The rewriting of `_sanitize_component`, before the name is checked and cut. -/
def normalizeComponent (value : List Char) : List Char :=
  let normalized := squeeze isSpace '_' (strip isSpace (AsciiFolding.fold value))
  let normalized := normalized.map fun c => if isNameChar c then c else '_'
  strip isEdge (squeeze (· == '_') '_' normalized)

/-- `_sanitize_component`. -/
def sanitizeComponent (value : List Char) : Except ToolFault (List Char) :=
  let normalized := normalizeComponent value
  if normalized.isEmpty then
    .error (.toolError "Il nome del file o della cartella non e valido.")
  else if isReserved normalized then
    .error (.toolError "Nome riservato da Windows non consentito.")
  else .ok (normalized.take 120)

/-! ## Paths -/

/-- `re.match(r'^[A-Za-z]:', path)`. -/
def hasDrive : List Char → Bool
  | c :: ':' :: _ => c.isAlpha
  | _ => false

/-- `path.replace('\\', '/')`. -/
def slashed (path : List Char) : List Char :=
  path.map fun c => if c == '\\' then '/' else c

/-- The components of an argument that `_safe_path` takes. -/
def rawParts (raw : List Char) : Except ToolFault (List (List Char)) :=
  if raw.isEmpty || 240 < raw.length then
    .error (.toolError "Percorso relativo vuoto o troppo lungo.")
  else
    let normalized := slashed raw
    if normalized.head? == some '/' || hasDrive normalized then
      .error (.toolError "Sono consentiti soltanto percorsi relativi alla workspace.")
    else
      let parts := (normalized.splitOn '/').filter fun part => !part.isEmpty
      if parts.isEmpty || parts.any fun part => part == ['.'] || part == ['.', '.'] then
        .error (.toolError "Path traversal o percorso non valido bloccato.")
      else .ok parts

/-- The sanitized components of an argument. -/
def safeParts (raw : List Char) : Except ToolFault (List (List Char)) := do
  let parts ← rawParts raw
  parts.mapM sanitizeComponent

variable [Platform]

/-- `self._root.joinpath(*parts)`. -/
def joined (root : String) (parts : List String) : String :=
  parts.foldl Platform.join root

/-- A file system call of the tools. -/
def resolved (fs : FileSystem) (path : String) : Except ToolFault String :=
  match fs.resolve path with
  | .ok path => .ok path
  | .error e => .error (.raised e)

/-- `_safe_path`. -/
def safePath (tools : Tools) (fs : FileSystem) (relativePath : String) (allowRoot : Bool) :
    Except ToolFault String :=
  let raw := strip isSpace relativePath.toList
  if allowRoot && (raw == [] || raw == ['.']) then .ok tools.root
  else do
    let parts ← safeParts raw
    let candidate ← resolved fs (joined tools.root (parts.map String.ofList))
    if Platform.isRelativeTo candidate tools.root then pure candidate
    else .error (.toolError "Accesso fuori dalla workspace bloccato.")

/-- `_relative`: the parts below the root, with slashes between them. -/
def relative (tools : Tools) (fs : FileSystem) (path : String) : Except ToolFault String := do
  let path ← resolved fs path
  if Platform.isRelativeTo path tools.root then
    let parts := (Platform.parts path).drop (Platform.parts tools.root).length
    if parts.isEmpty then pure "."
    else pure (String.ofList (slashed (['/'].intercalate (parts.map String.toList))))
  else .error (.raised (.valueError "not in the subpath"))

/-! ## Methods -/

/-- The methods that may be registered, and the permission each needs. -/
def permissions : Dict String :=
  [("ensure_workspace", "write_workspace"), ("create_directory", "write_workspace"),
    ("write_text_file", "write_workspace"), ("file_exists", "read_workspace"),
    ("list_directory", "read_workspace")]

/-- The argument schema of a method. -/
def schema (method : String) : Dict Json :=
  let properties : Dict Json :=
    if method == "ensure_workspace" then []
    else [("relative_path", .obj [("type", .str "string")])]
  let required :=
    if method == "ensure_workspace" || method == "list_directory" then [] else ["relative_path"]
  let properties :=
    if method == "write_text_file" then properties ++ [("content", .obj [("type", .str "string")])]
    else properties
  let required := if method == "write_text_file" then required ++ ["content"] else required
  [("type", .str "object"), ("properties", .obj properties),
    ("required", .arr (required.map .str)), ("additionalProperties", .bool false)]

/-- `workspace_method`. -/
def workspaceMethod (tools : Tools) (method : String) : Except Exn WorkspaceMethod := do
  let permission ← orRaise (permissions.lookup method) (.toolDenied (.denied .policyDenied))
  pure {
    root := tools.root
    permission := permission
    schema := schema method
    paths := if method == "ensure_workspace" then [] else [("relative_path", permission)] }

/-- The path that a method acts on: `ensure_workspace` takes none and acts on the root,
`list_directory` may be given the root itself. -/
def touched (tools : Tools) (fs : FileSystem) (method : String) (arguments : Dict Json) :
    Except ToolFault String :=
  if method == "ensure_workspace" then .ok tools.root
  else
    match arguments.lookup "relative_path" with
    | some (.str path) => tools.safePath fs path (method == "list_directory")
    | some _ => .error (.raised (.typeError "expected str"))
    | none =>
        if method == "list_directory" then tools.safePath fs "" true
        else .error (.raised (.typeError "missing 1 required positional argument"))

end Tools

end Dante
