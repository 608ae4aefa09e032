import Dante.Library.System
import Dante.Library.Uuid
import Dante.Model.Acceptance

/-! # The persistent identity of a node

A file that is created once, by a hard link to a complete temporary file, and read ever after. -/

namespace Dante

open Concurrent Cleaning

/-! ## The directory -/

/-- A file: the bytes on disk, as characters, and those that its writer still buffers. -/
structure NodeFile where
  contents : List Char
  buffer : List Char

/-- What a path names. -/
inductive PathEntry where
  | symlink
  | junction
  | file (inode : ℕ)
  deriving DecidableEq

/-- The directory of the identity. Files are known by their position, also those that no name
leads to any more. -/
structure NodeDirectory where
  files : List NodeFile
  /-- What the path of the identity names. -/
  identity : Option PathEntry
  /-- The temporary names that are there. -/
  temporaries : List ℕ

/-- How the system behaves in one request. -/
structure NodeSurroundings where
  /-- The request raises this, other than for a reason of its own. -/
  fault : Option Exn
  /-- How many buffered characters are moved to the disk, where they need not all be. -/
  moved : ℕ
  /-- What a link leads to, if it leads anywhere. -/
  target : Option (List Char)
  /-- `uuid4()`. -/
  uuid4 : {u : Uuid // u.version = some 4}

inductive NodeStep where
  | makeParent
  | pathExists
  | isSymlink
  | isJunction
  | uuid4
  | namedTemporaryFile
  | write (file : ℕ) (text : List Char)
  | flush (file : ℕ)
  | fsync (file : ℕ)
  | close (file : ℕ)
  | link (file : ℕ)
  | unlink (file : ℕ)
  | readText
  /-- What the caller was returned. -/
  | report (nodeId : Uuid) (created : Bool)

def NodeStep.Reply : NodeStep → Type
  | .pathExists | .isSymlink | .isJunction => Bool
  | .uuid4 => Uuid
  | .namedTemporaryFile => ℕ
  | .readText => List Char
  | _ => Unit

/-- The `n` first buffered characters go to the disk. -/
def NodeFile.advance (file : NodeFile) (n : ℕ) : NodeFile :=
  ⟨file.contents ++ file.buffer.take n, file.buffer.drop n⟩

/-- `FileExistsError`. -/
def fileExists : Exn := .foreign "FileExistsError"

def isFileExists : Exn → Bool
  | .foreign name => name == "FileExistsError"
  | _ => false

/-- Every line ends in `\n` once it is read. -/
def universalNewlines : List Char → List Char
  | '\r' :: '\n' :: cs => '\n' :: universalNewlines cs
  | c :: cs => (if c = '\r' then '\n' else c) :: universalNewlines cs
  | [] => []

/-- `read_text(encoding='ascii')` of the bytes of a file. -/
def decodeAscii (bytes : List Char) : Except Exn (List Char) :=
  if bytes.all (fun c => c.toNat < 128) then .ok (universalNewlines bytes)
  else .error (.valueError "'ascii' codec can't decode byte")

namespace NodeDirectory

def update (d : NodeDirectory) (i : ℕ) (f : NodeFile → NodeFile) : NodeDirectory :=
  { d with files := d.files.modify i f }

/-- A request on a file: `f` where it works, `g` where it raises. -/
def onFile (env : NodeSurroundings) (i : ℕ) (f g : NodeFile → NodeFile) (d : NodeDirectory) :
    Except Exn Unit × NodeDirectory :=
  match env.fault with
  | none => (.ok (), d.update i f)
  | some e => (.error e, d.update i g)

/-- A request that looks and changes nothing. -/
def look {α : Type} (env : NodeSurroundings) (answer : Except Exn α) (d : NodeDirectory) :
    Except Exn α × NodeDirectory :=
  match env.fault with
  | none => (answer, d)
  | some e => (.error e, d)

/-- The text that the path leads to. -/
def bytes (env : NodeSurroundings) (d : NodeDirectory) : Option (List Char) :=
  match d.identity with
  | none => none
  | some (.file i) => (d.files[i]?).map NodeFile.contents
  | some _ => env.target

def perform (env : NodeSurroundings) (r : NodeStep) (d : NodeDirectory) :
    Except Exn r.Reply × NodeDirectory :=
  match r with
  | .makeParent => d.look env (.ok ())
  | .pathExists => d.look env (.ok (d.bytes env).isSome)
  | .isSymlink => d.look env (.ok (d.identity == some .symlink))
  | .isJunction => d.look env (.ok (d.identity == some .junction))
  | .uuid4 => d.look env (.ok env.uuid4.1)
  | .namedTemporaryFile =>
      match env.fault with
      | some e => (.error e, d)
      | none => (.ok d.files.length, { d with
          files := d.files ++ [⟨[], []⟩], temporaries := d.files.length :: d.temporaries })
  | .write i text => d.onFile env i
      (fun file => NodeFile.advance ⟨file.contents, file.buffer ++ text⟩ env.moved)
      (fun file => NodeFile.advance ⟨file.contents, file.buffer ++ text.take env.moved⟩ env.moved)
  | .flush i => d.onFile env i (fun file => file.advance file.buffer.length)
      (fun file => file.advance env.moved)
  | .fsync i => d.onFile env i id id
  | .close i => d.onFile env i (fun file => file.advance file.buffer.length)
      (fun file => ⟨(file.advance env.moved).contents, []⟩)
  | .link i =>
      match env.fault with
      | some e => (.error e, d)
      | none =>
          if d.identity.isSome then (.error fileExists, d)
          else if i ∈ d.temporaries then (.ok (), { d with identity := some (.file i) })
          else (.error (.foreign "FileNotFoundError"), d)
  | .unlink i =>
      match env.fault with
      | some e => (.error e, d)
      | none => (.ok (), { d with temporaries := d.temporaries.filter (· ≠ i) })
  | .readText => d.look env
      (match d.bytes env with
        | some bytes => decodeAscii bytes
        | none => .error (.foreign "FileNotFoundError"))
  | .report _ _ => (.ok (), d)

end NodeDirectory

/-- The directory, shared by any number of processes; nobody else writes in it. -/
abbrev nodeMachine : Machine NodeStep.Reply Exn where
  State := NodeDirectory
  Env := NodeSurroundings
  perform := NodeDirectory.perform
  drift := fun _ _ => False

/-! ## The program -/

abbrev NodeProg (α : Type) : Type :=
  Program NodeStep.Reply Exn α

abbrev nodeCall (r : NodeStep) : NodeProg r.Reply :=
  Program.call r

/-- `first or second`. -/
def eitherOf (first : Bool) (second : NodeProg Bool) : NodeProg Bool :=
  if first then pure true else second

/-- `UUID(value)` of the stripped text, which has to be the canonical text of a UUID4. -/
def nodeIdOf (text : List Char) : Except Exn Uuid :=
  let value := strip isSpace text
  match Uuid.ofText isSpace value with
  | none => .error (.valueError "badly formed hexadecimal UUID string")
  | some nodeId =>
      if nodeId.version ≠ some 4 ∨ nodeId.text ≠ value then
        .error (.valueError "Node identity must be a canonical UUID4")
      else .ok nodeId

/-- `_read_node_id`. -/
def readNodeId : NodeProg Uuid := do
  let symlink : Bool ← nodeCall .isSymlink
  let link ← eitherOf symlink (nodeCall .isJunction)
  if link then .raise (.valueError "Node identity must not be a link")
  else
    let text ← nodeCall .readText
    Program.ofExcept (nodeIdOf text)

/-- The line that is written for an identity. -/
def identityLine (nodeId : Uuid) : List Char :=
  nodeId.text ++ ['\n']

/-- The block of `with tempfile.NamedTemporaryFile`. -/
def writeTemporary (temporary : ℕ) (nodeId : Uuid) : NodeProg Unit :=
  Program.andFinally (do
    nodeCall (.write temporary (identityLine nodeId))
    nodeCall (.flush temporary)
    nodeCall (.fsync temporary))
    (nodeCall (.close temporary))

/-- `os.link`, which reports whether it was the first. -/
def publish (temporary : ℕ) : NodeProg Bool :=
  Program.except (do
    nodeCall (.link temporary)
    pure true)
    fun e => if isFileExists e then pure false else .raise e

/-- The `try` block of `persistent_node_id`, with its `finally`. -/
def createNodeId (nodeId : Uuid) : NodeProg Bool := do
  let temporary ← nodeCall .namedTemporaryFile
  Program.andFinally (do
    writeTemporary temporary nodeId
    publish temporary)
    (nodeCall (.unlink temporary))

/-- `persistent_node_id`. -/
def persistentNodeId : NodeProg (Uuid × Bool) := do
  nodeCall .makeParent
  let there : Bool ← nodeCall .pathExists
  let found ← eitherOf there (nodeCall .isSymlink)
  if found then
    let nodeId ← readNodeId
    pure (nodeId, false)
  else
    let nodeId : Uuid ← nodeCall .uuid4
    let created ← createNodeId nodeId
    let persisted ← readNodeId
    if created && decide (persisted ≠ nodeId) then
      .raise (.runtimeError "Persisted node identity differs from generated identity")
    else pure (persisted, created)

/-- A process that calls `persistent_node_id`, and reports what it was returned. -/
def nodeCaller : NodeProg Unit := do
  let (nodeId, created) ← persistentNodeId
  nodeCall (.report nodeId created)

/-- Any number of callers, with crashes at any point, on a directory that is `d` at first. -/
def nodeCalls (d : NodeDirectory) : Rules nodeMachine where
  start := fun state => state = d
  program := fun p => p = nodeCaller
  admits := fun _ _ _ => True

end Dante
