import Dante.Library.System
import Dante.Model.Ledger
import Mathlib.Logic.Function.Basic

/-! # The artifact store

Files named by the digest of their bytes, published by hard links, and the rows that record
them. -/

namespace Dante

open JsonText Relational Concurrent

/-! ## The files under the root -/

/-- A name in a directory that has been resolved. -/
structure StorePath where
  directory : String
  name : String
  deriving DecidableEq, Repr

/-- Names lead to files; several names may lead to one file. -/
structure Disk where
  entries : StorePath → Option ℕ
  contents : ℕ → ByteArray
  next : ℕ
  allocated : ∀ p i, entries p = some i → i < next
  /-- `Path(path).resolve()`. Nobody moves a directory or a link under the root. -/
  resolution : String → Except PathError String

namespace Disk

/-- The bytes of a file. -/
def read (d : Disk) (p : StorePath) : Option ByteArray :=
  (d.entries p).map d.contents

/-- A new empty file. -/
def create (d : Disk) (p : StorePath) : Disk :=
  { d with
    entries := Function.update d.entries p (some d.next)
    contents := Function.update d.contents d.next ByteArray.empty
    next := d.next + 1
    allocated := by
      intro q i hq
      by_cases h : q = p
      · subst h
        rw [Function.update_self] at hq
        cases hq
        exact Nat.lt_succ_self _
      · rw [Function.update_of_ne h] at hq
        exact Nat.lt_succ_of_lt (d.allocated q i hq) }

/-- An open file now has the given bytes. -/
def write (d : Disk) (i : ℕ) (data : ByteArray) : Disk :=
  { d with contents := Function.update d.contents i data }

/-- A further name for a file. -/
def enter (d : Disk) (p : StorePath) (i : ℕ) (hi : i < d.next) : Disk :=
  { d with
    entries := Function.update d.entries p (some i)
    allocated := by
      intro q j hq
      by_cases h : q = p
      · subst h
        rw [Function.update_self] at hq
        cases hq
        exact hi
      · rw [Function.update_of_ne h] at hq
        exact d.allocated q j hq }

/-- A name is gone. -/
def remove (d : Disk) (p : StorePath) : Disk :=
  { d with
    entries := Function.update d.entries p none
    allocated := by
      intro q j hq
      by_cases h : q = p
      · subst h
        rw [Function.update_self] at hq
        cases hq
      · rw [Function.update_of_ne h] at hq
        exact d.allocated q j hq }

end Disk

/-! ## Requests -/

/-- What `os.link` does; the store passes over a `FileExistsError`. -/
inductive LinkOutcome where
  | linked
  | exists
  deriving DecidableEq, Repr

/-- What `create` asks of the ledger and of the file system. -/
inductive StoreStep where
  | getTask (taskId : String)
  | getStep (taskId : String) (stepId : Json)
  | resolve (path : String)
  | mkdir (directory : String)
  | createTemporary (directory : String)
  | write (handle : ℕ) (data : ByteArray)
  | link (source target : StorePath)
  | fileDigest (target : StorePath)
  | unlink (path : StorePath)
  | uuid4
  | addArtifact (artifact : Artifact)

def StoreStep.Reply : StoreStep → Type
  | .getTask _ => Task
  | .getStep .. => StepRecord
  | .resolve _ | .fileDigest _ | .uuid4 => String
  | .mkdir _ | .write .. | .unlink _ => Unit
  | .createTemporary _ => StorePath × ℕ
  | .link .. => LinkOutcome
  | .addArtifact _ => Task

/-- The ledger and the files under the root. -/
structure StoreWorld where
  db : Database
  disk : Disk

/-- What a request does not determine: whether the operating system fails it with an `OSError`,
what a write that fails leaves in the file, the random part of a temporary name, the next random
id, and the text as which SQLite compares a value that is no string. -/
structure StoreChance where
  fails : Bool
  partialData : ByteArray
  suffix : String
  uuid4 : String
  boundText : Json → Option String

section Perform

variable [Platform]

/-- The step id as SQLite compares it. -/
def StoreChance.stepText (env : StoreChance) : Json → Except Exn String
  | .str s => .ok s
  | v => orRaise (env.boundText v) (.foreign "ProgrammingError")

/-- `tempfile.NamedTemporaryFile(dir=directory, delete=False)`: a name that is not in use. -/
def Disk.createTemporary (d : Disk) (directory suffix : String) :
    Except Exn (StorePath × ℕ) × Disk :=
  let path : StorePath := ⟨directory, "tmp" ++ suffix⟩
  match d.entries path with
  | some _ => (.error .osError, d)
  | none => (.ok (path, d.next), d.create path)

/-- `os.link(source, target)`. -/
def Disk.link (d : Disk) (source target : StorePath) : Except Exn LinkOutcome × Disk :=
  match h : d.entries source with
  | none => (.error .osError, d)
  | some i =>
      match d.entries target with
      | some _ => (.ok .exists, d)
      | none => (.ok .linked, d.enter target i (d.allocated source i h))

/-- `file_digest`. -/
def Disk.digest (d : Disk) (target : StorePath) : Except Exn String :=
  match d.read target with
  | some data => .ok (Platform.sha256 data)
  | none => .error .osError

def store (env : StoreChance) (r : StoreStep) (w : StoreWorld) :
    Except Exn r.Reply × StoreWorld :=
  match r with
  | .getTask taskId => (getTask taskId w.db, w)
  | .getStep taskId stepId => (env.stepText stepId >>= fun id => getStep taskId id w.db, w)
  | .resolve path => ((w.disk.resolution path).mapError PathError.exn, w)
  | .mkdir _ => if env.fails then (.error .osError, w) else (.ok (), w)
  | .createTemporary directory =>
      if env.fails then (.error .osError, w)
      else
        let (reply, disk) := w.disk.createTemporary directory env.suffix
        (reply, { w with disk := disk })
  | .write handle data =>
      if env.fails then (.error .osError, { w with disk := w.disk.write handle env.partialData })
      else (.ok (), { w with disk := w.disk.write handle data })
  | .link source target =>
      if env.fails then (.error .osError, w)
      else
        let (reply, disk) := w.disk.link source target
        (reply, { w with disk := disk })
  | .fileDigest target =>
      if env.fails then (.error .osError, w) else (w.disk.digest target, w)
  | .unlink path =>
      if env.fails then (.error .osError, w)
      else (.ok (), { w with disk := w.disk.remove path })
  | .uuid4 => (.ok env.uuid4, w)
  | .addArtifact artifact =>
      match addArtifact artifact w.db with
      | .ok (task, db) => (.ok task, { w with db := db })
      | .error e => (.error e, w)

/-- The store, shared by any number of processes. Anyone may write to the ledger, but only the
store writes under its root. -/
abbrev storeMachine : Machine StoreStep.Reply Exn where
  State := StoreWorld
  Env := StoreChance
  perform := store
  drift := fun w w' => w'.disk = w.disk

end Perform

/-! ## `create` -/

abbrev StoreProg (α : Type) : Type :=
  Program StoreStep.Reply Exn α

namespace ArtifactStore

/-- One step of `create`. -/
abbrev request (r : StoreStep) : StoreProg r.Reply :=
  Program.call r

/-- The arguments of `create`. -/
structure Call where
  taskId : String
  filename : String
  data : ByteArray
  mediaType : String
  producer : String
  provenance : Dict Json
  stepId : Option String

/-- `step_id or provenance.get('step_id')`. -/
def Call.step (c : Call) : Option Json :=
  match c.stepId.filter (· ≠ "") with
  | some id => some (.str id)
  | none =>
      match c.provenance.lookup "step_id" with
      | some .null => none
      | id => id

/-- The provenance on record. -/
def Call.lineage (c : Call) : Dict Json :=
  let lineage := c.provenance.set "logical_name" (.str c.filename)
  match c.step with
  | some id => lineage.set "step_id" id
  | none => lineage

variable [Platform]

/-- `hashlib.sha256(data).hexdigest()`. -/
def Call.checksum (c : Call) : String :=
  Platform.sha256 c.data

/-- `self.root / 'blobs' / 'sha256' / checksum[:2]`. -/
def blobs (root checksum : String) : String :=
  Platform.join (Platform.join (Platform.join root "blobs") "sha256")
    (String.ofList (checksum.toList.take 2))

/-- The checks before anything is written. -/
def Call.check (c : Call) : StoreProg Unit := do
  Program.ofExcept (require (Platform.name c.filename == c.filename &&
      !(["", ".", ".."].contains c.filename))
    (.valueError "Artifact filename must be a simple relative name"))
  let _ ← request (.getTask c.taskId)
  match c.step with
  | some id => do
      let _ ← request (.getStep c.taskId id)
      pure ()
  | none => pure ()

/-- The directory of the blob. -/
def Call.place (root : String) (c : Call) : StoreProg String := do
  let directory : String ← request (.resolve (blobs root c.checksum))
  Program.ofExcept (require (Platform.isRelativeTo directory root)
    (.valueError ("'" ++ directory ++ "' is not in the subpath of '" ++ root ++ "'")))
  request (.mkdir directory)
  pure directory

/-- The `try` block, from the open temporary file on. -/
def Call.publish (c : Call) (temporary : StorePath) (handle : ℕ) (target : StorePath) :
    StoreProg Unit := do
  request (.write handle c.data)
  let _ ← request (.link temporary target)
  let actual : String ← request (.fileDigest target)
  Program.ofExcept (require (actual == c.checksum)
    (.valueError "Existing immutable blob has failed integrity verification"))

/-- `Artifact(...)`. Its validator accepts every digest. -/
def Call.artifact (c : Call) (artifactId directory : String) : Artifact where
  artifactId := artifactId
  taskId := c.taskId
  mediaType := c.mediaType
  path := Platform.join directory c.checksum
  checksumSha256 := c.checksum
  producer := c.producer
  provenance := c.lineage

/-- `ArtifactStore.create`. If no temporary file can be opened there is none to remove. -/
def create (root : String) (c : Call) : StoreProg Artifact := do
  c.check
  let directory ← c.place root
  let (temporary, handle) ← request (.createTemporary directory)
  (c.publish temporary handle ⟨directory, c.checksum⟩).andFinally (request (.unlink temporary))
  let artifactId ← request .uuid4
  let artifact := c.artifact artifactId directory
  let _ ← request (.addArtifact artifact)
  pure artifact

end ArtifactStore

end Dante
