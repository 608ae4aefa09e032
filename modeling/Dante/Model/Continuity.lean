import Dante.Library.System
import Dante.Model.Inference
import Dante.Model.Ledger

/-! # Backend health, attempt windows, and the machine that inference runs on -/

namespace Dante

open JsonText Relational Concurrent

/-! ## Rows -/

inductive BackendState where
  | available
  | degraded
  | rateLimited
  | quotaExhausted
  | unavailable
  | cooldown
  | unknown
  deriving DecidableEq, Repr

def BackendState.value : BackendState → String
  | .available => "available"
  | .degraded => "degraded"
  | .rateLimited => "rate_limited"
  | .quotaExhausted => "quota_exhausted"
  | .unavailable => "unavailable"
  | .cooldown => "cooldown"
  | .unknown => "unknown"

structure BackendObservation where
  backendId : String
  state : BackendState
  reason : String
  observedAt : ℚ
  cooldownUntil : Option ℚ
  consecutiveFailures : ℕ
  lastSuccess : Option ℚ

/-- The columns of `task_continuity` that the queue does not read. -/
structure AttemptWindow where
  taskId : String
  windowStart : ℚ
  attempts : ℕ
  lastReason : Option String
  disposition : Option Disposition

/-- The row that `observe` writes in the place of `previous`. -/
def BackendObservation.following (previous : Option BackendObservation) (backendId : String)
    (state : BackendState) (reason : String) (observedAt : ℚ) (cooldownUntil : Option ℚ) :
    BackendObservation where
  backendId := backendId
  state := state
  reason := reason
  observedAt := observedAt
  cooldownUntil := cooldownUntil
  consecutiveFailures :=
    if state = .available then 0 else previous.elim 0 (·.consecutiveFailures) + 1
  lastSuccess := if state = .available then some observedAt else previous.bind (·.lastSuccess)

instance : Keyed BackendObservation String := ⟨BackendObservation.backendId⟩
instance : Keyed AttemptWindow String := ⟨AttemptWindow.taskId⟩

def Disposition.value : Disposition → String
  | .continueNow => "continue_now"
  | .retryLater => "retry_later"
  | .terminal => "terminal"

/-! ## The state -/

/-- The ledger database with the tables of the continuity manager, and the latest reading of
its clock. -/
structure InferenceWorld where
  db : Database
  backends : Table BackendObservation
  windows : Table AttemptWindow
  now : ℚ

namespace InferenceWorld

/-- `INSERT OR IGNORE INTO task_continuity(task_id,window_start) VALUES(?,?)`. -/
def opened (w : InferenceWorld) (taskId : String) (start : ℚ) : InferenceWorld :=
  { w with
    db := { w.db with continuity := w.db.continuity.ensure ⟨taskId, none⟩ }
    windows := w.windows.ensure ⟨taskId, start, 0, none, none⟩ }

/-- `UPDATE task_continuity SET window_start=?,attempts=0 WHERE task_id=?`. -/
def restarted (w : InferenceWorld) (taskId : String) (start : ℚ) : InferenceWorld :=
  { w with
    windows := w.windows.modify taskId (fun r => { r with windowStart := start, attempts := 0 })
      (fun _ => rfl) }

/-- `UPDATE task_continuity SET attempts=attempts+1 WHERE task_id=?`. -/
def counted (w : InferenceWorld) (taskId : String) : InferenceWorld :=
  { w with
    windows := w.windows.modify taskId (fun r => { r with attempts := r.attempts + 1 })
      (fun _ => rfl) }

/-- `UPDATE task_continuity SET next_attempt_at=?,last_reason=?,disposition=? WHERE task_id=?`. -/
def concluded (w : InferenceWorld) (taskId : String) (disposition : Disposition)
    (reason : String) (retryAt : Option ℚ) : InferenceWorld :=
  { w with
    db := { w.db with continuity :=
      w.db.continuity.modify taskId (fun r => { r with nextAttemptAt := retryAt }) (fun _ => rfl) }
    windows := w.windows.modify taskId
      (fun r => { r with lastReason := some reason, disposition := some disposition })
      (fun _ => rfl) }

/-- A reading of a clock that does not run backwards. -/
def tick (w : InferenceWorld) (reading : ℚ) : InferenceWorld :=
  { w with now := max w.now reading }

end InferenceWorld

/-- What a continuity event is about. -/
inductive Note where
  | candidates (eligible : List String) (denied : Dict String)
  | selected (modelId backendId : String) (previous : Option String)
  | failure (modelId backendId classification : String)

variable [Platform]

def Note.event : Note → String
  | .candidates _ _ => "continuity.candidates"
  | .selected _ _ _ => "continuity.selected"
  | .failure _ _ _ => "continuity.failure"

def Note.metadata : Note → Dict Json
  | .candidates eligible denied =>
      [("eligible", .arr (eligible.map .str)), ("denied", dumpTexts denied)]
  | .selected modelId backendId previous =>
      [("model_id", .str modelId), ("backend_id", .str backendId),
        ("previous_model_id", dumpOption previous)]
  | .failure modelId backendId classification =>
      [("model_id", .str modelId), ("backend_id", .str backendId),
        ("classification", .str classification)]

/-! ## Transactions -/

/-- The foreign key of events and continuity rows. -/
def referenced (db : Database) (taskId : String) : Except Exn Unit :=
  require (db.tasks.get? taskId).isSome .integrityError

/-- `if task is not None: assert_lease(db, task.task_id)`. -/
def requireLeaseGiven (db : Database) (now : ℚ) (owner : Option Lease) :
    Option String → Except Exn Unit
  | some taskId => requireLease db now taskId false owner
  | none => .ok ()

/-- The transaction of `observe`, made for a reading `observedAt` of the clock. -/
def observe (owner : Option Lease) (taskId : Option String) (backendId : String)
    (state : BackendState) (reason : String) (observedAt : ℚ) (cooldownUntil : Option ℚ)
    (time : ℚ) (w : InferenceWorld) : Except Exn (Unit × InferenceWorld) := do
  requireLeaseGiven w.db time owner taskId
  pure ((), { w with backends := w.backends.put (.following (w.backends.get? backendId) backendId
    state reason observedAt cooldownUntil) })

/-- `_event`. -/
def noteEvent (owner : Option Lease) (task : Task) (note : Note) (time : ℚ)
    (w : InferenceWorld) : Except Exn (Unit × InferenceWorld) := do
  requireLease w.db time task.taskId false owner
  referenced w.db task.taskId
  pure ((), { w with db := w.db.event task note.event (some task.status) note.metadata })

/-- The transaction of `_reserve`, made for a reading `now` of the clock; a denial is answered
with the end of the window. -/
def reserve (owner : Option Lease) (taskId : String) (now : ℚ) (policy : ContinuityPolicy)
    (time : ℚ) (w : InferenceWorld) : Except Exn (Option ℚ × InferenceWorld) := do
  requireLease w.db time taskId true owner
  referenced w.db taskId
  let w := w.opened taskId now
  let row ← orRaise (w.windows.get? taskId) (.typeError "'NoneType' object is not subscriptable")
  if row.windowStart + policy.windowS ≤ now then
    pure (none, (w.restarted taskId now).counted taskId)
  else if policy.maxRouteAttempts ≤ row.attempts then
    pure (some (row.windowStart + policy.windowS), w)
  else pure (none, w.counted taskId)

/-- `json.dumps` of an optional float. -/
def dumpTime (time : Option ℚ) : Json :=
  time.elim .null fun t => .float (Platform.floatText t)

/-- The transaction of `_outcome`, which reads the clock inside of it. -/
def outcome (owner : Option Lease) (task : Task) (disposition : Disposition) (reason : String)
    (retryAt : Option ℚ) (clock : ℕ → ℚ) (time : ℚ) (w : InferenceWorld) :
    Except Exn (Unit × InferenceWorld) := do
  requireLease w.db time task.taskId false owner
  referenced w.db task.taskId
  let w := w.tick (clock 0)
  let w := (w.opened task.taskId w.now).concluded task.taskId disposition reason retryAt
  let w :=
    if disposition = .continueNow then
      let w := w.tick (clock 1)
      w.restarted task.taskId w.now
    else w
  let db := w.db.event task "continuity.outcome" (some task.status)
    [("disposition", .str disposition.value), ("reason", .str reason),
      ("next_attempt_at", dumpTime retryAt)]
  pure ((), { w with db := db })

/-! ## Requests -/

/-- What the continuity manager reads its clock for. -/
inductive Purpose where
  | iteration
  | reservation
  | backoff
  | observation
  deriving DecidableEq, Repr

inductive InferenceStep where
  | getTask (taskId : String)
  | setRoute (owner : Option Lease) (route : Route)
  | clock (purpose : Purpose)
  | observation (backendId : String)
  | observe (owner : Option Lease) (taskId : Option String) (backendId : String)
      (state : BackendState) (reason : String) (observedAt : ℚ) (cooldownUntil : Option ℚ)
  | event (owner : Option Lease) (task : Task) (note : Note)
  | reserve (owner : Option Lease) (taskId : String) (now : ℚ) (policy : ContinuityPolicy)
  | outcome (owner : Option Lease) (task : Task) (disposition : Disposition) (reason : String)
      (retryAt : Option ℚ)
  | complete (adapter : Adapter) (request : InferenceRequest)

/-- What each request answers. -/
def InferenceStep.Reply : InferenceStep → Type
  | .getTask _ | .setRoute _ _ => Task
  | .clock _ => ℚ
  | .observation _ => Option BackendObservation
  | .reserve _ _ _ _ => Option ℚ
  | .complete _ _ => InferenceResponse
  | _ => Unit

/-- What a request finds outside of the state: the time that leases are held against, the
readings of the manager's clock, a fresh route id, and what the providers answer. -/
structure Providers where
  time : ℚ
  clock : ℕ → ℚ
  newId : String
  complete : Adapter → InferenceRequest → Except Fault InferenceResponse

/-- Commit a transaction that succeeded. -/
def InferenceWorld.commit {α : Type} (w : InferenceWorld) (x : Except Exn (α × InferenceWorld)) :
    Except Fault α × InferenceWorld :=
  match x with
  | .ok (a, w') => (.ok a, w')
  | .error e => (.error (.exn e), w)

/-- A transaction of the ledger itself. -/
def InferenceWorld.commitDb {α : Type} (w : InferenceWorld) (x : Except Exn (α × Database)) :
    Except Fault α × InferenceWorld :=
  match x with
  | .ok (a, db) => (.ok a, { w with db := db })
  | .error e => (.error (.exn e), w)

def InferenceStep.perform (env : Providers) (r : InferenceStep) (w : InferenceWorld) :
    Except Fault r.Reply × InferenceWorld :=
  match r with
  | .getTask taskId => (faulty (Dante.getTask taskId w.db), w)
  | .setRoute owner route =>
      w.commitDb (Dante.setRoute owner (route.recorded env.newId) env.time w.db)
  | .clock _ =>
      let reading : ℚ := max w.now (env.clock 0)
      (.ok reading, w.tick (env.clock 0))
  | .observation backendId => (.ok (w.backends.get? backendId), w)
  | .observe owner taskId backendId state reason observedAt cooldownUntil =>
      w.commit (Dante.observe owner taskId backendId state reason observedAt cooldownUntil
        env.time w)
  | .event owner task note => w.commit (noteEvent owner task note env.time w)
  | .reserve owner taskId now policy => w.commit (Dante.reserve owner taskId now policy env.time w)
  | .outcome owner task disposition reason retryAt =>
      w.commit (Dante.outcome owner task disposition reason retryAt env.clock env.time w)
  | .complete adapter request => (env.complete adapter request, w)

/-- The rest of the ledger may do anything to the database, but has no part in the tables of
the continuity manager. -/
structure InferenceWorld.Drift (w w' : InferenceWorld) : Prop where
  backends : w'.backends = w.backends
  windows : w'.windows = w.windows
  now : w'.now = w.now

/-- The continuity tables, shared by any number of processes. -/
abbrev inferenceMachine : Machine InferenceStep.Reply Fault where
  State := InferenceWorld
  Env := Providers
  perform := InferenceStep.perform
  drift := InferenceWorld.Drift

/-- A program of the source, seen as its sequence of atomic steps. -/
abbrev InferenceProg (α : Type) : Type :=
  Program InferenceStep.Reply Fault α

/-- One atomic step; an exception of it is raised. -/
abbrev send (r : InferenceStep) : InferenceProg r.Reply :=
  Program.call r

end Dante
