import Dante.Verification.AtMostOnce
import Dante.Verification.Digest

/-! # An approval is decided once, used once, and good for one action

Each approval runs through one small machine. Its whole history can be read off its row, and
a handler that needs an approval is paid for by a history that ends with its use. -/

namespace Dante

open JsonText Relational Concurrent

/-! ## The abstract machine -/

/-- The committed requests that move an approval. -/
inductive ApprovalEvent where
  | decided (token planHash : String) (approve : Bool)
  | used (taskId actionHash : String)
  deriving DecidableEq, Repr

/-- The approval is for this action of this task, decided or not. -/
def Approval.binds (a : Approval) (taskId actionHash : String) : Bool :=
  a.taskId == taskId && a.action == "tool.execute" && a.target == actionHash &&
    a.planHash == actionHash

section Runs

variable [Platform]

inductive ApprovalMove : Option ApprovalEvent → Option ApprovalRow → Option ApprovalRow → Prop where
  | stay (row : Option ApprovalRow) : ApprovalMove none row row
  | requested {row : ApprovalRow} (hpending : row.payload.status = .pending)
      (hopen : row.consumed = false) : ApprovalMove none none (some row)
  | decided {row : ApprovalRow} {token : String} (actor : String) (approve : Bool)
      (hopen : row.consumed = false) (htoken : row.tokenHash = tokenHash token) :
      ApprovalMove (some (.decided token row.payload.planHash approve)) (some row)
        (some { row with payload := row.payload.decided actor approve, consumed := true })
  | used {row : ApprovalRow} {taskId actionHash : String} (hconsumed : row.consumed = true)
      (hgrants : row.payload.grants taskId actionHash = true) :
      ApprovalMove (some (.used taskId actionHash)) (some row)
        (some { row with payload := { row.payload with status := .executed } })

/-- What has happened to an approval, as its row tells it. -/
inductive Told : Option ApprovalRow → List ApprovalEvent → Prop where
  | absent : Told none []
  | pending {row : ApprovalRow} (hstatus : row.payload.status = .pending)
      (hopen : row.consumed = false) : Told (some row) []
  | approved {row : ApprovalRow} {token : String} (hstatus : row.payload.status = .approved)
      (hconsumed : row.consumed = true) (htoken : row.tokenHash = tokenHash token) :
      Told (some row) [.decided token row.payload.planHash true]
  | rejected {row : ApprovalRow} {token : String} (hstatus : row.payload.status = .rejected)
      (hconsumed : row.consumed = true) (htoken : row.tokenHash = tokenHash token) :
      Told (some row) [.decided token row.payload.planHash false]
  | executed {row : ApprovalRow} {token taskId actionHash : String}
      (hstatus : row.payload.status = .executed) (hconsumed : row.consumed = true)
      (htoken : row.tokenHash = tokenHash token)
      (hbinds : row.payload.binds taskId actionHash = true) :
      Told (some row) [.decided token row.payload.planHash true, .used taskId actionHash]

variable {row row' : ApprovalRow} {events : List ApprovalEvent} {event : Option ApprovalEvent}

omit [Platform] in
theorem Approval.grants_iff {a : Approval} {taskId actionHash : String} :
    a.grants taskId actionHash = true ↔ a.status = .approved ∧ a.binds taskId actionHash = true := by
  simp only [grants, binds, Bool.and_eq_true, beq_iff_eq, and_assoc]

/-- One move of an approval extends its history. -/
theorem Told.move {before after : Option ApprovalRow} (h : Told before events)
    (hmove : ApprovalMove event before after) : Told after (events ++ event.toList) := by
  cases hmove with
  | stay => simpa using h
  | requested hpending hopen =>
      cases h
      exact .pending hpending hopen
  | decided actor approve hopen htoken =>
      cases h with
      | pending => cases approve with
        | true => exact .approved rfl rfl htoken
        | false => exact .rejected rfl rfl htoken
      | approved _ hconsumed | rejected _ hconsumed | executed _ hconsumed =>
          rw [hopen] at hconsumed
          cases hconsumed
  | used hconsumed hgrants =>
      obtain ⟨hstatus, hbinds⟩ := Approval.grants_iff.mp hgrants
      cases h with
      | approved _ _ htoken => exact .executed rfl hconsumed htoken hbinds
      | pending hother | rejected hother | executed hother =>
          rw [hstatus] at hother
          cases hother

/-- A row whose status changes was pending and is decided, or was approved and is used. -/
theorem ApprovalMove.status_cases (h : ApprovalMove event (some row) (some row'))
    (htold : Told (some row) events) :
    row'.payload.status = row.payload.status ∨
      (row.payload.status = .pending ∧ ∃ token approve, row.tokenHash = tokenHash token ∧
        event = some (.decided token row.payload.planHash approve) ∧
        row'.payload.status = if approve then .approved else .rejected) ∨
      row.payload.status = .approved ∧ row'.payload.status = .executed ∧
        event = some (.used row.payload.taskId row.payload.planHash) := by
  cases h with
  | stay => exact .inl rfl
  | decided actor approve hopen htoken =>
      refine .inr (.inl ⟨?_, _, approve, htoken, rfl, rfl⟩)
      cases htold with
      | pending hstatus => exact hstatus
      | approved _ hconsumed | rejected _ hconsumed | executed _ hconsumed =>
          rw [hopen] at hconsumed
          cases hconsumed
  | used hconsumed hgrants =>
      obtain ⟨hstatus, hbinds⟩ := Approval.grants_iff.mp hgrants
      simp only [Approval.binds, Bool.and_eq_true, beq_iff_eq] at hbinds
      refine .inr (.inr ⟨hstatus, rfl, ?_⟩)
      rw [hbinds.1.1.1, hbinds.2]

/-- What an approval is for never changes. -/
theorem ApprovalMove.binds_eq (h : ApprovalMove event (some row) (some row')) :
    row'.payload.binds = row.payload.binds := by
  cases h <;> rfl

/-! ## Every request -/

variable {approvalId : String} {db db' : Database}

/-- The move of an approval that a request has just committed. -/
def approvalEventOf (approvalId : String) : (r : Request) → Except Exn r.Reply →
    Option ApprovalEvent
  | .decideApproval other token planHash _ approve, .ok _ =>
      if other = approvalId then some (.decided token planHash approve) else none
  | .consumeAction other taskId actionHash, .ok _ =>
      if other = approvalId then some (.used taskId actionHash) else none
  | _, _ => none

omit [Platform] in
theorem get?_updateApproval_ne {other : String} {f : ApprovalRow → ApprovalRow}
    (hf : ∀ r, (f r).payload.approvalId = r.payload.approvalId) (hne : ¬other = approvalId) :
    (db.updateApproval other f hf).approvals.get? approvalId = db.approvals.get? approvalId := by
  rw [Database.updateApproval_approvals, Table.get?_modify, if_neg (Ne.symm hne)]

theorem requestApproval_moves {taskId action target planHash newId token : String}
    {answer : Approval × String}
    (h : requestApproval taskId action target planHash newId token db = .ok (answer, db')) :
    ApprovalMove none (db.approvals.get? approvalId) (db'.approvals.get? approvalId) := by
  obtain ⟨approvals, hins, -, rfl⟩ := requestApproval_ok h
  have hnew := Table.insert_isSome.mp (Option.isSome_of_mem hins)
  have hget := Table.get?_insert (k := approvalId) hins
  simp only at hget ⊢
  rw [hget]
  split
  next hid =>
    rw [hid] at hnew
    rw [hnew]
    exact .requested rfl rfl
  next => exact .stay _

theorem decideApproval_moves {other token planHash actor : String} {approve : Bool}
    {answer : Approval}
    (h : decideApproval other token planHash actor approve db = .ok (answer, db')) :
    ApprovalMove (if other = approvalId then some (.decided token planHash approve) else none)
      (db.approvals.get? approvalId) (db'.approvals.get? approvalId) := by
  obtain ⟨row, hrow, hopen, htoken, rfl, -, rfl⟩ := decideApproval_ok h
  by_cases hid : other = approvalId
  · subst hid
    rw [Database.updateApproval_approvals, Table.get?_modify, if_pos rfl, if_pos rfl, hrow]
    exact .decided actor approve hopen htoken
  · rw [get?_updateApproval_ne _ hid, if_neg hid]
    exact .stay _

theorem consumeAction_moves {other taskId actionHash : String} {u : Unit}
    (h : consumeAction other taskId actionHash db = .ok (u, db')) :
    ApprovalMove (if other = approvalId then some (.used taskId actionHash) else none)
      (db.approvals.get? approvalId) (db'.approvals.get? approvalId) := by
  obtain ⟨row, hrow, hconsumed, hgrants, rfl⟩ := consumeAction_ok h
  by_cases hid : other = approvalId
  · subst hid
    rw [Database.updateApproval_approvals, Table.get?_modify, if_pos rfl, if_pos rfl, hrow]
    exact .used hconsumed hgrants
  · rw [get?_updateApproval_ne _ hid, if_neg hid]
    exact .stay _

/-- The model refines the approval machine. -/
theorem perform_approval {env : Surroundings} {r : Request} {w w' : World}
    {reply : Except Exn r.Reply} (h : perform env r w = (reply, w')) (approvalId : String) :
    ApprovalMove (approvalEventOf approvalId r reply) (w.db.approvals.get? approvalId)
      (w'.db.approvals.get? approvalId) := by
  cases r with
  | requestApproval =>
      rcases commit_cases h with ⟨answer, db', hx, rfl, rfl⟩ | ⟨e, -, rfl, rfl⟩
      · exact requestApproval_moves hx
      · exact .stay _
  | decideApproval =>
      rcases commit_cases h with ⟨answer, db', hx, rfl, rfl⟩ | ⟨e, -, rfl, rfl⟩
      · exact decideApproval_moves hx
      · exact .stay _
  | consumeAction =>
      rcases commit_cases h with ⟨answer, db', hx, rfl, rfl⟩ | ⟨e, -, rfl, rfl⟩
      · exact consumeAction_moves hx
      · exact .stay _
  -- the other requests leave the approvals alone
  | _ =>
      have happrovals := perform_writes h .approvals (by simp [Request.writes])
      have hsame : w'.db.approvals = w.db.approvals := happrovals
      rw [hsame]
      exact .stay _

/-- The history of an approval in a log. -/
def approvalEvents (approvalId : String) (log : List (Event Request.Reply Exn)) :
    List ApprovalEvent :=
  log.filterMap fun
    | .call _ r reply => approvalEventOf approvalId r reply
    | _ => none

omit [Platform] in
theorem approvalEvents_call (log : List (Event Request.Reply Exn)) (pid : ℕ) (r : Request)
    (reply : Except Exn r.Reply) :
    approvalEvents approvalId (log ++ [.call pid r reply]) =
      approvalEvents approvalId log ++ (approvalEventOf approvalId r reply).toList := by
  simp only [approvalEvents, List.filterMap_append, List.filterMap_cons, List.filterMap_nil]
  cases approvalEventOf approvalId r reply <;> rfl

/-- In every run the row of an approval tells its history. -/
theorem told {R : Rules ledgerMachine} (hstart : ∀ w : World, R.start w → w.Fresh)
    {s : System ledgerMachine} (h : Reachable R s) (approvalId : String) :
    Told (s.snap.state.db.approvals.get? approvalId) (approvalEvents approvalId s.snap.log) := by
  refine h.snapshot_invariant (J := fun s : Snapshot ledgerMachine =>
    Told (s.state.db.approvals.get? approvalId) (approvalEvents approvalId s.log)) ?_ ?_ ?_ ?_ ?_
  · intro w hw
    have hempty : w.db = .empty := hstart w hw
    simp only [hempty, Database.empty, Table.get?_empty]
    exact .absent
  · intro s pid r env reply w hs _ hperform
    rw [Snapshot.after_log, approvalEvents_call]
    exact hs.move (perform_approval hperform approvalId)
  · intro s pid hs
    simpa [approvalEvents] using hs
  · intro s pid hs
    simpa [approvalEvents] using hs
  · intro s w hs hdrift
    have happrovals : w.db.approvals = s.state.db.approvals :=
      hdrift.agree (t := .approvals) (by simp)
    simpa [happrovals] using hs

/-! ## One digest, one action -/

/-- The same task, workspace, manifest, arguments and plan hash; only the order of keys may
differ. -/
structure ToolCall.SameAction (c c' : ToolCall) : Prop where
  taskId : c.taskId = c'.taskId
  workspace : c.workspace = c'.workspace
  manifest : canonical c.manifest.dump = canonical c'.manifest.dump
  version : c.manifest.version = c'.manifest.version
  permissions : c.manifest.permissions = c'.manifest.permissions
  filesystemScope : c.manifest.filesystemScope = c'.manifest.filesystemScope
  approvalPolicy : c.manifest.approvalPolicy = c'.manifest.approvalPolicy
  arguments : canonical (.obj c.arguments) = canonical (.obj c'.arguments)
  planHash : c.planHash = c'.planHash

omit [Platform] in
/-- Two calls whose actions have one canonical form are the same action. -/
theorem ToolCall.sameAction_of_canonical {c c' : ToolCall}
    (h : canonical (actionJson c.taskId c.workspace c.manifest c.arguments c.planHash) =
      canonical (actionJson c'.taskId c'.workspace c'.manifest c'.arguments c'.planHash)) :
    c.SameAction c' := by
  have hsame := actionJson_inj h
  have hmanifest := ToolManifest.alike_of_canonical hsame.manifest
  constructor
  case taskId => exact hsame.taskId
  case workspace => exact hsame.workspace
  case manifest => exact hsame.manifest
  case version => exact hmanifest.version
  case permissions => exact hmanifest.permissions
  case filesystemScope => exact hmanifest.filesystemScope
  case approvalPolicy => exact hmanifest.approvalPolicy
  case arguments => exact hsame.arguments
  case planHash => exact hsame.planHash

omit [Platform] in
theorem ToolCall.SameAction.canonical_eq {c c' : ToolCall} (h : c.SameAction c') :
    canonical (actionJson c.taskId c.workspace c.manifest c.arguments c.planHash) =
      canonical (actionJson c'.taskId c'.workspace c'.manifest c'.arguments c'.planHash) := by
  simp only [actionJson, canonical, canonicalFields, h.taskId, h.workspace, h.manifest, h.planHash]
  have harguments := h.arguments
  simp only [canonical] at harguments
  rw [harguments]

/-- An approval is bound to one action: a digest has only one. -/
theorem ToolCall.actionHash_iff {c c' : ToolCall} {hash : String} (h : c.actionHash = .ok hash) :
    c'.actionHash = .ok hash ↔ c'.SameAction c := by
  constructor
  · exact fun h' => sameAction_of_canonical (digest_injective h' h)
  · exact fun hsame => (digest_congr hsame.canonical_eq).trans h

/-! ## Starts are paid for by approvals -/

variable {k : String × String} {log : List (Event Request.Reply Exn)}

/-- The approval that was used for the task and action hash `k`. -/
def usedId (k : String × String) : Event Request.Reply Exn → Option String
  | .call _ (.consumeAction approvalId taskId hash) (.ok _) =>
      if (taskId, hash) = k then some approvalId else none
  | _ => none

def ApprovalEvent.approves : ApprovalEvent → Bool
  | .decided _ _ true => true
  | _ => false

/-- The approvals decided with `approve=True` for the task and action hash. -/
def approvalsFor (s : Snapshot ledgerMachine) (taskId hash : String) : List ApprovalRow :=
  s.state.db.approvals.rows.filter fun row =>
    row.payload.binds taskId hash &&
      (approvalEvents row.payload.approvalId s.log).any ApprovalEvent.approves

omit [Platform] in
theorem usedId_eq {e : Event Request.Reply Exn} :
    usedId k e = some approvalId ↔
      ∃ pid u, e = .call pid (.consumeAction approvalId k.1 k.2) (.ok u) := by
  cases e with
  | spawn pid => simp [usedId]
  | crash pid => simp [usedId]
  | call pid r reply =>
      cases r with
      | consumeAction other taskId hash =>
          cases reply with
          | ok u =>
              simp only [usedId, Option.ite_none_right_eq_some, Option.some.injEq, Event.call.injEq]
              constructor
              · rintro ⟨rfl, rfl⟩
                exact ⟨pid, u, rfl, rfl, HEq.rfl⟩
              · rintro ⟨_, _, rfl, hr, -⟩
                cases hr
                exact ⟨rfl, rfl⟩
          | error e =>
              refine ⟨fun h => (by cases h), ?_⟩
              rintro ⟨_, _, h⟩
              cases h
      | _ => simp [usedId]

omit [Platform] in
theorem consumes_eq_isSome : consumes k = fun e => (usedId k e).isSome := by
  funext e
  cases e with
  | spawn pid => rfl
  | crash pid => rfl
  | call pid r reply =>
      cases r with
      | consumeAction other taskId hash =>
          cases reply with
          | ok u => by_cases h : (taskId, hash) = k <;> simp [consumes, usedId, h]
          | error e => rfl
      | _ => rfl

omit [Platform] in
/-- The use of an approval is part of its history. -/
theorem used_mem (h : approvalId ∈ log.filterMap (usedId k)) :
    .used k.1 k.2 ∈ approvalEvents approvalId log := by
  obtain ⟨e, he, hid⟩ := List.mem_filterMap.mp h
  obtain ⟨pid, u, rfl⟩ := usedId_eq.mp hid
  refine List.mem_filterMap.mpr ⟨_, he, ?_⟩
  simp [approvalEventOf]

omit [Platform] in
/-- An approval is used as often as its history says. -/
theorem count_usedId_le (log : List (Event Request.Reply Exn)) (k : String × String)
    (approvalId : String) :
    (log.filterMap (usedId k)).count approvalId ≤
      (approvalEvents approvalId log).count (.used k.1 k.2) := by
  rw [approvalEvents, List.count_filterMap, List.count_filterMap]
  refine List.countP_mono_left fun e _ hid => ?_
  obtain ⟨pid, u, rfl⟩ := usedId_eq.mp (beq_iff_eq.mp hid)
  simp [approvalEventOf]

/-- The history of an approval has at most one use, and that is for what the row binds. -/
theorem Told.used {before : Option ApprovalRow} {taskId hash : String} (h : Told before events) :
    events.count (.used taskId hash) ≤ 1 ∧ (.used taskId hash ∈ events → ∃ row, before = some row ∧
      row.payload.binds taskId hash = true ∧ events.any ApprovalEvent.approves = true) := by
  cases h with
  | executed _ _ _ hbinds =>
      refine ⟨?_, fun hmem => ?_⟩
      · rw [List.count_cons_of_ne (by simp), List.count_singleton]
        split <;> simp
      · simp only [List.mem_cons, reduceCtorEq, ApprovalEvent.used.injEq, List.not_mem_nil,
          or_false, false_or] at hmem
        obtain ⟨rfl, rfl⟩ := hmem
        exact ⟨_, rfl, hbinds, by simp [ApprovalEvent.approves]⟩
  | _ => simp

/-- No more approvals are used for an action than were decided for it. -/
theorem consumes_le {s : Snapshot ledgerMachine}
    (htold : ∀ approvalId, Told (s.state.db.approvals.get? approvalId)
      (approvalEvents approvalId s.log)) (taskId hash : String) :
    s.log.countP (consumes (taskId, hash)) ≤ (approvalsFor s taskId hash).length := by
  have hnodup : (s.log.filterMap (usedId (taskId, hash))).Nodup :=
    List.nodup_iff_count_le_one.mpr fun approvalId =>
      (count_usedId_le s.log (taskId, hash) approvalId).trans (htold approvalId).used.1
  have hsubset : s.log.filterMap (usedId (taskId, hash)) ⊆
      (approvalsFor s taskId hash).map (fun row => row.payload.approvalId) := by
    intro approvalId hid
    obtain ⟨row, hrow, hbinds, happroves⟩ := (htold approvalId).used.2 (used_mem hid)
    have hkey : row.payload.approvalId = approvalId := Table.primary_of_get? hrow
    refine List.mem_map.mpr ⟨row, List.mem_filter.mpr ⟨Table.mem_of_get? hrow, ?_⟩, hkey⟩
    rw [hkey, hbinds, happroves]
    rfl
  have hlength := hnodup.length_le_of_subset hsubset
  rw [List.length_filterMap_eq_countP, List.length_map] at hlength
  rwa [consumes_eq_isSome]

/-- The handlers started under an approval policy have an action to be approved. -/
theorem starts_hashed {s : System ledgerMachine} (h : Reachable brokeredRun s) :
    ∀ pid c reply, .call pid (.runTool c) reply ∈ s.snap.log →
      c.manifest.approvalPolicy ≠ "never" → ∃ hash, c.actionHash = .ok hash := by
  refine h.permitted_invariant (J := fun s => ∀ pid c reply,
      .call pid (.runTool c) reply ∈ s.log → c.manifest.approvalPolicy ≠ "never" →
        ∃ hash, c.actionHash = .ok hash)
    brokerProtocol_sound (fun p hp pid s _ _ => brokered_safe hp _) ?_ ?_ ?_ ?_ ?_
  · intro w _ pid c reply hmem
    cases hmem
  · intro s pid r env reply w _ hs _ hpermit _ other c answer hmem hpolicy
    rcases List.mem_append.mp hmem with hold | hnew
    · exact hs other c answer hold hpolicy
    · cases List.mem_singleton.mp hnew
      obtain ⟨hash, hhash, -⟩ := (hpermit c rfl).approval hpolicy
      exact ⟨hash, hhash⟩
  · intro s pid hs other c answer hmem
    exact hs other c answer (by simpa using hmem)
  · intro s pid hs other c answer hmem
    exact hs other c answer (by simpa using hmem)
  · exact fun hs _ => hs

omit [Platform] in
theorem approvalEventOf_decided {r : Request} {reply : Except Exn r.Reply}
    {token planHash : String} {approve : Bool}
    (h : approvalEventOf approvalId r reply = some (.decided token planHash approve)) :
    ∃ actor answer, ∀ pid, Event.call pid r reply =
      .call pid (.decideApproval approvalId token planHash actor approve) (.ok answer) := by
  cases r with
  | decideApproval other token' planHash' actor approve' =>
      cases reply with
      | ok answer =>
          simp only [approvalEventOf, Option.ite_none_right_eq_some, Option.some.injEq,
            ApprovalEvent.decided.injEq] at h
          obtain ⟨rfl, rfl, rfl, rfl⟩ := h
          exact ⟨actor, answer, fun _ => rfl⟩
      | error e => cases h
  | consumeAction other taskId hash =>
      cases reply with
      | ok u => simp [approvalEventOf] at h
      | error e => cases h
  | _ => cases h

omit [Platform] in
theorem approvalEventOf_used {r : Request} {reply : Except Exn r.Reply} {taskId hash : String}
    (h : approvalEventOf approvalId r reply = some (.used taskId hash)) :
    ∀ pid, Event.call pid r reply =
      .call pid (.consumeAction approvalId taskId hash) (.ok ()) := by
  cases r with
  | decideApproval other token' planHash' actor approve' =>
      cases reply with
      | ok answer => simp [approvalEventOf] at h
      | error e => cases h
  | consumeAction other taskId' hash' =>
      cases reply with
      | ok u =>
          simp only [approvalEventOf, Option.ite_none_right_eq_some, Option.some.injEq,
            ApprovalEvent.used.injEq] at h
          obtain ⟨rfl, rfl, rfl⟩ := h
          exact fun _ => rfl
      | error e => cases h
  | _ => cases h

/-- What one step of a run may do to an approval. -/
theorem approval_step {R : Rules ledgerMachine} {s s' : System ledgerMachine}
    (hstep : Step R s s') (hrow : s.snap.state.db.approvals.get? approvalId = some row)
    (htold : Told (some row) events) :
    ∃ row', s'.snap.state.db.approvals.get? approvalId = some row' ∧
      row'.payload.binds = row.payload.binds ∧
      (row'.payload.status = row.payload.status ∨
        (row.payload.status = .pending ∧ ∃ pid token actor approve answer,
          row.tokenHash = tokenHash token ∧ s'.snap.log = s.snap.log ++
            [.call pid (.decideApproval approvalId token row.payload.planHash actor approve)
              (.ok answer)] ∧
          row'.payload.status = if approve then .approved else .rejected) ∨
        row.payload.status = .approved ∧ row'.payload.status = .executed ∧ ∃ pid,
          s'.snap.log = s.snap.log ++ [.call pid
            (.consumeAction approvalId row.payload.taskId row.payload.planHash) (.ok ())]) := by
  cases hstep with
  | spawn p hp => exact ⟨row, hrow, rfl, .inl rfl⟩
  | crash pid hpid => exact ⟨row, hrow, rfl, .inl rfl⟩
  | drift w hdrift =>
      have happrovals : w.db.approvals = s.snap.state.db.approvals :=
        hdrift.agree (t := .approvals) (by simp)
      exact ⟨row, happrovals ▸ hrow, rfl, .inl rfl⟩
  | call pid r next env reply w hthread hadmits hperform =>
      have hmove := perform_approval hperform approvalId
      rw [hrow] at hmove
      obtain ⟨row', hrow'⟩ : ∃ row', w.db.approvals.get? approvalId = some row' := by
        generalize approvalEventOf approvalId r reply = event at hmove
        generalize w.db.approvals.get? approvalId = after at hmove
        cases hmove <;> exact ⟨_, rfl⟩
      rw [hrow'] at hmove
      refine ⟨row', hrow', hmove.binds_eq, ?_⟩
      rcases hmove.status_cases htold with hsame | ⟨hpending, token, approve, htoken, hevent, hstatus⟩ |
        ⟨happroved, hexecuted, hevent⟩
      · exact .inl hsame
      · obtain ⟨actor, answer, hcall⟩ := approvalEventOf_decided hevent
        refine .inr (.inl ⟨hpending, pid, token, actor, approve, answer, htoken, ?_, hstatus⟩)
        rw [Snapshot.after_log, hcall]
      · refine .inr (.inr ⟨happroved, hexecuted, pid, ?_⟩)
        rw [Snapshot.after_log, approvalEventOf_used hevent]

/-- In every run of any number of brokered programs: an approval only moves from pending to
approved or rejected, by one decision with its token and plan hash, and from approved to
executed, by one use; the handlers started for an action under an approval policy are at most
as many as the approvals decided for that action; and an action hash has one action. -/
theorem approvals_exact {s : System ledgerMachine} (h : Reachable brokeredRun s) :
    (∀ s' approvalId row, Step brokeredRun s s' →
      s.snap.state.db.approvals.get? approvalId = some row →
      ∃ row', s'.snap.state.db.approvals.get? approvalId = some row' ∧
        row'.payload.binds = row.payload.binds ∧
        (row'.payload.status = row.payload.status ∨
          (row.payload.status = .pending ∧ ∃ pid token actor approve answer,
            row.tokenHash = tokenHash token ∧ s'.snap.log = s.snap.log ++
              [.call pid (.decideApproval approvalId token row.payload.planHash actor approve)
                (.ok answer)] ∧
            row'.payload.status = if approve then .approved else .rejected) ∨
          row.payload.status = .approved ∧ row'.payload.status = .executed ∧ ∃ pid,
            s'.snap.log = s.snap.log ++ [.call pid
              (.consumeAction approvalId row.payload.taskId row.payload.planHash) (.ok ())])) ∧
    (∀ approvalId, Told (s.snap.state.db.approvals.get? approvalId)
      (approvalEvents approvalId s.snap.log)) ∧
    (∀ pid c reply, .call pid (.runTool c) reply ∈ s.snap.log →
      c.manifest.approvalPolicy ≠ "never" → ∃ hash, c.actionHash = .ok hash) ∧
    (∀ taskId hash, s.snap.log.countP (startsApproved (taskId, hash)) ≤
      (approvalsFor s.snap taskId hash).length) ∧
    ∀ (c c' : ToolCall) hash, c.actionHash = .ok hash →
      (c'.actionHash = .ok hash ↔ c'.SameAction c) := by
  have htold := told (R := brokeredRun) (fun _ hw => hw) h
  have hsolvent := (h.keeps brokerProtocol_sound fun p hp pid s _ _ => brokered_safe hp _).inv.2
  refine ⟨fun s' approvalId row hstep hrow => ?_, htold, starts_hashed h, fun taskId hash => ?_,
    fun c c' hash hhash => ToolCall.actionHash_iff hhash⟩
  · have hown := htold approvalId
    rw [hrow] at hown
    exact approval_step hstep hrow hown
  · exact (hsolvent.total (taskId, hash)).trans (consumes_le htold taskId hash)

end Runs

section Approved

local instance approvalApproved : Platform := .reference []

/-- The digest of the one action of the broker. -/
def Sample.hash : String :=
  ((actionHash (broker "always") task "write" [] "plan").toOption).getD ""

/-- The action is approved. -/
def Sample.approval : List (Surroundings × Request) :=
  [(moment 0 "", .createTask task none),
    (moment 0 "approval", .requestApproval "task" "tool.execute" hash hash),
    (moment 0 "", .decideApproval "approval" "token" hash "operator" true)]

/-- The approved action is invoked. -/
def Sample.approvedInvocation : Prog Unit :=
  (Programs.invoke (broker "always") none task "write" [] (some "approval") "plan" none).bind
    fun _ => .ret ()

def Sample.approved : System ledgerMachine :=
  (((Sample.fresh []).script approval).started approvedInvocation).driven 3
    (List.replicate 13 (answering 0 "step" [("ok", .bool true)]))

theorem Sample.approval_steps :
    Steps brokeredRun (Sample.fresh []) ((Sample.fresh []).script approval) := by
  refine Steps.script (fun x hx => ?_) (fun _ _ _ _ => trivial) _
  simp only [approval, List.mem_cons, List.not_mem_nil, or_false] at hx
  rcases hx with rfl | rfl | rfl <;> exact .quiet ⟨fun _ hc => (by cases hc), fun _ => trivial⟩

theorem Sample.approved_reachable : Reachable brokeredRun Sample.approved := by
  have hprogram : Brokered Sample.approvedInvocation :=
    .bind (.invoke ..) fun _ => .quiet trivial
  exact (((Reachable.start _ rfl).steps Sample.approval_steps).step (.spawn _ _ hprogram)).steps
    (Steps.driven (fun _ _ _ => trivial) _ _ _)

theorem approvals_exact_approved :
    Sample.approved.snap.log.countP (startsApproved ("task", Sample.hash)) = 1 ∧
      1 ≤ (approvalsFor Sample.approved.snap "task" Sample.hash).length := by
  obtain ⟨-, -, -, hstarts, -⟩ := approvals_exact Sample.approved_reachable
  have hcount : Sample.approved.snap.log.countP (startsApproved ("task", Sample.hash)) = 1 := by
    decide +kernel
  exact ⟨hcount, hcount ▸ hstarts "task" Sample.hash⟩

end Approved

end Dante
