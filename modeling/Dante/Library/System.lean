import Dante.Library.Program
import Mathlib.Data.List.Induction
import Mathlib.Logic.Relation

/-! # Interleaved programs over one shared state

Any number of programs run against one state. A step starts a program, kills one, lets
one issue its next request, or lets the surroundings move the state. The log records
what was asked and what was answered, in order. -/

namespace Concurrent

/-- How requests act on the shared state. `Env` is what the machine does not determine:
clock readings, fresh names, the behaviour of foreign code. -/
structure Machine {ι : Type} (ρ : ι → Type) (ε : Type) where
  State : Type
  Env : Type
  perform : Env → (r : ι) → State → Except ε (ρ r) × State
  drift : State → State → Prop

inductive Event {ι : Type} (ρ : ι → Type) (ε : Type) where
  | spawn (pid : ℕ)
  | crash (pid : ℕ)
  | call (pid : ℕ) (r : ι) (reply : Except ε (ρ r))

variable {ι : Type} {ρ : ι → Type} {ε : Type}

def Event.pid : Event ρ ε → ℕ
  | .spawn pid => pid
  | .crash pid => pid
  | .call pid _ _ => pid

/-- The shared state with the history that led to it. -/
structure Snapshot (M : Machine ρ ε) where
  state : M.State
  log : List (Event ρ ε)

variable {M : Machine ρ ε}

def Snapshot.after (s : Snapshot M) (state : M.State) (e : Event ρ ε) : Snapshot M :=
  ⟨state, s.log ++ [e]⟩

@[simp] theorem Snapshot.after_state (s : Snapshot M) (state : M.State) (e : Event ρ ε) :
    (s.after state e).state = state := rfl

@[simp] theorem Snapshot.after_log (s : Snapshot M) (state : M.State) (e : Event ρ ε) :
    (s.after state e).log = s.log ++ [e] := rfl

/-- A dead or finished slot is never reused, so a position identifies a program. -/
structure System (M : Machine ρ ε) where
  snap : Snapshot M
  threads : List (Option (Program ρ ε Unit))

/-- What may be started, and which requests the runs under study admit. -/
structure Rules (M : Machine ρ ε) where
  start : M.State → Prop
  program : Program ρ ε Unit → Prop
  admits : ℕ → ι → Snapshot M → Prop

variable (R : Rules M)

inductive Step : System M → System M → Prop where
  | spawn (s : System M) (p : Program ρ ε Unit) (hp : R.program p) :
      Step s ⟨s.snap.after s.snap.state (.spawn s.threads.length), s.threads ++ [some p]⟩
  | crash (s : System M) (pid : ℕ) (hpid : pid < s.threads.length) :
      Step s ⟨s.snap.after s.snap.state (.crash pid), s.threads.set pid none⟩
  | call (s : System M) (pid : ℕ) (r : ι) (next : Except ε (ρ r) → Program ρ ε Unit)
      (env : M.Env) (reply : Except ε (ρ r)) (state : M.State)
      (hthread : s.threads[pid]? = some (some (.request r next)))
      (hadmits : R.admits pid r s.snap)
      (hperform : M.perform env r s.snap.state = (reply, state)) :
      Step s ⟨s.snap.after state (.call pid r reply), s.threads.set pid (some (next reply))⟩
  | drift (s : System M) (state : M.State) (hdrift : M.drift s.snap.state state) :
      Step s ⟨⟨state, s.snap.log⟩, s.threads⟩

inductive Reachable : System M → Prop where
  | start (state : M.State) (h : R.start state) : Reachable ⟨⟨state, []⟩, []⟩
  | step {s s' : System M} : Reachable s → Step R s s' → Reachable s'

/-- Any number of steps. -/
abbrev Steps : System M → System M → Prop :=
  Relation.ReflTransGen (Step R)

variable {R}

theorem Reachable.steps {s s' : System M} (h : Reachable R s) (hs : Steps R s s') :
    Reachable R s' := by
  induction hs with
  | refl => exact h
  | tail _ hstep ih => exact ih.step hstep

/-- Narrower rules have fewer steps. -/
theorem Step.mono {R' : Rules M} (hprogram : ∀ p, R.program p → R'.program p)
    (hadmits : ∀ pid r s, R.admits pid r s → R'.admits pid r s) {s s' : System M}
    (h : Step R s s') : Step R' s s' := by
  cases h with
  | spawn p hp => exact .spawn s p (hprogram p hp)
  | crash pid hpid => exact .crash s pid hpid
  | call pid r next env reply state hthread ha hperform =>
      exact .call s pid r next env reply state hthread (hadmits pid r s.snap ha) hperform
  | drift state hdrift => exact .drift s state hdrift

theorem Reachable.mono {R' : Rules M} (hstart : ∀ st, R.start st → R'.start st)
    (hprogram : ∀ p, R.program p → R'.program p)
    (hadmits : ∀ pid r s, R.admits pid r s → R'.admits pid r s) {s : System M}
    (h : Reachable R s) : Reachable R' s := by
  induction h with
  | start st h => exact .start st (hstart st h)
  | step _ hstep ih => exact ih.step (hstep.mono hprogram hadmits)

/-- The process has another request to make. -/
def System.Live (s : System M) (pid : ℕ) : Prop :=
  ∃ r next, s.threads[pid]? = some (some (.request r next))

/-- Only a new process comes to life. -/
theorem Step.live {s s' : System M} (h : Step R s s') {pid : ℕ} (hlive : s'.Live pid) :
    s.Live pid ∨ pid = s.threads.length := by
  obtain ⟨r', next', hthread'⟩ := hlive
  cases h with
  | spawn p hp =>
      have hbound := (List.getElem?_eq_some_iff.mp hthread').1
      rw [List.length_append, List.length_singleton] at hbound
      rcases Nat.lt_succ_iff_lt_or_eq.mp hbound with hlt | rfl
      · rw [List.getElem?_append_left hlt] at hthread'
        exact .inl ⟨r', next', hthread'⟩
      · exact .inr rfl
  | crash other hpid =>
      by_cases heq : other = pid
      · subst heq
        simp [List.getElem?_set_self hpid] at hthread'
      · exact .inl ⟨r', next', by rwa [List.getElem?_set_ne heq] at hthread'⟩
  | call other r next env reply state hthread ha hperform =>
      by_cases heq : other = pid
      · subst heq
        exact .inl ⟨r, next, hthread⟩
      · exact .inl ⟨r', next', by rwa [List.getElem?_set_ne heq] at hthread'⟩
  | drift state hdrift => exact .inl ⟨r', next', hthread'⟩

/-! ## Runs of single requests -/

/-- The program that makes one request. -/
def Program.once (r : ι) : Program ρ ε Unit :=
  .request r fun _ => .ret ()

/-- A new process that has yet to make its request. -/
def System.spawned (s : System M) (r : ι) : System M :=
  ⟨s.snap.after s.snap.state (.spawn s.threads.length), s.threads ++ [some (.once r)]⟩

/-- A new process makes one request. -/
def System.asked (s : System M) (env : M.Env) (r : ι) : System M :=
  ⟨(s.spawned r).snap.after (M.perform env r s.snap.state).2
      (.call s.threads.length r (M.perform env r s.snap.state).1),
    s.threads ++ [some (.ret ())]⟩

/-- One new process after another makes one request. -/
def System.script (s : System M) (requests : List (M.Env × ι)) : System M :=
  requests.foldl (fun s x => s.asked x.1 x.2) s

theorem System.asked_log {s : System M} {env : M.Env} {r : ι} {reply : Except ε (ρ r)}
    (h : (M.perform env r s.snap.state).1 = reply) :
    (s.asked env r).snap.log = (s.spawned r).snap.log ++ [.call s.threads.length r reply] :=
  h ▸ rfl

theorem Step.asked {r : ι} (hadmits : ∀ pid s, R.admits pid r s) (s : System M) (env : M.Env) :
    Step R (s.spawned r) (s.asked env r) := by
  have hthread : (s.spawned r).threads[s.threads.length]? =
      some (some (.request r fun _ => .ret ())) := by simp [System.spawned, Program.once]
  have hstep := Step.call (R := R) (s.spawned r) s.threads.length r (fun _ => .ret ()) env _ _
    hthread (hadmits _ _) rfl
  simpa [System.asked, System.spawned] using hstep

theorem Steps.asked {r : ι} (hprogram : R.program (.once r)) (hadmits : ∀ pid s, R.admits pid r s)
    (s : System M) (env : M.Env) : Steps R s (s.asked env r) :=
  .tail (.single (.spawn s (.once r) hprogram)) (.asked hadmits s env)

theorem Steps.script {requests : List (M.Env × ι)}
    (hprogram : ∀ x ∈ requests, R.program (.once x.2))
    (hadmits : ∀ x ∈ requests, ∀ pid s, R.admits pid x.2 s) (s : System M) :
    Steps R s (s.script requests) := by
  induction requests generalizing s with
  | nil => exact .refl
  | cons x rest ih =>
      simp only [List.forall_mem_cons] at hprogram hadmits
      exact (Steps.asked hprogram.1 hadmits.1 s x.1).trans (ih hprogram.2 hadmits.2 _)

/-- The surroundings have moved the state. -/
def System.drifted (s : System M) (state : M.State) : System M :=
  ⟨⟨state, s.snap.log⟩, s.threads⟩

theorem Step.drifted {s : System M} {state : M.State} (h : M.drift s.snap.state state) :
    Step R s (s.drifted state) :=
  .drift s state h

/-- A process has died. -/
def System.crashed (s : System M) (pid : ℕ) : System M :=
  ⟨s.snap.after s.snap.state (.crash pid), s.threads.set pid none⟩

theorem Step.crashed {s : System M} {pid : ℕ} (h : pid < s.threads.length) :
    Step R s (s.crashed pid) :=
  .crash s pid h

/-! ## Runs of one process -/

/-- A new process that has yet to run `p`. -/
def System.started (s : System M) (p : Program ρ ε Unit) : System M :=
  ⟨s.snap.after s.snap.state (.spawn s.threads.length), s.threads ++ [some p]⟩

/-- The process `pid` makes its next requests, one in each of the surroundings. -/
def System.driven (s : System M) (pid : ℕ) : List M.Env → System M
  | [] => s
  | env :: rest =>
      match s.threads[pid]? with
      | some (some (.request r next)) =>
          let answer := M.perform env r s.snap.state
          System.driven ⟨s.snap.after answer.2 (.call pid r answer.1),
            s.threads.set pid (some (next answer.1))⟩ pid rest
      | _ => s

theorem Steps.driven (hadmits : ∀ pid r s, R.admits pid r s) (s : System M) (pid : ℕ)
    (envs : List M.Env) : Steps R s (s.driven pid envs) := by
  induction envs generalizing s with
  | nil => exact .refl
  | cons env rest ih =>
      unfold System.driven
      split
      next r next hthread =>
        exact .head (.call s pid r next env _ _ hthread (hadmits pid r s.snap) rfl) (ih _)
      next => exact .refl

theorem System.driven_request {s : System M} {pid : ℕ} {r : ι}
    {next : Except ε (ρ r) → Program ρ ε Unit}
    (hthread : s.threads[pid]? = some (some (.request r next))) (env : M.Env) :
    s.driven pid [env] = ⟨s.snap.after (M.perform env r s.snap.state).2
      (.call pid r (M.perform env r s.snap.state).1),
      s.threads.set pid (some (next (M.perform env r s.snap.state).1))⟩ := by
  simp only [System.driven, hthread]

/-- Whether each of the next requests of `pid` passes a test, with its reply and the state that
it was made in. -/
def System.drivenPasses (test : M.State → (r : ι) → Except ε (ρ r) → Bool) (s : System M)
    (pid : ℕ) : List M.Env → Bool
  | [] => true
  | env :: rest =>
      match s.threads[pid]? with
      | some (some (.request r next)) =>
          let answer := M.perform env r s.snap.state
          test s.snap.state r answer.1 &&
            System.drivenPasses test ⟨s.snap.after answer.2 (.call pid r answer.1),
              s.threads.set pid (some (next answer.1))⟩ pid rest
      | _ => true

/-- A request that the step logs passes the test. -/
def Passes (test : M.State → (r : ι) → Except ε (ρ r) → Bool) (s s' : System M) : Prop :=
  ∀ pid r reply, s'.snap.log = s.snap.log ++ [.call pid r reply] →
    test s.snap.state r reply = true

variable {test : M.State → (r : ι) → Except ε (ρ r) → Bool}

theorem Steps.drivenPasses (hadmits : ∀ pid r s, R.admits pid r s) {s : System M} {pid : ℕ}
    {envs : List M.Env} (h : s.drivenPasses test pid envs = true) :
    Relation.ReflTransGen (fun s s' => Step R s s' ∧ Passes test s s') s (s.driven pid envs) := by
  induction envs generalizing s with
  | nil => exact .refl
  | cons env rest ih =>
      unfold System.drivenPasses at h
      unfold System.driven
      split
      next r next hthread =>
        simp only [hthread, Bool.and_eq_true] at h
        refine .head ⟨.call s pid r next env _ _ hthread (hadmits pid r s.snap) rfl, ?_⟩ (ih h.2)
        intro pid' r' reply' hlog
        have hevent := List.append_cancel_left hlog
        simp only [List.cons.injEq, Event.call.injEq, and_true] at hevent
        obtain ⟨-, rfl, hreply⟩ := hevent
        cases hreply
        exact h.1
      next => exact .refl

/-- The same run under rules that admit whatever passes the test. -/
theorem Steps.drivenAdmitted
    (hadmits : ∀ pid r reply (s : Snapshot M), test s.state r reply = true → R.admits pid r s)
    {s : System M} {pid : ℕ} {envs : List M.Env} (h : s.drivenPasses test pid envs = true) :
    Steps R s (s.driven pid envs) := by
  induction envs generalizing s with
  | nil => exact .refl
  | cons env rest ih =>
      unfold System.drivenPasses at h
      unfold System.driven
      split
      next r next hthread =>
        simp only [hthread, Bool.and_eq_true] at h
        exact .head (.call s pid r next env _ _ hthread (hadmits pid r _ s.snap h.1) rfl) (ih h.2)
      next => exact .refl

theorem Passes.spawn (s : System M) (p : Program ρ ε Unit) : Passes test s (s.started p) := by
  intro pid r reply hlog
  have hevent := List.append_cancel_left hlog
  simp at hevent

/-! ## Invariants of the shared state -/

/-- The state moves only by an admitted request or by the surroundings. -/
theorem Step.state_cases {s s' : System M} (h : Step R s s') :
    s'.snap.state = s.snap.state ∨ M.drift s.snap.state s'.snap.state ∨
      ∃ pid r env reply, R.admits pid r s.snap ∧
        M.perform env r s.snap.state = (reply, s'.snap.state) ∧
        s'.snap.log = s.snap.log ++ [.call pid r reply] := by
  cases h with
  | spawn p hp => exact .inl rfl
  | crash pid hpid => exact .inl rfl
  | call pid r next env reply state hthread ha hperform =>
      exact .inr (.inr ⟨pid, r, env, reply, ha, hperform, rfl⟩)
  | drift state hdrift => exact .inr (.inl hdrift)

/-- The step that logs a request has performed it. -/
theorem Step.performed {s s' : System M} (h : Step R s s') {pid : ℕ} {r : ι}
    {reply : Except ε (ρ r)} (hlog : s'.snap.log = s.snap.log ++ [.call pid r reply]) :
    ∃ env, M.perform env r s.snap.state = (reply, s'.snap.state) := by
  cases h with
  | spawn p hp =>
      have hevent := List.append_cancel_left hlog
      simp at hevent
  | crash other hpid =>
      have hevent := List.append_cancel_left hlog
      simp at hevent
  | call other r' next env reply' state hthread ha hperform =>
      have hevent := List.append_cancel_left hlog
      simp only [List.cons.injEq, Event.call.injEq, and_true] at hevent
      obtain ⟨-, rfl, hreply⟩ := hevent
      cases hreply
      exact ⟨env, hperform⟩
  | drift state hdrift =>
      have hlength := congrArg List.length hlog
      simp at hlength

theorem Step.log_grows {s s' : System M} (h : Step R s s') : s.snap.log <+: s'.snap.log := by
  cases h with
  | drift state hdrift => exact List.prefix_refl _
  | _ => exact List.prefix_append _ _

theorem Steps.log_grows {s s' : System M} (h : Steps R s s') : s.snap.log <+: s'.snap.log := by
  induction h with
  | refl => exact List.prefix_refl _
  | tail _ hstep ih => exact ih.trans hstep.log_grows

/-- A step logs one event at most. -/
theorem Step.log_cases {s s' : System M} (h : Step R s s') :
    s'.snap.log = s.snap.log ∨ ∃ e, s'.snap.log = s.snap.log ++ [e] := by
  cases h with
  | drift state hdrift => exact .inl rfl
  | _ => exact .inr ⟨_, rfl⟩

/-- Where an event of a longer log stands: before its last event, or it is the last one. -/
theorem split_snoc {α : Type} {l before after : List α} {x e : α}
    (h : l ++ [x] = before ++ e :: after) :
    (∃ rest, after = rest ++ [x] ∧ l = before ++ e :: rest) ∨
      after = [] ∧ l = before ∧ e = x := by
  cases after using List.reverseRecOn with
  | nil =>
      obtain ⟨rfl, hlast⟩ := List.append_inj' h rfl
      cases hlast
      exact .inr ⟨rfl, rfl, rfl⟩
  | append_singleton rest y =>
      rw [← List.cons_append, ← List.append_assoc] at h
      obtain ⟨rfl, hlast⟩ := List.append_inj' h rfl
      cases hlast
      exact .inl ⟨rest, rfl, rfl⟩

/-- A property of the state that requests and surroundings preserve, as a property of
every reachable state. -/
theorem Reachable.state_invariant {J : M.State → Prop} (hstart : ∀ st, R.start st → J st)
    (hperform : ∀ env r st reply st', J st → M.perform env r st = (reply, st') → J st')
    (hdrift : ∀ st st', J st → M.drift st st' → J st') {s : System M} (h : Reachable R s) :
    J s.snap.state := by
  induction h with
  | start st h => exact hstart st h
  | step _ hstep ih =>
      rcases hstep.state_cases with hsame | hd | ⟨pid, r, env, reply, -, hp, -⟩
      · exact hsame ▸ ih
      · exact hdrift _ _ ih hd
      · exact hperform env r _ reply _ ih hp

/-- A property of the state that every move preserves, once true, stays true. -/
theorem Steps.state_invariant {J : M.State → Prop}
    (hperform : ∀ env r st reply st', J st → M.perform env r st = (reply, st') → J st')
    (hdrift : ∀ st st', J st → M.drift st st' → J st') {s s' : System M}
    (hs : Steps R s s') (h : J s.snap.state) : J s'.snap.state := by
  induction hs with
  | refl => exact h
  | tail _ hstep ih =>
      rcases hstep.state_cases with hsame | hd | ⟨pid, r, env, reply, -, hp, -⟩
      · exact hsame ▸ ih
      · exact hdrift _ _ ih hd
      · exact hperform env r _ reply _ ih hp

/-! ## Invariants of the state together with the log -/

/-- A property of snapshots that every kind of step preserves. -/
theorem Reachable.snapshot_invariant {J : Snapshot M → Prop}
    (hstart : ∀ st, R.start st → J ⟨st, []⟩)
    (hcall : ∀ {s pid r env reply st}, J s → R.admits pid r s →
      M.perform env r s.state = (reply, st) → J (s.after st (.call pid r reply)))
    (hspawn : ∀ {s pid}, J s → J (s.after s.state (.spawn pid)))
    (hcrash : ∀ {s pid}, J s → J (s.after s.state (.crash pid)))
    (hdrift : ∀ {s : Snapshot M} {st}, J s → M.drift s.state st → J ⟨st, s.log⟩)
    {s : System M} (h : Reachable R s) : J s.snap := by
  induction h with
  | start st hst => exact hstart st hst
  | step _ hstep ih =>
      cases hstep with
      | spawn p hp => exact hspawn ih
      | crash pid hpid => exact hcrash ih
      | call pid r next env reply st hthread hadmits hperform =>
          exact hcall ih hadmits hperform
      | drift st hd => exact hdrift ih hd

end Concurrent
