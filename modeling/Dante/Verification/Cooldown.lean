import Dante.Verification.Budget

/-! # Provider cooldowns

A round looks at the candidates' backends before it selects one, and passes over a backend whose
cooldown has not ended. An observation replaces the row of its backend, whatever cooldown is in
it; so a cooldown is respected as long as no observation cuts it short. -/

namespace Dante

open Relational Concurrent Program Programs

section Runs

variable [Platform] {backendId : String} {l : List (Exchange InferenceStep.Reply Fault)}

/-! ## What a process has seen in its round -/

/-- The reading of the clock that the round began at, whether it still looks at the candidates,
and the backends it has found without a cooldown. -/
structure Look where
  began : ℚ
  looking : Bool
  clear : List String

/-- No cooldown of the row ends after `now`. -/
def rested (now : ℚ) (row : Option BackendObservation) : Bool :=
  (row.bind BackendObservation.cooldownUntil).all (· ≤ now)

def Look.next (look : Option Look) : Exchange InferenceStep.Reply Fault → Option Look
  | ⟨.clock .iteration, .ok now⟩ => some ⟨now, true, []⟩
  | ⟨.observation backendId, .ok row⟩ => look.map fun x =>
      if x.looking && rested x.began row then { x with clear := backendId :: x.clear } else x
  | ⟨.event _ _ (.candidates _ _), _⟩ => look.map fun x => { x with looking := false }
  | _ => look

/-- What a process has seen in the round it is in, by its exchanges. -/
def lookOf (l : List (Exchange InferenceStep.Reply Fault)) : Option Look :=
  l.foldl Look.next none

omit [Platform] in
@[simp] theorem lookOf_nil : lookOf [] = none := rfl

omit [Platform] in
theorem lookOf_append_singleton (x : Exchange InferenceStep.Reply Fault) :
    lookOf (l ++ [x]) = Look.next (lookOf l) x := by
  simp [lookOf]

omit [Platform] in
/-- Only the beginning of a round starts a look, and it forgets the look before. -/
theorem Look.next_of_none {x : Exchange InferenceStep.Reply Fault} {look : Look}
    (h : Look.next none x = some look) (other : Option Look) : Look.next other x = some look := by
  unfold Look.next at h ⊢
  split at h
  · exact h
  · cases h
  · cases h
  · cases h

omit [Platform] in
/-- The round that a process is in does not depend on what it did before the round. -/
theorem lookOf_append {l' : List (Exchange InferenceStep.Reply Fault)} {look : Look}
    (h : lookOf l' = some look) : lookOf (l ++ l') = some look := by
  induction l' using List.reverseRecOn generalizing look with
  | nil => cases h
  | append_singleton l' x ih =>
      rw [lookOf_append_singleton] at h
      rw [← List.append_assoc, lookOf_append_singleton]
      cases hbefore : lookOf l' with
      | none =>
          rw [hbefore] at h
          exact Look.next_of_none h _
      | some before =>
          rw [ih hbefore, ← hbefore]
          exact h

/-! ## Selecting only what was clear -/

def InferenceStep.selects (backendId : String) : InferenceStep → Bool
  | .event _ _ (.selected _ selected _) => selected == backendId
  | _ => false

/-- The request selects no backend. -/
def Unselecting (r : InferenceStep) : Prop :=
  ∀ backendId, r.selects backendId = false

/-- A process selects only backends that it has found clear in this round. -/
def SelectsClear (l : List (Exchange InferenceStep.Reply Fault)) (r : InferenceStep) : Prop :=
  ∀ backendId, r.selects backendId = true → ∃ look, lookOf l = some look ∧ backendId ∈ look.clear

/-- The candidates found usable so far were all found clear. -/
def SeenClear (now : ℚ) (found : Scan) (l : List (Exchange InferenceStep.Reply Fault)) : Prop :=
  ∃ look, lookOf l = some look ∧ look.began = now ∧ look.looking = true ∧
    ∀ model ∈ found.usable, model.providerId ∈ look.clear

omit [Platform] in
theorem Unselecting.selectsClear {r : InferenceStep} (h : Unselecting r) : SelectsClear l r := by
  intro backendId hselects
  rw [h backendId] at hselects
  cases hselects

omit [Platform] in
theorem health_rested {policy : ContinuityPolicy} {now : ℚ} {model : ModelRef}
    {observation : Option BackendObservation} (h : health policy now model observation = .usable) :
    rested now observation = true := by
  unfold health at h
  cases observation with
  | none => split_ifs at h
  | some row =>
      cases hcooldown : row.cooldownUntil with
      | none => simp [rested, hcooldown]
      | some resumes =>
          simp only [hcooldown] at h
          split_ifs at h with havailable hunknown hresumes
          simpa [rested, hcooldown] using not_lt.mp hresumes

omit [Platform] in
theorem SeenClear.judged {now : ℚ} {found : Scan} {model : ModelRef} {policy : ContinuityPolicy}
    {observation : Option BackendObservation} (h : SeenClear now found l) :
    SeenClear now (found.judge model (health policy now model observation))
      (l ++ [⟨.observation model.providerId, .ok observation⟩]) := by
  obtain ⟨look, hlook, rfl, hlooking, hclear⟩ := h
  unfold SeenClear
  rw [lookOf_append_singleton, hlook]
  simp only [Look.next, Option.map_some, hlooking, Bool.true_and]
  refine ⟨_, rfl, ?_⟩
  cases hhealth : health policy look.began model observation with
  | usable =>
      rw [if_pos (health_rested hhealth)]
      refine ⟨rfl, rfl, fun m hm => ?_⟩
      rcases List.mem_append.mp hm with hold | hnew
      · exact List.mem_cons_of_mem _ (hclear m hold)
      · rw [List.mem_singleton.mp hnew]
        exact List.mem_cons_self
  | denied reason retryAt cooldown =>
      split
      · exact ⟨rfl, rfl, fun m hm => List.mem_cons_of_mem _ (hclear m hm)⟩
      · exact ⟨rfl, hlooking, hclear⟩

namespace Programs

variable {owner : Option Lease} {manager : ContinuityManager} {call : InferenceCall}

omit [Platform] in
theorem unselecting_clear {α : Type} {p : InferenceProg α} (hp : p.Uses Unselecting) :
    Traced SelectsClear p (fun _ _ => True) (fun _ _ => True) l :=
  Traced.of_uses (K := fun _ => True) (fun _ _ _ hr => hr.selectsClear)
    (fun _ _ _ _ _ => trivial) hp trivial

omit [Platform] in
theorem bookkeeping_unselecting (r : InferenceStep) (h : Bookkeeping r) : Unselecting r := by
  intro backendId
  cases r with
  | event owner task note =>
      cases note with
      | selected modelId selected previous => cases h
      | _ => rfl
  | _ => rfl

omit [Platform] in
theorem bookkeeping_clear {α : Type} {p : InferenceProg α} (hp : p.Uses Bookkeeping) :
    Traced SelectsClear p (fun _ _ => True) (fun _ _ => True) l :=
  unselecting_clear (hp.mono bookkeeping_unselecting)

omit [Platform] in
theorem scan_clear {excluded : Dict String} {now : ℚ} {models : List ModelRef} {found : Scan}
    (h : SeenClear now found l) :
    Traced SelectsClear (scan manager excluded now models found)
      (fun found l => SeenClear now found l) (fun _ _ => True) l := by
  induction models generalizing found l with
  | nil => exact h
  | cons model rest ih =>
      unfold scan
      split
      next => exact ih h
      next =>
        split
        next => exact ih h
        next =>
          refine .bind (.call (Unselecting.selectsClear fun _ => rfl) (fun observation => ?_)
            fun _ => trivial)
          exact ih h.judged

theorem useRoute_clear {excluded : Dict String} {previous : Option String} {selected : ModelRef}
    {look : Look} (hlook : lookOf l = some look) (hclear : selected.providerId ∈ look.clear) :
    Traced SelectsClear (useRoute manager owner call excluded previous selected)
      (fun _ _ => True) (fun _ _ => True) l := by
  refine .bind (.call (fun backendId hselects => ?_) (fun _ => ?_) fun _ => trivial)
  · obtain rfl := beq_iff_eq.mp hselects
    exact ⟨look, hlook, hclear⟩
  · refine .bind (.call (Unselecting.selectsClear fun _ => rfl) (fun _ => ?_) fun _ => trivial)
    refine .bind (.mono (unselecting_clear (callSelected_isCall.mono ?_)) (fun answer _ _ => ?_)
      fun _ _ _ => trivial)
    · rintro r ⟨adapter, request, rfl, -⟩ backendId
      rfl
    · exact bookkeeping_clear (afterCall_bookkeeping answer)

theorem inferRound_clear {excluded : Dict String} {previous : Option String} :
    Traced SelectsClear (inferRound manager owner call excluded previous)
      (fun _ _ => True) (fun _ _ => True) l := by
  refine .bind (.call (Unselecting.selectsClear fun _ => rfl) (fun now => ?_) fun _ => trivial)
  refine .bind (.ofExcept (fun candidates _ => ?_) fun _ _ => trivial)
  have hseen : SeenClear now ⟨[], [], [], candidates.2⟩ (l ++ [⟨.clock .iteration, .ok now⟩]) :=
    ⟨⟨now, true, []⟩, by rw [lookOf_append_singleton]; rfl, rfl, rfl, by simp⟩
  refine .bind (.mono (scan_clear hseen) (fun found l hfound => ?_) fun _ _ _ => trivial)
  obtain ⟨look, hlook, -, -, hclear⟩ := hfound
  refine .bind (.call (Unselecting.selectsClear fun _ => rfl) (fun _ => ?_) fun _ => trivial)
  cases husable : found.usable with
  | nil =>
      exact .bind (.mono (bookkeeping_clear noRoute_bookkeeping) (fun _ _ _ => trivial)
        fun _ _ _ => trivial)
  | cons selected rest =>
      refine .bind (.bind (.call (Unselecting.selectsClear fun _ => rfl) (fun time => ?_)
        fun _ => trivial))
      refine .call (Unselecting.selectsClear fun _ => rfl) (fun retryAt => ?_) fun _ => trivial
      cases retryAt with
      | some time =>
          exact .bind (.mono (bookkeeping_clear outcome_bookkeeping) (fun _ _ _ => trivial)
            fun _ _ _ => trivial)
      | none =>
          have hchosen : selected.providerId ∈ Look.clear { look with looking := false } :=
            hclear selected (husable ▸ List.mem_cons_self)
          refine useRoute_clear ?_ hchosen
          rw [lookOf_append_singleton, lookOf_append_singleton, lookOf_append_singleton, hlook]
          rfl

theorem inferRounds_clear (n : ℕ) (excluded : Dict String) (previous : Option String)
    (l : List (Exchange InferenceStep.Reply Fault)) :
    Traced SelectsClear (inferRounds manager owner call n excluded previous)
      (fun _ _ => True) (fun _ _ => True) l := by
  induction n generalizing excluded previous l with
  | zero => trivial
  | succ n ih =>
      refine .bind (.mono inferRound_clear (fun round l _ => ?_) fun _ _ _ => trivial)
      cases round with
      | done ended => trivial
      | again excluded previous => exact ih excluded previous l

theorem continuityInfer_clear (rounds : ℕ) :
    Traced SelectsClear (continuityInfer manager owner call rounds)
      (fun _ _ => True) (fun _ _ => True) l := by
  refine .ite (fun _ => ?_) fun _ => inferRounds_clear rounds [] none l
  exact .bind (.mono (bookkeeping_clear outcome_bookkeeping) (fun _ _ _ => trivial)
    fun _ _ _ => trivial)

end Programs

/-! ## Runs that cut no cooldown short -/

/-- Any number of calls of `infer`, by any managers, on any ledger. -/
def anyInference : Rules inferenceMachine :=
  { inferenceRun fun _ => True with start := fun _ => True }

/-- The cooldown that an event commits for a backend. -/
def cools (backendId : String) : Event InferenceStep.Reply Fault → Option ℚ
  | .call _ (.observe _ _ observed _ _ _ cooldownUntil) (.ok _) =>
      if observed = backendId then cooldownUntil else none
  | _ => none

/-- A cooldown until `time` was committed, and it has not ended, or a process still looks at the
candidates in a round that began after the commit and before the end. -/
def Binding (backendId : String) (time : ℚ) (s : System inferenceMachine) : Prop :=
  ∃ before e after, s.snap.log = before ++ e :: after ∧ cools backendId e = some time ∧
    (s.snap.state.now < time ∨ ∃ pid look, s.Live pid ∧
      lookOf (exchanges pid after) = some look ∧ look.looking = true ∧ look.began < time)

/-- A step that commits an observation leaves every binding cooldown of its backend as long. -/
def Spares (s s' : System inferenceMachine) : Prop :=
  ∀ pid owner taskId backendId state reason observedAt cooldownUntil time,
    s'.snap.log = s.snap.log ++ [.call pid (.observe owner taskId backendId state reason
      observedAt cooldownUntil) (.ok ())] →
    Binding backendId time s → ∃ t ∈ cooldownUntil, time ≤ t

/-- After a cooldown until `time` was committed, no round that began before `time` has selected
the backend. -/
def RespectsCooldowns (s : System inferenceMachine) : Prop :=
  ∀ before e after pid r reply rest backendId time look,
    s.snap.log = before ++ e :: after ++ .call pid r reply :: rest →
    cools backendId e = some time → r.selects backendId = true →
    lookOf (exchanges pid after) = some look → time ≤ look.began

/-- The row of the backend has a cooldown until `time` or longer. -/
def InferenceWorld.CoolsUntil (w : InferenceWorld) (backendId : String) (time : ℚ) : Prop :=
  ∃ row, w.backends.get? backendId = some row ∧ ∃ t ∈ row.cooldownUntil, time ≤ t

/-- The time has come, and nobody looks with an earlier reading. -/
structure Ended (time : ℚ) (after : List (Event InferenceStep.Reply Fault))
    (s : System inferenceMachine) : Prop where
  now : time ≤ s.snap.state.now
  looking : ∀ pid look, s.Live pid → lookOf (exchanges pid after) = some look →
    look.looking = true → time ≤ look.began

/-- What a committed cooldown leaves behind as long as it is spared: it is in the row, or it has
ended; and whoever found the backend clear in a round begun later did so with a reading from its
end on. -/
structure Kept (backendId : String) (time : ℚ) (after : List (Event InferenceStep.Reply Fault))
    (s : System inferenceMachine) : Prop where
  row : s.snap.state.CoolsUntil backendId time ∨ Ended time after s
  clear : ∀ pid look, lookOf (exchanges pid after) = some look → backendId ∈ look.clear →
    time ≤ look.began

def KeepsCooldowns (s : System inferenceMachine) : Prop :=
  ∀ before e after backendId time, s.snap.log = before ++ e :: after →
    cools backendId e = some time → Kept backendId time after s

/-! ### What one exchange does to a look -/

omit [Platform] in
theorem Look.next_looking {look : Option Look} {x : Exchange InferenceStep.Reply Fault}
    {look' : Look} (h : Look.next look x = some look') (hlooking : look'.looking = true) :
    (∃ now : ℚ, x = ⟨.clock .iteration, .ok now⟩ ∧ look'.began = now) ∨
      ∃ old, look = some old ∧ old.looking = true ∧ old.began = look'.began := by
  unfold Look.next at h
  split at h
  · cases h
    exact .inl ⟨_, rfl, rfl⟩
  · obtain ⟨old, rfl, rfl⟩ := Option.map_eq_some_iff.mp h
    split at hlooking
    next hclear => exact .inr ⟨old, rfl, hlooking, by rw [if_pos hclear]⟩
    next hclear => exact .inr ⟨old, rfl, hlooking, by rw [if_neg hclear]⟩
  · obtain ⟨old, rfl, rfl⟩ := Option.map_eq_some_iff.mp h
    cases hlooking
  · exact .inr ⟨look', h, hlooking, rfl⟩

omit [Platform] in
theorem Look.next_clear {look : Option Look} {x : Exchange InferenceStep.Reply Fault}
    {look' : Look} (h : Look.next look x = some look') (hclear : backendId ∈ look'.clear) :
    ∃ old, look = some old ∧ old.began = look'.began ∧ (backendId ∈ old.clear ∨
      old.looking = true ∧ ∃ row, x = ⟨.observation backendId, .ok row⟩ ∧
        rested old.began row = true) := by
  unfold Look.next at h
  split at h
  · cases h
    cases hclear
  · obtain ⟨old, rfl, rfl⟩ := Option.map_eq_some_iff.mp h
    split at hclear
    next hrested =>
      refine ⟨old, rfl, by rw [if_pos hrested], ?_⟩
      obtain ⟨hlooking, hrow⟩ := Bool.and_eq_true_iff.mp hrested
      rcases List.mem_cons.mp hclear with rfl | hold
      · exact .inr ⟨hlooking, _, rfl, hrow⟩
      · exact .inl hold
    next hrested => exact ⟨old, rfl, by rw [if_neg hrested], .inl hclear⟩
  · obtain ⟨old, rfl, rfl⟩ := Option.map_eq_some_iff.mp h
    exact ⟨old, rfl, rfl, .inl hclear⟩
  · exact ⟨look', h, rfl, .inl hclear⟩

omit [Platform] in
/-- A row with a cooldown until `time` is not clear before. -/
theorem InferenceWorld.CoolsUntil.rested {w : InferenceWorld} {time now : ℚ}
    (h : w.CoolsUntil backendId time) (hrested : rested now (w.backends.get? backendId) = true) :
    time ≤ now := by
  obtain ⟨row, hrow, t, ht, hle⟩ := h
  simp only [Dante.rested, hrow, Option.bind_some, Option.mem_def.mp ht, Option.all_some,
    decide_eq_true_eq] at hrested
  exact hle.trans hrested

omit [Platform] in
theorem InferenceWorld.CoolsUntil.of_backends {w w' : InferenceWorld} {time : ℚ}
    (h : w.CoolsUntil backendId time)
    (hsame : w'.backends.get? backendId = w.backends.get? backendId) :
    w'.CoolsUntil backendId time := by
  unfold CoolsUntil
  rw [hsame]
  exact h

/-! ### Steps -/

variable {R : Rules inferenceMachine} {s s' : System inferenceMachine} {time : ℚ}
  {after : List (Event InferenceStep.Reply Fault)}

theorem Ended.of_not_binding {before : List (Event InferenceStep.Reply Fault)}
    {e : Event InferenceStep.Reply Fault} (hlog : s.snap.log = before ++ e :: after)
    (he : cools backendId e = some time) (h : ¬Binding backendId time s) : Ended time after s := by
  refine ⟨not_lt.mp fun hnow => h ⟨before, e, after, hlog, he, .inl hnow⟩, ?_⟩
  intro pid look hlive hlook hlooking
  exact not_lt.mp fun hbegan =>
    h ⟨before, e, after, hlog, he, .inr ⟨pid, look, hlive, hlook, hlooking, hbegan⟩⟩

omit [Platform] in
/-- What a request changes of the looks since a commit is the look of its own process. -/
theorem lookOf_call {pid other : ℕ} {r : InferenceStep} {reply : Except Fault r.Reply} {look : Look}
    (h : lookOf (exchanges other (after ++ [.call pid r reply])) = some look) :
    lookOf (exchanges other after) = some look ∨
      other = pid ∧ Look.next (lookOf (exchanges pid after)) ⟨r, reply⟩ = some look := by
  rw [exchanges_append] at h
  by_cases hpid : pid = other
  · subst hpid
    rw [exchanges_call, lookOf_append_singleton] at h
    exact .inr ⟨rfl, h⟩
  · rw [exchanges_of_ne (e := .call pid r reply) hpid, List.append_nil] at h
    exact .inl h

/-- What has ended stays so: a round that begins now reads the clock after the end. -/
theorem Ended.call {pid : ℕ} {r : InferenceStep} {next : Except Fault r.Reply → InferenceProg Unit}
    {reply : Except Fault r.Reply} {env : Providers} {w : InferenceWorld}
    (hthread : s.threads[pid]? = some (some (.request r next)))
    (hperform : r.perform env s.snap.state = (reply, w)) (h : Ended time after s) :
    Ended time (after ++ [.call pid r reply])
      ⟨s.snap.after w (.call pid r reply), s.threads.set pid (some (next reply))⟩ := by
  have hnow := (perform_effect hperform).now_le
  refine ⟨h.now.trans hnow, fun other look hlive hlook hlooking => ?_⟩
  rcases lookOf_call hlook with hold | ⟨rfl, hnext⟩
  · refine h.looking other look ?_ hold hlooking
    by_cases hother : pid = other
    · subst hother
      exact ⟨r, next, hthread⟩
    · obtain ⟨r', next', hthread'⟩ := hlive
      exact ⟨r', next', by rwa [List.getElem?_set_ne hother] at hthread'⟩
  · rcases Look.next_looking hnext hlooking with ⟨now, hx, hbegan⟩ | ⟨old, hold, hwas, hbegan⟩
    · cases hx
      cases hperform
      rw [hbegan]
      exact h.now.trans (le_max_left _ _)
    · rw [← hbegan]
      exact h.looking other old ⟨r, next, hthread⟩ hold hwas

/-- An exchange that is spared keeps the cooldown in its row, or finds it ended. -/
theorem coolsUntil_call {pid : ℕ} {r : InferenceStep} {reply : Except Fault r.Reply}
    {env : Providers} {w : InferenceWorld} {threads : List (Option (InferenceProg Unit))}
    (hperform : r.perform env s.snap.state = (reply, w))
    (hspares : Spares s ⟨s.snap.after w (.call pid r reply), threads⟩)
    (h : s.snap.state.CoolsUntil backendId time) :
    w.CoolsUntil backendId time ∨ ¬Binding backendId time s := by
  cases perform_effect hperform with
  | none _ hbackends _ _ => exact .inl (h.of_backends (by rw [hbackends]))
  | reserved _ _ hbackends _ => exact .inl (h.of_backends (by rw [hbackends]))
  | concluded _ _ _ hbackends _ _ => exact .inl (h.of_backends (by rw [hbackends]))
  | @observed owner guarded observed state reason observedAt cooldownUntil hbackends _ _ =>
      by_cases hobserved : backendId = observed
      · subst hobserved
        refine or_iff_not_imp_right.mpr fun hbinding => ?_
        obtain ⟨t, ht, hle⟩ := hspares _ _ _ _ _ _ _ _ time rfl (not_not.mp hbinding)
        exact ⟨_, (hbackends backendId).trans (if_pos rfl), t, ht, hle⟩
      · exact .inl (h.of_backends ((hbackends backendId).trans (if_neg hobserved)))

/-- A process that finds the backend clear in a later round reads a row whose cooldown is in it
or has ended. -/
theorem clear_call {pid other : ℕ} {r : InferenceStep} {next : Except Fault r.Reply → InferenceProg Unit}
    {reply : Except Fault r.Reply} {env : Providers} {w : InferenceWorld} {look : Look}
    (hthread : s.threads[pid]? = some (some (.request r next)))
    (hperform : r.perform env s.snap.state = (reply, w)) (h : Kept backendId time after s)
    (hlook : lookOf (exchanges other (after ++ [.call pid r reply])) = some look)
    (hclear : backendId ∈ look.clear) : time ≤ look.began := by
  rcases lookOf_call hlook with hold | ⟨rfl, hnext⟩
  · exact h.clear other look hold hclear
  · obtain ⟨old, hold, hbegan, hwas | ⟨hlooking, row, hx, hrested⟩⟩ := Look.next_clear hnext hclear
    · exact hbegan ▸ h.clear other old hold hwas
    · cases hx
      cases hperform
      rw [← hbegan]
      rcases h.row with hcools | hended
      · exact hcools.rested hrested
      · exact hended.looking other old ⟨_, next, hthread⟩ hold hlooking

theorem Kept.call {before : List (Event InferenceStep.Reply Fault)}
    {e : Event InferenceStep.Reply Fault} {pid : ℕ} {r : InferenceStep}
    {next : Except Fault r.Reply → InferenceProg Unit} {reply : Except Fault r.Reply}
    {env : Providers} {w : InferenceWorld} (hlog : s.snap.log = before ++ e :: after)
    (he : cools backendId e = some time)
    (hthread : s.threads[pid]? = some (some (.request r next)))
    (hperform : r.perform env s.snap.state = (reply, w))
    (hspares : Spares s
      ⟨s.snap.after w (.call pid r reply), s.threads.set pid (some (next reply))⟩)
    (h : Kept backendId time after s) :
    Kept backendId time (after ++ [.call pid r reply])
      ⟨s.snap.after w (.call pid r reply), s.threads.set pid (some (next reply))⟩ := by
  refine ⟨?_, fun other look hlook hclear => clear_call hthread hperform h hlook hclear⟩
  rcases h.row with hcools | hended
  · rcases coolsUntil_call hperform hspares hcools with hcools | hbinding
    · exact .inl hcools
    · exact .inr ((Ended.of_not_binding hlog he hbinding).call hthread hperform)
  · exact .inr (hended.call hthread hperform)

/-- A step without an exchange. -/
theorem Kept.quiet (hknown : ∀ e ∈ after, e.pid < s.threads.length)
    {new : List (Event InferenceStep.Reply Fault)} (hnew : ∀ pid, exchanges pid new = [])
    (hstep : Step R s s') (hbackends : s'.snap.state.backends = s.snap.state.backends)
    (hnow : s'.snap.state.now = s.snap.state.now) (h : Kept backendId time after s) :
    Kept backendId time (after ++ new) s' := by
  have hsame (pid : ℕ) : exchanges pid (after ++ new) = exchanges pid after := by
    rw [exchanges_append, hnew, List.append_nil]
  refine ⟨?_, fun pid look hlook => h.clear pid look (hsame pid ▸ hlook)⟩
  rcases h.row with hcools | hended
  · exact .inl (hcools.of_backends (by rw [hbackends]))
  · refine .inr ⟨hnow ▸ hended.now, fun pid look hlive hlook => ?_⟩
    rw [hsame] at hlook
    rcases hstep.live hlive with hlive | rfl
    · exact hended.looking pid look hlive hlook
    · rw [exchanges_of_unknown fun e he => Nat.ne_of_lt (hknown e he)] at hlook
      cases hlook

/-- A cooldown that was just committed is in its row. -/
theorem Kept.committed {pid : ℕ} {r : InferenceStep} {reply : Except Fault r.Reply}
    {env : Providers} (hperform : r.perform env s.snap.state = (reply, s'.snap.state))
    (he : cools backendId (.call pid r reply) = some time) : Kept backendId time [] s' := by
  refine ⟨.inl ?_, fun pid look hlook => by cases hlook⟩
  cases r with
  | observe owner taskId observed state reason observedAt cooldownUntil =>
      cases reply with
      | error fault => cases he
      | ok u =>
          obtain ⟨rfl, rfl⟩ := Option.ite_none_right_eq_some.mp he
          obtain ⟨hbackends, -, -⟩ := observe_ok (InferenceWorld.commit_ok hperform)
          exact ⟨_, (hbackends observed).trans (if_pos rfl), time, rfl, le_refl time⟩
  | _ => cases he

theorem KeepsCooldowns.step (hreach : Reachable R s) (h : KeepsCooldowns s) (hstep : Step R s s')
    (hspares : Spares s s') : KeepsCooldowns s' := by
  intro before e after backendId time hlog he
  have hknown {before after : List (Event InferenceStep.Reply Fault)}
      {e : Event InferenceStep.Reply Fault} (hlog : s.snap.log = before ++ e :: after) :
      ∀ e' ∈ after, e'.pid < s.threads.length :=
    fun e' he' => hreach.traces.known e' (by rw [hlog]; simp [he'])
  have hwhole := hstep
  cases hstep with
  | drift state hdrift =>
      have hkept : Kept backendId time (after ++ []) _ :=
        (h before e after backendId time hlog he).quiet (hknown hlog) (fun _ => rfl) hwhole
          hdrift.backends hdrift.now
      rwa [List.append_nil] at hkept
  | spawn p hp =>
      rcases split_snoc hlog with ⟨rest, rfl, hold⟩ | ⟨rfl, -, rfl⟩
      · exact (h before e rest backendId time hold he).quiet (hknown hold)
          (fun _ => exchanges_spawn _ _) hwhole rfl rfl
      · cases he
  | crash pid hpid =>
      rcases split_snoc hlog with ⟨rest, rfl, hold⟩ | ⟨rfl, -, rfl⟩
      · exact (h before e rest backendId time hold he).quiet (hknown hold)
          (fun _ => exchanges_crash _ _) hwhole rfl rfl
      · cases he
  | call pid r next env reply state hthread hadmits hperform =>
      rcases split_snoc hlog with ⟨rest, rfl, hold⟩ | ⟨rfl, -, rfl⟩
      · exact (h before e rest backendId time hold he).call hold he hthread hperform hspares
      · exact Kept.committed hperform he

/-! ### Runs -/

/-- Any number of steps that spare the cooldowns. -/
abbrev SparingSteps : System inferenceMachine → System inferenceMachine → Prop :=
  Relation.ReflTransGen fun s s' => Step anyInference s s' ∧ Spares s s'

theorem anyInference_traced {p : InferenceProg Unit} (hp : anyInference.program p) :
    Traced SelectsClear p (fun _ _ => True) (fun _ _ => True) [] := by
  obtain ⟨manager, owner, call, rounds, -, rfl⟩ := hp
  exact .bind (.mono (continuityInfer_clear rounds) (fun _ _ _ => trivial) fun _ _ _ => trivial)

/-- A selection finds every cooldown of its backend kept, and has itself found the backend
clear. -/
theorem RespectsCooldowns.step (hreach : Reachable anyInference s) (hkeeps : KeepsCooldowns s)
    (h : RespectsCooldowns s) (hstep : Step anyInference s s') : RespectsCooldowns s' := by
  intro before e after pid r reply rest backendId time look hlog he hselects hlook
  have hreach' := hreach.step hstep
  rcases hstep.log_cases with hsame | ⟨x, hx⟩
  · rw [hsame] at hlog
    exact h before e after pid r reply rest backendId time look hlog he hselects hlook
  · rw [hx] at hlog
    rcases split_snoc hlog with ⟨rest, rfl, hold⟩ | ⟨rfl, hsplit, rfl⟩
    · exact h before e after pid r reply rest backendId time look hold he hselects hlook
    · obtain ⟨seen, hseen, hclear⟩ := hreach'.traced (fun p hp => anyInference_traced hp) hx
        backendId hselects
      rw [hsplit, List.append_cons, exchanges_append, lookOf_append hlook] at hseen
      cases hseen
      exact (hkeeps before e after backendId time hsplit he).clear pid look hlook hclear

/-- Any number of calls of `infer`, by any tasks and managers, crashes included. In every run
whose steps spare the binding cooldowns, no round selects a backend that began, after a cooldown
of the backend was committed, with a reading of the clock before the cooldown's end. -/
theorem cooldown_respected (w : InferenceWorld) (h : SparingSteps ⟨⟨w, []⟩, []⟩ s) :
    RespectsCooldowns s := by
  have hinv : Reachable anyInference s ∧ KeepsCooldowns s ∧ RespectsCooldowns s := by
    induction h with
    | refl =>
        refine ⟨Reachable.start (R := anyInference) w trivial, ?_, ?_⟩
        · intro before e after backendId time hlog
          simp at hlog
        · intro before e after pid r reply rest backendId time look hlog
          simp at hlog
    | tail _ hstep ih =>
        obtain ⟨hreach, hkeeps, hrespects⟩ := ih
        exact ⟨hreach.step hstep.1, hkeeps.step hreach hstep.1 hstep.2,
          hrespects.step hreach hkeeps hstep.1⟩
  exact hinv.2.2

end Runs

section Cut

local instance cooldownPlatform : Platform := .reference []

/-- The provider answers that its rate limit is reached, and that it is to be asked again after
two minutes. -/
def Sample.limits : Providers :=
  Sample.providers 0 fun _ => .error (.inference
    { cls := .rateLimitUnavailable, message := "", retryAfter := some 120 })

/-- One process has seen the provider's rate limit, and is about to record it. -/
def Sample.limited : System inferenceMachine :=
  ((Sample.quiet ["cloud"]).started (Sample.infer ["cloud"] 1)).driven 0
    (List.replicate 12 Sample.limits)

/-- It has recorded it, and another process finds no route. -/
def Sample.waiting : System inferenceMachine :=
  ((Sample.limited.driven 0 [Sample.limits]).started (Sample.infer ["cloud"] 1)).driven 1
    (List.replicate 4 (Sample.answers 0))

/-- Two processes call the provider. The first is told to wait for two minutes, the second is
answered, and a third selects the provider at once. -/
def Sample.hurried : System inferenceMachine :=
  (((((((Sample.quiet ["cloud"]).started (Sample.infer ["cloud"] 1)).driven 0
    (List.replicate 7 Sample.limits)).started (Sample.infer ["cloud"] 1)).driven 1
    (List.replicate 7 (Sample.answers 0))).driven 0 (List.replicate 6 Sample.limits)).driven 1
    (List.replicate 4 (Sample.answers 0))).started (Sample.infer ["cloud"] 1) |>.driven 2
    (List.replicate 6 (Sample.answers 0))

/-- The event at `i` commits a cooldown of two minutes, and the one after `k` more selects the
backend in a round that began in between, before the cooldown's end. -/
def Sample.slighted (i k : ℕ) (log : List (Event InferenceStep.Reply Fault)) : Bool :=
  match log.drop i with
  | [] => false
  | e :: later =>
      match later.drop k with
      | .call pid r _ :: _ => cools "cloud" e == some 120 && r.selects "cloud" &&
          (lookOf (exchanges pid (later.take k))).any fun look => look.began < 120
      | _ => false

theorem Sample.slighted_spec {i k : ℕ} {s : System inferenceMachine}
    (h : Sample.slighted i k s.snap.log = true) : ¬RespectsCooldowns s := by
  intro hrespects
  unfold slighted at h
  split at h
  next => cases h
  next e later hlater =>
    split at h
    next pid r reply rest hrest =>
      simp only [Bool.and_eq_true, beq_iff_eq, Option.any_eq_true, decide_eq_true_eq] at h
      obtain ⟨⟨he, hselects⟩, look, hlook, hbegan⟩ := h
      have hlog : s.snap.log = s.snap.log.take i ++ e :: later.take k ++ .call pid r reply :: rest := by
        rw [← hrest, List.append_assoc, List.cons_append, List.take_append_drop, ← hlater,
          List.take_append_drop]
      exact absurd (hrespects _ e _ pid r reply rest "cloud" 120 look hlog he hselects hlook)
        (not_le.mpr hbegan)
    next => cases h

theorem Sample.begun_step (s : System inferenceMachine) :
    Step anyInference s (s.started (Sample.infer ["cloud"] 1)) :=
  .spawn s _ ⟨Sample.manager ["cloud"], none, Sample.call, 1, trivial, rfl⟩

theorem Sample.going_steps (s : System inferenceMachine) (pid : ℕ) (envs : List Providers) :
    Steps anyInference s (s.driven pid envs) :=
  .driven (fun _ _ _ => trivial) s pid envs

theorem Sample.hurried_reachable : Reachable anyInference Sample.hurried :=
  ((((((((Reachable.start (R := anyInference) (Sample.quiet ["cloud"]).snap.state trivial).step
    (Sample.begun_step _)).steps (Sample.going_steps _ 0 _)).step (Sample.begun_step _)).steps
    (Sample.going_steps _ 1 _)).steps (Sample.going_steps _ 0 _)).steps
    (Sample.going_steps _ 1 _)).step (Sample.begun_step _)).steps (Sample.going_steps _ 2 _)

/-- Whoever is answered last decides: a success of a call that was already on its way clears the
cooldown, and the next round selects the backend before its end. -/
theorem cooldown_cut : ∃ s, Reachable anyInference s ∧ ¬RespectsCooldowns s :=
  ⟨Sample.hurried, Sample.hurried_reachable, Sample.slighted_spec (i := 21) (k := 10)
    (by decide +kernel)⟩

/-- The request records an observation. -/
def InferenceStep.observes : InferenceStep → Bool
  | .observe .. => true
  | _ => false

theorem Spares.of_unobserving {s s' : System inferenceMachine}
    (h : Passes (fun _ r _ => !r.observes) s s') : Spares s s' := by
  intro pid owner taskId backendId state reason observedAt cooldownUntil time hlog
  cases h pid _ _ hlog

/-- Where nothing was observed yet, nothing is cut short. -/
theorem Spares.of_unobserved {s s' : System inferenceMachine}
    (h : s.snap.log.all (fun e => !e.made fun x => x.1.observes) = true) : Spares s s' := by
  rintro pid owner taskId backendId state reason observedAt cooldownUntil time -
    ⟨before, e, after, hlog, he, -⟩
  rw [List.all_eq_true] at h
  have hnone := h e (by rw [hlog]; simp)
  cases e with
  | call pid r reply =>
      cases r with
      | observe => cases hnone
      | _ => cases he
  | _ => cases he

theorem Sample.unobserving_steps {s : System inferenceMachine} {pid : ℕ} {envs : List Providers}
    (h : s.drivenPasses (fun _ r _ => !r.observes) pid envs = true) :
    SparingSteps s (s.driven pid envs) := by
  refine Relation.ReflTransGen.mono ?_ _ _
    (Steps.drivenPasses (R := anyInference) (fun _ _ _ => trivial) h)
  rintro s s' ⟨hstep, hpasses⟩
  exact ⟨hstep, .of_unobserving hpasses⟩

theorem Sample.started_steps (s : System inferenceMachine) :
    SparingSteps s (s.started (Sample.infer ["cloud"] 1)) :=
  .single ⟨Sample.begun_step s, .of_unobserving (Passes.spawn s _)⟩

theorem Sample.recorded_steps :
    SparingSteps Sample.limited (Sample.limited.driven 0 [Sample.limits]) := by
  have hnone : Sample.limited.snap.log.all (fun e => !e.made fun x => x.1.observes) = true := by
    decide +kernel
  generalize Sample.limited = s at hnone ⊢
  unfold System.driven
  split
  next r next hthread =>
    exact .single ⟨.call s 0 r next Sample.limits _ _ hthread trivial rfl, .of_unobserved hnone⟩
  next => exact .refl

theorem cooldown_respected_waiting : RespectsCooldowns Sample.waiting :=
  cooldown_respected (Sample.quiet ["cloud"]).snap.state
    ((((((Relation.ReflTransGen.refl.trans (Sample.started_steps (Sample.quiet ["cloud"]))).trans
      (Sample.unobserving_steps (by decide +kernel))).trans Sample.recorded_steps).trans
      (Sample.started_steps _)).trans (Sample.unobserving_steps (by decide +kernel))))

end Cut

end Dante
