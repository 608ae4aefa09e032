import Dante.Library.System

/-! # Reasoning about one program among others

A protocol says what every reachable snapshot satisfies, what a program may assume of the
others while it waits, and what must hold when it issues a request. A program keeps the
protocol when each of its requests is permitted, whatever the others do in between. Then
every run of such programs keeps the invariant, and every request in it is permitted. -/

namespace Concurrent

variable {ι : Type} {ρ : ι → Type} {ε : Type} {M : Machine ρ ε}

structure Protocol (M : Machine ρ ε) where
  inv : Snapshot M → Prop
  rely : ℕ → Snapshot M → Snapshot M → Prop
  permit : ℕ → ι → Snapshot M → Prop

/-- The request `pid` issued, as an event that is not its own for anyone else. -/
structure Protocol.Sound (P : Protocol M) (R : Rules M) : Prop where
  refl : ∀ pid s, P.rely pid s s
  trans : ∀ {pid a b c}, P.rely pid a b → P.rely pid b c → P.rely pid a c
  start : ∀ st, R.start st → P.inv ⟨st, []⟩
  call : ∀ {s pid r env reply st}, P.inv s → R.admits pid r s → P.permit pid r s →
    M.perform env r s.state = (reply, st) →
      P.inv (s.after st (.call pid r reply)) ∧
        ∀ other, other ≠ pid → .crash other ∉ s.log →
          P.rely other s (s.after st (.call pid r reply))
  spawn : ∀ {s} pid, P.inv s → P.inv (s.after s.state (.spawn pid)) ∧
    ∀ other, other ≠ pid → P.rely other s (s.after s.state (.spawn pid))
  crash : ∀ {s} pid, P.inv s → P.inv (s.after s.state (.crash pid)) ∧
    ∀ other, other ≠ pid → P.rely other s (s.after s.state (.crash pid))
  drift : ∀ {s st}, P.inv s → M.drift s.state st → P.inv ⟨st, s.log⟩ ∧
    ∀ other, P.rely other s ⟨st, s.log⟩

section Safe

variable (P : Protocol M) (R : Rules M) (pid : ℕ) {α β : Type}

/-- From `s` on, each request of the program is permitted, and it ends in `Q` or `E`. -/
def Safe : Program ρ ε α → (α → Snapshot M → Prop) → (ε → Snapshot M → Prop) →
    Snapshot M → Prop
  | .ret a, Q, _, s => Q a s
  | .raise e, _, E, s => E e s
  | .request r next, Q, E, s =>
      ∀ s₀, P.rely pid s s₀ → P.inv s₀ → R.admits pid r s₀ →
        P.permit pid r s₀ ∧
          ∀ env reply st, M.perform env r s₀.state = (reply, st) →
            Safe (next reply) Q E (s₀.after st (.call pid r reply))

variable {P R pid}

theorem Safe.mono {p : Program ρ ε α} {Q Q' : α → Snapshot M → Prop}
    {E E' : ε → Snapshot M → Prop} {s : Snapshot M} (h : Safe P R pid p Q E s)
    (hQ : ∀ a s, Q a s → Q' a s) (hE : ∀ e s, E e s → E' e s) : Safe P R pid p Q' E' s := by
  induction p generalizing s with
  | ret a => exact hQ a s h
  | raise e => exact hE e s h
  | request r next ih =>
      intro s₀ hrely hinv hadmits
      obtain ⟨hpermit, hnext⟩ := h s₀ hrely hinv hadmits
      exact ⟨hpermit, fun env reply st hp => ih reply (hnext env reply st hp)⟩

theorem Safe.bind {p : Program ρ ε α} {f : α → Program ρ ε β} {Q : β → Snapshot M → Prop}
    {E : ε → Snapshot M → Prop} {s : Snapshot M}
    (h : Safe P R pid p (fun a s => Safe P R pid (f a) Q E s) E s) :
    Safe P R pid (p.bind f) Q E s := by
  induction p generalizing s with
  | ret a => exact h
  | raise e => exact h
  | request r next ih =>
      intro s₀ hrely hinv hadmits
      obtain ⟨hpermit, hnext⟩ := h s₀ hrely hinv hadmits
      exact ⟨hpermit, fun env reply st hp => ih reply (hnext env reply st hp)⟩

theorem Safe.except {p : Program ρ ε α} {handler : ε → Program ρ ε α}
    {Q : α → Snapshot M → Prop} {E : ε → Snapshot M → Prop} {s : Snapshot M}
    (h : Safe P R pid p Q (fun e s => Safe P R pid (handler e) Q E s) s) :
    Safe P R pid (p.except handler) Q E s := by
  induction p generalizing s with
  | ret a => exact h
  | raise e => exact h
  | request r next ih =>
      intro s₀ hrely hinv hadmits
      obtain ⟨hpermit, hnext⟩ := h s₀ hrely hinv hadmits
      exact ⟨hpermit, fun env reply st hp => ih reply (hnext env reply st hp)⟩

/-- The cleanup follows both kinds of outcome. -/
theorem Safe.andFinally {p : Program ρ ε α} {cleanup : Program ρ ε Unit}
    {Q : α → Snapshot M → Prop} {E : ε → Snapshot M → Prop} {s : Snapshot M}
    (h : Safe P R pid p (fun a s => Safe P R pid cleanup (fun _ => Q a) E s)
      (fun e s => Safe P R pid cleanup (fun _ => E e) E s) s) :
    Safe P R pid (p.andFinally cleanup) Q E s := by
  refine Safe.bind (Safe.except (Safe.bind (h.mono ?_ ?_)))
  · exact fun a s ha => Safe.bind ha
  · exact fun e s he => Safe.bind he

/-- One request: it must be permitted, and both kinds of reply must be covered. -/
theorem Safe.call {r : ι} {Q : ρ r → Snapshot M → Prop} {E : ε → Snapshot M → Prop}
    {s : Snapshot M}
    (h : ∀ s₀, P.rely pid s s₀ → P.inv s₀ → R.admits pid r s₀ → P.permit pid r s₀ ∧
      (∀ env a st, M.perform env r s₀.state = (.ok a, st) →
        Q a (s₀.after st (.call pid r (.ok a)))) ∧
      ∀ env e st, M.perform env r s₀.state = (.error e, st) →
        E e (s₀.after st (.call pid r (.error e)))) :
    Safe P R pid (Program.call r) Q E s := by
  intro s₀ hrely hinv hadmits
  obtain ⟨hpermit, hok, herror⟩ := h s₀ hrely hinv hadmits
  refine ⟨hpermit, fun env reply st hp => ?_⟩
  cases reply with
  | ok a => exact hok env a st hp
  | error e => exact herror env e st hp

/-- Requests that are always permitted keep whatever they and the others keep. -/
theorem Safe.of_uses {allowed : ι → Prop} {K : Snapshot M → Prop}
    (hpermit : ∀ r s, allowed r → P.permit pid r s)
    (hrely : ∀ s s', P.rely pid s s' → K s → K s')
    (hown : ∀ {s r env reply st}, allowed r → K s → M.perform env r s.state = (reply, st) →
      K (s.after st (.call pid r reply)))
    {p : Program ρ ε α} (hp : p.Uses allowed) {s : Snapshot M} (hs : K s) :
    Safe P R pid p (fun _ => K) (fun _ => K) s := by
  induction p generalizing s with
  | ret a => exact hs
  | raise e => exact hs
  | request r next ih =>
      intro s₀ hrelied _ _
      refine ⟨hpermit r s₀ hp.1, fun env reply st hperform => ih reply (hp.2 reply) ?_⟩
      exact hown hp.1 (hrely s s₀ hrelied hs) hperform

/-- Requests that what is kept permits keep it. -/
theorem Safe.of_keeps {allowed : ι → Prop} {K : Snapshot M → Prop}
    (hpermit : ∀ {r s}, allowed r → K s → P.inv s → R.admits pid r s → P.permit pid r s)
    (hrely : ∀ s s', P.rely pid s s' → K s → K s')
    (hown : ∀ {s r env reply st}, allowed r → K s → P.inv s → R.admits pid r s →
      M.perform env r s.state = (reply, st) → K (s.after st (.call pid r reply)))
    {p : Program ρ ε α} (hp : p.Uses allowed) {s : Snapshot M} (hs : K s) :
    Safe P R pid p (fun _ => K) (fun _ => K) s := by
  induction p generalizing s with
  | ret a => exact hs
  | raise e => exact hs
  | request r next ih =>
      intro s₀ hrelied hinv hadmits
      have hkept := hrely s s₀ hrelied hs
      refine ⟨hpermit hp.1 hkept hinv hadmits, fun env reply st hperform => ?_⟩
      exact ih reply (hp.2 reply) (hown hp.1 hkept hinv hadmits hperform)

/-- What is known of the values alone is added to the postcondition. -/
theorem Safe.yields {p : Program ρ ε α} {G : α → Prop} {Q : α → Snapshot M → Prop}
    {E : ε → Snapshot M → Prop} {s : Snapshot M} (h : Safe P R pid p Q E s) (hp : p.Yields G) :
    Safe P R pid p (fun a s => G a ∧ Q a s) E s := by
  induction p generalizing s with
  | ret a => exact ⟨hp, h⟩
  | raise e => exact h
  | request r next ih =>
      intro s₀ hrely hinv hadmits
      obtain ⟨hpermit, hnext⟩ := h s₀ hrely hinv hadmits
      exact ⟨hpermit, fun env reply st hperform => ih reply (hnext env reply st hperform) (hp reply)⟩

theorem Safe.ofExcept {x : Except ε α} {Q : α → Snapshot M → Prop} {E : ε → Snapshot M → Prop}
    {s : Snapshot M} (hok : ∀ a, x = .ok a → Q a s) (herror : ∀ e, x = .error e → E e s) :
    Safe P R pid (Program.ofExcept x) Q E s := by
  cases x with
  | ok a => exact hok a rfl
  | error e => exact herror e rfl

/-- A program whose postcondition the others leave alone survives their moves. -/
theorem Safe.stable (hsound : P.Sound R) {p : Program ρ ε α} {Q : Snapshot M → Prop}
    (hQ : ∀ s s', P.rely pid s s' → Q s → Q s') {s s' : Snapshot M}
    (h : Safe P R pid p (fun _ => Q) (fun _ _ => True) s) (hrely : P.rely pid s s') :
    Safe P R pid p (fun _ => Q) (fun _ _ => True) s' := by
  cases p with
  | ret a => exact hQ s s' hrely h
  | raise e => trivial
  | request r next =>
      intro s₀ hrely' hinv hadmits
      exact h s₀ (hsound.trans hrely hrely') hinv hadmits

/-- A program that does not look at its own postcondition survives the others' moves. -/
theorem Safe.rely (hsound : P.Sound R) {p : Program ρ ε α} {s s' : Snapshot M}
    (h : Safe P R pid p (fun _ _ => True) (fun _ _ => True) s) (hrely : P.rely pid s s') :
    Safe P R pid p (fun _ _ => True) (fun _ _ => True) s' :=
  h.stable hsound (fun _ _ _ _ => trivial) hrely

end Safe

/-! ## Whole runs -/

/-- What a reachable system satisfies when all its programs keep the protocol. -/
structure System.Keeps (P : Protocol M) (R : Rules M) (s : System M) : Prop where
  inv : P.inv s.snap
  known : ∀ e ∈ s.snap.log, e.pid < s.threads.length
  alive : ∀ pid p, s.threads[pid]? = some (some p) → .crash pid ∉ s.snap.log
  safe : ∀ pid p, s.threads[pid]? = some (some p) →
    Safe P R pid p (fun _ _ => True) (fun _ _ => True) s.snap

variable {P : Protocol M} {R : Rules M}

private theorem keeps_spawn (hsound : P.Sound R)
    (hprogram : ∀ p, R.program p → ∀ pid s, P.inv s → (∀ e ∈ s.log, e.pid ≠ pid) →
      Safe P R pid p (fun _ _ => True) (fun _ _ => True) (s.after s.state (.spawn pid)))
    {s : System M} (h : s.Keeps P R) (p : Program ρ ε Unit) (hp : R.program p) :
    System.Keeps P R ⟨s.snap.after s.snap.state (.spawn s.threads.length),
      s.threads ++ [some p]⟩ := by
  obtain ⟨hinv, hrely⟩ := hsound.spawn s.threads.length h.inv
  have hold (pid : ℕ) (q : Program ρ ε Unit)
      (hq : (s.threads ++ [some p])[pid]? = some (some q)) :
      (pid < s.threads.length ∧ s.threads[pid]? = some (some q)) ∨
        (pid = s.threads.length ∧ q = p) := by
    rcases Nat.lt_trichotomy pid s.threads.length with hlt | heq | hgt
    · rw [List.getElem?_append_left hlt] at hq
      exact .inl ⟨hlt, hq⟩
    · subst heq
      simp at hq
      exact .inr ⟨rfl, hq.symm⟩
    · rw [List.getElem?_eq_none (by simp; omega)] at hq
      cases hq
  refine ⟨hinv, ?_, ?_, ?_⟩
  · intro e he
    simp only [Snapshot.after_log, List.mem_append, List.mem_singleton] at he
    simp only [List.length_append, List.length_singleton]
    rcases he with he | rfl
    · exact Nat.lt_succ_of_lt (h.known e he)
    · exact Nat.lt_succ_self _
  · intro pid q hq hcrash
    simp only [Snapshot.after_log, List.mem_append, List.mem_singleton, reduceCtorEq,
      or_false] at hcrash
    rcases hold pid q hq with ⟨-, hthread⟩ | ⟨rfl, -⟩
    · exact h.alive pid q hthread hcrash
    · exact absurd (h.known _ hcrash) (Nat.lt_irrefl _)
  · intro pid q hq
    rcases hold pid q hq with ⟨hlt, hthread⟩ | ⟨rfl, rfl⟩
    · exact (h.safe pid q hthread).rely hsound (hrely pid (Nat.ne_of_lt hlt))
    · exact hprogram q hp _ s.snap h.inv fun e he => Nat.ne_of_lt (h.known e he)

private theorem keeps_crash (hsound : P.Sound R) {s : System M} (h : s.Keeps P R) (pid : ℕ)
    (hpid : pid < s.threads.length) :
    System.Keeps P R ⟨s.snap.after s.snap.state (.crash pid), s.threads.set pid none⟩ := by
  obtain ⟨hinv, hrely⟩ := hsound.crash pid h.inv
  have hold (other : ℕ) (q : Program ρ ε Unit)
      (hq : (s.threads.set pid none)[other]? = some (some q)) :
      other ≠ pid ∧ s.threads[other]? = some (some q) := by
    by_cases heq : other = pid
    · subst heq
      rw [List.getElem?_set_self hpid] at hq
      simp at hq
    · rw [List.getElem?_set_ne (Ne.symm heq)] at hq
      exact ⟨heq, hq⟩
  refine ⟨hinv, ?_, ?_, ?_⟩
  · intro e he
    simp only [Snapshot.after_log, List.mem_append, List.mem_singleton] at he
    rw [List.length_set]
    rcases he with he | rfl
    · exact h.known e he
    · exact hpid
  · intro other q hq hcrash
    obtain ⟨hne, hthread⟩ := hold other q hq
    simp only [Snapshot.after_log, List.mem_append, List.mem_singleton, Event.crash.injEq] at hcrash
    rcases hcrash with hcrash | hcrash
    · exact h.alive other q hthread hcrash
    · exact hne hcrash
  · intro other q hq
    obtain ⟨hne, hthread⟩ := hold other q hq
    exact (h.safe other q hthread).rely hsound (hrely other hne)

private theorem keeps_call (hsound : P.Sound R) {s : System M} (h : s.Keeps P R)
    {pid : ℕ} {r : ι} {next : Except ε (ρ r) → Program ρ ε Unit} {env : M.Env}
    {reply : Except ε (ρ r)} {st : M.State}
    (hthread : s.threads[pid]? = some (some (.request r next)))
    (hadmits : R.admits pid r s.snap) (hperform : M.perform env r s.snap.state = (reply, st)) :
    P.permit pid r s.snap ∧
      System.Keeps P R ⟨s.snap.after st (.call pid r reply),
        s.threads.set pid (some (next reply))⟩ := by
  obtain ⟨hpermit, hnext⟩ := h.safe pid _ hthread s.snap (hsound.refl pid s.snap) h.inv hadmits
  obtain ⟨hinv, hrely⟩ := hsound.call h.inv hadmits hpermit hperform
  have hpid : pid < s.threads.length := (List.getElem?_eq_some_iff.mp hthread).1
  have hold (other : ℕ) (q : Program ρ ε Unit)
      (hq : (s.threads.set pid (some (next reply)))[other]? = some (some q)) :
      (other = pid ∧ q = next reply) ∨ (other ≠ pid ∧ s.threads[other]? = some (some q)) := by
    by_cases heq : other = pid
    · subst heq
      rw [List.getElem?_set_self hpid] at hq
      exact .inl ⟨rfl, by simpa using hq.symm⟩
    · rw [List.getElem?_set_ne (Ne.symm heq)] at hq
      exact .inr ⟨heq, hq⟩
  refine ⟨hpermit, hinv, ?_, ?_, ?_⟩
  · intro e he
    simp only [Snapshot.after_log, List.mem_append, List.mem_singleton] at he
    rw [List.length_set]
    rcases he with he | rfl
    · exact h.known e he
    · exact hpid
  · intro other q hq hcrash
    simp only [Snapshot.after_log, List.mem_append, List.mem_singleton, reduceCtorEq,
      or_false] at hcrash
    rcases hold other q hq with ⟨rfl, -⟩ | ⟨-, hother⟩
    · exact h.alive other _ hthread hcrash
    · exact h.alive other q hother hcrash
  · intro other q hq
    rcases hold other q hq with ⟨rfl, rfl⟩ | ⟨hne, hother⟩
    · exact hnext env reply st hperform
    · exact (h.safe other q hother).rely hsound (hrely other hne (h.alive other q hother))

private theorem keeps_drift (hsound : P.Sound R) {s : System M} (h : s.Keeps P R)
    {st : M.State} (hdrift : M.drift s.snap.state st) :
    System.Keeps P R ⟨⟨st, s.snap.log⟩, s.threads⟩ := by
  obtain ⟨hinv, hrely⟩ := hsound.drift h.inv hdrift
  exact ⟨hinv, h.known, h.alive, fun pid p hp => (h.safe pid p hp).rely hsound (hrely pid)⟩

/-- Every run of programs that keep a sound protocol keeps its invariant. -/
theorem Reachable.keeps (hsound : P.Sound R)
    (hprogram : ∀ p, R.program p → ∀ pid s, P.inv s → (∀ e ∈ s.log, e.pid ≠ pid) →
      Safe P R pid p (fun _ _ => True) (fun _ _ => True) (s.after s.state (.spawn pid)))
    {s : System M} (h : Reachable R s) : s.Keeps P R := by
  induction h with
  | start st hst => exact ⟨hsound.start st hst, by simp, by simp, by simp⟩
  | step _ hstep ih =>
      cases hstep with
      | spawn p hp => exact keeps_spawn hsound hprogram ih p hp
      | crash pid hpid => exact keeps_crash hsound ih pid hpid
      | call pid r next env reply st hthread hadmits hperform =>
          exact (keeps_call hsound ih hthread hadmits hperform).2
      | drift st hdrift => exact keeps_drift hsound ih hdrift

/-- The next request of a process is permitted. -/
theorem System.Keeps.permitted (hsound : P.Sound R) {s : System M} (h : s.Keeps P R) {pid : ℕ}
    {r : ι} {next : Except ε (ρ r) → Program ρ ε Unit}
    (hthread : s.threads[pid]? = some (some (.request r next)))
    (hadmits : R.admits pid r s.snap) : P.permit pid r s.snap :=
  (h.safe pid _ hthread s.snap (hsound.refl pid s.snap) h.inv hadmits).1

/-- A step that logs a request has made one that was admitted and permitted. -/
theorem Step.permitted (hsound : P.Sound R) {s s' : System M} (h : s.Keeps P R)
    (hstep : Step R s s') {pid : ℕ} {r : ι} {reply : Except ε (ρ r)}
    (hlog : s'.snap.log = s.snap.log ++ [.call pid r reply]) :
    R.admits pid r s.snap ∧ P.permit pid r s.snap := by
  cases hstep with
  | spawn p hp =>
      have hevent := List.append_cancel_left hlog
      simp at hevent
  | crash other hpid =>
      have hevent := List.append_cancel_left hlog
      simp at hevent
  | call other r' next env reply' state hthread ha hperform =>
      have hevent := List.append_cancel_left hlog
      simp only [List.cons.injEq, Event.call.injEq, and_true] at hevent
      obtain ⟨rfl, rfl, -⟩ := hevent
      exact ⟨ha, h.permitted hsound hthread ha⟩
  | drift state hdrift =>
      have hlength := congrArg List.length hlog
      simp at hlength

/-- A further property of snapshots, preserved by every permitted request. -/
theorem Reachable.permitted_invariant (hsound : P.Sound R)
    (hprogram : ∀ p, R.program p → ∀ pid s, P.inv s → (∀ e ∈ s.log, e.pid ≠ pid) →
      Safe P R pid p (fun _ _ => True) (fun _ _ => True) (s.after s.state (.spawn pid)))
    {J : Snapshot M → Prop} (hstart : ∀ st, R.start st → J ⟨st, []⟩)
    (hcall : ∀ {s pid r env reply st}, P.inv s → J s → R.admits pid r s → P.permit pid r s →
      M.perform env r s.state = (reply, st) → J (s.after st (.call pid r reply)))
    (hspawn : ∀ {s pid}, J s → J (s.after s.state (.spawn pid)))
    (hcrash : ∀ {s pid}, J s → J (s.after s.state (.crash pid)))
    (hdrift : ∀ {s : Snapshot M} {st}, J s → M.drift s.state st → J ⟨st, s.log⟩)
    {s : System M} (h : Reachable R s) : J s.snap := by
  induction h with
  | start st hst => exact hstart st hst
  | step hr hstep ih =>
      have hkeeps := hr.keeps hsound hprogram
      cases hstep with
      | spawn p hp => exact hspawn ih
      | crash pid hpid => exact hcrash ih
      | call pid r next env reply st hthread hadmits hperform =>
          exact hcall hkeeps.inv ih hadmits
            (keeps_call hsound hkeeps hthread hadmits hperform).1 hperform
      | drift st hdrift' => exact hdrift ih hdrift'

/-! ## What is known of a run -/

/-- The rules under which requests are only made where `K` holds. -/
def Rules.knowing (R : Rules M) (K : ℕ → ι → Snapshot M → Prop) : Rules M where
  start := R.start
  program := R.program
  admits pid r s := R.admits pid r s ∧ K pid r s

theorem Step.knowing {K : ℕ → ι → Snapshot M → Prop} {s s' : System M}
    (hK : ∀ pid r, R.admits pid r s.snap → K pid r s.snap) (h : Step R s s') :
    Step (R.knowing K) s s' := by
  cases h with
  | spawn p hp => exact .spawn s p hp
  | crash pid hpid => exact .crash s pid hpid
  | call pid r next env reply st hthread hadmits hperform =>
      exact .call s pid r next env reply st hthread ⟨hadmits, hK pid r hadmits⟩ hperform
  | drift st hdrift => exact .drift s st hdrift

/-- What holds whenever a request is made may be assumed of every run. -/
theorem Reachable.knowing {K : ℕ → ι → Snapshot M → Prop}
    (hK : ∀ s : System M, Reachable R s → ∀ pid r, R.admits pid r s.snap → K pid r s.snap)
    {s : System M} (h : Reachable R s) : Reachable (R.knowing K) s := by
  induction h with
  | start st hst => exact .start st hst
  | step hr hstep ih => exact ih.step (hstep.knowing (hK _ hr))

theorem Steps.knowing {K : ℕ → ι → Snapshot M → Prop}
    (hK : ∀ s : System M, Reachable R s → ∀ pid r, R.admits pid r s.snap → K pid r s.snap)
    {s s' : System M} (h : Reachable R s) (hs : Steps R s s') : Steps (R.knowing K) s s' := by
  induction hs with
  | refl => exact .refl
  | tail hbefore hstep ih => exact ih.tail (hstep.knowing (hK _ (h.steps hbefore)))

end Concurrent
