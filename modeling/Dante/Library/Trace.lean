import Dante.Library.Credit
import Dante.Library.Evaluation

/-! # What a program has asked and been answered

A path of a program is the list of its first requests with the replies it got. A traced
program allows each request by the path before it; in every run each process then asks only
what its own earlier exchanges allow, whatever the machine answers. -/

namespace Concurrent

variable {ι : Type} {ρ : ι → Type} {ε α β : Type}

/-- A request and its reply. -/
abbrev Exchange (ρ : ι → Type) (ε : Type) := (r : ι) × Except ε (ρ r)

/-! ## Paths -/

/-- `p` has made the exchanges of the list, and goes on as `q`. -/
inductive Path : Program ρ ε α → List (Exchange ρ ε) → Program ρ ε α → Prop where
  | nil (p : Program ρ ε α) : Path p [] p
  | cons {r : ι} {next : Except ε (ρ r) → Program ρ ε α} {reply : Except ε (ρ r)}
      {l : List (Exchange ρ ε)} {q : Program ρ ε α} (h : Path (next reply) l q) :
      Path (.request r next) (⟨r, reply⟩ :: l) q

theorem Path.snoc {p : Program ρ ε α} {l : List (Exchange ρ ε)} {r : ι}
    {next : Except ε (ρ r) → Program ρ ε α} (h : Path p l (.request r next))
    (reply : Except ε (ρ r)) : Path p (l ++ [⟨r, reply⟩]) (next reply) := by
  generalize hq : Program.request r next = q at h
  induction h with
  | nil p =>
      subst hq
      exact .cons (.nil _)
  | cons _ ih => exact .cons (ih hq)

/-- The first `n` exchanges with someone who answers each request by itself, and what remains. -/
def Program.answered (answer : (r : ι) → Except ε (ρ r)) :
    ℕ → Program ρ ε α → List (Exchange ρ ε) × Program ρ ε α
  | n + 1, .request r next =>
      let rest := Program.answered answer n (next (answer r))
      (⟨r, answer r⟩ :: rest.1, rest.2)
  | _, p => ([], p)

theorem Path.answered (answer : (r : ι) → Except ε (ρ r)) (n : ℕ) (p : Program ρ ε α) :
    Path p (p.answered answer n).1 (p.answered answer n).2 := by
  induction n generalizing p with
  | zero => cases p <;> exact .nil _
  | succ n ih =>
      cases p with
      | ret a => exact .nil _
      | raise e => exact .nil _
      | request r next => exact .cons (ih _)

/-! ## Traced programs -/

/-- From the exchanges `l` on, each request is allowed by the exchanges before it, and the
program ends in `Q` or `E`. -/
def Traced (allowed : List (Exchange ρ ε) → ι → Prop) :
    Program ρ ε α → (α → List (Exchange ρ ε) → Prop) → (ε → List (Exchange ρ ε) → Prop) →
      List (Exchange ρ ε) → Prop
  | .ret a, Q, _, l => Q a l
  | .raise e, _, E, l => E e l
  | .request r next, Q, E, l =>
      allowed l r ∧ ∀ reply, Traced allowed (next reply) Q E (l ++ [⟨r, reply⟩])

variable {allowed : List (Exchange ρ ε) → ι → Prop} {l : List (Exchange ρ ε)}

theorem Traced.mono {p : Program ρ ε α} {Q Q' : α → List (Exchange ρ ε) → Prop}
    {E E' : ε → List (Exchange ρ ε) → Prop} (h : Traced allowed p Q E l)
    (hQ : ∀ a l, Q a l → Q' a l) (hE : ∀ e l, E e l → E' e l) : Traced allowed p Q' E' l := by
  induction p generalizing l with
  | ret a => exact hQ a l h
  | raise e => exact hE e l h
  | request r next ih => exact ⟨h.1, fun reply => ih reply (h.2 reply)⟩

theorem Traced.bind {p : Program ρ ε α} {f : α → Program ρ ε β}
    {Q : β → List (Exchange ρ ε) → Prop} {E : ε → List (Exchange ρ ε) → Prop}
    (h : Traced allowed p (fun a l => Traced allowed (f a) Q E l) E l) :
    Traced allowed (p.bind f) Q E l := by
  induction p generalizing l with
  | ret a => exact h
  | raise e => exact h
  | request r next ih => exact ⟨h.1, fun reply => ih reply (h.2 reply)⟩

theorem Traced.except {p : Program ρ ε α} {handler : ε → Program ρ ε α}
    {Q : α → List (Exchange ρ ε) → Prop} {E : ε → List (Exchange ρ ε) → Prop}
    (h : Traced allowed p Q (fun e l => Traced allowed (handler e) Q E l) l) :
    Traced allowed (p.except handler) Q E l := by
  induction p generalizing l with
  | ret a => exact h
  | raise e => exact h
  | request r next ih => exact ⟨h.1, fun reply => ih reply (h.2 reply)⟩

/-- The cleanup follows both kinds of outcome. -/
theorem Traced.andFinally {p : Program ρ ε α} {cleanup : Program ρ ε Unit}
    {Q : α → List (Exchange ρ ε) → Prop} {E : ε → List (Exchange ρ ε) → Prop}
    (h : Traced allowed p (fun a l => Traced allowed cleanup (fun _ => Q a) E l)
      (fun e l => Traced allowed cleanup (fun _ => E e) E l) l) :
    Traced allowed (p.andFinally cleanup) Q E l := by
  refine Traced.bind (Traced.except (Traced.bind (h.mono ?_ ?_)))
  · exact fun a l ha => Traced.bind ha
  · exact fun e l he => Traced.bind he

/-- One request, and what both kinds of reply leave. -/
theorem Traced.call {r : ι} {Q : ρ r → List (Exchange ρ ε) → Prop}
    {E : ε → List (Exchange ρ ε) → Prop} (hallowed : allowed l r)
    (hok : ∀ a, Q a (l ++ [⟨r, .ok a⟩])) (herror : ∀ e, E e (l ++ [⟨r, .error e⟩])) :
    Traced allowed (Program.call r) Q E l := by
  refine ⟨hallowed, fun reply => ?_⟩
  cases reply with
  | ok a => exact hok a
  | error e => exact herror e

theorem Traced.ofExcept {x : Except ε α} {Q : α → List (Exchange ρ ε) → Prop}
    {E : ε → List (Exchange ρ ε) → Prop} (hok : ∀ a, x = .ok a → Q a l)
    (herror : ∀ e, x = .error e → E e l) : Traced allowed (Program.ofExcept x) Q E l := by
  cases x with
  | ok a => exact hok a rfl
  | error e => exact herror e rfl

theorem Traced.ite {c : Prop} [Decidable c] {p q : Program ρ ε α}
    {Q : α → List (Exchange ρ ε) → Prop} {E : ε → List (Exchange ρ ε) → Prop}
    (hp : c → Traced allowed p Q E l) (hq : ¬c → Traced allowed q Q E l) :
    Traced allowed (if c then p else q) Q E l := by
  split
  next hc => exact hp hc
  next hc => exact hq hc

/-- Requests that are allowed wherever `K` holds keep what every exchange keeps. -/
theorem Traced.of_uses {asked : ι → Prop} {K : List (Exchange ρ ε) → Prop}
    (hallowed : ∀ l r, K l → asked r → allowed l r)
    (hkeep : ∀ l r reply, K l → asked r → K (l ++ [⟨r, reply⟩])) {p : Program ρ ε α}
    (hp : p.Uses asked) (hl : K l) : Traced allowed p (fun _ => K) (fun _ => K) l := by
  induction p generalizing l with
  | ret a => exact hl
  | raise e => exact hl
  | request r next ih =>
      exact ⟨hallowed l r hl hp.1, fun reply => ih reply (hp.2 reply) (hkeep l r reply hl hp.1)⟩

/-- A path that ends has ended in the postcondition. -/
theorem Traced.returned {p : Program ρ ε α} {a : α} {Q : α → List (Exchange ρ ε) → Prop}
    {E : ε → List (Exchange ρ ε) → Prop} {asked : List (Exchange ρ ε)}
    (h : Traced allowed p Q E l) (hpath : Path p asked (.ret a)) : Q a (l ++ asked) := by
  generalize hq : Program.ret a = q at hpath
  induction hpath generalizing l with
  | nil p =>
      subst hq
      rw [List.append_nil]
      exact h
  | cons _ ih => simpa using ih (h.2 _) hq

/-- On every path each request is allowed. -/
theorem Traced.path {p q : Program ρ ε α} {Q : α → List (Exchange ρ ε) → Prop}
    {E : ε → List (Exchange ρ ε) → Prop} {asked : List (Exchange ρ ε)}
    (h : Traced allowed p Q E l) (hpath : Path p asked q) {before after : List (Exchange ρ ε)}
    {r : ι} {reply : Except ε (ρ r)} (hasked : asked = before ++ ⟨r, reply⟩ :: after) :
    allowed (l ++ before) r := by
  induction hpath generalizing l before with
  | nil p => simp at hasked
  | cons _ ih =>
      cases before with
      | nil =>
          simp only [List.nil_append, List.cons.injEq, Sigma.mk.injEq] at hasked
          obtain ⟨⟨rfl, -⟩, -⟩ := hasked
          simpa using h.1
      | cons x before =>
          simp only [List.cons_append, List.cons.injEq] at hasked
          obtain ⟨rfl, hrest⟩ := hasked
          simpa using ih (h.2 _) hrest

/-! ## Trails -/

/-- From the state `s`, `p` makes the exchanges of the list, and goes on as `q` from `s'`. -/
inductive Trail {M : Machine ρ ε} (S : Setting M) :
    Program ρ ε α → M.State → List (Exchange ρ ε) → Program ρ ε α → M.State → Prop where
  | nil (p : Program ρ ε α) (s : M.State) : Trail S p s [] p s
  | cons {r : ι} {next : Except ε (ρ r) → Program ρ ε α} {s s₀ s₁ s' : M.State} {env : M.Env}
      {reply : Except ε (ρ r)} {asked : List (Exchange ρ ε)} {q : Program ρ ε α}
      (hbetween : S.between s s₀) (hadmits : S.admits env s₀)
      (hperform : M.perform env r s₀ = (reply, s₁)) (h : Trail S (next reply) s₁ asked q s') :
      Trail S (.request r next) s (⟨r, reply⟩ :: asked) q s'

variable {M : Machine ρ ε} {S : Setting M}

theorem Trail.path {p q : Program ρ ε α} {s s' : M.State} {asked : List (Exchange ρ ε)}
    (h : Trail S p s asked q s') : Path p asked q := by
  induction h with
  | nil p s => exact .nil p
  | cons _ _ _ _ ih => exact .cons ih

/-- A sequence goes its first part to the end, and then its second part. -/
theorem Trail.bind {p : Program ρ ε β} {f : β → Program ρ ε α} {b : β} {s s₁ s' : M.State}
    {l l' : List (Exchange ρ ε)} {q : Program ρ ε α} (hp : Trail S p s l (.ret b) s₁)
    (hf : Trail S (f b) s₁ l' q s') : Trail S (p.bind f) s (l ++ l') q s' := by
  generalize hr : Program.ret b = r at hp
  induction hp with
  | nil p s =>
      subst hr
      exact hf
  | cons hbetween hadmits hperform _ ih => exact .cons hbetween hadmits hperform (ih hf hr)

/-- One request that is granted, where nothing happens before it. -/
theorem Trail.call {r : ι} {s s' : M.State} {env : M.Env} {a : ρ r} (hbetween : S.between s s)
    (hadmits : S.admits env s) (hperform : M.perform env r s = (.ok a, s')) :
    Trail S (Program.call r) s [⟨r, .ok a⟩] (.ret a) s' :=
  .cons hbetween hadmits hperform (.nil _ _)

/-- What the setting and every allowed request keep, a traced program keeps. -/
theorem Trail.invariant {J : M.State → List (Exchange ρ ε) → Prop}
    (hbetween : ∀ {s s₀ l}, J s l → S.between s s₀ → J s₀ l)
    (hperform : ∀ {s env r reply s₁ l}, J s l → allowed l r → S.admits env s →
      M.perform env r s = (reply, s₁) → J s₁ (l ++ [⟨r, reply⟩]))
    {p q : Program ρ ε α} {Q : α → List (Exchange ρ ε) → Prop} {E : ε → List (Exchange ρ ε) → Prop}
    {s s' : M.State} {asked : List (Exchange ρ ε)} (h : Trail S p s asked q s')
    (htraced : Traced allowed p Q E l) (hl : J s l) : J s' (l ++ asked) := by
  induction h generalizing l with
  | nil p s =>
      rw [List.append_nil]
      exact hl
  | cons hb ha hp _ ih =>
      have hstep := ih (htraced.2 _) (hperform (hbetween hl hb) htraced.1 ha hp)
      rwa [List.append_assoc] at hstep

/-! ## Runs -/

/-- The exchange that an event is, for the process that made it. -/
def Event.exchange (pid : ℕ) : Event ρ ε → Option (Exchange ρ ε)
  | .call other r reply => if other = pid then some ⟨r, reply⟩ else none
  | _ => none

/-- The exchanges of one process, in order. -/
def exchanges (pid : ℕ) (log : List (Event ρ ε)) : List (Exchange ρ ε) :=
  log.filterMap (Event.exchange pid)

@[simp] theorem exchanges_nil (pid : ℕ) : exchanges pid ([] : List (Event ρ ε)) = [] := rfl

@[simp] theorem exchanges_append (pid : ℕ) (log log' : List (Event ρ ε)) :
    exchanges pid (log ++ log') = exchanges pid log ++ exchanges pid log' :=
  List.filterMap_append

theorem exchanges_cons (pid : ℕ) (e : Event ρ ε) (log : List (Event ρ ε)) :
    exchanges pid (e :: log) = exchanges pid [e] ++ exchanges pid log :=
  exchanges_append pid [e] log

@[simp] theorem exchanges_call (pid : ℕ) (r : ι) (reply : Except ε (ρ r)) :
    exchanges pid [.call pid r reply] = [⟨r, reply⟩] := by
  simp [exchanges, Event.exchange]

theorem exchanges_of_ne {pid : ℕ} {e : Event ρ ε} (h : e.pid ≠ pid) :
    exchanges pid [e] = [] := by
  cases e with
  | call other r reply =>
      have hne : other ≠ pid := h
      simp [exchanges, Event.exchange, hne]
  | _ => rfl

theorem exchanges_of_unknown {pid : ℕ} {log : List (Event ρ ε)} (h : ∀ e ∈ log, e.pid ≠ pid) :
    exchanges pid log = [] := by
  induction log with
  | nil => rfl
  | cons e log ih =>
      simp only [List.forall_mem_cons] at h
      rw [exchanges_cons, exchanges_of_ne h.1, ih h.2]
      rfl

@[simp] theorem exchanges_spawn (pid other : ℕ) :
    exchanges pid [(.spawn other : Event ρ ε)] = [] := rfl

@[simp] theorem exchanges_crash (pid other : ℕ) :
    exchanges pid [(.crash other : Event ρ ε)] = [] := rfl

theorem mem_exchanges {pid : ℕ} {log : List (Event ρ ε)} {r : ι} {reply : Except ε (ρ r)} :
    ⟨r, reply⟩ ∈ exchanges pid log ↔ .call pid r reply ∈ log := by
  unfold exchanges
  rw [List.mem_filterMap]
  constructor
  · rintro ⟨e, he, hexchange⟩
    cases e with
    | call other r' reply' =>
        simp only [Event.exchange, Option.ite_none_right_eq_some, Option.some.injEq] at hexchange
        obtain ⟨rfl, heq⟩ := hexchange
        cases heq
        exact he
    | _ => cases hexchange
  · intro h
    exact ⟨_, h, by simp [Event.exchange]⟩

/-- An event that is an exchange of the given kind. -/
def Event.made (p : Exchange ρ ε → Bool) : Event ρ ε → Bool
  | .call _ r reply => p ⟨r, reply⟩
  | _ => false

/-- What a process holds is decided by its exchanges. -/
theorem holding_own (earns spends : Exchange ρ ε → Bool) (pid : ℕ) (log : List (Event ρ ε)) :
    Credit.holding (Event.made earns) (Event.made spends) (Credit.own Event.pid pid log) =
      Credit.holding earns spends (exchanges pid log) := by
  induction log using List.reverseRecOn with
  | nil => rfl
  | append_singleton log e ih =>
      by_cases hpid : e.pid = pid
      · subst hpid
        rw [Credit.own_append_self, Credit.holding_append_singleton, ih, exchanges_append]
        cases e with
        | call pid r reply =>
            have hcall := exchanges_call pid r reply
            simp only [Event.pid] at *
            rw [hcall, Credit.holding_append_singleton]
            rfl
        | spawn pid => simp [Event.made, Event.pid]
        | crash pid => simp [Event.made, Event.pid]
      · rw [Credit.own_append_of_ne hpid, exchanges_append, exchanges_of_ne hpid, ih,
          List.append_nil]

variable {R : Rules M}

/-- The process `pid` has taken a path of `p`. -/
def System.On (s : System M) (pid : ℕ) (p : Program ρ ε Unit) : Prop :=
  pid < s.threads.length ∧ ∃ q, Path p (exchanges pid s.snap.log) q ∧
    ∀ q', s.threads[pid]? = some (some q') → q' = q

/-- A process goes on along the path of its program. -/
theorem Step.on {s s' : System M} (h : Step R s s') {pid : ℕ} {p : Program ρ ε Unit}
    (hon : s.On pid p) : s'.On pid p := by
  obtain ⟨hpid, q, hpath, hcurrent⟩ := hon
  cases h with
  | spawn p' hp' =>
      refine ⟨?_, q, ?_, fun q' hq' => hcurrent q' ?_⟩
      · rw [List.length_append]
        exact Nat.lt_add_right _ hpid
      · simpa using hpath
      · rwa [List.getElem?_append_left hpid] at hq'
  | crash other hother =>
      refine ⟨?_, q, ?_, fun q' hq' => hcurrent q' ?_⟩
      · rwa [List.length_set]
      · simpa using hpath
      · by_cases heq : other = pid
        · subst heq
          rw [List.getElem?_set_self hpid] at hq'
          simp at hq'
        · rwa [List.getElem?_set_ne heq] at hq'
  | call other r next env reply st hthread hadmits hperform =>
      refine ⟨by rwa [List.length_set], ?_⟩
      by_cases heq : other = pid
      · subst heq
        obtain rfl := hcurrent _ hthread
        refine ⟨next reply, ?_, fun q' hq' => ?_⟩
        · simpa using hpath.snoc reply
        · rw [List.getElem?_set_self hpid] at hq'
          simpa using hq'.symm
      · refine ⟨q, ?_, fun q' hq' => hcurrent q' ?_⟩
        · rw [Snapshot.after_log, exchanges_append,
            exchanges_of_ne (e := .call other r reply) heq, List.append_nil]
          exact hpath
        · rwa [List.getElem?_set_ne heq] at hq'
  | drift st hdrift => exact ⟨hpid, q, hpath, hcurrent⟩

/-- What is known of each process of a reachable system: the path it has taken. -/
structure System.Traces (R : Rules M) (s : System M) : Prop where
  known : ∀ e ∈ s.snap.log, e.pid < s.threads.length
  paths : ∀ pid < s.threads.length, ∃ p q, R.program p ∧ Path p (exchanges pid s.snap.log) q ∧
    ∀ q', s.threads[pid]? = some (some q') → q' = q

/-- A new process has asked nothing. -/
theorem System.on_started {s : System M} (hknown : ∀ e ∈ s.snap.log, e.pid < s.threads.length)
    (p : Program ρ ε Unit) : (s.started p).On s.threads.length p := by
  have hnone : exchanges s.threads.length s.snap.log = [] :=
    exchanges_of_unknown fun e he => Nat.ne_of_lt (hknown e he)
  refine ⟨by simp [System.started], p, ?_, fun q hq => ?_⟩
  · simpa [System.started, hnone] using Path.nil p
  · simpa [System.started] using hq.symm

/-- A process that makes an event was known before, or is the one that the event starts. -/
theorem Step.known {s s' : System M} (h : Step R s s')
    (hknown : ∀ e ∈ s.snap.log, e.pid < s.threads.length) :
    ∀ e ∈ s'.snap.log, e.pid < s'.threads.length := by
  intro e he
  cases h with
  | spawn p hp =>
      rw [Snapshot.after_log, List.mem_append, List.mem_singleton] at he
      rw [List.length_append, List.length_singleton]
      rcases he with he | rfl
      · exact Nat.lt_succ_of_lt (hknown e he)
      · exact Nat.lt_succ_self _
  | crash pid hpid =>
      rw [Snapshot.after_log, List.mem_append, List.mem_singleton] at he
      rw [List.length_set]
      rcases he with he | rfl
      · exact hknown e he
      · exact hpid
  | call pid r next env reply st hthread hadmits hperform =>
      rw [Snapshot.after_log, List.mem_append, List.mem_singleton] at he
      rw [List.length_set]
      rcases he with he | rfl
      · exact hknown e he
      · exact (List.getElem?_eq_some_iff.mp hthread).1
  | drift st hdrift => exact hknown e he

/-- A process was there before a step, or the step has just started it. -/
theorem Step.started_cases {s s' : System M} (h : Step R s s') {pid : ℕ}
    (hpid : pid < s'.threads.length) :
    pid < s.threads.length ∨
      pid = s.threads.length ∧ ∃ p, R.program p ∧ s' = s.started p := by
  cases h with
  | spawn p hp =>
      rw [List.length_append, List.length_singleton] at hpid
      rcases Nat.lt_succ_iff_lt_or_eq.mp hpid with hlt | rfl
      · exact .inl hlt
      · exact .inr ⟨rfl, p, hp, rfl⟩
  | crash other hother => exact .inl (by rwa [List.length_set] at hpid)
  | call other r next env reply st hthread hadmits hperform =>
      exact .inl (by rwa [List.length_set] at hpid)
  | drift st hdrift => exact .inl hpid

theorem Reachable.traces {s : System M} (h : Reachable R s) : s.Traces R := by
  induction h with
  | start st hst => exact ⟨by simp, by simp⟩
  | step _ hstep ih =>
      refine ⟨hstep.known ih.known, fun pid hpid => ?_⟩
      rcases hstep.started_cases hpid with hold | ⟨rfl, p, hp, rfl⟩
      · obtain ⟨p, q, hp, hpath, hcurrent⟩ := ih.paths pid hold
        obtain ⟨-, q', hpath', hcurrent'⟩ := hstep.on ⟨hold, q, hpath, hcurrent⟩
        exact ⟨p, q', hp, hpath', hcurrent'⟩
      · obtain ⟨-, q, hpath, hcurrent⟩ := System.on_started ih.known p
        exact ⟨p, q, hp, hpath, hcurrent⟩

/-- The run has started `p` as the process `pid`. -/
def Began (R : Rules M) (s : System M) (pid : ℕ) (p : Program ρ ε Unit) : Prop :=
  ∃ s₀, Reachable R s₀ ∧ R.program p ∧ pid = s₀.threads.length ∧ Steps R (s₀.started p) s

theorem Began.reachable {s : System M} {pid : ℕ} {p : Program ρ ε Unit} (h : Began R s pid p) :
    Reachable R s := by
  obtain ⟨s₀, hs₀, hp, -, hsteps⟩ := h
  exact (hs₀.step (.spawn s₀ p hp)).steps hsteps

theorem Began.on {s : System M} {pid : ℕ} {p : Program ρ ε Unit} (h : Began R s pid p) :
    s.On pid p := by
  obtain ⟨s₀, hs₀, hp, rfl, hsteps⟩ := h
  induction hsteps with
  | refl => exact System.on_started hs₀.traces.known p
  | tail _ hstep ih => exact hstep.on ih

theorem Began.steps {s s' : System M} {pid : ℕ} {p : Program ρ ε Unit} (h : Began R s pid p)
    (hs : Steps R s s') : Began R s' pid p := by
  obtain ⟨s₀, hs₀, hp, hpid, hsteps⟩ := h
  exact ⟨s₀, hs₀, hp, hpid, hsteps.trans hs⟩

/-- Every process of a reachable system runs some program. -/
theorem Reachable.began {s : System M} (h : Reachable R s) {pid : ℕ}
    (hpid : pid < s.threads.length) : ∃ p, Began R s pid p := by
  induction h with
  | start st hst => exact absurd hpid (Nat.not_lt_zero _)
  | step hr hstep ih =>
      rcases hstep.started_cases hpid with hold | ⟨rfl, p, hp, rfl⟩
      · obtain ⟨p, hbegan⟩ := ih hold
        exact ⟨p, hbegan.steps (.single hstep)⟩
      · exact ⟨p, _, hr, hp, rfl, .refl⟩

/-- A process asks only what its program may ask after its earlier exchanges. -/
theorem System.On.asks {s : System M} {pid : ℕ} {p : Program ρ ε Unit} (h : s.On pid p)
    {Q : Unit → List (Exchange ρ ε) → Prop} {E : ε → List (Exchange ρ ε) → Prop}
    (htraced : Traced allowed p Q E []) {before after : List (Event ρ ε)} {r : ι}
    {reply : Except ε (ρ r)} (hlog : s.snap.log = before ++ .call pid r reply :: after) :
    allowed (exchanges pid before) r := by
  obtain ⟨-, q, hpath, -⟩ := h
  have hasked : exchanges pid s.snap.log =
      exchanges pid before ++ ⟨r, reply⟩ :: exchanges pid after := by
    rw [hlog, exchanges_append, exchanges_cons, exchanges_call]
    rfl
  exact htraced.path hpath hasked

/-- A process that has ended has ended in the postcondition. -/
theorem System.On.returned {s : System M} {pid : ℕ} {p : Program ρ ε Unit} (h : s.On pid p)
    {Q : Unit → List (Exchange ρ ε) → Prop} {E : ε → List (Exchange ρ ε) → Prop}
    (htraced : Traced allowed p Q E []) (hended : s.threads[pid]? = some (some (.ret ()))) :
    Q () (exchanges pid s.snap.log) := by
  obtain ⟨-, q, hpath, hcurrent⟩ := h
  obtain rfl := hcurrent _ hended
  exact htraced.returned hpath

/-- In a run of traced programs every request is allowed by what its process has exchanged. -/
theorem Reachable.traced {Q : Unit → List (Exchange ρ ε) → Prop}
    {E : ε → List (Exchange ρ ε) → Prop}
    (hprogram : ∀ p, R.program p → Traced allowed p Q E []) {s : System M} (h : Reachable R s)
    {before after : List (Event ρ ε)} {pid : ℕ} {r : ι} {reply : Except ε (ρ r)}
    (hlog : s.snap.log = before ++ .call pid r reply :: after) :
    allowed (exchanges pid before) r := by
  have hpid : pid < s.threads.length :=
    h.traces.known (.call pid r reply) (by rw [hlog]; simp)
  obtain ⟨p, q, hp, hpath, hcurrent⟩ := h.traces.paths pid hpid
  exact System.On.asks ⟨hpid, q, hpath, hcurrent⟩ (hprogram p hp) hlog

end Concurrent
