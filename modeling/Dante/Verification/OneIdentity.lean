import Dante.Library.RelyGuarantee
import Dante.Library.Trace
import Dante.Model.NodeIdentity

/-! # A node has one identity

Whoever is returned an identity is returned the one that the file holds, and the file holds it
forever. -/

namespace Dante

open Concurrent Cleaning

/-! ## Reading -/

theorem not_isSpace_of_isTextChar {c : Char} (h : Uuid.isTextChar c = true) : isSpace c = false :=
  Uuid.of_isTextChar (fun c => isSpace c = false) (by simp [isSpace]) h

theorem strip_text (u : Uuid) : strip isSpace u.text = u.text :=
  Uuid.strip_of_absent fun _ hc => not_isSpace_of_isTextChar (Uuid.isTextChar_of_mem hc)

/-- The text is that of a UUID4, up to the spaces around it. -/
theorem nodeIdOf_ok {text : List Char} {u : Uuid} :
    nodeIdOf text = .ok u ↔ strip isSpace text = u.text ∧ u.version = some 4 := by
  have hread (v : Uuid) : Uuid.ofText isSpace v.text = some v :=
    Uuid.ofText_text (fun _ => not_isSpace_of_isTextChar) v
  unfold nodeIdOf
  constructor
  · intro h
    dsimp only at h
    split at h
    · cases h
    next v hv =>
      split at h
      · cases h
      next hcanonical =>
        cases h
        simp only [ne_eq, not_or, not_not] at hcanonical
        exact ⟨hcanonical.2.symm, hcanonical.1⟩
  · rintro ⟨htext, hversion⟩
    simp only [htext, hread, hversion, ne_eq, not_true_eq_false, or_self, if_false]

theorem universalNewlines_of_absent {cs : List Char} (h : '\r' ∉ cs) : universalNewlines cs = cs := by
  induction cs with
  | nil => rfl
  | cons c cs ih =>
      rw [List.mem_cons, not_or] at h
      rw [universalNewlines.eq_2 _ _ (fun _ hc => absurd hc.symm h.1), ih h.2, if_neg (Ne.symm h.1)]

theorem mem_identityLine {u : Uuid} {c : Char} (h : c ∈ identityLine u) :
    c.toNat < 128 ∧ c ≠ '\r' := by
  rcases List.mem_append.mp h with h | h
  · exact Uuid.of_isTextChar (fun c => c.toNat < 128 ∧ c ≠ '\r') (by simp) (Uuid.isTextChar_of_mem h)
  · rw [List.mem_singleton.mp h]
    decide

theorem decodeAscii_identityLine (u : Uuid) : decodeAscii (identityLine u) = .ok (identityLine u) := by
  have hascii : (identityLine u).all (fun c => c.toNat < 128) = true := by
    rw [List.all_eq_true]
    exact fun c hc => decide_eq_true (mem_identityLine hc).1
  rw [decodeAscii, hascii, universalNewlines_of_absent fun h => (mem_identityLine h).2 rfl]
  rfl

theorem strip_identityLine (u : Uuid) : strip isSpace (identityLine u) = u.text := by
  have hchar {c : Char} (hc : c ∈ u.text) : isSpace c = false :=
    not_isSpace_of_isTextChar (Uuid.isTextChar_of_mem hc)
  have hhead : ∀ h : u.text ++ ['\n'] ≠ [], isSpace ((u.text ++ ['\n']).head h) = false := by
    intro h
    rw [List.head_append_of_ne_nil u.text_ne_nil]
    exact hchar (List.head_mem _)
  have hnewline : isSpace '\n' = true := rfl
  rw [identityLine, strip_of_head hhead, List.rdropWhile_concat, if_pos hnewline,
    List.rdropWhile_eq_self_iff]
  intro h
  rw [hchar (List.getLast_mem h)]
  decide

/-- The bytes of a file identify a node. -/
def Identifies (bytes : List Char) (u : Uuid) : Prop :=
  ∃ text, decodeAscii bytes = .ok text ∧ strip isSpace text = u.text ∧ u.version = some 4

theorem identifies_identityLine {u v : Uuid} (h : Identifies (identityLine u) v) : v = u := by
  obtain ⟨text, htext, hstrip, -⟩ := h
  rw [decodeAscii_identityLine, Except.ok.injEq] at htext
  subst htext
  rw [strip_identityLine] at hstrip
  exact (Uuid.text_injective hstrip).symm

/-! ## One request -/

/-- The request is about the contents of the file. -/
def NodeStep.Touches (r : NodeStep) (i : ℕ) : Prop :=
  r = .flush i ∨ r = .fsync i ∨ r = .close i ∨ ∃ text, r = .write i text

/-- What a request does to the files and to the path, and what it tells its process. -/
inductive NodeEffect : (r : NodeStep) → Except Exn r.Reply → NodeDirectory → NodeDirectory → Prop where
  | idle {r : NodeStep} {reply : Except Exn r.Reply} {d d' : NodeDirectory}
      (hidentity : d'.identity = d.identity) (hfiles : d'.files = d.files)
      (htemporary : ∀ pid other i,
        Event.call pid r reply ≠ .call other .namedTemporaryFile (.ok i))
      (hlink : ∀ pid other i, Event.call pid r reply ≠ .call other (.link i) (.ok ())) :
      NodeEffect r reply d d'
  | touched {r : NodeStep} {reply : Except Exn r.Reply} {d : NodeDirectory} (i : ℕ)
      (f : NodeFile → NodeFile) (hfile : r.Touches i)
      (hkeeps : (∀ text, r ≠ .write i text) → ∀ contents, f ⟨contents, []⟩ = ⟨contents, []⟩) :
      NodeEffect r reply d (d.update i f)
  | created {d : NodeDirectory} :
      NodeEffect .namedTemporaryFile (.ok d.files.length) d { d with
        files := d.files ++ [⟨[], []⟩], temporaries := d.files.length :: d.temporaries }
  | linked {d : NodeDirectory} (i : ℕ) (hnone : d.identity = none) :
      NodeEffect (.link i) (.ok ()) d { d with identity := some (.file i) }

variable {env : NodeSurroundings} {r : NodeStep} {reply : Except Exn r.Reply} {d d' : NodeDirectory}

theorem NodeEffect.look {α : Type} {answer : Except Exn α} {x : Except Exn α}
    (h : d.look env answer = (x, d')) : d' = d := by
  unfold NodeDirectory.look at h
  split at h <;> cases h <;> rfl

theorem NodeDirectory.onFile_cases {i : ℕ} {f g : NodeFile → NodeFile} {x : Except Exn Unit}
    (h : d.onFile env i f g = (x, d')) :
    x = .ok () ∧ d' = d.update i f ∨ (∃ e, x = .error e) ∧ d' = d.update i g := by
  unfold NodeDirectory.onFile at h
  split at h
  · cases h
    exact .inl ⟨rfl, rfl⟩
  · cases h
    exact .inr ⟨⟨_, rfl⟩, rfl⟩

theorem perform_nodeEffect (h : NodeDirectory.perform env r d = (reply, d')) :
    NodeEffect r reply d d' := by
  cases r with
  | namedTemporaryFile =>
      simp only [NodeDirectory.perform] at h
      split at h
      · cases h
        exact .idle rfl rfl (by simp) (by simp)
      · cases h
        exact .created
  | link i =>
      simp only [NodeDirectory.perform] at h
      split at h
      · cases h
        exact .idle rfl rfl (by simp) (by simp)
      · split at h
        · cases h
          exact .idle rfl rfl (by simp) (by simp)
        next habsent =>
          split at h
          · cases h
            exact .linked i (Option.not_isSome_iff_eq_none.mp habsent)
          · cases h
            exact .idle rfl rfl (by simp) (by simp)
  | unlink i =>
      simp only [NodeDirectory.perform] at h
      split at h
      · cases h
        exact .idle rfl rfl (by simp) (by simp)
      · cases h
        exact .idle rfl rfl (by simp) (by simp)
  | write i text =>
      rcases NodeDirectory.onFile_cases h with ⟨-, rfl⟩ | ⟨-, rfl⟩
      · exact .touched i _ (.inr (.inr (.inr ⟨text, rfl⟩))) fun hno => absurd rfl (hno text)
      · exact .touched i _ (.inr (.inr (.inr ⟨text, rfl⟩))) fun hno => absurd rfl (hno text)
  | flush i =>
      rcases NodeDirectory.onFile_cases h with ⟨-, rfl⟩ | ⟨-, rfl⟩
      · exact .touched i _ (.inl rfl) fun _ contents => by simp [NodeFile.advance]
      · exact .touched i _ (.inl rfl) fun _ contents => by simp [NodeFile.advance]
  | fsync i =>
      rcases NodeDirectory.onFile_cases h with ⟨-, rfl⟩ | ⟨-, rfl⟩
      · exact .touched i _ (.inr (.inl rfl)) fun _ contents => rfl
      · exact .touched i _ (.inr (.inl rfl)) fun _ contents => rfl
  | close i =>
      rcases NodeDirectory.onFile_cases h with ⟨-, rfl⟩ | ⟨-, rfl⟩
      · exact .touched i _ (.inr (.inr (.inl rfl))) fun _ contents => by simp [NodeFile.advance]
      · exact .touched i _ (.inr (.inr (.inl rfl))) fun _ contents => by simp [NodeFile.advance]
  | report u created =>
      cases h
      exact .idle rfl rfl (by simp) (by simp)
  | _ =>
      obtain rfl := NodeEffect.look h
      exact .idle rfl rfl (by simp) (by simp)

/-! ## The protocol -/

section Protocol

variable {s s' : Snapshot nodeMachine} {pid other : ℕ} {i j : ℕ} {u : Uuid} {state : NodeDirectory}

/-- The process has created the temporary file. -/
def Owns (pid i : ℕ) (s : Snapshot nodeMachine) : Prop :=
  .call pid .namedTemporaryFile (.ok i) ∈ s.log

/-- The process has given the file the path of the identity. -/
def Linked (pid i : ℕ) (s : Snapshot nodeMachine) : Prop :=
  .call pid (.link i) (.ok ()) ∈ s.log

/-- The process was returned the identity. -/
def Reported (pid : ℕ) (u : Uuid) (created : Bool) (s : Snapshot nodeMachine) : Prop :=
  .call pid (.report u created) (.ok ()) ∈ s.log

/-- All of an identity is on disk. -/
def Complete (d : NodeDirectory) (i : ℕ) : Prop :=
  ∃ u : Uuid, u.version = some 4 ∧ d.files[i]? = some ⟨identityLine u, []⟩

/-- The path leads to the identity. -/
def Holds (d : NodeDirectory) (u : Uuid) : Prop :=
  ∃ i file, d.identity = some (.file i) ∧ d.files[i]? = some file ∧ Identifies file.contents u

/-- The path names a file that is there, or no file. -/
def NodeDirectory.WellFormed (d : NodeDirectory) : Prop :=
  ∀ i, d.identity = some (.file i) → i < d.files.length

/-- What every snapshot of a run from `d` satisfies. -/
structure NodeInv (d : NodeDirectory) (s : Snapshot nodeMachine) : Prop where
  initial : ∀ i < d.files.length, s.state.files[i]? = d.files[i]?
  owned : ∀ pid i, Owns pid i s → d.files.length ≤ i ∧ i < s.state.files.length
  unique : ∀ pid other i, Owns pid i s → Owns other i s → pid = other
  published : s.state.identity = d.identity ∨
    ∃ i, d.identity = none ∧ s.state.identity = some (.file i) ∧ Complete s.state i
  linked : ∀ pid i, Linked pid i s → Owns pid i s ∧ s.state.identity = some (.file i)
  reported : ∀ pid u created, Reported pid u created s →
    Holds s.state u ∧ (created = true → ∃ i, Linked pid i s)

/-- What the others leave alone. -/
structure NodeRely (pid : ℕ) (s s' : Snapshot nodeMachine) : Prop where
  log : s.log ⊆ s'.log
  identity : s'.state.identity = s.state.identity ∨
    s.state.identity = none ∧ ∃ i, s'.state.identity = some (.file i) ∧ ¬ Owns pid i s
  owned : ∀ i, Owns pid i s → s'.state.files[i]? = s.state.files[i]?
  published : ∀ i, s.state.identity = some (.file i) → s'.state.files[i]? = s.state.files[i]?

/-- When a process may make a request. -/
def NodePermit (pid : ℕ) (r : NodeStep) (s : Snapshot nodeMachine) : Prop :=
  match r with
  | .write i _ => Owns pid i s ∧ s.state.identity ≠ some (.file i)
  | .flush i | .fsync i | .close i => Owns pid i s
  | .link i => Owns pid i s ∧ Complete s.state i
  | .report u created => Holds s.state u ∧ (created = true → ∃ i, Linked pid i s)
  | _ => True

/-- The protocol of the runs from `d`. -/
def nodeProtocol (d : NodeDirectory) : Protocol nodeMachine where
  inv := NodeInv d
  rely := NodeRely
  permit := NodePermit

theorem NodeRely.trans {a b c : Snapshot nodeMachine} (hab : NodeRely pid a b)
    (hbc : NodeRely pid b c) : NodeRely pid a c where
  log := fun _ he => hbc.log (hab.log he)
  identity := by
    rcases hab.identity with hb | ⟨ha, i, hb, howns⟩
    · rcases hbc.identity with hc | ⟨hnone, i, hc, howns⟩
      · exact .inl (hc.trans hb)
      · exact .inr ⟨hb ▸ hnone, i, hc, fun h => howns (hab.log h)⟩
    · rcases hbc.identity with hc | ⟨hnone, -⟩
      · exact .inr ⟨ha, i, hc.trans hb, howns⟩
      · rw [hb] at hnone
        cases hnone
  owned := fun i howns => (hbc.owned i (hab.log howns)).trans (hab.owned i howns)
  published := by
    intro i hi
    rcases hab.identity with hb | ⟨ha, -⟩
    · exact (hbc.published i (hb.trans hi)).trans (hab.published i hi)
    · rw [ha] at hi
      cases hi

theorem Holds.mono (hidentity : ∀ i, d.identity = some (.file i) →
      d'.identity = some (.file i) ∧ d'.files[i]? = d.files[i]?) (h : Holds d u) : Holds d' u := by
  obtain ⟨i, file, hi, hfile, hidentifies⟩ := h
  obtain ⟨hsame, hkept⟩ := hidentity i hi
  exact ⟨i, file, hsame, hkept.trans hfile, hidentifies⟩

theorem NodeInv.lt_length {d : NodeDirectory} (h : NodeInv d s) (hi : i < d.files.length) :
    i < s.state.files.length := by
  have hfile := h.initial i hi
  rw [List.getElem?_eq_getElem hi] at hfile
  exact (List.getElem?_eq_some_iff.mp hfile).1

theorem NodeInv.lt_of_identity {d : NodeDirectory} (hd : d.WellFormed) (h : NodeInv d s)
    (hi : s.state.identity = some (.file i)) : i < s.state.files.length := by
  rcases h.published with hsame | ⟨j, -, hj, u, -, hfile⟩
  · exact h.lt_length (hd i (hsame ▸ hi))
  · rw [hi, Option.some.injEq, PathEntry.file.injEq] at hj
    exact (List.getElem?_eq_some_iff.mp (hj ▸ hfile)).1

/-- The file at the path is complete if it is one of a caller. -/
theorem NodeInv.complete_of_owned {d : NodeDirectory}
    (hd : d.WellFormed) (h : NodeInv d s)
    (howns : Owns pid i s) (hi : s.state.identity = some (.file i)) : Complete s.state i := by
  rcases h.published with hsame | ⟨j, -, hj, hcomplete⟩
  · have hlt := hd i (hsame ▸ hi)
    have hge := (h.owned pid i howns).1
    omega
  · rw [hi, Option.some.injEq, PathEntry.file.injEq] at hj
    exact hj ▸ hcomplete

theorem NodePermit.owns (h : NodePermit pid r s) (htouches : r.Touches i) : Owns pid i s := by
  rcases htouches with rfl | rfl | rfl | ⟨text, rfl⟩
  · exact h
  · exact h
  · exact h
  · exact h.1

/-- No request changes what the path leads to. -/
theorem NodeInv.kept {d : NodeDirectory}
    (hd : d.WellFormed) (h : NodeInv d s)
    (hpermit : NodePermit pid r s) (heffect : NodeEffect r reply s.state state) (i : ℕ)
    (hi : s.state.identity = some (.file i)) :
    state.identity = some (.file i) ∧ state.files[i]? = s.state.files[i]? := by
  have hlt := h.lt_of_identity hd hi
  cases heffect with
  | idle hidentity hfiles htemporary hlink => exact ⟨hidentity.trans hi, by rw [hfiles]⟩
  | touched j f hfile hkeeps =>
      refine ⟨hi, ?_⟩
      by_cases hij : j = i
      · subst hij
        have howns := hpermit.owns hfile
        obtain ⟨u, -, hcomplete⟩ := h.complete_of_owned hd howns hi
        have hno : ∀ text, r ≠ .write j text := by
          rintro text rfl
          exact hpermit.2 hi
        simp [NodeDirectory.update, hcomplete, hkeeps hno]
      · simp [NodeDirectory.update, hij]
  | created => exact ⟨hi, List.getElem?_append_left hlt⟩
  | linked j hnone =>
      rw [hnone] at hi
      cases hi

theorem mem_log_after {e e' : Event NodeStep.Reply Exn} :
    e ∈ (s.after state e').log ↔ e ∈ s.log ∨ e = e' := by
  simp

/-- A new file is the one that the request created. -/
theorem owns_after (heffect : NodeEffect r reply s.state state)
    (h : Owns other i (s.after state (.call pid r reply))) :
    Owns other i s ∨ other = pid ∧ i = s.state.files.length ∧
      state.files = s.state.files ++ [⟨[], []⟩] := by
  rcases mem_log_after.mp h with hold | hnew
  · exact .inl hold
  · cases heffect with
    | idle hidentity hfiles htemporary hlink => exact absurd hnew.symm (htemporary pid other i)
    | touched j f hfile hkeeps =>
        cases hnew
        rcases hfile with h | h | h | ⟨text, h⟩ <;> cases h
    | created =>
        cases hnew
        exact .inr ⟨rfl, rfl, rfl⟩
    | linked j hnone => cases hnew

theorem linked_after (heffect : NodeEffect r reply s.state state)
    (h : Linked other i (s.after state (.call pid r reply))) :
    Linked other i s ∨ other = pid ∧ r = .link i ∧ state.identity = some (.file i) := by
  rcases mem_log_after.mp h with hold | hnew
  · exact .inl hold
  · cases heffect with
    | idle hidentity hfiles htemporary hlink => exact absurd hnew.symm (hlink pid other i)
    | touched j f hfile hkeeps =>
        cases hnew
        rcases hfile with h | h | h | ⟨text, h⟩ <;> cases h
    | created => cases hnew
    | linked j hnone =>
        cases hnew
        exact .inr ⟨rfl, rfl, rfl⟩

/-- A file stays as it is for all but its creator. -/
theorem NodeEffect.others (hpermit : NodePermit pid r s) (heffect : NodeEffect r reply s.state state)
    (hi : i < s.state.files.length) (hnot : ¬ Owns pid i s) :
    state.files[i]? = s.state.files[i]? := by
  cases heffect with
  | idle hidentity hfiles htemporary hlink => rw [hfiles]
  | touched j f hfile hkeeps =>
      have hne : j ≠ i := by
        rintro rfl
        exact hnot (hpermit.owns hfile)
      simp [NodeDirectory.update, hne]
  | created => exact List.getElem?_append_left hi
  | linked j hnone => rfl

theorem NodeEffect.length_le (heffect : NodeEffect r reply d d') :
    d.files.length ≤ d'.files.length := by
  cases heffect with
  | idle hidentity hfiles htemporary hlink => rw [hfiles]
  | touched j f hfile hkeeps => simp [NodeDirectory.update]
  | created => simp
  | linked j hnone => exact Nat.le_refl _

/-- The path changes only when it is first linked. -/
theorem NodeEffect.identity (heffect : NodeEffect r reply d d') :
    d'.identity = d.identity ∨ d.identity = none ∧ ∃ i, r = .link i ∧
      d'.identity = some (.file i) ∧ d'.files = d.files := by
  cases heffect with
  | idle hidentity hfiles htemporary hlink => exact .inl hidentity
  | touched j f hfile hkeeps => exact .inl rfl
  | created => exact .inl rfl
  | linked j hnone => exact .inr ⟨hnone, j, rfl, rfl, rfl⟩

theorem NodeInv.call {d : NodeDirectory} (hd : d.WellFormed) (h : NodeInv d s)
    (hpermit : NodePermit pid r s) (heffect : NodeEffect r reply s.state state) :
    NodeInv d (s.after state (.call pid r reply)) := by
  have hkept := h.kept hd hpermit heffect
  constructor
  case initial =>
    intro i hi
    refine (heffect.others hpermit (h.lt_length hi) fun howns => ?_).trans (h.initial i hi)
    have hge := (h.owned pid i howns).1
    omega
  case owned =>
    intro other i howns
    rcases owns_after heffect howns with hold | ⟨-, rfl, hfiles⟩
    · exact ⟨(h.owned other i hold).1, (h.owned other i hold).2.trans_le heffect.length_le⟩
    · refine ⟨?_, by simp [hfiles]⟩
      by_contra hlt
      exact absurd (h.lt_length (Nat.lt_of_not_le hlt)) (Nat.lt_irrefl _)
  case unique =>
    intro first second i hfirst hsecond
    rcases owns_after heffect hfirst with hold | ⟨rfl, rfl, -⟩
    · rcases owns_after heffect hsecond with hold' | ⟨-, rfl, -⟩
      · exact h.unique first second i hold hold'
      · exact absurd (h.owned first _ hold).2 (Nat.lt_irrefl _)
    · rcases owns_after heffect hsecond with hold' | ⟨rfl, -, -⟩
      · exact absurd (h.owned second _ hold').2 (Nat.lt_irrefl _)
      · rfl
  case published =>
    rcases h.published with hsame | ⟨i, hnone, hi, u, hversion, hfile⟩
    · rcases heffect.identity with hidentity | ⟨hnone, i, rfl, hi, hfiles⟩
      · exact .inl (hidentity.trans hsame)
      · obtain ⟨-, u, hversion, hfile⟩ := hpermit
        exact .inr ⟨i, hsame ▸ hnone, hi, u, hversion, hfiles ▸ hfile⟩
    · obtain ⟨hidentity, hfiles⟩ := hkept i hi
      exact .inr ⟨i, hnone, hidentity, u, hversion, hfiles.trans hfile⟩
  case linked =>
    intro other i hlinked
    rcases linked_after heffect hlinked with hold | ⟨rfl, rfl, hi⟩
    · obtain ⟨howns, hi⟩ := h.linked other i hold
      exact ⟨mem_log_after.mpr (.inl howns), (hkept i hi).1⟩
    · exact ⟨mem_log_after.mpr (.inl hpermit.1), hi⟩
  case reported =>
    intro other u created hreported
    have hstill {u : Uuid} {other : ℕ} (hholds : Holds s.state u ∧
        (created = true → ∃ i, Linked other i s)) : Holds state u ∧ (created = true →
          ∃ i, Linked other i (s.after state (.call pid r reply))) := by
      refine ⟨hholds.1.mono hkept, fun hcreated => ?_⟩
      obtain ⟨i, hlinked⟩ := hholds.2 hcreated
      exact ⟨i, mem_log_after.mpr (.inl hlinked)⟩
    rcases mem_log_after.mp hreported with hold | hnew
    · exact hstill (h.reported other u created hold)
    · cases hnew
      exact hstill hpermit

/-- One request is one of the others' moves. -/
theorem NodeInv.rely_call {d : NodeDirectory} (hd : d.WellFormed) (h : NodeInv d s)
    (hpermit : NodePermit pid r s) (heffect : NodeEffect r reply s.state state)
    (hother : other ≠ pid) : NodeRely other s (s.after state (.call pid r reply)) where
  log := fun e he => mem_log_after.mpr (.inl he)
  identity := by
    rcases heffect.identity with hidentity | ⟨hnone, i, rfl, hi, -⟩
    · exact .inl hidentity
    · exact .inr ⟨hnone, i, hi, fun howns => hother (h.unique other pid i howns hpermit.1)⟩
  owned := fun i howns => heffect.others hpermit (h.owned other i howns).2 fun hmine =>
    hother (h.unique other pid i howns hmine)
  published := fun i hi => (h.kept hd hpermit heffect i hi).2

variable {d : NodeDirectory}

theorem NodeRely.of_log (hlog : s.log ⊆ s'.log) (hstate : s'.state = s.state) :
    NodeRely pid s s' where
  log := hlog
  identity := .inl (by rw [hstate])
  owned := fun i _ => by rw [hstate]
  published := fun i _ => by rw [hstate]

/-- An event that is no request changes nothing that is known. -/
theorem NodeInv.event (h : NodeInv d s) {e : Event NodeStep.Reply Exn}
    (he : ∀ pid r reply, e ≠ .call pid r reply) : NodeInv d (s.after s.state e) := by
  have hmem {pid : ℕ} {r : NodeStep} {reply : Except Exn r.Reply} :
      .call pid r reply ∈ (s.after s.state e).log ↔ .call pid r reply ∈ s.log := by
    rw [mem_log_after, or_iff_left (he pid r reply).symm]
  constructor
  case initial => exact h.initial
  case owned => exact fun pid i howns => h.owned pid i (hmem.mp howns)
  case unique =>
    exact fun pid other i hpid hother => h.unique pid other i (hmem.mp hpid) (hmem.mp hother)
  case published => exact h.published
  case linked =>
    intro pid i hlinked
    obtain ⟨howns, hi⟩ := h.linked pid i (hmem.mp hlinked)
    exact ⟨hmem.mpr howns, hi⟩
  case reported =>
    intro pid u created hreported
    obtain ⟨hholds, hcreated⟩ := h.reported pid u created (hmem.mp hreported)
    refine ⟨hholds, fun htrue => ?_⟩
    obtain ⟨i, hlinked⟩ := hcreated htrue
    exact ⟨i, hmem.mpr hlinked⟩

theorem nodeProtocol_sound (hd : d.WellFormed) : (nodeProtocol d).Sound (nodeCalls d) where
  refl pid s := .of_log (fun _ he => he) rfl
  trans hab hbc := hab.trans hbc
  start state hstate := by
    obtain rfl : state = d := hstate
    constructor
    case initial => exact fun _ _ => rfl
    case published => exact .inl rfl
    case owned | unique | linked | reported =>
      intros
      simp_all [Owns, Linked, Reported]
  call hinv _ hpermit hperform := by
    have heffect := perform_nodeEffect hperform
    exact ⟨hinv.call hd hpermit heffect, fun other hother _ =>
      hinv.rely_call hd hpermit heffect hother⟩
  spawn pid hinv := ⟨hinv.event (fun _ _ _ h => by cases h), fun other _ =>
    .of_log (fun _ he => mem_log_after.mpr (.inl he)) rfl⟩
  crash pid hinv := ⟨hinv.event (fun _ _ _ h => by cases h), fun other _ =>
    .of_log (fun _ he => mem_log_after.mpr (.inl he)) rfl⟩
  drift _ hdrift := hdrift.elim

/-! ## The callers -/

/-- Safety of a part of a call, whatever it raises. -/
abbrev NodeSafe {α : Type} (d : NodeDirectory) (pid : ℕ) (p : NodeProg α)
    (Q : α → Snapshot nodeMachine → Prop) (s : Snapshot nodeMachine) : Prop :=
  Safe (nodeProtocol d) (nodeCalls d) pid p Q (fun _ _ => True) s

/-- A request that is always permitted. -/
theorem safe_nodeCall {r : NodeStep} {Q : r.Reply → Snapshot nodeMachine → Prop}
    (hpermit : ∀ s, NodePermit pid r s)
    (hok : ∀ s₀ env a state, NodeRely pid s s₀ → NodeInv d s₀ →
      NodeDirectory.perform env r s₀.state = (.ok a, state) →
        Q a (s₀.after state (.call pid r (.ok a)))) : NodeSafe d pid (nodeCall r) Q s := by
  refine Safe.call fun s₀ hrely hinv _ => ⟨hpermit s₀, ?_, fun _ _ _ _ => trivial⟩
  exact fun env a state => hok s₀ env a state hrely hinv

/-- The path leads to a file if anywhere. -/
def NoLink (s : Snapshot nodeMachine) : Prop :=
  s.state.identity ≠ some .symlink ∧ s.state.identity ≠ some .junction

theorem NodeRely.ne {entry : PathEntry} (hrely : NodeRely pid s s')
    (hentry : ∀ i, entry = .file i → Owns pid i s) (h : s.state.identity ≠ some entry) :
    s'.state.identity ≠ some entry := by
  rcases hrely.identity with hsame | ⟨-, i, hi, howns⟩
  · rwa [hsame]
  · intro heq
    rw [hi, Option.some.injEq] at heq
    exact howns (hentry i heq.symm)

/-- A look leaves the directory as it is. -/
theorem look_ok {α : Type} {env : NodeSurroundings} {answer : Except Exn α} {a : α}
    (h : d.look env answer = (.ok a, state)) : answer = .ok a ∧ state = d := by
  unfold NodeDirectory.look at h
  split at h
  · cases h
    exact ⟨rfl, rfl⟩
  · cases h

variable {K : Snapshot nodeMachine → Prop}

/-- What has been logged stays logged. -/
def Logged (K : Snapshot nodeMachine → Prop) : Prop :=
  ∀ s s', s.log ⊆ s'.log → K s → K s'

theorem Logged.after (hK : Logged K) (hs : K s) {s₀ : Snapshot nodeMachine}
    (hrely : NodeRely pid s s₀) {e : Event NodeStep.Reply Exn} : K (s₀.after state e) :=
  hK _ _ (List.subset_append_of_subset_left _ hrely.log) hs

theorem safe_isSymlink (hK : Logged K) (hs : K s) : NodeSafe d pid (nodeCall .isSymlink)
    (fun (symlink : Bool) s => (symlink = false → s.state.identity ≠ some .symlink) ∧ K s) s := by
  refine safe_nodeCall (fun _ => trivial) ?_
  intro s₀ env symlink state hrely _ hperform
  obtain ⟨hanswer, rfl⟩ := look_ok hperform
  have hsame : (s₀.state.identity == some .symlink) = symlink := Except.ok.inj hanswer
  refine ⟨fun hfalse => ?_, hK.after hs hrely⟩
  simpa using hsame.trans hfalse

theorem safe_isJunction (hK : Logged K) (hs : K s) (hsymlink : s.state.identity ≠ some .symlink) :
    NodeSafe d pid (nodeCall .isJunction) (fun (junction : Bool) s => (junction = false → NoLink s) ∧ K s) s := by
  refine safe_nodeCall (fun _ => trivial) ?_
  intro s₀ env junction state hrely _ hperform
  obtain ⟨hanswer, rfl⟩ := look_ok hperform
  have hsame : (s₀.state.identity == some .junction) = junction := Except.ok.inj hanswer
  refine ⟨fun hfalse => ⟨hrely.ne (fun i h => by cases h) hsymlink, ?_⟩, hK.after hs hrely⟩
  simpa using hsame.trans hfalse

/-- The text that is read is that of the identity. -/
theorem safe_readText (hK : Logged K) (hs : K s) (hlink : NoLink s) :
    NodeSafe d pid (nodeCall .readText)
      (fun text s => (∀ u, nodeIdOf text = .ok u → Holds s.state u) ∧ K s) s := by
  refine safe_nodeCall (fun _ => trivial) ?_
  intro s₀ env text state hrely _ hperform
  obtain ⟨hanswer, rfl⟩ := look_ok hperform
  refine ⟨fun u hu => ?_, hK.after hs hrely⟩
  have hsymlink := hrely.ne (fun i h => by cases h) hlink.1
  have hjunction := hrely.ne (fun i h => by cases h) hlink.2
  split at hanswer
  next bytes hbytes =>
    unfold NodeDirectory.bytes at hbytes
    split at hbytes
    · cases hbytes
    next i hi =>
      obtain ⟨file, hfile, rfl⟩ := Option.map_eq_some_iff.mp hbytes
      exact ⟨i, file, hi, hfile, text, hanswer, nodeIdOf_ok.mp hu⟩
    next entry hno hentry =>
      cases entry with
      | symlink => exact absurd hentry hsymlink
      | junction => exact absurd hentry hjunction
      | file i => exact absurd rfl (hno i)
  · cases hanswer

theorem safe_readNodeId (hK : Logged K) (hs : K s) :
    NodeSafe d pid readNodeId (fun u s => Holds s.state u ∧ K s) s := by
  have hraised (e : Exn) (s : Snapshot nodeMachine) (h : True) : True := h
  refine Safe.bind ((safe_isSymlink hK hs).mono ?_ hraised)
  intro (symlink : Bool) s₁ ⟨hsymlink, hs₁⟩
  have hlink : NodeSafe d pid (eitherOf symlink (nodeCall .isJunction))
      (fun link s => (link = false → NoLink s) ∧ K s) s₁ := by
    cases symlink with
    | true =>
        have hpost : (true = false → NoLink s₁) ∧ K s₁ := ⟨nofun, hs₁⟩
        exact hpost
    | false => exact safe_isJunction hK hs₁ (hsymlink rfl)
  refine Safe.bind (hlink.mono ?_ hraised)
  intro link s₂ ⟨hnolink, hs₂⟩
  cases link with
  | true => trivial
  | false =>
      refine Safe.bind ((safe_readText hK hs₂ (hnolink rfl)).mono ?_ hraised)
      intro text s₃ ⟨hholds, hs₃⟩
      cases hread : nodeIdOf text with
      | error e => trivial
      | ok u => exact ⟨hholds u hread, hs₃⟩

/-! ### The temporary file -/

/-- The process has the file for itself, with these contents. -/
structure Own (pid i : ℕ) (file : NodeFile) (s : Snapshot nodeMachine) : Prop where
  owns : Owns pid i s
  unlinked : s.state.identity ≠ some (.file i)
  file : s.state.files[i]? = some file

theorem Own.rely {file : NodeFile} (h : Own pid i file s) (hrely : NodeRely pid s s') :
    Own pid i file s' where
  owns := hrely.log h.owns
  unlinked := hrely.ne (fun j hj => by cases hj; exact h.owns) h.unlinked
  file := (hrely.owned i h.owns).trans h.file

/-- A request on the file, and what it makes of it. -/
theorem Own.onFile {file : NodeFile} {env : NodeSurroundings} {f g : NodeFile → NodeFile}
    (h : Own pid i file s) {x : Except Exn Unit} (hperform : s.state.onFile env i f g = (x, state))
    (e : Event NodeStep.Reply Exn) :
    x = .ok () ∧ Own pid i (f file) (s.after state e) ∨
      (∃ e, x = .error e) ∧ Own pid i (g file) (s.after state e) := by
  have hown (k : NodeFile → NodeFile) : Own pid i (k file) (s.after (s.state.update i k) e) :=
    ⟨mem_log_after.mpr (.inl h.owns), h.unlinked, by simp [NodeDirectory.update, h.file]⟩
  rcases NodeDirectory.onFile_cases hperform with ⟨hx, rfl⟩ | ⟨hx, rfl⟩
  · exact .inl ⟨hx, hown f⟩
  · exact .inr ⟨hx, hown g⟩

theorem safe_namedTemporaryFile (hd : d.WellFormed) :
    NodeSafe d pid (nodeCall .namedTemporaryFile) (fun i s => Own pid i ⟨[], []⟩ s) s := by
  refine safe_nodeCall (fun _ => trivial) ?_
  intro s₀ env i state _ hinv hperform
  simp only [NodeDirectory.perform] at hperform
  split at hperform
  · cases hperform
  · cases hperform
    refine ⟨mem_log_after.mpr (.inr rfl), ?_, by simp⟩
    intro hi
    exact Nat.lt_irrefl _ (hinv.lt_of_identity hd hi)

/-- The process still has the file for itself. -/
def Keeps (pid i : ℕ) (s : Snapshot nodeMachine) : Prop :=
  ∃ file, Own pid i file s

theorem safe_write {text : List Char} (h : Own pid i ⟨[], []⟩ s) :
    Safe (nodeProtocol d) (nodeCalls d) pid (nodeCall (.write i text))
      (fun _ s => ∃ file, Own pid i file s ∧ file.contents ++ file.buffer = text)
      (fun _ => Keeps pid i) s := by
  refine Safe.call fun s₀ hrely _ _ => ?_
  have hown := h.rely hrely
  refine ⟨⟨hown.owns, hown.unlinked⟩, ?_, ?_⟩
  · intro env a state hperform
    rcases hown.onFile hperform (.call pid (.write i text) (.ok a)) with ⟨-, hnext⟩ | ⟨⟨e, he⟩, -⟩
    · exact ⟨_, hnext, by simp [NodeFile.advance]⟩
    · cases he
  · intro env e state hperform
    rcases hown.onFile hperform (.call pid (.write i text) (.error e)) with ⟨he, -⟩ | ⟨-, hnext⟩
    · cases he
    · exact ⟨_, hnext⟩

theorem safe_flush {text : List Char} {file : NodeFile} (h : Own pid i file s)
    (htext : file.contents ++ file.buffer = text) :
    Safe (nodeProtocol d) (nodeCalls d) pid (nodeCall (.flush i))
      (fun _ s => Own pid i ⟨text, []⟩ s) (fun _ => Keeps pid i) s := by
  refine Safe.call fun s₀ hrely _ _ => ?_
  have hown := h.rely hrely
  refine ⟨hown.owns, ?_, ?_⟩
  · intro env a state hperform
    rcases hown.onFile hperform (.call pid (.flush i) (.ok a)) with ⟨-, hnext⟩ | ⟨⟨e, he⟩, -⟩
    · simpa [NodeFile.advance, htext] using hnext
    · cases he
  · intro env e state hperform
    rcases hown.onFile hperform (.call pid (.flush i) (.error e)) with ⟨he, -⟩ | ⟨-, hnext⟩
    · cases he
    · exact ⟨_, hnext⟩

theorem safe_fsync {file : NodeFile} (h : Own pid i file s) :
    Safe (nodeProtocol d) (nodeCalls d) pid (nodeCall (.fsync i))
      (fun _ s => Own pid i file s) (fun _ => Keeps pid i) s := by
  refine Safe.call fun s₀ hrely _ _ => ?_
  have hown := h.rely hrely
  refine ⟨hown.owns, ?_, ?_⟩
  · intro env a state hperform
    rcases hown.onFile hperform (.call pid (.fsync i) (.ok a)) with ⟨-, hnext⟩ | ⟨-, hnext⟩
    · exact hnext
    · exact hnext
  · intro env e state hperform
    rcases hown.onFile hperform (.call pid (.fsync i) (.error e)) with ⟨he, -⟩ | ⟨-, hnext⟩
    · cases he
    · exact ⟨_, hnext⟩

theorem safe_close {file : NodeFile} (h : Own pid i file s) :
    NodeSafe d pid (nodeCall (.close i))
      (fun _ s => Own pid i ⟨file.contents ++ file.buffer, []⟩ s) s := by
  refine Safe.call fun s₀ hrely _ _ => ?_
  have hown := h.rely hrely
  refine ⟨hown.owns, ?_, fun _ _ _ _ => trivial⟩
  intro env a state hperform
  rcases hown.onFile hperform (.call pid (.close i) (.ok a)) with ⟨-, hnext⟩ | ⟨⟨e, he⟩, -⟩
  · simpa [NodeFile.advance] using hnext
  · cases he

/-- After the block of `with`, all of the identity is on disk. -/
theorem safe_writeTemporary {nodeId : Uuid} (h : Own pid i ⟨[], []⟩ s) :
    NodeSafe d pid (writeTemporary i nodeId) (fun _ s => Own pid i ⟨identityLine nodeId, []⟩ s) s := by
  have hblock : Safe (nodeProtocol d) (nodeCalls d) pid (do
      nodeCall (.write i (identityLine nodeId))
      nodeCall (.flush i)
      nodeCall (.fsync i)) (fun _ s => Own pid i ⟨identityLine nodeId, []⟩ s)
      (fun _ => Keeps pid i) s := by
    refine Safe.bind ((safe_write h).mono ?_ fun _ _ hkeeps => hkeeps)
    rintro - s₁ ⟨file, hown, htext⟩
    refine Safe.bind ((safe_flush hown htext).mono ?_ fun _ _ hkeeps => hkeeps)
    intro _ s₂ hown
    exact safe_fsync hown
  refine Safe.andFinally (hblock.mono ?_ ?_)
  · intro _ s₁ hown
    have hclose := safe_close hown (d := d)
    rw [List.append_nil] at hclose
    exact hclose
  · rintro e s₁ ⟨file, hown⟩
    exact (safe_close hown).mono (fun _ _ _ => trivial) fun _ _ _ => trivial

theorem safe_link {nodeId : Uuid} (hversion : nodeId.version = some 4)
    (h : Own pid i ⟨identityLine nodeId, []⟩ s) :
    NodeSafe d pid (publish i) (fun created s => created = true → ∃ i, Linked pid i s) s := by
  refine Safe.except (Safe.bind (Safe.call fun s₀ hrely _ _ => ?_))
  have hown := h.rely hrely
  refine ⟨⟨hown.owns, nodeId, hversion, hown.file⟩, ?_, ?_⟩
  · intro env _ state _ _
    exact ⟨i, mem_log_after.mpr (.inr rfl)⟩
  · intro env e state _
    split
    · intro hcreated
      cases hcreated
    · trivial

theorem safe_unlink (hK : Logged K) (hs : K s) :
    NodeSafe d pid (nodeCall (.unlink i)) (fun _ s => K s) s :=
  safe_nodeCall (fun _ => trivial) fun _ _ _ _ hrely _ _ => hK.after hs hrely

theorem logged_linked {created : Bool} :
    Logged fun s => created = true → ∃ i, Linked pid i s := by
  intro s s' hlog h hcreated
  obtain ⟨i, hlinked⟩ := h hcreated
  exact ⟨i, hlog hlinked⟩

theorem safe_createNodeId (hd : d.WellFormed) {nodeId : Uuid} (hversion : nodeId.version = some 4) :
    NodeSafe d pid (createNodeId nodeId) (fun created s => created = true → ∃ i, Linked pid i s) s := by
  have hraised (e : Exn) (s : Snapshot nodeMachine) (h : True) : True := h
  refine Safe.bind ((safe_namedTemporaryFile hd).mono ?_ hraised)
  intro (i : ℕ) s₁ hown
  have hblock : NodeSafe d pid (do
      writeTemporary i nodeId
      publish i) (fun created s => created = true → ∃ i, Linked pid i s) s₁ := by
    refine Safe.bind ((safe_writeTemporary hown).mono ?_ hraised)
    intro _ s₂ hcomplete
    exact safe_link hversion hcomplete
  refine Safe.andFinally (hblock.mono ?_ ?_)
  · intro created s₂ hlinked
    exact safe_unlink logged_linked hlinked
  · intro e s₂ _
    exact safe_unlink (K := fun _ => True) (fun _ _ _ _ => trivial) trivial

/-- Whoever is returned an identity is returned the one that the path leads to, and is told to
have created it only if its own link has put it there. -/
theorem safe_persistentNodeId (hd : d.WellFormed) :
    NodeSafe d pid persistentNodeId
      (fun x s => Holds s.state x.1 ∧ (x.2 = true → ∃ i, Linked pid i s)) s := by
  have hraised (e : Exn) (s : Snapshot nodeMachine) (h : True) : True := h
  have hany {r : NodeStep} (hpermit : ∀ s, NodePermit pid r s) (s : Snapshot nodeMachine) :
      NodeSafe d pid (nodeCall r) (fun _ _ => True) s :=
    safe_nodeCall hpermit fun _ _ _ _ _ _ _ => trivial
  have hread (created : Bool) {s : Snapshot nodeMachine} (hs : created = true → ∃ i, Linked pid i s) :
      NodeSafe d pid readNodeId
        (fun u s => Holds s.state u ∧ (created = true → ∃ i, Linked pid i s)) s :=
    safe_readNodeId logged_linked hs
  refine Safe.bind ((hany (r := .makeParent) (fun _ => trivial) s).mono ?_ hraised)
  intro _ s₁ _
  refine Safe.bind ((hany (r := .pathExists) (fun _ => trivial) s₁).mono ?_ hraised)
  intro (there : Bool) s₂ _
  have hfound : NodeSafe d pid (eitherOf there (nodeCall .isSymlink)) (fun _ _ => True) s₂ := by
    cases there with
    | true => trivial
    | false => exact hany (r := .isSymlink) (fun _ => trivial) s₂
  refine Safe.bind (hfound.mono ?_ hraised)
  intro found s₃ _
  cases found with
  | true =>
      refine Safe.bind ((hread false (fun hfalse => by cases hfalse)).mono ?_ hraised)
      exact fun u s₄ hu => hu
  | false =>
      have huuid : NodeSafe d pid (nodeCall .uuid4)
          (fun (nodeId : Uuid) _ => nodeId.version = some 4) s₃ := by
        refine safe_nodeCall (fun _ => trivial) ?_
        intro s₀ env nodeId state _ _ hperform
        obtain ⟨hanswer, rfl⟩ := look_ok hperform
        have hsame : env.uuid4.1 = nodeId := Except.ok.inj hanswer
        exact hsame ▸ env.uuid4.2
      refine Safe.bind (huuid.mono ?_ hraised)
      intro (nodeId : Uuid) s₄ hversion
      refine Safe.bind ((safe_createNodeId hd hversion).mono ?_ hraised)
      intro created s₅ hlinked
      refine Safe.bind ((hread created hlinked).mono ?_ hraised)
      intro persisted s₆ hpersisted
      split
      · trivial
      · exact hpersisted

theorem safe_nodeCaller (hd : d.WellFormed) :
    NodeSafe d pid nodeCaller (fun _ _ => True) s := by
  refine Safe.bind ((safe_persistentNodeId hd).mono ?_ fun _ _ h => h)
  rintro ⟨nodeId, created⟩ s₁ ⟨hholds, hcreated⟩
  refine Safe.call fun s₀ hrely hinv _ => ⟨⟨?_, ?_⟩, fun _ _ _ _ => trivial, fun _ _ _ _ => trivial⟩
  · refine hholds.mono fun i hi => ?_
    rcases hrely.identity with hsame | ⟨hnone, -⟩
    · exact ⟨hsame.trans hi, hrely.published i hi⟩
    · rw [hnone] at hi
      cases hi
  · exact logged_linked s₁ s₀ hrely.log hcreated

end Protocol

/-! ## Whole runs -/

/-- The bytes of the file that the path names. -/
def NodeDirectory.published (d : NodeDirectory) : Option (List Char) :=
  match d.identity with
  | some (.file i) => (d.files[i]?).map NodeFile.contents
  | _ => none

section Runs

variable {d : NodeDirectory} {s s' : System nodeMachine} {pid other : ℕ} {u v : Uuid}
  {created : Bool}

theorem NodeInv.reachable (hd : d.WellFormed) (h : Reachable (nodeCalls d) s) :
    NodeInv d s.snap := by
  refine (h.keeps (nodeProtocol_sound hd) ?_).inv
  rintro p rfl pid s _ _
  exact safe_nodeCaller hd

/-- Where no identity was at first, the path leads to a complete one if anywhere. -/
theorem NodeInv.published_complete {s : Snapshot nodeMachine} (h : NodeInv d s)
    (hnone : d.identity = none) {entry : PathEntry} (hentry : s.state.identity = some entry) :
    ∃ u : Uuid, u.version = some 4 ∧ s.state.published = some (identityLine u) := by
  rcases h.published with hsame | ⟨i, -, hi, u, hversion, hfile⟩
  · rw [hsame, hnone] at hentry
    cases hentry
  · refine ⟨u, hversion, ?_⟩
    simp [NodeDirectory.published, hi, hfile]

/-- What was returned is what the path leads to. -/
theorem NodeInv.published_reported {s : Snapshot nodeMachine} (h : NodeInv d s)
    (hnone : d.identity = none) (hreported : Reported pid u created s) :
    u.version = some 4 ∧ s.state.published = some (identityLine u) := by
  obtain ⟨⟨i, file, hi, hfile, hidentifies⟩, -⟩ := h.reported pid u created hreported
  obtain ⟨v, hversion, hpublished⟩ := h.published_complete hnone hi
  have hcontents : file.contents = identityLine v := by
    simpa [NodeDirectory.published, hi, hfile] using hpublished
  rw [hcontents] at hidentifies
  obtain rfl := identifies_identityLine hidentifies
  exact ⟨hversion, hpublished⟩

theorem Reported.steps (h : Reported pid u created s.snap) (hsteps : Steps (nodeCalls d) s s') :
    Reported pid u created s'.snap := by
  induction hsteps with
  | refl => exact h
  | tail _ hstep ih => exact hstep.log_grows.subset ih

theorem uses_true {ι α ε : Type} {ρ : ι → Type} (p : Program ρ ε α) : p.Uses fun _ => True := by
  induction p with
  | ret a => trivial
  | raise e => trivial
  | request r next ih => exact ⟨trivial, ih⟩

/-- A caller that has ended has told what it was returned. -/
theorem reported_of_ended (h : Reachable (nodeCalls d) s)
    (hended : s.threads[pid]? = some (some (.ret ()))) :
    ∃ u created, Reported pid u created s.snap := by
  have htraced : Traced (fun _ _ => True) nodeCaller
      (fun _ l => ∃ u created, ⟨.report u created, .ok ()⟩ ∈ l) (fun _ _ => True) [] := by
    refine Traced.bind ((Traced.of_uses (K := fun _ => True) (fun _ _ _ _ => trivial)
      (fun _ _ _ _ _ => trivial) (uses_true persistentNodeId) trivial).mono ?_ fun _ _ h => h)
    rintro ⟨nodeId, created⟩ l -
    exact Traced.call trivial
      (fun _ => ⟨nodeId, created, List.mem_append_right l List.mem_cons_self⟩) fun _ => trivial
  have hpid : pid < s.threads.length := (List.getElem?_eq_some_iff.mp hended).1
  obtain ⟨p, q, rfl, hpath, hcurrent⟩ := h.traces.paths pid hpid
  obtain ⟨u, created, hmem⟩ := System.On.returned ⟨hpid, q, hpath, hcurrent⟩ htraced hended
  exact ⟨u, created, mem_exchanges.mp hmem⟩

/-- On a path that is absent at first, all callers that return are returned one UUID4, which is
in the file from then on, and one of them at most is told to have created it; nobody ever finds
a part of an identity there. A file that identifies no node makes every caller fail, and stays. -/
theorem one_node_identity (h : Reachable (nodeCalls d) s) :
    (d.identity = none →
      (∀ pid u created, Reported pid u created s.snap → u.version = some 4 ∧
        ∀ s', Steps (nodeCalls d) s s' → s'.snap.state.published = some (identityLine u)) ∧
      (∀ pid other u v created created', Reported pid u created s.snap →
        Reported other v created' s.snap → u = v) ∧
      (∀ pid other u v, Reported pid u true s.snap → Reported other v true s.snap → pid = other) ∧
      ∀ entry, s.snap.state.identity = some entry →
        ∃ u : Uuid, u.version = some 4 ∧ s.snap.state.published = some (identityLine u)) ∧
    ∀ i file, d.identity = some (.file i) → d.files[i]? = some file →
      (∀ u, ¬ Identifies file.contents u) →
        s.snap.state.identity = some (.file i) ∧ s.snap.state.files[i]? = some file ∧
        (∀ pid u created, ¬ Reported pid u created s.snap) ∧
        ∀ pid : ℕ, s.threads[pid]? ≠ some (some (Program.ret ())) := by
  refine ⟨fun hnone => ?_, fun i file hi hfile hnot => ?_⟩
  · have hd : d.WellFormed := fun i hi => by
      rw [hnone] at hi
      cases hi
    have hinv := NodeInv.reachable hd h
    refine ⟨?_, ?_, ?_, fun entry => hinv.published_complete hnone⟩
    · intro pid u created hreported
      refine ⟨(hinv.published_reported hnone hreported).1, fun s' hsteps => ?_⟩
      have hlater := NodeInv.reachable hd (h.steps hsteps)
      exact (hlater.published_reported hnone (hreported.steps hsteps)).2
    · intro pid other u v created created' hu hv
      have hsame := (hinv.published_reported hnone hu).2.symm.trans
        (hinv.published_reported hnone hv).2
      rw [Option.some.injEq, identityLine, identityLine, List.append_left_inj] at hsame
      exact Uuid.text_injective hsame
    · intro pid other u v hu hv
      obtain ⟨i, hlinked⟩ := (hinv.reported pid u true hu).2 rfl
      obtain ⟨j, hother⟩ := (hinv.reported other v true hv).2 rfl
      obtain ⟨howns, hi⟩ := hinv.linked pid i hlinked
      obtain ⟨howns', hj⟩ := hinv.linked other j hother
      rw [hi, Option.some.injEq, PathEntry.file.injEq] at hj
      exact hinv.unique pid other i howns (hj ▸ howns')
  · have hlt : i < d.files.length := (List.getElem?_eq_some_iff.mp hfile).1
    have hd : d.WellFormed := fun j hj => by
      rw [hi, Option.some.injEq, PathEntry.file.injEq] at hj
      exact hj ▸ hlt
    have hinv := NodeInv.reachable hd h
    have hidentity : s.snap.state.identity = some (.file i) := by
      rcases hinv.published with hsame | ⟨j, hnone, -⟩
      · exact hsame.trans hi
      · rw [hi] at hnone
        cases hnone
    have hkept : s.snap.state.files[i]? = some file := (hinv.initial i hlt).trans hfile
    have hnobody (pid : ℕ) (u : Uuid) (created : Bool) : ¬ Reported pid u created s.snap := by
      intro hreported
      obtain ⟨⟨j, other, hj, hother, hidentifies⟩, -⟩ := hinv.reported pid u created hreported
      rw [hidentity, Option.some.injEq, PathEntry.file.injEq] at hj
      subst hj
      rw [hkept, Option.some.injEq] at hother
      exact hnot u (hother ▸ hidentifies)
    refine ⟨hidentity, hkept, hnobody, fun pid hended => ?_⟩
    obtain ⟨u, created, hreported⟩ := reported_of_ended h hended
    exact hnobody pid u created hreported

end Runs

/-! ## One caller -/

namespace Sample

/-- `00000000-0000-4000-8000-000000000001`. -/
def nodeUuid : Uuid where
  int := 4 * 16 ^ 19 + 8 * 16 ^ 15 + 1
  bounded := by decide

/-- Every request works. -/
def aloneOnNode : NodeSurroundings where
  fault := none
  moved := 0
  target := none
  uuid4 := ⟨nodeUuid, by decide⟩

/-- A directory without an identity. -/
def noIdentity : NodeDirectory where
  files := []
  identity := none
  temporaries := []

/-- One caller, up to its end. -/
def named : System nodeMachine :=
  (System.started ⟨⟨noIdentity, []⟩, []⟩ nodeCaller).driven 0 (List.replicate 15 aloneOnNode)

/-- The event that tells of a created identity. -/
def createsIdentity : Event NodeStep.Reply Exn → Bool
  | .call _ (.report u created) (.ok _) => decide (u = nodeUuid) && created
  | _ => false

end Sample

open Sample in
theorem one_node_identity_named :
    (∃ pid, Reported pid nodeUuid true named.snap) ∧
      named.snap.state.published = some "00000000-0000-4000-8000-000000000001\n".toList := by
  have hreach : Reachable (nodeCalls noIdentity) named :=
    (Reachable.start noIdentity rfl).steps
      (.head (.spawn _ nodeCaller rfl) (Steps.driven (fun _ _ _ => trivial) _ 0 _))
  obtain ⟨e, he, hcreates⟩ : ∃ e ∈ named.snap.log, createsIdentity e = true := by
    rw [← List.any_eq_true]
    decide +kernel
  unfold createsIdentity at hcreates
  split at hcreates
  next pid u created reply =>
    simp only [Bool.and_eq_true, decide_eq_true_eq] at hcreates
    obtain ⟨rfl, rfl⟩ := hcreates
    have hreturned := ((one_node_identity hreach).1 rfl).1 pid nodeUuid true he
    refine ⟨⟨pid, he⟩, (hreturned.2 named .refl).trans ?_⟩
    decide +kernel
  next => cases hcreates

end Dante
