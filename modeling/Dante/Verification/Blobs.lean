import Dante.Library.Trace
import Dante.Model.ArtifactStore
import Dante.Model.Reference
import Dante.Verification.Operations

/-! # Content-addressed artifacts are immutable

A blob is linked only after its bytes are complete, and nobody writes to it afterwards. -/

namespace Dante

open JsonText Relational Concurrent

/-- `hexdigest` writes hexadecimal digits. -/
class HexDigests [Platform] : Prop where
  hex : ∀ data, ∀ c ∈ (Platform.sha256 data).toList, c ∈ "0123456789abcdef".toList

/-! ## Files -/

namespace StorePath

/-- The name of a temporary file. -/
def Temporary (p : StorePath) : Prop :=
  ∃ suffix, p.name = "tmp" ++ suffix

/-- The path as text. -/
def text [Platform] (p : StorePath) : String :=
  Platform.join p.directory p.name

/-- No digest is the name of a temporary file. -/
theorem not_temporary [Platform] [HexDigests] (directory : String) (data : ByteArray) :
    ¬Temporary ⟨directory, Platform.sha256 data⟩ := by
  rintro ⟨suffix, hname⟩
  have hmem : 't' ∈ (Platform.sha256 data).toList := by
    have htext : Platform.sha256 data = "tmp" ++ suffix := hname
    rw [htext, String.toList_append]
    simp
  have hhex := HexDigests.hex data 't' hmem
  revert hhex
  decide

end StorePath

namespace Disk

variable {d : Disk} {p q : StorePath} {i : ℕ} {data : ByteArray}

theorem read_eq_some : d.read p = some data ↔ ∃ i, d.entries p = some i ∧ d.contents i = data :=
  Option.map_eq_some_iff

@[simp] theorem create_resolution : (d.create p).resolution = d.resolution := rfl
@[simp] theorem write_resolution : (d.write i data).resolution = d.resolution := rfl
@[simp] theorem enter_resolution (hi : i < d.next) :
    (d.enter p i hi).resolution = d.resolution := rfl
@[simp] theorem remove_resolution : (d.remove p).resolution = d.resolution := rfl

@[simp] theorem create_entries : (d.create p).entries = Function.update d.entries p (some d.next) :=
  rfl
@[simp] theorem write_entries : (d.write i data).entries = d.entries := rfl
@[simp] theorem enter_entries (hi : i < d.next) :
    (d.enter p i hi).entries = Function.update d.entries p (some i) := rfl
@[simp] theorem remove_entries : (d.remove p).entries = Function.update d.entries p none := rfl

@[simp] theorem create_contents :
    (d.create p).contents = Function.update d.contents d.next ByteArray.empty := rfl
@[simp] theorem write_contents : (d.write i data).contents = Function.update d.contents i data :=
  rfl
@[simp] theorem enter_contents (hi : i < d.next) : (d.enter p i hi).contents = d.contents := rfl
@[simp] theorem remove_contents : (d.remove p).contents = d.contents := rfl

@[simp] theorem create_next : (d.create p).next = d.next + 1 := rfl
@[simp] theorem write_next : (d.write i data).next = d.next := rfl
@[simp] theorem enter_next (hi : i < d.next) : (d.enter p i hi).next = d.next := rfl
@[simp] theorem remove_next : (d.remove p).next = d.next := rfl

end Disk

/-! ## What one exchange does to the files -/

section Exchanges

variable [Platform]

/-- A request of the store with its reply. -/
abbrev StoreExchange := Exchange StoreStep.Reply Exn

/-- An exchange that neither changes a file nor reads one. -/
def SilentExchange : StoreExchange → Prop
  | ⟨.createTemporary _, .ok _⟩ => False
  | ⟨.write .., _⟩ => False
  | ⟨.fileDigest _, .ok _⟩ => False
  | ⟨.resolve _, .ok _⟩ => False
  | _ => True

/-- The disk before and after an exchange. -/
inductive Disk.Moves : StoreExchange → Disk → Disk → Prop where
  | created {d : Disk} {directory : String} {p : StorePath} (htemporary : p.Temporary)
      (hnew : d.entries p = none) : Moves ⟨.createTemporary directory, .ok (p, d.next)⟩ d (d.create p)
  | wrote {d : Disk} {i : ℕ} {data bytes : ByteArray} {reply : Except Exn Unit}
      (hdone : reply = .ok () → bytes = data) : Moves ⟨.write i data, reply⟩ d (d.write i bytes)
  | linked {d : Disk} {source target : StorePath} {i : ℕ} (hsource : d.entries source = some i)
      (htarget : d.entries target = none) :
      Moves ⟨.link source target, .ok .linked⟩ d (d.enter target i (d.allocated source i hsource))
  | removed {d : Disk} {p : StorePath} : Moves ⟨.unlink p, .ok ()⟩ d (d.remove p)
  | digested {d : Disk} {p : StorePath} {data : ByteArray} (hread : d.read p = some data) :
      Moves ⟨.fileDigest p, .ok (Platform.sha256 data)⟩ d d
  | resolved {d : Disk} {path directory : String} (h : d.resolution path = .ok directory) :
      Moves ⟨.resolve path, .ok directory⟩ d d
  | silent {d : Disk} {x : StoreExchange} (h : SilentExchange x) : Moves x d d

/-- Every request of the store moves the disk so. -/
theorem store_moves {env : StoreChance} {r : StoreStep} {w w' : StoreWorld}
    {reply : Except Exn r.Reply} (h : store env r w = (reply, w')) :
    Disk.Moves ⟨r, reply⟩ w.disk w'.disk := by
  cases r with
  | resolve path =>
      cases h
      cases hpath : w.disk.resolution path with
      | ok directory => exact .resolved hpath
      | error e => exact .silent trivial
  | createTemporary directory =>
      simp only [store, Disk.createTemporary] at h
      by_cases hfails : env.fails = true
      · rw [if_pos hfails] at h
        cases h
        exact .silent trivial
      · rw [if_neg hfails] at h
        split at h
        next occupied =>
          cases h
          exact .silent trivial
        next hnew =>
          cases h
          exact .created ⟨_, rfl⟩ hnew
  | write handle data =>
      simp only [store] at h
      by_cases hfails : env.fails = true
      · rw [if_pos hfails] at h
        cases h
        exact .wrote fun hok => by cases hok
      · rw [if_neg hfails] at h
        cases h
        exact .wrote fun _ => rfl
  | link source target =>
      simp only [store, Disk.link] at h
      by_cases hfails : env.fails = true
      · rw [if_pos hfails] at h
        cases h
        exact .silent trivial
      · rw [if_neg hfails] at h
        split at h
        next hmissing =>
          cases h
          exact .silent trivial
        next i hsource =>
          split at h
          next occupied =>
            cases h
            exact .silent trivial
          next htarget =>
            cases h
            exact .linked hsource htarget
  | fileDigest target =>
      simp only [store] at h
      by_cases hfails : env.fails = true
      · rw [if_pos hfails] at h
        cases h
        exact .silent trivial
      · rw [if_neg hfails] at h
        cases h
        cases hread : w.disk.read target with
        | none =>
            simp only [Disk.digest, hread]
            exact .silent trivial
        | some data =>
            simp only [Disk.digest, hread]
            exact .digested hread
  | unlink path =>
      simp only [store] at h
      by_cases hfails : env.fails = true
      · rw [if_pos hfails] at h
        cases h
        exact .silent trivial
      · rw [if_neg hfails] at h
        cases h
        exact .removed
  | addArtifact artifact =>
      simp only [store] at h
      split at h <;> cases h <;> exact .silent trivial
  | mkdir directory =>
      simp only [store] at h
      split at h <;> cases h <;> exact .silent trivial
  | _ =>
      cases h
      exact .silent trivial

namespace Disk.Moves

variable {x : StoreExchange} {d d' : Disk} {p : StorePath} {i : ℕ}

theorem next_le (h : Moves x d d') : d.next ≤ d'.next := by
  cases h with
  | created htemporary hnew => exact Nat.le_succ _
  | _ => exact Nat.le_refl _

theorem resolution_eq (h : Moves x d d') : d'.resolution = d.resolution := by
  cases h <;> rfl

/-- A name stays until it is removed. -/
theorem keeps (h : Moves x d d') (hp : d.entries p = some i) (hx : x ≠ ⟨.unlink p, .ok ()⟩) :
    d'.entries p = some i := by
  cases h with
  | created htemporary hnew =>
      rw [create_entries, Function.update_of_ne (by rintro rfl; simp_all), hp]
  | linked hsource htarget =>
      rw [enter_entries, Function.update_of_ne (by rintro rfl; simp_all), hp]
  | removed =>
      rw [remove_entries, Function.update_of_ne (by rintro rfl; exact hx rfl), hp]
  | _ => exact hp

/-- Where a name comes from. -/
theorem entered (h : Moves x d d') (hp : d'.entries p = some i) :
    d.entries p = some i ∨ (∃ directory, x = ⟨.createTemporary directory, .ok (p, i)⟩) ∨
      ∃ source, x = ⟨.link source p, .ok .linked⟩ ∧ d.entries source = some i := by
  cases h with
  | @created _ directory q htemporary hnew =>
      by_cases hq : p = q
      · subst hq
        rw [create_entries, Function.update_self, Option.some.injEq] at hp
        exact .inr (.inl ⟨directory, by rw [hp]⟩)
      · rw [create_entries, Function.update_of_ne hq] at hp
        exact .inl hp
  | @linked _ source q j hsource htarget =>
      by_cases hq : p = q
      · subst hq
        rw [enter_entries, Function.update_self, Option.some.injEq] at hp
        exact .inr (.inr ⟨source, rfl, hp ▸ hsource⟩)
      · rw [enter_entries, Function.update_of_ne hq] at hp
        exact .inl hp
  | @removed _ q =>
      by_cases hq : p = q
      · subst hq
        rw [remove_entries, Function.update_self] at hp
        cases hp
      · rw [remove_entries, Function.update_of_ne hq] at hp
        exact .inl hp
  | _ => exact .inl hp

/-- Only a write changes a file that exists. -/
theorem contents_eq (h : Moves x d d') (hi : i < d.next)
    (hx : ∀ data reply, x ≠ ⟨.write i data, reply⟩) : d'.contents i = d.contents i := by
  cases h with
  | created htemporary hnew =>
      rw [create_contents, Function.update_of_ne (Nat.ne_of_lt hi)]
  | @wrote _ j data bytes reply hdone =>
      rw [write_contents, Function.update_of_ne (by rintro rfl; exact hx data reply rfl)]
  | _ => rfl

theorem of_created {directory : String}
    (h : Moves ⟨.createTemporary directory, .ok (p, i)⟩ d d') :
    p.Temporary ∧ i = d.next ∧ d'.next = d.next + 1 ∧ d'.entries p = some i := by
  cases h with
  | created htemporary hnew => exact ⟨htemporary, rfl, rfl, by simp⟩
  | silent hx => exact hx.elim

theorem of_written {data : ByteArray} (h : Moves ⟨.write i data, .ok ()⟩ d d') :
    d'.contents i = data := by
  cases h with
  | wrote hdone => rw [write_contents, Function.update_self, hdone rfl]
  | silent hx => exact hx.elim

theorem of_resolved {path directory : String} (h : Moves ⟨.resolve path, .ok directory⟩ d d') :
    d'.resolution path = .ok directory := by
  cases h with
  | resolved hpath => exact hpath
  | silent hx => exact hx.elim

theorem of_digested {digest : String} (h : Moves ⟨.fileDigest p, .ok digest⟩ d d') :
    ∃ data, d'.read p = some data ∧ digest = Platform.sha256 data := by
  cases h with
  | digested hread => exact ⟨_, hread, rfl⟩
  | silent hx => exact hx.elim

end Disk.Moves

end Exchanges

/-! ## What `create` asks, and when -/

namespace ArtifactStore

variable [Platform]

abbrev Exchanges := List StoreExchange

/-- What a call may ask, given its earlier exchanges: it writes its bytes once and into its own
temporary file, links that file only when it is complete and still there, and records the
artifact only after the digest of the blob has been checked. -/
def Allows (root : String) (c : Call) (l : Exchanges) : StoreStep → Prop
  | .createTemporary _ => ∀ directory reply, ⟨.createTemporary directory, reply⟩ ∉ l
  | .write handle data => data = c.data ∧
      (∃ directory p, ⟨.createTemporary directory, .ok (p, handle)⟩ ∈ l) ∧
      ∀ handle data reply, ⟨.write handle data, reply⟩ ∉ l
  | .link source target => target.name = c.checksum ∧
      (∃ directory handle, ⟨.createTemporary directory, .ok (source, handle)⟩ ∈ l ∧
        ⟨.write handle c.data, .ok ()⟩ ∈ l) ∧
      ∀ p reply, ⟨.unlink p, reply⟩ ∉ l
  | .unlink p => (∃ directory handle, ⟨.createTemporary directory, .ok (p, handle)⟩ ∈ l) ∧
      ∀ p reply, ⟨.unlink p, reply⟩ ∉ l
  | .addArtifact artifact => ∃ artifactId directory, artifact = c.artifact artifactId directory ∧
      ⟨.resolve (blobs root c.checksum), .ok directory⟩ ∈ l ∧
      ⟨.fileDigest ⟨directory, c.checksum⟩, .ok c.checksum⟩ ∈ l
  | _ => True

/-- Nothing has been asked that touches a file. -/
def Unopened (l : Exchanges) : Prop :=
  (∀ directory reply, ⟨.createTemporary directory, reply⟩ ∉ l) ∧
    (∀ handle data reply, ⟨.write handle data, reply⟩ ∉ l) ∧ ∀ p reply, ⟨.unlink p, reply⟩ ∉ l

/-- Requests that leave the files alone. -/
def Reads : StoreStep → Prop
  | .getTask _ | .getStep .. | .resolve _ | .mkdir _ | .uuid4 => True
  | _ => False

variable {root : String} {c : Call} {l : Exchanges} {r : StoreStep}

omit [Platform] in
theorem Unopened.snoc (h : Unopened l) (hr : Reads r) (reply : Except Exn r.Reply) :
    Unopened (l ++ [⟨r, reply⟩]) := by
  obtain ⟨hcreate, hwrite, hunlink⟩ := h
  refine ⟨fun directory reply hmem => ?_, fun handle data reply hmem => ?_, fun p reply hmem => ?_⟩
  all_goals
    rw [List.mem_append, List.mem_singleton] at hmem
    rcases hmem with hmem | heq
  · exact hcreate _ _ hmem
  · cases heq
    exact hr
  · exact hwrite _ _ _ hmem
  · cases heq
    exact hr
  · exact hunlink _ _ hmem
  · cases heq
    exact hr

/-- The exceptions of `create` are not looked at. -/
abbrev Raised : Exn → Exchanges → Prop := fun _ _ => True

theorem check_traced (h : Unopened l) :
    Traced (Allows root c) c.check (fun _ => Unopened) Raised l := by
  refine Traced.bind (Traced.ofExcept (fun _ _ => ?_) fun _ _ => trivial)
  refine Traced.bind (Traced.call trivial (fun task => ?_) fun _ => trivial)
  have htask := h.snoc (r := .getTask c.taskId) trivial (.ok task)
  cases c.step with
  | none => exact htask
  | some id =>
      refine Traced.bind (Traced.call trivial (fun step => ?_) fun _ => trivial)
      exact htask.snoc (r := .getStep c.taskId id) trivial (.ok step)

/-- The directory of the blob has been resolved. -/
def Placed (root : String) (c : Call) (directory : String) (l : Exchanges) : Prop :=
  ⟨.resolve (blobs root c.checksum), .ok directory⟩ ∈ l

theorem Placed.snoc {directory : String} (h : Placed root c directory l) (x : StoreExchange) :
    Placed root c directory (l ++ [x]) :=
  List.mem_append_left _ h

theorem place_traced (h : Unopened l) :
    Traced (Allows root c) (c.place root)
      (fun directory l => Unopened l ∧ Placed root c directory l) Raised l := by
  refine Traced.bind (Traced.call trivial (fun directory => ?_) fun _ => trivial)
  have hresolved := h.snoc (r := .resolve (blobs root c.checksum)) trivial (.ok directory)
  refine Traced.bind (Traced.ofExcept (fun _ _ => ?_) fun _ _ => trivial)
  refine Traced.bind (Traced.call trivial (fun u => ?_) fun _ => trivial)
  exact ⟨hresolved.snoc (r := .mkdir directory) trivial (.ok u), Placed.snoc (List.mem_append_right _ (List.mem_singleton_self _)) _⟩

/-- The temporary file is open, or closed again, and its name has not been removed. -/
structure Open (root : String) (c : Call) (directory : String) (temporary : StorePath)
    (l : Exchanges) : Prop where
  placed : Placed root c directory l
  opened : ∃ directory handle, ⟨.createTemporary directory, .ok (temporary, handle)⟩ ∈ l
  present : ∀ p reply, ⟨.unlink p, reply⟩ ∉ l

variable {directory : String} {temporary : StorePath} {handle : ℕ}

theorem Open.snoc (h : Open root c directory temporary l) (hr : ∀ p, r ≠ .unlink p)
    (reply : Except Exn r.Reply) : Open root c directory temporary (l ++ [⟨r, reply⟩]) := by
  obtain ⟨hplaced, ⟨made, handle, hopened⟩, hpresent⟩ := h
  refine ⟨hplaced.snoc _, ⟨made, handle, List.mem_append_left _ hopened⟩, fun p reply hmem => ?_⟩
  rw [List.mem_append, List.mem_singleton] at hmem
  rcases hmem with hmem | heq
  · exact hpresent p reply hmem
  · cases heq
    exact hr p rfl

/-- The blob has been read, and its digest is right. -/
def Checked (c : Call) (directory : String) (l : Exchanges) : Prop :=
  ⟨.fileDigest ⟨directory, c.checksum⟩, .ok c.checksum⟩ ∈ l

theorem publish_traced (h : Open root c directory temporary l)
    (hmade : ∃ made, ⟨.createTemporary made, .ok (temporary, handle)⟩ ∈ l)
    (hunwritten : ∀ handle data reply, ⟨.write handle data, reply⟩ ∉ l) :
    Traced (Allows root c) (c.publish temporary handle ⟨directory, c.checksum⟩)
      (fun _ l => Open root c directory temporary l ∧ Checked c directory l)
      (fun _ l => Open root c directory temporary l) l := by
  obtain ⟨made, hmade⟩ := hmade
  refine Traced.bind (Traced.call ⟨rfl, ⟨made, temporary, hmade⟩, hunwritten⟩ (fun u => ?_)
    fun e => h.snoc (by rintro p ⟨⟩) _)
  have hwritten := h.snoc (r := .write handle c.data) (by rintro p ⟨⟩) (.ok u)
  refine Traced.bind (Traced.call ⟨rfl, ⟨made, handle, ?_, ?_⟩, hwritten.present⟩
    (fun outcome => ?_) fun e => hwritten.snoc (by rintro p ⟨⟩) _)
  · exact List.mem_append_left _ hmade
  · exact List.mem_append_right _ (List.mem_singleton_self _)
  have hlinked := hwritten.snoc (r := .link temporary ⟨directory, c.checksum⟩) (by rintro p ⟨⟩)
    (.ok outcome)
  refine Traced.bind (Traced.call trivial (fun actual => ?_) fun e =>
    hlinked.snoc (by rintro p ⟨⟩) _)
  have hread := hlinked.snoc (r := .fileDigest ⟨directory, c.checksum⟩) (by rintro p ⟨⟩)
    (.ok actual)
  refine Traced.ofExcept (fun _ hchecked => ⟨hread, ?_⟩) fun _ _ => hread
  have hactual : actual = c.checksum := eq_of_beq (α := String) (require_eq_ok.mp hchecked)
  subst hactual
  exact List.mem_append_right _ (List.mem_singleton_self _)

/-- The artifact that the call returns is on record. -/
def Committed (artifact : Artifact) (l : Exchanges) : Prop :=
  ∃ task, ⟨.addArtifact artifact, .ok task⟩ ∈ l

theorem create_traced (root : String) (c : Call) :
    Traced (Allows root c) (create root c) Committed Raised [] := by
  refine Traced.bind ((check_traced (l := []) ⟨by simp, by simp, by simp⟩).mono ?_
    fun _ _ _ => trivial)
  intro _ l h
  refine Traced.bind ((place_traced h).mono ?_ fun _ _ _ => trivial)
  rintro directory l ⟨h, hplaced⟩
  refine Traced.bind (Traced.call h.1 (fun made => ?_) fun _ => trivial)
  obtain ⟨temporary, handle⟩ := made
  have hmade := List.mem_append_right l (List.mem_singleton_self
    (⟨.createTemporary directory, .ok (temporary, handle)⟩ : StoreExchange))
  have hopen : Open root c directory temporary
      (l ++ [⟨.createTemporary directory, .ok (temporary, handle)⟩]) := by
    refine ⟨hplaced.snoc _, ⟨directory, handle, hmade⟩, fun p reply hmem => ?_⟩
    rw [List.mem_append, List.mem_singleton] at hmem
    rcases hmem with hmem | heq
    · exact h.2.2 p reply hmem
    · cases heq
  refine Traced.bind (Traced.andFinally ((publish_traced hopen ⟨directory, hmade⟩ ?_).mono ?_ ?_))
  · intro handle data reply hmem
    rw [List.mem_append, List.mem_singleton] at hmem
    rcases hmem with hmem | heq
    · exact h.2.1 handle data reply hmem
    · cases heq
  · rintro _ l ⟨hopen, hchecked⟩
    refine Traced.call ⟨hopen.opened, hopen.present⟩ (fun _ => ?_) fun _ => trivial
    refine Traced.bind (Traced.call trivial (fun artifactId => ?_) fun _ => trivial)
    refine Traced.bind (Traced.call ⟨artifactId, directory, rfl, ?_, ?_⟩ (fun task => ?_)
      fun _ => trivial)
    · exact (hopen.placed.snoc _).snoc _
    · exact List.mem_append_left _ (List.mem_append_left _ hchecked)
    · exact ⟨task, List.mem_append_right _ (List.mem_singleton_self _)⟩
  · intro _ l hopen
    exact Traced.call ⟨hopen.opened, hopen.present⟩ (fun _ => trivial) fun _ => trivial

end ArtifactStore

/-! ## Any number of calls -/

section Calls

variable [Platform]

open ArtifactStore

/-- A process that makes one call. -/
def creating (root : String) (c : Call) : StoreProg Unit :=
  (create root c).bind fun _ => .ret ()

/-- Any number of calls over one root, on any ledger and any files. -/
def storeCalls (root : String) : Rules storeMachine where
  start := fun _ => True
  program := fun p => ∃ c, p = creating root c
  admits := fun _ _ _ => True

theorem creating_traced (root : String) (c : Call) :
    Traced (Allows root c) (creating root c) (fun _ l => ∃ a, Committed a l) Raised [] :=
  Traced.bind ((create_traced root c).mono (fun a _ h => ⟨a, h⟩) fun _ _ h => h)

variable {root : String} {s s' : System storeMachine} {pid : ℕ} {c : Call}

/-! ### What every reachable state satisfies -/

/-- How the files relate to what the calls have done so far. -/
structure Published (s : Snapshot storeMachine) : Prop where
  /-- A temporary file of a call is its own. -/
  made : ∀ {pid directory p i},
    .call pid (.createTemporary directory) (.ok (p, i)) ∈ s.log →
      p.Temporary ∧ i < s.state.disk.next
  apart : ∀ {pid pid' directory directory' p p' i},
    .call pid (.createTemporary directory) (.ok (p, i)) ∈ s.log →
      .call pid' (.createTemporary directory') (.ok (p', i)) ∈ s.log → pid = pid'
  held : ∀ {pid directory p i},
    .call pid (.createTemporary directory) (.ok (p, i)) ∈ s.log →
      (∀ q reply, .call pid (.unlink q) reply ∉ s.log) → s.state.disk.entries p = some i
  /-- What has been written stays. -/
  writer : ∀ {pid i data reply}, .call pid (.write i data) reply ∈ s.log →
    ∃ directory p, .call pid (.createTemporary directory) (.ok (p, i)) ∈ s.log
  written : ∀ {pid i data}, .call pid (.write i data) (.ok ()) ∈ s.log →
    s.state.disk.contents i = data
  /-- A blob that a call has linked is complete. -/
  linked : ∀ {pid directory p q i}, s.state.disk.entries p = some i → ¬p.Temporary →
    .call pid (.createTemporary directory) (.ok (q, i)) ∈ s.log →
      ∃ data, .call pid (.write i data) (.ok ()) ∈ s.log
  resolved : ∀ {pid path directory}, .call pid (.resolve path) (.ok directory) ∈ s.log →
    s.state.disk.resolution path = .ok directory
  /-- A digest that a call has read is still the digest of the file. -/
  verified : ∀ {pid p digest}, .call pid (.fileDigest p) (.ok digest) ∈ s.log → ¬p.Temporary →
    ∃ data, s.state.disk.read p = some data ∧ digest = Platform.sha256 data

variable {snap : Snapshot storeMachine} {st : StoreWorld} {r : StoreStep}
  {reply : Except Exn r.Reply}

/-- The file that a call may write to is not yet in use under a name of its own. -/
theorem Published.unwritten (h : Published snap) {i : ℕ} {data : ByteArray}
    (hallowed : Allows root c (exchanges pid snap.log) (.write i data)) {p : StorePath}
    (hp : ¬p.Temporary) : snap.state.disk.entries p ≠ some i := by
  intro hentry
  obtain ⟨-, ⟨directory, q, hmade⟩, honce⟩ := hallowed
  obtain ⟨data', hwritten⟩ := h.linked hentry hp (mem_exchanges.mp hmade)
  exact honce i data' (.ok ()) (mem_exchanges.mpr hwritten)

/-- Files other than temporary ones never change. -/
theorem Published.read_stays (h : Published snap)
    (hallowed : Allows root c (exchanges pid snap.log) r)
    (hmoves : Disk.Moves ⟨r, reply⟩ snap.state.disk st.disk) {p : StorePath} {data : ByteArray}
    (hp : ¬p.Temporary) (hread : snap.state.disk.read p = some data) :
    st.disk.read p = some data := by
  obtain ⟨i, hentry, hcontents⟩ := Disk.read_eq_some.mp hread
  refine Disk.read_eq_some.mpr ⟨i, hmoves.keeps hentry ?_, ?_⟩
  · intro heq
    cases heq
    obtain ⟨⟨directory, handle, hmade⟩, -⟩ := hallowed
    exact hp (h.made (mem_exchanges.mp hmade)).1
  · rw [hmoves.contents_eq (snap.state.disk.allocated p i hentry) ?_, hcontents]
    intro data' reply' heq
    cases heq
    exact h.unwritten hallowed hp hentry

/-- A logged event was there before, or it is the new one. -/
theorem mem_after {e : Event StoreStep.Reply Exn} {x : Event StoreStep.Reply Exn} :
    e ∈ (snap.after st x).log ↔ e ∈ snap.log ∨ e = x := by
  simp

theorem Published.temporary_next (h : Published snap) {directory : String} {p : StorePath} {i : ℕ}
    (hmade : .call pid (.createTemporary directory) (.ok (p, i)) ∈ snap.log) :
    i ≠ snap.state.disk.next :=
  Nat.ne_of_lt (h.made hmade).2

theorem Published.call [HexDigests] (h : Published snap)
    (hallowed : Allows root c (exchanges pid snap.log) r)
    (hmoves : Disk.Moves ⟨r, reply⟩ snap.state.disk st.disk) :
    Published (snap.after st (.call pid r reply)) where
  made := by
    intro other directory p i hmem
    rcases mem_after.mp hmem with hold | heq
    · obtain ⟨htemporary, hlt⟩ := h.made hold
      exact ⟨htemporary, Nat.lt_of_lt_of_le hlt hmoves.next_le⟩
    · cases heq
      obtain ⟨htemporary, rfl, hnext, -⟩ := hmoves.of_created
      exact ⟨htemporary, by rw [Snapshot.after_state, hnext]; exact Nat.lt_succ_self _⟩
  apart := by
    intro one other directory directory' p p' i hone hother
    rcases mem_after.mp hone with hfirst | heq <;> rcases mem_after.mp hother with hsecond | heq'
    · exact h.apart hfirst hsecond
    · cases heq'
      exact absurd hmoves.of_created.2.1 (h.temporary_next hfirst)
    · cases heq
      exact absurd hmoves.of_created.2.1 (h.temporary_next hsecond)
    · cases heq
      cases heq'
      rfl
  held := by
    intro other directory p i hmem hpresent
    rcases mem_after.mp hmem with hold | heq
    · have hbefore (q : StorePath) (reply' : Except Exn Unit) :
          .call other (.unlink q) reply' ∉ snap.log :=
        fun hq => hpresent q reply' (mem_after.mpr (.inl hq))
      have hentry := h.held hold hbefore
      refine hmoves.keeps hentry fun heq => ?_
      -- whoever removes the name has made it, and so is this very process
      cases heq
      obtain ⟨⟨made, j, hmade⟩, hfirst⟩ := hallowed
      have hother := h.held (mem_exchanges.mp hmade) fun q reply' hq =>
        hfirst q reply' (mem_exchanges.mpr hq)
      obtain rfl : i = j := Option.some.inj (hentry.symm.trans hother)
      obtain rfl := h.apart hold (mem_exchanges.mp hmade)
      exact hpresent p (.ok ()) (mem_after.mpr (.inr rfl))
    · cases heq
      exact hmoves.of_created.2.2.2
  writer := by
    intro other i data reply' hmem
    rcases mem_after.mp hmem with hold | heq
    · obtain ⟨directory, p, hmade⟩ := h.writer hold
      exact ⟨directory, p, mem_after.mpr (.inl hmade)⟩
    · cases heq
      obtain ⟨-, ⟨directory, p, hmade⟩, -⟩ := hallowed
      exact ⟨directory, p, mem_after.mpr (.inl (mem_exchanges.mp hmade))⟩
  written := by
    intro other i data hmem
    rcases mem_after.mp hmem with hold | heq
    · obtain ⟨directory, p, hmade⟩ := h.writer hold
      rw [Snapshot.after_state, hmoves.contents_eq (h.made hmade).2 ?_, h.written hold]
      -- the process that made the file has written already
      intro data' reply' heq
      cases heq
      obtain ⟨-, ⟨directory', p', hmade'⟩, honce⟩ := hallowed
      obtain rfl := h.apart hmade (mem_exchanges.mp hmade')
      exact honce i data (.ok ()) (mem_exchanges.mpr hold)
    · cases heq
      exact hmoves.of_written
  linked := by
    intro other directory p q i hentry hp hmem
    have hold (hmade : .call other (.createTemporary directory) (.ok (q, i)) ∈ snap.log)
        (hbefore : snap.state.disk.entries p = some i) :
        ∃ data, .call other (.write i data) (.ok ()) ∈ (snap.after st (.call pid r reply)).log := by
      obtain ⟨data, hwritten⟩ := h.linked hbefore hp hmade
      exact ⟨data, mem_after.mpr (.inl hwritten)⟩
    rcases mem_after.mp hmem with hmade | heq
    · rcases hmoves.entered hentry with hbefore | ⟨made, heq⟩ | ⟨source, heq, hsource⟩
      · exact hold hmade hbefore
      · cases heq
        exact absurd hmoves.of_created.2.1 (h.temporary_next hmade)
      · cases heq
        obtain ⟨-, ⟨directory', handle, hmade', hwritten⟩, hpresent⟩ := hallowed
        have hheld := h.held (mem_exchanges.mp hmade') fun q' reply' hq =>
          hpresent q' reply' (mem_exchanges.mpr hq)
        obtain rfl : i = handle := Option.some.inj (hsource.symm.trans hheld)
        obtain rfl := h.apart hmade (mem_exchanges.mp hmade')
        exact ⟨c.data, mem_after.mpr (.inl (mem_exchanges.mp hwritten))⟩
    · cases heq
      obtain ⟨htemporary, rfl, -, -⟩ := hmoves.of_created
      rcases hmoves.entered hentry with hbefore | ⟨made, heq⟩ | ⟨source, heq, -⟩
      · exact absurd (snap.state.disk.allocated _ _ hbefore) (Nat.lt_irrefl _)
      · cases heq
        exact absurd htemporary hp
      · cases heq
  resolved := by
    intro other path directory hmem
    rcases mem_after.mp hmem with hold | heq
    · rw [Snapshot.after_state, hmoves.resolution_eq]
      exact h.resolved hold
    · cases heq
      exact hmoves.of_resolved
  verified := by
    intro other p digest hmem hp
    rcases mem_after.mp hmem with hold | heq
    · obtain ⟨data, hread, hdigest⟩ := h.verified hold hp
      exact ⟨data, h.read_stays hallowed hmoves hp hread, hdigest⟩
    · cases heq
      exact hmoves.of_digested

/-- Nothing that matters here has happened. -/
theorem Published.frame (h : Published snap) {snap' : Snapshot storeMachine}
    (hdisk : snap'.state.disk = snap.state.disk)
    (hlog : ∀ pid r reply, .call pid r reply ∈ snap'.log ↔ .call pid r reply ∈ snap.log) :
    Published snap' := by
  constructor <;> simp only [hdisk, hlog]
  · exact h.made
  · exact h.apart
  · exact h.held
  · exact h.writer
  · exact h.written
  · exact h.linked
  · exact h.resolved
  · exact h.verified

theorem Published.start (w : StoreWorld) : Published ⟨w, []⟩ := by
  constructor <;> simp

/-- What the call that a step logs was allowed by. -/
theorem Step.storeAllowed (hs : Reachable (storeCalls root) s) (h : Step (storeCalls root) s s')
    (hlog : s'.snap.log = s.snap.log ++ [.call pid r reply]) :
    ∃ c, Allows root c (exchanges pid s.snap.log) r := by
  have hs' := hs.step h
  have hpid : pid < s'.threads.length := hs'.traces.known (.call pid r reply) (by simp [hlog])
  obtain ⟨p, hbegan⟩ := hs'.began hpid
  obtain ⟨-, -, ⟨c, rfl⟩, -, -⟩ := id hbegan
  exact ⟨c, hbegan.on.asks (creating_traced root c) hlog⟩

variable [HexDigests]

theorem Published.step (hs : Reachable (storeCalls root) s) (hpublished : Published s.snap)
    (h : Step (storeCalls root) s s') : Published s'.snap := by
  have hallowed (pid : ℕ) (r : StoreStep) (reply : Except Exn r.Reply) :
      s'.snap.log = s.snap.log ++ [.call pid r reply] →
        ∃ c, Allows root c (exchanges pid s.snap.log) r := Step.storeAllowed hs h
  cases h with
  | spawn p hp => exact hpublished.frame rfl (by simp)
  | crash pid hpid => exact hpublished.frame rfl (by simp)
  | drift state hdrift => exact hpublished.frame hdrift (by simp)
  | call pid r next env reply state hthread hadmits hperform =>
      obtain ⟨c, hc⟩ := hallowed pid r reply rfl
      exact hpublished.call hc (store_moves hperform)

theorem Published.reachable (h : Reachable (storeCalls root) s) : Published s.snap := by
  induction h with
  | start st hst => exact .start st
  | step hs hstep ih => exact ih.step hs hstep

/-- A file that is not a temporary one stays as it is. -/
theorem Step.read_stays (hs : Reachable (storeCalls root) s) (h : Step (storeCalls root) s s')
    {p : StorePath} {data : ByteArray} (hp : ¬p.Temporary)
    (hread : s.snap.state.disk.read p = some data) : s'.snap.state.disk.read p = some data := by
  have hallowed (pid : ℕ) (r : StoreStep) (reply : Except Exn r.Reply) :
      s'.snap.log = s.snap.log ++ [.call pid r reply] →
        ∃ c, Allows root c (exchanges pid s.snap.log) r := Step.storeAllowed hs h
  cases h with
  | spawn p hp => exact hread
  | crash pid hpid => exact hread
  | drift state hdrift =>
      have hdisk : state.disk = s.snap.state.disk := hdrift
      rwa [← hdisk] at hread
  | call pid r next env reply state hthread hadmits hperform =>
      obtain ⟨c, hc⟩ := hallowed pid r reply rfl
      exact (Published.reachable hs).read_stays hc (store_moves hperform) hp hread

theorem Steps.read_stays (hs : Reachable (storeCalls root) s) (h : Steps (storeCalls root) s s')
    {p : StorePath} {data : ByteArray} (hp : ¬p.Temporary)
    (hread : s.snap.state.disk.read p = some data) : s'.snap.state.disk.read p = some data := by
  induction h with
  | refl => exact hread
  | tail hsteps hstep ih => exact Step.read_stays (hs.steps hsteps) hstep hp ih

/-! ### Over all runs -/

/-- `blobs/sha256/xx/checksum` under the root. -/
def Disk.blob (d : Disk) (root : String) (data : ByteArray) : Option StorePath :=
  match d.resolution (blobs root (Platform.sha256 data)) with
  | .ok directory => some ⟨directory, Platform.sha256 data⟩
  | .error _ => none

omit [HexDigests] in
theorem Disk.blob_eq_some {d : Disk} {data : ByteArray} {p : StorePath} :
    d.blob root data = some p ↔ ∃ directory,
      d.resolution (blobs root (Platform.sha256 data)) = .ok directory ∧
        p = ⟨directory, Platform.sha256 data⟩ := by
  unfold blob
  split
  next directory h => simp [h, eq_comm]
  next e h => simp [h]

/-- The artifact names the blob of these bytes, which is complete. -/
structure Artifact.Backed (root : String) (d : Disk) (data : ByteArray) (a : Artifact) : Prop where
  file : ∃ p, d.blob root data = some p ∧ d.read p = some data ∧ a.path = p.text
  checksum : a.checksumSha256 = Platform.sha256 data

/-- What a call may record is backed by a file. -/
theorem Published.backed (h : Published snap) {artifact : Artifact}
    (hallowed : Allows root c (exchanges pid snap.log) (.addArtifact artifact)) :
    artifact.Backed root snap.state.disk c.data := by
  obtain ⟨artifactId, directory, rfl, hresolved, hdigest⟩ := hallowed
  obtain ⟨data, hread, hsame⟩ := h.verified (mem_exchanges.mp hdigest)
    (StorePath.not_temporary directory c.data)
  obtain rfl := Platform.sha256_injective hsame
  exact ⟨⟨⟨directory, c.checksum⟩,
    Disk.blob_eq_some.mpr ⟨directory, h.resolved (mem_exchanges.mp hresolved), rfl⟩, hread, rfl⟩,
    rfl⟩

omit [HexDigests] in
theorem Step.resolution_stays (h : Step (storeCalls root) s s') :
    s'.snap.state.disk.resolution = s.snap.state.disk.resolution := by
  rcases h.state_cases with hsame | hdrift | ⟨pid, r, env, reply, -, hperform, -⟩
  · rw [hsame]
  · have hdisk : s'.snap.state.disk = s.snap.state.disk := hdrift
    rw [hdisk]
  · exact (store_moves hperform).resolution_eq

omit [HexDigests] in
theorem Steps.blob_stays (h : Steps (storeCalls root) s s') (data : ByteArray) :
    s'.snap.state.disk.blob root data = s.snap.state.disk.blob root data := by
  have hsame : s'.snap.state.disk.resolution = s.snap.state.disk.resolution := by
    induction h with
    | refl => rfl
    | tail _ hstep ih => rw [Step.resolution_stays hstep, ih]
  unfold Disk.blob
  rw [hsame]

omit [HexDigests] in
theorem Artifact.Backed.path_eq {d d' : Disk} {data : ByteArray} {a b : Artifact}
    (ha : a.Backed root d data) (hb : b.Backed root d' data)
    (hsame : d'.blob root data = d.blob root data) : a.path = b.path := by
  obtain ⟨p, hp, -, htext⟩ := ha.file
  obtain ⟨q, hq, -, htext'⟩ := hb.file
  obtain rfl : p = q := Option.some.inj (hp.symm.trans (hsame.symm.trans hq))
  rw [htext, htext']

/-- Once a blob exists it stays as it is. -/
theorem Steps.blob_read_stays (hs : Reachable (storeCalls root) s)
    (h : Steps (storeCalls root) s s') {data bytes : ByteArray} {p : StorePath}
    (hblob : s.snap.state.disk.blob root data = some p)
    (hread : s.snap.state.disk.read p = some bytes) :
    s'.snap.state.disk.blob root data = some p ∧ s'.snap.state.disk.read p = some bytes := by
  rw [Steps.blob_stays h]
  obtain ⟨directory, -, rfl⟩ := Disk.blob_eq_some.mp hblob
  exact ⟨hblob, Steps.read_stays hs h (StorePath.not_temporary directory data) hread⟩

/-- What a call has asked to record is backed ever since. -/
theorem Began.backed (h : Began (storeCalls root) s pid (creating root c)) {artifact : Artifact}
    {reply : Except Exn Task} (hlog : .call pid (.addArtifact artifact) reply ∈ s.snap.log) :
    artifact.Backed root s.snap.state.disk c.data := by
  obtain ⟨before, after, hsplit⟩ := List.append_of_mem hlog
  have hallowed := h.on.asks (creating_traced root c) hsplit
  suffices hnow : Allows root c (exchanges pid s.snap.log) (.addArtifact artifact) from
    (Published.reachable h.reachable).backed hnow
  obtain ⟨artifactId, directory, rfl, hresolved, hdigest⟩ := hallowed
  rw [hsplit, exchanges_append]
  exact ⟨artifactId, directory, rfl, List.mem_append_left _ hresolved,
    List.mem_append_left _ hdigest⟩

/-- The step that records an artifact finds it backed, and adds its row. -/
theorem Began.commits (h : Began (storeCalls root) s pid (creating root c))
    (hstep : Step (storeCalls root) s s') {artifact : Artifact} {task : Task}
    (hlog : s'.snap.log = s.snap.log ++ [.call pid (.addArtifact artifact) (.ok task)]) :
    artifact.Backed root s.snap.state.disk c.data ∧
      artifact.stored ∈ s'.snap.state.db.artifacts.rows := by
  constructor
  · have hallowed := (h.steps (.single hstep)).on.asks (creating_traced root c) hlog
    exact (Published.reachable h.reachable).backed hallowed
  · obtain ⟨env, hperform⟩ := hstep.performed hlog
    simp only [store] at hperform
    split at hperform
    next added db hadded =>
      obtain ⟨row, artifacts, -, -, hinserted, rfl⟩ := addArtifact_ok hadded
      have hdb := congrArg (fun x => x.2.db.artifacts.rows) hperform
      have hrows : s'.snap.state.db.artifacts.rows = artifacts.rows := hdb.symm
      rw [hrows, Table.rows_insert hinserted]
      exact List.mem_append_right _ (List.mem_singleton_self _)
    next e hfailed =>
      cases congrArg Prod.fst hperform

/-- A blob that does not match its checksum stops every call for these bytes. -/
theorem Began.refused (h : Began (storeCalls root) s pid (creating root c)) {p : StorePath}
    {bytes : ByteArray} (hblob : s.snap.state.disk.blob root c.data = some p)
    (hread : s.snap.state.disk.read p = some bytes)
    (hcorrupt : Platform.sha256 bytes ≠ Platform.sha256 c.data) :
    (∀ artifact reply, .call pid (.addArtifact artifact) reply ∉ s.snap.log) ∧
      s.threads[pid]? ≠ some (some (.ret ())) := by
  have hunrecorded (artifact : Artifact) (reply : Except Exn Task) :
      .call pid (.addArtifact artifact) reply ∉ s.snap.log := by
    intro hlog
    obtain ⟨q, hq, hread', -⟩ := (Began.backed h hlog).file
    obtain rfl : p = q := Option.some.inj (hblob.symm.trans hq)
    obtain rfl : bytes = c.data := Option.some.inj (hread.symm.trans hread')
    exact hcorrupt rfl
  refine ⟨hunrecorded, fun hended => ?_⟩
  obtain ⟨artifact, task, hcommitted⟩ := h.on.returned (creating_traced root c) hended
  exact hunrecorded artifact (.ok task) (mem_exchanges.mp hcommitted)

/-- Over any interleaving of calls, with crashes at any point: a blob never changes once it
exists, an artifact is recorded only when its blob holds the bytes of the call, equal bytes have
one path, and a blob that does not match its checksum is left alone and makes the call raise. -/
theorem artifacts_immutable (hs : Reachable (storeCalls root) s)
    (hsteps : Steps (storeCalls root) s s') :
    (∀ pid < s.threads.length, ∃ c, Began (storeCalls root) s pid (creating root c)) ∧
    (∀ data p bytes, s.snap.state.disk.blob root data = some p →
      s.snap.state.disk.read p = some bytes →
        s'.snap.state.disk.blob root data = some p ∧ s'.snap.state.disk.read p = some bytes) ∧
    (∀ pid c artifact task next, Began (storeCalls root) s pid (creating root c) →
      Step (storeCalls root) s next →
      next.snap.log = s.snap.log ++ [.call pid (.addArtifact artifact) (.ok task)] →
        artifact.Backed root s.snap.state.disk c.data ∧
          artifact.stored ∈ next.snap.state.db.artifacts.rows) ∧
    (∀ pid c artifact task pid' c' artifact' task',
      Began (storeCalls root) s pid (creating root c) →
      Began (storeCalls root) s' pid' (creating root c') →
      .call pid (.addArtifact artifact) (.ok task) ∈ s.snap.log →
      .call pid' (.addArtifact artifact') (.ok task') ∈ s'.snap.log →
        c.data = c'.data → artifact.path = artifact'.path) ∧
    ∀ pid c p bytes, Began (storeCalls root) s' pid (creating root c) →
      s.snap.state.disk.blob root c.data = some p → s.snap.state.disk.read p = some bytes →
      Platform.sha256 bytes ≠ Platform.sha256 c.data →
        (∀ artifact reply, .call pid (.addArtifact artifact) reply ∉ s'.snap.log) ∧
          (∀ q, s'.threads[pid]? = some (some q) →
            (∃ r next, q = .request r next) ∨ ∃ e, q = .raise e) ∧
          s'.snap.state.disk.read p = some bytes := by
  refine ⟨?_, fun data p bytes hblob hread => Steps.blob_read_stays hs hsteps hblob hread,
    fun pid c artifact task next hbegan hstep hlog => Began.commits hbegan hstep hlog, ?_, ?_⟩
  · intro pid hpid
    obtain ⟨p, hbegan⟩ := hs.began hpid
    obtain ⟨-, -, ⟨c, rfl⟩, -, -⟩ := id hbegan
    exact ⟨c, hbegan⟩
  · intro pid c artifact task pid' c' artifact' task' hbegan hbegan' hlog hlog' hdata
    have hlater := Began.backed hbegan' hlog'
    rw [← hdata] at hlater
    exact (Began.backed hbegan hlog).path_eq hlater (Steps.blob_stays hsteps c.data)
  · intro pid c p bytes hbegan hblob hread hcorrupt
    obtain ⟨hblob', hread'⟩ := Steps.blob_read_stays hs hsteps hblob hread
    obtain ⟨hunrecorded, hunreturned⟩ := Began.refused hbegan hblob' hread' hcorrupt
    refine ⟨hunrecorded, fun q hq => ?_, hread'⟩
    cases q with
    | ret u => exact absurd hq hunreturned
    | raise e => exact .inr ⟨e, rfl⟩
    | request r next => exact .inl ⟨r, next, rfl⟩

end Calls

section Stored

/-! ### Hexadecimal digests -/

/-- The two hexadecimal digits of a byte. -/
def hexByte (b : UInt8) : List Char :=
  [Nat.digitChar (b.toNat / 16), Nat.digitChar (b.toNat % 16)]

def hexText (data : ByteArray) : String :=
  String.ofList (data.data.toList.flatMap hexByte)

theorem digitChar_hex : ∀ n < 16, Nat.digitChar n ∈ "0123456789abcdef".toList := by decide

theorem digitChar_inj : ∀ m < 16, ∀ n < 16, Nat.digitChar m = Nat.digitChar n → m = n := by decide

theorem hexByte_lt (b : UInt8) : b.toNat / 16 < 16 ∧ b.toNat % 16 < 16 := by
  have h := b.toNat_lt
  omega

theorem hexByte_injective : Function.Injective hexByte := by
  intro a b h
  simp only [hexByte, List.cons.injEq, and_true] at h
  have hdiv := digitChar_inj _ (hexByte_lt a).1 _ (hexByte_lt b).1 h.1
  have hmod := digitChar_inj _ (hexByte_lt a).2 _ (hexByte_lt b).2 h.2
  apply UInt8.toNat_inj.mp
  omega

theorem hexBytes_injective : ∀ xs ys : List UInt8, xs.flatMap hexByte = ys.flatMap hexByte → xs = ys
  | [], [], _ => rfl
  | [], y :: ys, h => by simp [hexByte] at h
  | x :: xs, [], h => by simp [hexByte] at h
  | x :: xs, y :: ys, h => by
      rw [List.flatMap_cons, List.flatMap_cons] at h
      obtain ⟨hhead, htail⟩ := List.append_inj h rfl
      rw [hexByte_injective hhead, hexBytes_injective xs ys htail]

theorem hexText_injective : Function.Injective hexText := by
  intro a b h
  have hlist := hexBytes_injective _ _ (String.ofList_injective h)
  cases a
  cases b
  simp_all [Array.toList_inj]

@[reducible] def hexPlatform : Platform :=
  { Platform.reference [] with sha256 := hexText, sha256_injective := hexText_injective }

attribute [local instance] hexPlatform

instance : HexDigests where
  hex data c hc := by
    have hlist : c ∈ (hexText data).toList := hc
    rw [hexText, String.toList_ofList] at hlist
    obtain ⟨b, -, hb⟩ := List.mem_flatMap.mp hlist
    simp only [hexByte, List.mem_cons, List.not_mem_nil, or_false] at hb
    rcases hb with rfl | rfl
    · exact digitChar_hex _ (hexByte_lt b).1
    · exact digitChar_hex _ (hexByte_lt b).2

/-! ### Two calls for the same bytes -/

namespace Sample

open ArtifactStore

def bytes : ByteArray := ⟨#[1, 2]⟩

/-- The sample task stores the sample bytes under a name. -/
def storing (filename : String) : Call where
  taskId := "task"
  filename := filename
  data := bytes
  mediaType := "text/plain"
  producer := "tool"
  provenance := []
  stepId := none

/-- The operating system does what it is asked. -/
def willing (n : ℕ) : StoreChance where
  fails := false
  partialData := ByteArray.empty
  suffix := toString n
  uuid4 := toString n
  boundText _ := none

/-- The sample task beside an empty root. -/
def shelf : System storeMachine :=
  ⟨⟨⟨(healthy 0 []).db, ⟨fun _ => none, fun _ => ByteArray.empty, 0, by simp, .ok⟩⟩, []⟩, []⟩

/-- The first call has ended. -/
def storedOnce : System storeMachine :=
  (shelf.started (creating "/root" (storing "a"))).driven 0 ((List.range 10).map willing)

/-- The second call has ended. -/
def storedTwice : System storeMachine :=
  (storedOnce.started (creating "/root" (storing "b"))).driven 1
    ((List.range 10).map fun n => willing (n + 10))

/-- The blob of the sample bytes. -/
def blob : StorePath := ⟨"/root/blobs/sha256/01", "0102"⟩

theorem storedOnce_reachable : Reachable (storeCalls "/root") storedOnce := by
  have hstart : Reachable (storeCalls "/root") shelf := .start _ trivial
  have hspawn := Step.spawn (R := storeCalls "/root") shelf (creating "/root" (storing "a")) ⟨_, rfl⟩
  exact (hstart.step hspawn).steps (Steps.driven (fun _ _ _ => trivial) _ 0 _)

theorem storedTwice_steps : Steps (storeCalls "/root") storedOnce storedTwice := by
  have hspawn := Step.spawn (R := storeCalls "/root") storedOnce (creating "/root" (storing "b"))
    ⟨_, rfl⟩
  exact .head hspawn (Steps.driven (fun _ _ _ => trivial) _ 1 _)

end Sample

/-- The second call has left the blob of the first one alone. -/
theorem artifacts_immutable_twice :
    Sample.storedTwice.snap.state.disk.read Sample.blob = some Sample.bytes := by
  have hkept := (artifacts_immutable Sample.storedOnce_reachable Sample.storedTwice_steps).2.1
  have hblob : Sample.storedOnce.snap.state.disk.blob "/root" Sample.bytes = some Sample.blob := by
    decide +kernel
  have hread : Sample.storedOnce.snap.state.disk.read Sample.blob = some Sample.bytes := by
    decide +kernel
  exact (hkept Sample.bytes Sample.blob Sample.bytes hblob hread).2

end Stored

end Dante
